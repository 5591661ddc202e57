import Treasury.Anchor.Submitter
import Treasury.Kit.Watch

/-! The contract of a wallet that anchors: one commitment is broadcast, watched until it is deep
enough or the polls run out, and finalized. Which of these happens is decided by the first report
that goes back, puts a block above the tip or is deep enough. -/
namespace Treasury
open Kit

abbrev U32 := Bounded 0 4294967296

def PipelineError.display : PipelineError → String
  | .nothingToAnchor => "nothing to anchor"
  | .invalidTransition => "invalid anchoring transition"
  | .heightUnderflow => "current height below block height"
  | .insufficientDepth depth required =>
    "insufficient depth: " ++ depth.val.repr ++ " < required " ++ required.val.repr
  | .receipt message => "receipt hashing failed: " ++ message

namespace Conformance

inductive AnchorViolation where
  | heightWentBackwards (previous observed : U64)
  | anchorNeverConfirmed (required : U64) (polls : U32)
  | receiptCountMismatch (expected found : Nat)
  | underlying (message : String)
  deriving DecidableEq

def verifyReceiptCoverage (expected : Nat) (receipts : List AnchorReceipt) :
    Except AnchorViolation Unit :=
  if receipts.length ≠ expected then .error (.receiptCountMismatch expected receipts.length)
  else .ok ()

namespace AnchorSubmitter

variable {W : Type}

def underlying {ε α : Type} (display : ε → String) (m : Steps W ε α) :
    Steps W AnchorViolation α :=
  fun w => ((m w).1, (m w).2.mapError fun e => .underlying (display e))

/-- The result of a computation that leaves the wallet as it is. -/
def given {ε α : Type} (display : ε → String) (result : Except ε α) :
    Steps W AnchorViolation α := underlying display fun w => (w, result)

def reachedDepth (requiredDepth : U64) : PipelineState → Bool
  | .confirmed _ _ depth => requiredDepth ≤ depth
  | _ => false

/-- The body of the loop: what a report does to the last height and to the pipeline. -/
def judge (requiredDepth : U64) (seen : U64 × AnchorPipeline) (confirmation : Confirmation) :
    Except AnchorViolation ((U64 × AnchorPipeline) ⊕ AnchorPipeline) :=
  if confirmation.currentHeight < seen.1 then
    .error (.heightWentBackwards seen.1 confirmation.currentHeight)
  else match confirmation.includedAt with
    | none => .ok (.inl (confirmation.currentHeight, seen.2))
    | some included =>
      match seen.2.confirmed included confirmation.currentHeight with
      | (_, .error e) => .error (.underlying e.display)
      | (pipeline, .ok ()) =>
        if reachedDepth requiredDepth pipeline.state then .ok (.inr pipeline)
        else .ok (.inl (confirmation.currentHeight, pipeline))

def watchDepth (submitter : ChainAnchorSubmitter W) (requiredDepth : U64) (pollBudget : U32)
    (broadcast : Broadcast) (pipeline : AnchorPipeline) :
    Steps W AnchorViolation ((U64 × AnchorPipeline) ⊕ AnchorPipeline) :=
  watch (underlying SubmitterError.display (submitter.poll broadcast.txRef)) (judge requiredDepth)
    pollBudget.val.toNat (broadcast.submittedHeight, pipeline)

section
variable [External]

def finish (submitter : ChainAnchorSubmitter W) (targetCount : Nat) (requiredDepth : U64)
    (anchoredAt : TimestampNs) (txRef : String) (pipeline : AnchorPipeline) :
    Steps W AnchorViolation (List AnchorReceipt) := do
  let proof ← underlying SubmitterError.display (submitter.calendarProof txRef)
  let receipts ← given PipelineError.display
    (pipeline.finalize ⟨requiredDepth⟩ proof anchoredAt).2
  match verifyReceiptCoverage targetCount receipts with
  | .error violation => Steps.fail violation
  | .ok () => return receipts

def follow (submitter : ChainAnchorSubmitter W) (targetCount : Nat) (requiredDepth : U64)
    (pollBudget : U32) (anchoredAt : TimestampNs) (txRef : String) :
    (U64 × AnchorPipeline) ⊕ AnchorPipeline → Steps W AnchorViolation (List AnchorReceipt)
  | .inl _ => Steps.fail (.anchorNeverConfirmed requiredDepth pollBudget)
  | .inr pipeline => finish submitter targetCount requiredDepth anchoredAt txRef pipeline

def verifyAnchorSubmitterContract (submitter : ChainAnchorSubmitter W) (targets : List AnchorTarget)
    (requiredDepth : U64) (pollBudget : U32) (anchoredAt : TimestampNs) :
    Steps W AnchorViolation (List AnchorReceipt) := do
  let pipeline ← given PipelineError.display (AnchorPipeline.start targets)
  let broadcast ← underlying SubmitterError.display (submitter.broadcast pipeline.root)
  if broadcast.txRef = "" then Steps.fail (.underlying "broadcast returned an empty tx_ref")
  else
    let (pipeline, submitted) := pipeline.submitted broadcast.txRef broadcast.submittedHeight
    let _ ← given PipelineError.display submitted
    let looked ← watchDepth submitter requiredDepth pollBudget broadcast pipeline
    follow submitter targets.length requiredDepth pollBudget anchoredAt broadcast.txRef looked

end

theorem underlying_eq_ok {ε α : Type} {display : ε → String} {m : Steps W ε α} {w next : W} {a : α} :
    underlying display m w = (next, .ok a) ↔ m w = (next, .ok a) := by
  simp only [underlying, Prod.ext_iff, mapError_eq_ok]

theorem given_ok {ε α : Type} (display : ε → String) {result : Except ε α} {a : α}
    (given : result = .ok a) (w : W) :
    AnchorSubmitter.given display result w = (w, .ok a) :=
  underlying_eq_ok.mpr (by rw [given])

end AnchorSubmitter

/- What one report says. -/

def Forward (start : U64) (reports : List Confirmation) : Prop :=
  List.IsChain (· ≤ ·) (start :: reports.map Confirmation.currentHeight)

/-- The height that the next report is compared with. -/
def lastHeight (start : U64) (reports : List Confirmation) : U64 :=
  (reports.map Confirmation.currentHeight).getLastD start

def Deep (requiredDepth : U64) (c : Confirmation) : Prop :=
  ∃ included, c.includedAt = some included ∧ included ≤ c.currentHeight ∧
    requiredDepth.val ≤ c.currentHeight.val - included.val + 1

def Shallow (requiredDepth : U64) (c : Confirmation) : Prop :=
  ∀ included, c.includedAt = some included → included ≤ c.currentHeight ∧
    c.currentHeight.val - included.val + 1 < requiredDepth.val

def Premature (c : Confirmation) : Prop :=
  ∃ included, c.includedAt = some included ∧ c.currentHeight < included

theorem Deep.not_shallow {requiredDepth : U64} {c : Confirmation} (deep : Deep requiredDepth c) :
    ¬Shallow requiredDepth c := by
  obtain ⟨included, seen, _, reached⟩ := deep
  intro shallow
  exact absurd (shallow included seen).2 (not_lt.mpr reached)

theorem Premature.not_shallow {requiredDepth : U64} {c : Confirmation} (premature : Premature c) :
    ¬Shallow requiredDepth c := by
  obtain ⟨included, seen, above⟩ := premature
  intro shallow
  exact absurd (shallow included seen).1 (not_le.mpr above)

theorem Premature.not_deep {requiredDepth : U64} {c : Confirmation} (premature : Premature c) :
    ¬Deep requiredDepth c := by
  rintro ⟨other, shown, below, _⟩
  obtain ⟨included, seen, above⟩ := premature
  cases seen.symm.trans shown
  exact absurd below (not_le.mpr above)

namespace AnchorSubmitter

/-- The pipeline has the commitment in flight under the reference, and these targets. -/
structure Flying (targets : List AnchorTarget) (txRef : String) (p : AnchorPipeline) : Prop where
  targets : p.targets = targets
  inFlight : AnchorPipeline.inFlight p.state = some txRef

section
variable {requiredDepth height : U64} {targets : List AnchorTarget} {txRef : String}
  {p : AnchorPipeline} {c : Confirmation}

/-- What the body of the loop can make of a report. -/
inductive Judgment (requiredDepth height : U64) (targets : List AnchorTarget) (txRef : String)
    (c : Confirmation) : Except AnchorViolation ((U64 × AnchorPipeline) ⊕ AnchorPipeline) → Prop
  | back : c.currentHeight < height →
      Judgment requiredDepth height targets txRef c
        (.error (.heightWentBackwards height c.currentHeight))
  | premature : height ≤ c.currentHeight → Premature c →
      Judgment requiredDepth height targets txRef c
        (.error (.underlying PipelineError.heightUnderflow.display))
  | shallow {p : AnchorPipeline} : height ≤ c.currentHeight → Shallow requiredDepth c →
      Flying targets txRef p →
      Judgment requiredDepth height targets txRef c (.ok (.inl (c.currentHeight, p)))
  | deep {p : AnchorPipeline} {blockHeight depth : U64} : height ≤ c.currentHeight →
      Deep requiredDepth c → p.targets = targets → p.state = .confirmed txRef blockHeight depth →
      requiredDepth ≤ depth → Judgment requiredDepth height targets txRef c (.ok (.inr p))

theorem judge_cases (requiredDepth height : U64) (c : Confirmation)
    (flying : Flying targets txRef p) :
    Judgment requiredDepth height targets txRef c (judge requiredDepth (height, p) c) := by
  unfold judge
  by_cases back : c.currentHeight < height
  · rw [if_pos back]
    exact .back back
  · rw [if_neg back]
    have forward := not_lt.mp back
    cases seen : c.includedAt with
    | none =>
      refine .shallow forward (fun included shown => ?_) flying
      cases seen.symm.trans shown
    | some included =>
      simp only [AnchorPipeline.confirmed, flying.inFlight]
      cases subtracted : c.currentHeight.checkedSub included with
      | none =>
        dsimp only
        refine .premature forward ⟨included, seen, ?_⟩
        by_contra below
        have lower := Bounded.le_def.mp (not_lt.mp below)
        have top := c.currentHeight.upper
        have := included.lower
        obtain ⟨span, same, _⟩ := @Bounded.exists_ofInt? 0 18446744073709551616
          (c.currentHeight.val - included.val) (by omega) (by omega)
        cases subtracted.symm.trans same
      | some span =>
        have span_eq := Bounded.checkedSub_eq_some.mp subtracted
        have nonneg := span.lower
        have below : included ≤ c.currentHeight := Bounded.le_def.mpr (by omega)
        have one : (Bounded.literal 1 : U64).val = 1 := by decide
        have counted := Bounded.saturatingAdd_val span (.literal 1)
        have limit := requiredDepth.upper
        rw [one] at counted
        dsimp only
        by_cases enough : requiredDepth ≤ span.saturatingAdd (.literal 1)
        · rw [if_pos (show reachedDepth requiredDepth (.confirmed ..) = true from
            decide_eq_true enough)]
          have reached := Bounded.le_def.mp enough
          exact .deep forward ⟨included, seen, below, by omega⟩ flying.targets rfl enough
        · rw [if_neg (show ¬reachedDepth requiredDepth (.confirmed ..) = true from
            of_decide_eq_true.mt enough)]
          refine .shallow forward (fun other shown => ?_) ⟨flying.targets, rfl⟩
          cases seen.symm.trans shown
          have short := Bounded.lt_def.mp (not_le.mp enough)
          exact ⟨below, by omega⟩

theorem judge_more (flying : Flying targets txRef p) (forward : height ≤ c.currentHeight)
    (shallow : Shallow requiredDepth c) : ∃ q, Flying targets txRef q ∧
      judge requiredDepth (height, p) c = .ok (.inl (c.currentHeight, q)) := by
  generalize judged : judge requiredDepth (height, p) c = result
  have cases := judge_cases requiredDepth height c flying
  rw [judged] at cases
  cases cases with
  | back back => exact absurd forward (not_le.mpr back)
  | premature _ premature => exact absurd shallow premature.not_shallow
  | shallow _ _ next => exact ⟨_, next, rfl⟩
  | deep _ deep => exact absurd shallow deep.not_shallow

theorem judge_deep (flying : Flying targets txRef p) (forward : height ≤ c.currentHeight)
    (deep : Deep requiredDepth c) : ∃ q, judge requiredDepth (height, p) c = .ok (.inr q) := by
  generalize judged : judge requiredDepth (height, p) c = result
  have cases := judge_cases requiredDepth height c flying
  rw [judged] at cases
  cases cases with
  | back back => exact absurd forward (not_le.mpr back)
  | premature _ premature => exact absurd deep premature.not_deep
  | shallow _ shallow => exact absurd shallow deep.not_shallow
  | deep => exact ⟨_, rfl⟩

theorem judge_back {previous observed : U64} (flying : Flying targets txRef p) :
    judge requiredDepth (height, p) c = .error (.heightWentBackwards previous observed) ↔
      previous = height ∧ observed = c.currentHeight ∧ observed < previous := by
  constructor
  · intro judged
    have cases := judge_cases requiredDepth height c flying
    rw [judged] at cases
    cases cases with
    | back back => exact ⟨rfl, rfl, back⟩
  · rintro ⟨rfl, rfl, back⟩
    exact if_pos back

theorem forward_cons {start : U64} {report : Confirmation} {rest : List Confirmation} :
    Forward start (report :: rest) ↔
      start ≤ report.currentHeight ∧ Forward report.currentHeight rest :=
  List.isChain_cons_cons

theorem forward_concat {start : U64} {report : Confirmation} {reports : List Confirmation} :
    Forward start (reports ++ [report]) ↔
      Forward start reports ∧ lastHeight start reports ≤ report.currentHeight := by
  induction reports generalizing start with
  | nil => simp [Forward, lastHeight]
  | cons head reports ih =>
    have next : lastHeight start (head :: reports) = lastHeight head.currentHeight reports :=
      List.getLastD_cons
    rw [List.cons_append, forward_cons, forward_cons, ih, and_assoc, next]

/-- What the loop has seen when no report decides: the commitment is still in flight, and the
next height is compared with the last one. -/
theorem open_seen {reports : List Confirmation} {q : AnchorPipeline} {last : U64}
    (flying : Flying targets txRef p)
    (left : Open (judge requiredDepth) (height, p) reports (last, q)) :
    Flying targets txRef q ∧ last = lastHeight height reports ∧ Forward height reports ∧
      ∀ report ∈ reports, Shallow requiredDepth report := by
  induction reports generalizing height p with
  | nil =>
    cases left
    exact ⟨flying, rfl, List.isChain_singleton _, by simp⟩
  | cons report rest ih =>
    cases left with
    | cons judged left =>
      have cases := judge_cases requiredDepth height report flying
      rw [judged] at cases
      cases cases with
      | shallow ahead shallow next =>
        obtain ⟨final, last, forward, others⟩ := ih next left
        exact ⟨final, last.trans List.getLastD_cons.symm, forward_cons.mpr ⟨ahead, forward⟩,
          List.forall_mem_cons.mpr ⟨shallow, others⟩⟩

theorem open_of_shallow {reports : List Confirmation} (flying : Flying targets txRef p)
    (forward : Forward height reports) (shallow : ∀ report ∈ reports, Shallow requiredDepth report) :
    ∃ last q, Open (judge requiredDepth) (height, p) reports (last, q) := by
  induction reports generalizing height p with
  | nil => exact ⟨height, p, .nil⟩
  | cons report rest ih =>
    obtain ⟨ahead, forward⟩ := forward_cons.mp forward
    obtain ⟨first, shallow⟩ := List.forall_mem_cons.mp shallow
    obtain ⟨next, flying, judged⟩ := judge_more flying ahead first
    obtain ⟨last, q, left⟩ := ih flying forward shallow
    exact ⟨last, q, .cons judged left⟩

end

theorem polled_underlying {ε α : Type} {display : ε → String} {m : Steps W ε α} {w next : W}
    {answers : List α} : Polled (underlying display m) w answers next ↔ Polled m w answers next := by
  constructor
  · intro polled
    induction polled with
    | nil => exact .nil
    | cons first _ ih => exact .cons (underlying_eq_ok.mp first) ih
  · intro polled
    induction polled with
    | nil => exact .nil
    | cons first _ ih => exact .cons (underlying_eq_ok.mpr first) ih

theorem underlying_error {ε α : Type} {display : ε → String} {m : Steps W ε α} {w next : W}
    {violation : AnchorViolation} (failed : underlying display m w = (next, .error violation)) :
    ∃ message, violation = .underlying message := by
  unfold underlying at failed
  rcases answered : m w with ⟨after, e | a⟩
  · rw [answered] at failed
    cases failed
    exact ⟨_, rfl⟩
  · rw [answered] at failed
    cases failed

variable {submitter : ChainAnchorSubmitter W} {targets : List AnchorTarget}
  {requiredDepth : U64} {pollBudget : U32} {anchoredAt : TimestampNs} {w next : W}

/-- The commitment is in a block, deep enough. -/
def Confirmed (requiredDepth : U64) (targets : List AnchorTarget) (txRef : String)
    (p : AnchorPipeline) : Prop :=
  p.targets = targets ∧ ∃ blockHeight depth, p.state = .confirmed txRef blockHeight depth ∧
    requiredDepth ≤ depth

section
variable {broadcast : Broadcast} {sent seen : W} {p : AnchorPipeline}
  (flying : Flying targets broadcast.txRef p)
include flying

theorem watch_runs_out : (∃ last, watchDepth submitter requiredDepth pollBudget broadcast p sent =
      (seen, .ok (.inl last))) ↔
    ∃ reports, reports.length = pollBudget.val.toNat ∧
      Polled (submitter.poll broadcast.txRef) sent reports seen ∧
      Forward broadcast.submittedHeight reports ∧
      ∀ report ∈ reports, Shallow requiredDepth report := by
  constructor
  · rintro ⟨⟨last, q⟩, watched⟩
    obtain ⟨reports, length, polled, left⟩ := watch_open.mp watched
    obtain ⟨-, -, forward, shallow⟩ := open_seen flying left
    exact ⟨reports, length, polled_underlying.mp polled, forward, shallow⟩
  · rintro ⟨reports, length, polled, forward, shallow⟩
    obtain ⟨last, q, left⟩ := open_of_shallow flying forward shallow
    exact ⟨_, watch_open.mpr ⟨reports, length, polled_underlying.mpr polled, left⟩⟩

theorem watch_confirmed {q : AnchorPipeline}
    (watched : watchDepth submitter requiredDepth pollBudget broadcast p sent =
      (seen, .ok (.inr q))) : Confirmed requiredDepth targets broadcast.txRef q := by
  obtain ⟨reports, report, ⟨last, before⟩, -, -, left, ended⟩ := watch_result.mp watched
  obtain ⟨flying, -⟩ := open_seen flying left
  have judged := judge_cases requiredDepth last report flying
  rw [ended] at judged
  cases judged with
  | deep _ _ holds confirmed enough => exact ⟨holds, _, _, confirmed, enough⟩

theorem watch_deep : (∃ q, watchDepth submitter requiredDepth pollBudget broadcast p sent =
      (seen, .ok (.inr q))) ↔
    ∃ reports report, reports.length < pollBudget.val.toNat ∧
      Polled (submitter.poll broadcast.txRef) sent (reports ++ [report]) seen ∧
      Forward broadcast.submittedHeight (reports ++ [report]) ∧
      (∀ earlier ∈ reports, Shallow requiredDepth earlier) ∧ Deep requiredDepth report := by
  constructor
  · rintro ⟨q, watched⟩
    obtain ⟨reports, report, ⟨last, before⟩, fewer, polled, left, ended⟩ := watch_result.mp watched
    obtain ⟨flying, rfl, forward, shallow⟩ := open_seen flying left
    have judged := judge_cases requiredDepth (lastHeight broadcast.submittedHeight reports) report
      flying
    rw [ended] at judged
    cases judged with
    | deep ahead deep =>
      exact ⟨reports, report, fewer, polled_underlying.mp polled,
        forward_concat.mpr ⟨forward, ahead⟩, shallow, deep⟩
  · rintro ⟨reports, report, fewer, polled, forward, shallow, deep⟩
    obtain ⟨forward, ahead⟩ := forward_concat.mp forward
    obtain ⟨last, before, left⟩ := open_of_shallow flying forward shallow
    obtain ⟨flying, rfl, -, -⟩ := open_seen flying left
    obtain ⟨q, ended⟩ := judge_deep flying ahead deep
    exact ⟨q, watch_result.mpr ⟨reports, report, _, fewer, polled_underlying.mpr polled, left, ended⟩⟩

theorem watch_back {previous observed : U64} :
    watchDepth submitter requiredDepth pollBudget broadcast p sent =
        (seen, .error (.heightWentBackwards previous observed)) ↔
      ∃ reports report, reports.length < pollBudget.val.toNat ∧
        Polled (submitter.poll broadcast.txRef) sent (reports ++ [report]) seen ∧
        Forward broadcast.submittedHeight reports ∧
        (∀ earlier ∈ reports, Shallow requiredDepth earlier) ∧
        previous = lastHeight broadcast.submittedHeight reports ∧
        observed = report.currentHeight ∧ observed < previous := by
  constructor
  · intro watched
    obtain ⟨reports, mid, ⟨last, before⟩, fewer, polled, left, ends⟩ := watch_error.mp watched
    obtain ⟨flying, rfl, forward, shallow⟩ := open_seen flying left
    rcases ends with failed | ⟨report, answered, judged⟩
    · obtain ⟨message, other⟩ := underlying_error failed
      cases other
    · refine ⟨reports, report, fewer, ?_, forward, shallow, (judge_back flying).mp judged⟩
      exact (polled_underlying.mp polled).concat (underlying_eq_ok.mp answered)
  · rintro ⟨reports, report, fewer, polled, forward, shallow, back⟩
    obtain ⟨last, before, left⟩ := open_of_shallow flying forward shallow
    obtain ⟨flying, rfl, -, -⟩ := open_seen flying left
    obtain ⟨mid, polled, answered⟩ := polled_concat.mp polled
    refine watch_error.mpr ⟨reports, mid, _, fewer, polled_underlying.mpr polled, left, .inr ?_⟩
    exact ⟨report, underlying_eq_ok.mpr answered, (judge_back flying).mpr back⟩

theorem watch_fails {violation : AnchorViolation}
    (watched : watchDepth submitter requiredDepth pollBudget broadcast p sent =
      (seen, .error violation)) :
    (∃ previous observed, violation = .heightWentBackwards previous observed) ∨
      ∃ message, violation = .underlying message := by
  obtain ⟨reports, mid, ⟨last, before⟩, -, -, left, ends⟩ := watch_error.mp watched
  obtain ⟨flying, -⟩ := open_seen flying left
  rcases ends with failed | ⟨report, -, judged⟩
  · exact .inr (underlying_error failed)
  · have cases := judge_cases requiredDepth last report flying
    rw [judged] at cases
    cases cases with
    | back => exact .inl ⟨_, _, rfl⟩
    | premature => exact .inr ⟨_, rfl⟩

end

variable [External]

/-- The root of the targets was broadcast under a reference. -/
def Sends (submitter : ChainAnchorSubmitter W) (targets : List AnchorTarget) (w : W)
    (broadcast : Broadcast) (sent : W) : Prop :=
  ∃ aggregation, Aggregation.aggregate (targets.map AnchorTarget.treeHead) = some aggregation ∧
    submitter.broadcast aggregation.root w = (sent, .ok broadcast) ∧ broadcast.txRef ≠ ""

theorem verify_cases (submitter : ChainAnchorSubmitter W) (targets : List AnchorTarget)
    (requiredDepth : U64) (pollBudget : U32) (anchoredAt : TimestampNs) (w : W) :
    (∃ failed message, (∀ broadcast sent, ¬Sends submitter targets w broadcast sent) ∧
      verifyAnchorSubmitterContract submitter targets requiredDepth pollBudget anchoredAt w =
        (failed, .error (.underlying message))) ∨
    ∃ broadcast sent p, Sends submitter targets w broadcast sent ∧
      Flying targets broadcast.txRef p ∧
      verifyAnchorSubmitterContract submitter targets requiredDepth pollBudget anchoredAt w =
        (watchDepth submitter requiredDepth pollBudget broadcast p >>=
          follow submitter targets.length requiredDepth pollBudget anchoredAt broadcast.txRef)
            sent := by
  rcases made : Aggregation.aggregate (targets.map AnchorTarget.treeHead) with _ | aggregation
  · have nothing : AnchorPipeline.start targets = .error .nothingToAnchor := by
      rw [AnchorPipeline.start, made]
    refine .inl ⟨w, PipelineError.nothingToAnchor.display, fun broadcast sent sends => ?_,
      Steps.bind_of_error ?_⟩
    · obtain ⟨_, other, _⟩ := sends
      cases made.symm.trans other
    · unfold given underlying
      rw [nothing]
      rfl
  · have started : AnchorPipeline.start targets = .ok ⟨targets, aggregation, .pending⟩ := by
      rw [AnchorPipeline.start, made]
    have begun := given_ok PipelineError.display started w
    rcases answered : submitter.broadcast aggregation.root w with ⟨sent, e | broadcast⟩
    · have failed : underlying SubmitterError.display (submitter.broadcast aggregation.root) w =
          (sent, .error (.underlying e.display)) := by
        rw [underlying, answered]
        rfl
      refine .inl ⟨sent, e.display, fun broadcast sent sends => ?_,
        (Steps.bind_of_ok begun).trans (Steps.bind_of_error failed)⟩
      obtain ⟨_, other, sends, _⟩ := sends
      cases made.symm.trans other
      cases answered.symm.trans sends
    · have answer := (@underlying_eq_ok _ _ _ SubmitterError.display _ _ _ _).mpr answered
      by_cases empty : broadcast.txRef = ""
      · refine .inl ⟨sent, "broadcast returned an empty tx_ref", fun other next sends => ?_, ?_⟩
        · obtain ⟨_, same, sends, named⟩ := sends
          cases made.symm.trans same
          cases answered.symm.trans sends
          exact named empty
        · refine (Steps.bind_of_ok begun).trans ((Steps.bind_of_ok answer).trans ?_)
          rw [if_pos empty]
          rfl
      · refine .inr ⟨broadcast, sent,
          ⟨targets, aggregation, .submitted broadcast.txRef broadcast.submittedHeight⟩,
          ⟨aggregation, made, answered, empty⟩, ⟨rfl, rfl⟩, ?_⟩
        refine (Steps.bind_of_ok begun).trans ((Steps.bind_of_ok answer).trans ?_)
        rw [if_neg empty]
        rfl

/-- The commitment was broadcast, and these are the reports of the polls that followed. -/
def Reports (submitter : ChainAnchorSubmitter W) (targets : List AnchorTarget) (w : W)
    (broadcast : Broadcast) (reports : List Confirmation) (seen : W) : Prop :=
  ∃ sent, Sends submitter targets w broadcast sent ∧
    Polled (submitter.poll broadcast.txRef) sent reports seen

theorem finalize_confirmed (anchoredAt : TimestampNs) {txRef : String} {p : AnchorPipeline}
    {blockHeight depth : U64}
    (confirmed : p.state = .confirmed txRef blockHeight depth) (enough : requiredDepth ≤ depth)
    (proof : ContentHash) {confirmationPolicy : ContentHash}
    (hashed : (⟨requiredDepth⟩ : AnchorPolicy).policyHash = .ok confirmationPolicy) :
    (p.finalize ⟨requiredDepth⟩ proof anchoredAt).2 =
      .ok (p.targets.map (AnchorPipeline.receiptFor txRef anchoredAt confirmationPolicy)) := by
  simp only [AnchorPipeline.finalize, confirmed, if_neg (not_lt.mpr enough), hashed,
    AnchorPipeline.makeReceipts_eq]

theorem finish_cases {txRef : String} {p : AnchorPipeline} {blockHeight depth : U64}
    (confirmed : p.state = .confirmed txRef blockHeight depth) (enough : requiredDepth ≤ depth)
    {confirmationPolicy : ContentHash}
    (hashed : (⟨requiredDepth⟩ : AnchorPolicy).policyHash = .ok confirmationPolicy) :
    finish submitter p.targets.length requiredDepth anchoredAt txRef p w =
      ((submitter.calendarProof txRef w).1, match (submitter.calendarProof txRef w).2 with
        | .error e => .error (.underlying e.display)
        | .ok _ => .ok (p.targets.map
          (AnchorPipeline.receiptFor txRef anchoredAt confirmationPolicy))) := by
  unfold finish
  rcases proved : submitter.calendarProof txRef w with ⟨after, e | proof⟩
  · refine Steps.bind_of_error ?_
    rw [underlying, proved]
    rfl
  · rw [Steps.bind_of_ok (underlying_eq_ok.mpr proved)]
    have receipts := finalize_confirmed anchoredAt confirmed enough proof hashed
    rw [Steps.bind_of_ok (given_ok PipelineError.display receipts after)]
    simp only [verifyReceiptCoverage, List.length_map, ne_eq, not_true, if_false]
    rfl

theorem Sends.unique {broadcast other : Broadcast} {sent after : W}
    (sends : Sends submitter targets w broadcast sent) (again : Sends submitter targets w other after) :
    broadcast = other ∧ sent = after := by
  obtain ⟨_, made, answered, _⟩ := sends
  obtain ⟨_, same, repeated, _⟩ := again
  cases made.symm.trans same
  cases answered.symm.trans repeated
  exact ⟨rfl, rfl⟩

theorem verify_sent (requiredDepth : U64) (pollBudget : U32) (anchoredAt : TimestampNs)
    {broadcast : Broadcast} {sent : W}
    (sends : Sends submitter targets w broadcast sent) :
    ∃ p, Flying targets broadcast.txRef p ∧
      verifyAnchorSubmitterContract submitter targets requiredDepth pollBudget anchoredAt w =
        (watchDepth submitter requiredDepth pollBudget broadcast p >>=
          follow submitter targets.length requiredDepth pollBudget anchoredAt broadcast.txRef)
            sent := by
  rcases verify_cases submitter targets requiredDepth pollBudget anchoredAt w with
    ⟨_, _, silent, _⟩ | ⟨_, _, p, again, flying, verified⟩
  · exact absurd sends (silent broadcast sent)
  · obtain ⟨rfl, rfl⟩ := sends.unique again
    exact ⟨p, flying, verified⟩

theorem follow_confirmed {txRef : String} {p : AnchorPipeline}
    (confirmed : Confirmed requiredDepth targets txRef p) {confirmationPolicy : ContentHash}
    (hashed : (⟨requiredDepth⟩ : AnchorPolicy).policyHash = .ok confirmationPolicy) :
    follow submitter targets.length requiredDepth pollBudget anchoredAt txRef (.inr p) w =
      ((submitter.calendarProof txRef w).1, match (submitter.calendarProof txRef w).2 with
        | .error e => .error (.underlying e.display)
        | .ok _ => .ok (targets.map
          (AnchorPipeline.receiptFor txRef anchoredAt confirmationPolicy))) := by
  obtain ⟨rfl, blockHeight, depth, state, enough⟩ := confirmed
  exact finish_cases state enough hashed

/-- The commitment was broadcast under a reference, the reports never go back, the last one is the
first that is deep enough and no block before it was above the tip, and it came within budget. -/
structure Buries (submitter : ChainAnchorSubmitter W) (targets : List AnchorTarget)
    (requiredDepth : U64) (pollBudget : U32) (w : W) (broadcast : Broadcast)
    (reports : List Confirmation) (report : Confirmation) (seen : W) : Prop where
  reported : Reports submitter targets w broadcast (reports ++ [report]) seen
  within : reports.length < pollBudget.val.toNat
  forward : Forward broadcast.submittedHeight (reports ++ [report])
  shallow : ∀ earlier ∈ reports, Shallow requiredDepth earlier
  deep : Deep requiredDepth report

theorem Buries.accepted {broadcast : Broadcast} {reports : List Confirmation}
    {report : Confirmation} {seen : W} {proof confirmationPolicy : ContentHash}
    (buries : Buries submitter targets requiredDepth pollBudget w broadcast reports report seen)
    (proved : submitter.calendarProof broadcast.txRef seen = (next, .ok proof))
    (hashed : (⟨requiredDepth⟩ : AnchorPolicy).policyHash = .ok confirmationPolicy) :
    verifyAnchorSubmitterContract submitter targets requiredDepth pollBudget anchoredAt w =
      (next, .ok (targets.map
        (AnchorPipeline.receiptFor broadcast.txRef anchoredAt confirmationPolicy))) := by
  obtain ⟨⟨sent, sends, polled⟩, within, forward, shallow, deep⟩ := buries
  obtain ⟨p, flying, verified⟩ := verify_sent requiredDepth pollBudget anchoredAt sends
  obtain ⟨q, watched⟩ :=
    (watch_deep flying).mpr ⟨reports, report, within, polled, forward, shallow, deep⟩
  rw [verified, Steps.bind_of_ok watched, follow_confirmed (watch_confirmed flying watched) hashed,
    proved]

theorem buries_of_accepted {receipts : List AnchorReceipt}
    (accepted : verifyAnchorSubmitterContract submitter targets requiredDepth pollBudget anchoredAt
      w = (next, .ok receipts)) :
    ∃ broadcast reports report seen proof confirmationPolicy,
      Buries submitter targets requiredDepth pollBudget w broadcast reports report seen ∧
      submitter.calendarProof broadcast.txRef seen = (next, .ok proof) ∧
      (⟨requiredDepth⟩ : AnchorPolicy).policyHash = .ok confirmationPolicy ∧
      receipts = targets.map
        (AnchorPipeline.receiptFor broadcast.txRef anchoredAt confirmationPolicy) := by
  rcases verify_cases submitter targets requiredDepth pollBudget anchoredAt w with
    ⟨_, _, _, failed⟩ | ⟨broadcast, sent, p, sends, flying, verified⟩
  · cases accepted.symm.trans failed
  · obtain ⟨seen, looked, watched, followed⟩ := Steps.bind_eq_ok.mp (verified.symm.trans accepted)
    cases looked with
    | inl last => cases followed
    | inr q =>
      obtain ⟨reports, report, within, polled, forward, shallow, deep⟩ :=
        (watch_deep flying).mp ⟨q, watched⟩
      have hashed := AnchorPolicy.policyHash_eq ⟨requiredDepth⟩
      rw [follow_confirmed (watch_confirmed flying watched) hashed] at followed
      rcases proved : submitter.calendarProof broadcast.txRef seen with ⟨after, e | proof⟩
      · rw [proved] at followed
        cases followed
      · rw [proved] at followed
        cases followed
        exact ⟨broadcast, reports, report, seen, proof, _,
          ⟨⟨sent, sends, polled⟩, within, forward, shallow, deep⟩, proved, hashed, rfl⟩

theorem verify_alarm {violation : AnchorViolation}
    (named : ∀ message, violation ≠ .underlying message)
    (failed : verifyAnchorSubmitterContract submitter targets requiredDepth pollBudget anchoredAt w =
      (next, .error violation)) :
    ∃ broadcast sent p, Sends submitter targets w broadcast sent ∧
      Flying targets broadcast.txRef p ∧
      ((∃ last, watchDepth submitter requiredDepth pollBudget broadcast p sent =
          (next, .ok (.inl last))) ∧ violation = .anchorNeverConfirmed requiredDepth pollBudget ∨
        watchDepth submitter requiredDepth pollBudget broadcast p sent =
          (next, .error violation)) := by
  rcases verify_cases submitter targets requiredDepth pollBudget anchoredAt w with
    ⟨_, message, _, other⟩ | ⟨broadcast, sent, p, sends, flying, verified⟩
  · cases failed.symm.trans other
    exact absurd rfl (named message)
  · refine ⟨broadcast, sent, p, sends, flying, ?_⟩
    rw [verified] at failed
    rcases watched : watchDepth submitter requiredDepth pollBudget broadcast p sent with
      ⟨seen, e | last | q⟩
    · rw [Steps.bind_of_error watched] at failed
      cases failed
      exact .inr rfl
    · rw [Steps.bind_of_ok watched] at failed
      cases failed
      exact .inl ⟨⟨last, rfl⟩, rfl⟩
    · rw [Steps.bind_of_ok watched, follow_confirmed (watch_confirmed flying watched)
        (AnchorPolicy.policyHash_eq ⟨requiredDepth⟩)] at failed
      rcases proved : submitter.calendarProof broadcast.txRef seen with ⟨after, e | proof⟩
      · rw [proved] at failed
        cases failed
        exact absurd rfl (named _)
      · rw [proved] at failed
        cases failed

theorem Reports.never_confirmed {broadcast : Broadcast} {reports : List Confirmation}
    (reported : Reports submitter targets w broadcast reports next)
    (all : reports.length = pollBudget.val.toNat)
    (forward : Forward broadcast.submittedHeight reports)
    (shallow : ∀ report ∈ reports, Shallow requiredDepth report) :
    verifyAnchorSubmitterContract submitter targets requiredDepth pollBudget anchoredAt w =
      (next, .error (.anchorNeverConfirmed requiredDepth pollBudget)) := by
  obtain ⟨sent, sends, polled⟩ := reported
  obtain ⟨p, flying, verified⟩ := verify_sent _ _ _ sends
  obtain ⟨last, watched⟩ := (watch_runs_out flying).mpr ⟨reports, all, polled, forward, shallow⟩
  rw [verified, Steps.bind_of_ok watched]
  rfl

end AnchorSubmitter

end Conformance

end Treasury
