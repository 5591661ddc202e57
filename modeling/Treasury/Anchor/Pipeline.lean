import Treasury.Anchor.Aggregation
import Treasury.Anchor.Policy
import Treasury.Kit.Lifecycle

/-! One aggregation on its way to the chain. The chain adapter reports what it saw, and no
call guesses: a commitment is anchored after it was broadcast, at the depth that the last
report of a block gave it, under the policy that the receipts name. -/
namespace Treasury
open Kit

structure AnchorTarget where
  treeHead : ContentHash
  entryCount : U64
  deriving DecidableEq

inductive PipelineState where
  | pending
  | submitted (txRef : String) (submittedHeight : U64)
  | confirmed (txRef : String) (blockHeight depth : U64)
  | anchored (txRef : String) (proofEvidence : ContentHash)
  deriving DecidableEq

inductive PipelineError where
  | nothingToAnchor
  | invalidTransition
  | heightUnderflow
  | insufficientDepth (depth required : U64)
  | receipt (message : String)
  deriving DecidableEq

def PipelineError.ofCanon (e : CanonError) : PipelineError := .receipt e.display

structure AnchorPipeline where
  targets : List AnchorTarget
  aggregation : Aggregation
  state : PipelineState

namespace AnchorPipeline

def root (p : AnchorPipeline) : ContentHash := p.aggregation.root

def submitted (p : AnchorPipeline) (txRef : String) (submittedHeight : U64) :
    AnchorPipeline × Except PipelineError Unit :=
  if p.state ≠ .pending then (p, .error .invalidTransition)
  else ({ p with state := .submitted txRef submittedHeight }, .ok ())

/-- The reference of a commitment that is broadcast and not yet anchored. -/
def inFlight : PipelineState → Option String
  | .submitted txRef _ => some txRef
  | .confirmed txRef _ _ => some txRef
  | _ => none

def confirmed (p : AnchorPipeline) (blockHeight currentHeight : U64) :
    AnchorPipeline × Except PipelineError Unit :=
  match inFlight p.state with
  | none => (p, .error .invalidTransition)
  | some txRef =>
    match currentHeight.checkedSub blockHeight with
    | none => (p, .error .heightUnderflow)
    | some span =>
      let depth := span.saturatingAdd (.literal 1)
      ({ p with state := .confirmed txRef blockHeight depth }, .ok ())

def receiptFor (txRef : String) (anchoredAt : TimestampNs) (confirmationPolicy : ContentHash)
    (target : AnchorTarget) : AnchorReceipt :=
  ⟨target.treeHead, target.entryCount, .publicChain "bitcoin" txRef, anchoredAt,
    confirmationPolicy⟩

/-- A receipt of the target: its head and count, the transaction, the time and the policy. -/
structure Attests (txRef : String) (anchoredAt : TimestampNs) (confirmationPolicy : ContentHash)
    (target : AnchorTarget) (receipt : AnchorReceipt) : Prop where
  treeHead : receipt.treeHead = target.treeHead
  entryCount : receipt.entryCount = target.entryCount
  method : receipt.method = .publicChain "bitcoin" txRef
  anchoredAt : receipt.anchoredAt = anchoredAt
  confirmationPolicy : receipt.confirmationPolicy = confirmationPolicy

theorem attests_iff {txRef : String} {anchoredAt : TimestampNs} {confirmationPolicy : ContentHash}
    {target : AnchorTarget} {receipt : AnchorReceipt} :
    Attests txRef anchoredAt confirmationPolicy target receipt ↔
      receipt = receiptFor txRef anchoredAt confirmationPolicy target := by
  constructor
  · rintro ⟨head, count, method, time, policy⟩
    cases receipt
    simp only [receiptFor, AnchorReceipt.mk.injEq]
    exact ⟨head, count, method, time, policy⟩
  · rintro rfl
    exact ⟨rfl, rfl, rfl, rfl, rfl⟩

theorem attested_iff {txRef : String} {anchoredAt : TimestampNs} {confirmationPolicy : ContentHash}
    {targets : List AnchorTarget} {receipts : List AnchorReceipt} :
    List.Forall₂ (Attests txRef anchoredAt confirmationPolicy) targets receipts ↔
      receipts = targets.map (receiptFor txRef anchoredAt confirmationPolicy) := by
  induction targets generalizing receipts with
  | nil => simp
  | cons target rest ih =>
    cases receipts with
    | nil => simp
    | cons receipt receipts => simp [attests_iff, ih]

def isOverdue (p : AnchorPipeline) (currentHeight maxBlocks : U64) : Bool :=
  match p.state with
  | .submitted _ submittedHeight => maxBlocks < currentHeight.saturatingSub submittedHeight
  | _ => false

section
variable [External]

def start (targets : List AnchorTarget) : Except PipelineError AnchorPipeline :=
  match Aggregation.aggregate (targets.map AnchorTarget.treeHead) with
  | none => .error .nothingToAnchor
  | some aggregation => .ok ⟨targets, aggregation, .pending⟩

def makeReceipts (txRef : String) (anchoredAt : TimestampNs) (confirmationPolicy : ContentHash) :
    List AnchorTarget → Except CanonError (List AnchorReceipt)
  | [] => .ok []
  | target :: rest => do
    let receipt := receiptFor txRef anchoredAt confirmationPolicy target
    let _ ← receipt.receiptHash
    let receipts ← makeReceipts txRef anchoredAt confirmationPolicy rest
    return receipt :: receipts

def finalize (p : AnchorPipeline) (policy : AnchorPolicy) (proofEvidence : ContentHash)
    (anchoredAt : TimestampNs) : AnchorPipeline × Except PipelineError (List AnchorReceipt) :=
  match p.state with
  | .confirmed txRef _ depth =>
    if depth < policy.requiredDepth then
      (p, .error (.insufficientDepth depth policy.requiredDepth))
    else match policy.policyHash with
      | .error e => (p, .error (.ofCanon e))
      | .ok confirmationPolicy =>
        match makeReceipts txRef anchoredAt confirmationPolicy p.targets with
        | .error e => (p, .error (.ofCanon e))
        | .ok receipts => ({ p with state := .anchored txRef proofEvidence }, .ok receipts)
  | _ => (p, .error .invalidTransition)

theorem start_ok {targets : List AnchorTarget} {p : AnchorPipeline}
    (started : start targets = .ok p) : p.targets = targets ∧ p.state = .pending := by
  unfold start at started
  split at started
  · cases started
  · cases started
    exact ⟨rfl, rfl⟩

theorem makeReceipts_eq (txRef : String) (anchoredAt : TimestampNs)
    (confirmationPolicy : ContentHash) (targets : List AnchorTarget) :
    makeReceipts txRef anchoredAt confirmationPolicy targets =
      .ok (targets.map (receiptFor txRef anchoredAt confirmationPolicy)) := by
  induction targets with
  | nil => rfl
  | cons target rest ih =>
    simp only [makeReceipts, AnchorReceipt.receiptHash_eq, ih]
    rfl

end

inductive PipelineCall where
  | submitted (txRef : String) (submittedHeight : U64)
  | confirmed (blockHeight currentHeight : U64)
  | finalize (policy : AnchorPolicy) (proofEvidence : ContentHash) (anchoredAt : TimestampNs)

def PipelineCall.IsConfirmed (c : PipelineCall) : Prop :=
  ∃ blockHeight currentHeight, c = .confirmed blockHeight currentHeight

/-- How a call that returns `Ok` moves the state. -/
inductive Moves : PipelineCall → PipelineState → PipelineState → Prop
  | submitted {txRef : String} {height : U64} :
      Moves (.submitted txRef height) .pending (.submitted txRef height)
  | confirmed {txRef : String} {old : PipelineState} {blockHeight currentHeight depth : U64} :
      inFlight old = some txRef → blockHeight ≤ currentHeight →
      depth.val ≤ currentHeight.val - blockHeight.val + 1 →
      Moves (.confirmed blockHeight currentHeight) old (.confirmed txRef blockHeight depth)
  | finalized {txRef : String} {blockHeight depth : U64} {policy : AnchorPolicy}
      {proofEvidence : ContentHash} {anchoredAt : TimestampNs} :
      policy.requiredDepth ≤ depth →
      Moves (.finalize policy proofEvidence anchoredAt) (.confirmed txRef blockHeight depth)
        (.anchored txRef proofEvidence)

section
variable [External]

def perform (p : AnchorPipeline) : PipelineCall → AnchorPipeline × Except PipelineError Unit
  | .submitted txRef height => p.submitted txRef height
  | .confirmed blockHeight currentHeight => p.confirmed blockHeight currentHeight
  | .finalize policy proofEvidence anchoredAt =>
    let (next, result) := p.finalize policy proofEvidence anchoredAt
    (next, result.map fun _ => ())

theorem finalize_cases (p : AnchorPipeline) (policy : AnchorPolicy) (proofEvidence : ContentHash)
    (anchoredAt : TimestampNs) :
    (∃ e, p.finalize policy proofEvidence anchoredAt = (p, .error e)) ∨
      ∃ txRef blockHeight depth confirmationPolicy,
        p.state = .confirmed txRef blockHeight depth ∧ policy.requiredDepth ≤ depth ∧
        policy.policyHash = .ok confirmationPolicy ∧
        p.finalize policy proofEvidence anchoredAt =
          ({ p with state := .anchored txRef proofEvidence },
            .ok (p.targets.map (receiptFor txRef anchoredAt confirmationPolicy))) := by
  unfold finalize
  cases was : p.state with
  | pending | submitted | anchored => exact .inl ⟨_, rfl⟩
  | confirmed txRef blockHeight depth =>
    by_cases shallow : depth < policy.requiredDepth
    · exact .inl ⟨_, if_pos shallow⟩
    · refine .inr ⟨txRef, blockHeight, depth, _, rfl, not_lt.mp shallow, policy.policyHash_eq, ?_⟩
      simp [shallow, AnchorPolicy.policyHash_eq, makeReceipts_eq]

omit [External] in
theorem confirmed_cases (p : AnchorPipeline) (blockHeight currentHeight : U64) :
    (∃ e, p.confirmed blockHeight currentHeight = (p, .error e)) ∨
      ∃ txRef depth, inFlight p.state = some txRef ∧ blockHeight ≤ currentHeight ∧
        depth.val ≤ currentHeight.val - blockHeight.val + 1 ∧
        p.confirmed blockHeight currentHeight =
          ({ p with state := .confirmed txRef blockHeight depth }, .ok ()) := by
  unfold confirmed
  cases broadcast : inFlight p.state with
  | none => exact .inl ⟨_, rfl⟩
  | some txRef =>
    cases above : currentHeight.checkedSub blockHeight with
    | none => exact .inl ⟨.heightUnderflow, rfl⟩
    | some span =>
      have span_eq := Bounded.checkedSub_eq_some.mp above
      have nonneg := span.lower
      refine .inr ⟨txRef, _, rfl, Bounded.le_def.mpr (by omega), ?_, rfl⟩
      rw [span_eq]
      exact Bounded.saturatingAdd_le span _

theorem perform_cases (p : AnchorPipeline) (c : PipelineCall) :
    (∃ e, p.perform c = (p, .error e)) ∨
      ∃ new, Moves c p.state new ∧ p.perform c = ({ p with state := new }, .ok ()) := by
  cases c with
  | submitted txRef height =>
    by_cases waiting : p.state = .pending
    · refine .inr ⟨.submitted txRef height, waiting ▸ .submitted, ?_⟩
      exact if_neg (not_not.mpr waiting)
    · exact .inl ⟨_, if_pos waiting⟩
  | confirmed blockHeight currentHeight =>
    rcases confirmed_cases p blockHeight currentHeight with
      ⟨e, refused⟩ | ⟨txRef, depth, broadcast, above, deep, accepted⟩
    · exact .inl ⟨e, refused⟩
    · exact .inr ⟨_, .confirmed broadcast above deep, accepted⟩
  | finalize policy proofEvidence anchoredAt =>
    rcases finalize_cases p policy proofEvidence anchoredAt with
      ⟨e, refused⟩ | ⟨txRef, blockHeight, depth, _, was, deep, _, accepted⟩
    · exact .inl ⟨e, by simp only [perform, refused, Except.map]⟩
    · refine .inr ⟨.anchored txRef proofEvidence, was ▸ .finalized deep, ?_⟩
      simp only [perform, accepted, Except.map]

/-- What the state tells of the calls that returned `Ok`, in order. -/
def Recorded (taken : List PipelineCall) : PipelineState → Prop
  | .pending => taken = []
  | .submitted txRef height => taken = [.submitted txRef height]
  | .confirmed txRef blockHeight depth => ∃ height observed currentHeight,
      taken = .submitted txRef height :: (observed ++ [.confirmed blockHeight currentHeight]) ∧
        (∀ c ∈ observed, c.IsConfirmed) ∧
        blockHeight ≤ currentHeight ∧ depth.val ≤ currentHeight.val - blockHeight.val + 1
  | .anchored txRef proofEvidence =>
      ∃ height observed blockHeight currentHeight policy anchoredAt,
      taken = .submitted txRef height :: (observed ++
        [.confirmed blockHeight currentHeight, .finalize policy proofEvidence anchoredAt]) ∧
        (∀ c ∈ observed, c.IsConfirmed) ∧ blockHeight ≤ currentHeight ∧
        policy.requiredDepth.val ≤ currentHeight.val - blockHeight.val + 1

omit [External] in
theorem Recorded.inFlight {taken : List PipelineCall} {s : PipelineState} {txRef : String}
    (recorded : Recorded taken s) (broadcast : AnchorPipeline.inFlight s = some txRef) :
    ∃ height observed, taken = .submitted txRef height :: observed ∧
      ∀ c ∈ observed, c.IsConfirmed := by
  cases s with
  | pending | anchored => cases broadcast
  | submitted =>
    cases broadcast
    exact ⟨_, [], recorded, by simp⟩
  | confirmed =>
    cases broadcast
    obtain ⟨height, observed, currentHeight, rfl, reports, -⟩ := recorded
    refine ⟨height, _, rfl, fun c member => ?_⟩
    rcases List.mem_append.mp member with before | last
    · exact reports c before
    · exact ⟨_, _, List.mem_singleton.mp last⟩

omit [External] in
theorem Recorded.move {taken : List PipelineCall} {c : PipelineCall} {old new : PipelineState}
    (recorded : Recorded taken old) (moves : Moves c old new) : Recorded (taken ++ [c]) new := by
  cases moves with
  | submitted =>
    obtain rfl : taken = [] := recorded
    rfl
  | confirmed broadcast above deep =>
    obtain ⟨height, observed, rfl, reports⟩ := recorded.inFlight broadcast
    exact ⟨height, observed, _, rfl, reports, above, deep⟩
  | @finalized _ blockHeight _ policy _ anchoredAt enough =>
    obtain ⟨height, observed, currentHeight, rfl, reports, above, deep⟩ := recorded
    have reached := (Bounded.le_def.mp enough).trans deep
    refine ⟨height, observed, blockHeight, currentHeight, policy, anchoredAt, ?_, reports, above,
      reached⟩
    simp only [List.cons_append, List.append_assoc, List.nil_append]

theorem targets_run (p : AnchorPipeline) (calls : List PipelineCall) :
    (run (advance perform) p calls).targets = p.targets := by
  refine run_invariant (advance perform) (fun q => q.targets = p.targets) ?_ calls p rfl
  intro q c same
  rcases perform_cases q c with ⟨e, refused⟩ | ⟨new, -, accepted⟩
  · simpa only [advance, refused] using same
  · simpa only [advance, accepted] using same

theorem recorded_run {p : AnchorPipeline} (fresh : p.state = .pending)
    (calls : List PipelineCall) :
    Recorded (succeeded perform p calls) (run (advance perform) p calls).state := by
  induction calls using List.reverseRecOn with
  | nil =>
    rw [run, fresh]
    rfl
  | append_singleton calls c ih =>
    rw [succeeded_concat, run_append]
    generalize run (advance perform) p calls = q at ih ⊢
    rcases perform_cases q c with ⟨e, refused⟩ | ⟨new, moves, accepted⟩
    · simpa [success, run, advance, refused] using ih
    · simpa [success, run, advance, accepted] using ih.move moves

theorem anchored_stays {p : AnchorPipeline} {txRef : String} {proofEvidence : ContentHash}
    (done : p.state = .anchored txRef proofEvidence) (more : List PipelineCall) :
    (run (advance perform) p more).state = .anchored txRef proofEvidence := by
  refine run_invariant (advance perform) (fun q => q.state = .anchored txRef proofEvidence) ?_
    more p done
  intro q c stands
  rcases perform_cases q c with ⟨e, refused⟩ | ⟨new, moves, -⟩
  · simpa only [advance, refused] using stands
  · rw [stands] at moves
    cases moves with
    | confirmed broadcast => cases broadcast

/-- What holds of a pipeline after the calls. -/
structure Safe (targets : List AnchorTarget) (p : AnchorPipeline) (calls : List PipelineCall) :
    Prop where
  anchored : ∀ txRef proofEvidence,
    (run (advance perform) p calls).state = .anchored txRef proofEvidence →
      ∃ height observed blockHeight currentHeight policy anchoredAt,
        succeeded perform p calls = .submitted txRef height :: (observed ++
          [.confirmed blockHeight currentHeight, .finalize policy proofEvidence anchoredAt]) ∧
        (∀ c ∈ observed, c.IsConfirmed) ∧ blockHeight ≤ currentHeight ∧
        policy.requiredDepth.val ≤ currentHeight.val - blockHeight.val + 1
  finalized : ∀ policy proofEvidence anchoredAt q receipts,
    (run (advance perform) p calls).finalize policy proofEvidence anchoredAt = (q, .ok receipts) →
      ∃ txRef height confirmationPolicy,
        (succeeded perform p calls).head? = some (.submitted txRef height) ∧
        policy.policyHash = .ok confirmationPolicy ∧
        q.state = .anchored txRef proofEvidence ∧
        List.Forall₂ (Attests txRef anchoredAt confirmationPolicy) targets receipts
  final : ∀ txRef proofEvidence,
    (run (advance perform) p calls).state = .anchored txRef proofEvidence →
      ∀ more, (run (advance perform) p (calls ++ more)).state = .anchored txRef proofEvidence
  refused : ∀ c e, (perform (run (advance perform) p calls) c).2 = .error e →
    (perform (run (advance perform) p calls) c).1 = run (advance perform) p calls

/-- Whatever is called on a pipeline in whatever order, it is anchored only at the depth that
its last report of a block gave to what was submitted, and for good. -/
theorem anchors_safely {targets : List AnchorTarget} {p : AnchorPipeline} (started : start targets = .ok p)
    (calls : List PipelineCall) : Safe targets p calls := by
  obtain ⟨whole, fresh⟩ := start_ok started
  have recorded := recorded_run fresh calls
  constructor
  case anchored =>
    intro txRef proofEvidence done
    rw [done] at recorded
    exact recorded
  case finalized =>
    intro policy proofEvidence anchoredAt q receipts returned
    rcases finalize_cases (run (advance perform) p calls) policy proofEvidence anchoredAt with
      ⟨e, refused⟩ | ⟨txRef, blockHeight, depth, confirmationPolicy, was, -, hashed, accepted⟩
    · cases refused.symm.trans returned
    · obtain ⟨height, observed, submitted, -⟩ :=
        recorded.inFlight (congrArg AnchorPipeline.inFlight was)
      cases accepted.symm.trans returned
      rw [targets_run, whole, submitted]
      exact ⟨txRef, height, confirmationPolicy, rfl, hashed, rfl, attested_iff.mpr rfl⟩
  case final =>
    intro txRef proofEvidence done more
    rw [run_append]
    exact anchored_stays done more
  case refused =>
    intro c e failed
    rcases perform_cases (run (advance perform) p calls) c with
      ⟨_, same⟩ | ⟨new, -, accepted⟩
    · rw [same]
    · simp [accepted] at failed

def pairTargets : List AnchorTarget :=
  [⟨.filled 1, .literal 12⟩, ⟨.filled 2, .literal 4⟩]

def sixDeep : AnchorPolicy := ⟨.literal 6⟩

def deepened : List PipelineCall :=
  [.submitted "btc-tx-abc" (.literal 1000),
    .confirmed (.literal 1001) (.literal 1003),
    .finalize sixDeep (.filled 3) ⟨0⟩,
    .confirmed (.literal 1001) (.literal 1006),
    .finalize sixDeep (.filled 3) ⟨0⟩]

omit [External] in
theorem anchors_safely_deepened : letI : External := reference
    ∃ p, start pairTargets = .ok p ∧ Safe pairTargets p deepened ∧
      (run (advance perform) p deepened).state = .anchored "btc-tx-abc" (.filled 3) := by
  let _ : External := reference
  refine ⟨_, rfl, anchors_safely rfl deepened, ?_⟩
  simp [deepened, run, advance, perform, submitted, confirmed, inFlight, finalize, sixDeep,
    Bounded.checkedSub, Bounded.ofInt?, Bounded.saturatingAdd, Bounded.lt_def,
    AnchorPolicy.policyHash_eq, makeReceipts_eq]

omit [External] in
theorem results_receiptFor {log : AnchorLog} {first : AnchorTarget} {anchoredAt : TimestampNs}
    (older : ∀ last, log.latest = some last → last.anchoredAt < anchoredAt)
    (covers : ∀ last, log.latest = some last → last.entryCount ≤ first.entryCount)
    (rest : List AnchorTarget) (txRef : String) (confirmationPolicy : ContentHash) :
    results AnchorLog.append log
        ((first :: rest).map (receiptFor txRef anchoredAt confirmationPolicy)) =
      .ok () :: List.replicate rest.length (.error (.nonMonotonicAnchorTime anchoredAt anchoredAt)) := by
  have accepted : log.append (receiptFor txRef anchoredAt confirmationPolicy first) =
      (⟨log.receipts ++ [receiptFor txRef anchoredAt confirmationPolicy first]⟩, .ok ()) :=
    AnchorLog.append_ok older fun last newest => Int.toNat_le_toNat (covers last newest)
  have newest : AnchorLog.latest ⟨log.receipts ++ [receiptFor txRef anchoredAt
      confirmationPolicy first]⟩ = some (receiptFor txRef anchoredAt confirmationPolicy first) :=
    List.getLast?_concat
  have sameTime : ∀ r ∈ rest.map (receiptFor txRef anchoredAt confirmationPolicy),
      r.anchoredAt = anchoredAt := by simp [receiptFor]
  have others := AnchorLog.results_same_time newest sameTime
  rw [List.map_cons, results, advance, accepted, others, List.length_map]
  rfl

/-- The receipts of one transaction have one time, so a log takes them all exactly when there is
one. -/
theorem receipts_ready_iff {targets : List AnchorTarget} {p q : AnchorPipeline}
    (started : start targets = .ok p) (calls : List PipelineCall) {policy : AnchorPolicy}
    {proofEvidence : ContentHash} {anchoredAt : TimestampNs} {receipts : List AnchorReceipt}
    (finalized : (run (advance perform) p calls).finalize policy proofEvidence anchoredAt =
      (q, .ok receipts))
    {log : AnchorLog} (older : ∀ last, log.latest = some last → last.anchoredAt < anchoredAt)
    (covers : ∀ last, log.latest = some last →
      ∀ first, targets.head? = some first → last.entryCount ≤ first.entryCount) :
    (∀ result ∈ results AnchorLog.append log receipts, result = .ok ()) ↔
      targets.length = 1 := by
  obtain ⟨whole, -⟩ := start_ok started
  rcases finalize_cases (run (advance perform) p calls) policy proofEvidence anchoredAt with
    ⟨e, refused⟩ | ⟨txRef, _, _, confirmationPolicy, -, -, -, accepted⟩
  · cases refused.symm.trans finalized
  · cases accepted.symm.trans finalized
    rw [targets_run, whole]
    cases targets with
    | nil => cases started
    | cons first rest =>
      rw [results_receiptFor older (fun last newest => covers last newest first rfl) rest txRef
        confirmationPolicy]
      cases rest with
      | nil => simp
      | cons second rest => simp [List.replicate_succ]

/-- Heads that one store had, in the order in which it had them. -/
structure Successive {S : Type} [EvidenceStore S] (store : S) (targets : List AnchorTarget) :
    Prop where
  heads : ∀ t ∈ targets,
    EvidenceStore.treeHeadAt store t.entryCount.val.toNat = some t.treeHead
  growing : targets.Pairwise fun t u => t.entryCount ≤ u.entryCount

def sixDeepCalls : List PipelineCall :=
  [.submitted "tx" (.literal 10), .confirmed (.literal 11) (.literal 16)]

theorem finalize_sixDeepCalls {targets : List AnchorTarget} {p : AnchorPipeline}
    (started : start targets = .ok p) : ∃ q confirmationPolicy,
    (run (advance perform) p sixDeepCalls).finalize sixDeep (.filled 3) ⟨.literal 100⟩ =
      (q, .ok (targets.map (receiptFor "tx" ⟨.literal 100⟩ confirmationPolicy))) := by
  obtain ⟨rfl, fresh⟩ := start_ok started
  refine ⟨{ p with state := .anchored "tx" (.filled 3) },
    sha256 (utf8 (toText sixDeep.toJson)), ?_⟩
  simp [sixDeepCalls, run, advance, perform, submitted, confirmed, inFlight, finalize, sixDeep, fresh,
    Bounded.checkedSub, Bounded.ofInt?, Bounded.saturatingAdd, Bounded.lt_def,
    AnchorPolicy.policyHash_eq, makeReceipts_eq]

omit [External] in
theorem receipts_ready_one : letI : External := reference
    ∃ p q receipts, start [⟨.filled 1, .literal 2⟩] = .ok p ∧
      (run (advance perform) p sixDeepCalls).finalize sixDeep (.filled 3) ⟨.literal 100⟩ =
        (q, .ok receipts) ∧
      ∀ result ∈ results AnchorLog.append .new receipts, result = .ok () := by
  let _ : External := reference
  obtain ⟨p, started⟩ : ∃ p, start [⟨.filled 1, .literal 2⟩] = .ok p := ⟨_, rfl⟩
  obtain ⟨q, _, finalized⟩ := finalize_sixDeepCalls started
  refine ⟨p, q, _, started, finalized, ?_⟩
  exact (receipts_ready_iff started sixDeepCalls finalized (by simp [AnchorLog.latest, AnchorLog.new])
    (by simp [AnchorLog.latest, AnchorLog.new])).mpr rfl

def twoEntries : InMemoryEvidenceStore := ((InMemoryEvidenceStore.new.put [7]).1.put [8]).1

def twoHeads : List AnchorTarget :=
  [⟨merkleRoot (twoEntries.order.take 1), .literal 1⟩,
    ⟨merkleRoot (twoEntries.order.take 2), .literal 2⟩]

omit [External] in
theorem order_twoEntries : letI : External := reference
    twoEntries.order = [sha256 [7], sha256 [8]] := by
  let _ : External := reference
  have first : (InMemoryEvidenceStore.new.put [7]).1 =
      ⟨(∅ : Finmap _).insert (sha256 [7]) [7], [sha256 [7]]⟩ :=
    congrArg Prod.fst (InMemoryEvidenceStore.put_fresh (InMemoryEvidenceStore.lookup_new _))
  have other : sha256 [8] ≠ sha256 [7] := by decide +kernel
  have fresh : (InMemoryEvidenceStore.new.put [7]).1.blobs.lookup (sha256 [8]) = none := by
    rw [first]
    simp [Finmap.lookup_insert_of_ne, other]
  rw [twoEntries, InMemoryEvidenceStore.put_fresh fresh, first]
  rfl

omit [External] in
/-- Two heads of a store that are anchored at once give receipts that no log takes. -/
theorem receipts_not_ready : letI : External := reference
    ∃ p q receipts, Successive twoEntries twoHeads ∧ start twoHeads = .ok p ∧
      (run (advance perform) p sixDeepCalls).finalize sixDeep (.filled 3) ⟨.literal 100⟩ =
        (q, .ok receipts) ∧
      ¬∀ result ∈ results AnchorLog.append .new receipts, result = .ok () := by
  let _ : External := reference
  obtain ⟨p, started⟩ : ∃ p, start twoHeads = .ok p := ⟨_, rfl⟩
  obtain ⟨q, confirmationPolicy, finalized⟩ := finalize_sixDeepCalls started
  have order := order_twoEntries
  refine ⟨p, q, _, ⟨?_, ?_⟩, started, finalized, fun ready => ?_⟩
  · intro t member
    rcases List.mem_pair.mp member with rfl | rfl
    · exact InMemoryEvidenceStore.treeHeadAt_eq_some.mpr ⟨by rw [order]; decide, rfl⟩
    · exact InMemoryEvidenceStore.treeHeadAt_eq_some.mpr ⟨by rw [order]; decide, rfl⟩
  · simp [twoHeads, Bounded.le_def]
  · have refused := ready (.error (.nonMonotonicAnchorTime ⟨.literal 100⟩ ⟨.literal 100⟩))
    rw [twoHeads, results_receiptFor (by simp [AnchorLog.latest, AnchorLog.new])
      (by simp [AnchorLog.latest, AnchorLog.new])] at refused
    simp at refused

end

end AnchorPipeline

end Treasury
