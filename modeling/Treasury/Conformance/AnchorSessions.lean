import Treasury.Conformance.AnchorFixture
import Treasury.Kit.Family

/-! Anchoring many evidence stores at once, again and again: a session puts the heads of some
stores under one root, has a wallet bury the root, and appends to the log of each store the
receipt of its head. -/
namespace Treasury
open Kit Conformance.AnchorSubmitter

def U64.ofLen (n : Nat) : U64 :=
  ⟨n % 18446744073709551616, Int.emod_nonneg _ (by decide), Int.emod_lt_of_pos _ (by decide)⟩

theorem U64.ofLen_val {n : Nat} (fits : n < 18446744073709551616) : (U64.ofLen n).val = n := by
  simp only [ofLen]
  omega

namespace Conformance

section
variable {S : Type} [EvidenceStore S]

/-- What is to be anchored of a store: its head, over all that it holds. -/
def headOf (s : Anchored S) : AnchorTarget :=
  ⟨EvidenceStore.treeHead s.store, U64.ofLen (EvidenceStore.len s.store)⟩

end

/-- A session of some stores with a wallet. -/
structure AnchorSession (ι W : Type) where
  members : List ι
  submitter : ChainAnchorSubmitter W
  wallet : W
  requiredDepth : U64
  pollBudget : U32
  anchoredAt : TimestampNs

inductive FleetOp (ι W S : Type) [EvidenceStore S] where
  | put (i : ι) (bytes : Bytes) (medium : EvidenceStore.Medium S)
  | anchor (session : AnchorSession ι W)

namespace AnchorSession

variable {ι W S : Type} [EvidenceStore S] [External]

def targets (session : AnchorSession ι W) (s : ι → Anchored S) : List AnchorTarget :=
  session.members.map fun i => headOf (s i)

def outcome (session : AnchorSession ι W) (s : ι → Anchored S) :
    Except AnchorViolation (List AnchorReceipt) :=
  (verifyAnchorSubmitterContract session.submitter (session.targets s) session.requiredDepth
    session.pollBudget session.anchoredAt session.wallet).2

/-- No store is listed twice, each is no longer than a vector can be, and each was anchored
before, if at all. -/
structure Timely (session : AnchorSession ι W) (s : ι → Anchored S) : Prop where
  distinct : session.members.Nodup
  fits : ∀ i ∈ session.members, EvidenceStore.len (s i).store < 18446744073709551616
  later : ∀ i ∈ session.members, ∀ last, (s i).log.latest = some last →
    last.anchoredAt < session.anchoredAt

end AnchorSession

namespace FleetOp

variable {ι W S : Type} [EvidenceStore S]

theorem current_receipt {session : AnchorSession ι W} {s : ι → Anchored S} {i : ι}
    (timely : session.Timely s) (member : i ∈ session.members) (txRef : String)
    (confirmationPolicy : ContentHash) : (s i).Current (.anchor
      (AnchorPipeline.receiptFor txRef session.anchoredAt confirmationPolicy (headOf (s i)))) :=
  ⟨rfl, U64.ofLen_val (timely.fits i member), timely.later i member⟩

variable [External]

/-- The receipts of a session that fails are not there to be appended. -/
def moves (s : ι → Anchored S) : FleetOp ι W S → List (ι × AnchorOp S)
  | .put i bytes medium => [(i, .put bytes medium)]
  | .anchor session =>
    match session.outcome s with
    | .error _ => []
    | .ok receipts => session.members.zip (receipts.map .anchor)

def Guarded (s : ι → Anchored S) : FleetOp ι W S → Prop
  | .put .. => True
  | .anchor session => session.Timely s

theorem outcome_ok {session : AnchorSession ι W} {s : ι → Anchored S}
    {receipts : List AnchorReceipt} (accepted : session.outcome s = .ok receipts) :
    ∃ aggregation broadcast sent confirmationPolicy,
      Aggregation.aggregate ((session.targets s).map AnchorTarget.treeHead) = some aggregation ∧
      session.submitter.broadcast aggregation.root session.wallet = (sent, .ok broadcast) ∧
      receipts = (session.targets s).map
        (AnchorPipeline.receiptFor broadcast.txRef session.anchoredAt confirmationPolicy) := by
  obtain ⟨broadcast, _, _, _, _, confirmationPolicy, buries, _, _, made⟩ :=
    buries_of_accepted (Prod.ext rfl accepted)
  obtain ⟨sent, ⟨aggregation, aggregated, answered, _⟩, _⟩ := buries.reported
  exact ⟨aggregation, broadcast, sent, confirmationPolicy, aggregated, answered, made⟩

theorem moves_accepted {session : AnchorSession ι W} {s : ι → Anchored S}
    {receipts : List AnchorReceipt} {receipt : AnchorTarget → AnchorReceipt}
    (accepted : session.outcome s = .ok receipts)
    (made : receipts = (session.targets s).map receipt) :
    moves s (.anchor session) =
      session.members.map fun i => (i, .anchor (receipt (headOf (s i)))) := by
  simp only [moves, accepted, made, AnchorSession.targets, List.map_map, List.map_prod_left_eq_zip]
  rfl

theorem moves_distinct {s : ι → Anchored S} {op : FleetOp ι W S} (guarded : Guarded s op) :
    ((op.moves s).map Prod.fst).Nodup := by
  cases op with
  | put i bytes medium => exact List.nodup_singleton i
  | anchor session =>
    rcases ended : session.outcome s with violation | receipts
    · simp [moves, ended]
    · obtain ⟨_, _, _, _, _, _, made⟩ := outcome_ok ended
      rw [moves_accepted ended made, List.map_map]
      exact (List.map_id _).symm ▸ guarded.distinct

variable [DecidableEq ι]

def step (s : ι → Anchored S) (op : FleetOp ι W S) : ι → Anchored S :=
  moveEach Anchored.step s (op.moves s)

/-- The root that the wallet broadcast has the head of each receipt under it, with a proof, and
the log of each store takes its receipt and has it as its last. -/
def Proven (s : ι → Anchored S) : FleetOp ι W S → Prop
  | .put .. => True
  | .anchor session => ∀ receipts, session.outcome s = .ok receipts →
      ∃ (aggregation : Aggregation) (broadcast : Broadcast) (sent : W),
        session.submitter.broadcast aggregation.root session.wallet = (sent, .ok broadcast) ∧
        receipts.length = session.members.length ∧
        ∀ (k : Nat) (i : ι) (receipt : AnchorReceipt), session.members[k]? = some i →
          receipts[k]? = some receipt →
            receipt.method = .publicChain "bitcoin" broadcast.txRef ∧
            ((s i).log.append receipt).2 = .ok () ∧
            (step s (.anchor session) i).log.receipts = (s i).log.receipts ++ [receipt] ∧
            ∃ proof, aggregation.proofs[k]? = some proof ∧
              Aggregation.verifyInclusion receipt.treeHead proof aggregation.root = true

variable [AppendOnly S]

theorem proven_of_guarded {s : ι → Anchored S} {op : FleetOp ι W S}
    (verified : ∀ i, (s i).Verified) (guarded : Guarded s op) : op.Proven s := by
  cases op with
  | put => trivial
  | anchor session =>
    intro receipts ended
    obtain ⟨aggregation, broadcast, sent, confirmationPolicy, aggregated, answered, rfl⟩ :=
      outcome_ok ended
    obtain ⟨root, -, proofs⟩ := Aggregation.proofs_eq aggregated
    refine ⟨aggregation, broadcast, sent, answered, by simp [AnchorSession.targets],
      fun k i receipt listed given => ?_⟩
    have member := List.mem_of_getElem? listed
    have made : receipt = AnchorPipeline.receiptFor broadcast.txRef session.anchoredAt
        confirmationPolicy (headOf (s i)) := by
      simpa [AnchorSession.targets, listed, eq_comm] using given
    have head : ((session.targets s).map AnchorTarget.treeHead)[k]? =
        some receipt.treeHead := by
      simp [AnchorSession.targets, listed, made, AnchorPipeline.receiptFor]
    have inside := (List.getElem?_eq_some_iff.mp head).1
    have appended := (verified i).append (made ▸ current_receipt guarded member _ _)
    have moved : (i, .anchor receipt) ∈ moves s (.anchor session) := by
      rw [moves_accepted ended rfl, made]
      exact List.mem_map_of_mem member
    have taken : (step s (.anchor session) i).log.receipts = (s i).log.receipts ++ [receipt] := by
      rw [step, moveEach_listed (moves_distinct guarded) moved, Anchored.step, appended]
    refine ⟨made ▸ rfl, congrArg Prod.snd appended, taken, _, proofs k inside, ?_⟩
    rw [root]
    exact Aggregation.verify_audited head

theorem verified_step {s : ι → Anchored S} {op : FleetOp ι W S} (verified : ∀ i, (s i).Verified)
    (guarded : Guarded s op) : ∀ i, (op.step s i).Verified := by
  refine moveEach_keeps (moves_distinct guarded) verified fun i move listed => ?_
  refine Anchored.verified_step (verified i) ?_
  cases op with
  | put j bytes medium =>
    cases List.mem_singleton.mp listed
    trivial
  | anchor session =>
    rcases ended : session.outcome s with violation | receipts
    · simp [moves, ended] at listed
    · obtain ⟨_, _, _, _, _, _, made⟩ := outcome_ok ended
      rw [moves_accepted ended made] at listed
      obtain ⟨j, member, same⟩ := List.mem_map.mp listed
      cases same
      exact current_receipt guarded member _ _

/-- In any order of puts and sessions in which each session lists no store twice and is later than the
last receipts of its stores, each store verifies its log at every point, each receipt of a session
that succeeds becomes the last in the log of its store, and its head is proven to be under the root
that was broadcast. -/
theorem sessions_sound (start : ι → S) (ops : List (FleetOp ι W S))
    (guarded : Along step Guarded (fun i => ⟨start i, .new⟩) ops) :
    Throughout step (fun s => ∀ i, (s i).Verified) (fun i => ⟨start i, .new⟩) ops ∧
      Along step Proven (fun i => ⟨start i, .new⟩) ops := by
  have keeps (s : ι → Anchored S) (op : FleetOp ι W S) (verified : ∀ i, (s i).Verified)
      (guarded : Guarded s op) : ∀ i, (op.step s i).Verified := verified_step verified guarded
  have fresh : ∀ i : ι, (⟨start i, .new⟩ : Anchored S).Verified := fun _ => rfl
  constructor
  · exact throughout_guarded step Guarded (fun s => ∀ i, (s i).Verified) keeps ops _ fresh guarded
  · exact along_guarded step Guarded Proven (fun s => ∀ i, (s i).Verified) keeps
      (fun _ _ => proven_of_guarded) ops _ fresh guarded

end FleetOp

section
variable [External]

/-- Both of two stores, with a wallet that confirms in the next block. -/
def bothStores : AnchorSession Bool FixtureChainSubmitter where
  members := [false, true]
  submitter := FixtureChainSubmitter.submitter
  wallet := .new 0 0
  requiredDepth := .literal 1
  pollBudget := ⟨8, by decide, by decide⟩
  anchoredAt := ⟨0⟩

def onePut : List (FleetOp Bool FixtureChainSubmitter InMemoryEvidenceStore) :=
  [.put false [7] (), .anchor bothStores]

def emptyStores (_ : Bool) : Anchored InMemoryEvidenceStore := ⟨.new, .new⟩

end

theorem sessions_sound_both :
    letI : External := reference
    Throughout FleetOp.step (fun s => ∀ i, (s i).Verified) emptyStores onePut ∧
      Along FleetOp.step FleetOp.Proven emptyStores onePut := by
  let _ : External := reference
  refine FleetOp.sessions_sound (fun _ => .new) onePut ⟨trivial, ⟨by decide, ?_, ?_⟩, trivial⟩
  · have short : (InMemoryEvidenceStore.new.put [7]).1.len = 1 :=
      congrArg List.length (Anchored.order_put_new [7])
    intro i _
    cases i with
    | false => exact short.trans_lt (by decide)
    | true => exact Nat.zero_lt_succ _
  · intro i _ last newest
    cases i <;> cases newest

end Conformance

end Treasury
