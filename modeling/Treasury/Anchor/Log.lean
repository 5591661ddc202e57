import Treasury.Evidence.File
import Treasury.Kit.Lifecycle

/-! Anchor receipts and the log of them. A receipt says which head the first entries of a
store had, and the log is checked against a store by computing those heads again. -/
namespace Treasury
open Kit Kit.Merkle

inductive AnchorMethod where
  | publicChain (chain txRef : String)
  | rfc3161Tsa (authority : String) (tokenHash : ContentHash)
  deriving DecidableEq

structure AnchorReceipt where
  treeHead : ContentHash
  entryCount : U64
  method : AnchorMethod
  anchoredAt : TimestampNs
  confirmationPolicy : ContentHash
  deriving DecidableEq

/-- The count as a `usize`, which has 64 bits as well. -/
def AnchorReceipt.count (receipt : AnchorReceipt) : Nat := receipt.entryCount.val.toNat

theorem AnchorReceipt.count_le {a b : AnchorReceipt} (covers : a.count ≤ b.count) :
    a.entryCount ≤ b.entryCount := by
  have lower := b.entryCount.lower
  simp only [count] at covers
  exact Bounded.le_def.mpr (by omega)

inductive AnchorError where
  | nonMonotonicAnchorTime (last proposed : TimestampNs)
  | coverageRegression (last proposed : U64)
  | entryCountExceedsStore (claimed : U64) (storeLen : Nat)
  | headMismatch (anchored recomputed : ContentHash)
  deriving DecidableEq

structure AnchorLog where
  receipts : List AnchorReceipt

namespace AnchorLog

def new : AnchorLog := ⟨[]⟩

def latest (log : AnchorLog) : Option AnchorReceipt := log.receipts.getLast?

def append (log : AnchorLog) (receipt : AnchorReceipt) : AnchorLog × Except AnchorError Unit :=
  match log.receipts.getLast? with
  | some last =>
    if receipt.anchoredAt ≤ last.anchoredAt then
      (log, .error (.nonMonotonicAnchorTime last.anchoredAt receipt.anchoredAt))
    else if receipt.entryCount < last.entryCount then
      (log, .error (.coverageRegression last.entryCount receipt.entryCount))
    else (⟨log.receipts ++ [receipt]⟩, .ok ())
  | none => (⟨log.receipts ++ [receipt]⟩, .ok ())

/-- The number of entries that the receipts of the log cover. -/
def coverage (log : AnchorLog) : Nat :=
  (log.receipts.map AnchorReceipt.count).foldr max 0

theorem append_ok {log : AnchorLog} {receipt : AnchorReceipt}
    (later : ∀ last, log.latest = some last → last.anchoredAt < receipt.anchoredAt)
    (covers : ∀ last, log.latest = some last → last.count ≤ receipt.count) :
    log.append receipt = (⟨log.receipts ++ [receipt]⟩, .ok ()) := by
  unfold append
  cases newest : log.receipts.getLast? with
  | none => rfl
  | some last =>
    have more := AnchorReceipt.count_le (covers last newest)
    simp [not_le.mpr (later last newest), not_lt.mpr more]

theorem append_refused {log : AnchorLog} {receipt last : AnchorReceipt}
    (newest : log.latest = some last) (same : receipt.anchoredAt = last.anchoredAt) :
    log.append receipt =
      (log, .error (.nonMonotonicAnchorTime last.anchoredAt last.anchoredAt)) := by
  have found : log.receipts.getLast? = some last := newest
  simp [append, found, same]

theorem results_same_time {log : AnchorLog} {last : AnchorReceipt} {receipts : List AnchorReceipt}
    (newest : log.latest = some last) (same : ∀ r ∈ receipts, r.anchoredAt = last.anchoredAt) :
    results append log receipts = List.replicate receipts.length
      (.error (.nonMonotonicAnchorTime last.anchoredAt last.anchoredAt)) := by
  induction receipts with
  | nil => rfl
  | cons receipt rest ih =>
    obtain ⟨now, later⟩ := List.forall_mem_cons.mp same
    have refused := append_refused newest now
    simp only [results, advance, refused, List.length_cons, List.replicate_succ, ih later]

section
variable {S : Type} [EvidenceStore S]

def verifyReceipts (store : S) : List AnchorReceipt → Except AnchorError Unit
  | [] => .ok ()
  | receipt :: rest =>
    match EvidenceStore.treeHeadAt store receipt.count with
    | none => .error (.entryCountExceedsStore receipt.entryCount (EvidenceStore.len store))
    | some recomputed =>
      if recomputed ≠ receipt.treeHead then .error (.headMismatch receipt.treeHead recomputed)
      else verifyReceipts store rest

def verifyAgainst (log : AnchorLog) (store : S) : Except AnchorError Unit :=
  verifyReceipts store log.receipts

theorem verifyReceipts_ok {store : S} {receipts : List AnchorReceipt} :
    verifyReceipts store receipts = .ok () ↔
      ∀ r ∈ receipts, EvidenceStore.treeHeadAt store r.count = some r.treeHead := by
  induction receipts with
  | nil => simp [verifyReceipts]
  | cons receipt rest ih =>
    cases found : EvidenceStore.treeHeadAt store receipt.count with
    | none => simp [verifyReceipts, found]
    | some recomputed =>
      by_cases same : recomputed = receipt.treeHead
      · simp [verifyReceipts, found, same, ih]
      · simp [verifyReceipts, found, same]

end

theorem coverage_attained (log : AnchorLog) :
    log.coverage = 0 ∨ ∃ r ∈ log.receipts, r.count = log.coverage := by
  unfold coverage
  induction log.receipts with
  | nil => exact .inl rfl
  | cons receipt rest ih =>
    simp only [List.map_cons, List.foldr_cons, List.mem_cons, exists_eq_or_imp]
    rcases max_choice receipt.count ((rest.map AnchorReceipt.count).foldr max 0) with most | most
    · exact .inr (.inl most.symm)
    · rw [most]
      exact ih.imp_right .inr

variable [External]

theorem same_coverage {log : AnchorLog} {s t : InMemoryEvidenceStore}
    (injective : Set.InjOn sha256 {b | b ∈ headPreimages (s.order.take log.coverage) ∨
      b ∈ headPreimages (t.order.take log.coverage)})
    (passS : log.verifyAgainst s = .ok ()) (passT : log.verifyAgainst t = .ok ()) :
    log.coverage ≤ s.len ∧ log.coverage ≤ t.len ∧
      s.order.take log.coverage = t.order.take log.coverage := by
  rcases log.coverage_attained with none | ⟨r, member, most⟩
  · simp [none]
  · obtain ⟨inS, headS⟩ := InMemoryEvidenceStore.treeHeadAt_eq_some.mp
      (verifyReceipts_ok.mp passS r member)
    obtain ⟨inT, headT⟩ := InMemoryEvidenceStore.treeHeadAt_eq_some.mp
      (verifyReceipts_ok.mp passT r member)
    rw [most] at inS headS inT headT
    exact ⟨inS, inT, merkleRoot_injective injective (fun _ => .inl) (fun _ => .inr)
      (headS.trans headT.symm)⟩

end AnchorLog

structure Anchored (S : Type) where
  store : S
  log : AnchorLog

inductive AnchorOp (S : Type) [EvidenceStore S] where
  | put (bytes : Bytes) (medium : EvidenceStore.Medium S)
  | anchor (receipt : AnchorReceipt)

namespace Anchored

section
variable {S : Type} [EvidenceStore S]

def step (s : Anchored S) : AnchorOp S → Anchored S
  | .put bytes medium => { s with store := (EvidenceStore.put s.store bytes medium).1 }
  | .anchor receipt => { s with log := (s.log.append receipt).1 }

/-- A receipt that is made now: it has the head and the length of the store as it is, and
it is later than every receipt before. -/
def Current (s : Anchored S) : AnchorOp S → Prop
  | .put _ _ => True
  | .anchor receipt => receipt.treeHead = EvidenceStore.treeHead s.store ∧
      receipt.entryCount.val = EvidenceStore.len s.store ∧
      ∀ last, s.log.latest = some last → last.anchoredAt < receipt.anchoredAt

/-- The log says that it took the receipt, and has it as its last. -/
def Accepted (s : Anchored S) : AnchorOp S → Prop
  | .put _ _ => True
  | .anchor receipt => (s.log.append receipt).2 = .ok () ∧
      (s.step (.anchor receipt)).log.receipts = s.log.receipts ++ [receipt]

/-- Every receipt has the head that the store has over the entries it covers. -/
def Verified (s : Anchored S) : Prop := s.log.verifyAgainst s.store = .ok ()

/-- Anchors that are made as the store grows are accepted and stay verified. -/
def Upheld (S : Type) [EvidenceStore S] : Prop :=
  ∀ (store : S) (ops : List (AnchorOp S)), Along step Current ⟨store, .new⟩ ops →
    Along step Accepted ⟨store, .new⟩ ops ∧ Throughout step Verified ⟨store, .new⟩ ops

theorem verified_iff {s : Anchored S} : s.Verified ↔
    ∀ r ∈ s.log.receipts, EvidenceStore.treeHeadAt s.store r.count = some r.treeHead :=
  AnchorLog.verifyReceipts_ok

variable [AppendOnly S]

theorem Verified.append {s : Anchored S} (verified : s.Verified) {receipt : AnchorReceipt}
    (current : s.Current (.anchor receipt)) :
    s.log.append receipt = (⟨s.log.receipts ++ [receipt]⟩, .ok ()) := by
  obtain ⟨-, covers, later⟩ := current
  refine AnchorLog.append_ok later fun last newest => ?_
  have anchored := verified_iff.mp verified last (List.mem_of_getLast? newest)
  have enough := AppendOnly.covered anchored
  have whole : receipt.count = EvidenceStore.len s.store := by simp [AnchorReceipt.count, covers]
  exact enough.trans whole.ge

theorem verified_step {s : Anchored S} (verified : s.Verified) {op : AnchorOp S}
    (current : s.Current op) : (s.step op).Verified := by
  rw [verified_iff] at *
  cases op with
  | put bytes medium =>
    intro r member
    exact AppendOnly.stable (verified r member) bytes medium
  | anchor receipt =>
    have accepted := Verified.append (verified_iff.mpr verified) current
    obtain ⟨head, covers, -⟩ := current
    intro r member
    simp only [step, accepted, List.mem_append, List.mem_singleton] at member
    rcases member with old | rfl
    · exact verified r old
    · have whole : r.count = EvidenceStore.len s.store := by simp [AnchorReceipt.count, covers]
      rw [whole, head]
      exact AppendOnly.whole s.store

theorem upheld : Upheld S := by
  have keeps (s : Anchored S) (op : AnchorOp S) (verified : s.Verified) (current : s.Current op) :
      (s.step op).Verified := verified_step verified current
  have accepts (s : Anchored S) (op : AnchorOp S) (verified : s.Verified) (current : s.Current op) :
      s.Accepted op := by
    cases op with
    | put bytes medium => trivial
    | anchor receipt =>
      have appended := verified.append current
      exact ⟨congrArg Prod.snd appended, congrArg (fun r => r.1.receipts) appended⟩
  refine fun store ops current => ⟨?_, ?_⟩
  · exact along_guarded step Current Accepted Verified keeps accepts ops _ rfl current
  · exact throughout_guarded step Current Verified keeps ops _ rfl current

end

section
variable [External]

/-- Anchors that are made as a store grows, in memory or on disk, are accepted and stay
verified, and a store that passes the check of a log has the entries that the log covers. -/
theorem anchors_bind_prefix :
    Upheld InMemoryEvidenceStore ∧ Upheld FileEvidenceStore ∧
    ∀ (log : AnchorLog) (s t : InMemoryEvidenceStore),
      Set.InjOn sha256 {b | b ∈ headPreimages (s.order.take log.coverage) ∨
        b ∈ headPreimages (t.order.take log.coverage)} →
      log.verifyAgainst s = .ok () → log.verifyAgainst t = .ok () →
        log.coverage ≤ s.len ∧ log.coverage ≤ t.len ∧
          s.order.take log.coverage = t.order.take log.coverage := by
  refine ⟨upheld, upheld, fun log s t injective passS passT => ?_⟩
  exact AnchorLog.same_coverage injective passS passT

def firstReceipt (entry : ContentHash) : AnchorReceipt :=
  ⟨leafHash entry, ⟨1, by decide, by decide⟩, .publicChain "bitcoin" "f00d", ⟨0⟩, .filled 2⟩

def firstOps (bytes : Bytes) : List (AnchorOp InMemoryEvidenceStore) :=
  [.put bytes (), .put bytes (), .anchor (firstReceipt (sha256 bytes))]

theorem order_put_new (bytes : Bytes) :
    (InMemoryEvidenceStore.new.put bytes).1.order = [sha256 bytes] := by
  rw [InMemoryEvidenceStore.put_fresh (InMemoryEvidenceStore.lookup_new _)]
  rfl

theorem run_firstOps (bytes : Bytes) : run step ⟨.new, .new⟩ (firstOps bytes) =
    ⟨(InMemoryEvidenceStore.new.put bytes).1, ⟨[firstReceipt (sha256 bytes)]⟩⟩ := by
  simp only [firstOps, run, step, EvidenceStore.put, InMemoryEvidenceStore.put_again]
  rfl

theorem current_firstOps (bytes : Bytes) :
    Along step Current ⟨.new, .new⟩ (firstOps bytes) := by
  refine ⟨trivial, trivial, ⟨?_, ?_, ?_⟩, trivial⟩
  · simp [step, EvidenceStore.put, EvidenceStore.treeHead, InMemoryEvidenceStore.treeHead,
      order_put_new, merkleRoot, firstReceipt]
  · simp [step, EvidenceStore.put, EvidenceStore.len, InMemoryEvidenceStore.len, order_put_new,
      firstReceipt]
  · simp [step, AnchorLog.latest, AnchorLog.new]

end

/-- Another store that passes the check has the entry as well. -/
theorem anchors_bind_prefix_first :
    letI : External := reference
    let later := ((run step ⟨.new, .new⟩ (firstOps [7])).store.put [8]).1
    Along step Accepted ⟨.new, .new⟩ (firstOps [7]) ∧ later.order.take 1 = [sha256 [7]] := by
  let _ : External := reference
  obtain ⟨along, _, binds⟩ := anchors_bind_prefix
  obtain ⟨accepted, verified⟩ := along .new _ (current_firstOps [7])
  let anchored : Anchored InMemoryEvidenceStore :=
    ⟨(InMemoryEvidenceStore.new.put [7]).1, ⟨[firstReceipt (sha256 [7])]⟩⟩
  have anchoredVerified : anchored.Verified := by
    have reached := (throughout_iff_prefixes ..).mp verified _ List.prefix_rfl
    rwa [run_firstOps] at reached
  obtain ⟨more, grown⟩ := anchored.store.order_put [8]
  rw [order_put_new] at grown
  have same := (binds anchored.log anchored.store (anchored.store.put [8]).1 ?_ anchoredVerified
    (@verified_step _ _ _ anchored anchoredVerified (.put [8] ()) trivial)).2.2
  · rw [order_put_new] at same
    rw [run_firstOps]
    exact ⟨accepted, same.symm⟩
  · rw [← grown, order_put_new]
    simp [anchored, firstReceipt, AnchorLog.coverage, AnchorReceipt.count, headPreimages,
      Splitting.layout, Tree.inputs, Set.InjOn]

end Anchored

end Treasury
