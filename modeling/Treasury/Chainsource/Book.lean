import Treasury.Chainsource.Reconcile
import Treasury.Ledger.Event

/-! The observation that an agreed reconciliation books. It counts, and passes on, the whole
answer of the first source: what is not settled too. -/
namespace Treasury.Chainsource
open Kit Kit.Json

def observationSchema : String := "treasury-chainsource/observation/v1"

inductive BookError where
  | diverged
  deriving DecidableEq

def AddressHistory.movementCount (h : AddressHistory) : Nat :=
  if h.movements.length < 18446744073709551616 then h.movements.length else 18446744073709551615

def observationMembers (history : AddressHistory) (historyHash : ContentHash) :
    List (String × Value) :=
  [("schema", .string observationSchema), ("booking", .string "chain_address_history"),
    ("chain", history.chain.toJson), ("address", .string history.address),
    ("settled_to_height", .string history.settledToHeight.val.repr),
    ("history", .string historyHash.toHex), ("movement_count", .string history.movementCount.repr)]

theorem observationMembers_sorted (history : AddressHistory) (hash : ContentHash) :
    ∀ e ∈ observationMembers history hash, Sorted e.2 := by
  intro e he
  simp only [observationMembers, List.mem_cons, List.not_mem_nil, or_false] at he
  rcases he with rfl | rfl | rfl | rfl | rfl | rfl | rfl
  · trivial
  · trivial
  · cases history.chain <;> trivial
  · trivial
  · trivial
  · trivial
  · trivial

def draftHistoryObservation (reconciliation : Reconciliation) (tenant : TenantId)
    (sourceId : String) (rawEvidence : ContentHash) (observedAt : TimestampNs) :
    Except BookError EventDraft :=
  match reconciliation with
  | .diverged .. => .error .diverged
  | .agreed history historyHash => .ok
    { tenant := tenant
      layer := .observation
      eventTime := observedAt
      supersedes := none
      provenance := .observation ⟨sourceId⟩ rawEvidence
      payload := ⟨.object (ofEntries (observationMembers history historyHash)),
        sorted_object (observationMembers_sorted history historyHash)⟩ }

theorem movementCount_eq (h : AddressHistory) : h.movementCount = h.movements.length :=
  if_pos h.length_lt

/-- Two reconciliations book the same payload, whoever books it. -/
def SamePayload (r s : Reconciliation) : Prop :=
  ∀ tenant sourceId rawEvidence observedAt,
    (draftHistoryObservation r tenant sourceId rawEvidence observedAt).map (·.payload.value) =
      (draftHistoryObservation s tenant sourceId rawEvidence observedAt).map (·.payload.value)

theorem samePayload_iff {h k : AddressHistory} {x y : ContentHash} :
    SamePayload (.agreed h x) (.agreed k y) ↔ h.chain = k.chain ∧ h.address = k.address ∧
      h.settledToHeight = k.settledToHeight ∧ x = y ∧ h.movements.length = k.movements.length := by
  have payloads : SamePayload (.agreed h x) (.agreed k y) ↔
      ofEntries (observationMembers h x) = ofEntries (observationMembers k y) := by
    constructor
    · intro same
      have drafts := same ⟨""⟩ "" x ⟨0⟩
      exact Value.object.inj (Except.ok.inj drafts)
    · intro same tenant sourceId rawEvidence observedAt
      simp only [draftHistoryObservation, Except.map, same]
  rw [payloads]
  constructor
  · intro same
    have members := ofEntries_injective (by simp [observationMembers]) (by simp [observationMembers]) same
    simp only [observationMembers, List.cons.injEq, Prod.mk.injEq, true_and, and_true,
      Value.string.injEq, Int.repr_inj, ContentHash.toHex_inj, movementCount_eq] at members
    obtain ⟨chain, address, height, hash, count⟩ := members
    exact ⟨Chain.toJson_injective chain, address, Bounded.ext_val height, hash, by simpa using count⟩
  · rintro ⟨chain, address, height, hash, count⟩
    simp only [observationMembers, chain, address, height, hash, movementCount_eq, count]

section
variable [External] {sourceA sourceB : ChainSource} {policy : FinalityPolicy} {address : String}
  {observed : U64} {a b : AddressHistory}

/-- The history passed on is settled and reported by both sources, and reconciling the sources
the other way round books the same payload. -/
def BooksAgreed (sourceA sourceB : ChainSource) (policy : FinalityPolicy) (address : String)
    (observed : U64) (a b history : AddressHistory) (hash : ContentHash) : Prop :=
  (∀ m ∈ history.movements, m.blockHeight ≤ policy.settledHeight observed ∧
    m ∈ a.movements ∧ m ∈ b.movements) ∧
  ∃ history' hash', reconcile sourceB sourceA policy address observed = .ok (.agreed history' hash') ∧
    SamePayload (.agreed history hash) (.agreed history' hash')

theorem reconcile_chains {r : Reconciliation}
    (reconciled : reconcile sourceA sourceB policy address observed = .ok r) :
    sourceA.chain = policy.chain ∧ sourceB.chain = policy.chain := by
  unfold reconcile at reconciled
  split at reconciled
  · cases reconciled
  · rename_i same
    simp only [not_or, not_not] at same
    exact ⟨same.1, same.2.1⟩

omit [External] in
theorem settled_eq_self_iff {h : AddressHistory} {height : U64} :
    (h.settledTo height).settled.length = h.movements.length ↔
      ∀ m ∈ h.movements, m.blockHeight ≤ height := by
  refine List.length_filter_eq_length_iff.trans ?_
  exact forall₂_congr fun m _ => decide_eq_true_iff

/-- What is booked is what was agreed on exactly when neither source's answer holds a movement
above the settled height. -/
theorem booksAgreed_iff (injective : Set.InjOn sha256
      {(a.settledTo (policy.settledHeight observed)).bytes,
        (b.settledTo (policy.settledHeight observed)).bytes})
    (answersA : Answers sourceA address observed a) (answersB : Answers sourceB address observed b)
    {history : AddressHistory} {hash : ContentHash}
    (agreed : reconcile sourceA sourceB policy address observed = .ok (.agreed history hash)) :
    BooksAgreed sourceA sourceB policy address observed a b history hash ↔
      ∀ m, m ∈ a.movements ∨ m ∈ b.movements → m.blockHeight ≤ policy.settledHeight observed := by
  obtain ⟨chainA, chainB⟩ := reconcile_chains agreed
  obtain ⟨chain, addresses, alike⟩ :=
    (agreed_iff injective chainA chainB answersA answersB).mp ⟨history, hash, agreed⟩
  have perm := alike.perm
  have bytes := bytes_eq_of_ties alike chain addresses
  rw [reconcile_answers chainA chainB answersA answersB, if_pos (congrArg sha256 bytes),
    Except.ok.injEq, Reconciliation.agreed.injEq] at agreed
  obtain ⟨rfl, rfl⟩ := agreed
  have exchanged := reconcile_answers chainB chainA answersB answersA
  rw [if_pos (congrArg sha256 bytes.symm)] at exchanged
  have lengths := perm.length_eq
  constructor
  · rintro ⟨kept, history', hash', other, payload⟩
    rw [exchanged, Except.ok.injEq, Reconciliation.agreed.injEq] at other
    obtain ⟨rfl, rfl⟩ := other
    have counts : a.movements.length = b.movements.length := (samePayload_iff.mp payload).2.2.2.2
    have settledA : ∀ m ∈ a.movements, m.blockHeight ≤ policy.settledHeight observed :=
      fun m hm => (kept m hm).1
    have all := settled_eq_self_iff.mpr settledA
    have settledB := settled_eq_self_iff.mp (lengths.symm.trans (all.trans counts))
    exact fun m reported => reported.elim (settledA m) (settledB m)
  · intro settled
    have fullA := settled_eq_self_iff.mpr fun m hm => settled m (.inl hm)
    have fullB := settled_eq_self_iff.mpr fun m hm => settled m (.inr hm)
    refine ⟨fun m hm => ⟨settled m (.inl hm), hm, ?_⟩, _, _, exchanged, ?_⟩
    · have inA : m ∈ (a.settledTo (policy.settledHeight observed)).settled :=
        AddressHistory.mem_settled.mpr ⟨hm, settled m (.inl hm)⟩
      exact (AddressHistory.mem_settled.mp (perm.mem_iff.mp inA)).1
    · have counts : a.movements.length = b.movements.length := fullA.symm.trans (lengths.trans fullB)
      exact samePayload_iff.mpr ⟨chain, addresses, rfl, congrArg sha256 bytes, counts⟩

end

theorem booksAgreed_iff_settled :
    letI : External := reference
    ∃ history hash, BooksAgreed (bitcoinSource twoOutputs (by decide)) (bitcoinSource twoOutputs (by decide))
      bitcoinDepth6 "bc1q" tip (bitcoinHistory twoOutputs (by decide))
      (bitcoinHistory twoOutputs (by decide)) history hash := by
  let _ : External := reference
  have answers := bitcoinSource_answers twoOutputs (by decide)
  have agreed : reconcile _ _ bitcoinDepth6 "bc1q" tip = _ := reconcile_answers rfl rfl answers answers
  rw [if_pos rfl] at agreed
  have settled : ∀ m ∈ twoOutputs, m.blockHeight ≤ bitcoinDepth6.settledHeight tip := by decide
  refine ⟨_, _, (booksAgreed_iff (injOn_pair_self _) answers answers agreed).mpr fun m reported => ?_⟩
  exact reported.elim (settled m) (settled m)

/-- A settled movement, and one above the settled height. -/
def withPending : List ChainMovement :=
  [⟨"t2", .inflow, ⟨⟨"BTC"⟩, ⟨509, by decide, by decide⟩⟩, ⟨19, by decide, by decide⟩⟩,
    ⟨"t3", .inflow, ⟨⟨"BTC"⟩, ⟨11, by decide, by decide⟩⟩, ⟨101, by decide, by decide⟩⟩]

/-- A source that also reports a pending movement agrees with one that does not, and the pending
movement is passed on and counted. -/
theorem pending_booked :
    letI : External := reference
    ∃ history hash, reconcile (bitcoinSource withPending (by decide))
        (bitcoinSource (withPending.take 1) (by decide)) bitcoinDepth6 "bc1q" tip =
          .ok (.agreed history hash) ∧
      ¬BooksAgreed (bitcoinSource withPending (by decide))
        (bitcoinSource (withPending.take 1) (by decide)) bitcoinDepth6 "bc1q" tip
        (bitcoinHistory withPending (by decide)) (bitcoinHistory (withPending.take 1) (by decide))
        history hash := by
  let _ : External := reference
  have answers := bitcoinSource_answers withPending (by decide)
  have fewer := bitcoinSource_answers (withPending.take 1) (by decide)
  have alike : TiesAlike (bitcoinHistory withPending (by decide))
      (bitcoinHistory (withPending.take 1) (by decide)) (bitcoinDepth6.settledHeight tip) := by
    intro key
    rfl
  have bytes := bytes_eq_of_ties alike rfl rfl
  have agreed : reconcile _ _ bitcoinDepth6 "bc1q" tip = _ := reconcile_answers rfl rfl answers fewer
  rw [if_pos (congrArg sha256 bytes)] at agreed
  refine ⟨_, _, agreed, ?_⟩
  rintro ⟨kept, _⟩
  have pending := (kept _ (List.getElem_mem (by decide : 1 < withPending.length))).1
  exact absurd pending (by decide)

end Treasury.Chainsource
