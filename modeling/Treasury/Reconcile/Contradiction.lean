import Treasury.Reconcile.Booking
import Treasury.Reconcile.Lifecycle
import Treasury.Reference

/-! Which designations of one leg agree. The queue is keyed by proposals, and two proposals that
classify one leg in different ways are two items of it: whoever confirms the second has to see
that the first is there. -/
namespace Treasury
open Kit Kit.Json

/- What a draft says of a leg. -/

def NonPurchaseKind.members : NonPurchaseKind → List (String × Value)
  | .stakingReward => [("kind", .string "staking_reward")]
  | .airdrop => [("kind", .string "airdrop")]
  | .forkProceeds => [("kind", .string "fork_proceeds")]
  | .miningReward => [("kind", .string "mining_reward")]
  | .other description => [("kind", .string "other"), ("detail", .string description)]

theorem NonPurchaseKind.toJson_eq (k : NonPurchaseKind) : k.toJson = .object (ofEntries k.members) := by
  cases k <;> rfl

theorem NonPurchaseKind.toJson_injective {k l : NonPurchaseKind} (same : k.toJson = l.toJson) :
    k = l := by
  rw [k.toJson_eq, l.toJson_eq, Value.object.injEq] at same
  have distinct (k : NonPurchaseKind) : (k.members.map Prod.fst).Nodup := by
    cases k <;> simp [members]
  have member (key : String) : lookup key k.members = lookup key l.members := by
    rw [← lookup_ofEntries _ (distinct k), ← lookup_ofEntries _ (distinct l), same]
  have kinds := member "kind"
  have details := member "detail"
  cases k <;> cases l <;> simp [members, lookup] at kinds details ⊢
  exact details

def LegClassification.members : LegClassification → List (String × Value)
  | .disposal => [("class", .string "disposal")]
  | .acquisition => [("class", .string "acquisition")]
  | .nonPurchaseAcquisition kind =>
    [("class", .string "non_purchase_acquisition"), ("detail", kind.toJson)]

theorem LegClassification.toJson_eq (c : LegClassification) :
    c.toJson = .object (ofEntries c.members) := by
  cases c <;> rfl

theorem LegClassification.toJson_injective {c d : LegClassification} (same : c.toJson = d.toJson) :
    c = d := by
  rw [c.toJson_eq, d.toJson_eq, Value.object.injEq] at same
  have distinct (c : LegClassification) : (c.members.map Prod.fst).Nodup := by
    cases c <;> simp [members]
  have member (key : String) : lookup key c.members = lookup key d.members := by
    rw [← lookup_ofEntries _ (distinct c), ← lookup_ofEntries _ (distinct d), same]
  have classes := member "class"
  have details := member "detail"
  cases c <;> cases d <;> simp [members, lookup] at classes details ⊢
  exact NonPurchaseKind.toJson_injective details

/-- A judgment that books the leg under the classification. -/
def EventDraft.Designates (d : EventDraft) (leg : LegId) (c : LegClassification) : Prop :=
  d.layer = .judgment ∧ ∃ policyHash id,
    d.payload.value = .object (ofEntries (designationMembers ⟨leg, c, policyHash⟩ id))

theorem EventDraft.Designates.unique {d : EventDraft} {leg other : LegId} {b c : LegClassification}
    (first : d.Designates leg b) (second : d.Designates other c) : leg = other ∧ b = c := by
  obtain ⟨_, _, _, payload⟩ := first
  obtain ⟨_, _, _, payload'⟩ := second
  have members := Value.object.inj (payload.symm.trans payload')
  have same := ofEntries_injective (by simp [designationMembers])
    (by simp [designationMembers]) members
  simp only [designationMembers, List.cons.injEq, Prod.mk.injEq, true_and, and_true,
    Value.string.injEq, ContentHash.toHex_inj] at same
  exact ⟨same.1, LegClassification.toJson_injective same.2.1⟩

theorem draftDesignation_eq_ok [External] {p : DesignationProposal} {s : DesignationState}
    {tenant : TenantId} {t : TimestampNs} {d : EventDraft}
    (drafted : draftDesignation p s tenant t = .ok d) :
    s.isConfirmed ∧ d.Designates p.leg p.classification := by
  obtain ⟨preparer, approver, id, rfl, layer, _, payload⟩ := draftDesignation_confirmed drafted
  exact ⟨rfl, layer, p.policyHash, id, payload⟩

namespace DesignationQueue

def Confirmed (q : DesignationQueue) (p : DesignationProposal) : Prop :=
  ∃ id s, q.item id = some (p, s) ∧ s.isConfirmed

/-- No leg has confirmed proposals of two classifications. -/
def Exclusive (q : DesignationQueue) : Prop :=
  ∀ p r, q.Confirmed p → q.Confirmed r → p.leg = r.leg → p.classification = r.classification

/-- A proposal is confirmed only if no other one stands for its leg. -/
def Agrees (q : DesignationQueue) : DesignationCall → Prop
  | .confirm id approver => ∀ p preparer, q.item id = some (p, .asserted preparer) →
      preparer ≠ approver → ∀ r, q.Confirmed r → r.leg = p.leg → r.classification = p.classification
  | _ => True

theorem confirmed_insert {q : DesignationQueue} {id : ContentHash} {p r : DesignationProposal}
    {old new : DesignationState} (found : q.item id = some (p, old))
    (undecided : old.isConfirmed = false) :
    Confirmed ⟨q.items.insert id (p, new)⟩ r ↔ q.Confirmed r ∨ new.isConfirmed ∧ r = p := by
  constructor
  · rintro ⟨key, s, there, confirmed⟩
    rw [Docket.item_insert] at there
    split at there
    · cases there
      exact .inr ⟨confirmed, rfl⟩
    · exact .inl ⟨key, s, there, confirmed⟩
  · rintro (⟨key, s, there, confirmed⟩ | ⟨confirmed, rfl⟩)
    · have different : key ≠ id := by
        rintro rfl
        cases found.symm.trans there
        cases undecided.symm.trans confirmed
      exact ⟨key, s, by rw [Docket.item_insert, if_neg different, there], confirmed⟩
    · exact ⟨id, new, Docket.item_insert_self .., confirmed⟩

variable [External]

theorem confirmed_propose (q : DesignationQueue) (proposal : DesignationProposal)
    (preparer : ActorId) (r : DesignationProposal) :
    Confirmed (q.propose proposal preparer).1 r ↔ q.Confirmed r := by
  unfold propose
  split
  · rfl
  · rename_i id _
    constructor
    · rintro ⟨key, s, there, confirmed⟩
      by_cases same : key = id
      · subst same
        rw [Docket.item_enter_self, Option.some.injEq] at there
        cases before : q.item key with
        | none =>
          rw [before] at there
          cases there
          cases confirmed
        | some i =>
          rw [before] at there
          cases there
          exact ⟨key, s, before, confirmed⟩
      · exact ⟨key, s, (Docket.item_enter_other q _ _ same).symm.trans there, confirmed⟩
    · rintro ⟨key, s, there, confirmed⟩
      exact ⟨key, s, Docket.item_enter_of_some there _ _, confirmed⟩

omit [External] in
theorem confirmed_reject (q : DesignationQueue) (id : ContentHash) (actor : ActorId)
    (reason : String) (r : DesignationProposal) :
    Confirmed (q.reject id actor reason).1 r ↔ q.Confirmed r := by
  rcases q.move_cases id (DesignateError.unknownItem id) (DesignationState.reject actor reason) with
    ⟨e, refused⟩ | ⟨p, old, new, found, moved, accepted⟩
  · exact iff_of_eq (congrArg (fun m => Confirmed (Prod.fst m) r) refused)
  · have undecided := DesignationState.asserted_of_reject moved
    have rejected : new.isConfirmed = false := by
      simp only [DesignationState.reject, undecided] at moved
      cases moved
      rfl
    rw [show q.reject id actor reason = _ from accepted,
      confirmed_insert found (DesignationState.not_confirmed undecided), rejected]
    simp

omit [External] in
theorem confirm_cases (q : DesignationQueue) (id : ContentHash) (approver : ActorId) :
    (∃ p preparer, q.item id = some (p, .asserted preparer) ∧ preparer ≠ approver ∧
      ∀ r, Confirmed (q.confirm id approver).1 r ↔ q.Confirmed r ∨ r = p) ∨
    (∀ p preparer, q.item id = some (p, .asserted preparer) → preparer = approver) ∧
      (q.confirm id approver).1 = q := by
  rcases q.move_cases id (DesignateError.unknownItem id) (DesignationState.confirm approver) with
    ⟨e, refused⟩ | ⟨p, old, new, found, moved, accepted⟩
  · refine .inr ⟨fun p preparer found => ?_, congrArg Prod.fst refused⟩
    by_contra differ
    simp [Docket.move, found, DesignationState.confirm, differ] at refused
  · cases old with
    | asserted preparer =>
      simp only [DesignationState.confirm] at moved
      split at moved
      · cases moved
      · rename_i differ
        obtain rfl := Except.ok.inj moved
        refine .inl ⟨p, preparer, found, differ, fun r => ?_⟩
        have inserted := congrArg (fun m => Confirmed (Prod.fst m) r) accepted
        refine (iff_of_eq inserted).trans ((confirmed_insert found rfl).trans ?_)
        exact or_congr_right (and_iff_right rfl)
    | confirmed | rejected => cases moved

theorem exclusive_advance {q : DesignationQueue} (exclusive : q.Exclusive) (c : DesignationCall) :
    Exclusive (advance perform q c) ↔ q.Agrees c := by
  cases c with
  | propose proposal preparer =>
    refine iff_of_true (fun p r first second => ?_) trivial
    exact exclusive p r ((confirmed_propose q proposal preparer p).mp first)
      ((confirmed_propose q proposal preparer r).mp second)
  | reject id actor reason =>
    refine iff_of_true (fun p r first second => ?_) trivial
    exact exclusive p r ((confirmed_reject q id actor reason p).mp first)
      ((confirmed_reject q id actor reason r).mp second)
  | confirm id approver =>
    rcases q.confirm_cases id approver with
      ⟨p, preparer, found, differ, confirmed⟩ | ⟨unsigned, same⟩
    · constructor
      · intro after other actor there _ r stands sameLeg
        cases found.symm.trans there
        exact after r p ((confirmed r).mpr (.inl stands)) ((confirmed p).mpr (.inr rfl)) sameLeg
      · intro agrees r u first second sameLeg
        have agree := agrees p preparer found differ
        rcases (confirmed r).mp first with first | rfl <;>
          rcases (confirmed u).mp second with second | rfl
        · exact exclusive r u first second sameLeg
        · exact agree r first sameLeg
        · exact (agree u second sameLeg.symm).symm
        · rfl
    · refine iff_of_true (?_ : Exclusive (q.confirm id approver).1) ?_
      · exact same.symm ▸ exclusive
      · exact fun p preparer there differ => absurd (unsigned p preparer there) differ

theorem keyed_run (calls : List DesignationCall) {id : ContentHash} {p : DesignationProposal}
    {s : DesignationState} (found : (run (advance perform) .empty calls).item id = some (p, s)) :
    p.proposalHash = .ok id := by
  have lives := acts.lives calls id
  rw [found] at lives
  obtain ⟨start, origin, _⟩ := lives.origin
  obtain ⟨c, _, entry⟩ := List.exists_of_findSome?_eq_some origin
  rw [entryBy_eq] at entry
  obtain ⟨⟨payload, actor⟩, proposed, same⟩ := Option.map_eq_some_iff.mp entry
  cases same
  cases c with
  | propose r preparer =>
    obtain ⟨hashed, same⟩ := Option.ite_none_right_eq_some.mp proposed
    cases same
    exact hashed
  | confirm | reject => cases proposed

/-- The confirmed designations agree on every leg all along a run exactly if each confirmation
was of a proposal that agreed with those that stood. An item keeps to its proposal, what is
booked of it is what was confirmed, and where the designations agree so do the bookings. -/
theorem exclusive_iff (calls : List DesignationCall) :
    (Throughout (advance perform) Exclusive .empty calls ↔
      Along (advance perform) Agrees .empty calls) ∧
    (∀ id p s, (run (advance perform) .empty calls).item id = some (p, s) →
      p.proposalHash = .ok id ∧ ∀ tenant t d, draftDesignation p s tenant t = .ok d →
        s.isConfirmed ∧ d.Designates p.leg p.classification) ∧
    (Exclusive (run (advance perform) .empty calls) → ∀ id p s other r u tenant t d tenant' t' d',
      (run (advance perform) .empty calls).item id = some (p, s) →
      (run (advance perform) .empty calls).item other = some (r, u) →
      draftDesignation p s tenant t = .ok d → draftDesignation r u tenant' t' = .ok d' →
      ∀ leg b c, d.Designates leg b → d'.Designates leg c → b = c) := by
  refine ⟨?_, fun id p s found => ⟨keyed_run calls found, fun _ _ _ => draftDesignation_eq_ok⟩, ?_⟩
  · apply throughout_iff_along (advance perform) Agrees Exclusive
      (fun _ c exclusive => exclusive_advance exclusive c) calls .empty
    rintro p r ⟨id, s, found, _⟩
    rw [Docket.item_empty] at found
    cases found
  · intro exclusive id p s other r u tenant t d tenant' t' d' first second drafted drafted' leg b c
      told told'
    obtain ⟨confirmed, books⟩ := draftDesignation_eq_ok drafted
    obtain ⟨confirmed', books'⟩ := draftDesignation_eq_ok drafted'
    obtain ⟨rfl, rfl⟩ := books.unique told
    obtain ⟨sameLeg, rfl⟩ := books'.unique told'
    exact exclusive p r ⟨id, s, first, confirmed⟩ ⟨other, u, second, confirmed'⟩ sameLeg.symm

end DesignationQueue

theorem NonPurchaseKind.flat (k : NonPurchaseKind) : Flat 1 k.toJson := by
  rw [k.toJson_eq]
  refine flat_object (by cases k <;> simp [members]) fun e he => ?_
  cases k <;> simp only [members, List.mem_cons, List.not_mem_nil, or_false] at he
  case other =>
    rcases he with rfl | rfl <;> exact flat_string 0 _
  all_goals exact he ▸ flat_string 0 _

theorem LegClassification.flat (c : LegClassification) : Flat 2 c.toJson := by
  rw [c.toJson_eq]
  refine flat_object (by cases c <;> simp [members]) fun e he => ?_
  cases c <;> simp only [members, List.mem_cons, List.not_mem_nil, or_false] at he
  case nonPurchaseAcquisition kind =>
    rcases he with rfl | rfl
    · exact flat_string 1 _
    · exact kind.flat
  all_goals exact he ▸ flat_string 1 _

namespace DesignationProposal

theorem flat (p : DesignationProposal) : Flat 3 p.envelope := by
  refine flat_object (by simp) fun e he => ?_
  simp only [List.mem_cons, List.not_mem_nil, or_false] at he
  rcases he with rfl | rfl | rfl | rfl
  · exact flat_string 2 _
  · exact flat_string 2 _
  · exact p.classification.flat
  · exact flat_string 2 _

variable [External]

def proposed (p : DesignationProposal) : ContentHash := sha256 (utf8 (toText p.envelope))

theorem proposalHash_eq {p : DesignationProposal} (clear : p.vague = false) :
    p.proposalHash = .ok p.proposed := by
  rw [proposalHash, clear, canonicalBytes_flat p.flat (by decide)]
  rfl

end DesignationProposal

def movement (c : LegClassification) : DesignationProposal := ⟨.filled 7, c, .filled 9⟩

def bothWays [External] : List DesignationCall :=
  [.propose (movement .disposal) ⟨"alice"⟩, .propose (movement .acquisition) ⟨"alice"⟩,
    .confirm (movement .disposal).proposed ⟨"bob"⟩, .confirm (movement .acquisition).proposed ⟨"bob"⟩]

namespace DesignationQueue

theorem item_confirm {q : DesignationQueue} {id : ContentHash} {p : DesignationProposal}
    {preparer approver : ActorId} (found : q.item id = some (p, .asserted preparer))
    (differ : preparer ≠ approver) (key : ContentHash) :
    (q.confirm id approver).1.item key =
      if key = id then some (p, .confirmed preparer approver) else q.item key := by
  simp [confirm, Docket.move, found, DesignationState.confirm, differ, Docket.item_insert]

theorem item_propose [External] {p : DesignationProposal} {id : ContentHash}
    (hashed : p.proposalHash = .ok id) (q : DesignationQueue) (preparer : ActorId)
    (key : ContentHash) : (q.propose p preparer).1.item key =
      if key = id then some ((q.item id).getD (p, .asserted preparer)) else q.item key := by
  simp only [propose, hashed]
  split
  · rename_i same
    rw [same, Docket.item_enter_self]
  · rename_i different
    exact Docket.item_enter_other q _ _ different

end DesignationQueue

open DesignationQueue in
theorem run_bothWays [External]
    (differ : (movement .acquisition).proposed ≠ (movement .disposal).proposed) :
    (run (advance perform) .empty bothWays).item (movement .disposal).proposed =
        some (movement .disposal, .confirmed ⟨"alice"⟩ ⟨"bob"⟩) ∧
      (run (advance perform) .empty bothWays).item (movement .acquisition).proposed =
        some (movement .acquisition, .confirmed ⟨"alice"⟩ ⟨"bob"⟩) := by
  have proposed (q : DesignationQueue) (c : LegClassification) (clear : (movement c).vague = false)
      (key : ContentHash) := item_propose (DesignationProposal.proposalHash_eq clear) q ⟨"alice"⟩ key
  have apart : (⟨"alice"⟩ : ActorId) ≠ ⟨"bob"⟩ := by decide
  let q := (propose .empty (movement .disposal) ⟨"alice"⟩).1
  let r := (propose q (movement .acquisition) ⟨"alice"⟩).1
  have first : r.item (movement .disposal).proposed =
      some (movement .disposal, .asserted ⟨"alice"⟩) := by
    rw [proposed q .acquisition rfl, if_neg differ.symm, proposed .empty .disposal rfl, if_pos rfl]
    simp
  have second : r.item (movement .acquisition).proposed =
      some (movement .acquisition, .asserted ⟨"alice"⟩) := by
    rw [proposed q .acquisition rfl, if_pos rfl, proposed .empty .disposal rfl, if_neg differ]
    simp
  have confirmed := item_confirm first apart
  have later : (r.confirm (movement .disposal).proposed ⟨"bob"⟩).1.item
      (movement .acquisition).proposed = some (movement .acquisition, .asserted ⟨"alice"⟩) := by
    rw [confirmed, if_neg differ, second]
  have reached : run (advance perform) .empty bothWays =
      ((r.confirm (movement .disposal).proposed ⟨"bob"⟩).1.confirm
        (movement .acquisition).proposed ⟨"bob"⟩).1 := by
    simp only [bothWays, run, advance, perform, r, q]
  rw [reached, item_confirm later apart, item_confirm later apart, if_pos rfl, if_neg differ.symm,
    confirmed, if_pos rfl]
  exact ⟨rfl, rfl⟩

/-- Both are confirmed, and both can be booked. -/
theorem bothWays_booked :
    letI : External := reference
    ¬DesignationQueue.Exclusive (run (advance DesignationQueue.perform) .empty bothWays) ∧
      ∃ id p s other r u d d',
        (run (advance DesignationQueue.perform) .empty bothWays).item id = some (p, s) ∧
        (run (advance DesignationQueue.perform) .empty bothWays).item other = some (r, u) ∧
        draftDesignation p s ⟨"acme"⟩ ⟨0⟩ = .ok d ∧ draftDesignation r u ⟨"acme"⟩ ⟨0⟩ = .ok d' ∧
        d.Designates (.filled 7) .disposal ∧ d'.Designates (.filled 7) .acquisition := by
  let _ : External := reference
  have differ : (movement .acquisition).proposed ≠ (movement .disposal).proposed := by
    simp only [DesignationProposal.proposed, toText, utf8_ofList]
    decide +kernel
  obtain ⟨first, second⟩ := run_bothWays differ
  constructor
  · intro exclusive
    have same := exclusive _ _ ⟨_, _, first, rfl⟩ ⟨_, _, second, rfl⟩ rfl
    cases same
  · have drafts (c : LegClassification) (clear : (movement c).vague = false) :
        ∃ d, draftDesignation (movement c) (.confirmed ⟨"alice"⟩ ⟨"bob"⟩) ⟨"acme"⟩ ⟨0⟩ = .ok d ∧
          d.Designates (.filled 7) c := by
      cases drafted : draftDesignation (movement c) (.confirmed ⟨"alice"⟩ ⟨"bob"⟩) ⟨"acme"⟩ ⟨0⟩ with
      | error e =>
        simp [draftDesignation, DesignationProposal.proposalHash_eq clear] at drafted
      | ok d => exact ⟨d, rfl, (draftDesignation_eq_ok drafted).2⟩
    obtain ⟨d, drafted, books⟩ := drafts .disposal rfl
    obtain ⟨d', drafted', books'⟩ := drafts .acquisition rfl
    exact ⟨_, _, _, _, _, _, d, d', first, second, drafted, drafted', books, books'⟩

end Treasury
