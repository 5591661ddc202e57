import Mathlib.Algebra.Order.BigOperators.Group.List
import Treasury.Lots.Plan

/-! What a run of reliefs leaves, and exactly when it carries out the whole plan. -/
namespace Treasury
open Kit

def totalAtoms (lots : List Lot) : Int := (lots.map fun l => l.atoms.val).sum

theorem totalAtoms_cons (lot : Lot) (lots : List Lot) :
    totalAtoms (lot :: lots) = lot.atoms.val + totalAtoms lots := rfl

theorem totalAtoms_nonneg {lots : List Lot} (nonneg : ∀ l ∈ lots, 0 ≤ l.atoms.val) :
    0 ≤ totalAtoms lots := by
  apply List.sum_nonneg
  simpa using nonneg

/-- The first lot planned cannot give up the quantity planned. -/
def FirstRefused (lots : List Lot) : ReliefPlan → Prop
  | [] => False
  | (id, take) :: _ => ∃ lot, findLot lots id = some lot ∧ ¬Relievable lot take

/-- No lot is planned twice, and every planned lot can give up the quantity planned. -/
structure Carried (lots : List Lot) (plan : ReliefPlan) : Prop where
  distinct : (plan.map Prod.fst).Nodup
  able : ∀ entry ∈ plan, ∃ lot, findLot lots entry.1 = some lot ∧ Relievable lot entry.2

theorem Carried.not_refused {lots : List Lot} {plan : ReliefPlan} (carried : Carried lots plan) :
    ¬FirstRefused lots plan := by
  cases plan with
  | nil => exact id
  | cons entry plan =>
    rintro ⟨lot, found, unable⟩
    obtain ⟨other, foundToo, able⟩ := carried.able entry List.mem_cons_self
    cases found.symm.trans foundToo
    exact unable able

/-- An entry for an able lot can be taken off a plan, whatever is left of the lot. -/
theorem carried_cons {pre post : List Lot} {lot left : Lot} {take : I128} {plan : ReliefPlan}
    (apart : ∀ l ∈ pre, l.lotId ≠ lot.lotId) (same : left.lotId = lot.lotId)
    (able : Relievable lot take) :
    Carried (pre ++ lot :: post) ((lot.lotId, take) :: plan) ↔
      lot.lotId ∉ plan.map Prod.fst ∧ Carried (pre ++ left :: post) plan := by
  have unchanged (other : lot.lotId ∉ plan.map Prod.fst) (entry : LotId × I128) (h : entry ∈ plan) :
      findLot (pre ++ left :: post) entry.1 = findLot (pre ++ lot :: post) entry.1 :=
    findLot_other same fun again => other (again ▸ List.mem_map_of_mem h)
  constructor
  · rintro ⟨distinct, ableAll⟩
    obtain ⟨other, distinct⟩ := List.nodup_cons.mp distinct
    refine ⟨other, distinct, fun entry h => ?_⟩
    rw [unchanged other entry h]
    exact ableAll entry (List.mem_cons_of_mem _ h)
  · rintro ⟨other, carried⟩
    refine ⟨List.nodup_cons.mpr ⟨other, carried.distinct⟩, fun entry h => ?_⟩
    rcases List.mem_cons.mp h with rfl | h
    · exact ⟨lot, findLot_split apart, able⟩
    · rw [← unchanged other entry h]
      exact carried.able entry h

theorem totalAtoms_perm {lots other : List Lot} (perm : lots.Perm other) :
    totalAtoms lots = totalAtoms other :=
  (perm.map _).sum_eq

theorem totalAtoms_filter {lots : List Lot} (sound : ∀ l ∈ lots, l.NonNegative) :
    totalAtoms (lots.filter (0 < ·.atoms)) = totalAtoms lots := by
  induction lots with
  | nil => rfl
  | cons lot lots ih =>
    have tail := ih fun l h => sound l (List.mem_cons_of_mem lot h)
    rw [totalAtoms_cons, ← tail]
    by_cases positive : 0 < lot.atoms
    · simp [totalAtoms_cons, positive]
    · have empty : lot.atoms.val = 0 :=
        le_antisymm (not_lt.mp positive) (sound lot List.mem_cons_self).atoms
      simp [positive, empty]

namespace Relieves

variable {lots out : List Lot} {plan : ReliefPlan} {result : Except LotError (List LotRelief)}

theorem forall_left {kept : Lot → Prop} (run : Relieves lots plan out result)
    (keeps : ∀ lot take left relief, lot.NonNegative → Relievable lot take → 0 < take.val →
      take ≤ lot.atoms → Relieved lot take left relief → kept lot → kept left)
    (start : ∀ l ∈ lots, kept l) : ∀ l ∈ out, kept l := by
  induction run with
  | done => exact start
  | refused => exact start
  | @taken pre post out lot left take plan relief result apart sound able positive within whole
      relieved rest ih =>
    apply ih
    have new := keeps lot take left relief sound able positive within relieved
      (start lot (by simp))
    intro l h
    rcases List.mem_append.mp h with h | h
    · exact start l (List.mem_append_left _ h)
    · rcases List.mem_cons.mp h with rfl | h
      · exact new
      · exact start l (List.mem_append_right _ (List.mem_cons_of_mem lot h))

theorem nonNegative_left (run : Relieves lots plan out result)
    (sound : ∀ l ∈ lots, l.NonNegative) : ∀ l ∈ out, l.NonNegative := by
  apply run.forall_left _ sound
  intro lot take left relief _ able _ within relieved nonneg
  exact relieved.nonNegative nonneg able.1 within

theorem lotIds_eq (run : Relieves lots plan out result) :
    out.map Lot.lotId = lots.map Lot.lotId := by
  induction run with
  | done => rfl
  | refused => rfl
  | taken apart sound able positive within whole relieved rest ih =>
    simpa [relieved.lotId_eq] using ih

theorem totalAtoms_le (run : Relieves lots plan out result) : totalAtoms out ≤ totalAtoms lots := by
  induction run with
  | done => exact le_rfl
  | refused => exact le_rfl
  | taken apart sound able positive within whole relieved rest ih =>
    have less := relieved.atoms
    simp only [totalAtoms, List.map_append, List.map_cons, List.sum_append, List.sum_cons] at ih ⊢
    omega

theorem totalAtoms_lt (run : Relieves lots plan out result) (some : plan ≠ [])
    (started : ¬FirstRefused lots plan) : totalAtoms out < totalAtoms lots := by
  cases run with
  | done => contradiction
  | refused e found unable => exact absurd ⟨_, found, unable⟩ started
  | taken apart sound able positive within whole relieved rest =>
    have later := rest.totalAtoms_le
    have less := relieved.atoms
    simp only [totalAtoms, List.map_append, List.map_cons, List.sum_append, List.sum_cons] at later ⊢
    omega

theorem unchanged_of_refused (run : Relieves lots plan out result)
    (refused : FirstRefused lots plan) : out = lots ∧ ∃ e, result = .error e := by
  cases run with
  | done => contradiction
  | refused e => exact ⟨rfl, e, rfl⟩
  | taken apart sound able =>
    obtain ⟨lot, found, unable⟩ := refused
    rw [findLot_split apart] at found
    cases found
    exact absurd able unable

theorem nil_result (run : Relieves lots [] out result) : result = .ok [] := by
  cases run
  rfl

theorem empty_stays (run : Relieves lots plan out result) {lot : Lot} (h : lot ∈ lots)
    (empty : lot.atoms.val = 0) : lot ∈ out := by
  induction run with
  | done => exact h
  | refused => exact h
  | @taken pre post out first left take plan relief result apart sound able positive within whole
      relieved rest ih =>
    apply ih
    rcases List.mem_append.mp h with h | h
    · exact List.mem_append_left _ h
    · rcases List.mem_cons.mp h with rfl | h
      · exact absurd able (empty_not_relievable empty)
      · exact List.mem_append_right _ (List.mem_cons_of_mem left h)

/-- A run that stops after its first relief leaves an empty lot behind. -/
theorem stopped_leaves_empty {e : LotError} (run : Relieves lots plan out (.error e))
    (started : ¬FirstRefused lots plan) : ∃ lot ∈ out, lot.atoms.val = 0 := by
  generalize stopped : Except.error e = result at run
  cases run with
  | done => contradiction
  | refused e found unable => exact absurd ⟨_, found, unable⟩ started
  | @taken pre post out lot left take plan relief result apart sound able positive within whole
      relieved rest =>
    have more : plan ≠ [] := by
      rintro rfl
      rw [rest.nil_result] at stopped
      contradiction
    have drained : left.atoms.val = 0 := by
      rw [relieved.atoms, whole more]
      omega
    exact ⟨left, rest.empty_stays (List.mem_append_right _ List.mem_cons_self) drained, drained⟩

theorem findLot_frame (run : Relieves lots plan out result) {id : LotId}
    (unplanned : id ∉ plan.map Prod.fst) : findLot out id = findLot lots id := by
  induction run with
  | done => rfl
  | refused => rfl
  | taken apart sound able positive within whole relieved rest ih =>
    simp only [List.map_cons, List.mem_cons, not_or] at unplanned
    exact (ih unplanned.2).trans (findLot_other relieved.lotId_eq unplanned.1)

theorem fails_of_empty (run : Relieves lots plan out result) {id : LotId} {lot : Lot}
    (found : findLot lots id = some lot) (empty : lot.atoms.val = 0)
    (planned : id ∈ plan.map Prod.fst) : ∃ e, result = .error e := by
  induction run with
  | done => simp at planned
  | refused e => exact ⟨e, rfl⟩
  | @taken pre post out first left take plan relief result apart sound able positive within whole
      relieved rest ih =>
    by_cases mine : id = first.lotId
    · rw [mine, findLot_split apart] at found
      cases found
      exact absurd able (empty_not_relievable empty)
    · have later : id ∈ plan.map Prod.fst := by
        simpa [mine] using planned
      obtain ⟨e, failed⟩ := ih ((findLot_other relieved.lotId_eq mine).trans found) later
      exact ⟨e, by rw [failed]; rfl⟩

theorem ok_iff_carried (run : Relieves lots plan out result) :
    (∃ reliefs, result = .ok reliefs) ↔ Carried lots plan := by
  induction run with
  | done => exact iff_of_true ⟨[], rfl⟩ ⟨List.nodup_nil, by simp⟩
  | refused e found unable =>
    refine iff_of_false (by simp) fun carried => ?_
    obtain ⟨lot, foundToo, able⟩ := carried.able _ List.mem_cons_self
    cases found.symm.trans foundToo
    exact unable able
  | @taken pre post out lot left take plan relief result apart sound able positive within whole
      relieved rest ih =>
    rw [carried_cons apart relieved.lotId_eq able, ← ih]
    constructor
    · rintro ⟨reliefs, accepted⟩
      obtain ⟨later, carriedOut⟩ : ∃ later, result = .ok later := by
        cases result with
        | error e => contradiction
        | ok later => exact ⟨later, rfl⟩
      refine ⟨fun again => ?_, later, carriedOut⟩
      have all : take = lot.atoms := by
        apply whole
        rintro rfl
        simp at again
      have drained : left.atoms.val = 0 := by rw [relieved.atoms, all]; omega
      have foundLeft := @findLot_split pre post left (relieved.lotId_eq ▸ apart)
      rw [relieved.lotId_eq] at foundLeft
      obtain ⟨e, failed⟩ := rest.fails_of_empty foundLeft drained again
      rw [failed] at carriedOut
      contradiction
    · rintro ⟨_, later, carriedOut⟩
      exact ⟨relief :: later, by rw [carriedOut]; rfl⟩

end Relieves

/-- What a carried plan does for one of its entries. -/
structure Drawn (lots out : List Lot) (entry : LotId × I128) (lot left : Lot)
    (relief : LotRelief) : Prop where
  found : findLot lots entry.1 = some lot
  foundLeft : findLot out entry.1 = some left
  sound : lot.NonNegative
  able : Relievable lot entry.2
  positive : 0 < entry.2.val
  within : entry.2 ≤ lot.atoms
  relieved : Relieved lot entry.2 left relief

theorem drawn_of_mem {lots out : List Lot} {plan : ReliefPlan} {reliefs : List LotRelief}
    (drawn : List.Forall₂ (fun entry relief => ∃ lot left, Drawn lots out entry lot left relief)
      plan reliefs) {entry : LotId × I128} (h : entry ∈ plan) :
    ∃ relief lot left, Drawn lots out entry lot left relief := by
  induction drawn with
  | nil => contradiction
  | @cons _ relief _ _ first _ ih =>
    rcases List.mem_cons.mp h with rfl | h
    · exact ⟨relief, first⟩
    · exact ih h

theorem drawn_of_relief {lots out : List Lot} {plan : ReliefPlan} {reliefs : List LotRelief}
    (drawn : List.Forall₂ (fun entry relief => ∃ lot left, Drawn lots out entry lot left relief)
      plan reliefs) {relief : LotRelief} (h : relief ∈ reliefs) :
    ∃ entry ∈ plan, ∃ lot left, Drawn lots out entry lot left relief := by
  induction drawn with
  | nil => contradiction
  | @cons entry _ _ _ first _ ih =>
    rcases List.mem_cons.mp h with rfl | h
    · exact ⟨entry, List.mem_cons_self, first⟩
    · obtain ⟨entry, inPlan, drawn⟩ := ih h
      exact ⟨entry, List.mem_cons_of_mem _ inPlan, drawn⟩

theorem Drawn.found_relief {lots out : List Lot} {entry : LotId × I128} {lot left : Lot}
    {relief : LotRelief} (drawn : Drawn lots out entry lot left relief) :
    findLot lots relief.lotId = some lot := by
  have named : relief.lotId = entry.1 := by
    rw [drawn.relieved.record]
    exact (findLot_mem drawn.found).2
  exact named ▸ drawn.found

theorem Relieves.drawn {lots out : List Lot} {plan : ReliefPlan} {reliefs : List LotRelief}
    (run : Relieves lots plan out (.ok reliefs)) :
    List.Forall₂ (fun entry relief => ∃ lot left, Drawn lots out entry lot left relief)
      plan reliefs := by
  have carried := run.ok_iff_carried.mp ⟨reliefs, rfl⟩
  generalize accepted : Except.ok reliefs = result at run
  induction run generalizing reliefs with
  | done =>
    cases accepted
    exact .nil
  | refused => contradiction
  | @taken pre post out lot left take plan relief result apart sound able positive within whole
      relieved rest ih =>
    obtain ⟨other, later⟩ := (carried_cons apart relieved.lotId_eq able).mp carried
    obtain ⟨reliefs, rfl⟩ := rest.ok_iff_carried.mpr later
    cases accepted
    have foundLeft := @findLot_split pre post left (relieved.lotId_eq ▸ apart)
    rw [relieved.lotId_eq, ← rest.findLot_frame other] at foundLeft
    refine .cons ⟨lot, left, findLot_split apart, foundLeft, sound, able, positive, within,
      relieved⟩ ?_
    have distinct : ∀ entry ∈ plan, entry.1 ≠ lot.lotId := by
      intro entry h same
      exact other (same ▸ List.mem_map_of_mem h)
    apply ((List.forall₂_and_left plan reliefs).mpr ⟨distinct, ih later rfl⟩).imp
    rintro entry relief ⟨different, lot, left, drawn⟩
    have found := (findLot_other relieved.lotId_eq different).symm.trans drawn.found
    exact ⟨lot, left, { drawn with found }⟩

/-- With distinct ids and no empty lot, the lots that keep a quantity are those that the
plan does not take whole. -/
theorem Relieves.survivors {lots out : List Lot} {plan : ReliefPlan} {reliefs : List LotRelief}
    (run : Relieves lots plan out (.ok reliefs)) (distinct : (lots.map Lot.lotId).Nodup)
    (positive : ∀ l ∈ lots, 0 < l.atoms.val) (id : LotId) :
    id ∈ (out.filter (0 < ·.atoms)).map Lot.lotId ↔
      ∃ l ∈ lots, l.lotId = id ∧ (id, l.atoms) ∉ plan := by
  have sameIds := run.lotIds_eq
  have distinctOut : (out.map Lot.lotId).Nodup := sameIds ▸ distinct
  simp only [List.mem_map, List.mem_filter, decide_eq_true_eq]
  constructor
  · rintro ⟨left, ⟨inOut, remains⟩, rfl⟩
    have inIds : left.lotId ∈ lots.map Lot.lotId := sameIds ▸ List.mem_map_of_mem inOut
    obtain ⟨lot, inLots, sameId⟩ := List.mem_map.mp inIds
    refine ⟨lot, inLots, sameId, fun taken => ?_⟩
    obtain ⟨relief, first, rest, drawn⟩ := drawn_of_mem run.drawn taken
    have isLot := findLot_of_mem distinct inLots
    have isLeft := findLot_of_mem distinctOut inOut
    rw [sameId] at isLot
    cases isLot.symm.trans drawn.found
    cases isLeft.symm.trans drawn.foundLeft
    have drained : left.atoms.val = lot.atoms.val - lot.atoms.val := drawn.relieved.atoms
    have remains : 0 < left.atoms.val := remains
    omega
  · rintro ⟨lot, inLots, rfl, kept⟩
    have isLot := findLot_of_mem distinct inLots
    by_cases planned : lot.lotId ∈ plan.map Prod.fst
    · obtain ⟨⟨id, take⟩, inPlan, sameId⟩ := List.mem_map.mp planned
      obtain rfl : id = lot.lotId := sameId
      obtain ⟨relief, first, left, drawn⟩ := drawn_of_mem run.drawn inPlan
      cases isLot.symm.trans drawn.found
      have different : take.val ≠ lot.atoms.val := by
        intro same
        rw [Bounded.ext_val same] at inPlan
        exact kept inPlan
      have within : take.val ≤ lot.atoms.val := drawn.within
      have rest : left.atoms.val = lot.atoms.val - take.val := drawn.relieved.atoms
      obtain ⟨inOut, sameId⟩ := findLot_mem drawn.foundLeft
      refine ⟨left, ⟨inOut, ?_⟩, sameId⟩
      exact Bounded.lt_def.mpr (by simp only [I128.zero_val]; omega)
    · rw [← run.findLot_frame planned] at isLot
      exact ⟨lot, ⟨(findLot_mem isLot).1, positive lot inLots⟩, rfl⟩

end Treasury
