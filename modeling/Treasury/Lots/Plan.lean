import Treasury.Lots.Relief

/-! Relief of a whole plan, entry by entry. -/
namespace Treasury
open Kit

/- Lots found by id. -/

theorem findLot_eq_some {lots : List Lot} {id : LotId} {lot : Lot} :
    findLot lots id = some lot ↔
      lot.lotId = id ∧ ∃ pre post, lots = pre ++ lot :: post ∧ ∀ l ∈ pre, l.lotId ≠ id := by
  simp [findLot, List.find?_eq_some_iff_append]

theorem findLot_split {pre post : List Lot} {lot : Lot} (apart : ∀ l ∈ pre, l.lotId ≠ lot.lotId) :
    findLot (pre ++ lot :: post) lot.lotId = some lot :=
  findLot_eq_some.mpr ⟨rfl, pre, post, rfl, apart⟩

theorem findLot_mem {lots : List Lot} {id : LotId} {lot : Lot} (found : findLot lots id = some lot) :
    lot ∈ lots ∧ lot.lotId = id := by
  obtain ⟨mine, pre, post, split, _⟩ := findLot_eq_some.mp found
  exact ⟨by simp [split], mine⟩

theorem exists_findLot {lots : List Lot} {lot : Lot} (h : lot ∈ lots) :
    ∃ first, findLot lots lot.lotId = some first := by
  cases found : findLot lots lot.lotId with
  | some first => exact ⟨first, rfl⟩
  | none =>
    simp only [findLot, List.find?_eq_none, decide_eq_true_eq] at found
    exact absurd rfl (found lot h)

theorem findLot_other {pre post : List Lot} {lot left : Lot} {id : LotId}
    (same : left.lotId = lot.lotId) (other : id ≠ lot.lotId) :
    findLot (pre ++ left :: post) id = findLot (pre ++ lot :: post) id := by
  simp [findLot, List.find?_append, same, other.symm]

theorem findLot_of_mem {lots : List Lot} (distinct : (lots.map Lot.lotId).Nodup) {lot : Lot}
    (h : lot ∈ lots) : findLot lots lot.lotId = some lot := by
  obtain ⟨first, found⟩ := exists_findLot h
  obtain ⟨inLots, sameId⟩ := findLot_mem found
  rw [found, List.inj_on_of_nodup_map distinct inLots h sameId]

theorem relieveById_split {pre post : List Lot} {lot : Lot} {take : I128}
    (apart : ∀ l ∈ pre, l.lotId ≠ lot.lotId) :
    relieveById lot.lotId take (pre ++ lot :: post) =
      (pre ++ (relieveLot lot take).1 :: post, (relieveLot lot take).2) := by
  induction pre with
  | nil => simp [relieveById]
  | cons l pre ih =>
    have tail := ih fun m hm => apart m (List.mem_cons_of_mem l hm)
    simp [relieveById, apart l List.mem_cons_self, tail]

/-- A run of reliefs over the lots, to its end or to the first lot that cannot give up
the quantity planned. Only the last entry may leave something of its lot. -/
inductive Relieves :
    List Lot → ReliefPlan → List Lot → Except LotError (List LotRelief) → Prop where
  | done (lots : List Lot) : Relieves lots [] lots (.ok [])
  | refused {lots : List Lot} {lot : Lot} {id : LotId} {take : I128} {plan : ReliefPlan}
      (e : LotError) (found : findLot lots id = some lot) (unable : ¬Relievable lot take) :
      Relieves lots ((id, take) :: plan) lots (.error e)
  | taken {pre post out : List Lot} {lot left : Lot} {take : I128} {plan : ReliefPlan}
      {relief : LotRelief} {result : Except LotError (List LotRelief)}
      (apart : ∀ l ∈ pre, l.lotId ≠ lot.lotId) (sound : lot.NonNegative)
      (able : Relievable lot take) (positive : 0 < take.val) (within : take ≤ lot.atoms)
      (whole : plan ≠ [] → take = lot.atoms) (relieved : Relieved lot take left relief)
      (rest : Relieves (pre ++ left :: post) plan out result) :
      Relieves (pre ++ lot :: post) ((lot.lotId, take) :: plan) out (result.map (relief :: ·))

/-- The id of every lot given leads to an empty lot or to the first of them with that id. -/
def Leads (lots ordered : List Lot) : Prop :=
  ∀ lot ∈ ordered, ∃ first, findLot lots lot.lotId = some first ∧
    (first.atoms.val = 0 ∨ findLot ordered lot.lotId = some first)

theorem leads_tail {pre post ordered : List Lot} {lot left : Lot}
    (leads : Leads (pre ++ lot :: post) (lot :: ordered))
    (apart : ∀ l ∈ pre, l.lotId ≠ lot.lotId) (same : left.lotId = lot.lotId)
    (drained : left.atoms.val = 0) : Leads (pre ++ left :: post) ordered := by
  intro other later
  by_cases mine : other.lotId = lot.lotId
  · refine ⟨left, ?_, .inl drained⟩
    rw [mine, ← same]
    exact findLot_split (same ▸ apart)
  · obtain ⟨first, found, leadsTo⟩ := leads other (List.mem_cons_of_mem lot later)
    refine ⟨first, (findLot_other same mine).trans found, ?_⟩
    rcases leadsTo with empty | first
    · exact .inl empty
    · exact .inr (by simpa [findLot, Ne.symm mine] using first)

theorem sound_replaced {pre post : List Lot} {lot left : Lot}
    (sound : ∀ l ∈ pre ++ lot :: post, l.NonNegative) (new : left.NonNegative) :
    ∀ l ∈ pre ++ left :: post, l.NonNegative := by
  intro l h
  rcases List.mem_append.mp h with h | h
  · exact sound l (List.mem_append_left _ h)
  · rcases List.mem_cons.mp h with rfl | h
    · exact new
    · exact sound l (List.mem_append_right _ (List.mem_cons_of_mem lot h))

theorem relieveAll_refused {lots : List Lot} {lot : Lot} {id : LotId} {take : I128}
    {plan : ReliefPlan} (found : findLot lots id = some lot) (sound : lot.NonNegative)
    (proper : lot.atoms.val = 0 ∨ 0 ≤ take.val) (unable : ¬Relievable lot take) :
    ∃ e, relieveAll lots ((id, take) :: plan) = (lots, .error e) := by
  obtain ⟨e, refused⟩ := relieveLot_refused sound proper unable
  obtain ⟨rfl, pre, post, rfl, apart⟩ := findLot_eq_some.mp found
  refine ⟨e, ?_⟩
  simp only [relieveAll, relieveById_split apart, refused]

theorem relieveAll_taken {pre post : List Lot} {lot : Lot} {take : I128} {plan : ReliefPlan}
    (apart : ∀ l ∈ pre, l.lotId ≠ lot.lotId) (sound : lot.NonNegative) (proper : 0 ≤ take.val)
    (able : Relievable lot take) :
    ∃ left relief, Relieved lot take left relief ∧
      relieveAll (pre ++ lot :: post) ((lot.lotId, take) :: plan) =
        ((relieveAll (pre ++ left :: post) plan).1,
          (relieveAll (pre ++ left :: post) plan).2.map (relief :: ·)) := by
  obtain ⟨left, relief, taken, relieved⟩ := relieveLot_relieved sound proper able
  refine ⟨left, relief, relieved, ?_⟩
  simp only [relieveAll, relieveById_split apart, taken]
  cases relieveAll (pre ++ left :: post) plan with
  | mk out result => cases result <;> rfl

theorem planFrom_zero (ordered : List Lot) : planFrom 0 ordered = .ok [] := by
  cases ordered <;> rfl

/-- A plan entry takes what is needed or all there is, and all there is if more entries follow. -/
theorem planFrom_cons {candidate : Lot} {ordered : List Lot} {needed : I128} {plan : ReliefPlan}
    (proper : 0 ≤ needed.val) (planned : planFrom needed (candidate :: ordered) = .ok plan) :
    needed = 0 ∧ plan = [] ∨ ∃ take still rest, plan = (candidate.lotId, take) :: rest ∧
      planFrom still ordered = .ok rest ∧ 0 < needed.val ∧ 0 ≤ still.val ∧
      (take = needed ∨ take = candidate.atoms) ∧ take ≤ candidate.atoms ∧
      still.val = needed.val - take.val ∧ (rest ≠ [] → take = candidate.atoms) := by
  simp only [planFrom] at planned
  split at planned
  · rename_i zero
    exact .inl ⟨zero, (Except.ok.inj planned).symm⟩
  · rename_i nonzero
    simp only [bind_eq_ok, pure_eq_ok, orOverflow_eq_ok, Bounded.checkedSub_eq_some] at planned
    obtain ⟨still, difference, rest, planned, rfl⟩ := planned
    have chosen := min_choice needed candidate.atoms
    have below : (min needed candidate.atoms).val ≤ needed.val := min_le_left needed candidate.atoms
    have some : needed.val ≠ 0 := fun h => nonzero (Bounded.ext_val h)
    refine .inr ⟨_, still, rest, rfl, planned, by omega, by omega, chosen, min_le_right _ _,
      difference.symm, fun more => ?_⟩
    rcases chosen with all | all
    · have spent : still = 0 := Bounded.ext_val (by rw [← difference, all]; simp)
      rw [spent, planFrom_zero] at planned
      exact absurd (Except.ok.inj planned).symm more
    · exact all

theorem planFrom_mem {ordered : List Lot} {needed : I128} {plan : ReliefPlan}
    (proper : 0 ≤ needed.val) (planned : planFrom needed ordered = .ok plan) :
    ∀ entry ∈ plan, ∃ lot ∈ ordered, lot.lotId = entry.1 := by
  induction ordered generalizing needed plan with
  | nil =>
    cases Except.ok.inj planned
    simp
  | cons candidate ordered ih =>
    rcases planFrom_cons proper planned with
      ⟨-, rfl⟩ | ⟨take, still, plan, rfl, later, _, properStill, _⟩
    · simp
    · intro entry h
      rcases List.mem_cons.mp h with rfl | h
      · exact ⟨candidate, List.mem_cons_self, rfl⟩
      · obtain ⟨lot, inRest, sameId⟩ := ih properStill later entry h
        exact ⟨lot, List.mem_cons_of_mem candidate inRest, sameId⟩

theorem planFrom_relieves {ordered lots : List Lot} {needed : I128} {plan : ReliefPlan}
    (sound : ∀ l ∈ lots, l.NonNegative) (leads : Leads lots ordered) (proper : 0 ≤ needed.val)
    (planned : planFrom needed ordered = .ok plan) :
    Relieves lots plan (relieveAll lots plan).1 (relieveAll lots plan).2 := by
  induction ordered generalizing lots needed plan with
  | nil =>
    cases Except.ok.inj planned
    exact .done lots
  | cons candidate ordered ih =>
    rcases planFrom_cons proper planned with
      ⟨-, rfl⟩ | ⟨take, still, plan, rfl, later, some, properStill, chosen, within, _, whole⟩
    · exact .done lots
    · obtain ⟨lot, found, leadsTo⟩ := leads candidate List.mem_cons_self
      obtain ⟨inLots, sameId⟩ := findLot_mem found
      have isFirst (sizable : lot.atoms.val ≠ 0) : lot = candidate := by
        rcases leadsTo with empty | leadsTo
        · contradiction
        · simpa [findLot, eq_comm] using leadsTo
      by_cases able : Relievable lot take
      · obtain rfl := isFirst able.1.ne'
        have positive : 0 < take.val := by
          rcases chosen with rfl | rfl
          · exact some
          · exact able.1
        obtain ⟨_, pre, post, rfl, apart⟩ := findLot_eq_some.mp found
        obtain ⟨left, relief, relieved, taken⟩ :=
          @relieveAll_taken pre post lot take plan apart (sound lot inLots) positive.le able
        rw [taken]
        apply Relieves.taken apart (sound lot inLots) able positive within whole relieved
        cases plan with
        | nil => exact .done _
        | cons entry plan =>
          have drained : left.atoms.val = 0 := by
            rw [relieved.atoms, whole (List.cons_ne_nil entry plan)]
            omega
          have new := relieved.nonNegative (sound lot inLots) able.1 within
          apply ih (sound_replaced sound new) _ properStill later
          exact leads_tail leads apart relieved.lotId_eq drained
      · have atomsNonneg := (sound lot inLots).atoms
        have proper : lot.atoms.val = 0 ∨ 0 ≤ take.val := by
          rcases atomsNonneg.eq_or_lt with empty | sizable
          · exact .inl empty.symm
          · rcases chosen with rfl | rfl
            · exact .inr some.le
            · exact .inr (isFirst sizable.ne' ▸ atomsNonneg)
        obtain ⟨e, refused⟩ :=
          @relieveAll_refused lots lot candidate.lotId take plan found (sound lot inLots) proper able
        rw [refused]
        exact .refused e found able

/- What a plan may name. -/

/-- Lots with one id agree on what a plan selects and orders them by. -/
def Agree (lots : List Lot) : Prop :=
  ∀ l ∈ lots, ∀ m ∈ lots, l.lotId = m.lotId →
    l.asset = m.asset ∧ l.venue = m.venue ∧ l.acquiredAt = m.acquiredAt

theorem agree_of_distinct {lots : List Lot} (distinct : (lots.map Lot.lotId).Nodup) :
    Agree lots := by
  intro l hl m hm same
  rw [List.inj_on_of_nodup_map distinct hl hm same]
  exact ⟨rfl, rfl, rfl⟩

theorem fifo_leads {lots : List Lot} (agree : Agree lots) (asset : AssetId) (venue : VenueId) :
    Leads lots (sortBy lotKey (lots.filter fun l => l.asset = asset ∧ l.venue = venue)) := by
  intro lot h
  simp only [mem_sortBy, List.mem_filter, decide_eq_true_eq] at h
  obtain ⟨inLots, here⟩ := h
  obtain ⟨first, found⟩ := exists_findLot inLots
  have sameHere (l : Lot) (hl : l ∈ lots) (same : l.lotId = lot.lotId) :
      l.asset = asset ∧ l.venue = venue := by
    obtain ⟨sameAsset, sameVenue, _⟩ := agree l hl lot inLots same
    exact ⟨sameAsset.trans here.1, sameVenue.trans here.2⟩
  refine ⟨first, found, .inr ?_⟩
  rw [← found]
  simp only [findLot, ← List.head?_filter]
  rw [filter_sortBy, List.filter_filter]
  · congr 1
    apply List.filter_congr
    intro l hl
    by_cases same : l.lotId = lot.lotId
    · simp [same, sameHere l hl same]
    · simp [same]
  · intro a ha b hb ia ib
    simp only [List.mem_filter, decide_eq_true_eq] at ha hb ia ib
    have sameId := ia.trans ib.symm
    simp [lotKey, sameId, (agree a ha.1 b hb.1 sameId).2.2]

theorem namedLots_found {lots ordered : List Lot} {asset : AssetId} {venue : VenueId}
    {ids : List LotId} (accepted : namedLots lots asset venue ids = .ok ordered) :
    ∀ lot ∈ ordered, findLot lots lot.lotId = some lot ∧ lot.asset = asset ∧ lot.venue = venue := by
  induction ids generalizing ordered with
  | nil =>
    cases Except.ok.inj accepted
    simp
  | cons id ids ih =>
    simp only [namedLots] at accepted
    split at accepted
    · contradiction
    · rename_i lot found
      split at accepted
      · contradiction
      · rename_i here
        simp only [bind_eq_ok, pure_eq_ok] at accepted
        obtain ⟨rest, later, rfl⟩ := accepted
        simp only [ne_eq, not_or, not_not] at here
        have named := (findLot_mem found).2
        exact List.forall_mem_cons.mpr ⟨⟨named ▸ found, here⟩, ih later⟩

theorem candidates_lead {lots ordered : List Lot} {asset : AssetId} {venue : VenueId}
    {method : ReliefMethod} (agree : Agree lots)
    (accepted : candidates lots asset venue method = .ok ordered) : Leads lots ordered := by
  cases method with
  | fifo =>
    cases Except.ok.inj accepted
    exact fifo_leads agree asset venue
  | specificLots ids =>
    intro lot h
    have found := namedLots_found accepted
    obtain ⟨first, foundFirst⟩ := exists_findLot h
    obtain ⟨inOrdered, sameId⟩ := findLot_mem foundFirst
    have foundThere := (found first inOrdered).1
    rw [sameId] at foundThere
    exact ⟨first, foundThere, .inr foundFirst⟩

namespace LotBook

theorem planRelief_eq_ok {book : LotBook} {asset : AssetId} {venue : VenueId} {atoms : I128}
    {method : ReliefMethod} {plan : ReliefPlan} :
    book.planRelief asset venue atoms method = .ok plan ↔
      0 < atoms.val ∧ ∃ ordered available, candidates book.lots asset venue method = .ok ordered ∧
        sumAtoms 0 ordered = .ok available ∧ atoms ≤ available ∧
        planFrom atoms ordered = .ok plan := by
  unfold planRelief
  split
  · rename_i nonPositive
    have : ¬0 < atoms.val := not_lt.mpr nonPositive
    simp [this]
  · rename_i positive
    have : 0 < atoms.val := not_le.mp positive
    simp only [bind_eq_ok, this, true_and]
    refine exists_congr fun ordered => ?_
    constructor
    · rintro ⟨accepted, available, total, planned⟩
      split at planned
      · contradiction
      · rename_i enough
        exact ⟨available, accepted, total, not_lt.mp enough, planned⟩
    · rintro ⟨available, accepted, total, enough, planned⟩
      refine ⟨accepted, available, total, ?_⟩
      rw [if_neg (not_lt.mpr enough)]
      exact planned

theorem planRelief_found {book : LotBook} {asset : AssetId} {venue : VenueId} {atoms : I128}
    {method : ReliefMethod} {plan : ReliefPlan} (agree : Agree book.lots)
    (planned : book.planRelief asset venue atoms method = .ok plan) :
    ∀ entry ∈ plan, ∃ lot, findLot book.lots entry.1 = some lot := by
  obtain ⟨positive, ordered, _, accepted, _, _, planned⟩ := planRelief_eq_ok.mp planned
  intro entry h
  obtain ⟨candidate, inOrdered, sameId⟩ := planFrom_mem positive.le planned entry h
  obtain ⟨lot, found, _⟩ := candidates_lead agree accepted candidate inOrdered
  exact ⟨lot, sameId ▸ found⟩

theorem planRelief_ne_nil {book : LotBook} {asset : AssetId} {venue : VenueId} {atoms : I128}
    {method : ReliefMethod} {plan : ReliefPlan}
    (planned : book.planRelief asset venue atoms method = .ok plan) : plan ≠ [] := by
  obtain ⟨positive, ordered, available, _, total, enough, planned⟩ := planRelief_eq_ok.mp planned
  cases ordered with
  | nil =>
    cases Except.ok.inj total
    exact absurd positive (not_lt.mpr enough)
  | cons candidate ordered =>
    have nonzero : atoms ≠ 0 := by
      rintro rfl
      exact absurd positive (lt_irrefl 0)
    simp only [planFrom, nonzero, if_false, bind_eq_ok, pure_eq_ok] at planned
    obtain ⟨_, _, _, _, rfl⟩ := planned
    exact List.cons_ne_nil _ _

theorem planRelief_relieves {book : LotBook} {asset : AssetId} {venue : VenueId} {atoms : I128}
    {method : ReliefMethod} {plan : ReliefPlan} (sound : ∀ l ∈ book.lots, l.NonNegative)
    (agree : Agree book.lots) (planned : book.planRelief asset venue atoms method = .ok plan) :
    Relieves book.lots plan (relieveAll book.lots plan).1 (relieveAll book.lots plan).2 := by
  obtain ⟨positive, ordered, _, accepted, _, _, planned⟩ := planRelief_eq_ok.mp planned
  exact planFrom_relieves sound (candidates_lead agree accepted) positive.le planned

end LotBook

end Treasury
