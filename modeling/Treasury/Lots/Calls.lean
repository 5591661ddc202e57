import Treasury.Lots.Carried

/-! What a call of a lot book does, case by case: it opens one lot, it is refused, it
stops in the middle of a relief, or it carries a relief out. -/
namespace Treasury
open Kit

def relievedBasis (lots : List Lot) (plan : ReliefPlan) : Int :=
  (plan.map fun entry =>
    match findLot lots entry.1 with
    | none => 0
    | some lot => share lot.costBasis.atoms entry.2 lot.atoms).sum

def recordedBasis (reliefs : List LotRelief) : Int :=
  (reliefs.map fun r => r.basisRelieved.atoms.val).sum

theorem recordedBasis_nonneg {reliefs : List LotRelief}
    (nonneg : ∀ r ∈ reliefs, 0 ≤ r.basisRelieved.atoms.val) : 0 ≤ recordedBasis reliefs := by
  apply List.sum_nonneg
  simpa using nonneg

namespace LotBook

theorem sumBasis_eq_ok {reliefs : List LotRelief} {start total : AssetAmount}
    (same : ∀ r ∈ reliefs, r.basisRelieved.asset = start.asset) (proper : 0 ≤ start.atoms.val)
    (nonneg : ∀ r ∈ reliefs, 0 ≤ r.basisRelieved.atoms.val) :
    sumBasis start reliefs = .ok total ↔
      total.asset = start.asset ∧ total.atoms.val = start.atoms.val + recordedBasis reliefs := by
  induction reliefs generalizing start with
  | nil =>
    cases start; cases total
    simp [sumBasis, recordedBasis, Bounded.val_inj, eq_comm]
  | cons relief reliefs ih =>
    have sameHead := same relief List.mem_cons_self
    have nonnegHead := nonneg relief List.mem_cons_self
    have sameTail (r) (h : r ∈ reliefs) := same r (List.mem_cons_of_mem relief h)
    have nonnegTail (r) (h : r ∈ reliefs) := nonneg r (List.mem_cons_of_mem relief h)
    have tailNonneg := recordedBasis_nonneg nonnegTail
    have split : recordedBasis (relief :: reliefs) =
        relief.basisRelieved.atoms.val + recordedBasis reliefs := by simp [recordedBasis]
    simp only [sumBasis, split]
    cases added : start.checkedAdd relief.basisRelieved with
    | error e =>
      refine iff_of_false (by simp) ?_
      rintro ⟨_, sum⟩
      have upper := total.atoms.upper
      obtain ⟨atoms, value⟩ :=
        @I128.exists_val (start.atoms.val + relief.basisRelieved.atoms.val) (by omega) (by omega)
      have accepted := (@AssetAmount.checkedAdd_eq_ok start relief.basisRelieved
        ⟨start.asset, atoms⟩).mpr ⟨sameHead.symm, rfl, value.symm⟩
      rw [added] at accepted
      contradiction
    | ok next =>
      obtain ⟨_, asset, sum⟩ := AssetAmount.checkedAdd_eq_ok.mp added
      rw [ih (fun r h => (sameTail r h).trans asset.symm) (by omega) nonnegTail, asset]
      exact and_congr_right fun _ => by omega

theorem realize_ok_iff {method : ReliefMethod} {policyHash : ContentHash} {proceeds : AssetAmount}
    {reliefs : List LotRelief} (same : ∀ r ∈ reliefs, r.basisRelieved.asset = proceeds.asset)
    (nonneg : ∀ r ∈ reliefs, 0 ≤ r.basisRelieved.atoms.val) :
    (∃ d, realize method policyHash proceeds proceeds.asset reliefs = .ok d) ↔
      recordedBasis reliefs < 2 ^ 127 ∧ -2 ^ 127 ≤ proceeds.atoms.val - recordedBasis reliefs := by
  have basisNonneg := recordedBasis_nonneg nonneg
  have upper := proceeds.atoms.upper
  have total (t : AssetAmount) := @sumBasis_eq_ok reliefs ⟨proceeds.asset, 0⟩ t same le_rfl nonneg
  simp only [realize, bind_eq_ok, total]
  constructor
  · rintro ⟨d, t, ⟨_, sum⟩, settled⟩
    have basisUpper := t.atoms.upper
    simp only [I128.zero_val, zero_add] at sum
    cases difference : proceeds.checkedSub t with
    | error e => simp [difference] at settled
    | ok gain =>
      obtain ⟨_, _, value⟩ := AssetAmount.checkedSub_eq_ok.mp difference
      have lower := gain.atoms.lower
      constructor <;> omega
  · rintro ⟨basisFits, gainFits⟩
    obtain ⟨basis, basisValue⟩ := @I128.exists_val (recordedBasis reliefs) (by omega) basisFits
    obtain ⟨gain, gainValue⟩ :=
      @I128.exists_val (proceeds.atoms.val - recordedBasis reliefs) gainFits (by omega)
    have difference := (@AssetAmount.checkedSub_eq_ok proceeds ⟨proceeds.asset, basis⟩
      ⟨proceeds.asset, gain⟩).mpr ⟨rfl, rfl, by rw [basisValue, gainValue]⟩
    exact ⟨⟨method, policyHash, reliefs, ⟨proceeds.asset, basis⟩, proceeds, ⟨proceeds.asset, gain⟩⟩,
      ⟨proceeds.asset, basis⟩, ⟨rfl, by simp [basisValue]⟩, by rw [difference]⟩

theorem checkCurrency_same {lots : List Lot} {currency : AssetId} {plan : ReliefPlan}
    (accepted : checkCurrency lots currency plan = .ok ()) :
    ∀ entry ∈ plan, ∀ lot, findLot lots entry.1 = some lot → lot.costBasis.asset = currency := by
  induction plan with
  | nil => simp
  | cons first plan ih =>
    simp only [checkCurrency] at accepted
    split at accepted
    · contradiction
    · rename_i lot found
      split at accepted
      · contradiction
      · rename_i same
        intro entry h other foundToo
        rcases List.mem_cons.mp h with rfl | h
        · cases found.symm.trans foundToo
          exact not_not.mp same
        · exact ih accepted entry h other foundToo

theorem basisCurrency_same {book : LotBook} {currency : AssetId} {plan : ReliefPlan}
    (accepted : book.basisCurrency plan = .ok currency) :
    ∀ entry ∈ plan, ∀ lot, findLot book.lots entry.1 = some lot →
      lot.costBasis.asset = currency := by
  cases plan with
  | nil => simp
  | cons first plan =>
    simp only [basisCurrency] at accepted
    split at accepted
    · contradiction
    · simp only [bind_eq_ok, pure_eq_ok] at accepted
      obtain ⟨_, same, rfl⟩ := accepted
      exact checkCurrency_same same

theorem recordedBasis_eq {lots out : List Lot} {plan : ReliefPlan} {reliefs : List LotRelief}
    (drawn : List.Forall₂ (fun entry relief => ∃ lot left, Drawn lots out entry lot left relief)
      plan reliefs) : recordedBasis reliefs = relievedBasis lots plan := by
  induction drawn with
  | nil => rfl
  | cons first _ ih =>
    obtain ⟨lot, left, drawn⟩ := first
    simp only [recordedBasis, relievedBasis, List.map_cons, List.sum_cons, drawn.found] at ih ⊢
    rw [ih, drawn.relieved.basisShare]

theorem drawn_asset {lots out : List Lot} {plan : ReliefPlan} {reliefs : List LotRelief}
    {currency : AssetId}
    (drawn : List.Forall₂ (fun entry relief => ∃ lot left, Drawn lots out entry lot left relief)
      plan reliefs)
    (same : ∀ entry ∈ plan, ∀ lot, findLot lots entry.1 = some lot →
      lot.costBasis.asset = currency) :
    ∀ r ∈ reliefs, r.basisRelieved.asset = currency := by
  intro r h
  obtain ⟨entry, inPlan, lot, left, drawn⟩ := drawn_of_relief drawn h
  rw [drawn.relieved.record]
  exact same entry inPlan lot drawn.found

theorem drawn_basis {lots out : List Lot} {plan : ReliefPlan} {reliefs : List LotRelief}
    (drawn : List.Forall₂ (fun entry relief => ∃ lot left, Drawn lots out entry lot left relief)
      plan reliefs) : ∀ r ∈ reliefs, 0 ≤ r.basisRelieved.atoms.val := by
  intro r h
  obtain ⟨entry, _, lot, left, drawn⟩ := drawn_of_relief drawn h
  exact drawn.relieved.basis_nonneg drawn.sound drawn.positive.le

/-- The plan a call relieves the lots by, once its checks are passed. -/
def Planned (book : LotBook) : Call → ReliefPlan → Prop
  | .acquire .., _ => False
  | .dispose asset venue atoms method _ proceeds, plan =>
    book.planRelief asset venue atoms method = .ok plan ∧
      book.basisCurrency plan = .ok proceeds.asset
  | .transfer asset fromVenue _ atoms _, plan =>
    book.planRelief asset fromVenue atoms .fifo = .ok plan

/-- The basis relieved and the gain realized fit in 128 bits. -/
def Settles (book : LotBook) (plan : ReliefPlan) : Call → Prop
  | .dispose _ _ _ _ _ proceeds => relievedBasis book.lots plan < 2 ^ 127 ∧
      -2 ^ 127 ≤ proceeds.atoms.val - relievedBasis book.lots plan
  | _ => True

/-- The lot an accepted acquisition opens. -/
def acquired (book : LotBook) : Call → Option Opening
  | .acquire asset venue atoms costBasis acquisitionFee acquiredAt sourceEvent =>
    if 0 < atoms ∧ 0 ≤ costBasis.atoms ∧ 0 ≤ acquisitionFee.atoms ∧
        costBasis.asset = acquisitionFee.asset then
      some ⟨book.tenant, asset, venue, atoms, costBasis, acquisitionFee, acquiredAt, sourceEvent,
        none⟩
    else none
  | _ => none

def movedOpening (book : LotBook) (asset : AssetId) (toVenue : VenueId)
    (transferEvent : ContentHash) (entry : LotId × I128) : Option Opening := do
  let lot ← findLot book.lots entry.1
  let basis ← (proRata lot.costBasis.atoms entry.2 lot.atoms).toOption
  let fee ← (proRata lot.acquisitionFee.atoms entry.2 lot.atoms).toOption
  return ⟨book.tenant, asset, toVenue, entry.2, ⟨lot.costBasis.asset, basis⟩,
    ⟨lot.costBasis.asset, fee⟩, lot.acquiredAt, transferEvent, some entry.1⟩

/-- The lots a call opens when its plan is carried out. -/
def moved (book : LotBook) (plan : ReliefPlan) : Call → List Opening
  | .transfer asset _ toVenue _ transferEvent =>
    plan.filterMap (book.movedOpening asset toVenue transferEvent)
  | _ => []

theorem planned_unique {book : LotBook} {call : Call} {plan other : ReliefPlan}
    (planned : book.Planned call plan) (too : book.Planned call other) : plan = other := by
  cases call with
  | acquire => contradiction
  | dispose => exact Except.ok.inj (planned.1.symm.trans too.1)
  | transfer => exact Except.ok.inj (planned.symm.trans too)

theorem acquired_unplanned {book : LotBook} {call : Call} {o : Opening}
    (opens : book.acquired call = some o) (plan : ReliefPlan) : ¬book.Planned call plan := by
  cases call with
  | acquire => exact id
  | dispose => contradiction
  | transfer => contradiction

theorem planned_ne_nil {book : LotBook} {call : Call} {plan : ReliefPlan}
    (planned : book.Planned call plan) : plan ≠ [] := by
  cases call with
  | acquire => contradiction
  | dispose => exact planRelief_ne_nil planned.1
  | transfer => exact planRelief_ne_nil planned

theorem moved_of_unsettled {book : LotBook} {call : Call} {plan : ReliefPlan}
    (unsettled : ¬book.Settles plan call) : book.moved plan call = [] := by
  cases call with
  | acquire => rfl
  | dispose => rfl
  | transfer => exact absurd trivial unsettled

theorem movedOpening_drawn {book : LotBook} {out : List Lot} {entry : LotId × I128}
    {lot left : Lot} {relief : LotRelief} (drawn : Drawn book.lots out entry lot left relief)
    (asset : AssetId) (toVenue : VenueId) (transferEvent : ContentHash) :
    book.movedOpening asset toVenue transferEvent entry =
      some ⟨book.tenant, asset, toVenue, relief.atoms, relief.basisRelieved, relief.feeRelieved,
        lot.acquiredAt, transferEvent, some relief.lotId⟩ := by
  have relieved := drawn.relieved
  obtain ⟨_, sameId⟩ := findLot_mem drawn.found
  have basis := (proRata_eq_ok (Int.mul_nonneg drawn.sound.basis drawn.positive.le)
    drawn.sound.atoms).mpr ⟨drawn.able.1, drawn.able.2.1, relieved.basisShare⟩
  have fee := (proRata_eq_ok (Int.mul_nonneg drawn.sound.fee drawn.positive.le)
    drawn.sound.atoms).mpr ⟨drawn.able.1, drawn.able.2.2, relieved.feeShare⟩
  rw [relieved.record]
  simp [movedOpening, drawn.found, basis, fee, Except.toOption, sameId]

theorem originsOf_found {lots : List Lot} {plan : ReliefPlan}
    (found : ∀ entry ∈ plan, ∃ lot, findLot lots entry.1 = some lot) :
    ∃ origins, originsOf lots plan = .ok origins ∧
      ∀ entry ∈ plan, ∀ lot, findLot lots entry.1 = some lot →
        origins.find? (·.1 = entry.1) = some (entry.1, lot.acquiredAt) := by
  induction plan with
  | nil => exact ⟨[], rfl, by simp⟩
  | cons first plan ih =>
    obtain ⟨lot, foundFirst⟩ := found first List.mem_cons_self
    obtain ⟨origins, captured, known⟩ := ih fun entry h => found entry (List.mem_cons_of_mem first h)
    refine ⟨(first.1, lot.acquiredAt) :: origins, by simp [originsOf, foundFirst, captured], ?_⟩
    intro entry h other foundEntry
    by_cases same : first.1 = entry.1
    · rw [← same, foundFirst] at foundEntry
      cases foundEntry
      simp [same]
    · have later : entry ∈ plan := by
        rcases List.mem_cons.mp h with rfl | h
        · exact absurd rfl same
        · exact h
      simp [same, known entry later other foundEntry]

theorem moved_drawn {book : LotBook} {out : List Lot} {plan : ReliefPlan}
    {reliefs : List LotRelief} {call : Call} {o : Opening}
    (drawn : List.Forall₂ (fun entry relief =>
      ∃ lot left, Drawn book.lots out entry lot left relief) plan reliefs)
    (isMoved : o ∈ book.moved plan call) :
    ∃ entry ∈ plan, ∃ relief lot left, Drawn book.lots out entry lot left relief ∧
      o.atoms = relief.atoms ∧ o.costBasis = relief.basisRelieved ∧
      o.acquisitionFee = relief.feeRelieved ∧ o.movedFrom = some relief.lotId := by
  cases call with
  | acquire => contradiction
  | dispose => contradiction
  | transfer asset fromVenue toVenue atoms transferEvent =>
    obtain ⟨entry, inPlan, opening⟩ := List.mem_filterMap.mp isMoved
    obtain ⟨relief, lot, left, drawn⟩ := drawn_of_mem drawn inPlan
    rw [movedOpening_drawn drawn] at opening
    obtain rfl := Option.some.inj opening
    exact ⟨entry, inPlan, relief, lot, left, drawn, rfl, rfl, rfl, rfl⟩

section
variable [External]

theorem acquired_nonNegative {book : LotBook} {call : Call} {o : Opening}
    (opens : book.acquired call = some o) : o.opened.NonNegative := by
  cases call with
  | acquire =>
    obtain ⟨⟨positive, basis, fee, _⟩, h⟩ := Option.ite_none_right_eq_some.mp opens
    cases h
    exact ⟨le_of_lt positive, basis, fee⟩
  | dispose => contradiction
  | transfer => contradiction

theorem moved_nonNegative {book : LotBook} {out : List Lot} {plan : ReliefPlan}
    {reliefs : List LotRelief} {call : Call} {o : Opening}
    (drawn : List.Forall₂ (fun entry relief =>
      ∃ lot left, Drawn book.lots out entry lot left relief) plan reliefs)
    (isMoved : o ∈ book.moved plan call) : o.opened.NonNegative := by
  obtain ⟨entry, _, relief, lot, left, drawn, atoms, basis, fee, _⟩ := moved_drawn drawn isMoved
  have recorded : relief.atoms = entry.2 := by rw [drawn.relieved.record]
  constructor
  · simp only [Opening.opened, Opening.lot, atoms, recorded]
    exact drawn.positive.le
  · simp only [Opening.opened, Opening.lot, basis]
    exact drawn.relieved.basis_nonneg drawn.sound drawn.positive.le
  · simp only [Opening.opened, Opening.lot, fee]
    exact drawn.relieved.fee_nonneg drawn.sound drawn.positive.le

theorem openMoved_eq {book : LotBook} {out lots : List Lot} {plan : ReliefPlan}
    {reliefs : List LotRelief} {origins : List (LotId × TimestampNs)} {asset : AssetId}
    {toVenue : VenueId} {transferEvent : ContentHash}
    (drawn : List.Forall₂ (fun entry relief =>
      ∃ lot left, Drawn book.lots out entry lot left relief) plan reliefs)
    (known : ∀ entry ∈ plan, ∀ lot, findLot book.lots entry.1 = some lot →
      origins.find? (·.1 = entry.1) = some (entry.1, lot.acquiredAt)) :
    openMoved book.tenant asset toVenue transferEvent origins lots reliefs =
      (lots ++ (plan.filterMap (book.movedOpening asset toVenue transferEvent)).map Opening.opened,
        .ok ((plan.filterMap (book.movedOpening asset toVenue transferEvent)).map fun o =>
          sha256 o.bytes)) := by
  induction drawn generalizing lots with
  | nil => simp [openMoved]
  | @cons entry relief plan reliefs first _ ih =>
    obtain ⟨lot, left, drawn⟩ := first
    have sameId : relief.lotId = entry.1 := by
      rw [drawn.relieved.record]
      exact (findLot_mem drawn.found).2
    have origin := known entry List.mem_cons_self lot drawn.found
    have tail (lots : List Lot) := @ih lots fun e h => known e (List.mem_cons_of_mem entry h)
    simp only [openMoved, sameId, origin, lotId_eq, tail,
      List.filterMap_cons, movedOpening_drawn drawn, List.map_cons]
    simp [Opening.opened]

/-- What one call does, as far as the state before it decides. -/
inductive Outcome (book : LotBook) (call : Call) : Prop where
  | opened (o : Opening) (opens : book.acquired call = some o)
      (does : book.perform call = (⟨book.tenant, book.lots ++ [o.opened]⟩, .ok ()))
  | refused (e : LotError) (opens : book.acquired call = none)
      (unplanned : ∀ plan, ¬book.Planned call plan) (does : book.perform call = (book, .error e))
  | stopped (plan : ReliefPlan) (out : List Lot) (e : LotError) (planned : book.Planned call plan)
      (run : Relieves book.lots plan out (.error e))
      (does : book.perform call = (⟨book.tenant, out⟩, .error e))
  | carried (plan : ReliefPlan) (out : List Lot) (reliefs : List LotRelief)
      (planned : book.Planned call plan) (run : Relieves book.lots plan out (.ok reliefs))
      (does : book.step call = ⟨book.tenant,
        out.filter (0 < ·.atoms) ++ (book.moved plan call).map Opening.opened⟩)
      (settles : (∃ e, (book.perform call).2 = .error e) ↔ ¬book.Settles plan call)

theorem acquire_outcome (book : LotBook) (asset : AssetId) (venue : VenueId) (atoms : I128)
    (costBasis acquisitionFee : AssetAmount) (acquiredAt : TimestampNs) (sourceEvent : ContentHash) :
    Outcome book (.acquire asset venue atoms costBasis acquisitionFee acquiredAt sourceEvent) := by
  by_cases positive : atoms ≤ 0
  · apply Outcome.refused (.nonPositiveQuantity atoms) _ (fun _ => id)
    · simp [perform, acquire, positive, Except.map]
    · simp [acquired, not_lt.mpr positive]
  · by_cases negative : costBasis.atoms < 0 ∨ acquisitionFee.atoms < 0
    · apply Outcome.refused .negativeMoney _ (fun _ => id)
      · simp [perform, acquire, positive, negative, Except.map]
      · rcases negative with h | h <;> simp [acquired, not_le.mpr h]
    · by_cases currency : costBasis.asset = acquisitionFee.asset
      · obtain ⟨basis, fee⟩ := not_or.mp negative
        let o : Opening := ⟨book.tenant, asset, venue, atoms, costBasis, acquisitionFee, acquiredAt,
          sourceEvent, none⟩
        apply Outcome.opened o
        · exact if_pos ⟨not_le.mp positive, not_lt.mp basis, not_lt.mp fee, currency⟩
        · simp [perform, acquire, positive, negative, currency, lotId_eq, Opening.opened,
            Except.map, o]
      · apply Outcome.refused .currencyMismatch _ (fun _ => id)
        · simp [perform, acquire, positive, negative, currency, Except.map]
        · simp [acquired, currency]

theorem dispose_outcome {book : LotBook} (sound : ∀ l ∈ book.lots, l.NonNegative)
    (agree : Agree book.lots) (asset : AssetId) (venue : VenueId) (atoms : I128)
    (method : ReliefMethod) (policyHash : ContentHash) (proceeds : AssetAmount) :
    Outcome book (.dispose asset venue atoms method policyHash proceeds) := by
  cases planning : book.planRelief asset venue atoms method with
  | error e =>
    apply Outcome.refused e rfl
    · simp [Planned, planning]
    · simp [perform, dispose, planning, Except.map]
  | ok plan =>
    have run := planRelief_relieves sound agree planning
    cases checking : book.basisCurrency plan with
    | error e =>
      apply Outcome.refused e rfl
      · rintro other ⟨planned, accepted⟩
        cases planning.symm.trans planned
        rw [checking] at accepted
        contradiction
      · simp [perform, dispose, planning, checking, Except.map]
    | ok currency =>
      by_cases same : proceeds.asset = currency
      · subst same
        generalize relieving : relieveAll book.lots plan = relieved at run
        obtain ⟨out, result⟩ := relieved
        have planned :
            book.Planned (.dispose asset venue atoms method policyHash proceeds) plan :=
          ⟨planning, checking⟩
        cases result with
        | error e =>
          apply Outcome.stopped plan out e planned run
          simp [perform, dispose, planning, checking, applyRelief, relieving, Except.map]
        | ok reliefs =>
          apply Outcome.carried plan out reliefs planned run
          · simp [step, perform, dispose, planning, checking, applyRelief, relieving, moved]
          · have drawn := run.drawn
            have settled := @realize_ok_iff method policyHash proceeds reliefs
              (drawn_asset drawn (basisCurrency_same checking)) (drawn_basis drawn)
            rw [recordedBasis_eq drawn] at settled
            simp only [perform, dispose, planning, checking, applyRelief, relieving, ne_eq,
              not_true_eq_false, if_false, map_eq_error, exists_error_iff, settled, Settles]
      · apply Outcome.refused .currencyMismatch rfl
        · rintro other ⟨planned, accepted⟩
          cases planning.symm.trans planned
          cases checking.symm.trans accepted
          exact same rfl
        · simp [perform, dispose, planning, checking, same, Except.map]

theorem transfer_outcome {book : LotBook} (sound : ∀ l ∈ book.lots, l.NonNegative)
    (agree : Agree book.lots) (asset : AssetId) (fromVenue toVenue : VenueId) (atoms : I128)
    (transferEvent : ContentHash) :
    Outcome book (.transfer asset fromVenue toVenue atoms transferEvent) := by
  cases planning : book.planRelief asset fromVenue atoms .fifo with
  | error e =>
    apply Outcome.refused e rfl
    · simp [Planned, planning]
    · simp [perform, transfer, planning, Except.map]
  | ok plan =>
    have run := planRelief_relieves sound agree planning
    obtain ⟨origins, captured, known⟩ := originsOf_found (planRelief_found agree planning)
    generalize relieving : relieveAll book.lots plan = relieved at run
    obtain ⟨out, result⟩ := relieved
    have planned : book.Planned (.transfer asset fromVenue toVenue atoms transferEvent) plan :=
      planning
    cases result with
    | error e =>
      apply Outcome.stopped plan out e planned run
      simp [perform, transfer, planning, captured, applyRelief, relieving, Except.map]
    | ok reliefs =>
      have opening := @openMoved_eq _ book out (out.filter (0 < ·.atoms)) plan reliefs origins asset
        toVenue transferEvent run.drawn known
      apply Outcome.carried plan out reliefs planned run
      · simp [step, perform, transfer, planning, captured, applyRelief, relieving, opening, moved]
      · simp [perform, transfer, planning, captured, applyRelief, relieving, opening, Settles,
          Except.map]

theorem outcome {book : LotBook} (sound : ∀ l ∈ book.lots, l.NonNegative)
    (agree : Agree book.lots) (call : Call) : Outcome book call := by
  cases call with
  | acquire asset venue atoms costBasis acquisitionFee acquiredAt sourceEvent =>
    exact acquire_outcome book asset venue atoms costBasis acquisitionFee acquiredAt sourceEvent
  | dispose asset venue atoms method policyHash proceeds =>
    exact dispose_outcome sound agree asset venue atoms method policyHash proceeds
  | transfer asset fromVenue toVenue atoms transferEvent =>
    exact transfer_outcome sound agree asset fromVenue toVenue atoms transferEvent

end

end LotBook

end Treasury
