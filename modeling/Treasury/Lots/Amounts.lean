import Mathlib.Algebra.Group.Int.Defs
import Mathlib.Algebra.Group.Prod
import Treasury.Kit.Tally
import Treasury.Lots.Calls

/-! What lots and reliefs amount to, by asset and currency. A relief takes from a lot what
it records, to the last unit, and a lot that it empties has nothing left. -/
namespace Treasury
open Kit

abbrev Amounts := Int × Int × Int

def Lot.amounts (l : Lot) : Amounts :=
  (l.atoms.val, l.costBasis.atoms.val, l.acquisitionFee.atoms.val)

def LotRelief.amounts (r : LotRelief) : Amounts :=
  (r.atoms.val, r.basisRelieved.atoms.val, r.feeRelieved.atoms.val)

/-- The asset and the currency that a lot counts under. -/
def Lot.group (l : Lot) : AssetId × AssetId := (l.asset, l.costBasis.asset)

def LotRelief.group (asset : AssetId) (r : LotRelief) : AssetId × AssetId :=
  (asset, r.basisRelieved.asset)

/-- An empty lot has no basis and no fee left, and fees are in the currency of the basis. -/
structure Lot.Tidy (l : Lot) : Prop where
  empty : l.atoms.val = 0 → l.amounts = 0
  currency : l.acquisitionFee.asset = l.costBasis.asset

theorem Lot.tidy_of_pos {l : Lot} (positive : 0 < l.atoms.val)
    (currency : l.acquisitionFee.asset = l.costBasis.asset) : l.Tidy :=
  ⟨fun empty => absurd empty positive.ne', currency⟩

theorem share_whole {total whole : I128} (sizable : 0 < whole.val) :
    share total whole whole = total.val :=
  Int.mul_ediv_cancel _ sizable.ne'

namespace Relieved

variable {lot left : Lot} {take : I128} {relief : LotRelief}

theorem group_eq (h : Relieved lot take left relief) : left.group = lot.group := by
  rw [h.facts]
  rfl

theorem relief_group (h : Relieved lot take left relief) :
    relief.group lot.asset = lot.group := by
  rw [h.record]
  rfl

theorem amounts_eq (h : Relieved lot take left relief) :
    left.amounts + relief.amounts = lot.amounts := by
  have taken : relief.atoms = take := by rw [h.record]
  simp only [Lot.amounts, LotRelief.amounts, Prod.mk_add_mk, h.atoms, h.basis, h.fee, taken,
    sub_add_cancel]

theorem tidy (h : Relieved lot take left relief) (sizable : 0 < lot.atoms.val) : left.Tidy := by
  constructor
  · intro empty
    have all : take = lot.atoms := Bounded.ext_val (by have := h.atoms; omega)
    have basis := h.basisShare
    have fee := h.feeShare
    rw [all, share_whole sizable] at basis fee
    simp only [Lot.amounts, empty, h.basis, h.fee, basis, fee, sub_self]
    rfl
  · rw [h.facts]

end Relieved

theorem Relieves.tidy_left {lots out : List Lot} {plan : ReliefPlan}
    {result : Except LotError (List LotRelief)} (run : Relieves lots plan out result)
    (tidy : ∀ l ∈ lots, l.Tidy) : ∀ l ∈ out, l.Tidy := by
  apply run.forall_left _ tidy
  intro lot take left relief _ able _ _ relieved _
  exact relieved.tidy able.1

theorem Relieves.conserves {K : Type} [DecidableEq K] (view : AssetId × AssetId → K) (k : K)
    {lots out : List Lot} {plan : ReliefPlan} {reliefs : List LotRelief} {asset : AssetId}
    (run : Relieves lots plan out (.ok reliefs))
    (mine : ∀ entry ∈ plan, ∀ lot, findLot lots entry.1 = some lot → lot.asset = asset) :
    tally (view ∘ Lot.group) Lot.amounts k out +
      tally (view ∘ LotRelief.group asset) LotRelief.amounts k reliefs =
    tally (view ∘ Lot.group) Lot.amounts k lots := by
  generalize accepted : Except.ok reliefs = result at run
  induction run generalizing reliefs with
  | done =>
    cases accepted
    simp
  | refused => contradiction
  | @taken pre post out lot left take plan relief result apart sound able positive within whole
      relieved rest ih =>
    obtain ⟨later, rfl⟩ : ∃ later, result = .ok later := by
      cases result with
      | error e => contradiction
      | ok later => exact ⟨later, rfl⟩
    cases accepted
    have isAsset : lot.asset = asset := mine _ List.mem_cons_self lot (findLot_split apart)
    have tail := ih (fun entry h other found => by
      by_cases same : entry.1 = lot.lotId
      · have foundLeft := @findLot_split pre post left (relieved.lotId_eq ▸ apart)
        rw [relieved.lotId_eq, ← same, found] at foundLeft
        cases foundLeft
        rw [← isAsset, relieved.facts]
      · rw [findLot_other relieved.lotId_eq same] at found
        exact mine entry (List.mem_cons_of_mem _ h) other found) rfl
    have split := @tally_split _ _ _ _ _ (view ∘ Lot.group) Lot.amounts k pre post lot left
      relief.amounts (congrArg view relieved.group_eq) relieved.amounts_eq
    have sameGroup : (view ∘ LotRelief.group asset) relief = (view ∘ Lot.group) lot := by
      rw [← isAsset]
      exact congrArg view relieved.relief_group
    rw [tally_cons, sameGroup, ← split, ← tail]
    abel

end Treasury
