import Treasury.Evidence.Canon

/-! The roll-forward row of one asset: opening, activity and closing, which have to add up. -/
namespace Treasury
open Kit

structure RollForwardRow where
  asset : AssetId
  opening : AssetAmount
  additions : AssetAmount
  disposals : AssetAmount
  remeasurement : AssetAmount
  closing : AssetAmount
  evidence : List ContentHash
  deriving DecidableEq

inductive RollError where
  | mixedCurrencies
  | negativeComponent
  | doesNotRoll (rolled closing : I128)
  | overflow
  deriving DecidableEq

namespace RollForwardRow

def new (asset : AssetId) (opening additions disposals remeasurement closing : AssetAmount)
    (evidence : List ContentHash) : Except RollError RollForwardRow :=
  let currency := opening.asset
  if ¬(additions.asset = currency ∧ disposals.asset = currency ∧
      remeasurement.asset = currency ∧ closing.asset = currency) then .error .mixedCurrencies
  else if opening.atoms < 0 ∨ additions.atoms < 0 ∨ disposals.atoms < 0 ∨ closing.atoms < 0 then
    .error .negativeComponent
  else
    let rolled := ((opening.atoms.checkedAdd additions.atoms).bind (·.checkedSub disposals.atoms)).bind
      (·.checkedAdd remeasurement.atoms)
    match rolled with
    | none => .error .overflow
    | some rolled =>
      if rolled ≠ closing.atoms then .error (.doesNotRoll rolled closing.atoms)
      else .ok ⟨asset, opening, additions, disposals, remeasurement, closing,
        dedupAdjacent (sortBy id evidence)⟩

theorem rolled_eq_some {opening additions disposals remeasurement rolled : I128}
    (opens : 0 ≤ opening.val) (adds : 0 ≤ additions.val) (disposes : 0 ≤ disposals.val) :
    ((opening.checkedAdd additions).bind (·.checkedSub disposals)).bind
        (·.checkedAdd remeasurement) = some rolled ↔
      opening.val + additions.val < 2 ^ 127 ∧
        opening.val + additions.val - disposals.val + remeasurement.val = rolled.val := by
  simp only [Option.bind_eq_some_iff, Bounded.checkedAdd_eq_some, Bounded.checkedSub_eq_some]
  constructor
  · rintro ⟨net, ⟨sum, first, second⟩, third⟩
    have := sum.upper
    omega
  · rintro ⟨fits, equation⟩
    obtain ⟨sum, sum_eq⟩ := I128.exists_val (z := opening.val + additions.val) (by omega) fits
    obtain ⟨net, net_eq⟩ := I128.exists_val (z := sum.val - disposals.val)
      (by have := disposals.upper; omega) (by omega)
    exact ⟨net, ⟨sum, sum_eq.symm, net_eq.symm⟩, by omega⟩

theorem new_eq {asset currency : AssetId} {opening additions disposals remeasurement closing : I128}
    (evidence : List ContentHash) (opens : 0 ≤ opening.val) (adds : 0 ≤ additions.val)
    (disposes : 0 ≤ disposals.val) (closes : 0 ≤ closing.val)
    (rolls : opening.val + additions.val - disposals.val + remeasurement.val = closing.val) :
    new asset ⟨currency, opening⟩ ⟨currency, additions⟩ ⟨currency, disposals⟩
      ⟨currency, remeasurement⟩ ⟨currency, closing⟩ evidence =
    if opening.val + additions.val < 2 ^ 127 then
      .ok ⟨asset, ⟨currency, opening⟩, ⟨currency, additions⟩, ⟨currency, disposals⟩,
        ⟨currency, remeasurement⟩, ⟨currency, closing⟩, dedupAdjacent (sortBy id evidence)⟩
    else .error .overflow := by
  have nonneg : ¬(opening < 0 ∨ additions < 0 ∨ disposals < 0 ∨ closing < 0) := by
    simp only [Bounded.lt_def, I128.zero_val]
    omega
  unfold new
  dsimp only
  rw [if_neg (not_not.mpr ⟨rfl, rfl, rfl, rfl⟩), if_neg nonneg]
  by_cases fits : opening.val + additions.val < 2 ^ 127
  · have rolled := (rolled_eq_some opens adds disposes).mpr ⟨fits, rolls⟩
    simp only [rolled, ne_eq, not_true, if_false, if_pos fits]
  · have none : ((opening.checkedAdd additions).bind (·.checkedSub disposals)).bind
        (·.checkedAdd remeasurement) = none := by
      rw [Option.eq_none_iff_forall_not_mem]
      intro rolled summed
      exact fits ((rolled_eq_some opens adds disposes).mp summed).1
    simp only [none, if_neg fits]

end RollForwardRow

end Treasury
