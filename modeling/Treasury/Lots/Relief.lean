import Treasury.Lots.Book

/-! Relief under a plan: when a lot can give up a quantity, what is then left of
it, and how far a whole plan is carried out. -/
namespace Treasury
open Kit

def share (total part whole : I128) : Int := total.val * part.val / whole.val

structure Lot.NonNegative (l : Lot) : Prop where
  atoms : 0 ≤ l.atoms.val
  basis : 0 ≤ l.costBasis.atoms.val
  fee : 0 ≤ l.acquisitionFee.atoms.val

/-- The lot is not empty, and scaling its basis and its fee stays within 128 bits. -/
def Relievable (lot : Lot) (take : I128) : Prop :=
  0 < lot.atoms.val ∧ lot.costBasis.atoms.val * take.val < 2 ^ 127 ∧
    lot.acquisitionFee.atoms.val * take.val < 2 ^ 127

instance (lot : Lot) (take : I128) : Decidable (Relievable lot take) :=
  inferInstanceAs (Decidable (_ ∧ _ ∧ _))

/-- What is left of a lot after a relief, and what the relief records. -/
structure Relieved (lot : Lot) (take : I128) (left : Lot) (relief : LotRelief) : Prop where
  facts : left = { lot with
    atoms := left.atoms
    costBasis := ⟨lot.costBasis.asset, left.costBasis.atoms⟩
    acquisitionFee := ⟨lot.costBasis.asset, left.acquisitionFee.atoms⟩ }
  atoms : left.atoms.val = lot.atoms.val - take.val
  basis : left.costBasis.atoms.val = lot.costBasis.atoms.val - relief.basisRelieved.atoms.val
  fee : left.acquisitionFee.atoms.val =
    lot.acquisitionFee.atoms.val - relief.feeRelieved.atoms.val
  record : relief = ⟨lot.lotId, take, ⟨lot.costBasis.asset, relief.basisRelieved.atoms⟩,
    ⟨lot.costBasis.asset, relief.feeRelieved.atoms⟩⟩
  basisShare : relief.basisRelieved.atoms.val = share lot.costBasis.atoms take lot.atoms
  feeShare : relief.feeRelieved.atoms.val = share lot.acquisitionFee.atoms take lot.atoms

/- One lot. -/

theorem orOverflow_eq_ok {α : Type} {x : Option α} {a : α} :
    orOverflow x = .ok a ↔ x = some a := by
  cases x <;> simp [orOverflow]

theorem proRata_eq_ok {total part whole q : I128} (nonneg : 0 ≤ total.val * part.val)
    (sizable : 0 ≤ whole.val) :
    proRata total part whole = .ok q ↔
      0 < whole.val ∧ total.val * part.val < 2 ^ 127 ∧ q.val = share total part whole := by
  simp only [proRata, bind_eq_ok, orOverflow_eq_ok, Bounded.checkedMul_eq_some,
    Bounded.checkedDiv_eq_some]
  constructor
  · rintro ⟨scaled, product, nonzero, quotient⟩
    have upper := scaled.upper
    refine ⟨by omega, by omega, ?_⟩
    rw [share, ← quotient, product, Int.tdiv_eq_ediv_of_nonneg (product ▸ nonneg)]
  · rintro ⟨positive, fits, quotient⟩
    obtain ⟨scaled, value⟩ := @I128.exists_val (total.val * part.val) (by omega) fits
    refine ⟨scaled, value.symm, by omega, ?_⟩
    rw [quotient, share, value, Int.tdiv_eq_ediv_of_nonneg nonneg]

theorem share_nonneg {total part whole : I128} (nonneg : 0 ≤ total.val) (some : 0 ≤ part.val)
    (sizable : 0 ≤ whole.val) : 0 ≤ share total part whole :=
  Int.ediv_nonneg (Int.mul_nonneg nonneg some) sizable

theorem share_le {total part whole : I128} (nonneg : 0 ≤ total.val) (sizable : 0 < whole.val)
    (within : part.val ≤ whole.val) : share total part whole ≤ total.val := by
  apply Int.ediv_le_of_le_mul sizable
  exact Int.mul_le_mul_of_nonneg_left within nonneg

theorem empty_not_relievable {lot : Lot} {take : I128} (empty : lot.atoms.val = 0) :
    ¬Relievable lot take := fun able => by
  have := able.1
  omega

theorem proRata_of_zero {total part whole : I128} (empty : whole.val = 0) :
    ∃ e, proRata total part whole = .error e := by
  rw [exists_error_iff]
  rintro ⟨q, accepted⟩
  simp only [proRata, bind_eq_ok, orOverflow_eq_ok, Bounded.checkedDiv_eq_some] at accepted
  obtain ⟨_, _, nonzero, _⟩ := accepted
  exact nonzero empty

theorem relieveLot_refused {lot : Lot} {take : I128} (sound : lot.NonNegative)
    (proper : lot.atoms.val = 0 ∨ 0 ≤ take.val) (unable : ¬Relievable lot take) :
    ∃ e, relieveLot lot take = (lot, .error e) := by
  unfold relieveLot
  cases basis : proRata lot.costBasis.atoms take lot.atoms with
  | error e => exact ⟨e, rfl⟩
  | ok basisPart =>
    cases fee : proRata lot.acquisitionFee.atoms take lot.atoms with
    | error e => exact ⟨e, rfl⟩
    | ok feePart =>
      rcases proper with empty | proper
      · obtain ⟨e, none⟩ := @proRata_of_zero lot.costBasis.atoms take lot.atoms empty
        rw [basis] at none
        contradiction
      · rw [proRata_eq_ok (Int.mul_nonneg sound.basis proper) sound.atoms] at basis
        rw [proRata_eq_ok (Int.mul_nonneg sound.fee proper) sound.atoms] at fee
        exact absurd ⟨basis.1, basis.2.1, fee.2.1⟩ unable

theorem checkedSub_of_nonneg (a b : I128) (ha : 0 ≤ a.val) (hb : 0 ≤ b.val) :
    ∃ c, a.checkedSub b = some c ∧ c.val = a.val - b.val := by
  have := a.upper
  have := b.upper
  exact Bounded.exists_ofInt? (by omega) (by omega)

theorem relieveLot_relieved {lot : Lot} {take : I128} (sound : lot.NonNegative)
    (proper : 0 ≤ take.val) (able : Relievable lot take) :
    ∃ left relief, relieveLot lot take = (left, .ok relief) ∧ Relieved lot take left relief := by
  obtain ⟨sizable, basisFits, feeFits⟩ := able
  have part {total : I128} (nonneg : 0 ≤ total.val) (fits : total.val * take.val < 2 ^ 127) :
      ∃ q, proRata total take lot.atoms = .ok q ∧ q.val = share total take lot.atoms := by
    have scaled := Int.mul_nonneg nonneg proper
    have quotient : 0 ≤ share total take lot.atoms := share_nonneg nonneg proper sound.atoms
    have below : share total take lot.atoms ≤ total.val * take.val := Int.ediv_le_self _ scaled
    obtain ⟨q, value⟩ := @I128.exists_val (share total take lot.atoms) (by omega) (by omega)
    exact ⟨q, (proRata_eq_ok scaled sound.atoms).mpr ⟨sizable, fits, value⟩, value⟩
  obtain ⟨basisPart, basisOk, basisShare⟩ := part sound.basis basisFits
  obtain ⟨feePart, feeOk, feeShare⟩ := part sound.fee feeFits
  have basisNonneg : 0 ≤ basisPart.val :=
    basisShare ▸ share_nonneg sound.basis proper sound.atoms
  have feeNonneg : 0 ≤ feePart.val := feeShare ▸ share_nonneg sound.fee proper sound.atoms
  obtain ⟨atoms, atomsOk, atomsLeft⟩ := checkedSub_of_nonneg lot.atoms take sound.atoms proper
  obtain ⟨basis, basisLeftOk, basisLeft⟩ :=
    checkedSub_of_nonneg lot.costBasis.atoms basisPart sound.basis basisNonneg
  obtain ⟨fee, feeLeftOk, feeLeft⟩ :=
    checkedSub_of_nonneg lot.acquisitionFee.atoms feePart sound.fee feeNonneg
  refine ⟨_, _, by simp only [relieveLot, basisOk, feeOk, atomsOk, basisLeftOk, feeLeftOk]; rfl, ?_⟩
  exact ⟨rfl, atomsLeft, basisLeft, feeLeft, rfl, basisShare, feeShare⟩

namespace Relieved

variable {lot left : Lot} {take : I128} {relief : LotRelief}

theorem lotId_eq (h : Relieved lot take left relief) : left.lotId = lot.lotId := by
  rw [h.facts]

theorem basis_nonneg (h : Relieved lot take left relief) (sound : lot.NonNegative)
    (proper : 0 ≤ take.val) : 0 ≤ relief.basisRelieved.atoms.val :=
  h.basisShare ▸ share_nonneg sound.basis proper sound.atoms

theorem fee_nonneg (h : Relieved lot take left relief) (sound : lot.NonNegative)
    (proper : 0 ≤ take.val) : 0 ≤ relief.feeRelieved.atoms.val :=
  h.feeShare ▸ share_nonneg sound.fee proper sound.atoms

theorem nonNegative (h : Relieved lot take left relief) (sound : lot.NonNegative)
    (sizable : 0 < lot.atoms.val) (within : take ≤ lot.atoms) : left.NonNegative := by
  have basisWithin := share_le sound.basis sizable within
  have feeWithin := share_le sound.fee sizable within
  rw [← h.basisShare] at basisWithin
  rw [← h.feeShare] at feeWithin
  rw [Bounded.le_def] at within
  exact ⟨by rw [h.atoms]; omega, by rw [h.basis]; omega, by rw [h.fee]; omega⟩

end Relieved

end Treasury
