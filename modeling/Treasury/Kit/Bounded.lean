import Mathlib.Order.Lattice
import Mathlib.Order.Basic
import Mathlib.Tactic.Linarith

/-! Integers confined to a half-open range, with the checked operations of a
fixed-width type: an operation whose exact result leaves the range has no value. -/
namespace Kit

/-- An integer `z` with `lo ≤ z < hi`. -/
structure Bounded (lo hi : Int) where
  val : Int
  lower : lo ≤ val
  upper : val < hi
  deriving DecidableEq

namespace Bounded

variable {lo hi : Int}

theorem ext_val {a b : Bounded lo hi} (h : a.val = b.val) : a = b := by
  cases a; cases b; cases h; rfl

theorem val_inj {a b : Bounded lo hi} : a.val = b.val ↔ a = b :=
  ⟨ext_val, congrArg val⟩

instance : LinearOrder (Bounded lo hi) := LinearOrder.lift' val fun _ _ => ext_val

theorem le_def {a b : Bounded lo hi} : a ≤ b ↔ a.val ≤ b.val := Iff.rfl

theorem lt_def {a b : Bounded lo hi} : a < b ↔ a.val < b.val := Iff.rfl

theorem min_val (a b : Bounded lo hi) : (min a b).val = min a.val b.val := by
  rcases le_total a b with less | less
  · rw [min_eq_left less, min_eq_left (le_def.mp less)]
  · rw [min_eq_right less, min_eq_right (le_def.mp less)]

def ofInt? (z : Int) : Option (Bounded lo hi) :=
  if h : lo ≤ z ∧ z < hi then some ⟨z, h.1, h.2⟩ else none

def literal [Zero (Bounded lo hi)] (z : Int) : Bounded lo hi := (ofInt? z).getD 0

def checkedAdd (a b : Bounded lo hi) : Option (Bounded lo hi) := ofInt? (a.val + b.val)
def checkedSub (a b : Bounded lo hi) : Option (Bounded lo hi) := ofInt? (a.val - b.val)
def checkedMul (a b : Bounded lo hi) : Option (Bounded lo hi) := ofInt? (a.val * b.val)

/-- Division truncates toward zero; there is no quotient by zero. -/
def checkedDiv (a b : Bounded lo hi) : Option (Bounded lo hi) :=
  if b.val = 0 then none else ofInt? (a.val.tdiv b.val)

def checkedAbs (a : Bounded lo hi) : Option (Bounded lo hi) := ofInt? |a.val|

def saturatingAdd (a b : Bounded lo hi) : Bounded lo hi :=
  if low : a.val + b.val < lo then ⟨lo, le_refl lo, lt_of_le_of_lt a.lower a.upper⟩
  else if high : hi ≤ a.val + b.val then
    ⟨hi - 1, by have := a.lower; have := a.upper; omega, by omega⟩
  else ⟨a.val + b.val, by omega, by omega⟩

def saturatingSub {hi : Int} (a b : Bounded 0 hi) : Bounded 0 hi :=
  if low : a.val < b.val then ⟨0, le_refl 0, lt_of_le_of_lt a.lower a.upper⟩
  else ⟨a.val - b.val, by omega, by have := a.upper; have := b.lower; omega⟩

def saturatingMul {hi : Int} (a b : Bounded 0 hi) : Bounded 0 hi :=
  if high : hi ≤ a.val * b.val then
    ⟨hi - 1, by have := a.lower; have := a.upper; omega, by omega⟩
  else ⟨a.val * b.val, mul_nonneg a.lower b.lower, by omega⟩

theorem saturatingAdd_val {hi : Int} (a b : Bounded 0 hi) :
    (a.saturatingAdd b).val = min (a.val + b.val) (hi - 1) := by
  have nonneg := add_nonneg a.lower b.lower
  unfold saturatingAdd
  split
  · omega
  · split
    · rename_i high
      exact (min_eq_right ((Int.sub_le_self hi Int.one_nonneg).trans high)).symm
    · rename_i fits
      exact (min_eq_left (Int.le_sub_one_of_lt (not_le.mp fits))).symm

theorem saturatingMul_val {hi : Int} {a b : Bounded 0 hi} (fits : a.val * b.val < hi) :
    (a.saturatingMul b).val = a.val * b.val := by
  rw [saturatingMul, dif_neg (not_le.mpr fits)]

theorem saturatingAdd_le {hi : Int} (a b : Bounded 0 hi) :
    (a.saturatingAdd b).val ≤ a.val + b.val := by
  rw [saturatingAdd_val]
  exact min_le_left _ _

@[simp] theorem ofInt?_eq_some {z : Int} {b : Bounded lo hi} : ofInt? z = some b ↔ z = b.val := by
  unfold ofInt?
  split
  · exact ⟨fun h => by cases h; rfl, fun h => by subst h; rfl⟩
  · rename_i out
    exact ⟨fun h => by contradiction, fun h => absurd ⟨h ▸ b.lower, h ▸ b.upper⟩ out⟩

@[simp] theorem ofInt?_val (b : Bounded lo hi) : ofInt? b.val = some b := ofInt?_eq_some.mpr rfl

theorem exists_ofInt? {z : Int} (low : lo ≤ z) (high : z < hi) :
    ∃ b : Bounded lo hi, ofInt? z = some b ∧ b.val = z :=
  ⟨⟨z, low, high⟩, ofInt?_eq_some.mpr rfl, rfl⟩

@[simp] theorem literal_val [Zero (Bounded lo hi)] {z : Int} (low : lo ≤ z) (high : z < hi) :
    (literal z : Bounded lo hi).val = z := by
  simp [literal, ofInt?, low, high]

@[simp] theorem checkedAdd_eq_some {a b c : Bounded lo hi} :
    checkedAdd a b = some c ↔ a.val + b.val = c.val := ofInt?_eq_some

@[simp] theorem checkedSub_eq_some {a b c : Bounded lo hi} :
    checkedSub a b = some c ↔ a.val - b.val = c.val := ofInt?_eq_some

@[simp] theorem checkedMul_eq_some {a b c : Bounded lo hi} :
    checkedMul a b = some c ↔ a.val * b.val = c.val := ofInt?_eq_some

@[simp] theorem checkedAbs_eq_some {a b : Bounded lo hi} :
    checkedAbs a = some b ↔ |a.val| = b.val := ofInt?_eq_some

@[simp] theorem checkedDiv_eq_some {a b c : Bounded lo hi} :
    checkedDiv a b = some c ↔ b.val ≠ 0 ∧ a.val.tdiv b.val = c.val := by
  unfold checkedDiv
  split
  · rename_i zero; simp [zero]
  · rename_i nonzero; simp [nonzero]

end Bounded

end Kit
