import Mathlib.Data.List.Basic
import Mathlib.Logic.Function.Basic

/-! Families of state machines side by side: one move takes a step of its own on each of the
members it lists and leaves the others alone. -/
namespace Kit

variable {ι S A : Type*} [DecidableEq ι]

def moveEach (step : S → A → S) : (ι → S) → List (ι × A) → ι → S
  | s, [] => s
  | s, (i, a) :: rest => moveEach step (Function.update s i (step (s i) a)) rest

variable {step : S → A → S} {s : ι → S} {moves : List (ι × A)} {i : ι} {a : A}

theorem moveEach_absent (absent : i ∉ moves.map Prod.fst) : moveEach step s moves i = s i := by
  induction moves generalizing s with
  | nil => rfl
  | cons move rest ih =>
    simp only [List.map_cons, List.mem_cons, not_or] at absent
    rw [moveEach, ih absent.2, Function.update_of_ne absent.1]

theorem moveEach_listed (distinct : (moves.map Prod.fst).Nodup) (listed : (i, a) ∈ moves) :
    moveEach step s moves i = step (s i) a := by
  induction moves generalizing s with
  | nil => cases listed
  | cons move rest ih =>
    obtain ⟨apart, distinct⟩ := List.nodup_cons.mp distinct
    rcases List.mem_cons.mp listed with rfl | later
    · rw [moveEach, moveEach_absent apart, Function.update_self]
    · have other : i ≠ move.1 := by
        rintro rfl
        exact apart (List.mem_map.mpr ⟨_, later, rfl⟩)
      rw [moveEach, ih distinct later, Function.update_of_ne other]

theorem moveEach_keeps {good : S → Prop} (distinct : (moves.map Prod.fst).Nodup)
    (before : ∀ i, good (s i)) (keeps : ∀ i a, (i, a) ∈ moves → good (step (s i) a)) (i : ι) :
    good (moveEach step s moves i) := by
  by_cases listed : i ∈ moves.map Prod.fst
  · obtain ⟨⟨_, a⟩, member, rfl⟩ := List.mem_map.mp listed
    rw [moveEach_listed distinct member]
    exact keeps _ _ member
  · rw [moveEach_absent listed]
    exact before i

end Kit
