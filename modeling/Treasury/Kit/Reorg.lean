import Mathlib.Order.Defs.LinearOrder
import Mathlib.Order.Lattice
import Treasury.Kit.Run

/-! Chains of blocks whose last blocks are replaced. What lies deeper than every replacement
reaches is the same after any number of them. -/
namespace Kit

variable {B : Type*}

/-- The last blocks of a chain give way to others. -/
structure Reorg (B : Type*) where
  dropped : Nat
  added : List B

namespace Reorg

def apply (chain : List B) (r : Reorg B) : List B :=
  chain.take (chain.length - r.dropped) ++ r.added

/-- The first so many blocks are not touched, and the chain gets no shorter. -/
def Keeps (kept : Nat) (chain : List B) (r : Reorg B) : Prop :=
  kept + r.dropped ≤ chain.length ∧ r.dropped ≤ r.added.length

/-- So many blocks at most are dropped, never the first one, and the chain gets no shorter. -/
def Within (depth : Nat) (chain : List B) (r : Reorg B) : Prop :=
  r.dropped ≤ depth ∧ r.dropped < chain.length ∧ r.dropped ≤ r.added.length

variable {kept depth : Nat} {chain start : List B} {r : Reorg B}

theorem length_apply (keeps : Keeps kept chain r) : chain.length ≤ (apply chain r).length := by
  obtain ⟨room, longer⟩ := keeps
  rw [apply, List.length_append, List.length_take]
  omega

theorem take_apply (keeps : Keeps kept chain r) :
    (apply chain r).take kept = chain.take kept := by
  have inside : kept ≤ chain.length - r.dropped := Nat.le_sub_of_add_le keeps.1
  have fits : kept ≤ (chain.take (chain.length - r.dropped)).length := by
    rw [List.length_take]
    exact le_min inside (inside.trans (Nat.sub_le ..))
  rw [apply, List.take_append_of_le_length fits, List.take_take, min_eq_left inside]

theorem take_run (rs : List (Reorg B)) (keeps : Along apply (Keeps kept) chain rs) :
    (run apply chain rs).take kept = chain.take kept ∧
      chain.length ≤ (run apply chain rs).length := by
  refine run_guarded apply (Keeps kept)
    (fun now => now.take kept = chain.take kept ∧ chain.length ≤ now.length)
    (fun now r same keeps => ?_) rs chain ⟨rfl, le_rfl⟩ keeps
  exact ⟨(take_apply keeps).trans same.1, same.2.trans (length_apply keeps)⟩

theorem keeps_of_within {tip : Nat} (below : tip < chain.length) (rs : List (Reorg B))
    (within : Along apply (Within depth) chain rs) :
    Along apply (Keeps (tip - depth + 1)) chain rs := by
  refine along_guarded apply (Within depth) (Keeps (tip - depth + 1)) (fun now => tip < now.length)
    (fun now r longer within => ?_) (fun now r longer within => ?_) rs chain below within
  · obtain ⟨_, room, added⟩ := within
    have keeps : Keeps 0 now r := ⟨by omega, added⟩
    exact longer.trans_le (length_apply keeps)
  · obtain ⟨few, room, added⟩ := within
    exact ⟨by omega, added⟩

end Reorg

end Kit
