import Mathlib.Data.Finmap
import Mathlib.Data.Finset.Sort

/-! A finite map that is iterated in the order of its keys. -/
namespace Kit

variable {κ ν : Type*} [LinearOrder κ]

def inOrder (m : Finmap fun _ : κ => ν) : List (κ × ν) :=
  m.keys.sort.filterMap fun k => (m.lookup k).map (k, ·)

variable {m n : Finmap fun _ : κ => ν}

theorem mem_inOrder {k : κ} {v : ν} : (k, v) ∈ inOrder m ↔ m.lookup k = some v := by
  simp only [inOrder, List.mem_filterMap, Finset.mem_sort, Finmap.mem_keys, Option.map_eq_some_iff,
    Prod.mk.injEq]
  constructor
  · rintro ⟨_, _, _, found, rfl, rfl⟩
    exact found
  · intro found
    exact ⟨k, Finmap.mem_iff.mpr ⟨v, found⟩, v, found, rfl, rfl⟩

theorem inOrder_keys (m : Finmap fun _ : κ => ν) : (inOrder m).map Prod.fst = m.keys.sort := by
  rw [inOrder, List.map_filterMap]
  refine (List.filterMap_congr fun k member => ?_).trans List.filterMap_some
  obtain ⟨v, found⟩ := Finmap.mem_iff.mp (Finmap.mem_keys.mp ((Finset.mem_sort _).mp member))
  simp [found]

theorem inOrder_sorted (m : Finmap fun _ : κ => ν) :
    (inOrder m).Pairwise fun a b => a.1 < b.1 := by
  refine List.pairwise_map.mp ?_
  rw [inOrder_keys]
  exact (Finset.sortedLT_sort _).pairwise

theorem inOrder_distinct (m : Finmap fun _ : κ => ν) : ((inOrder m).map Prod.fst).Nodup :=
  inOrder_keys m ▸ Finset.sort_nodup _ _

theorem inOrder_singleton (k : κ) (v : ν) :
    inOrder (Finmap.singleton k v : Finmap fun _ : κ => ν) = [(k, v)] := by
  simp [inOrder]

theorem eq_of_mem_inOrder (same : ∀ k v, (k, v) ∈ inOrder m ↔ (k, v) ∈ inOrder n) : m = n := by
  refine Finmap.ext_lookup fun k => Option.ext fun v => ?_
  simpa only [mem_inOrder] using same k v

end Kit
