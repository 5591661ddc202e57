import Treasury.Kit.Json.Value

/-! Trees of known height with members sorted by key and no float, as the records
that are hashed build them. -/
namespace Kit.Json

structure Flat (n : Nat) (v : Value) : Prop where
  sorted : Sorted v
  integral : Integral v
  shallow : height v ≤ n

theorem Flat.mono {m n : Nat} {v : Value} (h : Flat m v) (le : m ≤ n) : Flat n v :=
  ⟨h.sorted, h.integral, h.shallow.trans le⟩

@[simp] theorem flat_null (n : Nat) : Flat n .null := ⟨trivial, trivial, Nat.zero_le n⟩

@[simp] theorem flat_string (n : Nat) (s : String) : Flat n (.string s) :=
  ⟨trivial, trivial, Nat.zero_le n⟩

@[simp] theorem flat_int (n : Nat) (z : Bounded (-9223372036854775808) 18446744073709551616) :
    Flat n (.number (.int z)) := ⟨trivial, trivial, Nat.zero_le n⟩

theorem flat_array {n : Nat} {vs : List Value} (h : ∀ v ∈ vs, Flat n v) :
    Flat (n + 1) (.array vs) := by
  refine ⟨?_, ?_, ?_⟩
  · exact (sortedItems_iff vs).mpr fun v hv => (h v hv).sorted
  · exact (integralItems_iff vs).mpr fun v hv => (h v hv).integral
  · exact (heightItems_le_iff vs (n + 1)).mpr fun v hv => Nat.succ_le_succ (h v hv).shallow

theorem flat_object {n : Nat} {es : List (String × Value)} (distinct : (es.map Prod.fst).Nodup)
    (h : ∀ e ∈ es, Flat n e.2) : Flat (n + 1) (.object (ofEntries es)) := by
  refine ⟨sorted_object fun e he => (h e he).sorted, ?_, ?_⟩
  · exact (integral_ofEntries distinct).mpr fun e he => (h e he).integral
  · exact (height_ofEntries distinct (n + 1)).mpr fun e he => Nat.succ_le_succ (h e he).shallow

end Kit.Json
