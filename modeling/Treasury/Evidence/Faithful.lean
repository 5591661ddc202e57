import Treasury.Evidence.Canon
import Treasury.Kit.Json.SubValue
import Treasury.Reference

/-! What the canonical encoding accepts, and that its bytes stand for one value. -/
namespace Treasury
open Kit Kit.Json

section
variable [External]

/-- Both causes of rejection: a float, and a sub-value below the deepest level. -/
theorem canonical_iff (v : Tree) : (∃ b, canonicalBytes v.value = .ok b) ↔
    ∀ d w, SubValue v.value d w → d ≤ maxDepth ∧ ∀ text, w ≠ .number (.float text) := by
  simp only [canonicalBytes_eq_ok v.sorted, exists_and_left, exists_eq, and_true, integral_iff,
    height_le_iff]
  exact ⟨fun ⟨integral, shallow⟩ d w sub => ⟨shallow d w sub, integral d w sub⟩,
    fun both => ⟨fun d w sub => (both d w sub).2, fun d w sub => (both d w sub).1⟩⟩

/-- A value has canonical bytes if it has no floats and is not too deep, no two values have
the same ones, and a reader without a limit on nesting reads the value back from them. -/
theorem canonical_faithful (u : Unquoting json) :
    (∀ v : Tree, (∃ b, canonicalBytes v.value = .ok b) ↔
      ∀ d w, SubValue v.value d w → d ≤ maxDepth ∧ ∀ text, w ≠ .number (.float text)) ∧
    (∀ (v w : Tree) (b : Bytes), canonicalBytes v.value = .ok b →
      canonicalBytes w.value = .ok b → v = w) ∧
    ∀ (v : Tree) (b : Bytes), canonicalBytes v.value = .ok b →
      ∃ text, decodeUtf8 b = some text ∧
        ∀ limit, text.toList.length < limit → parse u limit text.toList = some v.value := by
  refine ⟨canonical_iff, fun v w b hv hw => ?_, fun v b hv => ?_⟩
  · exact Tree.ext_value (canonicalBytes_injective v.sorted w.sorted hv hw)
  · obtain ⟨integral, -, rfl⟩ := (canonicalBytes_eq_ok v.sorted).mp hv
    refine ⟨toText v.value, decodeUtf8_utf8 _, fun limit beyond => ?_⟩
    rw [toText, String.toList_ofList] at beyond ⊢
    exact parse_unlimited u integral v.sorted beyond

end

def arrayOfMax : Tree :=
  ⟨.array [.number (.int ⟨18446744073709551615, by decide, by decide⟩)], trivial, trivial⟩

theorem canonical_faithful_array :
    letI : External := reference
    ∃ b text, canonicalBytes arrayOfMax.value = .ok b ∧ decodeUtf8 b = some text ∧
      ∀ limit, text.toList.length < limit →
        parse standardReader limit text.toList = some arrayOfMax.value := by
  let _ : External := reference
  obtain ⟨accepts, -, reads⟩ := canonical_faithful standardReader
  have accepted : ∃ b, canonicalBytes arrayOfMax.value = .ok b := by
    refine (accepts arrayOfMax).mpr fun d w sub => ?_
    cases sub with
    | self => exact ⟨Nat.zero_le _, fun text => Value.noConfusion⟩
    | item member below =>
      cases List.mem_singleton.mp member
      cases below
      exact ⟨by decide, fun text => by simp⟩
  obtain ⟨b, written⟩ := accepted
  obtain ⟨text, decoded, back⟩ := reads arrayOfMax b written
  exact ⟨b, text, written, decoded, back⟩

end Treasury
