import Mathlib.Data.List.Basic

/-! Byte strings: the UTF-8 bytes of a text and the hexadecimal text of bytes. -/
namespace Kit

abbrev Bytes := List UInt8

def utf8 (s : String) : Bytes := s.toByteArray.data.toList

def ValidUtf8 (b : Bytes) : Prop := (ByteArray.mk b.toArray).IsValidUTF8

instance (b : Bytes) : Decidable (ValidUtf8 b) := inferInstanceAs (Decidable (ByteArray.IsValidUTF8 _))

theorem utf8_injective {s t : String} (h : utf8 s = utf8 t) : s = t := by
  apply String.toByteArray_inj.mp
  exact ByteArray.ext (Array.toList_inj.mp h)

@[simp] theorem utf8_append (s t : String) : utf8 (s ++ t) = utf8 s ++ utf8 t := by
  simp [utf8]

theorem utf8_ofList (t : List Char) : utf8 (String.ofList t) = t.flatMap String.utf8EncodeChar := by
  simp [utf8, List.utf8Encode]

theorem validUtf8_utf8 (s : String) : ValidUtf8 (utf8 s) := by
  simpa [ValidUtf8, utf8] using s.isValidUTF8

def decodeUtf8 (b : Bytes) : Option String := String.fromUTF8? ⟨b.toArray⟩

@[simp] theorem decodeUtf8_utf8 (s : String) : decodeUtf8 (utf8 s) = some s := by
  have valid : (ByteArray.mk (utf8 s).toArray).IsValidUTF8 := validUtf8_utf8 s
  simp only [decodeUtf8, String.fromUTF8?]
  rw [dif_pos valid]
  apply congrArg some
  apply String.toByteArray_inj.mp
  simp [String.fromUTF8, utf8]

def hexByte (b : UInt8) : List Char := [Nat.digitChar (b.toNat / 16), Nat.digitChar (b.toNat % 16)]

/-- Two lowercase digits a byte. -/
def hexEncode (b : Bytes) : String := String.ofList (b.flatMap hexByte)

def hexValue (c : Char) : Option Nat :=
  if '0' ≤ c ∧ c ≤ '9' then some (c.toNat - 48)
  else if 'a' ≤ c ∧ c ≤ 'f' then some (c.toNat - 87)
  else if 'A' ≤ c ∧ c ≤ 'F' then some (c.toNat - 55)
  else none

def hexDecodeList : List Char → Option Bytes
  | [] => some []
  | [_] => none
  | a :: b :: rest => do
    let high ← hexValue a
    let low ← hexValue b
    let bytes ← hexDecodeList rest
    return UInt8.ofNat (16 * high + low) :: bytes

def hexDecode (s : String) : Option Bytes := hexDecodeList s.toList

theorem hexValue_digitChar : ∀ n < 16, hexValue (Nat.digitChar n) = some n := by decide

theorem hexDecodeList_flatMap (b : Bytes) : hexDecodeList (b.flatMap hexByte) = some b := by
  induction b with
  | nil => rfl
  | cons x b ih =>
    have high : x.toNat / 16 < 16 := by have := x.toNat_lt; omega
    have low : x.toNat % 16 < 16 := by omega
    have whole : 16 * (x.toNat / 16) + x.toNat % 16 = x.toNat := by omega
    simp only [List.flatMap_cons, hexByte, List.cons_append, List.nil_append, hexDecodeList,
      hexValue_digitChar _ high, hexValue_digitChar _ low, ih, whole, Option.bind_eq_bind,
      Option.bind_some, Option.pure_def, UInt8.ofNat_toNat]

@[simp] theorem hexDecode_hexEncode (b : Bytes) : hexDecode (hexEncode b) = some b := by
  simp [hexDecode, hexEncode, hexDecodeList_flatMap]

theorem isAlphanum_eq (c : Char) : c.isAlphanum =
    ((decide (65 ≤ c.val ∧ c.val ≤ 90) || decide (97 ≤ c.val) && decide (c.val ≤ 122)) ||
      decide (48 ≤ c.val) && decide (c.val ≤ 57)) := rfl

theorem hexEncode_alphanum (b : Bytes) : (hexEncode b).toList.all Char.isAlphanum := by
  have digit : ∀ n < 16, (Nat.digitChar n).isAlphanum := by decide
  rw [List.all_eq_true]
  intro c hc
  simp only [hexEncode, String.toList_ofList, List.mem_flatMap, hexByte, List.mem_cons,
    List.not_mem_nil, or_false] at hc
  obtain ⟨x, _, rfl | rfl⟩ := hc
  · exact digit _ (by have := x.toNat_lt; omega)
  · exact digit _ (by omega)

theorem hexEncode_injective {a b : Bytes} (h : hexEncode a = hexEncode b) : a = b := by
  have := congrArg hexDecode h
  simpa using this

end Kit
