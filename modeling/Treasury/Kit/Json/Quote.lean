import Treasury.Kit.Bytes
import Treasury.Kit.Json.Parse

/-! The usual quoting of strings: quotation marks, backslashes and control
characters are escaped and every other character stands for itself. -/
namespace Kit.Json

def escape (c : Char) : Text :=
  if c = '\x22' then ['\\', '\x22']
  else if c = '\\' then ['\\', '\\']
  else if c = '\n' then ['\\', 'n']
  else if c = '\x0d' then ['\\', 'r']
  else if c = '\t' then ['\\', 't']
  else if c = '\x08' then ['\\', 'b']
  else if c = '\x0c' then ['\\', 'f']
  else if c < ' ' then
    ['\\', 'u', '0', '0', Nat.digitChar (c.toNat / 16), Nat.digitChar (c.toNat % 16)]
  else [c]

def quoteText (s : String) : Text := '\x22' :: (s.toList.flatMap escape ++ ['\x22'])

def unescape (c : Char) : Option Char :=
  if c = '\x22' then some '\x22'
  else if c = '\\' then some '\\'
  else if c = '/' then some '/'
  else if c = 'n' then some '\n'
  else if c = 'r' then some '\x0d'
  else if c = 't' then some '\t'
  else if c = 'b' then some '\x08'
  else if c = 'f' then some '\x0c'
  else none

def readChars : Text → Option (Text × Text)
  | [] => none
  | '\x22' :: rest => some ([], rest)
  | '\\' :: 'u' :: a :: b :: c :: d :: rest => do
    let a ← hexValue a
    let b ← hexValue b
    let c ← hexValue c
    let d ← hexValue d
    let (cs, rest) ← readChars rest
    return (Char.ofNat (4096 * a + 256 * b + 16 * c + d) :: cs, rest)
  | '\\' :: e :: rest => do
    let c ← unescape e
    let (cs, rest) ← readChars rest
    return (c :: cs, rest)
  | c :: rest => do
    let (cs, rest) ← readChars rest
    return (c :: cs, rest)

def readString : Text → Option (String × Text)
  | '\x22' :: text => (readChars text).map fun (cs, rest) => (String.ofList cs, rest)
  | _ => none

theorem read_control : ∀ n < 32, ∀ t, readChars
    (['\\', 'u', '0', '0', Nat.digitChar (n / 16), Nat.digitChar (n % 16)] ++ t) = do
      let (cs, rest) ← readChars t
      return (Char.ofNat n :: cs, rest) := by
  intro n low t
  have first := hexValue_digitChar (n / 16) (by omega)
  have second := hexValue_digitChar (n % 16) (by omega)
  have zero : hexValue '0' = some 0 := by decide
  have whole : 16 * (n / 16) + n % 16 = n := by omega
  simp [readChars, zero, first, second, whole]

theorem escape_cases (c : Char) :
    (∃ e, escape c = ['\\', e] ∧ e ≠ 'u' ∧ ' ' ≤ e ∧ unescape e = some c) ∨
    (c.toNat < 32 ∧ escape c =
      ['\\', 'u', '0', '0', Nat.digitChar (c.toNat / 16), Nat.digitChar (c.toNat % 16)]) ∨
    (c ≠ '\x22' ∧ c ≠ '\\' ∧ ' ' ≤ c ∧ escape c = [c]) := by
  unfold escape
  split_ifs with h1 h2 h3 h4 h5 h6 h7 low
  · exact .inl ⟨'\x22', rfl, by decide, by decide, by rw [h1]; decide⟩
  · exact .inl ⟨'\\', rfl, by decide, by decide, by rw [h2]; decide⟩
  · exact .inl ⟨'n', rfl, by decide, by decide, by rw [h3]; decide⟩
  · exact .inl ⟨'r', rfl, by decide, by decide, by rw [h4]; decide⟩
  · exact .inl ⟨'t', rfl, by decide, by decide, by rw [h5]; decide⟩
  · exact .inl ⟨'b', rfl, by decide, by decide, by rw [h6]; decide⟩
  · exact .inl ⟨'f', rfl, by decide, by decide, by rw [h7]; decide⟩
  · exact .inr (.inl ⟨low, rfl⟩)
  · exact .inr (.inr ⟨h1, h2, not_lt.mp low, rfl⟩)

theorem read_escape (c : Char) (t : Text) : readChars (escape c ++ t) = do
    let (cs, rest) ← readChars t
    return (c :: cs, rest) := by
  rcases escape_cases c with ⟨e, text, notU, _, back⟩ | ⟨low, text⟩ | ⟨quote, slash, _, text⟩
  · rw [text, List.cons_append, List.cons_append, List.nil_append]
    conv_lhs => rw [readChars.eq_def]
    split <;> simp_all
    rename_i another same
    exact absurd same.2.symm (another e t same.1.symm)
  · have := read_control c.toNat low t
    rw [Char.ofNat_toNat] at this
    rw [text, this]
  · rw [text, List.singleton_append]
    conv_lhs => rw [readChars.eq_def]
    split <;> simp_all

theorem readChars_flatMap (cs r : Text) :
    readChars (cs.flatMap escape ++ '\x22' :: r) = some (cs, r) := by
  induction cs with
  | nil => simp [readChars]
  | cons c cs ih => simp [read_escape, ih]

theorem readString_quoteText (s : String) (r : Text) :
    readString (quoteText s ++ r) = some (s, r) := by
  have : quoteText s ++ r = '\x22' :: (s.toList.flatMap escape ++ '\x22' :: r) := by
    simp [quoteText]
  rw [this, readString, readChars_flatMap]
  simp

theorem escape_printable (c : Char) : ∀ d ∈ escape c, ' ' ≤ d := by
  have digit : ∀ n < 16, ' ' ≤ Nat.digitChar n := by decide
  intro d hd
  rcases escape_cases c with ⟨e, text, _, above, _⟩ | ⟨low, text⟩ | ⟨_, _, above, text⟩
  · rw [text] at hd
    simp only [List.mem_cons, List.not_mem_nil, or_false] at hd
    rcases hd with rfl | rfl
    · decide
    · exact above
  · have first := digit (c.toNat / 16) (by omega)
    have second := digit (c.toNat % 16) (by omega)
    rw [text] at hd
    simp only [List.mem_cons, List.not_mem_nil, or_false] at hd
    rcases hd with rfl | rfl | rfl | rfl | rfl | rfl
    all_goals first | decide | assumption
  · rw [text, List.mem_singleton] at hd
    rwa [hd]

theorem escape_plain {c : Char} (h : c.isAlphanum) : escape c = [c] := by
  simp only [isAlphanum_eq, Bool.or_eq_true, Bool.and_eq_true, decide_eq_true_eq,
    UInt32.le_iff_toNat_le] at h
  have code : c.toNat = c.val.toNat := rfl
  unfold escape
  split_ifs with h1 h2 h3 h4 h5 h6 h7 low
  · subst h1; revert h; decide
  · subst h2; revert h; decide
  · subst h3; revert h; decide
  · subst h4; revert h; decide
  · subst h5; revert h; decide
  · subst h6; revert h; decide
  · subst h7; revert h; decide
  · have small : c.toNat < 32 := low
    simp at h
    omega
  · rfl

theorem flatMap_escape_plain {cs : Text} (h : ∀ c ∈ cs, c.isAlphanum) :
    cs.flatMap escape = cs := by
  induction cs with
  | nil => rfl
  | cons c cs ih =>
    rw [List.flatMap_cons, escape_plain (h c List.mem_cons_self),
      ih fun d hd => h d (List.mem_cons_of_mem _ hd), List.singleton_append]

def standard : Quoting where
  quote := quoteText
  opens s := ⟨_, rfl⟩
  delimited s t r u same := by
    have left := readString_quoteText s r
    rw [same, readString_quoteText] at left
    simpa [eq_comm] using left
  printable s := by
    intro c hc
    simp only [quoteText, List.mem_cons, List.mem_append, List.not_mem_nil, or_false,
      List.mem_flatMap] at hc
    rcases hc with rfl | ⟨d, _, hd⟩ | rfl
    · decide
    · exact escape_printable d c hd
    · decide
  plain s h := by
    rw [quoteText, flatMap_escape_plain (List.all_eq_true.mp h)]

def standardReader : Unquoting standard where
  unquote := readString
  unquote_quote := readString_quoteText

end Kit.Json
