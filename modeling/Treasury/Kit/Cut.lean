import Treasury.Kit.LineLog

/-! A log that is cut off at any byte. The cut is text again if it does not fall inside a
character, and then it has the lines that lie within it and a torn rest of the next. -/
namespace Kit

theorem prefix_of_utf8 {s t : List Char}
    (front : utf8 (String.ofList s) <+: utf8 (String.ofList t)) : s <+: t := by
  obtain ⟨rest, whole⟩ := front
  refine List.isPrefix_of_utf8Encode_append_eq_utf8Encode ⟨rest.toArray⟩ ?_
  apply ByteArray.ext
  apply Array.toList_inj.mp
  simpa [utf8] using whole

theorem validUtf8_iff {b : Bytes} : ValidUtf8 b ↔ ∃ t, b = utf8 (String.ofList t) := by
  constructor
  · rintro ⟨t, encoded⟩
    refine ⟨t, ?_⟩
    have bytes := congrArg (fun a => a.data.toList) encoded
    simpa [utf8] using bytes
  · rintro ⟨t, rfl⟩
    exact validUtf8_utf8 _

theorem decodeUtf8_eq_none {b : Bytes} (invalid : ¬ ValidUtf8 b) : decodeUtf8 b = none := by
  simp only [decodeUtf8, String.fromUTF8?]
  exact dif_neg invalid

theorem exists_cut {t : List Char} {n : Nat} (valid : ValidUtf8 ((utf8 (String.ofList t)).take n)) :
    ∃ s, s <+: t ∧ (utf8 (String.ofList t)).take n = utf8 (String.ofList s) := by
  obtain ⟨s, cut⟩ := validUtf8_iff.mp valid
  exact ⟨s, prefix_of_utf8 (cut ▸ List.take_prefix n _), cut⟩

theorem utf8_front {s t : List Char} (front : s <+: t) :
    utf8 (String.ofList s) <+: utf8 (String.ofList t) := by
  obtain ⟨rest, rfl⟩ := front
  exact ⟨utf8 (String.ofList rest), (utf8_ofList_append s rest).symm⟩

theorem prefix_of_bytes_le {s t whole : List Char} (inS : s <+: whole) (inT : t <+: whole)
    (le : (utf8 (String.ofList s)).length ≤ (utf8 (String.ofList t)).length) : s <+: t :=
  prefix_of_utf8 (List.prefix_of_prefix_length_le (utf8_front inS) (utf8_front inT) le)

theorem length_utf8_concat (t : List Char) (c : Char) :
    (utf8 (String.ofList (t ++ [c]))).length = (utf8 (String.ofList t)).length + c.utf8Size := by
  have last : utf8 (String.ofList [c]) = String.utf8EncodeChar c := by
    rw [utf8_ofList, List.flatMap_singleton]
  rw [utf8_ofList_append, last, List.length_append, String.length_utf8EncodeChar]

theorem not_valid_inside (front : List Char) (c : Char) (rest : List Char)
    (wide : 1 < c.utf8Size) :
    ¬ ValidUtf8 ((utf8 (String.ofList (front ++ c :: rest))).take
      ((utf8 (String.ofList front)).length + 1)) := by
  intro valid
  obtain ⟨s, part, cut⟩ := exists_cut valid
  have whole : front ++ [c] <+: front ++ c :: rest :=
    (List.prefix_append_right_inj front).mpr ⟨rest, rfl⟩
  have size := length_utf8_concat front c
  have room := (utf8_front whole).length_le
  have length := congrArg List.length cut
  rw [List.length_take] at length
  have short : s <+: front ++ [c] := prefix_of_bytes_le part whole (by omega)
  rcases List.prefix_concat_iff.mp short with rfl | before
  · omega
  · have := (utf8_front before).length_le
    omega

section
variable {α : Type*} (bytes : α → Bytes)

/-- The entries of a log that lie within its first `n` bytes. -/
def within (n : Nat) : List α → List α
  | [] => []
  | a :: rest =>
    if (bytes a).length ≤ n then a :: within (n - (bytes a).length) rest else []

/-- The cut falls behind the last byte of an entry, or before the first one. -/
def AtBoundary (n : Nat) (entries : List α) : Prop :=
  ((within bytes n entries).flatMap bytes).length = n

instance (n : Nat) (entries : List α) : Decidable (AtBoundary bytes n entries) :=
  inferInstanceAs (Decidable (_ = _))

theorem within_front (n : Nat) (entries : List α) : within bytes n entries <+: entries := by
  induction entries generalizing n with
  | nil => exact List.prefix_rfl
  | cons a rest ih =>
    unfold within
    split
    · exact List.cons_prefix_cons.mpr ⟨rfl, ih _⟩
    · exact List.nil_prefix

theorem within_append (before after : List α) (n : Nat) :
    within bytes ((before.flatMap bytes).length + n) (before ++ after) =
      before ++ within bytes n after := by
  induction before with
  | nil => simp
  | cons a before ih =>
    have fits : (bytes a).length ≤ (bytes a ++ before.flatMap bytes).length + n := by
      rw [List.length_append]
      omega
    have left : (bytes a ++ before.flatMap bytes).length + n - (bytes a).length =
        (before.flatMap bytes).length + n := by
      rw [List.length_append]
      omega
    rw [List.flatMap_cons, List.cons_append, within, if_pos fits, left, ih]
    rfl

theorem within_map {β : Type*} (f : β → α) (n : Nat) (entries : List β) :
    within bytes n (entries.map f) = (within (bytes ∘ f) n entries).map f := by
  induction entries generalizing n with
  | nil => rfl
  | cons a rest ih =>
    simp only [List.map_cons, within, Function.comp_apply, ih]
    split <;> rfl

/-- The device takes all of these bytes before it fails. -/
def Whole (fault : Option Fault) (bytes : Bytes) : Prop := ∀ f ∈ fault, bytes.length ≤ f.after

instance (fault : Option Fault) (bytes : Bytes) : Decidable (Whole fault bytes) :=
  inferInstanceAs (Decidable (∀ f ∈ fault, _))

theorem exists_take (fault : Option Fault) (bytes : Bytes) :
    ∃ n ≤ bytes.length, reached fault bytes = bytes.take n ∧
      (Whole fault bytes ↔ bytes.length ≤ n) := by
  cases fault with
  | none => exact ⟨bytes.length, Nat.le_refl _, List.take_length.symm, by simp [Whole]⟩
  | some f =>
    refine ⟨min f.after bytes.length, Nat.min_le_right _ _, ?_, ?_⟩
    · rw [reached, ← List.take_eq_take_min]
    · simp only [Whole, Option.mem_some_iff, forall_eq']
      omega

/-- An entry that is written up to somewhere leaves what a cut of the longer log leaves, and that
has the entry if it was written whole. -/
theorem exists_cut_reached (entries : List α) (a : α) (fault : Option Fault) :
    ∃ n ≤ ((entries ++ [a]).flatMap bytes).length,
      ((entries ++ [a]).flatMap bytes).take n = entries.flatMap bytes ++ reached fault (bytes a) ∧
      within bytes n (entries ++ [a]) =
        if Whole fault (bytes a) then entries ++ [a] else entries := by
  obtain ⟨n, inEntry, part, whole⟩ := exists_take fault (bytes a)
  have text : (entries ++ [a]).flatMap bytes = entries.flatMap bytes ++ bytes a := by
    rw [List.flatMap_append, List.flatMap_singleton]
  refine ⟨(entries.flatMap bytes).length + n, ?_, ?_, ?_⟩
  · rw [text, List.length_append]
    omega
  · rw [text, List.take_length_add_append, part]
  · rw [within_append, within]
    by_cases all : (bytes a).length ≤ n
    · rw [if_pos all, if_pos (whole.mpr all)]
      rfl
    · rw [if_neg all, if_neg (all ∘ whole.mp), List.append_nil]

end

def lineBytes (line : Line) : Bytes := utf8 (String.ofList (line ++ ['\n']))

theorem utf8_logText (ls : List Line) :
    utf8 (String.ofList (logText ls)) = ls.flatMap lineBytes := by
  induction ls with
  | nil => rfl
  | cons l ls ih =>
    rw [List.flatMap_cons, ← ih, lineBytes, ← utf8_ofList_append]
    rfl

/-- What a front of the text of a log has besides the lines that lie within it has no
newline: it belongs to the line that comes next. -/
theorem exists_tail {ls : List Line} (printable : ∀ l ∈ ls, Printable l) {s : List Char}
    (front : s <+: logText ls) :
    ∃ tail, s = logText (within lineBytes (utf8 (String.ofList s)).length ls) ++ tail ∧
      '\n' ∉ tail := by
  induction ls generalizing s with
  | nil =>
    obtain rfl := List.prefix_nil.mp front
    exact ⟨[], rfl, List.not_mem_nil⟩
  | cons l ls ih =>
    rw [List.forall_mem_cons] at printable
    obtain ⟨printableL, printableRest⟩ := printable
    have text : logText (l :: ls) = (l ++ ['\n']) ++ logText ls := rfl
    have line : l ++ ['\n'] <+: logText (l :: ls) := ⟨logText ls, text.symm⟩
    by_cases fits : (lineBytes l).length ≤ (utf8 (String.ofList s)).length
    · obtain ⟨rest, rfl⟩ := prefix_of_bytes_le line front fits
      rw [text, List.prefix_append_right_inj] at front
      obtain ⟨tail, split, torn⟩ := ih printableRest front
      refine ⟨tail, ?_, torn⟩
      have left : (utf8 (String.ofList (l ++ ['\n'] ++ rest))).length - (lineBytes l).length =
          (utf8 (String.ofList rest)).length := by
        rw [utf8_ofList_append, lineBytes, List.length_append, Nat.add_sub_cancel_left]
      rw [within, if_pos fits, left]
      calc l ++ ['\n'] ++ rest
          = l ++ ['\n'] ++ (logText _ ++ tail) := congrArg _ split
        _ = logText (l :: _) ++ tail := (List.append_assoc ..).symm
    · have short := prefix_of_bytes_le front line (Nat.le_of_not_le fits)
      refine ⟨s, ?_, fun newline => ?_⟩
      · rw [within, if_neg fits]
        rfl
      · rcases List.prefix_concat_iff.mp short with rfl | before
        · exact fits (Nat.le_refl _)
        · exact printableL.newline (before.subset newline)

/-- A cut that is text holds the lines that lie within it, and nothing behind them exactly
when it falls on a boundary of lines. -/
theorem holds_cut {ls : List Line} (printable : ∀ l ∈ ls, Printable l) {n : Nat}
    (inFile : n ≤ (utf8 (String.ofList (logText ls))).length)
    (valid : ValidUtf8 ((utf8 (String.ofList (logText ls))).take n)) :
    ∃ tail,
      Holds ((utf8 (String.ofList (logText ls))).take n) (logText (within lineBytes n ls)) tail ∧
      (tail = [] ↔ AtBoundary lineBytes n ls) := by
  obtain ⟨s, front, cut⟩ := exists_cut valid
  have length : n = (utf8 (String.ofList s)).length := by
    rw [← cut, List.length_take, Nat.min_eq_left inFile]
  obtain ⟨tail, split, torn⟩ := exists_tail printable front
  rw [← length] at split
  refine ⟨tail, ⟨?_, closed_logText _, torn⟩, ?_⟩
  · rw [cut, ← split]
  · have bytes := congrArg (fun t => (utf8 (String.ofList t)).length) split
    simp only [utf8_ofList_append, List.length_append, utf8_logText, ← length] at bytes
    rw [AtBoundary]
    constructor
    · rintro rfl
      simpa [utf8] using bytes.symm
    · intro boundary
      have none : (utf8 (String.ofList tail)).length = 0 := by omega
      have empty : utf8 (String.ofList tail) <+: utf8 (String.ofList []) := by
        rw [List.length_eq_zero_iff.mp none]
        exact List.nil_prefix
      exact List.prefix_nil.mp (prefix_of_utf8 empty)

section
variable {E S : Type} (notText torn : E) (replay : List Line → Except E S)

theorem openLog_notText {file : Bytes} (invalid : ¬ ValidUtf8 file) (recover : Bool) :
    openLog notText torn replay file recover = .error notText := by
  rw [openLog, decodeUtf8_eq_none invalid]

theorem Holds.openLog_torn {file : Bytes} {complete tail : List Char}
    (holds : Holds file complete tail) (behind : tail ≠ []) :
    openLog notText torn replay file false = .error torn := by
  obtain ⟨decoded, split⟩ := holds.splits
  simp [openLog, decoded, split, behind]

theorem openLog_cut {ls : List Line} (printable : ∀ l ∈ ls, Printable l) {n : Nat}
    (inFile : n ≤ (utf8 (String.ofList (logText ls))).length)
    (valid : ValidUtf8 ((utf8 (String.ofList (logText ls))).take n)) (recover : Bool) :
    openLog notText torn replay ((utf8 (String.ofList (logText ls))).take n) recover =
      if AtBoundary lineBytes n ls ∨ recover = true then
        (replay (within lineBytes n ls)).map (·, (within lineBytes n ls).flatMap lineBytes)
      else .error torn := by
  obtain ⟨tail, holds, boundary⟩ := holds_cut printable inFile valid
  have lines_eq : lines (logText (within lineBytes n ls)) = within lineBytes n ls :=
    lines_logText _ fun l member => printable l ((within_front _ n ls).subset member)
  by_cases allowed : AtBoundary lineBytes n ls ∨ recover = true
  · rw [if_pos allowed, holds.openLog_eq _ _ _ _ (allowed.imp_left boundary.mpr), lines_eq,
      utf8_logText]
  · rw [if_neg allowed]
    obtain ⟨inside, plain⟩ := not_or.mp allowed
    rw [Bool.eq_false_iff.mpr plain]
    exact holds.openLog_torn _ _ _ (inside ∘ boundary.mp)

end

end Kit
