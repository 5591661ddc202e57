import Mathlib.Data.List.Induction
import Treasury.Kit.Bytes

/-! An append-only file of text lines, on a device that may stop in the middle of
a call: what one call leaves behind, which part of a file is complete lines, and
which part is a torn tail. -/
namespace Kit

/-- The device takes this many more bytes and then fails with this message. -/
structure Fault where
  after : Nat
  message : String
  deriving DecidableEq

/-- `write_all`: the file afterwards, and what the device can still take. -/
def writeAll (file bytes : Bytes) : Option Fault → Bytes × Except String (Option Fault)
  | none => (file ++ bytes, .ok none)
  | some fault =>
    if fault.after < bytes.length then (file ++ bytes.take fault.after, .error fault.message)
    else (file ++ bytes, .ok (some { fault with after := fault.after - bytes.length }))

def syncAll : Option Fault → Except String Unit
  | none => .ok ()
  | some fault => .error fault.message

/-- How much of an attempted write reaches the file. -/
def reached (fault : Option Fault) (bytes : Bytes) : Bytes :=
  match fault with
  | none => bytes
  | some fault => bytes.take fault.after

/-- Writes and then a sync, each attempted only if the one before succeeded. -/
def writeParts (file : Bytes) : List Bytes → Option Fault → Bytes × Except String Unit
  | [], fault => (file, syncAll fault)
  | part :: parts, fault =>
    match writeAll file part fault with
    | (file, .error message) => (file, .error message)
    | (file, .ok left) => writeParts file parts left

def outcome : Option Fault → Except String Unit
  | none => .ok ()
  | some fault => .error fault.message

theorem writeAll_cases (fault : Option Fault) (file first rest : Bytes) :
    writeAll file first fault = (file ++ reached fault first, .ok none) ∧ fault = none ∨
    (∃ f, fault = some f ∧ f.after < first.length ∧
      writeAll file first fault = (file ++ reached fault (first ++ rest), .error f.message)) ∨
    (∃ f, fault = some f ∧ first.length ≤ f.after ∧
      writeAll file first fault = (file ++ first, .ok (some ⟨f.after - first.length, f.message⟩)) ∧
      reached fault (first ++ rest) =
        first ++ reached (some ⟨f.after - first.length, f.message⟩) rest) := by
  cases fault with
  | none => exact .inl ⟨rfl, rfl⟩
  | some f =>
    by_cases short : f.after < first.length
    · refine .inr (.inl ⟨f, rfl, short, ?_⟩)
      simp [writeAll, reached, short, List.take_append_of_le_length (Nat.le_of_lt short)]
    · have long := Nat.le_of_not_lt short
      refine .inr (.inr ⟨f, rfl, long, by simp [writeAll, short], ?_⟩)
      simp [reached, List.take_append, List.take_of_length_le long]

/-- The calls succeed exactly when the device has no fault, and they leave a
prefix of what was to be written. -/
theorem writeParts_eq (parts : List Bytes) (file : Bytes) (fault : Option Fault) :
    writeParts file parts fault = (file ++ reached fault parts.flatten, outcome fault) := by
  induction parts generalizing file fault with
  | nil => cases fault <;> simp [writeParts, syncAll, outcome, reached]
  | cons part parts ih =>
    rcases writeAll_cases fault file part parts.flatten with
      ⟨all, rfl⟩ | ⟨f, rfl, short, stopped⟩ | ⟨f, rfl, long, went, split⟩
    · simp [writeParts, all, ih, reached]
    · simp [writeParts, stopped, outcome]
    · simp [writeParts, went, ih, split, outcome]

abbrev Line := List Char

/-- The text up to and including its last newline, and what follows. -/
def splitTail (text : List Char) : List Char × List Char :=
  ((text.reverse.dropWhile (· != '\n')).reverse, (text.reverse.takeWhile (· != '\n')).reverse)

/-- A line without the carriage return that may end it, from its reversal. -/
def stripReturn : List Char → Line
  | '\x0d' :: line => line.reverse
  | line => line.reverse

def linesFrom : List Char → List Char → List Line
  | [], [] => []
  | line, [] => [line.reverse]
  | line, c :: text =>
    if c = '\n' then stripReturn line :: linesFrom [] text else linesFrom (c :: line) text

def lines (text : List Char) : List Line := linesFrom [] text

def logText (ls : List Line) : List Char := ls.flatMap (· ++ ['\n'])

def Printable (line : Line) : Prop := ∀ c ∈ line, ' ' ≤ c

theorem Printable.newline {line : Line} (h : Printable line) : '\n' ∉ line :=
  fun hc => absurd (h _ hc) (by decide)

def Closed (text : List Char) : Prop := text = [] ∨ ∃ front, text = front ++ ['\n']

theorem stripReturn_reverse {line : Line} (h : Printable line) : stripReturn line.reverse = line := by
  unfold stripReturn
  split
  · rename_i rest same
    have : '\x0d' ∈ line := by
      rw [← List.mem_reverse, same]
      exact List.mem_cons_self
    exact absurd (h _ this) (by decide)
  · simp

theorem linesFrom_newline (line front text : List Char) :
    linesFrom line (front ++ '\n' :: text) = linesFrom line (front ++ ['\n']) ++ linesFrom [] text := by
  induction front generalizing line with
  | nil => cases line <;> simp [linesFrom]
  | cons c front ih =>
    by_cases newline : c = '\n'
    · cases line <;> simp [linesFrom, newline, ih]
    · cases line <;> simp [linesFrom, newline, ih]

theorem lines_append {text : List Char} (closed : Closed text) (more : List Char) :
    lines (text ++ more) = lines text ++ lines more := by
  rcases closed with rfl | ⟨front, rfl⟩
  · rfl
  · simpa [lines] using linesFrom_newline [] front more

theorem lines_line {line : Line} (h : Printable line) : lines (line ++ ['\n']) = [line] := by
  have skip : ∀ rest before : List Char, Printable rest →
      linesFrom before (rest ++ ['\n']) = [stripReturn (rest.reverse ++ before)] := by
    intro rest
    induction rest with
    | nil => intro before _; cases before <;> simp [linesFrom]
    | cons c rest ih =>
      intro before printable
      have different : c ≠ '\n' := fun same => printable.newline (same ▸ List.mem_cons_self)
      have later := ih (c :: before) fun d hd => printable d (List.mem_cons_of_mem _ hd)
      cases before <;> simp [linesFrom, different, later]
  rw [lines, skip line [] h, List.append_nil, stripReturn_reverse h]

theorem closed_line (text : List Char) (line : Line) : Closed (text ++ (line ++ ['\n'])) :=
  .inr ⟨text ++ line, by simp⟩

theorem closed_logText (ls : List Line) : Closed (logText ls) := by
  rcases List.eq_nil_or_concat ls with rfl | ⟨front, last, rfl⟩
  · exact .inl rfl
  · exact .inr ⟨logText front ++ last, by simp [logText]⟩

theorem logText_concat (ls : List Line) (l : Line) :
    logText (ls ++ [l]) = logText ls ++ (l ++ ['\n']) := by
  simp [logText]

theorem lines_logText (ls : List Line) (h : ∀ l ∈ ls, Printable l) : lines (logText ls) = ls := by
  induction ls using List.reverseRecOn with
  | nil => rfl
  | append_singleton ls l ih =>
    rw [logText_concat, lines_append (closed_logText ls), lines_line (h l (by simp)),
      ih fun m hm => h m (by simp [hm])]

theorem splitTail_append {text tail : List Char} (closed : Closed text) (torn : '\n' ∉ tail) :
    splitTail (text ++ tail) = (text, tail) := by
  have before : ∀ c ∈ tail.reverse, (c != '\n') = true := by
    intro c hc
    have : c ≠ '\n' := fun same => torn (same ▸ List.mem_reverse.mp hc)
    simpa using this
  simp only [splitTail, List.reverse_append, List.dropWhile_append_of_pos before,
    List.takeWhile_append_of_pos before]
  rcases closed with rfl | ⟨front, rfl⟩ <;> simp

theorem splitTail_closed (text : List Char) : Closed (splitTail text).1 := by
  cases kept : text.reverse.dropWhile (· != '\n') with
  | nil => exact .inl (by simp [splitTail, kept])
  | cons c rest =>
    have newline : c = '\n' := by
      have := List.head_dropWhile_not (· != '\n') (l := text.reverse) (by simp [kept])
      simpa [kept] using this
    exact .inr ⟨rest.reverse, by simp [splitTail, kept, newline]⟩

theorem utf8_ofList_append (s t : List Char) :
    utf8 (String.ofList (s ++ t)) = utf8 (String.ofList s) ++ utf8 (String.ofList t) := by
  simp [utf8_ofList]

def Ascii (t : List Char) : Prop := ∀ c ∈ t, c.val ≤ 127

theorem ascii_of_alphanum {t : List Char} (h : t.all Char.isAlphanum) : Ascii t := by
  intro c hc
  have h := List.all_eq_true.mp h c hc
  simp only [isAlphanum_eq, Bool.or_eq_true, Bool.and_eq_true, decide_eq_true_eq] at h
  rcases h with (⟨_, high⟩ | ⟨_, high⟩) | ⟨_, high⟩ <;> exact UInt32.le_trans high (by decide)

theorem ascii_of_all {t : List Char} (h : t.all (·.val ≤ 127)) : Ascii t := by
  intro c hc
  simpa using List.all_eq_true.mp h c hc

theorem Ascii.append {s t : List Char} (hs : Ascii s) (ht : Ascii t) : Ascii (s ++ t) := by
  intro c hc
  rcases List.mem_append.mp hc with h | h
  · exact hs c h
  · exact ht c h

theorem utf8_ascii {t : List Char} (h : Ascii t) :
    utf8 (String.ofList t) = t.map fun c => c.val.toUInt8 := by
  rw [utf8_ofList]
  induction t with
  | nil => rfl
  | cons c t ih =>
    have one := String.utf8EncodeChar_eq_singleton
      (Char.utf8Size_eq_one_iff.mpr (h c List.mem_cons_self))
    rw [List.flatMap_cons, List.map_cons, one, ih fun d hd => h d (List.mem_cons_of_mem _ hd)]
    rfl

theorem take_utf8 {t : List Char} (h : Ascii t) (n : Nat) :
    (utf8 (String.ofList t)).take n = utf8 (String.ofList (t.take n)) := by
  have part : Ascii (t.take n) := fun c hc => h c (List.mem_of_mem_take hc)
  rw [utf8_ascii h, utf8_ascii part, List.map_take]

/-- Opening a log: it must be text, a torn tail must be accepted by the caller and
is then cut off, and the complete lines are replayed. -/
def openLog {E S : Type} (notText torn : E) (replay : List Line → Except E S) (file : Bytes)
    (recover : Bool) : Except E (S × Bytes) :=
  match decodeUtf8 file with
  | none => .error notText
  | some raw =>
    let (complete, tail) := splitTail raw.toList
    if tail ≠ [] ∧ recover = false then .error torn
    else match replay (lines complete) with
      | .error e => .error e
      | .ok state => .ok (state, utf8 (String.ofList complete))

/-- The file holds these whole lines and behind them this tail. -/
structure Holds (file : Bytes) (complete tail : List Char) : Prop where
  file_eq : file = utf8 (String.ofList (complete ++ tail))
  closed : Closed complete
  torn : '\n' ∉ tail

theorem holds_nil : Holds [] [] [] := ⟨rfl, .inl rfl, by simp⟩

theorem Holds.splits {file : Bytes} {complete tail : List Char} (holds : Holds file complete tail) :
    decodeUtf8 file = some (String.ofList (complete ++ tail)) ∧
      splitTail (complete ++ tail) = (complete, tail) :=
  ⟨by rw [holds.file_eq, decodeUtf8_utf8], splitTail_append holds.closed holds.torn⟩

theorem Holds.openLog_eq {E S : Type} {file : Bytes} {complete tail : List Char}
    (holds : Holds file complete tail) (notText torn : E) (replay : List Line → Except E S)
    (recover : Bool) (allowed : tail = [] ∨ recover = true) :
    openLog notText torn replay file recover =
      (replay (lines complete)).map (·, utf8 (String.ofList complete)) := by
  obtain ⟨decoded, split⟩ := holds.splits
  have proceeds : ¬ (tail ≠ [] ∧ recover = false) := by
    rcases allowed with rfl | rfl <;> simp
  simp only [openLog, decoded, String.toList_ofList, split, if_neg proceeds]
  cases replay (lines complete) <;> rfl

theorem openLog_eq_ok {E S : Type} {notText torn : E} {replay : List Line → Except E S}
    {file kept : Bytes} {recover : Bool} {state : S}
    (opened : openLog notText torn replay file recover = .ok (state, kept)) :
    ∃ complete, Holds kept complete [] ∧ replay (lines complete) = .ok state := by
  unfold openLog at opened
  split at opened
  · cases opened
  · rename_i raw decoded
    simp only at opened
    split_ifs at opened with torn
    split at opened
    · cases opened
    · rename_i state' replayed
      cases opened
      exact ⟨(splitTail raw.toList).1, ⟨by simp, splitTail_closed _, by simp⟩, replayed⟩

def wholeLines (file : Bytes) : Option (List Line) :=
  match decodeUtf8 file with
  | none => none
  | some raw =>
    let (complete, tail) := splitTail raw.toList
    if tail = [] then some (lines complete) else none

theorem wholeLines_logText (ls : List Line) (h : ∀ l ∈ ls, Printable l) :
    wholeLines (utf8 (String.ofList (logText ls))) = some ls := by
  have split := @splitTail_append _ [] (closed_logText ls) List.not_mem_nil
  rw [List.append_nil] at split
  simp only [wholeLines, decodeUtf8_utf8, String.toList_ofList, split, if_true, lines_logText ls h]

theorem exists_openLog_eq_ok {E S : Type} {notText torn : E} {replay : List Line → Except E S}
    {file : Bytes} {state : S} :
    (∃ kept, openLog notText torn replay file false = .ok (state, kept)) ↔
      ∃ ls, wholeLines file = some ls ∧ replay ls = .ok state := by
  unfold openLog wholeLines
  cases decodeUtf8 file with
  | none => simp
  | some raw =>
    by_cases whole : (splitTail raw.toList).2 = []
    · cases replayed : replay (lines (splitTail raw.toList).1) <;> simp [whole, replayed]
    · simp [whole]

theorem Holds.write_part {file : Bytes} {complete tail part : List Char}
    (holds : Holds file complete tail) (unfinished : '\n' ∉ part) :
    Holds (file ++ utf8 (String.ofList part)) complete (tail ++ part) where
  file_eq := by rw [holds.file_eq, ← utf8_ofList_append, List.append_assoc]
  closed := holds.closed
  torn := by simp [holds.torn, unfinished]

theorem Holds.write_line {file : Bytes} {complete : List Char} (holds : Holds file complete [])
    (line : Line) : Holds (file ++ utf8 (String.ofList (line ++ ['\n'])))
      (complete ++ (line ++ ['\n'])) [] where
  file_eq := by rw [holds.file_eq, ← utf8_ofList_append, List.append_nil, List.append_nil]
  closed := closed_line _ _
  torn := by simp

end Kit
