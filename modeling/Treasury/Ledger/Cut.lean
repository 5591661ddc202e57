import Mathlib.Data.List.TakeWhile
import Treasury.Kit.Cut
import Treasury.Kit.Json.SubValue
import Treasury.Ledger.Durable
import Treasury.Ledger.Sound

/-! Recovery of a ledger from the first bytes of its log, wherever the log is cut off. -/
namespace Treasury
open Kit Kit.Json

namespace FileLedger
variable [External]

/-- The ledger has exactly these events, and its file has exactly their records. -/
def Restores (ledger : FileLedger) (events : List SealedEvent) : Prop :=
  (∀ tenant, ledger.stream tenant = events.filter (tenant = ·.draft.tenant)) ∧
    ledger.file = events.flatMap recordBytes

/-- Recovery from the first bytes of the file loads the events whose records lie within them
and truncates the file to these. Opening does the same where a line ends and refuses the
torn tail elsewhere. -/
def Session.CutRecovers [LedgerReader] (s : Session) (n : Nat) : Prop :=
  let cut := s.ledger.file.take n
  ∃ reopened, openWithRecovery cut = .ok reopened ∧
    Restores reopened (within recordBytes n s.booked) ∧
    (AtBoundary recordBytes n s.booked → «open» cut = .ok reopened) ∧
    (¬ AtBoundary recordBytes n s.booked → «open» cut = .error .tornTail)

theorem Session.sound_of_clean [LedgerReader] {calls : List Call}
    (clean : Along Session.append Session.Clean ⟨fresh, []⟩ calls) :
    (run Session.append ⟨fresh, []⟩ calls).Sound :=
  run_guarded Session.append Session.Clean Session.Sound
    (fun _ call sound clean => ((Session.sound_append sound call).1 clean).2) calls _
    ⟨logged_new, by simp⟩ clean

theorem within_lines (n : Nat) (events : List SealedEvent) :
    within lineBytes n (events.map recordLine) = (within recordBytes n events).map recordLine :=
  within_map lineBytes recordLine n events

theorem atBoundary_lines (n : Nat) (events : List SealedEvent) :
    AtBoundary lineBytes n (events.map recordLine) ↔ AtBoundary recordBytes n events := by
  rw [AtBoundary, AtBoundary, within_lines, List.flatMap_map]
  rfl

variable [LedgerReader]

theorem Session.Sound.open_cut {s : Session} (sound : s.Sound) {n : Nat}
    (inFile : n ≤ s.ledger.file.length) (valid : ValidUtf8 (s.ledger.file.take n))
    (recover : Bool) :
    openInternal (s.ledger.file.take n) recover =
      if AtBoundary recordBytes n s.booked ∨ recover = true then
        .ok ⟨run InMemoryLedger.push .new (within recordBytes n s.booked),
          (within recordBytes n s.booked).flatMap recordBytes⟩
      else .error .tornTail := by
  obtain ⟨logged, shallow⟩ := sound
  have front := within_front recordBytes n s.booked
  have accepts : InMemoryLedger.new.Accepts (within recordBytes n s.booked) := by
    obtain ⟨rest, whole⟩ := front
    have all := logged.accepts
    rw [← whole] at all
    exact ((along_append ..).mp all).1
  have replayed := (replay_records (within recordBytes n s.booked) 0 .new _ accepts).mpr
    ⟨fun e member => shallow e (front.subset member), rfl⟩
  have bytes : ((within recordBytes n s.booked).map recordLine).flatMap lineBytes =
      (within recordBytes n s.booked).flatMap recordBytes := List.flatMap_map ..
  rw [logged.file_eq] at inFile valid ⊢
  rw [openInternal, openLog_cut _ _ _ logged.printable inFile valid, within_lines, replayed, bytes]
  simp only [atBoundary_lines]
  split <;> rfl

/-- A log that is cut off anywhere in a run of clean appends is recovered exactly when the
cut is text: it does not fall inside a character of several bytes. -/
theorem cut_recovers_iff (calls : List Call)
    (clean : Along Session.append Session.Clean ⟨fresh, []⟩ calls) (n : Nat)
    (inFile : n ≤ (run Session.append ⟨fresh, []⟩ calls).ledger.file.length) :
    (run Session.append ⟨fresh, []⟩ calls).CutRecovers n ↔
      ValidUtf8 ((run Session.append ⟨fresh, []⟩ calls).ledger.file.take n) := by
  have sound := Session.sound_of_clean clean
  generalize run Session.append ⟨fresh, []⟩ calls = s at sound inFile ⊢
  constructor
  · rintro ⟨reopened, recovered, -⟩
    by_contra invalid
    rw [openWithRecovery, openInternal, openLog_notText _ _ _ invalid] at recovered
    cases recovered
  · intro valid
    have opens := sound.open_cut inFile valid
    refine ⟨_, (opens true).trans (if_pos (.inr rfl)), ⟨fun tenant => ?_, rfl⟩, fun inside => ?_,
      fun inside => ?_⟩
    · rw [FileLedger.stream, InMemoryLedger.stream_run, InMemoryLedger.stream_new, List.nil_append]
    · exact (opens false).trans (if_pos (.inl inside))
    · exact (opens false).trans (if_neg (by simp [inside]))

def callsOf (events : List SealedEvent) : List Call :=
  events.map fun e => (e.draft, e.knowledgeTime, none)

omit [LedgerReader] in
theorem booked_callsOf (events : List SealedEvent) (s : Session)
    (accepts : s.ledger.inner.Accepts events) :
    (run Session.append s (callsOf events)).booked = s.booked ++ events := by
  induction events generalizing s with
  | nil => exact (List.append_nil s.booked).symm
  | cons e events ih =>
    obtain ⟨seals, accepts⟩ := accepts
    have appended := s.append_sealed seals
    simp only [callsOf, List.map_cons, run, appended]
    refine (ih _ ?_).trans (List.append_cons ..).symm
    rw [append_sealed seals]
    exact accepts

omit [LedgerReader] in
theorem clean_callsOf (events : List SealedEvent) (shallow : ∀ e ∈ events, Shallow e)
    (s : Session) : Along Session.append Session.Clean s (callsOf events) := by
  induction events generalizing s with
  | nil => trivial
  | cons e events ih =>
    obtain ⟨head, tail⟩ := List.forall_mem_cons.mp shallow
    exact ⟨fun _ => ⟨rfl, head⟩, ih tail _⟩

def observedCalls (tenant : String) : List Call := [(InMemoryLedger.observed tenant, ⟨0⟩, none)]

omit [LedgerReader] in
theorem clean_observedCalls (tenant : String) :
    Along Session.append Session.Clean ⟨fresh, []⟩ (observedCalls tenant) :=
  clean_callsOf [InMemoryLedger.firstEvent tenant]
    (by simp [Shallow, InMemoryLedger.firstEvent, InMemoryLedger.observed, nesting, recursionLimit]) _

omit [LedgerReader] in
theorem booked_observedCalls (tenant : String) :
    (run Session.append ⟨fresh, []⟩ (observedCalls tenant)).booked =
      [InMemoryLedger.firstEvent tenant] :=
  booked_callsOf [InMemoryLedger.firstEvent tenant] ⟨fresh, []⟩
    ⟨InMemoryLedger.seals_firstEvent (InMemoryLedger.stream_new _), trivial⟩

def beforeNewline (file : Bytes) : Nat := file.length - 1

omit [LedgerReader] in
theorem Logged.valid_beforeNewline {ledger : FileLedger} {events : List SealedEvent}
    (logged : Logged ledger events) :
    beforeNewline ledger.file ≤ ledger.file.length ∧
      ValidUtf8 (ledger.file.take (beforeNewline ledger.file)) := by
  refine ⟨Nat.sub_le _ _, ?_⟩
  rw [logged.file_eq, beforeNewline]
  obtain rfl | ⟨events, e, rfl⟩ := events.eq_nil_or_concat
  · exact validUtf8_iff.mpr ⟨[], rfl⟩
  · rw [List.concat_eq_append, List.map_append, List.map_singleton, logText_concat,
      ← List.append_assoc]
    generalize logText (events.map recordLine) ++ recordLine e = text
    refine validUtf8_iff.mpr ⟨text, ?_⟩
    rw [length_utf8_concat, utf8_ofList_append]
    exact List.take_left

def correctionCalls : List Call :=
  callsOf [InMemoryLedger.firstEvent "beta", InMemoryLedger.firstEvent "acme",
    InMemoryLedger.correctedEvent "acme"]

omit [LedgerReader] in
theorem clean_correctionCalls : Along Session.append Session.Clean ⟨fresh, []⟩ correctionCalls :=
  clean_callsOf _ (by simp [Shallow, InMemoryLedger.firstEvent, InMemoryLedger.correctedEvent,
    InMemoryLedger.corrected, InMemoryLedger.observed, nesting, recursionLimit]) _

omit [LedgerReader] in
theorem booked_correctionCalls :
    (run Session.append ⟨fresh, []⟩ correctionCalls).booked.length = 3 :=
  congrArg List.length (booked_callsOf _ ⟨fresh, []⟩ InMemoryLedger.accepts_corrections)

theorem valid_correctionCalls :
    let s := run Session.append ⟨fresh, []⟩ correctionCalls
    beforeNewline s.ledger.file ≤ s.ledger.file.length ∧
      ValidUtf8 (s.ledger.file.take (beforeNewline s.ledger.file)) :=
  (Session.sound_of_clean clean_correctionCalls).1.valid_beforeNewline

omit [External] [LedgerReader] in
/-- A log of three records is cut off before the last newline. -/
theorem cut_recovers_observed :
    letI : External := reference
    letI : LedgerReader := referenceReader
    let s := run Session.append ⟨fresh, []⟩ correctionCalls
    s.booked.length = 3 ∧ s.CutRecovers (beforeNewline s.ledger.file) := by
  have booked := @booked_correctionCalls reference
  have cut := @valid_correctionCalls reference referenceReader
  exact ⟨booked, (@cut_recovers_iff reference referenceReader (@correctionCalls reference)
    (@clean_correctionCalls reference) _ cut.1).mpr cut.2⟩

def insideFirst (c : Char) (events : List SealedEvent) : Nat :=
  (utf8 (String.ofList ((logText (events.map recordLine)).takeWhile (· != c)))).length + 1

omit [LedgerReader] in
theorem not_valid_insideFirst {ledger : FileLedger} {events : List SealedEvent}
    (logged : Logged ledger events) {c : Char} (wide : 1 < c.utf8Size)
    (member : c ∈ logText (events.map recordLine)) :
    insideFirst c events ≤ ledger.file.length ∧
      ¬ ValidUtf8 (ledger.file.take (insideFirst c events)) := by
  let text := logText (events.map recordLine)
  have some : text.dropWhile (· != c) ≠ [] := by
    intro none
    have all := List.dropWhile_eq_nil_iff.mp none c member
    simp at all
  have next : (text.dropWhile (· != c)).head some = c := by
    have stops := List.head_dropWhile_not (· != c) some
    simpa using stops
  have split : text = text.takeWhile (· != c) ++ c :: (text.dropWhile (· != c)).tail := by
    have rest := List.cons_head_tail some
    rw [next] at rest
    rw [rest, List.takeWhile_append_dropWhile]
  have invalid := not_valid_inside (text.takeWhile (· != c)) c (text.dropWhile (· != c)).tail wide
  have front : text.takeWhile (· != c) ++ [c] <+: text :=
    ⟨(text.dropWhile (· != c)).tail, by rw [List.append_assoc]; exact split.symm⟩
  have room := (utf8_front front).length_le
  rw [length_utf8_concat] at room
  rw [← split] at invalid
  rw [logged.file_eq]
  exact ⟨(Nat.add_le_add_left (Nat.le_of_lt wide) _).trans room, invalid⟩

omit [LedgerReader] in
theorem mem_log_tenant {e : SealedEvent} {c : Char} (member : c ∈ json.quote e.draft.tenant.value) :
    c ∈ logText ([e].map recordLine) := by
  have inDraft : SubValue e.record 2 (.string e.draft.tenant.value) := by
    refine .entry (e := ("draft", e.draft.record)) (by simp) ?_
    refine .entry (e := ("tenant", .string e.draft.tenant.value)) (by simp) ?_
    exact .self _
  exact List.mem_append_left _ (List.mem_append_left _ (inDraft.print_mem json c member))

theorem not_recovers_inside {tenant : String} {c : Char} (wide : 1 < c.utf8Size)
    (member : c ∈ json.quote tenant) :
    let s := run Session.append ⟨fresh, []⟩ (observedCalls tenant)
    let n := insideFirst c s.booked
    n ≤ s.ledger.file.length ∧
      (∀ recover, openInternal (s.ledger.file.take n) recover =
        .error (.io "stream did not contain valid UTF-8")) ∧
      ¬ s.CutRecovers n := by
  have logged := (Session.sound_of_clean (clean_observedCalls tenant)).1
  have booked := booked_observedCalls tenant
  generalize run Session.append ⟨fresh, []⟩ (observedCalls tenant) = s at logged booked ⊢
  have inLog : c ∈ logText (s.booked.map recordLine) := by
    rw [booked]
    exact mem_log_tenant member
  obtain ⟨inFile, invalid⟩ := not_valid_insideFirst logged wide inLog
  have fails (recover : Bool) : openInternal (s.ledger.file.take (insideFirst c s.booked)) recover =
      .error (.io "stream did not contain valid UTF-8") := by
    rw [openInternal, openLog_notText _ _ _ invalid]
    rfl
  refine ⟨inFile, fails, ?_⟩
  rintro ⟨reopened, recovered, -⟩
  cases (fails true).symm.trans recovered

omit [External] [LedgerReader] in
/-- The tenant's name has a character of two bytes, and the log is cut off between them. -/
theorem cut_inside_character :
    letI : External := reference
    letI : LedgerReader := referenceReader
    let s := run Session.append ⟨fresh, []⟩ (observedCalls "zürich")
    let n := insideFirst 'ü' s.booked
    Along Session.append Session.Clean ⟨fresh, []⟩ (observedCalls "zürich") ∧
      n ≤ s.ledger.file.length ∧
      (∀ recover, openInternal (s.ledger.file.take n) recover =
        .error (.io "stream did not contain valid UTF-8")) ∧
      ¬ s.CutRecovers n := by
  have member : 'ü' ∈ quoteText "zürich" := by decide
  exact ⟨@clean_observedCalls reference "zürich",
    @not_recovers_inside reference referenceReader "zürich" 'ü' (by decide) member⟩

end FileLedger

end Treasury
