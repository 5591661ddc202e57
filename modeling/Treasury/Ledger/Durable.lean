import Treasury.Ledger.File
import Treasury.Ledger.Runs

/-! What the log of a durable ledger holds, and what opening it gives back. -/
namespace Treasury
open Kit Kit.Json

def arrays : Nat → Value
  | 0 => .null
  | n + 1 => .array [arrays n]

theorem arrays_shape (n : Nat) : Integral (arrays n) ∧ Sorted (arrays n) ∧
    height (arrays n) = n ∧ nesting (arrays n) = n := by
  induction n with
  | zero => exact ⟨trivial, trivial, rfl, rfl⟩
  | succ n ih =>
    obtain ⟨integral, sorted, heightEq, nestingEq⟩ := ih
    simp [arrays, Integral, IntegralItems, Sorted, SortedItems, height, heightItems, nesting,
      nestingItems, *]

def arraysDraft (n : Nat) : EventDraft :=
  ⟨⟨"acme"⟩, .observation, ⟨0⟩, none, .observation ⟨"coinbase-prime"⟩ (.filled 2),
    ⟨arrays n, (arrays_shape n).2.1⟩⟩

namespace FileLedger
variable [External]

def recordLine (e : SealedEvent) : Line := print json e.record

def recordBytes (e : SealedEvent) : Bytes := utf8 (String.ofList (recordLine e ++ ['\n']))

/-- A record that the reader takes. -/
def Shallow (e : SealedEvent) : Prop := 2 + nesting e.draft.payload.value < recursionLimit

omit [External] in
theorem shallow_iff (e : SealedEvent) : Shallow e ↔ nesting e.record < recursionLimit := by
  have bounds := e.nesting_record
  simp only [Shallow, recursionLimit]
  omega

/-- The file is the log of these events, and they rebuild the ledger in memory. -/
structure Logged (ledger : FileLedger) (events : List SealedEvent) : Prop where
  file_eq : ledger.file = utf8 (String.ofList (logText (events.map recordLine)))
  accepts : InMemoryLedger.new.Accepts events
  inner_eq : ledger.inner = run InMemoryLedger.push .new events

theorem logged_new : Logged ⟨.new, []⟩ [] := ⟨rfl, trivial, rfl⟩

theorem persist_eq (inner : InMemoryLedger) (file : Bytes) (e : SealedEvent)
    (fault : Option Fault) : persist (inner.push e) file e.draft.tenant fault =
      (file ++ reached fault (recordBytes e),
        match fault with
        | none => .ok ()
        | some f => .error (.io f.message)) := by
  have last : ((inner.push e).stream e.draft.tenant).getLast? = some e := by
    rw [InMemoryLedger.stream_push, if_pos rfl, List.getLast?_concat]
  have bytes : [utf8 (toText e.record), utf8 "\n"].flatten = recordBytes e := by
    rw [recordBytes, utf8_ofList_append]
    simp [toText, recordLine]
  rw [persist, last]
  simp only [writeParts_eq, bytes]
  cases fault <;> rfl

theorem append_rejected {ledger : FileLedger} {d : EventDraft} {t : TimestampNs} {e : LedgerError}
    (rejected : ledger.inner.append d t = .error e) (fault : Option Fault) :
    ledger.append d t fault = (ledger, .error e) := by
  simp [append, rejected]

/-- An accepted event is in memory afterwards whether or not its record was
written. -/
theorem append_sealed {ledger : FileLedger} {e : SealedEvent} (seals : ledger.inner.Seals e)
    (fault : Option Fault) : ledger.append e.draft e.knowledgeTime fault =
      (⟨ledger.inner.push e, ledger.file ++ reached fault (recordBytes e)⟩,
        match fault with
        | none => .ok e.eventId
        | some f => .error (.backend (FileLedgerError.io f.message).toString)) := by
  have accepted : ledger.inner.append e.draft e.knowledgeTime =
    .ok (ledger.inner.push e, e.eventId) := seals
  simp only [append, accepted, persist_eq]
  cases fault <;> rfl

theorem append_cases (ledger : FileLedger) (d : EventDraft) (t : TimestampNs) :
    (∃ e, ledger.inner.append d t = .error e) ∨
      ∃ e, ledger.inner.Seals e ∧ e.draft = d ∧ e.knowledgeTime = t := by
  cases accepted : ledger.inner.append d t with
  | error e => exact .inl ⟨e, rfl⟩
  | ok result => exact .inr ⟨_, (InMemoryLedger.seals_of_append accepted).1, rfl, rfl⟩

theorem Logged.append {ledger : FileLedger} {events : List SealedEvent}
    (logged : Logged ledger events) {e : SealedEvent} (seals : ledger.inner.Seals e) :
    Logged (ledger.append e.draft e.knowledgeTime none).1 (events ++ [e]) := by
  rw [append_sealed seals]
  refine ⟨?_, ?_, ?_⟩
  · simp only [logged.file_eq, reached, recordBytes, List.map_append, List.map_cons, List.map_nil,
      logText_concat, utf8_ofList_append]
  · exact (along_append _ _ _ _ _).mpr ⟨logged.accepts, by rw [← logged.inner_eq]; exact ⟨seals, trivial⟩⟩
  · rw [run_append, ← logged.inner_eq]
    rfl

theorem Logged.holds {ledger : FileLedger} {events : List SealedEvent}
    (logged : Logged ledger events) : Holds ledger.file (logText (events.map recordLine)) [] where
  file_eq := by rw [logged.file_eq, List.append_nil]
  closed := closed_logText _
  torn := by simp

theorem Logged.printable {ledger : FileLedger} {events : List SealedEvent}
    (logged : Logged ledger events) : ∀ l ∈ events.map recordLine, Printable l := by
  intro l hl
  obtain ⟨e, he, rfl⟩ := List.mem_map.mp hl
  exact print_printable json _ (e.integral_record.mpr (logged.accepts.integral e he))

theorem Logged.lines_eq {ledger : FileLedger} {events : List SealedEvent}
    (logged : Logged ledger events) :
    lines (logText (events.map recordLine)) = events.map recordLine :=
  lines_logText _ logged.printable

section
variable [LedgerReader]

theorem replay_records (events : List SealedEvent) (index : Nat) (inner rebuilt : InMemoryLedger)
    (accepts : inner.Accepts events) :
    replay index (events.map recordLine) inner = .ok rebuilt ↔
      (∀ e ∈ events, Shallow e) ∧ rebuilt = run InMemoryLedger.push inner events := by
  induction events generalizing index inner with
  | nil => simp [replay, run, eq_comm]
  | cons e events ih =>
    obtain ⟨seals, rest⟩ := accepts
    have reads := LedgerReader.readSealed_record e seals.integral
    have line : String.ofList (recordLine e) = toText e.record := rfl
    have accepted : inner.append e.draft e.knowledgeTime = .ok (inner.push e, e.eventId) := seals
    simp only [List.map_cons, replay, line, reads, shallow_iff, List.forall_mem_cons, run]
    by_cases low : nesting e.record < recursionLimit
    · simp [low, accepted, ih _ _ rest, shallow_iff]
    · simp [low]

theorem Logged.open_iff {ledger reopened : FileLedger} {events : List SealedEvent}
    (logged : Logged ledger events) (recover : Bool) :
    openInternal ledger.file recover = .ok reopened ↔
      (∀ e ∈ events, Shallow e) ∧ reopened = ledger := by
  have file : utf8 (String.ofList (logText (events.map recordLine))) = ledger.file :=
    logged.file_eq.symm
  rw [openInternal, logged.holds.openLog_eq _ _ _ recover (.inl rfl), logged.lines_eq, file]
  have replayed := fun rebuilt => replay_records events 0 .new rebuilt logged.accepts
  cases result : replay 0 (events.map recordLine) InMemoryLedger.new with
  | error e =>
    have deep := (replayed (run InMemoryLedger.push .new events)).not.mp (by simp [result])
    simp only [and_true] at deep
    exact ⟨(nomatch ·), fun h => absurd h.1 deep⟩
  | ok rebuilt =>
    obtain ⟨shallow, same⟩ := (replayed rebuilt).mp result
    rw [same, ← logged.inner_eq]
    constructor
    · intro h; exact ⟨shallow, (Except.ok.inj h).symm⟩
    · rintro ⟨_, rfl⟩; rfl

end

def verdicts (ledger : FileLedger) :
    List (EventDraft × TimestampNs × Option Fault) → List (Except LedgerError EventId)
  | [] => []
  | (draft, knowledgeTime, fault) :: rest =>
    let (ledger, verdict) := ledger.append draft knowledgeTime fault
    verdict :: verdicts ledger rest

/-- The file opens, and the ledger that it gives has the same streams and answers
further appends in the same way. -/
def ReadsBack [LedgerReader] (ledger : FileLedger) : Prop :=
  ∃ reopened, «open» ledger.file = .ok reopened ∧
    (∀ tenant, reopened.stream tenant = ledger.stream tenant) ∧
    ∀ calls, verdicts reopened calls = verdicts ledger calls

theorem Logged.readsBack_iff [LedgerReader] {ledger : FileLedger} {events : List SealedEvent}
    (logged : Logged ledger events) : ReadsBack ledger ↔ ∀ e ∈ events, Shallow e := by
  constructor
  · rintro ⟨reopened, opened, _⟩
    exact ((logged.open_iff false).mp opened).1
  · intro shallow
    exact ⟨ledger, (logged.open_iff false).mpr ⟨shallow, rfl⟩, fun _ => rfl, fun _ => rfl⟩

def appendOk (ledger : FileLedger) (call : EventDraft × TimestampNs) : FileLedger :=
  (ledger.append call.1 call.2 none).1

/-- A payload that the ledger accepts leaves room for the two levels of the record
around it. -/
def Readable (ledger : FileLedger) (call : EventDraft × TimestampNs) : Prop :=
  (∃ result, ledger.inner.append call.1 call.2 = .ok result) →
    2 + nesting call.1.payload.value < recursionLimit

/-- A run without faults logs the events it accepts, and they are shallow exactly
when each append was readable. -/
theorem Logged.run {ledger : FileLedger} {events : List SealedEvent}
    (logged : Logged ledger events) (calls : List (EventDraft × TimestampNs)) :
    ∃ more, Logged (Kit.run appendOk ledger calls) (events ++ more) ∧
      ((∀ e ∈ more, Shallow e) ↔ Along appendOk Readable ledger calls) := by
  induction calls generalizing ledger events with
  | nil => exact ⟨[], by simpa [Kit.run] using logged, by simp [Along]⟩
  | cons call calls ih =>
    obtain ⟨d, t⟩ := call
    rcases append_cases ledger d t with ⟨error, rejected⟩ | ⟨e, seals, rfl, rfl⟩
    · have same : appendOk ledger (d, t) = ledger := by rw [appendOk, append_rejected rejected]
      obtain ⟨more, later, exact⟩ := ih logged
      refine ⟨more, by rw [Kit.run, same]; exact later, ?_⟩
      have free : Readable ledger (d, t) := by
        rintro ⟨result, accepted⟩
        rw [rejected] at accepted
        cases accepted
      simp only [Along, same, free, true_and, exact]
    · obtain ⟨more, later, exact⟩ := ih (logged.append seals)
      refine ⟨e :: more, by rw [Kit.run]; simpa [appendOk] using later, ?_⟩
      have readable : Readable ledger (e.draft, e.knowledgeTime) ↔ Shallow e :=
        ⟨fun h => h ⟨_, seals⟩, fun h _ => h⟩
      rw [List.forall_mem_cons, exact, Along, readable]
      rfl

def fresh : FileLedger := ⟨.new, []⟩

/-- The file of a run without faults opens as the ledger it came from exactly when
every accepted payload nests below the limit of the reader less two. -/
theorem open_reads_back [LedgerReader] (calls : List (EventDraft × TimestampNs)) :
    ReadsBack (Kit.run appendOk fresh calls) ↔ Along appendOk Readable fresh calls := by
  obtain ⟨more, logged, exact⟩ := logged_new.run calls
  rw [fresh, logged.readsBack_iff, List.nil_append, exact]

theorem deep_not_read_back [LedgerReader] {e : SealedEvent} (seals : InMemoryLedger.new.Seals e)
    (deep : ¬ Shallow e) : ¬ ReadsBack (appendOk fresh (e.draft, e.knowledgeTime)) := by
  have logged := logged_new.append seals
  exact fun back => deep (logged.readsBack_iff.mp back e (by simp))

omit [External] in
/-- One payload of 126 arrays is accepted, and the file no longer opens. -/
theorem deep_payload_not_read_back :
    letI : External := reference
    letI : LedgerReader := referenceReader
    (∃ id, (fresh.append (arraysDraft 126) ⟨0⟩ none).2 = .ok id) ∧
      ¬ ReadsBack (Kit.run appendOk fresh [(arraysDraft 126, ⟨0⟩)]) := by
  let _ : External := reference
  let _ : LedgerReader := referenceReader
  obtain ⟨integral, _, heightEq, nestingEq⟩ := arrays_shape 126
  obtain ⟨e, seals, draft, time⟩ := InMemoryLedger.new_seals (arraysDraft 126) ⟨0⟩ rfl rfl integral
    (by rw [arraysDraft, heightEq]; decide)
  have deep : ¬ Shallow e := by
    rw [Shallow, draft, arraysDraft, nestingEq]
    decide
  have sealedNow : fresh.inner.Seals e := seals
  rw [← draft, ← time]
  exact ⟨⟨e.eventId, by rw [append_sealed sealedNow]⟩, deep_not_read_back seals deep⟩

/-- A ledger in use, and the events whose append has returned `Ok`. -/
structure Session where
  ledger : FileLedger
  booked : List SealedEvent

abbrev Call := EventDraft × TimestampNs × Option Fault

def Session.append (s : Session) (call : Call) : Session :=
  let (draft, knowledgeTime, fault) := call
  match s.ledger.append draft knowledgeTime fault with
  | (ledger, .ok id) =>
    ⟨ledger, s.booked ++ [⟨id, s.ledger.inner.head draft.tenant, knowledgeTime, draft⟩]⟩
  | (ledger, .error _) => ⟨ledger, s.booked⟩

/-- An append that returns a backend error leaves every stream and every answer
as it was. -/
def Session.Undone (s : Session) (call : Call) : Prop :=
  (∃ message, (s.ledger.append call.1 call.2.1 call.2.2).2 = .error (.backend message)) →
    ∀ tenant, (s.append call).ledger.stream tenant = s.ledger.stream tenant ∧
      ∀ t, (s.append call).ledger.asOf tenant t = s.ledger.asOf tenant t

/-- Recovery reads the file and finds exactly the booked events, in order. -/
def Session.Recovers [LedgerReader] (s : Session) : Prop :=
  ∃ reopened, openWithRecovery s.ledger.file = .ok reopened ∧
    ∀ tenant, reopened.stream tenant = s.booked.filter (tenant = ·.draft.tenant)

/-- A draft that the validations accept meets no fault and is not too deep. -/
def Session.Clean (s : Session) (call : Call) : Prop :=
  (∃ result, s.ledger.inner.append call.1 call.2.1 = .ok result) →
    call.2.2 = none ∧ 2 + nesting call.1.payload.value < recursionLimit

theorem Session.append_rejected (s : Session) {d : EventDraft} {t : TimestampNs} {e : LedgerError}
    (rejected : s.ledger.inner.append d t = .error e) (fault : Option Fault) :
    s.append (d, t, fault) = s := by
  simp [Session.append, FileLedger.append_rejected rejected]

theorem Session.append_sealed (s : Session) {e : SealedEvent} (seals : s.ledger.inner.Seals e) :
    s.append (e.draft, e.knowledgeTime, none) =
      ⟨(s.ledger.append e.draft e.knowledgeTime none).1, s.booked ++ [e]⟩ := by
  simp [Session.append, FileLedger.append_sealed seals, ← seals.prev_eq]

theorem Session.not_undone (s : Session) {e : SealedEvent} (seals : s.ledger.inner.Seals e)
    (f : Fault) : ¬ s.Undone (e.draft, e.knowledgeTime, some f) := by
  intro undone
  obtain ⟨streams, _⟩ := undone ⟨_, by rw [FileLedger.append_sealed seals]⟩ e.draft.tenant
  have pushed : (s.append (e.draft, e.knowledgeTime, some f)).ledger.stream e.draft.tenant =
      s.ledger.stream e.draft.tenant ++ [e] := by
    simp [Session.append, FileLedger.append_sealed seals, FileLedger.stream,
      InMemoryLedger.stream_push]
  rw [pushed] at streams
  exact absurd streams (by simp)

/-- The invariant of a session without faults. -/
def Session.Sound (s : Session) : Prop :=
  Logged s.ledger s.booked ∧ ∀ e ∈ s.booked, Shallow e

theorem Session.Sound.recovers [LedgerReader] {s : Session} (sound : s.Sound) : s.Recovers := by
  refine ⟨s.ledger, (sound.1.open_iff true).mpr ⟨sound.2, rfl⟩, fun tenant => ?_⟩
  rw [FileLedger.stream, sound.1.inner_eq, InMemoryLedger.stream_run, InMemoryLedger.stream_new,
    List.nil_append]

/-- One append of a sound session: it is clean exactly when it is undone or else
recoverable, and a clean append keeps the session sound. -/
theorem Session.sound_append [LedgerReader] {s : Session} (sound : s.Sound) (call : Call) :
    (s.Clean call → s.Undone call ∧ (s.append call).Sound) ∧
      (s.Undone call → (s.append call).Recovers → s.Clean call) := by
  obtain ⟨d, t, fault⟩ := call
  rcases append_cases s.ledger d t with ⟨error, rejected⟩ | ⟨e, seals, rfl, rfl⟩
  · have same := s.append_rejected rejected fault
    constructor
    · intro _
      exact ⟨fun _ tenant => by rw [same]; exact ⟨rfl, fun _ => rfl⟩, by rw [same]; exact sound⟩
    · rintro _ _ ⟨result, accepted⟩
      exact nomatch rejected.symm.trans accepted
  · cases fault with
    | some f =>
      constructor
      · intro clean
        exact nomatch (clean ⟨_, seals⟩).1
      · exact fun undone => absurd undone (s.not_undone seals f)
    | none =>
      rw [s.append_sealed seals]
      have logged := sound.1.append seals
      constructor
      · intro clean
        refine ⟨?_, logged, ?_⟩
        · rintro ⟨message, failed⟩
          rw [FileLedger.append_sealed seals] at failed
          cases failed
        · intro x hx
          rcases List.mem_append.mp hx with old | new
          · exact sound.2 x old
          · rw [List.mem_singleton.mp new]
            exact (clean ⟨_, seals⟩).2
      · rintro _ ⟨reopened, opened, _⟩ _
        exact ⟨rfl, ((logged.open_iff true).mp opened).1 e (by simp)⟩

/-- In a session every failed append is undone and recovery always finds the booked
events exactly when every append is clean. -/
theorem failed_appends_uncommitted [LedgerReader] (calls : List Call) :
    (Along Session.append Session.Undone ⟨fresh, []⟩ calls ∧
        Throughout Session.append Session.Recovers ⟨fresh, []⟩ calls) ↔
      Along Session.append Session.Clean ⟨fresh, []⟩ calls := by
  have exact : ∀ (calls : List Call) (s : Session), s.Sound →
      ((Along Session.append Session.Undone s calls ∧
          Throughout Session.append Session.Recovers s calls) ↔
        Along Session.append Session.Clean s calls) := by
    intro calls
    induction calls with
    | nil =>
      intro s sound
      simp [Along, Throughout, sound.recovers]
    | cons call calls ih =>
      intro s sound
      obtain ⟨kept, needed⟩ := Session.sound_append sound call
      simp only [Along, Throughout]
      constructor
      · rintro ⟨⟨undone, laterU⟩, _, laterR⟩
        have next : (s.append call).Recovers := by
          cases calls with
          | nil => exact laterR
          | cons c cs => exact laterR.1
        have clean := needed undone next
        exact ⟨clean, (ih _ (kept clean).2).mp ⟨laterU, laterR⟩⟩
      · rintro ⟨clean, later⟩
        obtain ⟨undone, soundNext⟩ := kept clean
        obtain ⟨laterU, laterR⟩ := (ih _ soundNext).mpr later
        exact ⟨⟨undone, laterU⟩, sound.recovers, laterR⟩
  exact exact calls _ ⟨logged_new, by simp⟩

omit [External] in
/-- Nothing of the record reaches the disk, the append returns a backend error, and
the event is in the stream. -/
theorem failed_append_committed :
    letI : External := reference
    letI : LedgerReader := referenceReader
    (fresh.append (arraysDraft 0) ⟨0⟩ (some ⟨0, "no space left on device"⟩)).2 =
        .error (.backend "io failure: no space left on device") ∧
      ¬ (Along Session.append Session.Undone ⟨fresh, []⟩
          [(arraysDraft 0, ⟨0⟩, some ⟨0, "no space left on device"⟩)] ∧
        Throughout Session.append Session.Recovers ⟨fresh, []⟩
          [(arraysDraft 0, ⟨0⟩, some ⟨0, "no space left on device"⟩)]) := by
  let _ : External := reference
  let _ : LedgerReader := referenceReader
  obtain ⟨e, seals, draft, time⟩ := InMemoryLedger.new_seals (arraysDraft 0) ⟨0⟩ rfl rfl trivial
    (by simp [arraysDraft, arrays, height, maxDepth])
  have sealedNow : fresh.inner.Seals e := seals
  rw [← draft, ← time]
  exact ⟨by rw [append_sealed sealedNow]; rfl,
    fun both => Session.not_undone ⟨fresh, []⟩ sealedNow _ both.1.1⟩

end FileLedger

end Treasury
