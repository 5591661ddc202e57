import Mathlib.Data.List.Forall2
import Treasury.Ledger.Durable
import Treasury.Ledger.Isolation

/-! What the lines of a log say against what the ledger holds after loading it. Loading
appends the recorded drafts again and compares the identities; what a record names as the
predecessor is not read. -/
namespace Treasury
open Kit Kit.Json

namespace FileLedger
/-- The records differ at most in what they name as the predecessor. -/
structure OnlyPrev (recorded altered : SealedEvent) : Prop where
  eventId : altered.eventId = recorded.eventId
  knowledgeTime : altered.knowledgeTime = recorded.knowledgeTime
  draft : altered.draft = recorded.draft

theorem OnlyPrev.eq {recorded altered : SealedEvent} (only : OnlyPrev recorded altered)
    (prev : altered.prev = recorded.prev) : altered = recorded := by
  obtain ⟨eventId, knowledgeTime, draft⟩ := only
  cases recorded; cases altered
  subst eventId knowledgeTime draft prev
  rfl

/-- The identity was left as it was, or all that it is the hash of, besides the predecessor. -/
def KeepsIdentity (recorded altered : SealedEvent) : Prop :=
  altered.eventId = recorded.eventId ∨
    altered.knowledgeTime = recorded.knowledgeTime ∧ altered.draft = recorded.draft

def heard (e : SealedEvent) : EventId × TimestampNs × EventDraft :=
  (e.eventId, e.knowledgeTime, e.draft)

variable [External]

/-- A recorded event that names the predecessor which the append finds. -/
def reseal (inner : InMemoryLedger) (recorded : SealedEvent) : SealedEvent :=
  { recorded with prev := inner.head recorded.draft.tenant }

def resealed (inner : InMemoryLedger) : List SealedEvent → List SealedEvent
  | [] => []
  | recorded :: rest =>
    reseal inner recorded :: resealed (inner.push (reseal inner recorded)) rest

/-- The record with its predecessor among the records before it. -/
def linked (before : List SealedEvent) (recorded : SealedEvent) : SealedEvent :=
  { recorded with
    prev := lastId SealedEvent.eventId (genesisHash recorded.draft.tenant)
      (before.filter (recorded.draft.tenant = ·.draft.tenant)) }

/-- The record passes the checks of an append to the records of its tenant before it, and its
identity is the hash of its draft, its time and the identity of the last of these. -/
def Continues (before : List SealedEvent) (recorded : SealedEvent) : Prop :=
  InMemoryLedger.Extends (before.filter (recorded.draft.tenant = ·.draft.tenant))
    (linked before recorded)

def record (before : List SealedEvent) (recorded : SealedEvent) : List SealedEvent :=
  before ++ [recorded]

def Replayable (events : List SealedEvent) : Prop := Along record Continues [] events

def HashedRecord (preimages : Set Bytes) (before : List SealedEvent) (recorded : SealedEvent) :
    Prop :=
  ∀ b, canonicalEnvelope (linked before recorded).prev recorded.knowledgeTime recorded.draft =
    .ok b → b ∈ preimages

/-- What is hashed for the records is among the byte strings. -/
def HashedRecords (preimages : Set Bytes) (events : List SealedEvent) : Prop :=
  Along record (HashedRecord preimages) [] events

/-- Every record names its predecessor among the records of its tenant. -/
def NamesPrevious (events : List SealedEvent) : Prop :=
  ∀ tenant, Chained SealedEvent.prev SealedEvent.eventId (genesisHash tenant)
    (events.filter (tenant = ·.draft.tenant))

theorem resealed_onlyPrev (inner : InMemoryLedger) (events : List SealedEvent) :
    List.Forall₂ OnlyPrev events (resealed inner events) := by
  induction events generalizing inner with
  | nil => exact .nil
  | cons recorded rest ih => exact .cons ⟨rfl, rfl, rfl⟩ (ih _)

theorem reseal_congr {recorded altered : SealedEvent} (same : OnlyPrev recorded altered)
    (inner : InMemoryLedger) : reseal inner altered = reseal inner recorded := by
  unfold reseal
  simp only [same.eventId, same.knowledgeTime, same.draft]

theorem resealed_congr {events altered : List SealedEvent}
    (same : List.Forall₂ OnlyPrev events altered) (inner : InMemoryLedger) :
    resealed inner altered = resealed inner events := by
  induction same generalizing inner with
  | nil => rfl
  | cons first rest ih => simp only [resealed, reseal_congr first, ih]

theorem verified_run {inner : InMemoryLedger} {events : List SealedEvent}
    (verified : ∀ tenant, inner.verifyChain tenant = .ok ()) (accepts : inner.Accepts events) :
    ∀ tenant, (run InMemoryLedger.push inner events).verifyChain tenant = .ok () :=
  run_guarded InMemoryLedger.push InMemoryLedger.Seals
    (fun ledger => ∀ tenant, ledger.verifyChain tenant = .ok ())
    (fun _ _ verified seals => InMemoryLedger.verified_push verified seals) events inner verified
    accepts

/-- The streams of a replay are the recorded events exactly when every record names its
predecessor. -/
theorem streams_iff {events : List SealedEvent}
    (accepts : InMemoryLedger.new.Accepts (resealed .new events)) :
    (∀ tenant, (run InMemoryLedger.push .new (resealed .new events)).stream tenant =
        events.filter (tenant = ·.draft.tenant)) ↔ NamesPrevious events := by
  have verified := verified_run (fun tenant => (InMemoryLedger.sound_new.verified tenant)) accepts
  have chained (tenant : TenantId) := ((InMemoryLedger.verifyFrom_eq_ok _ _).mp (verified tenant)).1
  constructor
  · intro same tenant
    exact same tenant ▸ chained tenant
  · intro names tenant
    have stands := chained tenant
    simp only [InMemoryLedger.stream_run, InMemoryLedger.stream_new, List.nil_append] at stands ⊢
    have agree : List.Forall₂ OnlyPrev (events.filter (tenant = ·.draft.tenant))
        ((resealed .new events).filter (tenant = ·.draft.tenant)) := by
      refine List.rel_filter (fun recorded again same => ?_) (resealed_onlyPrev _ _)
      simp only [same.draft]
    exact (chained_unique SealedEvent.prev SealedEvent.eventId (names tenant) stands
      (agree.imp fun _ _ same => ⟨same.eventId.symm, fun prev => (same.eq prev.symm).symm⟩)).symm

section
variable {preimages : Set Bytes} (injective : Set.InjOn sha256 preimages)
include injective

theorem sealed_same {inner : InMemoryLedger} {e f : SealedEvent} (sealsE : inner.Seals e)
    (sealsF : inner.Seals f) (hashedE : (inner.push e).HashedIn preimages)
    (hashedF : (inner.push f).HashedIn preimages) (identity : e.eventId = f.eventId) :
    e.knowledgeTime = f.knowledgeTime ∧ e.draft = f.draft := by
  obtain ⟨bytesE, writtenE, digestE⟩ := computeId_eq_ok.mp sealsE.computed
  obtain ⟨bytesF, writtenF, digestF⟩ := computeId_eq_ok.mp sealsF.computed
  have inE := hashedE e.draft.tenant e (by simp [InMemoryLedger.stream_push]) bytesE writtenE
  have inF := hashedF f.draft.tenant f (by simp [InMemoryLedger.stream_push]) bytesF writtenF
  obtain rfl := injective inE inF (digestE.trans (identity.trans digestF.symm))
  exact (canonicalEnvelope_injective writtenE writtenF).2

omit injective in
theorem hashed_first {inner : InMemoryLedger} {events : List SealedEvent}
    (hashed : (run InMemoryLedger.push inner events).HashedIn preimages) :
    inner.HashedIn preimages := by
  induction events generalizing inner with
  | nil => exact hashed
  | cons e events ih => exact (ih hashed).of_push

theorem onlyPrev_of_accepts {events altered : List SealedEvent}
    (alteration : List.Forall₂ KeepsIdentity events altered) {inner : InMemoryLedger}
    (accepts : inner.Accepts (resealed inner events))
    (again : inner.Accepts (resealed inner altered))
    (hashed : (run InMemoryLedger.push inner (resealed inner events)).HashedIn preimages)
    (hashedAgain : (run InMemoryLedger.push inner (resealed inner altered)).HashedIn preimages) :
    List.Forall₂ OnlyPrev events altered := by
  induction alteration generalizing inner with
  | nil => exact .nil
  | @cons recorded other rest others first _ ih =>
    have same := sealed_same injective accepts.1 again.1 (hashed_first hashed)
      (hashed_first hashedAgain)
    have only : OnlyPrev recorded other := by
      rcases first with identity | ⟨time, draft⟩
      · obtain ⟨time, draft⟩ := same identity.symm
        exact ⟨identity, time.symm, draft.symm⟩
      · obtain ⟨id, prev, t, d⟩ := recorded
        obtain ⟨id', prev', t', d'⟩ := other
        obtain rfl : t' = t := time
        obtain rfl : d' = d := draft
        have identity := accepts.1.computed.symm.trans again.1.computed
        exact ⟨(Except.ok.inj identity).symm, rfl, rfl⟩
    have next := reseal_congr only inner
    simp only [resealed, next] at again hashedAgain
    exact .cons only (ih accepts.2 again.2 hashed hashedAgain)

end

section
variable {preimages : Set Bytes} {inner : InMemoryLedger} {before : List SealedEvent}
  {recorded : SealedEvent}

omit [External] in
theorem lastId_heard (start : EventId) (l : List SealedEvent) :
    lastId SealedEvent.eventId start l = lastId Prod.fst start (l.map heard) := by
  simp only [lastId, List.getLast?_map, Option.map_map]
  rfl

theorem extends_congr {s t : List SealedEvent} {e : SealedEvent} (same : s.map heard = t.map heard)
    (extend : InMemoryLedger.Extends s e) : InMemoryLedger.Extends t e where
  layered := extend.layered
  later := by
    intro last ends
    have ends' : (s.map heard).getLast? = some (heard last) := by
      rw [same, List.getLast?_map, ends, Option.map_some]
    rw [List.getLast?_map] at ends'
    obtain ⟨first, here, alike⟩ := Option.map_eq_some_iff.mp ends'
    have times : first.knowledgeTime = last.knowledgeTime := congrArg (·.2.1) alike
    exact times ▸ extend.later first here
  standing := by
    intro id supersedes
    obtain ⟨target, member, identity, layer⟩ := extend.standing id supersedes
    have listed : heard target ∈ t.map heard := same ▸ List.mem_map_of_mem member
    obtain ⟨other, here, alike⟩ := List.mem_map.mp listed
    have drafts : other.draft = target.draft := congrArg (·.2.2) alike
    exact ⟨other, here, (congrArg Prod.fst alike).trans identity, by rw [drafts, layer]⟩
  unmarked := by
    intro id supersedes f member
    have listed : heard f ∈ s.map heard := same ▸ List.mem_map_of_mem member
    obtain ⟨other, here, alike⟩ := List.mem_map.mp listed
    have drafts : other.draft = f.draft := congrArg (·.2.2) alike
    exact drafts ▸ extend.unmarked id supersedes other here
  links := by rw [extend.links, lastId_heard, same, ← lastId_heard]
  computed := extend.computed

/-- The ledger in the course of a replay against the records that it has read. -/
structure Replayed (preimages : Set Bytes) (inner : InMemoryLedger) (before : List SealedEvent) :
    Prop where
  sound : inner.Sound
  hashed : inner.HashedIn preimages
  streams : ∀ tenant, (inner.stream tenant).map heard =
    (before.filter (tenant = ·.draft.tenant)).map heard

theorem replayed_new (preimages : Set Bytes) : Replayed preimages .new [] where
  sound := InMemoryLedger.sound_new
  hashed := InMemoryLedger.hashedIn_new preimages
  streams tenant := by simp

theorem Replayed.reseal_eq (replayed : Replayed preimages inner before) (recorded : SealedEvent) :
    reseal inner recorded = linked before recorded := by
  rw [reseal, linked, InMemoryLedger.head_eq, lastId_heard, replayed.streams, ← lastId_heard]

theorem Replayed.seals_iff (replayed : Replayed preimages inner before) :
    inner.Seals (linked before recorded) ↔ Continues before recorded := by
  have same := replayed.streams recorded.draft.tenant
  exact replayed.sound.seals_iff.trans ⟨extends_congr same, extends_congr same.symm⟩

theorem Replayed.push (injective : Set.InjOn sha256 preimages)
    (replayed : Replayed preimages inner before) (continues : Continues before recorded)
    (inside : HashedRecord preimages before recorded) :
    Replayed preimages (inner.push (linked before recorded)) (record before recorded) where
  sound := by
    have seals := replayed.seals_iff.mpr continues
    exact replayed.sound.push seals
      (replayed.sound.unused injective seals (replayed.hashed.push inside))
  hashed := replayed.hashed.push inside
  streams := by
    intro tenant
    have own : (linked before recorded).draft.tenant = recorded.draft.tenant := rfl
    rw [InMemoryLedger.stream_push, own, record, List.filter_append]
    by_cases mine : tenant = recorded.draft.tenant
    · rw [if_pos mine, List.map_append, replayed.streams, List.map_append,
        List.filter_singleton, decide_eq_true mine]
      rfl
    · rw [if_neg mine, replayed.streams, List.filter_singleton, decide_eq_false mine]
      simp

/-- A replay accepts the records exactly when each of them continues those before it. -/
theorem Replayed.accepts_iff (injective : Set.InjOn sha256 preimages) {events : List SealedEvent}
    (replayed : Replayed preimages inner before)
    (hashed : Along record (HashedRecord preimages) before events) :
    inner.Accepts (resealed inner events) ↔ Along record Continues before events := by
  induction events generalizing inner before with
  | nil => exact Iff.rfl
  | cons recorded rest ih =>
    rw [resealed, InMemoryLedger.Accepts, Along, Along, replayed.reseal_eq, replayed.seals_iff]
    exact and_congr_right fun continues =>
      ih (replayed.push injective continues hashed.1) hashed.2

theorem Replayed.run (injective : Set.InjOn sha256 preimages) {events : List SealedEvent}
    (replayed : Replayed preimages inner before)
    (hashed : Along record (HashedRecord preimages) before events)
    (continues : Along record Continues before events) :
    Replayed preimages (run InMemoryLedger.push inner (resealed inner events))
      (run record before events) := by
  induction events generalizing inner before with
  | nil => exact replayed
  | cons recorded rest ih =>
    rw [resealed, Kit.run, Kit.run, replayed.reseal_eq]
    exact ih (replayed.push injective continues.1 hashed.1) hashed.2 continues.2

theorem accepts_iff_replayable (injective : Set.InjOn sha256 preimages) {events : List SealedEvent}
    (hashed : HashedRecords preimages events) :
    InMemoryLedger.new.Accepts (resealed .new events) ↔ Replayable events :=
  (replayed_new preimages).accepts_iff injective hashed

theorem hashed_replay (injective : Set.InjOn sha256 preimages) {events : List SealedEvent}
    (hashed : HashedRecords preimages events) (replayable : Replayable events) :
    (run InMemoryLedger.push .new (resealed .new events)).HashedIn preimages :=
  ((replayed_new preimages).run injective hashed replayable).hashed

end

section
variable [LedgerReader]

def readLine (line : Line) : Option SealedEvent := readSealed (String.ofList line)

/-- The events that the lines of a file record, when the file ends where a line ends. -/
def recordedEvents (file : Bytes) : Option (List SealedEvent) :=
  (wholeLines file).bind fun ls => ls.mapM readLine

theorem replay_eq_ok {ls : List Line} {index : Nat} {inner final : InMemoryLedger} :
    replay index ls inner = .ok final ↔ ∃ events, ls.mapM readLine = some events ∧
      inner.Accepts (resealed inner events) ∧
      final = run InMemoryLedger.push inner (resealed inner events) := by
  induction ls generalizing index inner with
  | nil => simp [replay, resealed, InMemoryLedger.Accepts, Along, run, eq_comm]
  | cons line ls ih =>
    unfold replay
    cases read : readSealed (String.ofList line) with
    | none => simp [readLine, read]
    | some recorded =>
      have reads : readLine line = some recorded := read
      simp only [List.mapM_cons, reads, Option.bind_eq_bind, Option.bind_some,
        Option.bind_eq_some_iff, Option.pure_def, Option.some.injEq]
      cases accepted : inner.append recorded.draft recorded.knowledgeTime with
      | error e =>
        refine iff_of_false (by simp) ?_
        rintro ⟨_, ⟨events, _, rfl⟩, accepts, _⟩
        have taken := accepted.symm.trans accepts.1
        contradiction
      | ok result =>
        obtain ⟨next, id⟩ := result
        obtain ⟨seals, rfl⟩ := InMemoryLedger.seals_of_append accepted
        by_cases same : id = recorded.eventId
        · subst same
          simp only [ne_eq, not_true_eq_false, if_false, ih]
          constructor
          · rintro ⟨events, rest, accepts, rebuilt⟩
            exact ⟨_, ⟨events, rest, rfl⟩, ⟨seals, accepts⟩, rebuilt⟩
          · rintro ⟨_, ⟨events, rest, rfl⟩, accepts, rebuilt⟩
            exact ⟨events, rest, accepts.2, rebuilt⟩
        · simp only [ne_eq, same, not_false_eq_true, if_true]
          refine iff_of_false (by simp) ?_
          rintro ⟨_, ⟨events, _, rfl⟩, accepts, _⟩
          exact same (congrArg Prod.snd (Except.ok.inj (accepted.symm.trans accepts.1)))

theorem open_eq_ok {file : Bytes} {inner : InMemoryLedger} :
    (∃ kept, «open» file = .ok ⟨inner, kept⟩) ↔ ∃ events, recordedEvents file = some events ∧
      InMemoryLedger.new.Accepts (resealed .new events) ∧
      inner = run InMemoryLedger.push .new (resealed .new events) := by
  have opens (kept : Bytes) : «open» file = .ok ⟨inner, kept⟩ ↔
      openLog (FileLedgerError.io "stream did not contain valid UTF-8") .tornTail
        (replay 0 · .new) file false = .ok (inner, kept) := by
    simp only [«open», openInternal, bind_eq_ok, pure_eq_ok, Prod.exists, FileLedger.mk.injEq,
      exists_eq_right_right, exists_eq_right]
  simp only [opens, exists_openLog_eq_ok, replay_eq_ok, recordedEvents]
  constructor
  · rintro ⟨ls, whole, events, reads, rebuilt⟩
    exact ⟨events, Option.bind_eq_some_iff.mpr ⟨ls, whole, reads⟩, rebuilt⟩
  · rintro ⟨events, recorded, rebuilt⟩
    obtain ⟨ls, whole, reads⟩ := Option.bind_eq_some_iff.mp recorded
    exact ⟨ls, whole, events, reads, rebuilt⟩

theorem refuses_iff {file : Bytes} {events : List SealedEvent}
    (recorded : recordedEvents file = some events) :
    (∃ e, «open» file = .error e) ↔ ¬ InMemoryLedger.new.Accepts (resealed .new events) := by
  rw [exists_error_iff, not_iff_not]
  constructor
  · rintro ⟨⟨inner, kept⟩, opened⟩
    obtain ⟨again, same, accepts, _⟩ := open_eq_ok.mp ⟨kept, opened⟩
    exact Option.some.inj (recorded.symm.trans same) ▸ accepts
  · intro accepts
    obtain ⟨kept, opened⟩ := open_eq_ok.mpr ⟨events, recorded, accepts, rfl⟩
    exact ⟨_, opened⟩

/-- A file opens exactly when each of its lines is a record that continues those before it. What
opens says what is loaded exactly when every record names its predecessor. Where records of
another file differ from it and every identity was kept, or what it is the hash of, the other file
is refused exactly when more differs than what is named as predecessor. -/
theorem loaded_as_recorded_iff {preimages : Set Bytes} (injective : Set.InjOn sha256 preimages)
    (file : Bytes)
    (hashed : ∀ events, recordedEvents file = some events → HashedRecords preimages events) :
    ((∃ loaded, «open» file = .ok loaded) ↔
      ∃ events, recordedEvents file = some events ∧ Replayable events) ∧
    ∀ loaded, «open» file = .ok loaded → ∃ events, recordedEvents file = some events ∧
      ((∀ tenant, loaded.stream tenant = events.filter (tenant = ·.draft.tenant)) ↔
        NamesPrevious events) ∧
      ∀ other altered, recordedEvents other = some altered → HashedRecords preimages altered →
        List.Forall₂ KeepsIdentity events altered →
        ((∃ e, «open» other = .error e) ↔ ¬ List.Forall₂ OnlyPrev events altered) := by
  constructor
  · constructor
    · rintro ⟨⟨inner, kept⟩, opened⟩
      obtain ⟨events, recorded, accepts, _⟩ := open_eq_ok.mp ⟨kept, opened⟩
      exact ⟨events, recorded,
        (accepts_iff_replayable injective (hashed events recorded)).mp accepts⟩
    · rintro ⟨events, recorded, replayable⟩
      have accepts := (accepts_iff_replayable injective (hashed events recorded)).mpr replayable
      obtain ⟨kept, opened⟩ := open_eq_ok.mpr ⟨events, recorded, accepts, rfl⟩
      exact ⟨_, opened⟩
  · rintro ⟨inner, kept⟩ opened
    obtain ⟨events, recorded, accepts, rfl⟩ := open_eq_ok.mp ⟨kept, opened⟩
    refine ⟨events, recorded, streams_iff accepts, fun other altered read inside keeps => ?_⟩
    rw [refuses_iff read, not_iff_not]
    constructor
    · intro again
      have replayable := (accepts_iff_replayable injective (hashed events recorded)).mp accepts
      have replayableAgain := (accepts_iff_replayable injective inside).mp again
      exact onlyPrev_of_accepts injective keeps accepts again
        (hashed_replay injective (hashed events recorded) replayable)
        (hashed_replay injective inside replayableAgain)
    · intro only
      rw [resealed_congr only]
      exact accepts

def logOf (events : List SealedEvent) : Bytes :=
  utf8 (String.ofList (logText (events.map recordLine)))

theorem recordedEvents_logOf {events : List SealedEvent}
    (integral : ∀ e ∈ events, Integral e.draft.payload.value) (shallow : ∀ e ∈ events, Shallow e) :
    recordedEvents (logOf events) = some events := by
  have printable : ∀ l ∈ events.map recordLine, Printable l := by
    simp only [List.forall_mem_map]
    exact fun e member => print_printable json _ (e.integral_record.mpr (integral e member))
  have reads : (events.map recordLine).mapM readLine = some events := by
    clear printable
    induction events with
    | nil => rfl
    | cons e rest ih =>
      obtain ⟨first, more⟩ := List.forall_mem_cons.mp integral
      obtain ⟨low, lower⟩ := List.forall_mem_cons.mp shallow
      have line : readLine (recordLine e) = some e :=
        (LedgerReader.readSealed_record e first).trans (if_pos ((shallow_iff e).mp low))
      simp [line, ih more lower]
  rw [logOf, recordedEvents, wholeLines_logText _ printable]
  exact reads

omit [LedgerReader] in
theorem resealed_of_accepts {inner : InMemoryLedger} {events : List SealedEvent}
    (accepts : inner.Accepts events) : resealed inner events = events := by
  induction events generalizing inner with
  | nil => rfl
  | cons e rest ih =>
    have same : reseal inner e = e := by rw [reseal, ← accepts.1.prev_eq]
    rw [resealed, same, ih accepts.2]

omit [LedgerReader] in
theorem names_of_accepts {events : List SealedEvent}
    (accepts : InMemoryLedger.new.Accepts events) : NamesPrevious events := by
  have again : InMemoryLedger.new.Accepts (resealed .new events) :=
    (resealed_of_accepts accepts).symm ▸ accepts
  refine (streams_iff again).mp fun tenant => ?_
  rw [resealed_of_accepts accepts, InMemoryLedger.stream_run, InMemoryLedger.stream_new,
    List.nil_append]

theorem open_onlyPrev {events altered : List SealedEvent}
    (accepts : InMemoryLedger.new.Accepts events) (only : List.Forall₂ OnlyPrev events altered)
    (recorded : recordedEvents (logOf altered) = some altered) :
    ∃ kept, «open» (logOf altered) = .ok ⟨run InMemoryLedger.push .new events, kept⟩ := by
  have again : resealed .new altered = events :=
    (resealed_congr only .new).trans (resealed_of_accepts accepts)
  exact open_eq_ok.mpr ⟨altered, recorded, again.symm ▸ accepts, again.symm ▸ rfl⟩

/-- Two tenants observe a balance, and one of them corrects it. The record of what it corrects
names any predecessor. -/
def sampleRecords (prev : ContentHash) : List SealedEvent :=
  [InMemoryLedger.firstEvent "beta", { InMemoryLedger.firstEvent "acme" with prev := prev },
    InMemoryLedger.correctedEvent "acme"]

omit [LedgerReader] in
theorem accepts_sample : InMemoryLedger.new.Accepts (sampleRecords (genesisHash ⟨"acme"⟩)) :=
  InMemoryLedger.accepts_corrections

omit [LedgerReader] in
theorem onlyPrev_sample (prev : ContentHash) :
    List.Forall₂ OnlyPrev (sampleRecords (genesisHash ⟨"acme"⟩)) (sampleRecords prev) :=
  .cons ⟨rfl, rfl, rfl⟩ (.cons ⟨rfl, rfl, rfl⟩ (.cons ⟨rfl, rfl, rfl⟩ .nil))

omit [LedgerReader] in
theorem own_sample (prev : ContentHash) :
    (sampleRecords prev).filter (⟨"acme"⟩ = ·.draft.tenant) =
      [{ InMemoryLedger.firstEvent "acme" with prev := prev }, InMemoryLedger.correctedEvent "acme"] := by
  simp [sampleRecords, InMemoryLedger.firstEvent, InMemoryLedger.correctedEvent,
    InMemoryLedger.corrected, InMemoryLedger.observed]

theorem recorded_sample (prev : ContentHash) :
    recordedEvents (logOf (sampleRecords prev)) = some (sampleRecords prev) := by
  apply recordedEvents_logOf
  · simp only [sampleRecords, List.forall_mem_cons]
    exact ⟨trivial, trivial, trivial, by simp⟩
  · simp [sampleRecords, Shallow, InMemoryLedger.firstEvent, InMemoryLedger.correctedEvent,
      InMemoryLedger.observed, InMemoryLedger.corrected, nesting, recursionLimit]

omit [LedgerReader] in
theorem hashed_sample (prev : ContentHash) :
    HashedRecords InMemoryLedger.sampled (sampleRecords prev) := by
  have first : (linked [] (InMemoryLedger.firstEvent "beta")).prev = genesisHash ⟨"beta"⟩ := rfl
  have second : (linked [InMemoryLedger.firstEvent "beta"]
      { InMemoryLedger.firstEvent "acme" with prev := prev }).prev = genesisHash ⟨"acme"⟩ := by
    simp [linked, InMemoryLedger.firstEvent, InMemoryLedger.observed]
  have third : (linked [InMemoryLedger.firstEvent "beta",
      { InMemoryLedger.firstEvent "acme" with prev := prev }]
      (InMemoryLedger.correctedEvent "acme")).prev = (InMemoryLedger.firstEvent "acme").eventId := by
    simp [linked, InMemoryLedger.firstEvent, InMemoryLedger.correctedEvent,
      InMemoryLedger.corrected, InMemoryLedger.observed, lastId]
  refine ⟨fun b written => ?_, fun b written => ?_, fun b written => ?_, trivial⟩
  · rw [first] at written
    have bytes := Except.ok.inj (written.symm.trans (InMemoryLedger.firstEvent_envelope "beta"))
    exact bytes ▸ InMemoryLedger.firstEnvelope_sampled (.inr rfl)
  · have written' := second ▸ written
    have bytes := Except.ok.inj (written'.symm.trans (InMemoryLedger.firstEvent_envelope "acme"))
    exact bytes ▸ InMemoryLedger.firstEnvelope_sampled (.inl rfl)
  · have written' := third ▸ written
    have bytes := Except.ok.inj
      (written'.symm.trans (InMemoryLedger.correctedEvent_envelope "acme"))
    exact bytes ▸ InMemoryLedger.correctedEnvelope_sampled

omit [External] [LedgerReader] in
theorem genesisHash_acme :
    letI : External := reference
    (.filled 9 : ContentHash) ≠ genesisHash ⟨"acme"⟩ := by decide +kernel

omit [External] [LedgerReader] in
/-- A log of three records of which only a predecessor was altered. -/
theorem altered_prev_loads :
    letI : External := reference
    letI : LedgerReader := referenceReader
    List.Forall₂ OnlyPrev (sampleRecords (genesisHash ⟨"acme"⟩)) (sampleRecords (.filled 9)) ∧
    sampleRecords (genesisHash ⟨"acme"⟩) ≠ sampleRecords (.filled 9) ∧
    ∃ loaded, «open» (logOf (sampleRecords (.filled 9))) = .ok loaded ∧
      recordedEvents (logOf (sampleRecords (.filled 9))) = some (sampleRecords (.filled 9)) ∧
      loaded.stream ⟨"acme"⟩ ≠
        (sampleRecords (.filled 9)).filter (⟨"acme"⟩ = ·.draft.tenant) := by
  let _ : External := reference
  let _ : LedgerReader := referenceReader
  have different : sampleRecords (genesisHash ⟨"acme"⟩) ≠ sampleRecords (.filled 9) := by
    intro same
    have second := (List.cons.inj (List.cons.inj same).2).1
    exact genesisHash_acme (congrArg SealedEvent.prev second).symm
  obtain ⟨kept, opened⟩ :=
    open_onlyPrev accepts_sample (onlyPrev_sample (.filled 9)) (recorded_sample (.filled 9))
  refine ⟨onlyPrev_sample _, different, _, opened, recorded_sample _, ?_⟩
  rw [FileLedger.stream, InMemoryLedger.stream_run, InMemoryLedger.stream_new, List.nil_append,
    own_sample, own_sample]
  intro same
  exact genesisHash_acme (congrArg SealedEvent.prev (List.cons.inj same).1).symm

omit [External] [LedgerReader] in
/-- The log of the three events as it was written says what is loaded, and with another predecessor
it is not refused. -/
theorem loaded_as_recorded_first :
    letI : External := reference
    letI : LedgerReader := referenceReader
    ∃ loaded, «open» (logOf (sampleRecords (genesisHash ⟨"acme"⟩))) = .ok loaded ∧
      (∀ tenant, loaded.stream tenant =
        (sampleRecords (genesisHash ⟨"acme"⟩)).filter (tenant = ·.draft.tenant)) ∧
      ¬ ∃ e, «open» (logOf (sampleRecords (.filled 9))) = .error e := by
  let _ : External := reference
  let _ : LedgerReader := referenceReader
  obtain ⟨kept, opened⟩ :=
    open_onlyPrev accepts_sample (onlyPrev_sample (genesisHash ⟨"acme"⟩)) (recorded_sample _)
  have hashed : ∀ events, recordedEvents (logOf (sampleRecords (genesisHash ⟨"acme"⟩))) =
      some events → HashedRecords InMemoryLedger.sampled events := by
    intro events recorded
    rw [← Option.some.inj ((recorded_sample _).symm.trans recorded)]
    exact hashed_sample _
  obtain ⟨events, recorded, streams, refused⟩ :=
    (loaded_as_recorded_iff InMemoryLedger.injOn_sampled _ hashed).2 _ opened
  obtain rfl := Option.some.inj ((recorded_sample _).symm.trans recorded)
  refine ⟨_, opened, streams.mpr (names_of_accepts accepts_sample), ?_⟩
  have keeps : List.Forall₂ KeepsIdentity (sampleRecords (genesisHash ⟨"acme"⟩))
      (sampleRecords (.filled 9)) :=
    .cons (.inl rfl) (.cons (.inl rfl) (.cons (.inl rfl) .nil))
  exact (refused _ _ (recorded_sample _) (hashed_sample _) keeps).not.mpr
    (not_not.mpr (onlyPrev_sample _))

end

end FileLedger

end Treasury
