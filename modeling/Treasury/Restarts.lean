import Treasury.Evidence.Cut
import Treasury.Ledger.Cut
import Treasury.Ledger.Loaded

/-! A process that keeps evidence and events in two files and, whenever its device fails, is
started again with recovery of both. Each call then has happened or it has not: it has if its
record was written whole. -/
namespace Treasury
open Kit Kit.Json

/-- The evidence-store hashes that a provenance names. -/
def Provenance.evidence : Provenance → List ContentHash
  | .observation _ evidence => [evidence]
  | .judgment _ _ evidence => evidence
  | .derived .. | .policyOutput .. => []

/-- Bytes for the store or an event for the ledger, and how far the device gets. -/
inductive DurableCall where
  | put (bytes : Bytes) (fault : Option Fault)
  | append (draft : EventDraft) (knowledgeTime : TimestampNs) (fault : Option Fault)

structure Durable where
  store : FileEvidenceStore
  ledger : FileLedger

/-- A process, which does not run any more once recovery has refused a file, and what it has
acknowledged: the digests of the bytes it was given and the events. -/
structure Process where
  live : Option Durable
  acked : List ContentHash
  booked : List SealedEvent

/-- The same calls without files. -/
structure Memory where
  store : InMemoryEvidenceStore
  ledger : InMemoryLedger

namespace Process
variable [External] [LedgerReader]

def reopen (store ledger : Bytes) : Option Durable :=
  match FileEvidenceStore.openWithRecovery store, FileLedger.openWithRecovery ledger with
  | .ok store, .ok ledger => some ⟨store, ledger⟩
  | _, _ => none

def fresh : Process := ⟨some ⟨⟨.new, []⟩, FileLedger.fresh⟩, [], []⟩

def step (p : Process) (call : DurableCall) : Process :=
  match p.live with
  | none => p
  | some ⟨store, ledger⟩ =>
    match call with
    | .put bytes fault =>
      match store.put bytes fault with
      | (store, .ok hash) => { p with live := some ⟨store, ledger⟩, acked := p.acked ++ [hash] }
      | (store, .error _) => { p with live := reopen store.file ledger.file }
    | .append draft knowledgeTime fault =>
      match ledger.append draft knowledgeTime fault with
      | (next, .ok id) =>
        { p with
          live := some ⟨store, next⟩
          booked := p.booked ++
            [⟨id, ledger.inner.head draft.tenant, knowledgeTime, draft⟩] }
      | (next, .error (.backend _)) => { p with live := reopen store.file next.file }
      -- the validations refused the draft, nothing was written
      | (_, .error _) => p

/-- An event that is accepted can be read back, and what its append leaves in the file is text
even if it is interrupted. -/
def Readable (p : Process) : DurableCall → Prop
  | .put .. => True
  | .append draft knowledgeTime fault => ∀ d ∈ p.live,
    (∃ result, d.ledger.inner.append draft knowledgeTime = .ok result) →
      2 + nesting draft.payload.value < recursionLimit ∧
        ValidUtf8 (d.ledger.append draft knowledgeTime fault).1.file

/-- The evidence that an event names is served when it is appended. -/
def Cites (p : Process) : DurableCall → Prop
  | .put .. => True
  | .append draft .. => ∀ d ∈ p.live, ∀ hash ∈ draft.provenance.evidence, d.store.inner.Serves hash

end Process

namespace Memory
variable [External]

def new : Memory := ⟨.new, .new⟩

/-- A call that wrote its record whole. -/
def step (m : Memory) : DurableCall → Memory
  | .put bytes fault =>
    if Whole fault (FileEvidenceStore.blobBytes bytes) then { m with store := (m.store.put bytes).1 }
    else m
  | .append draft knowledgeTime fault =>
    match m.ledger.append draft knowledgeTime with
    | .error _ => m
    | .ok (ledger, id) =>
      if Whole fault (FileLedger.recordBytes
          ⟨id, m.ledger.head draft.tenant, knowledgeTime, draft⟩) then { m with ledger }
      else m

end Memory

section
variable [External]

theorem InMemoryLedger.append_ne_backend (ledger : InMemoryLedger) (draft : EventDraft)
    (knowledgeTime : TimestampNs) (message : String) :
    ledger.append draft knowledgeTime ≠ .error (.backend message) := by
  have noTime : ledger.checkTime draft knowledgeTime ≠ .error (.backend message) := by
    unfold checkTime
    repeat' split
    all_goals simp
  have noTarget : ledger.checkSupersedes draft ≠ .error (.backend message) := by
    unfold checkSupersedes
    repeat' split
    all_goals simp
  unfold append
  split
  · simp
  · cases time : ledger.checkTime draft knowledgeTime with
    | error e =>
      intro failed
      cases failed
      exact noTime time
    | ok _ =>
      cases target : ledger.checkSupersedes draft with
      | error e =>
        intro failed
        cases failed
        exact noTarget target
      | ok _ =>
        dsimp only [bind, Except.bind]
        split <;> simp

namespace FileEvidenceStore
variable {store : FileEvidenceStore} {blobs : List Bytes}

theorem Stored.file_length (stored : Stored store blobs) :
    store.file = blobs.flatMap blobBytes := by
  rw [stored.file_eq, utf8_logText, List.flatMap_map]
  exact List.flatMap_congr fun blob _ => congrFun lineBytes_blobLine blob

theorem stored_ofBlobs (digests : (blobs.map sha256).Nodup) :
    Stored ⟨.ofBlobs blobs, blobs.flatMap blobBytes⟩ blobs := by
  refine ⟨?_, rfl, digests⟩
  rw [utf8_logText, List.flatMap_map]
  exact List.flatMap_congr fun blob _ => (congrFun lineBytes_blobLine blob).symm

theorem Stored.eq (stored : Stored store blobs) :
    store = ⟨.ofBlobs blobs, blobs.flatMap blobBytes⟩ := by
  rw [← stored.file_length, ← stored.inner_eq]

theorem Stored.reopens (stored : Stored store blobs) :
    openWithRecovery store.file = .ok store := by
  have length := congrArg List.length stored.file_length
  have all := within_append blobBytes blobs [] 0
  rw [List.append_nil, within, List.append_nil, Nat.add_zero, ← length] at all
  have opened := stored.open_cut (Nat.le_refl _) true
  rw [List.take_length, if_pos (.inr rfl), all, ← stored.eq] at opened
  exact opened

theorem Stored.recovers_part (stored : Stored store blobs) {blob : Bytes}
    (new : sha256 blob ∉ blobs.map sha256) (fault : Option Fault) :
    ∃ reopened, openWithRecovery (store.file ++ reached fault (blobBytes blob)) = .ok reopened ∧
      Stored reopened (if Whole fault (blobBytes blob) then blobs ++ [blob] else blobs) := by
  have full : Stored (store.putCall (blob, none)) (blobs ++ [blob]) := by
    have written := stored.put (succeeds_without_fault store blob)
    rwa [if_neg new] at written
  obtain ⟨n, inFile, cut, kept⟩ := exists_cut_reached blobBytes blobs blob fault
  rw [← full.file_length] at inFile cut
  have opened := full.open_cut inFile true
  rw [cut, ← stored.file_length, if_pos (.inr rfl), kept] at opened
  refine ⟨_, opened, stored_ofBlobs ?_⟩
  split
  · exact full.digests
  · exact stored.digests

end FileEvidenceStore

namespace FileLedger
variable {ledger : FileLedger} {events : List SealedEvent}

theorem Logged.file_length (logged : Logged ledger events) :
    ledger.file = events.flatMap recordBytes := by
  rw [logged.file_eq, utf8_logText, List.flatMap_map]
  rfl

theorem Logged.recovers_part [LedgerReader] (logged : Logged ledger events)
    (shallow : ∀ e ∈ events, Shallow e) {e : SealedEvent} (seals : ledger.inner.Seals e)
    (low : Shallow e) (fault : Option Fault)
    (valid : ValidUtf8 (ledger.file ++ reached fault (recordBytes e))) :
    ∃ reopened, openWithRecovery (ledger.file ++ reached fault (recordBytes e)) = .ok reopened ∧
      Logged reopened (if Whole fault (recordBytes e) then events ++ [e] else events) := by
  have full := logged.append seals
  have sound : Session.Sound ⟨(ledger.append e.draft e.knowledgeTime none).1, events ++ [e]⟩ := by
    refine ⟨full, fun other member => ?_⟩
    rcases List.mem_append.mp member with old | new
    · exact shallow other old
    · exact List.mem_singleton.mp new ▸ low
  obtain ⟨n, inFile, cut, kept⟩ := exists_cut_reached recordBytes events e fault
  rw [← full.file_length] at inFile cut
  rw [← logged.file_length] at cut
  have opened := sound.open_cut inFile (cut ▸ valid) true
  rw [cut, if_pos (.inr rfl), kept] at opened
  refine ⟨_, opened, ?_, ?_, rfl⟩
  · rw [utf8_logText, List.flatMap_map]
    rfl
  · split
    · exact full.accepts
    · exact logged.accepts

end FileLedger

namespace Process

/-- The files of the process hold what is in memory, and in memory is what the calls without
files have led to. -/
structure Holding (store : FileEvidenceStore) (ledger : FileLedger) (blobs : List Bytes)
    (events : List SealedEvent) (p : Process) (m : Memory) : Prop where
  live : p.live = some ⟨store, ledger⟩
  stored : store.Stored blobs
  logged : ledger.Logged events
  shallow : ∀ e ∈ events, FileLedger.Shallow e
  store_eq : store.inner = m.store
  ledger_eq : ledger.inner = m.ledger
  acked : ∀ hash ∈ p.acked, hash ∈ blobs.map sha256
  booked : p.booked.Sublist events

def Mirrors (p : Process) (m : Memory) : Prop :=
  ∃ store ledger blobs events, Holding store ledger blobs events p m

theorem mirrors_fresh : Mirrors fresh .new :=
  ⟨_, _, [], [], rfl, FileEvidenceStore.stored_new, FileLedger.logged_new, by simp, rfl, rfl,
    by simp [fresh], List.Sublist.slnil⟩

variable [LedgerReader] {p : Process} {m : Memory} {store : FileEvidenceStore} {ledger : FileLedger}
  {blobs : List Bytes} {events : List SealedEvent}

theorem reopen_stored (stored : store.Stored blobs) {bytes : Bytes} {reopened : FileLedger}
    (recovered : FileLedger.openWithRecovery bytes = .ok reopened) :
    reopen store.file bytes = some ⟨store, reopened⟩ := by
  rw [reopen, stored.reopens, recovered]

theorem reopen_logged (logged : ledger.Logged events) (shallow : ∀ e ∈ events, FileLedger.Shallow e)
    {bytes : Bytes} {reopened : FileEvidenceStore}
    (recovered : FileEvidenceStore.openWithRecovery bytes = .ok reopened) :
    reopen bytes ledger.file = some ⟨reopened, ledger⟩ := by
  have opened : FileLedger.openWithRecovery ledger.file = .ok ledger :=
    (logged.open_iff true).mpr ⟨shallow, rfl⟩
  rw [reopen, opened, recovered]

theorem Holding.put_known (holding : Holding store ledger blobs events p m) {bytes : Bytes}
    (known : sha256 bytes ∈ blobs.map sha256) (fault : Option Fault) :
    Mirrors (p.step (.put bytes fault)) (m.step (.put bytes fault)) := by
  have found := (holding.stored.entries.known _).mpr known
  have same := FileEvidenceStore.put_known fault found
  obtain ⟨old, entry⟩ := Option.isSome_iff_exists.mp found
  rw [holding.store_eq] at entry
  have still : m.step (.put bytes fault) = m := by
    rw [Memory.step, InMemoryEvidenceStore.put_known entry, ite_self]
  rw [still, step, holding.live]
  simp only [same]
  refine ⟨store, ledger, blobs, events, { holding with live := rfl, acked := fun hash member => ?_ }⟩
  rcases List.mem_append.mp member with before | now
  · exact holding.acked hash before
  · exact List.mem_singleton.mp now ▸ known

theorem Holding.put_new (holding : Holding store ledger blobs events p m) {bytes : Bytes}
    (new : sha256 bytes ∉ blobs.map sha256) (fault : Option Fault) :
    Mirrors (p.step (.put bytes fault)) (m.step (.put bytes fault)) := by
  have written := FileEvidenceStore.put_fresh fault (holding.stored.entries.fresh new)
  have later : ∀ kept : List Bytes, blobs <+: kept → ∀ hash ∈ p.acked, hash ∈ kept.map sha256 :=
    fun kept front hash member => (front.map sha256).subset (holding.acked hash member)
  cases fault with
  | none =>
    have whole : Whole none (FileEvidenceStore.blobBytes bytes) := by simp [Whole]
    have stored := holding.stored.put (FileEvidenceStore.succeeds_without_fault store bytes)
    rw [if_neg new, FileEvidenceStore.putCall, written] at stored
    rw [Memory.step, if_pos whole, step, holding.live]
    simp only [written]
    refine ⟨_, ledger, blobs ++ [bytes], events, { holding with
      live := rfl, stored, store_eq := ?_, acked := fun hash member => ?_ }⟩
    · dsimp only
      rw [holding.store_eq]
    · rcases List.mem_append.mp member with before | now
      · exact later _ (List.prefix_append _ _) hash before
      · rw [List.mem_singleton.mp now]
        exact List.mem_map_of_mem (List.mem_append_right _ (List.mem_singleton_self _))
  | some f =>
    obtain ⟨reopened, recovered, stored⟩ := holding.stored.recovers_part new (some f)
    have again := reopen_logged holding.logged holding.shallow recovered
    rw [step, holding.live]
    simp only [written]
    rw [FileEvidenceStore.blobBytes] at again
    rw [again]
    by_cases whole : Whole (some f) (FileEvidenceStore.blobBytes bytes)
    · rw [if_pos whole] at stored
      rw [Memory.step, if_pos whole]
      refine ⟨reopened, ledger, blobs ++ [bytes], events, { holding with
        live := rfl, stored, store_eq := ?_, acked := later _ (List.prefix_append _ _) }⟩
      rw [stored.inner_eq, InMemoryEvidenceStore.ofBlobs_concat, ← holding.stored.inner_eq,
        holding.store_eq]
    · rw [if_neg whole] at stored
      rw [Memory.step, if_neg whole]
      refine ⟨reopened, ledger, blobs, events, { holding with live := rfl, stored, store_eq := ?_ }⟩
      rw [stored.inner_eq, ← holding.stored.inner_eq, holding.store_eq]

theorem Holding.append_refused (holding : Holding store ledger blobs events p m)
    {draft : EventDraft} {t : TimestampNs} {e : LedgerError}
    (refused : ledger.inner.append draft t = .error e) (fault : Option Fault) :
    Mirrors (p.step (.append draft t fault)) (m.step (.append draft t fault)) := by
  have same := FileLedger.append_rejected refused fault
  have noBackend (message : String) : e ≠ .backend message := by
    rintro rfl
    exact ledger.inner.append_ne_backend draft t message refused
  have still : m.step (.append draft t fault) = m := by
    rw [Memory.step, ← holding.ledger_eq, refused]
  have kept : p.step (.append draft t fault) = p := by
    rw [step, holding.live]
    simp only [same]
  rw [still, kept]
  exact ⟨store, ledger, blobs, events, holding⟩

theorem Holding.append_sealed (holding : Holding store ledger blobs events p m) {e : SealedEvent}
    (seals : ledger.inner.Seals e) {fault : Option Fault}
    (readable : p.Readable (.append e.draft e.knowledgeTime fault)) :
    Mirrors (p.step (.append e.draft e.knowledgeTime fault))
      (m.step (.append e.draft e.knowledgeTime fault)) := by
  have accepted : ledger.inner.append e.draft e.knowledgeTime =
    .ok (ledger.inner.push e, e.eventId) := seals
  have written := FileLedger.append_sealed seals fault
  obtain ⟨low, valid⟩ := readable _ holding.live ⟨_, accepted⟩
  have same : (⟨e.eventId, ledger.inner.head e.draft.tenant, e.knowledgeTime, e.draft⟩ : SealedEvent) =
      e := by rw [← seals.prev_eq]
  have shallow : ∀ other ∈ events ++ [e], FileLedger.Shallow other := fun other member =>
    (List.mem_append.mp member).elim (holding.shallow other)
      fun now => List.mem_singleton.mp now ▸ low
  have mirrored : m.step (.append e.draft e.knowledgeTime fault) =
      if Whole fault (FileLedger.recordBytes e) then { m with ledger := ledger.inner.push e }
      else m := by
    rw [Memory.step, ← holding.ledger_eq, accepted]
    dsimp only
    rw [same]
  cases fault with
  | none =>
    have logged := holding.logged.append seals
    rw [written] at logged
    rw [mirrored, if_pos (by simp [Whole]), step, holding.live]
    simp only [written, same]
    exact ⟨store, _, blobs, events ++ [e], { holding with
      live := rfl, logged, shallow, ledger_eq := rfl
      booked := holding.booked.append_right [e] }⟩
  | some f =>
    rw [written] at valid
    obtain ⟨reopened, recovered, logged⟩ :=
      holding.logged.recovers_part holding.shallow seals low (some f) valid
    have again := reopen_stored holding.stored recovered
    rw [mirrored, step, holding.live]
    simp only [written]
    rw [again]
    by_cases whole : Whole (some f) (FileLedger.recordBytes e)
    · rw [if_pos whole] at logged ⊢
      refine ⟨store, reopened, blobs, events ++ [e], { holding with
        live := rfl, logged, shallow, ledger_eq := ?_
        booked := holding.booked.trans (List.sublist_append_left _ _) }⟩
      rw [logged.inner_eq, run_append, ← holding.logged.inner_eq]
      rfl
    · rw [if_neg whole] at logged ⊢
      refine ⟨store, reopened, blobs, events, { holding with live := rfl, logged, ledger_eq := ?_ }⟩
      rw [logged.inner_eq, ← holding.logged.inner_eq, holding.ledger_eq]

theorem mirrors_step (mirrors : Mirrors p m) (call : DurableCall) (readable : p.Readable call) :
    Mirrors (p.step call) (m.step call) := by
  obtain ⟨store, ledger, blobs, events, holding⟩ := mirrors
  cases call with
  | put bytes fault =>
    by_cases known : sha256 bytes ∈ blobs.map sha256
    · exact holding.put_known known fault
    · exact holding.put_new known fault
  | append draft t fault =>
    rcases FileLedger.append_cases ledger draft t with ⟨e, refused⟩ | ⟨e, seals, rfl, rfl⟩
    · exact holding.append_refused refused fault
    · exact holding.append_sealed seals readable

theorem mirrors_run {calls : List DurableCall} (readable : Along step Readable fresh calls) :
    Mirrors (run step fresh calls) (run Memory.step .new calls) :=
  run_simulates step Memory.step Readable Mirrors
    (fun _ _ call mirrors readable => mirrors_step mirrors call readable) calls _ _ mirrors_fresh
    readable

/-- A draft that the reader takes, and an append that is not interrupted or is before its first
byte. -/
def Early : DurableCall → Prop
  | .put .. => True
  | .append draft _ fault => 2 + nesting draft.payload.value < recursionLimit ∧
    ∀ f ∈ fault, f.after = 0

omit [LedgerReader] in
theorem Mirrors.readable (mirrors : Mirrors p m) {call : DurableCall} (early : Early call) :
    p.Readable call := by
  cases call with
  | put => trivial
  | append draft t fault =>
    obtain ⟨store, ledger, blobs, events, holding⟩ := mirrors
    rintro d live ⟨result, accepted⟩
    cases live.symm.trans holding.live
    obtain ⟨seals, -⟩ := InMemoryLedger.seals_of_append accepted
    refine ⟨early.1, validUtf8_iff.mpr ?_⟩
    have written := FileLedger.append_sealed seals fault
    dsimp only at written
    rw [written]
    dsimp only
    rw [holding.logged.file_eq]
    cases fault with
    | none => exact ⟨_, (utf8_ofList_append _ _).symm⟩
    | some f =>
      rw [reached, early.2 f rfl, List.take_zero, List.append_nil]
      exact ⟨_, rfl⟩

theorem readable_of_early {calls : List DurableCall} (early : ∀ call ∈ calls, Early call) :
    Along step Readable fresh calls := by
  have along : ∀ p m, Mirrors p m → Along step Readable p calls := by
    induction calls with
    | nil => exact fun _ _ _ => trivial
    | cons call calls ih =>
      intro p m mirrors
      rw [List.forall_mem_cons] at early
      have readable := mirrors.readable early.1
      exact ⟨readable, ih early.2 _ _ (mirrors_step mirrors call readable)⟩
  exact along _ _ mirrors_fresh

def balanceFrom (evidence : ContentHash) : EventDraft :=
  ⟨⟨"acme"⟩, .observation, ⟨0⟩, none, .observation ⟨"coinbase-prime"⟩ evidence,
    ⟨arrays 0, (arrays_shape 0).2.1⟩⟩

def interruptedCalls : List DurableCall :=
  [.put [97] none,
    .append (balanceFrom (sha256 [97])) ⟨0⟩ (some ⟨0, "no space left on device"⟩),
    .append (balanceFrom (sha256 [97])) ⟨0⟩ none]

omit [LedgerReader] in
theorem early_interrupted : ∀ call ∈ interruptedCalls, Early call := by
  have low : 2 + nesting (arrays 0) < recursionLimit := by decide
  simp [interruptedCalls, Early, balanceFrom, low]

/-- However often the device fails and in whatever record, the process always starts again and
has what the calls had led to that wrote their records whole, one after another. All that was
acknowledged is there. -/
theorem restarts_atomic (calls : List DurableCall) (readable : Along step Readable fresh calls) :
    ∃ store ledger, (run step fresh calls).live = some ⟨store, ledger⟩ ∧
      store.inner = (run Memory.step .new calls).store ∧
      ledger.inner = (run Memory.step .new calls).ledger ∧
      (∀ hash ∈ (run step fresh calls).acked, store.inner.Serves hash) ∧
      ∀ tenant, ledger.inner.verifyChain tenant = .ok () ∧
        ((run step fresh calls).booked.filter (tenant = ·.draft.tenant)).Sublist
          (ledger.stream tenant) := by
  obtain ⟨store, ledger, blobs, events, holding⟩ := mirrors_run readable
  refine ⟨store, ledger, holding.live, holding.store_eq, holding.ledger_eq,
    fun hash member => ?_, fun tenant => ⟨?_, ?_⟩⟩
  · obtain ⟨blob, kept, rfl⟩ := List.mem_map.mp (holding.acked hash member)
    exact ⟨blob, holding.stored.entries.found blob kept, rfl⟩
  · rw [holding.logged.inner_eq]
    exact FileLedger.verified_run InMemoryLedger.sound_new.verified holding.logged.accepts tenant
  · rw [FileLedger.stream, holding.logged.inner_eq, InMemoryLedger.stream_run,
      InMemoryLedger.stream_new, List.nil_append]
    exact holding.booked.filter _

omit [External] [LedgerReader] in
theorem restarts_atomic_interrupted :
    letI : External := reference
    letI : LedgerReader := referenceReader
    ∃ store ledger, (run step fresh interruptedCalls).live = some ⟨store, ledger⟩ ∧
      ledger.inner = (run Memory.step .new interruptedCalls).ledger := by
  let _ : External := reference
  let _ : LedgerReader := referenceReader
  obtain ⟨store, ledger, live, -, same, -⟩ :=
    restarts_atomic interruptedCalls (readable_of_early early_interrupted)
  exact ⟨store, ledger, live, same⟩

end Process

namespace Memory

/-- All evidence that the events name is served. -/
def Cited (m : Memory) : Prop :=
  m.store.Addressed ∧ ∀ tenant, ∀ e ∈ m.ledger.stream tenant,
    ∀ hash ∈ e.draft.provenance.evidence, m.store.Serves hash

theorem cited_new : new.Cited :=
  ⟨InMemoryEvidenceStore.addressed_new, fun tenant e member => by simp [new] at member⟩

theorem append_cases (m : Memory) (draft : EventDraft) (t : TimestampNs) (fault : Option Fault) :
    m.step (.append draft t fault) = m ∨ ∃ e, e.draft = draft ∧
      m.step (.append draft t fault) = { m with ledger := m.ledger.push e } := by
  rw [step]
  cases appended : m.ledger.append draft t with
  | error e => exact .inl rfl
  | ok result =>
    obtain ⟨ledger, id⟩ := result
    obtain ⟨-, -, -, -, rfl⟩ := InMemoryLedger.append_eq_ok.mp appended
    dsimp only
    split
    · exact .inr ⟨_, rfl, rfl⟩
    · exact .inl rfl

theorem append_store (m : Memory) (draft : EventDraft) (t : TimestampNs) (fault : Option Fault) :
    (m.step (.append draft t fault)).store = m.store := by
  rcases m.append_cases draft t fault with same | ⟨e, -, pushed⟩
  · rw [same]
  · rw [pushed]

theorem Cited.put {m : Memory} (cited : m.Cited) (bytes : Bytes) :
    Cited { m with store := (m.store.put bytes).1 } := by
  obtain ⟨addressed, served⟩ := cited
  have kept := InMemoryEvidenceStore.addressed_put addressed bytes
  refine ⟨kept, fun tenant e member hash named => ?_⟩
  have before := (InMemoryEvidenceStore.serves_iff addressed hash).mp
    (served tenant e member hash named)
  exact (InMemoryEvidenceStore.serves_iff kept hash).mpr
    ((InMemoryEvidenceStore.lookup_put_isSome _ _ _).mpr (.inr before))

theorem Cited.push {m : Memory} (cited : m.Cited) {e : SealedEvent}
    (cites : ∀ hash ∈ e.draft.provenance.evidence, m.store.Serves hash) :
    Cited { m with ledger := m.ledger.push e } := by
  obtain ⟨addressed, served⟩ := cited
  refine ⟨addressed, fun tenant other member hash named => ?_⟩
  dsimp only at member
  rw [InMemoryLedger.stream_push] at member
  split at member
  · rcases List.mem_append.mp member with old | now
    · exact served tenant other old hash named
    · rw [List.mem_singleton.mp now] at named
      exact cites hash named
  · exact served tenant other member hash named

theorem Cited.step {m : Memory} (cited : m.Cited) (call : DurableCall)
    (cites : ∀ draft t fault, call = .append draft t fault →
      ∀ hash ∈ draft.provenance.evidence, m.store.Serves hash) : (m.step call).Cited := by
  cases call with
  | put bytes fault =>
    by_cases whole : Whole fault (FileEvidenceStore.blobBytes bytes)
    · rw [Memory.step, if_pos whole]
      exact cited.put bytes
    · rw [Memory.step, if_neg whole]
      exact cited
  | append draft t fault =>
    rcases m.append_cases draft t fault with same | ⟨e, rfl, pushed⟩
    · rw [same]
      exact cited
    · rw [pushed]
      exact cited.push (cites e.draft t fault rfl)

end Memory

namespace Process
variable [LedgerReader]

/-- No event that is there after any number of restarts names evidence that is not, if each named
only evidence that was served when it was appended. -/
theorem evidence_outlives (calls : List DurableCall)
    (readable : Along step Readable fresh calls) (cites : Along step Cites fresh calls) :
    ∃ store ledger, (run step fresh calls).live = some ⟨store, ledger⟩ ∧
      ∀ tenant, ∀ e ∈ ledger.stream tenant, ∀ hash ∈ e.draft.provenance.evidence,
        store.inner.Serves hash := by
  have both := run_simulates step Memory.step (fun p call => p.Readable call ∧ p.Cites call)
    (fun p m => Mirrors p m ∧ m.Cited) (fun p m call related admitted => ?_) calls fresh .new
    ⟨mirrors_fresh, Memory.cited_new⟩ (readable.and cites)
  · obtain ⟨⟨store, ledger, blobs, events, holding⟩, -, served⟩ := both
    rw [← holding.store_eq, ← holding.ledger_eq] at served
    exact ⟨store, ledger, holding.live, served⟩
  · obtain ⟨mirrors, cited⟩ := related
    refine ⟨mirrors_step mirrors call admitted.1, cited.step call ?_⟩
    rintro draft t fault rfl hash named
    obtain ⟨store, ledger, blobs, events, holding⟩ := mirrors
    exact holding.store_eq ▸ admitted.2 _ holding.live hash named

omit [LedgerReader] in
theorem Mirrors.cites {p : Process} {m : Memory} (mirrors : Mirrors p m) {draft : EventDraft}
    (served : ∀ hash ∈ draft.provenance.evidence, m.store.Serves hash) (t : TimestampNs)
    (fault : Option Fault) : p.Cites (.append draft t fault) := by
  obtain ⟨store, ledger, blobs, events, holding⟩ := mirrors
  rintro d live hash named
  cases live.symm.trans holding.live
  exact holding.store_eq ▸ served hash named

theorem cites_interrupted : Along step Cites fresh interruptedCalls := by
  have served : ∀ hash ∈ (balanceFrom (sha256 [97])).provenance.evidence,
      (Memory.new.step (.put [97] none)).store.Serves hash := by
    intro hash named
    rw [List.mem_singleton.mp named, Memory.step, if_pos (by simp [Whole])]
    have kept := InMemoryEvidenceStore.addressed_put InMemoryEvidenceStore.addressed_new [97]
    exact (InMemoryEvidenceStore.serves_iff kept _).mpr
      ((InMemoryEvidenceStore.lookup_put_isSome _ _ _).mpr (.inl rfl))
  have early := early_interrupted
  simp only [interruptedCalls, List.forall_mem_cons] at early
  have first := mirrors_step mirrors_fresh (.put [97] none) trivial
  have second := mirrors_step first _ (first.readable early.2.1)
  simp only [interruptedCalls, Along]
  refine ⟨trivial, first.cites served _ _, second.cites ?_ _ _, trivial⟩
  rw [Memory.append_store]
  exact served

omit [External] [LedgerReader] in
theorem evidence_outlives_interrupted :
    letI : External := reference
    letI : LedgerReader := referenceReader
    ∃ store ledger, (run step fresh interruptedCalls).live = some ⟨store, ledger⟩ ∧
      ∀ tenant, ∀ e ∈ ledger.stream tenant, ∀ hash ∈ e.draft.provenance.evidence,
        store.inner.Serves hash :=
  @evidence_outlives reference referenceReader _
    (@readable_of_early reference referenceReader _ (@early_interrupted reference))
    (@cites_interrupted reference referenceReader)

end Process

end

end Treasury
