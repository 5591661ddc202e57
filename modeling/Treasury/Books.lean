import Treasury.Close.Isolation
import Treasury.Close.Root
import Treasury.Kit.Beside
import Treasury.Ledger.Isolation
import Treasury.Policy.Isolation

/-! The books that all tenants share: the ledger, the checkpoints and the policies, under calls
in any order. -/
namespace Treasury
open Kit

abbrev Books := (InMemoryLedger × CheckpointDag) × PolicyRegistry

abbrev BooksCall :=
  ((EventDraft × TimestampNs) ⊕ (CheckpointDraft × TimestampNs)) ⊕ PolicyRegistry.RegistryCall

namespace Books

def new : Books := ((.new, .new), .new)

abbrev ledger (books : Books) : InMemoryLedger := books.1.1

abbrev dag (books : Books) : CheckpointDag := books.1.2

abbrev registry (books : Books) : PolicyRegistry := books.2

/-- A tenant's own appends, sealings and activations, and every registration. -/
abbrev Own (tenant : TenantId) : BooksCall → Prop :=
  Sum.elim (Sum.elim (InMemoryLedger.OwnCall tenant) (CheckpointDag.OwnSeal tenant))
    (PolicyRegistry.OwnPolicy tenant)

variable [External]

def step : Books → BooksCall → Books :=
  beside (beside InMemoryLedger.appendCall CheckpointDag.sealCall) (advance PolicyRegistry.perform)

def answer : Books → BooksCall →
    (Option EventId ⊕ Option CheckpointId) ⊕ Except RegistryError Unit :=
  outBeside (outBeside InMemoryLedger.appendId CheckpointDag.sealId)
    fun registry call => (registry.perform call).2

/-- Everything hashed for the events and for the checkpoints is among the byte strings. -/
structure HashedIn (books : Books) (events checkpoints : Set Bytes) : Prop where
  ledger : books.ledger.HashedIn events
  dag : books.dag.HashedIn checkpoints

structure Sound (books : Books) : Prop where
  ledger : books.ledger.Sound
  dag : books.dag.Sound

theorem ledger_run (books : Books) (calls : List BooksCall) : (run step books calls).ledger =
    run InMemoryLedger.appendCall books.ledger
      ((calls.filterMap Sum.getLeft?).filterMap Sum.getLeft?) := by
  rw [ledger, step, run_beside, run_beside]

theorem dag_run (books : Books) (calls : List BooksCall) : (run step books calls).dag =
    run CheckpointDag.sealCall books.dag
      ((calls.filterMap Sum.getLeft?).filterMap Sum.getRight?) := by
  rw [dag, step, run_beside, run_beside]

theorem registry_run (books : Books) (calls : List BooksCall) :
    (run step books calls).registry =
      run (advance PolicyRegistry.perform) books.registry (calls.filterMap Sum.getRight?) := by
  rw [registry, step, run_beside]

section
variable {events checkpoints : Set Bytes}

theorem sound_along (apart : Set.InjOn sha256 events) (separate : Set.InjOn sha256 checkpoints)
    {calls : List BooksCall} (hashed : (run step new calls).HashedIn events checkpoints) :
    Throughout step Sound new calls := by
  obtain ⟨appended, filed⟩ := hashed
  rw [ledger_run] at appended
  rw [dag_run] at filed
  have pair : Throughout (beside InMemoryLedger.appendCall CheckpointDag.sealCall)
      (fun both => both.1.Sound ∧ both.2.Sound) new.1 (calls.filterMap Sum.getLeft?) :=
    throughout_beside _ _ _ _ (InMemoryLedger.sound_throughout apart appended)
      (CheckpointDag.sound_along separate filed)
  have policies : Throughout (advance PolicyRegistry.perform) (fun _ => True) new.2
      (calls.filterMap Sum.getRight?) := (throughout_iff_prefixes ..).mpr fun _ _ => trivial
  have whole : Throughout step (fun books => (books.1.1.Sound ∧ books.1.2.Sound) ∧ True) new
      calls := throughout_beside _ _ _ _ pair policies
  exact whole.imp fun _ sound => ⟨sound.1.1, sound.1.2⟩

theorem unwinds_books (tenant : TenantId) :
    Unwinds step answer (Own tenant)
      (Prod.map (Prod.map (·.stream tenant) (CheckpointDag.lineagesOf tenant))
        (PolicyRegistry.policiesOf tenant)) Sound := by
  have whole := ((InMemoryLedger.unwinds_tenant tenant).beside
    (CheckpointDag.unwinds_lineages tenant)).beside (PolicyRegistry.unwinds_policies tenant)
  constructor
  · exact fun books call sound => whole.respects books call ⟨⟨sound.ledger, sound.dag⟩, trivial⟩
  · exact fun books other call sound soundOther => whole.consistent books other call
      ⟨⟨sound.ledger, sound.dag⟩, trivial⟩ ⟨⟨soundOther.ledger, soundOther.dag⟩, trivial⟩

/-- What a tenant can ask of the books. -/
structure Alike (tenant : TenantId) (l m : Books) : Prop where
  stream : l.ledger.stream tenant = m.ledger.stream tenant
  active : ∀ time, l.ledger.asOf tenant time = m.ledger.asOf tenant time
  verdict : l.ledger.verifyChain tenant = m.ledger.verifyChain tenant
  lineage : ∀ period, l.dag.lineage (tenant, period) = m.dag.lineage (tenant, period)
  asFiled : ∀ period, l.dag.asFiled (tenant, period) = m.dag.asFiled (tenant, period)
  head : ∀ period, l.dag.head (tenant, period) = m.dag.head (tenant, period)
  artifact : ∀ hash, l.registry.artifact hash = m.registry.artifact hash
  inForce : ∀ kind time, l.registry.activeAt tenant kind time = m.registry.activeAt tenant kind time

theorem alike_of_view {tenant : TenantId} {l m : Books} (soundL : l.Sound) (soundM : m.Sound)
    (same : Prod.map (Prod.map (·.stream tenant) (CheckpointDag.lineagesOf tenant))
      (PolicyRegistry.policiesOf tenant) l = Prod.map (Prod.map (·.stream tenant)
        (CheckpointDag.lineagesOf tenant)) (PolicyRegistry.policiesOf tenant) m) :
    Alike tenant l m := by
  obtain ⟨shared, policies⟩ := Prod.ext_iff.mp same
  obtain ⟨streams, lineages⟩ := Prod.ext_iff.mp shared
  obtain ⟨artifacts, timelines⟩ := Prod.ext_iff.mp policies
  have stream : l.ledger.stream tenant = m.ledger.stream tenant := streams
  have lineage (period : PeriodId) : l.dag.lineage (tenant, period) =
      m.dag.lineage (tenant, period) := congrFun lineages period
  constructor
  case stream => exact stream
  case active =>
    intro time
    simp only [InMemoryLedger.asOf, stream]
  case verdict => simp only [InMemoryLedger.verifyChain, stream]
  case lineage => exact lineage
  case asFiled =>
    intro period
    simp only [CheckpointDag.asFiled, lineage]
  case head =>
    intro period
    rw [soundL.dag.head_eq, soundM.dag.head_eq, lineage]
  case artifact => exact fun hash => congrArg (Finmap.lookup hash) artifacts
  case inForce =>
    intro kind time
    rw [PolicyRegistry.activeAt_eq, PolicyRegistry.activeAt_eq]
    exact congrArg (fun timeline => (latestAt _ time timeline).map _) (congrFun timelines kind)

/-- Whatever other tenants append, seal and activate and however all calls are interleaved, a
tenant's calls are answered alike, and after the same calls of its own it finds the same events,
the same checkpoints and the same policies in force. -/
theorem tenants_apart (apart : Set.InjOn sha256 events) (separate : Set.InjOn sha256 checkpoints)
    (tenant : TenantId) (calls others : List BooksCall)
    (hashed : (run step new calls).HashedIn events checkpoints)
    (hashedOthers : (run step new others).HashedIn events checkpoints)
    (same : calls.filter (Own tenant) = others.filter (Own tenant)) :
    answers step answer (Own tenant) new calls = answers step answer (Own tenant) new others ∧
      ∀ first second, first <+: calls → second <+: others →
        first.filter (Own tenant) = second.filter (Own tenant) →
          Alike tenant (run step new first) (run step new second) := by
  have sound := sound_along apart separate hashed
  have soundOthers := sound_along apart separate hashedOthers
  refine ⟨(unwinding (unwinds_books tenant) sound soundOthers rfl same).1, ?_⟩
  intro first second before beforeOthers own
  refine alike_of_view ((throughout_iff_prefixes ..).mp sound first before)
    ((throughout_iff_prefixes ..).mp soundOthers second beforeOthers) ?_
  exact (unwinding (unwinds_books tenant) (sound.until before) (soundOthers.until beforeOthers)
    rfl own).2

theorem lineage_kept {dag : CheckpointDag} {key : TenantId × PeriodId} {c : SealedCheckpoint}
    (filed : c ∈ dag.lineage key) (calls : List (CheckpointDraft × TimestampNs)) :
    c ∈ (run CheckpointDag.sealCall dag calls).lineage key := by
  refine run_invariant CheckpointDag.sealCall (fun dag => c ∈ dag.lineage key) ?_ calls dag filed
  intro dag call filed
  rcases CheckpointDag.sealCall_cases dag call with same | ⟨new, _, _, _, pushed⟩
  · rwa [same]
  · rw [pushed, CheckpointDag.lineage_push]
    split
    · exact List.mem_append_left _ filed
    · exact filed

/-- A checkpoint that is sealed over the state of its time stays in its lineage, and its root can
be folded again after any further calls exactly where no event of the tenant was booked back to
that time. -/
theorem checkpoint_reproduces (apart : Set.InjOn sha256 events)
    (separate : Set.InjOn sha256 checkpoints) (before after : List BooksCall)
    {draft : CheckpointDraft} {sealedAt : TimestampNs} {dag : CheckpointDag} {id : CheckpointId}
    (filed : (run step new before).dag.seal draft sealedAt = .ok (dag, id))
    (folded : stateRoot ((run step new before).ledger.asOf draft.tenant draft.asOf) =
      .ok draft.stateRoot)
    (hashed : (run step new (before ++ .inl (.inr (draft, sealedAt)) :: after)).HashedIn
      events checkpoints)
    (roots : Set.InjOn sha256
      {stateBytes ((run step new before).ledger.asOf draft.tenant draft.asOf),
        stateBytes ((run step new (before ++ .inl (.inr (draft, sealedAt)) :: after)).ledger.asOf
          draft.tenant draft.asOf)}) :
  let past := run step new before
    let present := run step new (before ++ .inl (.inr (draft, sealedAt)) :: after)
    ⟨id, sealedAt, draft⟩ ∈ present.dag.lineage draft.lineageKey ∧
      (draft.supersedes = none →
        present.dag.asFiled draft.lineageKey = some ⟨id, sealedAt, draft⟩) ∧
      ∃ added, present.ledger.stream draft.tenant = past.ledger.stream draft.tenant ++ added ∧
        (stateRoot (present.ledger.asOf draft.tenant draft.asOf) = .ok draft.stateRoot ↔
          ∀ e ∈ added, draft.asOf < e.knowledgeTime) := by
  intro past present
  have sound : present.Sound := (throughout_iff_prefixes ..).mp (sound_along apart separate hashed)
    _ (List.prefix_refl _)
  have later : present = run step past (.inl (.inr (draft, sealedAt)) :: after) := run_append ..
  obtain ⟨calls, dagNow⟩ : ∃ calls, present.dag = run CheckpointDag.sealCall dag calls := by
    have call : past.dag.sealCall (draft, sealedAt) = dag := by
      simp only [CheckpointDag.sealCall, past, filed]
    exact ⟨_, by rw [later, dag_run, ← call]; rfl⟩
  have pushed : dag = past.dag.push ⟨id, sealedAt, draft⟩ := (CheckpointDag.seal_eq_ok.mp filed).2.2.2
  have lineage : dag.lineage draft.lineageKey =
      past.dag.lineage draft.lineageKey ++ [⟨id, sealedAt, draft⟩] := by
    rw [pushed, CheckpointDag.lineage_push, if_pos rfl]
  refine ⟨?_, ?_, ?_⟩
  · rw [dagNow]
    exact lineage_kept (lineage ▸ List.mem_append_right _ (List.mem_singleton_self _)) calls
  · intro initial
    have empty : past.dag.lineage draft.lineageKey = [] :=
      ((CheckpointDag.checkSupersedes_initial initial).mp
        (CheckpointDag.seal_eq_ok.mp filed).2.1).2.2
    rw [dagNow]
    exact CheckpointDag.asFiled_run (by rw [CheckpointDag.asFiled, lineage, empty]; rfl) calls
  · obtain ⟨added, grown⟩ := InMemoryLedger.stream_grows past.ledger
      (((.inl (.inr (draft, sealedAt)) :: after : List BooksCall).filterMap
        Sum.getLeft?).filterMap Sum.getLeft?) draft.tenant
    rw [← ledger_run, ← later] at grown
    refine ⟨added, grown, ?_⟩
    rw [← folded]
    exact sound.ledger.root_iff roots grown (Set.mem_insert _ _) (Set.mem_insert_of_mem _ rfl)

end

/-- An observation of one tenant, behind what a second one does with a shared policy. -/
def sharedCalls : List BooksCall :=
  [.inr (.register PolicyRegistry.venues), .inr (PolicyRegistry.venuesActivation ⟨"beta"⟩ ⟨0⟩),
    .inl (.inl (InMemoryLedger.observe "acme"))]

def ownCalls : List BooksCall :=
  [.inr (.register PolicyRegistry.venues), .inl (.inl (InMemoryLedger.observe "acme"))]

theorem hashed_shared {calls : List BooksCall}
    (appended : (calls.filterMap Sum.getLeft?).filterMap Sum.getLeft? =
      [InMemoryLedger.observe "acme"])
    (filed : (calls.filterMap Sum.getLeft?).filterMap Sum.getRight? = []) :
    (run step new calls).HashedIn {InMemoryLedger.firstEnvelope "acme"} ∅ := by
  constructor
  · rw [ledger_run, appended]
    exact InMemoryLedger.hashed_observe "acme"
  · rw [dag_run, filed]
    exact fun key c member => absurd member (CheckpointDag.lineage_new key ▸ List.not_mem_nil)

omit [External] in
/-- The activation of the second tenant makes no difference to the first. -/
theorem tenants_apart_shared :
    letI : External := reference
    Alike ⟨"acme"⟩ (run step new sharedCalls) (run step new ownCalls) := by
  let _ : External := reference
  have apart := (tenants_apart (Set.injOn_singleton sha256 _) (Set.injOn_empty sha256) ⟨"acme"⟩
    sharedCalls ownCalls (hashed_shared rfl rfl) (hashed_shared rfl rfl) rfl).2
  exact apart sharedCalls ownCalls (List.prefix_refl _) (List.prefix_refl _) rfl

/-- The first period closes over one observation, which is corrected later. -/
def closingDraft : CheckpointDraft where
  tenant := ⟨"acme"⟩
  period := ⟨"2026Q1"⟩
  asOf := ⟨0⟩
  stateRoot := sha256 (stateBytes [InMemoryLedger.firstEvent "acme"])
  supersedes := none
  reason := none
  materialityMemo := none

def closingCheckpoint : SealedCheckpoint :=
  ⟨sha256 (SealedCheckpoint.envelopeBytes ⟨.literal 1⟩ closingDraft), ⟨.literal 1⟩, closingDraft⟩

def bookedCalls : List BooksCall := [.inl (.inl (InMemoryLedger.observe "acme"))]

def correctedLater : List BooksCall :=
  [.inl (.inl (InMemoryLedger.corrected "acme", ⟨.literal 1⟩))]

def closedCalls : List BooksCall :=
  bookedCalls ++ .inl (.inr (closingDraft, ⟨.literal 1⟩)) :: correctedLater

theorem stream_booked : (run step new bookedCalls).ledger.stream ⟨"acme"⟩ =
    [InMemoryLedger.firstEvent "acme"] := by
  have appended : (bookedCalls.filterMap Sum.getLeft?).filterMap Sum.getLeft? =
      [InMemoryLedger.observe "acme"] := rfl
  have booked : InMemoryLedger.new.appendCall (InMemoryLedger.observe "acme") =
      InMemoryLedger.new.push (InMemoryLedger.firstEvent "acme") :=
    InMemoryLedger.appendCall_observed (InMemoryLedger.stream_new _)
  rw [ledger_run, appended, run, run]
  exact booked ▸ InMemoryLedger.stream_firstEvent _ "acme" (InMemoryLedger.stream_new _)

theorem ledger_closed :
    (run step new closedCalls).ledger = InMemoryLedger.new.corrections "acme" := by
  have appended : (closedCalls.filterMap Sum.getLeft?).filterMap Sum.getLeft? =
      InMemoryLedger.correctedCalls "acme" := rfl
  rw [ledger_run, appended]
  exact InMemoryLedger.run_correctedCalls (InMemoryLedger.stream_new _) rfl

theorem stream_closed : (run step new closedCalls).ledger.stream ⟨"acme"⟩ =
    [InMemoryLedger.firstEvent "acme", InMemoryLedger.correctedEvent "acme"] := by
  rw [ledger_closed, InMemoryLedger.stream_corrections _ _ (InMemoryLedger.stream_new _)]

theorem asOf_sealed {books : Books} (later : List SealedEvent)
    (stream : books.ledger.stream ⟨"acme"⟩ = InMemoryLedger.firstEvent "acme" :: later)
    (after : ∀ e ∈ later, (⟨0⟩ : TimestampNs) < e.knowledgeTime) :
    books.ledger.asOf ⟨"acme"⟩ ⟨0⟩ = [InMemoryLedger.firstEvent "acme"] := by
  have none : later.filter (·.knowledgeTime ≤ ⟨0⟩) = [] :=
    List.filter_eq_nil_iff.mpr fun e member => by simpa using after e member
  have atClose : (InMemoryLedger.firstEvent "acme").knowledgeTime ≤ ⟨0⟩ := le_refl (⟨0⟩ : TimestampNs)
  have kept : (InMemoryLedger.firstEvent "acme" :: later).filter (·.knowledgeTime ≤ ⟨0⟩) =
      [InMemoryLedger.firstEvent "acme"] := by
    rw [List.filter_cons, if_pos (decide_eq_true atClose), none]
  rw [InMemoryLedger.asOf, stream, kept]
  rfl

theorem after_closing : ∀ e ∈ [InMemoryLedger.correctedEvent "acme"],
    (⟨0⟩ : TimestampNs) < e.knowledgeTime := by
  rintro e (_ | ⟨_, ⟨⟩⟩)
  exact (by decide : (⟨0⟩ : TimestampNs) < ⟨.literal 1⟩)

theorem seal_closing : CheckpointDag.new.seal closingDraft ⟨.literal 1⟩ =
    .ok (CheckpointDag.new.push closingCheckpoint, closingCheckpoint.checkpointId) :=
  CheckpointDag.seal_eq_ok.mpr ⟨CheckpointDag.checkTime_eq_ok.mpr (by simp),
    (CheckpointDag.checkSupersedes_initial rfl).mpr ⟨rfl, rfl, CheckpointDag.lineage_new _⟩, rfl,
    rfl⟩

theorem dag_closed : (run step new closedCalls).dag =
    CheckpointDag.new.push closingCheckpoint := by
  have filed : (closedCalls.filterMap Sum.getLeft?).filterMap Sum.getRight? =
      [(closingDraft, ⟨.literal 1⟩)] := rfl
  have sealed : CheckpointDag.new.sealCall (closingDraft, ⟨.literal 1⟩) =
      CheckpointDag.new.push closingCheckpoint := by rw [CheckpointDag.sealCall, seal_closing]
  rw [dag_run, filed, run, run]
  exact sealed

theorem hashed_closed : (run step new closedCalls).HashedIn InMemoryLedger.sampled
    {SealedCheckpoint.envelopeBytes ⟨.literal 1⟩ closingDraft} := by
  constructor
  · rw [ledger_closed]
    exact (InMemoryLedger.hashedIn_new _).corrections
  · have none : CheckpointDag.new.HashedIn
        {SealedCheckpoint.envelopeBytes ⟨.literal 1⟩ closingDraft} := by
      simp [CheckpointDag.HashedIn]
    rw [dag_closed]
    exact none.push (Set.mem_singleton _)

omit [External] in
/-- The correction leaves the root of the first period as it was. -/
theorem checkpoint_reproduces_closing :
    letI : External := reference
    stateRoot ((run step new closedCalls).ledger.asOf ⟨"acme"⟩ ⟨0⟩) =
      .ok closingDraft.stateRoot := by
  let _ : External := reference
  have past := asOf_sealed [] stream_booked (by simp)
  have present := asOf_sealed _ stream_closed after_closing
  have folded : stateRoot ((run step new bookedCalls).ledger.asOf ⟨"acme"⟩ ⟨0⟩) =
      .ok closingDraft.stateRoot := by rw [past, stateRoot_eq, closingDraft]
  have roots : Set.InjOn sha256
      {stateBytes ((run step new bookedCalls).ledger.asOf ⟨"acme"⟩ ⟨0⟩),
        stateBytes ((run step new closedCalls).ledger.asOf ⟨"acme"⟩ ⟨0⟩)} := by
    rw [past, present, Set.pair_eq_singleton]
    exact Set.injOn_singleton _ _
  obtain ⟨-, -, added, grown, reproduces⟩ := checkpoint_reproduces InMemoryLedger.injOn_sampled
    (Set.injOn_singleton sha256 _) bookedCalls correctedLater seal_closing folded hashed_closed roots
  refine reproduces.mpr ?_
  have only : [InMemoryLedger.correctedEvent "acme"] = added := by
    have whole := stream_closed.symm.trans (grown.trans (congrArg (· ++ added) stream_booked))
    exact (List.cons.inj whole).2
  rw [← only]
  exact after_closing

end Books

end Treasury
