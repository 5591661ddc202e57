import Treasury.Kit.Streams
import Treasury.Ledger.Chain
import Treasury.Ledger.Runs

/-! The invariant of the ledger: its streams, the index by identity and the set of
superseded events say the same, after any sequence of appends. -/
namespace Treasury
open Kit Kit.Json

namespace InMemoryLedger

/-- The event's place: its tenant's stream and its index there. -/
abbrev At (ledger : InMemoryLedger) (tenant : TenantId) (i : Nat) (e : SealedEvent) : Prop :=
  Kit.At ledger.stream tenant i e

theorem grown_push (ledger : InMemoryLedger) (new : SealedEvent) :
    Grown ledger.stream (ledger.push new).stream new.draft.tenant new := stream_push ledger new

section
variable [External]

structure Sound (ledger : InMemoryLedger) : Prop where
  verified : ∀ tenant, ledger.verifyChain tenant = .ok ()
  clock : ∀ tenant, (ledger.stream tenant).Pairwise fun e f => e.knowledgeTime < f.knowledgeTime
  owned : ∀ tenant i e, ledger.At tenant i e → e.draft.tenant = tenant
  layered : ∀ tenant i e, ledger.At tenant i e → e.draft.layer = e.draft.provenance.layer
  /-- No two places hold events with one identity. -/
  distinct : ∀ t i e u j f, ledger.At t i e → ledger.At u j f → e.eventId = f.eventId → t = u ∧ i = j
  indexed : ∀ id tenant i, ledger.byId.lookup id = some (tenant, i) ↔
    ∃ e, ledger.At tenant i e ∧ e.eventId = id
  /-- What an event supersedes stands before it and is of its layer. -/
  corrects : ∀ tenant i e id, ledger.At tenant i e → e.draft.supersedes = some id →
    ∃ j target, j < i ∧ ledger.At tenant j target ∧ target.eventId = id ∧
      target.draft.layer = e.draft.layer
  /-- No event is superseded twice. -/
  once : ∀ t i e u j f id, ledger.At t i e → ledger.At u j f →
    e.draft.supersedes = some id → f.draft.supersedes = some id → t = u ∧ i = j
  marked : ∀ id, id ∈ ledger.superseded ↔
    ∃ tenant i e, ledger.At tenant i e ∧ e.draft.supersedes = some id

theorem sound_new : new.Sound := by
  have empty (tenant : TenantId) (i : Nat) (e : SealedEvent) : ¬new.At tenant i e := by
    simp [Kit.At]
  constructor
  · intro tenant
    rw [verifyChain, stream_new]
    rfl
  · simp
  · exact fun tenant i e h => absurd h (empty tenant i e)
  · exact fun tenant i e h => absurd h (empty tenant i e)
  · exact fun t i e _ _ _ h => absurd h (empty t i e)
  · intro id tenant i
    refine iff_of_false (by simp [new]) ?_
    rintro ⟨e, h, _⟩
    exact empty tenant i e h
  · exact fun tenant i e _ h => absurd h (empty tenant i e)
  · exact fun t i e _ _ _ _ h => absurd h (empty t i e)
  · intro id
    refine iff_of_false (by simp [new]) ?_
    rintro ⟨tenant, i, e, h, _⟩
    exact empty tenant i e h

theorem head_eq (ledger : InMemoryLedger) (tenant : TenantId) :
    ledger.head tenant = lastId SealedEvent.eventId (genesisHash tenant) (ledger.stream tenant) := by
  unfold head lastId
  cases (ledger.stream tenant).getLast? <;> rfl

section
variable {ledger : InMemoryLedger} {new : SealedEvent}

theorem Seals.computed (seals : ledger.Seals new) :
    computeId new.prev new.knowledgeTime new.draft = .ok new.eventId := by
  rw [seals.prev_eq]
  exact (append_eq_ok.mp seals).2.2.2.1

theorem Seals.target (seals : ledger.Seals new) {id : EventId}
    (supersedes : new.draft.supersedes = some id) :
    ∃ i target, ledger.byId.lookup id = some (new.draft.tenant, i) ∧
      ledger.At new.draft.tenant i target ∧ target.draft.layer = new.draft.layer ∧
      id ∉ ledger.superseded := by
  have checked := (append_eq_ok.mp seals).2.2.1
  simp only [checkSupersedes, supersedes] at checked
  split at checked
  · contradiction
  · rename_i tenant i found
    split at checked
    · contradiction
    · rename_i same
      rw [not_not] at same
      subst same
      split at checked
      · contradiction
      · rename_i target standing
        split at checked
        · contradiction
        · rename_i layer
          split at checked
          · contradiction
          · rename_i unmarked
            exact ⟨i, target, found, standing, not_not.mp layer, unmarked⟩

theorem verified_push (verified : ∀ tenant, ledger.verifyChain tenant = .ok ())
    (seals : ledger.Seals new) (tenant : TenantId) : (ledger.push new).verifyChain tenant = .ok () := by
  rw [verifyChain, stream_push]
  split
  · rename_i same
    obtain ⟨chained, computed⟩ := (verifyFrom_eq_ok _ _).mp (verified tenant)
    refine (verifyFrom_eq_ok _ _).mpr ⟨?_, ?_⟩
    · refine (chained_concat ..).mpr ⟨chained, ?_⟩
      rw [seals.prev_eq, ← same, head_eq]
    · intro e he
      rcases List.mem_append.mp he with old | added
      · exact computed e old
      · rw [List.mem_singleton.mp added]
        exact seals.computed
  · exact verified tenant

theorem Sound.booked_before (sound : ledger.Sound) (seals : ledger.Seals new) {e : SealedEvent}
    (he : e ∈ ledger.stream new.draft.tenant) : e.knowledgeTime < new.knowledgeTime :=
  later_than_all SealedEvent.knowledgeTime (sound.clock _) (fun _ ends => seals.later ends) he

theorem clock_push (sound : ledger.Sound) (seals : ledger.Seals new) (tenant : TenantId) :
    ((ledger.push new).stream tenant).Pairwise fun e f => e.knowledgeTime < f.knowledgeTime := by
  rw [stream_push]
  split
  · rename_i same
    subst same
    exact clocked_concat SealedEvent.knowledgeTime (sound.clock _) fun _ ends => seals.later ends
  · exact sound.clock tenant

theorem corrects_push (sound : ledger.Sound) (seals : ledger.Seals new) (tenant : TenantId)
    (i : Nat) (e : SealedEvent) (id : EventId) (he : (ledger.push new).At tenant i e)
    (supersedes : e.draft.supersedes = some id) :
    ∃ j target, j < i ∧ (ledger.push new).At tenant j target ∧ target.eventId = id ∧
      target.draft.layer = e.draft.layer := by
  have grown := grown_push ledger new
  rcases grown.at.mp he with old | ⟨rfl, rfl, rfl⟩
  · obtain ⟨j, target, before, standing, identity, layer⟩ := sound.corrects tenant i e id old supersedes
    exact ⟨j, target, before, grown.at_old standing, identity, layer⟩
  · obtain ⟨j, target, found, standing, layer, _⟩ := seals.target supersedes
    obtain ⟨other, there, identity⟩ := (sound.indexed _ _ _).mp found
    obtain rfl := there.unique standing
    exact ⟨j, other, standing.lt, grown.at_old standing, identity, layer⟩

theorem indexed_push (sound : ledger.Sound) (unused : Unused ledger.stream (·.eventId) new.eventId) :
    Indexed (ledger.push new).stream SealedEvent.eventId (ledger.push new).byId.lookup := by
  refine (grown_push ledger new).indexed sound.indexed unused fun id => ?_
  split
  · rename_i same
    rw [push, same, Finmap.lookup_insert]
  · rename_i other
    rw [push, Finmap.lookup_insert_of_ne _ other]

theorem marked_push (sound : ledger.Sound) : Marked (ledger.push new).stream
    (·.draft.supersedes) (· ∈ (ledger.push new).superseded) := by
  refine (grown_push ledger new).marked sound.marked fun id => ?_
  cases supersedes : new.draft.supersedes with
  | none => simp [push, supersedes]
  | some target => simp [push, supersedes, @eq_comm _ target id]

theorem once_push (sound : ledger.Sound) (seals : ledger.Seals new) :
    NamedOnce (ledger.push new).stream (·.draft.supersedes) := by
  refine (grown_push ledger new).namedOnce sound.marked sound.once fun id supersedes => ?_
  obtain ⟨_, _, _, _, _, unmarked⟩ := seals.target supersedes
  exact unmarked

theorem Sound.push (sound : ledger.Sound) (seals : ledger.Seals new)
    (unused : Unused ledger.stream (·.eventId) new.eventId) : (ledger.push new).Sound := by
  have grown := grown_push ledger new
  have indexed := indexed_push sound unused
  constructor
  · exact verified_push sound.verified seals
  · exact clock_push sound seals
  · intro tenant i e he
    rcases grown.at.mp he with old | ⟨rfl, _, rfl⟩
    · exact sound.owned tenant i e old
    · rfl
  · intro tenant i e he
    rcases grown.at.mp he with old | ⟨_, _, rfl⟩
    · exact sound.layered tenant i e old
    · exact (append_eq_ok.mp seals).1
  · exact fun _ _ _ _ _ _ => indexed.distinct
  · exact indexed
  · exact corrects_push sound seals
  · exact once_push sound seals
  · exact marked_push sound

end

/-- Everything hashed for the identities in the ledger is among the byte strings. -/
def HashedIn (ledger : InMemoryLedger) (preimages : Set Bytes) : Prop :=
  ∀ tenant, ∀ e ∈ ledger.stream tenant, ∀ b,
    canonicalEnvelope e.prev e.knowledgeTime e.draft = .ok b → b ∈ preimages

section
variable {preimages : Set Bytes} (injective : Set.InjOn sha256 preimages)
include injective

theorem Sound.unused {ledger : InMemoryLedger} {new : SealedEvent} (sound : ledger.Sound)
    (seals : ledger.Seals new) (hashed : (ledger.push new).HashedIn preimages) :
    Unused ledger.stream (·.eventId) new.eventId := by
  intro tenant i e he same
  have computed := ((verifyFrom_eq_ok _ _).mp (sound.verified tenant)).2 e he.mem
  obtain ⟨bytesE, writtenE, digestE⟩ := computeId_eq_ok.mp computed
  obtain ⟨bytesN, writtenN, digestN⟩ := computeId_eq_ok.mp seals.computed
  obtain ⟨j, old⟩ : ∃ j, (ledger.push new).At tenant j e := ⟨i, (grown_push ledger _).at_old he⟩
  have inE := hashed tenant e old.mem bytesE writtenE
  have inN := hashed new.draft.tenant new (by simp [stream_push]) bytesN writtenN
  obtain rfl := injective inE inN (digestE.trans (same.trans digestN.symm))
  obtain ⟨_, time, draft⟩ := canonicalEnvelope_injective writtenE writtenN
  have before : e ∈ ledger.stream new.draft.tenant := by
    rw [← draft, sound.owned tenant i e he]
    exact he.mem
  exact absurd time (sound.booked_before seals before).ne

omit injective in
theorem HashedIn.of_push {ledger : InMemoryLedger} {new : SealedEvent}
    (hashed : (ledger.push new).HashedIn preimages) : ledger.HashedIn preimages := by
  intro tenant e he
  apply hashed tenant e
  rw [stream_push]
  split
  · exact List.mem_append_left _ he
  · exact he

theorem sound_appendCall (ledger : InMemoryLedger) (call : EventDraft × TimestampNs)
    (hashed : (ledger.appendCall call).HashedIn preimages) :
    ledger.HashedIn preimages ∧ (ledger.Sound → (ledger.appendCall call).Sound) := by
  rcases appendCall_cases ledger call with same | ⟨e, seals, _, _, pushed⟩
  · rw [same] at hashed ⊢
    exact ⟨hashed, id⟩
  · rw [pushed] at hashed ⊢
    exact ⟨hashed.of_push, fun sound => sound.push seals (sound.unused injective seals hashed)⟩

theorem sound_reached (calls : List (EventDraft × TimestampNs))
    (hashed : (run appendCall new calls).HashedIn preimages) :
    (run appendCall new calls).Sound :=
  (run_bounded appendCall (HashedIn · preimages) Sound (sound_appendCall injective) calls new
    hashed).2 sound_new

/-- In every ledger that appends lead to, streams and indices agree, and no identity is
a genesis hash. -/
theorem sound_run (calls : List (EventDraft × TimestampNs))
    (hashed : (run appendCall new calls).HashedIn preimages) :
    (run appendCall new calls).Sound ∧
      ∀ founder, genesisTag founder ∈ preimages → ∀ tenant i e,
        (run appendCall new calls).At tenant i e → e.eventId ≠ genesisHash founder := by
  have sound := sound_reached injective calls hashed
  refine ⟨sound, fun founder tag tenant i e he genesis => ?_⟩
  have computed := ((verifyFrom_eq_ok _ _).mp (sound.verified tenant)).2 e he.mem
  obtain ⟨b, written, digest⟩ := computeId_eq_ok.mp computed
  have same := injective (hashed tenant e he.mem b written) tag (digest.trans genesis)
  exact canonicalEnvelope_ne_genesisTag written founder same

end

theorem appendCall_sealed {ledger : InMemoryLedger} {e : SealedEvent} (seals : ledger.Seals e) :
    ledger.appendCall (e.draft, e.knowledgeTime) = ledger.push e := by
  unfold appendCall
  rw [seals]

theorem hashedIn_new (preimages : Set Bytes) : new.HashedIn preimages := by
  intro tenant e he
  exact absurd he (by simp)

theorem HashedIn.push {ledger : InMemoryLedger} {e : SealedEvent} {preimages : Set Bytes}
    (hashed : ledger.HashedIn preimages)
    (added : ∀ b, canonicalEnvelope e.prev e.knowledgeTime e.draft = .ok b → b ∈ preimages) :
    (ledger.push e).HashedIn preimages := by
  intro tenant f hf
  rw [stream_push] at hf
  split at hf
  · rcases List.mem_append.mp hf with old | last
    · exact hashed tenant f old
    · exact List.mem_singleton.mp last ▸ added
  · exact hashed tenant f hf

theorem HashedIn.firstEvent {ledger : InMemoryLedger} {preimages : Set Bytes}
    (hashed : ledger.HashedIn preimages) {tenant : String}
    (member : firstEnvelope tenant ∈ preimages) :
    (ledger.push (firstEvent tenant)).HashedIn preimages := by
  refine hashed.push fun b written => ?_
  have bytes := Except.ok.inj (written.symm.trans (firstEvent_envelope tenant))
  exact bytes ▸ member

theorem seals_firstEvent {ledger : InMemoryLedger} {tenant : String}
    (fresh : ledger.stream ⟨tenant⟩ = []) : ledger.Seals (firstEvent tenant) := by
  have head : ledger.head (observed tenant).tenant = genesisHash ⟨tenant⟩ := by
    simp only [head_eq, observed, fresh, lastId_nil]
  have time : ledger.checkTime (observed tenant) ⟨0⟩ = .ok () := by
    simp only [checkTime, observed, fresh, List.getLast?_nil]
  have target : ledger.checkSupersedes (observed tenant) = .ok () := rfl
  have computed : computeId (ledger.head (observed tenant).tenant) ⟨0⟩ (observed tenant) =
      .ok (firstEvent tenant).eventId := by
    rw [head]
    exact computeId_eq_ok.mpr ⟨_, firstEvent_envelope tenant, rfl⟩
  have accepted := append_eq_ok.mpr ⟨rfl, time, target, computed, rfl⟩
  rw [head] at accepted
  exact accepted

theorem appendCall_observed {ledger : InMemoryLedger} {tenant : String}
    (fresh : ledger.stream ⟨tenant⟩ = []) :
    ledger.appendCall (observed tenant, ⟨0⟩) = ledger.push (firstEvent tenant) :=
  appendCall_sealed (seals_firstEvent fresh)

theorem HashedIn.corrections {ledger : InMemoryLedger} (hashed : ledger.HashedIn sampled) :
    (ledger.corrections "acme").HashedIn sampled := by
  refine (hashed.firstEvent (firstEnvelope_sampled (.inl rfl))).push fun b written => ?_
  have bytes := Except.ok.inj (written.symm.trans (correctedEvent_envelope "acme"))
  exact bytes ▸ correctedEnvelope_sampled

theorem seals_correctedEvent {ledger : InMemoryLedger} {tenant : String}
    (fresh : ledger.stream ⟨tenant⟩ = []) (unmarked : ledger.superseded = ∅) :
    (ledger.push (firstEvent tenant)).Seals (correctedEvent tenant) := by
  have stream := stream_firstEvent ledger tenant fresh
  have head : (ledger.push (firstEvent tenant)).head (corrected tenant).tenant =
      (firstEvent tenant).eventId := by
    simp only [head_eq, corrected, observed, stream]
    rfl
  have time : (ledger.push (firstEvent tenant)).checkTime (corrected tenant) ⟨.literal 1⟩ =
      .ok () := by
    simp only [checkTime, corrected, observed, stream, List.getLast?_singleton]
    have later : ¬ (⟨.literal 1⟩ : TimestampNs) ≤ ⟨0⟩ := by decide
    exact if_neg later
  have target : (ledger.push (firstEvent tenant)).checkSupersedes (corrected tenant) = .ok () := by
    have found : (ledger.push (firstEvent tenant)).byId.lookup (firstEvent tenant).eventId =
        some (⟨tenant⟩, 0) := by
      simp [push, firstEvent, observed, fresh]
    have free : (ledger.push (firstEvent tenant)).superseded = ∅ := unmarked
    have layer : (firstEvent tenant).draft.layer = (corrected tenant).layer := rfl
    have owner : (corrected tenant).tenant = ⟨tenant⟩ := rfl
    have marks : (corrected tenant).supersedes = some (firstEvent tenant).eventId := rfl
    simp only [checkSupersedes, marks, found, owner, stream, free, layer, ne_eq, not_true_eq_false,
      if_false, List.getElem?_cons_zero, Finset.notMem_empty]
  have computed : computeId ((ledger.push (firstEvent tenant)).head (corrected tenant).tenant)
      ⟨.literal 1⟩ (corrected tenant) = .ok (correctedEvent tenant).eventId := by
    rw [head]
    exact computeId_eq_ok.mpr ⟨_, correctedEvent_envelope tenant, rfl⟩
  have accepted := append_eq_ok.mpr ⟨rfl, time, target, computed, rfl⟩
  rw [head] at accepted
  exact accepted

theorem accepts_corrections :
    new.Accepts [firstEvent "beta", firstEvent "acme", correctedEvent "acme"] := by
  have fresh := @stream_beside _ "acme" "beta" (by decide)
  exact ⟨seals_firstEvent (stream_new _), seals_firstEvent fresh, seals_correctedEvent fresh rfl,
    trivial⟩

def correctedCalls (tenant : String) : List (EventDraft × TimestampNs) :=
  [(observed tenant, ⟨0⟩), (corrected tenant, ⟨.literal 1⟩)]

theorem run_correctedCalls {ledger : InMemoryLedger} {tenant : String}
    (fresh : ledger.stream ⟨tenant⟩ = []) (unmarked : ledger.superseded = ∅) :
    run appendCall ledger (correctedCalls tenant) = ledger.corrections tenant := by
  rw [correctedCalls, run, appendCall_observed fresh, run, run]
  exact appendCall_sealed (seals_correctedEvent fresh unmarked)

theorem run_sampled : run appendCall new ((observed "beta", ⟨0⟩) :: correctedCalls "acme") =
    (new.push (firstEvent "beta")).corrections "acme" := by
  rw [run, appendCall_observed (stream_new _)]
  exact run_correctedCalls (stream_beside (by decide)) rfl

theorem hashed_sampled : (run appendCall new
    ((observed "beta", ⟨0⟩) :: correctedCalls "acme")).HashedIn sampled := by
  rw [run_sampled]
  exact ((hashedIn_new sampled).firstEvent (firstEnvelope_sampled (.inr rfl))).corrections

end

theorem sound_run_first :
    letI : External := reference
    (run appendCall new ((observed "beta", ⟨0⟩) :: correctedCalls "acme")).Sound := by
  let _ : External := reference
  exact (sound_run injOn_sampled _ hashed_sampled).1

end InMemoryLedger

end Treasury
