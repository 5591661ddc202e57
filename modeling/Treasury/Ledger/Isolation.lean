import Treasury.Kit.Unwinding
import Treasury.Ledger.Sound

/-! What a tenant learns from the ledger. The index of identities and the set of superseded
events are shared by all tenants, and an append still depends on its tenant's stream alone. -/
namespace Treasury
open Kit Kit.Json

namespace InMemoryLedger
variable [External]

/-- What makes an event the next one of a stream, said of the stream alone. -/
structure Extends (stream : List SealedEvent) (e : SealedEvent) : Prop where
  layered : e.draft.layer = e.draft.provenance.layer
  later : ∀ last, stream.getLast? = some last → last.knowledgeTime < e.knowledgeTime
  standing : ∀ id, e.draft.supersedes = some id →
    ∃ target ∈ stream, target.eventId = id ∧ target.draft.layer = e.draft.layer
  unmarked : ∀ id, e.draft.supersedes = some id → ∀ f ∈ stream, f.draft.supersedes ≠ some id
  links : e.prev = lastId SealedEvent.eventId (genesisHash e.draft.tenant) stream
  computed : computeId e.prev e.knowledgeTime e.draft = .ok e.eventId

section
variable {ledger : InMemoryLedger} {e : SealedEvent}

theorem Sound.extends_of_seals (sound : ledger.Sound) (seals : ledger.Seals e) :
    Extends (ledger.stream e.draft.tenant) e where
  layered := (append_eq_ok.mp seals).1
  later _ ends := seals.later ends
  standing := by
    intro id supersedes
    obtain ⟨i, target, found, place, layer, _⟩ := seals.target supersedes
    obtain ⟨other, there, identity⟩ := (sound.indexed _ _ _).mp found
    obtain rfl := there.unique place
    exact ⟨other, place.mem, identity, layer⟩
  unmarked := by
    intro id supersedes f hf names
    obtain ⟨_, _, _, _, _, free⟩ := seals.target supersedes
    obtain ⟨i, place⟩ := List.mem_iff_getElem?.mp hf
    exact free ((sound.marked id).mpr ⟨_, i, f, place, names⟩)
  links := seals.prev_eq.trans (head_eq ledger _)
  computed := seals.computed

theorem Sound.not_superseded (sound : ledger.Sound) {tenant : TenantId} {target : SealedEvent}
    (member : target ∈ ledger.stream tenant)
    (free : ∀ f ∈ ledger.stream tenant, f.draft.supersedes ≠ some target.eventId) :
    target.eventId ∉ ledger.superseded := by
  intro marked
  obtain ⟨other, i, f, place, names⟩ := (sound.marked _).mp marked
  obtain ⟨j, corrected, _, standing, identity, _⟩ := sound.corrects _ _ _ _ place names
  obtain ⟨k, own⟩ := List.mem_iff_getElem?.mp member
  obtain ⟨rfl, _⟩ := sound.distinct _ _ _ _ _ _ standing own identity
  exact free f place.mem names

theorem Sound.seals_of_extends (sound : ledger.Sound)
    (extend : Extends (ledger.stream e.draft.tenant) e) : ledger.Seals e := by
  have time : ledger.checkTime e.draft e.knowledgeTime = .ok () := by
    unfold checkTime
    split
    · rfl
    · rename_i last ends
      exact if_neg (not_le.mpr (extend.later last ends))
  have target : ledger.checkSupersedes e.draft = .ok () := by
    unfold checkSupersedes
    cases supersedes : e.draft.supersedes with
    | none => rfl
    | some id =>
      obtain ⟨target, member, rfl, layer⟩ := extend.standing id supersedes
      obtain ⟨i, place⟩ := List.mem_iff_getElem?.mp member
      have found := (sound.indexed _ _ _).mpr ⟨target, place, rfl⟩
      have free := sound.not_superseded member (extend.unmarked _ supersedes)
      have at_i : (ledger.stream e.draft.tenant)[i]? = some target := place
      simp only [found, at_i, layer, free, ne_eq, not_true_eq_false, if_false]
  have links : e.prev = ledger.head e.draft.tenant := extend.links.trans (head_eq ledger _).symm
  have computed := extend.computed
  rw [links] at computed
  refine append_eq_ok.mpr ⟨extend.layered, time, target, computed, ?_⟩
  rw [← links]

/-- A sound ledger seals an event exactly when it extends its tenant's stream. -/
theorem Sound.seals_iff (sound : ledger.Sound) :
    ledger.Seals e ↔ Extends (ledger.stream e.draft.tenant) e :=
  ⟨sound.extends_of_seals, sound.seals_of_extends⟩

end

def appendId (ledger : InMemoryLedger) (call : EventDraft × TimestampNs) : Option EventId :=
  match ledger.append call.1 call.2 with
  | .ok (_, id) => some id
  | .error _ => none

abbrev OwnCall (tenant : TenantId) (call : EventDraft × TimestampNs) : Prop :=
  call.1.tenant = tenant

theorem append_outcome (ledger : InMemoryLedger) (call : EventDraft × TimestampNs) :
    (∃ e, ledger.Seals e ∧ (e.draft, e.knowledgeTime) = call ∧
      ledger.appendId call = some e.eventId ∧ ledger.appendCall call = ledger.push e) ∨
    ((¬ ∃ e, ledger.Seals e ∧ (e.draft, e.knowledgeTime) = call) ∧
      ledger.appendId call = none ∧ ledger.appendCall call = ledger) := by
  unfold appendId appendCall
  cases result : ledger.append call.1 call.2 with
  | ok pair =>
    obtain ⟨seals, pushed⟩ := seals_of_append result
    exact .inl ⟨_, seals, rfl, rfl, pushed⟩
  | error error =>
    refine .inr ⟨?_, rfl, rfl⟩
    rintro ⟨e, seals, rfl⟩
    have both := result.symm.trans seals
    contradiction

theorem append_agrees {ledger other : InMemoryLedger} {tenant : TenantId}
    (sound : ledger.Sound) (soundOther : other.Sound)
    (same : ledger.stream tenant = other.stream tenant) {call : EventDraft × TimestampNs}
    (own : OwnCall tenant call) : ledger.appendId call = other.appendId call ∧
      (ledger.appendCall call).stream tenant = (other.appendCall call).stream tenant := by
  have transfer (e : SealedEvent) (made : (e.draft, e.knowledgeTime) = call) :
      ledger.Seals e ↔ other.Seals e := by
    have mine : e.draft.tenant = tenant := by
      subst made
      exact own
    rw [sound.seals_iff, soundOther.seals_iff, mine, same]
  rcases append_outcome ledger call with ⟨e, seals, made, answer, pushed⟩ | ⟨none, answer, kept⟩
  · have sealsOther := (transfer e made).mp seals
    have accepted : other.append call.1 call.2 = .ok (other.push e, e.eventId) := by
      rw [← made]
      exact sealsOther
    rw [pushed, answer]
    simp only [appendId, appendCall, accepted, stream_push, same, and_self]
  · rcases append_outcome other call with ⟨e, seals, made, _⟩ | ⟨_, answerOther, keptOther⟩
    · exact absurd ⟨e, (transfer e made).mpr seals, made⟩ none
    · rw [answer, answerOther, kept, keptOther]
      exact ⟨rfl, same⟩

theorem appendCall_foreign {ledger : InMemoryLedger} {tenant : TenantId}
    {call : EventDraft × TimestampNs} (foreign : ¬ OwnCall tenant call) :
    (ledger.appendCall call).stream tenant = ledger.stream tenant := by
  rcases append_outcome ledger call with ⟨e, _, made, _, pushed⟩ | ⟨_, _, kept⟩
  · have other : tenant ≠ e.draft.tenant := by
      rintro rfl
      exact foreign (congrArg (·.1.tenant) made).symm
    rw [pushed, stream_push, if_neg other]
  · rw [kept]

theorem unwinds_tenant (tenant : TenantId) :
    Unwinds appendCall appendId (OwnCall tenant) (·.stream tenant) Sound where
  respects _ _ _ foreign := appendCall_foreign foreign
  consistent _ _ _ sound soundOther same own := append_agrees sound soundOther same own

theorem HashedIn.of_run {ledger : InMemoryLedger} {calls : List (EventDraft × TimestampNs)}
    {preimages : Set Bytes} (hashed : (run appendCall ledger calls).HashedIn preimages) :
    ledger.HashedIn preimages := by
  induction calls generalizing ledger with
  | nil => exact hashed
  | cons call calls ih =>
    have next : (ledger.appendCall call).HashedIn preimages := ih hashed
    rcases appendCall_cases ledger call with kept | ⟨e, _, _, _, pushed⟩
    · exact kept ▸ next
    · exact (pushed ▸ next).of_push

theorem sound_throughout {preimages : Set Bytes} (injective : Set.InjOn sha256 preimages)
    {calls : List (EventDraft × TimestampNs)}
    (hashed : (run appendCall new calls).HashedIn preimages) :
    Throughout appendCall Sound new calls := by
  refine (throughout_iff_prefixes ..).mpr fun first before => ?_
  obtain ⟨rest, rfl⟩ := before
  rw [run_append] at hashed
  exact sound_reached injective first hashed.of_run

/-- Whatever other tenants append and however their calls are interleaved, a tenant's appends
succeed alike and with the same identities, and after the same calls of its own it has the
same stream, the same state at every time and the same verdict on its chain. -/
theorem tenant_isolated (tenant : TenantId) (calls others : List (EventDraft × TimestampNs))
    {preimages : Set Bytes} (injective : Set.InjOn sha256 preimages)
    (hashed : (run appendCall new calls).HashedIn preimages)
    (hashedOthers : (run appendCall new others).HashedIn preimages)
    (same : calls.filter (OwnCall tenant) = others.filter (OwnCall tenant)) :
    answers appendCall appendId (OwnCall tenant) new calls =
        answers appendCall appendId (OwnCall tenant) new others ∧
      ∀ first second, first <+: calls → second <+: others →
        first.filter (OwnCall tenant) = second.filter (OwnCall tenant) →
        let l := run appendCall new first
        let m := run appendCall new second
        l.stream tenant = m.stream tenant ∧ (∀ t, l.asOf tenant t = m.asOf tenant t) ∧
          l.verifyChain tenant = m.verifyChain tenant := by
  have sound := sound_throughout injective hashed
  have soundOthers := sound_throughout injective hashedOthers
  refine ⟨(unwinding (unwinds_tenant tenant) sound soundOthers rfl same).1, ?_⟩
  intro first second before beforeOthers own l m
  have streams : l.stream tenant = m.stream tenant :=
    (unwinding (unwinds_tenant tenant) (sound.until before)
      (soundOthers.until beforeOthers) rfl own).2
  refine ⟨streams, fun t => ?_, ?_⟩
  · simp only [asOf, streams]
  · simp only [verifyChain, streams]

def observe (tenant : String) : EventDraft × TimestampNs := (observed tenant, ⟨0⟩)

def mislabelled (tenant : String) : EventDraft × TimestampNs :=
  ({ observed tenant with layer := .judgment }, ⟨0⟩)

theorem hashed_observe (tenant : String) :
    (run appendCall new [observe tenant]).HashedIn {firstEnvelope tenant} := by
  rw [run, run, observe, appendCall_observed (stream_new _)]
  exact (hashedIn_new _).firstEvent (Set.mem_singleton _)

theorem appendCall_mislabelled (ledger : InMemoryLedger) (tenant : String) :
    ledger.appendCall (mislabelled tenant) = ledger := rfl

/-- A corrected balance, with another tenant's calls before it and inside it: one that is
accepted and one that is refused. -/
def interleavedCalls : List (EventDraft × TimestampNs) :=
  [observe "beta", (observed "acme", ⟨0⟩), mislabelled "beta", (corrected "acme", ⟨.literal 1⟩)]

theorem hashed_interleaved : (run appendCall new interleavedCalls).HashedIn sampled := by
  have same : run appendCall new interleavedCalls =
      run appendCall new ((observed "beta", ⟨0⟩) :: correctedCalls "acme") := by
    simp only [interleavedCalls, correctedCalls, observe, run, appendCall_mislabelled]
  rw [same]
  exact hashed_sampled

theorem hashed_correctedCalls : (run appendCall new (correctedCalls "acme")).HashedIn sampled := by
  rw [run_correctedCalls (stream_new _) rfl]
  exact (hashedIn_new sampled).corrections

omit [External] in
theorem tenant_isolated_interleaved :
    letI : External := reference
    answers appendCall appendId (OwnCall ⟨"acme"⟩) new interleavedCalls =
        answers appendCall appendId (OwnCall ⟨"acme"⟩) new (correctedCalls "acme") ∧
      ∀ t, (run appendCall new interleavedCalls).asOf ⟨"acme"⟩ t =
        (run appendCall new (correctedCalls "acme")).asOf ⟨"acme"⟩ t := by
  let _ : External := reference
  obtain ⟨answered, reached⟩ := tenant_isolated ⟨"acme"⟩ interleavedCalls (correctedCalls "acme")
    injOn_sampled hashed_interleaved hashed_correctedCalls rfl
  exact ⟨answered, (reached _ _ (List.prefix_refl _) (List.prefix_refl _) rfl).2.1⟩

end InMemoryLedger

end Treasury
