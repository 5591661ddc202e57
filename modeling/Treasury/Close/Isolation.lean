import Treasury.Close.Lineages
import Treasury.Kit.Unwinding

/-! Whether a checkpoint is sealed depends on its own lineage alone, so that what a tenant sees
of the checkpoints does not depend on the calls of other tenants. -/
namespace Treasury
open Kit Kit.Json

namespace CheckpointDag
variable [External]

/-- What makes a checkpoint the next one of a lineage, said of the lineage alone. -/
structure Continues (lineage : List SealedCheckpoint) (c : SealedCheckpoint) : Prop where
  later : ∀ last, lineage.getLast? = some last → last.sealedAt < c.sealedAt
  names : c.draft.supersedes = lastId (fun c : SealedCheckpoint => some c.checkpointId) none lineage
  reasoned : c.draft.reason.isSome = c.draft.supersedes.isSome
  documented : c.draft.materialityMemo.isSome = c.draft.supersedes.isSome
  computed : c.checkpointId = sha256 (SealedCheckpoint.envelopeBytes c.sealedAt c.draft)

section
variable {dag : CheckpointDag} {c : SealedCheckpoint}

theorem Sound.continues_of_seals (sound : dag.Sound) (seals : dag.Seals c) :
    Continues (dag.lineage c.draft.lineageKey) c := by
  have fields : c.draft.reason.isSome = c.draft.supersedes.isSome ∧
      c.draft.materialityMemo.isSome = c.draft.supersedes.isSome := by
    cases names : c.draft.supersedes with
    | none =>
      obtain ⟨reason, memo, -⟩ := (checkSupersedes_initial names).mp seals.supersedes_ok
      simp [reason, memo]
    | some id =>
      obtain ⟨reason, memo, -⟩ := (checkSupersedes_correction names).mp seals.supersedes_ok
      simp [reason, memo]
  exact ⟨seals.later, sound.names_last seals, fields.1, fields.2, (seal_eq_ok.mp seals).2.2.1⟩

theorem Sound.seals_of_continues (sound : dag.Sound)
    (continues : Continues (dag.lineage c.draft.lineageKey) c) : dag.Seals c := by
  have target : dag.checkSupersedes c.draft = .ok () := by
    cases names : c.draft.supersedes with
    | none =>
      have reason : c.draft.reason = none := by simpa [names] using continues.reasoned
      have memo : c.draft.materialityMemo = none := by simpa [names] using continues.documented
      refine (checkSupersedes_initial names).mpr ⟨reason, memo, ?_⟩
      have first := continues.names.symm.trans names
      rcases List.eq_nil_or_concat (dag.lineage c.draft.lineageKey) with none | ⟨front, last, split⟩
      · exact none
      · simp [split, lastId] at first
    | some id =>
      refine (checkSupersedes_correction names).mpr ⟨?_, ?_, ?_⟩
      · simp [continues.reasoned, names]
      · simp [continues.documented, names]
      · have corrected := continues.names.symm.trans names
        rcases List.eq_nil_or_concat (dag.lineage c.draft.lineageKey) with none | ⟨front, last, split⟩
        · simp [none, lastId] at corrected
        · rw [List.concat_eq_append] at split
          obtain rfl : last.checkpointId = id := by simpa [split, lastId] using corrected
          have here : dag.At c.draft.lineageKey front.length last := by simp [Kit.At, split]
          refine ⟨⟨front.length, (sound.indexed _ _ _).mpr ⟨last, here, rfl⟩⟩, fun marked => ?_⟩
          have behind := (sound.superseded_iff here).mp marked
          simp [split] at behind
  exact seal_eq_ok.mpr ⟨checkTime_eq_ok.mpr continues.later, target, continues.computed, rfl⟩

theorem Sound.seals_iff (sound : dag.Sound) :
    dag.Seals c ↔ Continues (dag.lineage c.draft.lineageKey) c :=
  ⟨sound.continues_of_seals, sound.seals_of_continues⟩

end

def sealId (dag : CheckpointDag) (call : CheckpointDraft × TimestampNs) : Option CheckpointId :=
  match dag.seal call.1 call.2 with
  | .ok (_, id) => some id
  | .error _ => none

abbrev OwnSeal (tenant : TenantId) (call : CheckpointDraft × TimestampNs) : Prop :=
  call.1.tenant = tenant

def lineagesOf (tenant : TenantId) (dag : CheckpointDag) (period : PeriodId) :
    List SealedCheckpoint := dag.lineage (tenant, period)

theorem seal_outcome (dag : CheckpointDag) (call : CheckpointDraft × TimestampNs) :
    (∃ c, dag.Seals c ∧ (c.draft, c.sealedAt) = call ∧
      dag.sealId call = some c.checkpointId ∧ dag.sealCall call = dag.push c) ∨
    ((¬∃ c, dag.Seals c ∧ (c.draft, c.sealedAt) = call) ∧
      dag.sealId call = none ∧ dag.sealCall call = dag) := by
  unfold sealId sealCall
  cases result : dag.seal call.1 call.2 with
  | ok pair =>
    have pushed := (seal_eq_ok.mp result).2.2.2
    exact .inl ⟨⟨pair.2, call.2, call.1⟩, by rw [Seals, ← pushed, result], rfl, rfl, pushed⟩
  | error error =>
    refine .inr ⟨?_, rfl, rfl⟩
    rintro ⟨c, seals, rfl⟩
    have both := result.symm.trans seals
    contradiction

theorem seal_agrees {dag other : CheckpointDag} {tenant : TenantId} (sound : dag.Sound)
    (soundOther : other.Sound) (same : lineagesOf tenant dag = lineagesOf tenant other)
    {call : CheckpointDraft × TimestampNs} (own : OwnSeal tenant call) :
    dag.sealId call = other.sealId call ∧
      lineagesOf tenant (dag.sealCall call) = lineagesOf tenant (other.sealCall call) := by
  have transfer (c : SealedCheckpoint) (made : (c.draft, c.sealedAt) = call) :
      dag.Seals c ↔ other.Seals c := by
    have mine : c.draft.tenant = tenant := by
      subst made
      exact own
    have lineages : dag.lineage c.draft.lineageKey = other.lineage c.draft.lineageKey := by
      rw [CheckpointDraft.lineageKey, mine]
      exact congrFun same c.draft.period
    rw [sound.seals_iff, soundOther.seals_iff, lineages]
  rcases seal_outcome dag call with ⟨c, seals, made, answer, pushed⟩ | ⟨none, answer, kept⟩
  · have sealsOther := (transfer c made).mp seals
    have accepted : other.seal call.1 call.2 = .ok (other.push c, c.checkpointId) := by
      rw [← made]
      exact sealsOther
    have answerOther : other.sealId call = some c.checkpointId := by
      simp only [sealId, accepted]
    have pushedOther : other.sealCall call = other.push c := by
      simp only [sealCall, accepted]
    refine ⟨answer.trans answerOther.symm, funext fun period => ?_⟩
    have before : dag.lineage (tenant, period) = other.lineage (tenant, period) :=
      congrFun same period
    rw [pushed, pushedOther, lineagesOf, lineagesOf, lineage_push, lineage_push, before]
  · rcases seal_outcome other call with ⟨c, seals, made, _⟩ | ⟨_, answerOther, keptOther⟩
    · exact absurd ⟨c, (transfer c made).mpr seals, made⟩ none
    · rw [answer, answerOther, kept, keptOther]
      exact ⟨rfl, same⟩

theorem sealCall_foreign {dag : CheckpointDag} {tenant : TenantId}
    {call : CheckpointDraft × TimestampNs} (foreign : ¬OwnSeal tenant call) :
    lineagesOf tenant (dag.sealCall call) = lineagesOf tenant dag := by
  rcases seal_outcome dag call with ⟨c, _, made, _, pushed⟩ | ⟨_, _, kept⟩
  · refine funext fun period => ?_
    have other : (tenant, period) ≠ c.draft.lineageKey := by
      intro same
      exact foreign ((congrArg (·.1.tenant) made).symm.trans (congrArg Prod.fst same).symm)
    rw [pushed, lineagesOf, lineage_push, if_neg other, lineagesOf]
  · rw [kept]

theorem unwinds_lineages (tenant : TenantId) :
    Unwinds sealCall sealId (OwnSeal tenant) (lineagesOf tenant) Sound where
  respects _ _ _ foreign := sealCall_foreign foreign
  consistent _ _ _ sound soundOther same own := seal_agrees sound soundOther same own

theorem sound_along {preimages : Set Bytes} (injective : Set.InjOn sha256 preimages)
    {calls : List (CheckpointDraft × TimestampNs)}
    (hashed : (run sealCall new calls).HashedIn preimages) :
    Throughout sealCall Sound new calls :=
  throughout_bounded sealCall (HashedIn · preimages) Sound (sound_sealCall injective) calls new
    sound_new hashed

end CheckpointDag

end Treasury
