import Mathlib.Data.Finmap
import Treasury.Close.Checkpoint

/-! The checkpoint graph: an append-only lineage of checkpoints for each tenant and period,
an index of checkpoints by identity and the set of superseded ones. -/
namespace Treasury
open Kit Kit.Json

inductive CloseError where
  | nonMonotonicSealTime (last proposed : TimestampNs)
  | initialWithCorrectionFields
  | parallelInitialCheckpoint
  | supersessionWithoutJustification
  | supersedeTargetMissing (id : CheckpointId)
  | supersedeAcrossLineage (id : CheckpointId)
  | alreadySuperseded (id : CheckpointId)
  | canon (error : CanonError)
  deriving DecidableEq

structure CheckpointDag where
  lineages : Finmap fun _ : TenantId × PeriodId => List SealedCheckpoint
  byId : Finmap fun _ : CheckpointId => (TenantId × PeriodId) × Nat
  superseded : Finset CheckpointId

def CheckpointDraft.lineageKey (draft : CheckpointDraft) : TenantId × PeriodId :=
  (draft.tenant, draft.period)

namespace CheckpointDag

def new : CheckpointDag := ⟨∅, ∅, ∅⟩

def lineage (dag : CheckpointDag) (key : TenantId × PeriodId) : List SealedCheckpoint :=
  (dag.lineages.lookup key).getD []

/-- The permanent pointer to the period's first checkpoint. -/
def asFiled (dag : CheckpointDag) (key : TenantId × PeriodId) : Option SealedCheckpoint :=
  (dag.lineage key).head?

def head (dag : CheckpointDag) (key : TenantId × PeriodId) : Option SealedCheckpoint :=
  (dag.lineage key).reverse.find? (·.checkpointId ∉ dag.superseded)

def checkTime (dag : CheckpointDag) (draft : CheckpointDraft) (sealedAt : TimestampNs) :
    Except CloseError Unit :=
  match (dag.lineage draft.lineageKey).getLast? with
  | none => .ok ()
  | some last =>
    if sealedAt ≤ last.sealedAt then .error (.nonMonotonicSealTime last.sealedAt sealedAt)
    else .ok ()

/-- Only the first checkpoint of a lineage supersedes nothing; any other one gives its reasons
and supersedes one of its lineage that no other checkpoint has superseded. -/
def checkSupersedes (dag : CheckpointDag) (draft : CheckpointDraft) : Except CloseError Unit :=
  match draft.supersedes with
  | none =>
    if draft.reason.isSome ∨ draft.materialityMemo.isSome then .error .initialWithCorrectionFields
    else if dag.lineage draft.lineageKey ≠ [] then .error .parallelInitialCheckpoint
    else .ok ()
  | some targetId =>
    if draft.reason.isNone ∨ draft.materialityMemo.isNone then
      .error .supersessionWithoutJustification
    else match dag.byId.lookup targetId with
      | none => .error (.supersedeTargetMissing targetId)
      | some ((tenant, period), _) =>
        if tenant ≠ draft.tenant ∨ period ≠ draft.period then
          .error (.supersedeAcrossLineage targetId)
        else if targetId ∈ dag.superseded then .error (.alreadySuperseded targetId)
        else .ok ()

def push (dag : CheckpointDag) (sealedCheckpoint : SealedCheckpoint) : CheckpointDag :=
  let key := sealedCheckpoint.draft.lineageKey
  { lineages := dag.lineages.insert key (dag.lineage key ++ [sealedCheckpoint])
    byId := dag.byId.insert sealedCheckpoint.checkpointId (key, (dag.lineage key).length)
    superseded :=
      match sealedCheckpoint.draft.supersedes with
      | none => dag.superseded
      | some id => insert id dag.superseded }

def «seal» [External] (dag : CheckpointDag) (draft : CheckpointDraft) (sealedAt : TimestampNs) :
    Except CloseError (CheckpointDag × CheckpointId) := do
  dag.checkTime draft sealedAt
  dag.checkSupersedes draft
  match SealedCheckpoint.computeId sealedAt draft with
  | .error e => .error (.canon e)
  | .ok checkpointId => .ok (dag.push ⟨checkpointId, sealedAt, draft⟩, checkpointId)

@[simp] theorem lineage_new (key : TenantId × PeriodId) : new.lineage key = [] := by
  simp [lineage, new]

theorem lineage_push (dag : CheckpointDag) (c : SealedCheckpoint) (key : TenantId × PeriodId) :
    (dag.push c).lineage key =
      if key = c.draft.lineageKey then dag.lineage key ++ [c] else dag.lineage key := by
  by_cases same : key = c.draft.lineageKey
  · subst same
    simp [lineage, push]
  · simp [lineage, push, same, Finmap.lookup_insert_of_ne _ same]

theorem checkTime_eq_ok {dag : CheckpointDag} {d : CheckpointDraft} {t : TimestampNs} :
    dag.checkTime d t = .ok () ↔
      ∀ last, (dag.lineage d.lineageKey).getLast? = some last → last.sealedAt < t := by
  unfold checkTime
  cases (dag.lineage d.lineageKey).getLast? with
  | none => simp
  | some last => simp [not_le]

theorem checkSupersedes_initial {dag : CheckpointDag} {d : CheckpointDraft}
    (initial : d.supersedes = none) : dag.checkSupersedes d = .ok () ↔
      d.reason = none ∧ d.materialityMemo = none ∧ dag.lineage d.lineageKey = [] := by
  simp only [checkSupersedes, initial]
  split
  · rename_i fields
    refine iff_of_false (by simp) ?_
    rintro ⟨reason, memo, _⟩
    simp [reason, memo] at fields
  · rename_i fields
    simp only [not_or, Option.not_isSome_iff_eq_none] at fields
    simp [fields.1, fields.2]

theorem checkSupersedes_correction {dag : CheckpointDag} {d : CheckpointDraft} {id : CheckpointId}
    (correction : d.supersedes = some id) : dag.checkSupersedes d = .ok () ↔
      d.reason.isSome ∧ d.materialityMemo.isSome ∧
        (∃ i, dag.byId.lookup id = some (d.lineageKey, i)) ∧ id ∉ dag.superseded := by
  simp only [checkSupersedes, correction]
  split
  · rename_i missing
    refine iff_of_false (by simp) ?_
    rintro ⟨reason, memo, _⟩
    rcases missing with none | none
    · simp [Option.isNone_iff_eq_none.mp none] at reason
    · simp [Option.isNone_iff_eq_none.mp none] at memo
  · rename_i present
    simp only [not_or, Bool.not_eq_true, Option.isNone_eq_false_iff] at present
    cases found : dag.byId.lookup id with
    | none => simp
    | some place =>
      obtain ⟨⟨tenant, period⟩, i⟩ := place
      simp only [present.1, present.2, true_and, Option.some.injEq, Prod.mk.injEq,
        CheckpointDraft.lineageKey]
      split
      · rename_i across
        refine iff_of_false (by simp) ?_
        rintro ⟨⟨_, ⟨tenants, periods⟩, _⟩, _⟩
        exact across.elim (absurd tenants) (absurd periods)
      · rename_i own
        simp only [not_or, not_not] at own
        split <;> simp_all

theorem seal_eq_ok [External] {dag dag' : CheckpointDag} {d : CheckpointDraft} {t : TimestampNs}
    {id : CheckpointId} : dag.seal d t = .ok (dag', id) ↔
      dag.checkTime d t = .ok () ∧ dag.checkSupersedes d = .ok () ∧
        id = sha256 (SealedCheckpoint.envelopeBytes t d) ∧ dag' = dag.push ⟨id, t, d⟩ := by
  simp only [«seal», bind_eq_ok, SealedCheckpoint.computeId_eq, Except.ok.injEq, Prod.mk.injEq]
  constructor
  · rintro ⟨_, time, _, target, rfl, rfl⟩
    exact ⟨time, target, rfl, rfl⟩
  · rintro ⟨time, target, rfl, rfl⟩
    exact ⟨(), time, (), target, rfl, rfl⟩

end CheckpointDag

end Treasury
