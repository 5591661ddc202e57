import Mathlib.Data.Finmap
import Treasury.Kit.Lifecycle
import Treasury.Kit.Timeline
import Treasury.Policy.Artifact
import Treasury.Reference

/-! The registry of policies: artifacts under their hashes, and for each tenant and kind the
activations in order of knowledge time. What governed at a time is found from the end. -/
namespace Treasury
open Kit

structure ActivationRecord where
  tenant : TenantId
  kind : PolicyKind
  policyHash : ContentHash
  activatedAt : TimestampNs
  deriving DecidableEq

structure PolicyRegistry where
  artifacts : Finmap fun _ : ContentHash => PolicyArtifact
  timelines : Finmap fun _ : TenantId × PolicyKind => List ActivationRecord

inductive RegistryError where
  | unknownPolicy (hash : ContentHash)
  | kindMismatch (artifactKind requested : PolicyKind)
  | nonMonotonicActivation (last proposed : TimestampNs)
  | policy (e : PolicyError)
  deriving DecidableEq

namespace PolicyRegistry

def new : PolicyRegistry := ⟨∅, ∅⟩

def artifact (r : PolicyRegistry) (hash : ContentHash) : Option PolicyArtifact :=
  r.artifacts.lookup hash

def timeline (r : PolicyRegistry) (tenant : TenantId) (kind : PolicyKind) :
    List ActivationRecord :=
  (r.timelines.lookup (tenant, kind)).getD []

def activeAt (r : PolicyRegistry) (tenant : TenantId) (kind : PolicyKind) (time : TimestampNs) :
    Option ContentHash := do
  let timeline ← r.timelines.lookup (tenant, kind)
  let record ← timeline.reverse.find? fun record => record.activatedAt ≤ time
  return record.policyHash

/-- The first artifact under a hash stays. -/
def enter (r : PolicyRegistry) (hash : ContentHash) (artifact : PolicyArtifact) : PolicyRegistry :=
  match r.artifacts.lookup hash with
  | some _ => r
  | none => { r with artifacts := r.artifacts.insert hash artifact }

def push (r : PolicyRegistry) (record : ActivationRecord) : PolicyRegistry :=
  let timeline := r.timeline record.tenant record.kind ++ [record]
  { r with timelines := r.timelines.insert (record.tenant, record.kind) timeline }

def activate (r : PolicyRegistry) (tenant : TenantId) (kind : PolicyKind)
    (policyHash : ContentHash) (activatedAt : TimestampNs) :
    PolicyRegistry × Except RegistryError Unit :=
  match r.artifacts.lookup policyHash with
  | none => (r, .error (.unknownPolicy policyHash))
  | some artifact =>
    if artifact.kind ≠ kind then (r, .error (.kindMismatch artifact.kind kind))
    else
      let record := ⟨tenant, kind, policyHash, activatedAt⟩
      -- a timeline that refuses the record has a last one, so asking for it added nothing
      match (r.timeline tenant kind).getLast? with
      | some last =>
        if activatedAt ≤ last.activatedAt then
          (r, .error (.nonMonotonicActivation last.activatedAt activatedAt))
        else (r.push record, .ok ())
      | none => (r.push record, .ok ())

theorem activeAt_eq (r : PolicyRegistry) (tenant : TenantId) (kind : PolicyKind)
    (time : TimestampNs) : r.activeAt tenant kind time =
      (latestAt ActivationRecord.activatedAt time (r.timeline tenant kind)).map
        ActivationRecord.policyHash := by
  unfold activeAt timeline latestAt
  cases r.timelines.lookup (tenant, kind) with
  | none => rfl
  | some timeline => exact Option.map_eq_bind.symm

theorem timeline_push (r : PolicyRegistry) (record : ActivationRecord) (tenant : TenantId)
    (kind : PolicyKind) : (r.push record).timeline tenant kind =
      if (tenant, kind) = (record.tenant, record.kind) then r.timeline tenant kind ++ [record]
      else r.timeline tenant kind := by
  by_cases same : (tenant, kind) = (record.tenant, record.kind)
  · cases same
    simp [push, timeline]
  · rw [if_neg same]
    exact congrArg (Option.getD · []) (Finmap.lookup_insert_of_ne r.timelines same)

theorem timeline_enter (r : PolicyRegistry) (hash : ContentHash) (artifact : PolicyArtifact)
    (tenant : TenantId) (kind : PolicyKind) :
    (r.enter hash artifact).timeline tenant kind = r.timeline tenant kind := by
  unfold enter
  split <;> rfl

theorem artifact_enter (r : PolicyRegistry) (hash key : ContentHash) (entered : PolicyArtifact) :
    (r.enter hash entered).artifact key =
      (r.artifact key).orElse fun _ => if key = hash then some entered else none := by
  unfold enter artifact
  by_cases same : key = hash
  · subst same
    cases found : r.artifacts.lookup key <;> simp [found]
  · cases r.artifacts.lookup hash <;> simp [same]

inductive RegistryCall where
  | register (artifact : PolicyArtifact)
  | activate (tenant : TenantId) (kind : PolicyKind) (policyHash : ContentHash)
    (activatedAt : TimestampNs)

def activationOf (tenant : TenantId) (kind : PolicyKind) : RegistryCall → Option ActivationRecord
  | .register _ => none
  | .activate t k policyHash activatedAt =>
    if (tenant, kind) = (t, k) then some ⟨t, k, policyHash, activatedAt⟩ else none

section
variable [External]

def register (r : PolicyRegistry) (artifact : PolicyArtifact) :
    PolicyRegistry × Except RegistryError ContentHash :=
  match artifact.policyHash with
  | .error e => (r, .error (.policy e))
  | .ok hash => (r.enter hash artifact, .ok hash)

def perform (r : PolicyRegistry) : RegistryCall → PolicyRegistry × Except RegistryError Unit
  | .register artifact =>
    let (next, result) := r.register artifact
    (next, result.map fun _ => ())
  | .activate tenant kind policyHash activatedAt =>
    r.activate tenant kind policyHash activatedAt

omit [External] in
theorem activate_cases (r : PolicyRegistry) (record : ActivationRecord) :
    (∃ e, r.activate record.tenant record.kind record.policyHash record.activatedAt =
      (r, .error e)) ∨
    (∃ artifact, r.artifact record.policyHash = some artifact ∧ artifact.kind = record.kind) ∧
      (∀ last, (r.timeline record.tenant record.kind).getLast? = some last →
        last.activatedAt < record.activatedAt) ∧
      r.activate record.tenant record.kind record.policyHash record.activatedAt =
        (r.push record, .ok ()) := by
  unfold activate artifact
  cases found : r.artifacts.lookup record.policyHash with
  | none => exact .inl ⟨_, rfl⟩
  | some artifact =>
    by_cases kind : artifact.kind = record.kind
    · cases newest : (r.timeline record.tenant record.kind).getLast? with
      | none =>
        refine .inr ⟨⟨artifact, rfl, kind⟩, ?_, ?_⟩
        · rintro _ ⟨⟩
        · simp only [kind, ne_eq, not_true, if_false]
      | some last =>
        by_cases late : record.activatedAt ≤ last.activatedAt
        · refine .inl ⟨.nonMonotonicActivation last.activatedAt record.activatedAt, ?_⟩
          simp only [kind, ne_eq, not_true, if_false, late, if_true]
        · refine .inr ⟨⟨artifact, rfl, kind⟩, ?_, ?_⟩
          · rintro _ ⟨⟩
            exact not_le.mp late
          · simp only [kind, ne_eq, not_true, if_false, late]
    · exact .inl ⟨.kindMismatch artifact.kind record.kind, if_pos kind⟩

theorem perform_cases (r : PolicyRegistry) (c : RegistryCall) :
    (∃ e, r.perform c = (r, .error e)) ∨
    (∃ artifact hash, c = .register artifact ∧ artifact.policyHash = .ok hash ∧
      r.perform c = (r.enter hash artifact, .ok ())) ∨
    ∃ record : ActivationRecord,
      c = .activate record.tenant record.kind record.policyHash record.activatedAt ∧
      (∃ artifact, r.artifact record.policyHash = some artifact ∧ artifact.kind = record.kind) ∧
      (∀ last, (r.timeline record.tenant record.kind).getLast? = some last →
        last.activatedAt < record.activatedAt) ∧ r.perform c = (r.push record, .ok ()) := by
  cases c with
  | register artifact =>
    cases hashed : artifact.policyHash with
    | error e => exact .inl ⟨.policy e, by simp only [perform, register, hashed, Except.map]⟩
    | ok hash =>
      refine .inr (.inl ⟨artifact, hash, rfl, hashed, ?_⟩)
      simp only [perform, register, hashed, Except.map]
  | activate tenant kind policyHash activatedAt =>
    rcases activate_cases r ⟨tenant, kind, policyHash, activatedAt⟩ with
      ⟨e, refused⟩ | ⟨known, later, accepted⟩
    · exact .inl ⟨e, refused⟩
    · exact .inr (.inr ⟨⟨tenant, kind, policyHash, activatedAt⟩, rfl, known, later, accepted⟩)

def activations (calls : List RegistryCall) (tenant : TenantId) (kind : PolicyKind) :
    List ActivationRecord :=
  (succeeded perform new calls).filterMap (activationOf tenant kind)

/-- What a registry in use holds, by the calls that were accepted. -/
structure Sound (taken : List RegistryCall) (r : PolicyRegistry) : Prop where
  recorded : ∀ tenant kind, r.timeline tenant kind = taken.filterMap (activationOf tenant kind)
  ascending : ∀ tenant kind, Ascending ActivationRecord.activatedAt (r.timeline tenant kind)
  backed : ∀ tenant kind, ∀ record ∈ r.timeline tenant kind,
    ∃ artifact, r.artifact record.policyHash = some artifact ∧ artifact.kind = kind
  stored : ∀ hash artifact, r.artifact hash = some artifact →
    artifact.policyHash = .ok hash ∧ .register artifact ∈ taken

theorem sound_new : Sound [] new where
  recorded _ _ := rfl
  ascending _ _ := List.Pairwise.nil
  backed _ _ _ member := absurd member (List.not_mem_nil)
  stored hash _ found := absurd (found.symm.trans (Finmap.lookup_empty hash)) nofun

theorem Sound.enter {taken : List RegistryCall} {r : PolicyRegistry} (sound : Sound taken r)
    {artifact : PolicyArtifact} {hash : ContentHash} (hashed : artifact.policyHash = .ok hash) :
    Sound (taken ++ [.register artifact]) (r.enter hash artifact) where
  recorded tenant kind := by
    simp [timeline_enter, sound.recorded, activationOf]
  ascending tenant kind := by
    rw [timeline_enter]
    exact sound.ascending tenant kind
  backed tenant kind record member := by
    rw [timeline_enter] at member
    obtain ⟨kept, found, same⟩ := sound.backed tenant kind record member
    exact ⟨kept, by rw [artifact_enter, found]; rfl, same⟩
  stored key kept found := by
    rw [artifact_enter] at found
    cases before : r.artifact key with
    | some old =>
      simp only [before, Option.orElse_some, Option.some.injEq] at found
      subst found
      exact (sound.stored key old before).imp_right (List.mem_append_left _)
    | none =>
      simp only [before, Option.orElse_none, Option.ite_none_right_eq_some,
        Option.some.injEq] at found
      obtain ⟨rfl, rfl⟩ := found
      exact ⟨hashed, List.mem_append_right _ (List.mem_singleton_self _)⟩

theorem Sound.push {taken : List RegistryCall} {r : PolicyRegistry} (sound : Sound taken r)
    {record : ActivationRecord}
    (known : ∃ artifact, r.artifact record.policyHash = some artifact ∧
      artifact.kind = record.kind)
    (later : ∀ last, (r.timeline record.tenant record.kind).getLast? = some last →
      last.activatedAt < record.activatedAt) :
    Sound (taken ++ [.activate record.tenant record.kind record.policyHash record.activatedAt])
      (r.push record) where
  recorded tenant kind := by
    rw [timeline_push, List.filterMap_append, sound.recorded]
    by_cases same : (tenant, kind) = (record.tenant, record.kind) <;> simp [activationOf, same]
  ascending tenant kind := by
    rw [timeline_push]
    split
    · rename_i same
      cases same
      exact (sound.ascending _ _).concat later
    · exact sound.ascending tenant kind
  backed tenant kind other member := by
    rw [timeline_push] at member
    split at member
    · rename_i same
      cases same
      rcases List.mem_append.mp member with before | here
      · exact sound.backed _ _ other before
      · cases List.mem_singleton.mp here
        exact known
    · exact sound.backed tenant kind other member
  stored hash artifact found :=
    (sound.stored hash artifact found).imp_right (List.mem_append_left _)

theorem sound_registry (calls : List RegistryCall) :
    Sound (succeeded perform new calls) (run (advance perform) new calls) := by
  induction calls using List.reverseRecOn with
  | nil => exact sound_new
  | append_singleton calls c ih =>
    rw [succeeded_concat, run_append]
    generalize run (advance perform) new calls = r at ih ⊢
    rcases perform_cases r c with ⟨e, refused⟩ | ⟨artifact, hash, rfl, hashed, accepted⟩ |
      ⟨record, rfl, known, later, accepted⟩
    · simpa [success, run, advance, refused] using ih
    · simpa [success, run, advance, accepted] using ih.enter hashed
    · simpa [success, run, advance, accepted] using ih.push known later

/-- What the registry answers about one timeline after the calls, and after more of them. -/
structure InForce (calls : List RegistryCall) (tenant : TenantId) (kind : PolicyKind) : Prop where
  governed : ∀ time hash, (run (advance perform) new calls).activeAt tenant kind time = some hash ↔
    ∃ record, LatestAt ActivationRecord.activatedAt time (activations calls tenant kind) record ∧
      record.policyHash = hash
  ungoverned : ∀ time, (run (advance perform) new calls).activeAt tenant kind time = none ↔
    ∀ record ∈ activations calls tenant kind, time < record.activatedAt
  backed : ∀ time hash, (run (advance perform) new calls).activeAt tenant kind time = some hash →
    ∃ artifact, (run (advance perform) new calls).artifact hash = some artifact ∧
      artifact.kind = kind ∧ artifact.approvers ≠ [] ∧ artifact.policyHash = .ok hash ∧
      .register artifact ∈ succeeded perform new calls ∧
      ∀ other, .register other ∈ succeeded perform new calls →
        other.policyHash = .ok hash → other = artifact
  stable : ∀ time, (∃ record ∈ activations calls tenant kind, time ≤ record.activatedAt) →
    ∀ more, (run (advance perform) new (calls ++ more)).activeAt tenant kind time =
      (run (advance perform) new calls).activeAt tenant kind time

theorem activeAt_run (calls : List RegistryCall) (tenant : TenantId) (kind : PolicyKind)
    (time : TimestampNs) : (run (advance perform) new calls).activeAt tenant kind time =
      (latestAt ActivationRecord.activatedAt time (activations calls tenant kind)).map
        ActivationRecord.policyHash := by
  rw [activeAt_eq, (sound_registry calls).recorded tenant kind]
  rfl

theorem activations_ascending (calls : List RegistryCall) (tenant : TenantId)
    (kind : PolicyKind) :
    Ascending ActivationRecord.activatedAt (activations calls tenant kind) := by
  have ascending := (sound_registry calls).ascending tenant kind
  rwa [(sound_registry calls).recorded tenant kind] at ascending

/-- Which policy was in force at a time is the last activation not after it, of an artifact that
was registered and approved, and no later call changes it for a time that is already covered. -/
theorem policy_in_force (calls : List RegistryCall) (tenant : TenantId) (kind : PolicyKind)
    (injective : Set.InjOn sha256 {b | ∃ artifact, b = PolicyArtifact.preimage artifact ∧
      .register artifact ∈ succeeded perform new calls}) : InForce calls tenant kind := by
  have sound := sound_registry calls
  have ascending := activations_ascending calls tenant kind
  constructor
  case governed =>
    intro time hash
    simp only [activeAt_run, Option.map_eq_some_iff, latestAt_eq_some ascending]
  case ungoverned =>
    intro time
    rw [activeAt_run, Option.map_eq_none_iff, latestAt_eq_none]
  case backed =>
    intro time hash active
    rw [activeAt_eq] at active
    obtain ⟨record, last, rfl⟩ := Option.map_eq_some_iff.mp active
    have member := ((latestAt_eq_some (sound.ascending tenant kind)).mp last).1
    obtain ⟨artifact, found, same⟩ := sound.backed tenant kind record member
    obtain ⟨hashed, registered⟩ := sound.stored _ artifact found
    have approved := (PolicyArtifact.policyHash_ok hashed).1
    refine ⟨artifact, found, same, approved, hashed, registered, fun other entered again => ?_⟩
    refine PolicyArtifact.policyHash_injective (injective.mono ?_) again hashed
    rintro b (here | here)
    · exact ⟨other, here, entered⟩
    · exact ⟨artifact, here, registered⟩
  case stable =>
    rintro time ⟨record, member, covered⟩ more
    have whole := activations_ascending (calls ++ more) tenant kind
    have grown : activations (calls ++ more) tenant kind = activations calls tenant kind ++
        (succeeded perform (run (advance perform) new calls) more).filterMap
          (activationOf tenant kind) := by
      simp only [activations, succeeded_append, List.filterMap_append]
    rw [grown] at whole
    rw [activeAt_run, activeAt_run, grown, latestAt_append (whole.later member covered)]

def venues : PolicyArtifact where
  kind := ⟨"principal-market/v1"⟩
  body := ⟨.null, trivial⟩
  approvers := [⟨"cfo"⟩, ⟨"controller"⟩]
  effectiveFrom := ⟨0⟩

theorem venues_hash : venues.policyHash = .ok (sha256 venues.preimage) :=
  PolicyArtifact.policyHash_eq (List.cons_ne_nil _ _) (Json.flat_null 0) (by decide)

def venuesRecord : ActivationRecord where
  tenant := ⟨"acme"⟩
  kind := ⟨"principal-market/v1"⟩
  policyHash := sha256 venues.preimage
  activatedAt := ⟨.literal 10⟩

def venuesActivation (tenant : TenantId) (activatedAt : TimestampNs) : RegistryCall :=
  .activate tenant ⟨"principal-market/v1"⟩ (sha256 venues.preimage) activatedAt

def venuesCalls : List RegistryCall :=
  [.register venues, venuesActivation ⟨"acme"⟩ venuesRecord.activatedAt,
    venuesActivation ⟨"acme"⟩ venuesRecord.activatedAt, venuesActivation ⟨"other"⟩ ⟨0⟩]

theorem succeeded_venues : succeeded perform new venuesCalls =
    [.register venues, venuesActivation ⟨"acme"⟩ venuesRecord.activatedAt,
      venuesActivation ⟨"other"⟩ ⟨0⟩] := by
  have kind : venues.kind = ⟨"principal-market/v1"⟩ := rfl
  simp [venuesCalls, venuesActivation, succeeded, success, advance, perform, register, venues_hash,
    enter, activate, new, push, timeline, kind, Except.map]

theorem activations_venues :
    activations venuesCalls ⟨"acme"⟩ ⟨"principal-market/v1"⟩ = [venuesRecord] := by
  rw [activations, succeeded_venues]
  rfl

omit [External] in
theorem policy_in_force_venues : letI : External := reference
    (run (advance perform) new
        (venuesCalls ++ [venuesActivation ⟨"acme"⟩ ⟨.literal 20⟩])).activeAt ⟨"acme"⟩
      ⟨"principal-market/v1"⟩ venuesRecord.activatedAt = some venuesRecord.policyHash := by
  let _ : External := reference
  have injective : Set.InjOn sha256 {b | ∃ artifact, b = PolicyArtifact.preimage artifact ∧
      .register artifact ∈ succeeded perform new venuesCalls} := by
    rw [succeeded_venues]
    simp [venuesActivation]
  have force := policy_in_force venuesCalls ⟨"acme"⟩ ⟨"principal-market/v1"⟩ injective
  have only := activations_venues
  refine (force.stable _ ⟨venuesRecord, ?_, le_refl _⟩ _).trans ?_
  · exact only ▸ List.mem_singleton_self _
  · refine (force.governed _ _).mpr ⟨venuesRecord, ?_, rfl⟩
    rw [only]
    exact ⟨List.mem_singleton_self _, le_refl _, by simp⟩

end

end PolicyRegistry

end Treasury
