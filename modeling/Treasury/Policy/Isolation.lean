import Treasury.Kit.Unwinding
import Treasury.Policy.Registry

/-! What is in force for a tenant depends on its own activations and on the artifacts, which all
tenants register in one place. -/
namespace Treasury
open Kit

namespace PolicyRegistry

/-- Registrations are for everyone, an activation is for its tenant. -/
abbrev OwnPolicy (tenant : TenantId) : RegistryCall → Prop
  | .register _ => True
  | .activate other _ _ _ => other = tenant

instance (tenant : TenantId) : DecidablePred (OwnPolicy tenant)
  | .register _ => inferInstanceAs (Decidable True)
  | .activate other _ _ _ => inferInstanceAs (Decidable (other = tenant))

/-- The artifacts, and the timelines of a tenant. -/
def policiesOf (tenant : TenantId) (r : PolicyRegistry) :
    (Finmap fun _ : ContentHash => PolicyArtifact) × (PolicyKind → List ActivationRecord) :=
  (r.artifacts, r.timeline tenant)

section
variable {tenant : TenantId} {r other : PolicyRegistry}

theorem policiesOf_enter (same : policiesOf tenant r = policiesOf tenant other)
    (hash : ContentHash) (artifact : PolicyArtifact) :
    policiesOf tenant (r.enter hash artifact) = policiesOf tenant (other.enter hash artifact) := by
  obtain ⟨artifacts, timelines⟩ := Prod.ext_iff.mp same
  simp only [policiesOf] at artifacts timelines
  refine Prod.ext ?_ (funext fun kind => ?_)
  · simp only [policiesOf, enter, artifacts]
    split
    · exact artifacts
    · rfl
  · simp only [policiesOf, timeline_enter, timelines]

theorem policiesOf_push (same : policiesOf tenant r = policiesOf tenant other)
    (record : ActivationRecord) :
    policiesOf tenant (r.push record) = policiesOf tenant (other.push record) := by
  obtain ⟨artifacts, timelines⟩ := Prod.ext_iff.mp same
  simp only [policiesOf] at artifacts timelines
  refine Prod.ext artifacts (funext fun kind => ?_)
  simp only [policiesOf, timeline_push, timelines]

theorem activate_agrees (same : policiesOf tenant r = policiesOf tenant other) (kind : PolicyKind)
    (policyHash : ContentHash) (activatedAt : TimestampNs) :
    (r.activate tenant kind policyHash activatedAt).2 =
        (other.activate tenant kind policyHash activatedAt).2 ∧
      policiesOf tenant (r.activate tenant kind policyHash activatedAt).1 =
        policiesOf tenant (other.activate tenant kind policyHash activatedAt).1 := by
  have artifacts : r.artifacts = other.artifacts := congrArg Prod.fst same
  have timelines : r.timeline tenant kind = other.timeline tenant kind :=
    congrFun (congrArg Prod.snd same) kind
  have pushed := policiesOf_push same ⟨tenant, kind, policyHash, activatedAt⟩
  unfold activate
  rw [artifacts, timelines]
  cases other.artifacts.lookup policyHash with
  | none => exact ⟨rfl, same⟩
  | some artifact =>
    dsimp only
    split_ifs
    · exact ⟨rfl, same⟩
    · cases (other.timeline tenant kind).getLast? with
      | none => exact ⟨rfl, pushed⟩
      | some last =>
        dsimp only
        split_ifs
        · exact ⟨rfl, same⟩
        · exact ⟨rfl, pushed⟩

end

variable [External]

theorem unwinds_policies (tenant : TenantId) :
    Unwinds (advance perform) (fun r call => (r.perform call).2) (OwnPolicy tenant)
      (policiesOf tenant) (fun _ => True) where
  respects r call _ foreign := by
    cases call with
    | register artifact => exact absurd trivial foreign
    | activate other kind policyHash activatedAt =>
      rcases activate_cases r ⟨other, kind, policyHash, activatedAt⟩ with
        ⟨e, refused⟩ | ⟨-, -, accepted⟩
      · exact congrArg (policiesOf tenant) (congrArg Prod.fst refused)
      · refine (congrArg (policiesOf tenant) (congrArg Prod.fst accepted)).trans ?_
        refine Prod.ext rfl (funext fun k => ?_)
        have apart : (tenant, k) ≠ (other, kind) := fun same =>
          foreign (congrArg Prod.fst same).symm
        exact (timeline_push ..).trans (if_neg apart)
  consistent r other call _ _ same own := by
    cases call with
    | register artifact =>
      simp only [advance, perform, register]
      cases artifact.policyHash with
      | error e => exact ⟨rfl, same⟩
      | ok hash => exact ⟨rfl, policiesOf_enter same hash artifact⟩
    | activate _ kind policyHash activatedAt =>
      obtain rfl : _ = tenant := own
      exact activate_agrees same kind policyHash activatedAt

end PolicyRegistry

end Treasury
