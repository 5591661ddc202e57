import Treasury.Evidence.Canon

/-! Policy artifacts, which are known by the hash of all that they consist of. -/
namespace Treasury
open Kit Kit.Json

def policySchema : String := "treasury-policy/artifact/v1"

/-- The contract that the body of a policy satisfies. -/
structure PolicyKind where
  value : String
  deriving DecidableEq

structure PolicyArtifact where
  kind : PolicyKind
  body : Tree
  approvers : List ActorId
  effectiveFrom : TimestampNs

inductive PolicyError where
  | noApprovers
  | canon (e : CanonError)
  deriving DecidableEq

namespace PolicyArtifact

def members (artifact : PolicyArtifact) : List (String × Value) :=
  [("schema", .string policySchema), ("kind", .string artifact.kind.value),
    ("body", artifact.body.value),
    ("approvers", .array (artifact.approvers.map fun a => .string a.value)),
    ("effective_from", artifact.effectiveFrom.toJson)]

def envelope (artifact : PolicyArtifact) : Value := .object (ofEntries artifact.members)

theorem envelope_injective {a b : PolicyArtifact} (h : a.envelope = b.envelope) : a = b := by
  have same := ofEntries_injective (by simp [members]) (by simp [members]) (Value.object.inj h)
  simp only [members, List.cons.injEq, Prod.mk.injEq, true_and, and_true, Value.string.injEq,
    Value.array.injEq] at same
  obtain ⟨kind, body, approvers, effectiveFrom⟩ := same
  obtain ⟨⟨kindA⟩, bodyA, approversA, fromA⟩ := a
  obtain ⟨⟨kindB⟩, bodyB, approversB, fromB⟩ := b
  obtain rfl : kindA = kindB := kind
  obtain rfl : bodyA = bodyB := Tree.ext_value body
  obtain rfl : approversA = approversB := approvers_injective approvers
  obtain rfl : fromA = fromB := TimestampNs.toJson_injective effectiveFrom
  rfl

theorem envelope_sorted (artifact : PolicyArtifact) : Sorted artifact.envelope := by
  refine sorted_object fun e member => ?_
  simp only [members, List.mem_cons, List.not_mem_nil, or_false] at member
  rcases member with rfl | rfl | rfl | rfl | rfl
  · trivial
  · trivial
  · exact artifact.body.sorted
  · exact (flat_array (n := 0) (by simp)).sorted
  · trivial

variable [External]

def policyHash (artifact : PolicyArtifact) : Except PolicyError ContentHash :=
  if artifact.approvers.isEmpty then .error .noApprovers
  else match canonicalBytes artifact.envelope with
    | .error e => .error (.canon e)
    | .ok bytes => .ok (sha256 bytes)

def preimage (artifact : PolicyArtifact) : Bytes := utf8 (toText artifact.envelope)

theorem policyHash_ok {artifact : PolicyArtifact} {hash : ContentHash}
    (hashed : artifact.policyHash = .ok hash) :
    artifact.approvers ≠ [] ∧ canonicalBytes artifact.envelope = .ok artifact.preimage ∧
      hash = sha256 artifact.preimage := by
  unfold policyHash at hashed
  split at hashed
  · cases hashed
  · rename_i approved
    split at hashed
    · cases hashed
    · rename_i bytes written
      obtain ⟨-, -, rfl⟩ := (canonicalBytes_eq_ok artifact.envelope_sorted).mp written
      cases hashed
      exact ⟨by simpa using approved, written, rfl⟩

theorem policyHash_eq {artifact : PolicyArtifact} {n : Nat} (approved : artifact.approvers ≠ [])
    (flat : Flat n artifact.body.value) (fits : n < maxDepth) :
    artifact.policyHash = .ok (sha256 artifact.preimage) := by
  have whole : Flat (max n 1 + 1) artifact.envelope := by
    refine flat_object (by simp [members]) ?_
    simp only [members, List.forall_mem_cons, List.not_mem_nil, false_imp_iff, implies_true,
      and_true, flat_string, true_and]
    have approvers : Flat 1 (.array (artifact.approvers.map fun a => .string a.value)) :=
      flat_array (by simp)
    exact ⟨flat.mono (le_max_left n 1), approvers.mono (le_max_right n 1), flat_string _ _⟩
  have shallow : max n 1 + 1 ≤ maxDepth := max_lt fits (by decide)
  unfold policyHash
  rw [if_neg (by simpa using approved), canonicalBytes_flat whole shallow]
  rfl

theorem policyHash_injective {a b : PolicyArtifact} {hash : ContentHash}
    (injective : Set.InjOn sha256 {a.preimage, b.preimage})
    (hashA : a.policyHash = .ok hash) (hashB : b.policyHash = .ok hash) : a = b := by
  obtain ⟨-, writtenA, rfl⟩ := policyHash_ok hashA
  obtain ⟨-, writtenB, same⟩ := policyHash_ok hashB
  have preimages : a.preimage = b.preimage :=
    injective (Set.mem_insert _ _) (Set.mem_insert_of_mem _ rfl) same
  rw [← preimages] at writtenB
  exact envelope_injective
    (canonicalBytes_injective a.envelope_sorted b.envelope_sorted writtenA writtenB)

end PolicyArtifact

end Treasury
