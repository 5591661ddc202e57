import Treasury.Gaap.Entry
import Treasury.Kit.Sort

/-! Posting batches: the content address of a batch is its idempotency key. -/
namespace Treasury
open Kit Kit.Json

def batchSchema : String := "treasury-posting/batch/v1"

structure PostingBatch where
  tenant : TenantId
  targetGl : String
  period : String
  entries : List JournalEntry
  deriving DecidableEq

namespace PostingBatch

section
variable [External]

def entryHashes : List JournalEntry → Except CanonError (List ContentHash)
  | [] => .ok []
  | entry :: entries =>
    match entry.entryHash with
    | .error (.canon e) => .error e
    | .error _ => .error (.encode "entry hash failed")
    | .ok hash => do
      let hashes ← entryHashes entries
      return hash :: hashes

def envelope (batch : PostingBatch) (hashes : List ContentHash) : Value :=
  .object (ofEntries [("schema", .string batchSchema), ("tenant", .string batch.tenant.value),
    ("target_gl", .string batch.targetGl), ("period", .string batch.period),
    ("entries", .array (hashes.map fun h => .string h.toHex))])

def batchId (batch : PostingBatch) : Except CanonError ContentHash := do
  let hashes ← entryHashes batch.entries
  let bytes ← canonicalBytes (batch.envelope hashes)
  return sha256 bytes

def fingerprint (hashes : List ContentHash) : List ContentHash := dedupAdjacent (sortBy id hashes)

def entryFingerprint (batch : PostingBatch) : Except CanonError (List ContentHash) := do
  let hashes ← entryHashes batch.entries
  return fingerprint hashes

def hashes (batch : PostingBatch) : List ContentHash := batch.entries.map (·.contentHash)

theorem entryHashes_eq (entries : List JournalEntry) :
    entryHashes entries = .ok (entries.map (·.contentHash)) := by
  induction entries with
  | nil => rfl
  | cons entry entries ih =>
    rw [entryHashes, entry.entryHash_eq, ih]
    rfl

theorem entryFingerprint_eq (batch : PostingBatch) :
    batch.entryFingerprint = .ok (fingerprint batch.hashes) := by
  rw [entryFingerprint, entryHashes_eq]
  rfl

omit [External] in
@[simp] theorem mem_fingerprint {hashes : List ContentHash} {h : ContentHash} :
    h ∈ fingerprint hashes ↔ h ∈ hashes := by
  simp [fingerprint]

omit [External] in
theorem flat (batch : PostingBatch) (hashes : List ContentHash) : Flat 2 (batch.envelope hashes) := by
  apply flat_object (by simp)
  intro e h
  simp only [List.mem_cons, List.not_mem_nil, or_false] at h
  rcases h with rfl | rfl | rfl | rfl | rfl
  · exact flat_string 1 _
  · exact flat_string 1 _
  · exact flat_string 1 _
  · exact flat_string 1 _
  · apply flat_array
    intro v hv
    obtain ⟨h, _, rfl⟩ := List.mem_map.mp hv
    exact flat_string 0 _

def key (batch : PostingBatch) : ContentHash :=
  sha256 (utf8 (toText (batch.envelope batch.hashes)))

theorem batchId_eq (batch : PostingBatch) : batch.batchId = .ok batch.key := by
  have accepted := canonicalBytes_flat (batch.flat batch.hashes) (by decide)
  rw [batchId, entryHashes_eq]
  simp only [bind_eq_ok, pure_eq_ok]
  exact ⟨batch.hashes, rfl, _, accepted, rfl⟩

end

end PostingBatch

end Treasury
