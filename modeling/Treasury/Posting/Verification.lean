import Treasury.Posting.Protocol
import Treasury.Reference

/-! Read-back verification. The comparison is between sets of hashes, so it is exact for
read-backs that differ from the batch in some hash or hold every hash as often as the
batch does, and for no others. -/
namespace Treasury.PostingProtocol
open Kit

theorem state_setState (p : PostingProtocol) (id : ContentHash) (s : PostingState) :
    (p.setState id s).state id = some s := Finmap.lookup_insert p.states

theorem sort_sdiff_isEmpty (a b : List ContentHash) :
    (a.toFinset \ b.toFinset).sort.isEmpty ↔ ∀ h ∈ a, h ∈ b := by
  simp only [List.isEmpty_iff, List.eq_nil_iff_forall_not_mem, Finset.mem_sort, Finset.mem_sdiff,
    List.mem_toFinset, not_and, not_not]

theorem compare_same {expected readback : List ContentHash} (evidence : ContentHash)
    (glRef : String) (same : ∀ h, h ∈ expected ↔ h ∈ readback) :
    compare expected readback evidence glRef = .verified glRef evidence := by
  have missing := (sort_sdiff_isEmpty expected readback).mpr fun h => (same h).mp
  have unexpected := (sort_sdiff_isEmpty readback expected).mpr fun h => (same h).mpr
  exact if_pos ⟨missing, unexpected⟩

theorem compare_differ {expected readback : List ContentHash} (evidence : ContentHash)
    (glRef : String) (differ : ¬∀ h, h ∈ expected ↔ h ∈ readback) :
    ∃ missing unexpected,
      compare expected readback evidence glRef = .verificationFailed missing unexpected evidence := by
  refine ⟨_, _, if_neg fun ⟨missing, unexpected⟩ => differ fun h => ?_⟩
  have there := (sort_sdiff_isEmpty expected readback).mp missing
  have back := (sort_sdiff_isEmpty readback expected).mp unexpected
  exact ⟨there h, back h⟩

section
variable [External]

/-- Verification moves the batch to `Verified` for the read-backs that are its entries
in some order, and to `VerificationFailed` for all others. -/
def VerifiesExactly (p : PostingProtocol) (id : ContentHash) (batch : PostingBatch)
    (readback : List ContentHash) (evidence : ContentHash) : Prop :=
  ((∃ glRef, (p.verify id readback evidence).1.state id = some (.verified glRef evidence)) ↔
    readback.Perm batch.hashes) ∧
  ((∃ missing unexpected, (p.verify id readback evidence).1.state id =
      some (.verificationFailed missing unexpected evidence)) ↔ ¬readback.Perm batch.hashes)

theorem verify_posted {p : PostingProtocol} {id : ContentHash} {batch : PostingBatch}
    {glRef : String} {response : ContentHash} (registered : p.approvals.payload id = some batch)
    (posted : p.state id = some (.posted glRef response)) (readback : List ContentHash)
    (evidence : ContentHash) :
    (p.verify id readback evidence).1.state id =
      some (compare (PostingBatch.fingerprint batch.hashes) readback evidence glRef) := by
  simp only [verify, registered, batch.entryFingerprint_eq, transition, posted]
  exact state_setState p id _

/-- A posted batch is verified exactly unless the read-back names the same hashes as the
batch and some of them a different number of times. -/
theorem verifiesExactly_iff {p : PostingProtocol} {id : ContentHash} {batch : PostingBatch}
    {glRef : String} {response : ContentHash} (registered : p.approvals.payload id = some batch)
    (posted : p.state id = some (.posted glRef response)) (readback : List ContentHash)
    (evidence : ContentHash) :
    p.VerifiesExactly id batch readback evidence ↔
      ((∀ h, h ∈ batch.hashes ↔ h ∈ readback) →
        ∀ h, readback.count h = batch.hashes.count h) := by
  rw [VerifiesExactly, verify_posted registered posted, ← List.perm_iff_count]
  by_cases same : ∀ h, h ∈ batch.hashes ↔ h ∈ readback
  · have verified := compare_same evidence glRef fun h =>
      PostingBatch.mem_fingerprint.trans (same h)
    simp [verified, same]
  · have differ : ¬∀ h, h ∈ PostingBatch.fingerprint batch.hashes ↔ h ∈ readback := by
      simpa using same
    obtain ⟨missing, unexpected, failed⟩ := compare_differ evidence glRef differ
    have notPerm : ¬readback.Perm batch.hashes := fun perm => same fun h => perm.mem_iff.symm
    simp [failed, same, notPerm]

/-- A batch registered by one actor, released by another, submitted and acknowledged. -/
def acknowledged (batch : PostingBatch) : PostingProtocol :=
  let registered := (new.register batch ⟨"alice"⟩).1
  let released := (registered.release batch.key ⟨"bob"⟩).1
  let submitted := (released.beginSubmit batch.key).1
  (submitted.confirmPosted batch.key "JE-1" (.filled 5)).1

theorem acknowledged_posted (batch : PostingBatch) :
    (acknowledged batch).approvals.payload batch.key = some batch ∧
      (acknowledged batch).state batch.key = some (.posted "JE-1" (.filled 5)) := by
  let approvals : DualControlQueue PostingBatch :=
    ⟨(Docket.empty.items.insert batch.key (batch, .asserted ⟨"alice"⟩)).insert batch.key
      (batch, .confirmed ⟨"alice"⟩ ⟨"bob"⟩)⟩
  let states : Finmap fun _ : ContentHash => PostingState :=
    (∅ : Finmap fun _ : ContentHash => PostingState).insert batch.key .awaitingApproval
  have released : ((new.register batch ⟨"alice"⟩).1.release batch.key ⟨"bob"⟩).1 =
      setState ⟨approvals, states⟩ batch.key .readyToSubmit := by
    have different : (⟨"alice"⟩ : ActorId) ≠ ⟨"bob"⟩ := by decide
    simp [register, batch.batchId_eq, new, state, DualControlQueue.propose, Docket.enter, release,
      DualControlQueue.confirm, Docket.move, DualControlState.confirm, different, transition,
      approvals, states]
  have submitted : (PostingProtocol.beginSubmit (setState ⟨approvals, states⟩ batch.key
      .readyToSubmit) batch.key).1 =
      setState (setState ⟨approvals, states⟩ batch.key .readyToSubmit) batch.key .submitting := by
    simp [beginSubmit, transition, state_setState]
  simp only [acknowledged, released, submitted, confirmPosted, transition, state_setState]
  refine ⟨?_, trivial⟩
  simp [setState, Docket.payload, Docket.item, approvals]

end

def remeasurement : JournalEntry :=
  ⟨"asu2023_08_remeasurement",
    [⟨.debit, .cryptoAssets, ⟨⟨"USD"⟩, ⟨30, by decide, by decide⟩⟩⟩,
      ⟨.credit, .unrealizedCryptoGainLoss, ⟨⟨"USD"⟩, ⟨30, by decide, by decide⟩⟩⟩], .filled 9⟩

def remeasuredTimes (n : Nat) : PostingBatch :=
  ⟨⟨"acme"⟩, "netsuite:prod", "2026Q2", List.replicate n remeasurement⟩

def reversal : JournalEntry :=
  ⟨"asu2023_08_remeasurement",
    [⟨.debit, .unrealizedCryptoGainLoss, ⟨⟨"USD"⟩, ⟨20, by decide, by decide⟩⟩⟩,
      ⟨.credit, .cryptoAssets, ⟨⟨"USD"⟩, ⟨20, by decide, by decide⟩⟩⟩], .filled 10⟩

/-- A read-back shows an entry that the batch holds twice and another one, in another order. -/
theorem verifiesExactly_reordered :
    letI : External := reference
    let batch : PostingBatch := { remeasuredTimes 2 with
      entries := [remeasurement, remeasurement, reversal] }
    (acknowledged batch).VerifiesExactly batch.key batch
      [reversal.contentHash, remeasurement.contentHash, remeasurement.contentHash] (.filled 6) := by
  let _ : External := reference
  intro batch
  obtain ⟨registered, posted⟩ := acknowledged_posted batch
  have hashes : batch.hashes =
      [remeasurement.contentHash, remeasurement.contentHash, reversal.contentHash] := rfl
  have reordered : [reversal.contentHash, remeasurement.contentHash,
      remeasurement.contentHash].Perm batch.hashes := by
    rw [hashes]
    exact @List.perm_append_comm _ [reversal.contentHash] _
  exact (verifiesExactly_iff registered posted _ _).mpr fun _ => reordered.count_eq

/-- A batch that holds one entry twice is verified by a read-back that shows it once. -/
theorem lost_entry_verified :
    letI : External := reference
    ¬(acknowledged (remeasuredTimes 2)).VerifiesExactly (remeasuredTimes 2).key
      (remeasuredTimes 2) [remeasurement.contentHash] (.filled 6) := by
  let _ : External := reference
  obtain ⟨registered, posted⟩ := acknowledged_posted (remeasuredTimes 2)
  have hashes : (remeasuredTimes 2).hashes =
      [remeasurement.contentHash, remeasurement.contentHash] := rfl
  rintro ⟨exact, _⟩
  have same := compare_same (.filled 6) "JE-1" fun h =>
    (PostingBatch.mem_fingerprint : h ∈ PostingBatch.fingerprint (remeasuredTimes 2).hashes ↔ _).trans
      (by simp [hashes] : _ ↔ h ∈ [remeasurement.contentHash])
  have verified := verify_posted registered posted [remeasurement.contentHash] (.filled 6)
  rw [same] at verified
  have perm := exact.mp ⟨_, verified⟩
  exact absurd perm.length_eq (by rw [hashes]; decide)

end Treasury.PostingProtocol
