import Mathlib.Data.Finmap
import Treasury.Posting.Batch

/-! The contract of a general-ledger adapter, and the fixture ledger with injected faults. -/
namespace Treasury
open Kit

inductive SubmitOutcome where
  | acknowledged (glRef : String) (rawResponse : Bytes)
  | ackLost

structure GlReadback where
  glRef : Option String
  entryHashes : List ContentHash
  rawPayload : Bytes

inductive GlError where
  | transport (message : String)
  | auth (message : String)
  | rejected (message : String)
  deriving DecidableEq

def GlError.display : GlError → String
  | .transport message => "gl transport error: " ++ message
  | .auth message => "gl auth error: " ++ message
  | .rejected message => "gl rejected the batch: " ++ message

/-- An adapter with states in `G`. Submitting may change the state, whatever it answers;
reading back may not. -/
structure GlAdapter (G : Type) where
  submit : G → PostingBatch → ContentHash → G × Except GlError SubmitOutcome
  readBack : G → ContentHash → Except GlError GlReadback

inductive FixtureFault where
  | ackLostButPosted
  | ackLostNotPosted
  | dropOneEntryOnReadback
  | extraEntryOnReadback (hash : ContentHash)
  | transport
  deriving DecidableEq

structure FixtureGl.Posted where
  glRef : String
  entryHashes : List ContentHash
  readbackDropOne : Bool
  readbackExtra : Option ContentHash

structure FixtureGl where
  posted : Finmap fun _ : ContentHash => FixtureGl.Posted
  nextFault : Option FixtureFault
  seq : UInt64

namespace FixtureGl

def new : FixtureGl := ⟨∅, none, 0⟩

def inject (gl : FixtureGl) (fault : FixtureFault) : FixtureGl := { gl with nextFault := some fault }

section
variable [External]

/-- One record for each key, whose reference a repeated submission returns. -/
def record (gl : FixtureGl) (key : ContentHash) (batch : PostingBatch) :
    FixtureGl × Except GlError String :=
  match gl.posted.lookup key with
  | some existing => (gl, .ok existing.glRef)
  | none =>
    match batch.entryFingerprint with
    | .error e => (gl, .error (.rejected e.display))
    | .ok fingerprint =>
      let seq := if gl.seq = 18446744073709551615 then gl.seq else gl.seq + 1
      let glRef := "JE-" ++ toString seq.toNat
      let (dropOne, extra) := match gl.nextFault with
        | some .dropOneEntryOnReadback => (true, none)
        | some (.extraEntryOnReadback hash) => (false, some hash)
        | _ => (false, none)
      ({ gl with
          posted := gl.posted.insert key ⟨glRef, fingerprint, dropOne, extra⟩
          seq := seq }, .ok glRef)

def submit (gl : FixtureGl) (batch : PostingBatch) (key : ContentHash) :
    FixtureGl × Except GlError SubmitOutcome :=
  let taken := { gl with nextFault := none }
  match gl.nextFault with
  | some .transport => (taken, .error (.transport "injected"))
  | some .ackLostNotPosted => (taken, .ok .ackLost)
  | some .ackLostButPosted =>
    match taken.record key batch with
    | (next, .error e) => (next, .error e)
    | (next, .ok _) => (next, .ok .ackLost)
  | other =>
    -- a fault that shapes the read-back is armed again for the record
    match ({ taken with nextFault := other } : FixtureGl).record key batch with
    | (next, .error e) => (next, .error e)
    | (next, .ok glRef) =>
      ({ next with nextFault := none }, .ok (.acknowledged glRef (utf8 "fixture-ack")))

end

def readBack (gl : FixtureGl) (key : ContentHash) : Except GlError GlReadback :=
  match gl.posted.lookup key with
  | none => .ok ⟨none, [], utf8 "fixture-readback-absent"⟩
  | some posted =>
    let hashes := if posted.readbackDropOne then posted.entryHashes.dropLast else posted.entryHashes
    .ok ⟨some posted.glRef, hashes ++ posted.readbackExtra.toList, utf8 "fixture-readback"⟩

def adapter [External] : GlAdapter FixtureGl := ⟨submit, readBack⟩

def storing [External] (batch : PostingBatch) (key : ContentHash) : FixtureGl :=
  ⟨(∅ : Finmap fun _ : ContentHash => FixtureGl.Posted).insert key
    ⟨"JE-1", PostingBatch.fingerprint batch.hashes, false, none⟩, none, 1⟩

theorem submit_new [External] (batch : PostingBatch) (key : ContentHash) :
    new.submit batch key =
      (storing batch key, .ok (.acknowledged "JE-1" (utf8 "fixture-ack"))) := by
  have reference : "JE-" ++ Nat.repr 1 = "JE-1" := by decide
  simp [submit, record, new, batch.entryFingerprint_eq, storing, reference]

theorem submit_storing [External] (batch : PostingBatch) (key : ContentHash) :
    (storing batch key).submit batch key =
      (storing batch key, .ok (.acknowledged "JE-1" (utf8 "fixture-ack"))) := by
  simp [submit, record, storing]

theorem readBack_new (key : ContentHash) :
    new.readBack key = .ok ⟨none, [], utf8 "fixture-readback-absent"⟩ := by
  simp [readBack, new]

theorem readBack_storing [External] (batch : PostingBatch) (key : ContentHash) :
    (storing batch key).readBack key =
      .ok ⟨some "JE-1", PostingBatch.fingerprint batch.hashes, utf8 "fixture-readback"⟩ := by
  simp [readBack, storing]

end FixtureGl

end Treasury
