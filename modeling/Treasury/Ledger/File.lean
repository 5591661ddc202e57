import Treasury.Kit.LineLog
import Treasury.Ledger.Ledger
import Treasury.Ledger.Record

/-! The durable ledger: an append-only file of records behind the ledger in
memory. Opening a file appends every recorded event again. -/
namespace Treasury
open Kit Kit.Json

inductive FileLedgerError where
  | io (message : String)
  | corruptRecord (line : Nat) (detail : String)
  | tornTail
  deriving DecidableEq

def FileLedgerError.toString : FileLedgerError → String
  | .io message => "io failure: " ++ message
  | .corruptRecord line detail => "corrupt record at line " ++ line.repr ++ ": " ++ detail
  | .tornTail => "torn trailing record; open_with_recovery truncates it"

structure FileLedger where
  inner : InMemoryLedger
  file : Bytes

namespace FileLedger
variable [External]

section
variable [LedgerReader]

def replay (index : Nat) : List Line → InMemoryLedger → Except FileLedgerError InMemoryLedger
  | [], inner => .ok inner
  | line :: rest, inner =>
    match readSealed (String.ofList line) with
    | none => .error (.corruptRecord index "not a sealed event")
    | some recorded =>
      match inner.append recorded.draft recorded.knowledgeTime with
      | .error _ => .error (.corruptRecord index "fails validation on replay")
      | .ok (inner, replayed) =>
        if replayed ≠ recorded.eventId then .error (.corruptRecord index "replayed id differs")
        else replay (index + 1) rest inner

def openInternal (file : Bytes) (recover : Bool) : Except FileLedgerError FileLedger := do
  let (inner, file) ← openLog (.io "stream did not contain valid UTF-8") .tornTail
    (replay 0 · .new) file recover
  return ⟨inner, file⟩

def «open» (file : Bytes) : Except FileLedgerError FileLedger := openInternal file false

def openWithRecovery (file : Bytes) : Except FileLedgerError FileLedger := openInternal file true

end

/-- Serializing a sealed event does not fail. -/
def persist (inner : InMemoryLedger) (file : Bytes) (tenant : TenantId) (fault : Option Fault) :
    Bytes × Except FileLedgerError Unit :=
  match (inner.stream tenant).getLast? with
  | none => (file, .error (.corruptRecord 0 "no event after append"))
  | some sealedEvent =>
    match writeParts file [utf8 (toText sealedEvent.record), utf8 "\n"] fault with
    | (file, .ok ()) => (file, .ok ())
    | (file, .error message) => (file, .error (.io message))

/-- The ledger in memory takes the event first; the error of a failed write does
not take it back. -/
def append (ledger : FileLedger) (draft : EventDraft) (knowledgeTime : TimestampNs)
    (fault : Option Fault) : FileLedger × Except LedgerError EventId :=
  match ledger.inner.append draft knowledgeTime with
  | .error e => (ledger, .error e)
  | .ok (inner, id) =>
    match persist inner ledger.file draft.tenant fault with
    | (file, .ok ()) => (⟨inner, file⟩, .ok id)
    | (file, .error e) => (⟨inner, file⟩, .error (.backend e.toString))

def asOf (ledger : FileLedger) (tenant : TenantId) (knowledgeTime : TimestampNs) :
    List SealedEvent :=
  ledger.inner.asOf tenant knowledgeTime

def stream (ledger : FileLedger) (tenant : TenantId) : List SealedEvent :=
  ledger.inner.stream tenant

end FileLedger

end Treasury
