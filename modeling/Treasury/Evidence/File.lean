import Treasury.Kit.LineLog
import Treasury.Kit.Run
import Treasury.Evidence.Store
import Treasury.Reference

/-! The durable evidence store: an append-only file of lines behind the store in
memory. Each line records a digest and a blob in hexadecimal and is verified
again when the file is opened. -/
namespace Treasury
open Kit Kit.Json

inductive FileStoreError where
  | io (message : String)
  | corruptRecord (line : Nat) (detail : String)
  | tornTail
  | store (error : StoreError)
  deriving DecidableEq

def FileStoreError.toString : FileStoreError → String
  | .io message => "io failure: " ++ message
  | .corruptRecord line detail => "corrupt record at line " ++ line.repr ++ ": " ++ detail
  | .tornTail => "torn trailing record; open_with_recovery truncates it"
  | .store error => error.toString

structure FileEvidenceStore where
  inner : InMemoryEvidenceStore
  file : Bytes

def textMember (key : String) : Value → Option String
  | .object map =>
    match lookup key map with
    | some (.string s) => some s
    | _ => none
  | _ => none

namespace FileEvidenceStore
variable [External]

def readRecord (index : Nat) (line : Line) : Except FileStoreError Bytes :=
  match fromStr (String.ofList line) with
  | none => .error (.corruptRecord index "not json")
  | some record =>
    match textMember "hash" record, textMember "blob" record with
    | none, _ => .error (.corruptRecord index "missing hash")
    | some _, none => .error (.corruptRecord index "missing blob")
    | some hashHex, some blobHex =>
      match ContentHash.fromHex hashHex, hexDecode blobHex with
      | .error _, _ => .error (.corruptRecord index "bad hash hex")
      | .ok _, none => .error (.corruptRecord index "bad blob hex")
      | .ok recorded, some blob =>
        if sha256 blob ≠ recorded then
          .error (.corruptRecord index "blob does not match hash")
        else .ok blob

def replay (index : Nat) : List Line → InMemoryEvidenceStore →
    Except FileStoreError InMemoryEvidenceStore
  | [], inner => .ok inner
  | line :: rest, inner => do
    let blob ← readRecord index line
    -- the digest that `put` returns is the one just compared with the recorded one
    replay (index + 1) rest (inner.put blob).1

def openInternal (file : Bytes) (recover : Bool) : Except FileStoreError FileEvidenceStore := do
  let (inner, file) ← openLog (.io "stream did not contain valid UTF-8") .tornTail
    (replay 0 · .new) file recover
  return ⟨inner, file⟩

def «open» (file : Bytes) : Except FileStoreError FileEvidenceStore := openInternal file false

def openWithRecovery (file : Bytes) : Except FileStoreError FileEvidenceStore :=
  openInternal file true

end FileEvidenceStore

def recordLine (hash : ContentHash) (bytes : Bytes) : Line :=
  ("\x7b\"hash\":\"" ++ hash.toHex ++ "\",\"blob\":\"" ++ hexEncode bytes ++ "\"\x7d").toList

namespace FileEvidenceStore

def recordBytes (hash : ContentHash) (bytes : Bytes) : Bytes :=
  utf8 (String.ofList (recordLine hash bytes ++ ['\n']))

def persist (file : Bytes) (hash : ContentHash) (bytes : Bytes) (fault : Option Fault) :
    Bytes × Except FileStoreError Unit :=
  match writeParts file [recordBytes hash bytes] fault with
  | (file, .ok ()) => (file, .ok ())
  | (file, .error message) => (file, .error (.io message))

variable [External]

/-- The store in memory takes the bytes first; only bytes that are new to it are
written. -/
def put (store : FileEvidenceStore) (bytes : Bytes) (fault : Option Fault) :
    FileEvidenceStore × Except StoreError ContentHash :=
  let (inner, hash) := store.inner.put bytes
  if store.inner.len < inner.len then
    match persist store.file hash bytes fault with
    | (file, .ok ()) => (⟨inner, file⟩, .ok hash)
    | (file, .error e) => (⟨inner, file⟩, .error (.backend e.toString))
  else (⟨inner, store.file⟩, .ok hash)

instance evidenceStore : EvidenceStore FileEvidenceStore where
  Medium := Option Fault
  put := put
  treeHead store := store.inner.treeHead
  treeHeadAt store := store.inner.treeHeadAt
  len store := store.inner.len

theorem put_inner (store : FileEvidenceStore) (bytes : Bytes) (fault : Option Fault) :
    (store.put bytes fault).1.inner = (store.inner.put bytes).1 := by
  unfold put
  cases store.inner.put bytes with
  | mk inner hash =>
    dsimp only
    split
    · split <;> rfl
    · rfl

instance appendOnly : AppendOnly FileEvidenceStore where
  covered anchored := (InMemoryEvidenceStore.treeHeadAt_eq_some.mp anchored).1
  whole store := store.inner.treeHeadAt_len
  stable {store n head} anchored bytes fault := by
    change (store.put bytes fault).1.inner.treeHeadAt n = some head
    rw [put_inner]
    exact InMemoryEvidenceStore.treeHeadAt_put anchored bytes

end FileEvidenceStore

end Treasury
