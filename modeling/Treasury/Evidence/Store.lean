import Mathlib.Data.Finmap
import Treasury.Evidence.Merkle

/-! The content-addressed store: every entry is kept under the digest of its
bytes, in the order in which the entries came. -/
namespace Treasury
open Kit

inductive StoreError where
  | notFound (hash : ContentHash)
  | integrityViolation (hash : ContentHash)
  | backend (message : String)
  deriving DecidableEq

def StoreError.toString : StoreError → String
  | .notFound hash => "evidence not found: " ++ hash.toHex
  | .integrityViolation hash => "integrity violation for " ++ hash.toHex
  | .backend message => "backend failure: " ++ message

/-- The operations that anchoring uses. How a put ends also depends on the medium. -/
class EvidenceStore (S : Type) where
  Medium : Type
  put : S → Bytes → Medium → S × Except StoreError ContentHash
  treeHead : S → ContentHash
  treeHeadAt : S → Nat → Option ContentHash
  len : S → Nat

/-- A store in which a head over the first entries stays what it is. -/
class AppendOnly (S : Type) [EvidenceStore S] : Prop where
  covered : ∀ {store : S} {n : Nat} {head : ContentHash},
    EvidenceStore.treeHeadAt store n = some head → n ≤ EvidenceStore.len store
  whole : ∀ store : S,
    EvidenceStore.treeHeadAt store (EvidenceStore.len store) = some (EvidenceStore.treeHead store)
  stable : ∀ {store : S} {n : Nat} {head : ContentHash},
    EvidenceStore.treeHeadAt store n = some head → ∀ bytes medium,
      EvidenceStore.treeHeadAt (EvidenceStore.put store bytes medium).1 n = some head

structure InMemoryEvidenceStore where
  blobs : Finmap fun _ : ContentHash => Bytes
  order : List ContentHash

namespace InMemoryEvidenceStore

def new : InMemoryEvidenceStore := ⟨∅, []⟩

@[simp] theorem lookup_new (hash : ContentHash) : new.blobs.lookup hash = none :=
  Finmap.lookup_empty hash

variable [External]

/-- Bytes whose digest is known are not stored again. -/
def put (store : InMemoryEvidenceStore) (bytes : Bytes) : InMemoryEvidenceStore × ContentHash :=
  let hash := sha256 bytes
  match store.blobs.lookup hash with
  | some _ => (store, hash)
  | none => (⟨store.blobs.insert hash bytes, store.order ++ [hash]⟩, hash)

def get (store : InMemoryEvidenceStore) (hash : ContentHash) : Except StoreError Bytes :=
  match store.blobs.lookup hash with
  | some bytes => .ok bytes
  | none => .error (.notFound hash)

def verify (store : InMemoryEvidenceStore) (hash : ContentHash) : Except StoreError Unit := do
  let bytes ← store.get hash
  if sha256 bytes = hash then .ok () else .error (.integrityViolation hash)

def len (store : InMemoryEvidenceStore) : Nat := store.order.length

def treeHead (store : InMemoryEvidenceStore) : ContentHash := merkleRoot store.order

def treeHeadAt (store : InMemoryEvidenceStore) (entryCount : Nat) : Option ContentHash :=
  if entryCount ≤ store.order.length then some (merkleRoot (store.order.take entryCount)) else none

instance evidenceStore : EvidenceStore InMemoryEvidenceStore where
  Medium := Unit
  put store bytes _ := ((store.put bytes).1, .ok (store.put bytes).2)
  treeHead := treeHead
  treeHeadAt := treeHeadAt
  len := len

/-- The store serves the hash, with bytes that have it. -/
def Serves (store : InMemoryEvidenceStore) (hash : ContentHash) : Prop :=
  ∃ bytes, store.get hash = .ok bytes ∧ sha256 bytes = hash

/-- Every entry is kept under its own digest. -/
def Addressed (store : InMemoryEvidenceStore) : Prop :=
  ∀ hash bytes, store.blobs.lookup hash = some bytes → sha256 bytes = hash

theorem addressed_new : new.Addressed := by
  intro hash bytes found
  simp at found

theorem put_known {store : InMemoryEvidenceStore} {bytes old : Bytes}
    (known : store.blobs.lookup (sha256 bytes) = some old) :
    store.put bytes = (store, sha256 bytes) := by
  simp [put, known]

theorem put_fresh {store : InMemoryEvidenceStore} {bytes : Bytes}
    (fresh : store.blobs.lookup (sha256 bytes) = none) :
    store.put bytes =
      (⟨store.blobs.insert (sha256 bytes) bytes, store.order ++ [sha256 bytes]⟩, sha256 bytes) := by
  simp [put, fresh]

@[simp] theorem put_hash (store : InMemoryEvidenceStore) (bytes : Bytes) :
    (store.put bytes).2 = sha256 bytes := by
  cases known : store.blobs.lookup (sha256 bytes) with
  | none => rw [put_fresh known]
  | some old => rw [put_known known]

theorem len_put (store : InMemoryEvidenceStore) (bytes : Bytes) :
    store.len < (store.put bytes).1.len ↔ store.blobs.lookup (sha256 bytes) = none := by
  cases known : store.blobs.lookup (sha256 bytes) with
  | none => simp [put_fresh known, len]
  | some old => simp [put_known known]

theorem order_put (store : InMemoryEvidenceStore) (bytes : Bytes) :
    store.order <+: (store.put bytes).1.order := by
  cases known : store.blobs.lookup (sha256 bytes) with
  | none => rw [put_fresh known]; exact List.prefix_append _ _
  | some old => rw [put_known known]

theorem treeHeadAt_eq_some {store : InMemoryEvidenceStore} {n : Nat} {head : ContentHash} :
    store.treeHeadAt n = some head ↔
      n ≤ store.order.length ∧ merkleRoot (store.order.take n) = head := by
  simp [treeHeadAt]

theorem treeHeadAt_put {store : InMemoryEvidenceStore} {n : Nat} {head : ContentHash}
    (anchored : store.treeHeadAt n = some head) (bytes : Bytes) :
    (store.put bytes).1.treeHeadAt n = some head := by
  obtain ⟨enough, same⟩ := treeHeadAt_eq_some.mp anchored
  obtain ⟨more, grown⟩ := store.order_put bytes
  refine treeHeadAt_eq_some.mpr ⟨?_, ?_⟩
  · rw [← grown, List.length_append]
    omega
  · rw [← grown, List.take_append_of_le_length enough, same]

theorem treeHeadAt_len (store : InMemoryEvidenceStore) :
    store.treeHeadAt store.len = some store.treeHead := by
  simp [treeHeadAt, len, treeHead]

instance appendOnly : AppendOnly InMemoryEvidenceStore where
  covered anchored := (treeHeadAt_eq_some.mp anchored).1
  whole := treeHeadAt_len
  stable anchored bytes _ := treeHeadAt_put anchored bytes

theorem lookup_put_isSome (store : InMemoryEvidenceStore) (bytes : Bytes) (hash : ContentHash) :
    ((store.put bytes).1.blobs.lookup hash).isSome ↔
      hash = sha256 bytes ∨ (store.blobs.lookup hash).isSome := by
  cases known : store.blobs.lookup (sha256 bytes) with
  | some old =>
    rw [put_known known]
    constructor
    · exact .inr
    · rintro (rfl | old)
      · simp [known]
      · exact old
  | none =>
    rw [put_fresh known]
    by_cases same : hash = sha256 bytes
    · subst same
      simp
    · simp [Finmap.lookup_insert_of_ne _ same, same]

@[simp] theorem put_again (store : InMemoryEvidenceStore) (bytes : Bytes) :
    (store.put bytes).1.put bytes = ((store.put bytes).1, sha256 bytes) := by
  have known := (lookup_put_isSome store bytes (sha256 bytes)).mpr (.inl rfl)
  obtain ⟨old, found⟩ := Option.isSome_iff_exists.mp known
  exact put_known found

theorem addressed_put {store : InMemoryEvidenceStore} (addressed : store.Addressed)
    (bytes : Bytes) : (store.put bytes).1.Addressed := by
  intro hash found entry
  cases known : store.blobs.lookup (sha256 bytes) with
  | some old =>
    rw [put_known known] at entry
    exact addressed hash found entry
  | none =>
    rw [put_fresh known] at entry
    by_cases same : hash = sha256 bytes
    · subst same
      simp only [Finmap.lookup_insert, Option.some.injEq] at entry
      rw [entry]
    · rw [Finmap.lookup_insert_of_ne _ same] at entry
      exact addressed hash found entry

theorem serves_iff {store : InMemoryEvidenceStore} (addressed : store.Addressed)
    (hash : ContentHash) : store.Serves hash ↔ (store.blobs.lookup hash).isSome := by
  cases entry : store.blobs.lookup hash with
  | none => simp [Serves, get, entry]
  | some bytes =>
    simp only [Serves, get, entry, Option.isSome_some, iff_true]
    exact ⟨bytes, rfl, addressed hash bytes entry⟩

end InMemoryEvidenceStore

end Treasury
