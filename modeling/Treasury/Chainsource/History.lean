import Treasury.Evidence.Canon

/-! The history of an address as a source reports it, and the hash of its settled part, which
is the value that two sources compare. -/
namespace Treasury.Chainsource
open Kit Kit.Json

def historySchema : String := "treasury-chainsource/address-history/v1"

inductive Chain where
  | bitcoin
  | ethereum
  deriving DecidableEq

def Chain.toJson : Chain → Value
  | .bitcoin => .string "bitcoin"
  | .ethereum => .string "ethereum"

inductive Direction where
  | inflow
  | outflow
  deriving DecidableEq

namespace Direction

def toJson : Direction → Value
  | .inflow => .string "inflow"
  | .outflow => .string "outflow"

def rank : Direction → Nat
  | .inflow => 0
  | .outflow => 1

theorem rank_injective {a b : Direction} (h : a.rank = b.rank) : a = b := by
  cases a <;> cases b <;> first | rfl | cases h

instance : LinearOrder Direction := LinearOrder.lift' rank fun _ _ => rank_injective

end Direction

structure ChainMovement where
  txRef : String
  direction : Direction
  amount : AssetAmount
  blockHeight : U64
  deriving DecidableEq

namespace ChainMovement

/-- What movements are ordered by: height, then transaction, then direction. -/
def key (m : ChainMovement) : U64 ×ₗ String ×ₗ Direction :=
  toLex (m.blockHeight, toLex (m.txRef, m.direction))

def toJson (m : ChainMovement) : Value :=
  .object (ofEntries [("tx_ref", .string m.txRef), ("direction", m.direction.toJson),
    ("amount", m.amount.toJson), ("block_height", .string m.blockHeight.val.repr)])

end ChainMovement

/-- The movements are in any order, and no more than a vector holds. -/
structure AddressHistory where
  chain : Chain
  address : String
  settledToHeight : U64
  movements : List ChainMovement
  length_lt : movements.length < 18446744073709551616

inductive HistoryError where
  | canon (error : CanonError)
  deriving DecidableEq

namespace AddressHistory

def orderedMovements (h : AddressHistory) : List ChainMovement := sortBy ChainMovement.key h.movements

def Settled (h : AddressHistory) (m : ChainMovement) : Prop := m.blockHeight ≤ h.settledToHeight

instance decidableSettled (h : AddressHistory) (m : ChainMovement) : Decidable (h.Settled m) :=
  inferInstanceAs (Decidable (m.blockHeight ≤ h.settledToHeight))

/-- What is hashed: the movements at or below the settled height, ordered. -/
def envelope (h : AddressHistory) : Value :=
  .object (ofEntries [("schema", .string historySchema), ("chain", h.chain.toJson),
    ("address", .string h.address), ("settled_to_height", .string h.settledToHeight.val.repr),
    ("movements", .array ((h.orderedMovements.filter (h.Settled ·)).map ChainMovement.toJson))])

def historyHash [External] (h : AddressHistory) : Except HistoryError ContentHash :=
  match canonicalBytes h.envelope with
  | .error e => .error (.canon e)
  | .ok bytes => .ok (sha256 bytes)

end AddressHistory

theorem Chain.toJson_injective {a b : Chain} (h : a.toJson = b.toJson) : a = b := by
  cases a <;> cases b <;> first | rfl | exact absurd (Value.string.inj h) (by decide)

theorem Direction.toJson_injective {a b : Direction} (h : a.toJson = b.toJson) : a = b := by
  cases a <;> cases b <;> first | rfl | exact absurd (Value.string.inj h) (by decide)

theorem ChainMovement.toJson_injective {a b : ChainMovement} (h : a.toJson = b.toJson) : a = b := by
  have members := ofEntries_injective (by simp) (by simp) (Value.object.inj h)
  simp only [List.cons.injEq, Prod.mk.injEq, true_and, and_true, Value.string.injEq,
    Int.repr_inj] at members
  obtain ⟨tx, direction, amount, height⟩ := members
  obtain ⟨txA, directionA, amountA, heightA⟩ := a
  obtain ⟨txB, directionB, amountB, heightB⟩ := b
  obtain rfl : txA = txB := tx
  obtain rfl : directionA = directionB := Direction.toJson_injective direction
  obtain rfl : amountA = amountB := AssetAmount.toJson_injective amount
  obtain rfl : heightA = heightB := Bounded.ext_val height
  rfl

theorem ChainMovement.flat (m : ChainMovement) : Flat 2 m.toJson := by
  apply flat_object (by simp)
  intro e h
  simp only [List.mem_cons, List.not_mem_nil, or_false] at h
  rcases h with rfl | rfl | rfl | rfl
  · exact flat_string 1 _
  · cases m.direction <;> exact flat_string 1 _
  · exact m.amount.flat
  · exact flat_string 1 _

namespace AddressHistory

theorem flat (h : AddressHistory) : Flat 4 h.envelope := by
  apply flat_object (by simp)
  intro e he
  simp only [List.mem_cons, List.not_mem_nil, or_false] at he
  rcases he with rfl | rfl | rfl | rfl | rfl
  · exact flat_string 3 _
  · cases h.chain <;> exact flat_string 3 _
  · exact flat_string 3 _
  · exact flat_string 3 _
  · apply flat_array
    intro v hv
    obtain ⟨m, _, rfl⟩ := List.mem_map.mp hv
    exact m.flat

def settled (h : AddressHistory) : List ChainMovement := h.movements.filter (h.Settled ·)

theorem mem_settled {h : AddressHistory} {m : ChainMovement} :
    m ∈ h.settled ↔ m ∈ h.movements ∧ m.blockHeight ≤ h.settledToHeight := by
  rw [settled, List.mem_filter, decide_eq_true_iff, Settled]

theorem ordered_settled (h : AddressHistory) :
    h.orderedMovements.filter (h.Settled ·) = sortBy ChainMovement.key h.settled :=
  sortBy_filter ..

theorem envelope_eq_iff {h k : AddressHistory} : h.envelope = k.envelope ↔
    h.chain = k.chain ∧ h.address = k.address ∧ h.settledToHeight = k.settledToHeight ∧
      ∀ key, withKey ChainMovement.key key h.settled = withKey ChainMovement.key key k.settled := by
  rw [← sortBy_eq_iff, ← ordered_settled, ← ordered_settled]
  constructor
  · intro same
    have members := ofEntries_injective (by simp) (by simp) (Value.object.inj same)
    simp only [List.cons.injEq, Prod.mk.injEq, true_and, and_true, Value.string.injEq,
      Int.repr_inj, Value.array.injEq] at members
    obtain ⟨chain, address, height, movements⟩ := members
    exact ⟨Chain.toJson_injective chain, address, Bounded.ext_val height,
      List.map_injective_iff.mpr (fun _ _ => ChainMovement.toJson_injective) movements⟩
  · rintro ⟨chain, address, height, movements⟩
    rw [envelope, envelope, chain, address, height, movements]

section
variable [External]

def bytes (h : AddressHistory) : Bytes := utf8 (toText h.envelope)

theorem historyHash_eq (h : AddressHistory) : h.historyHash = .ok (sha256 h.bytes) := by
  rw [historyHash, canonicalBytes_flat h.flat (by decide)]
  rfl

theorem bytes_eq_iff {h k : AddressHistory} : h.bytes = k.bytes ↔ h.envelope = k.envelope :=
  ⟨toText_flat_injective h.flat k.flat, fun same => by rw [bytes, same, bytes]⟩

end

end AddressHistory

end Treasury.Chainsource
