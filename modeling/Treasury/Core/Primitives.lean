import Mathlib.Data.List.Lex
import Std.Data.String.ToInt
import Treasury.Kit.Bytes
import Treasury.Kit.Bounded
import Treasury.Kit.Json.Value

/-! Domain primitives: identifiers, content hashes, timestamps and integer money.
A value that the source's type excludes cannot be built: a digest has 32 bytes,
a timestamp fits in 64 bits and an amount in 128. -/
namespace Treasury
open Kit Kit.Json

abbrev I64 := Bounded (-9223372036854775808) 9223372036854775808

abbrev U64 := Bounded 0 18446744073709551616

abbrev I128 :=
  Bounded (-170141183460469231731687303715884105728) 170141183460469231731687303715884105728

/-- The number itself, which every 64-bit integer of a tree has room for. -/
def U64.toJson (n : U64) : Value :=
  .number (.int ⟨n.val, le_trans (by decide) n.lower, n.upper⟩)

theorem U64.toJson_injective {m n : U64} (h : m.toJson = n.toJson) : m = n := by
  simp only [toJson, Value.number.injEq, Number.int.injEq, Bounded.mk.injEq] at h
  exact Bounded.ext_val h

theorem U64.zero_lower : (0 : Int) ≤ 0 := le_refl 0
theorem U64.zero_upper : (0 : Int) < 18446744073709551616 := by decide

instance : Zero U64 := ⟨⟨0, U64.zero_lower, U64.zero_upper⟩⟩
instance : Zero I64 := ⟨⟨0, by decide, by decide⟩⟩
instance : Zero I128 := ⟨⟨0, by decide, by decide⟩⟩

@[simp] theorem I128.zero_val : (0 : I128).val = 0 := rfl

theorem I128.exists_val {z : Int} (low : -2 ^ 127 ≤ z) (high : z < 2 ^ 127) :
    ∃ b : I128, b.val = z := ⟨⟨z, by omega, by omega⟩, rfl⟩

/- Identifier newtypes; each serializes as its string. -/

structure TenantId where
  value : String
  deriving DecidableEq

structure AssetId where
  value : String
  deriving DecidableEq

theorem AssetId.ext_value {a b : AssetId} (h : a.value = b.value) : a = b := by
  cases a; cases b; cases h; rfl

instance : LinearOrder AssetId := LinearOrder.lift' AssetId.value fun _ _ => AssetId.ext_value

structure VenueId where
  value : String
  deriving DecidableEq

structure ActorId where
  value : String
  deriving DecidableEq

theorem approvers_injective {a b : List ActorId}
    (h : a.map (fun a => Value.string a.value) = b.map fun a => Value.string a.value) : a = b := by
  refine List.map_injective_iff.mpr (fun x y same => ?_) h
  cases x; cases y; cases same; rfl

structure SourceId where
  value : String
  deriving DecidableEq

/-- A 32-byte SHA-256 digest, ordered by its bytes. -/
structure ContentHash where
  bytes : Bytes
  length_eq : bytes.length = 32
  deriving DecidableEq

inductive HashParseError where
  | invalidHex
  | wrongLength
  deriving DecidableEq

namespace ContentHash

def filled (b : UInt8) : ContentHash := ⟨List.replicate 32 b, List.length_replicate⟩

theorem ext_bytes {a b : ContentHash} (h : a.bytes = b.bytes) : a = b := by
  cases a; cases b; cases h; rfl

instance : LinearOrder ContentHash where
  __ := LinearOrder.lift' (fun h : ContentHash => h.bytes.map UInt8.toNat) fun _ _ h =>
    ext_bytes (List.map_injective_iff.mpr (fun _ _ => UInt8.toNat_inj.mp) h)
  toDecidableEq := inferInstance
  compare a b := compareOfLessAndEq a b
  compare_eq_compareOfLessAndEq _ _ := rfl

def toHex (h : ContentHash) : String := hexEncode h.bytes

def fromHex (s : String) : Except HashParseError ContentHash :=
  match hexDecode s with
  | none => .error .invalidHex
  | some bytes =>
    if length_eq : bytes.length = 32 then .ok ⟨bytes, length_eq⟩ else .error .wrongLength

@[simp] theorem fromHex_toHex (h : ContentHash) : fromHex h.toHex = .ok h := by
  simp [fromHex, toHex, h.length_eq]

theorem toHex_injective {a b : ContentHash} (h : a.toHex = b.toHex) : a = b :=
  ext_bytes (hexEncode_injective h)

@[simp] theorem toHex_inj {a b : ContentHash} : a.toHex = b.toHex ↔ a = b :=
  ⟨toHex_injective, congrArg toHex⟩

end ContentHash

/-- Nanoseconds since the Unix epoch; serializes as a decimal string. -/
structure TimestampNs where
  nanos : I64
  deriving DecidableEq

namespace TimestampNs

theorem ext_nanos {a b : TimestampNs} (h : a.nanos = b.nanos) : a = b := by
  cases a; cases b; cases h; rfl

instance : LinearOrder TimestampNs := LinearOrder.lift' nanos fun _ _ => ext_nanos

def toJson (t : TimestampNs) : Value := .string t.nanos.val.repr

theorem toJson_injective {a b : TimestampNs} (h : a.toJson = b.toJson) : a = b :=
  ext_nanos (Bounded.ext_val (Int.repr_inj.mp (Value.string.inj h)))

end TimestampNs

structure AssetAmount where
  asset : AssetId
  atoms : I128
  deriving DecidableEq

inductive AmountError where
  | assetMismatch (left right : AssetId)
  | overflow
  deriving DecidableEq

namespace AssetAmount

def checkedAdd (self other : AssetAmount) : Except AmountError AssetAmount :=
  if self.asset ≠ other.asset then .error (.assetMismatch self.asset other.asset)
  else match self.atoms.checkedAdd other.atoms with
    | none => .error .overflow
    | some atoms => .ok ⟨self.asset, atoms⟩

def checkedSub (self other : AssetAmount) : Except AmountError AssetAmount :=
  if self.asset ≠ other.asset then .error (.assetMismatch self.asset other.asset)
  else match self.atoms.checkedSub other.atoms with
    | none => .error .overflow
    | some atoms => .ok ⟨self.asset, atoms⟩

theorem checkedAdd_eq_ok {a b c : AssetAmount} :
    a.checkedAdd b = .ok c ↔
      a.asset = b.asset ∧ c.asset = a.asset ∧ a.atoms.val + b.atoms.val = c.atoms.val := by
  unfold checkedAdd
  split
  · rename_i differ; simp [differ]
  · rename_i agree
    rw [not_not] at agree
    cases h : a.atoms.checkedAdd b.atoms with
    | none =>
      simp only [reduceCtorEq, agree, true_and, false_iff, not_and]
      intro _ sum
      rw [← Bounded.checkedAdd_eq_some] at sum
      simp [h] at sum
    | some atoms =>
      rw [Bounded.checkedAdd_eq_some] at h
      cases c
      simp [agree, h, Bounded.val_inj, eq_comm]

theorem checkedSub_eq_ok {a b c : AssetAmount} :
    a.checkedSub b = .ok c ↔
      a.asset = b.asset ∧ c.asset = a.asset ∧ a.atoms.val - b.atoms.val = c.atoms.val := by
  unfold checkedSub
  split
  · rename_i differ; simp [differ]
  · rename_i agree
    rw [not_not] at agree
    cases h : a.atoms.checkedSub b.atoms with
    | none =>
      simp only [reduceCtorEq, agree, true_and, false_iff, not_and]
      intro _ difference
      rw [← Bounded.checkedSub_eq_some] at difference
      simp [h] at difference
    | some atoms =>
      rw [Bounded.checkedSub_eq_some] at h
      cases c
      simp [agree, h, Bounded.val_inj, eq_comm]

def toJson (a : AssetAmount) : Value :=
  .object (ofEntries [("asset", .string a.asset.value), ("atoms", .string a.atoms.val.repr)])

theorem toJson_injective {a b : AssetAmount} (h : a.toJson = b.toJson) : a = b := by
  have members := ofEntries_injective (by simp) (by simp) (Value.object.inj h)
  simp only [List.cons.injEq, Prod.mk.injEq, true_and, and_true, Value.string.injEq,
    Int.repr_inj] at members
  obtain ⟨asset, atoms⟩ := members
  obtain ⟨⟨x⟩, n⟩ := a
  obtain ⟨⟨y⟩, m⟩ := b
  obtain rfl : x = y := asset
  cases Bounded.ext_val atoms
  rfl

end AssetAmount

end Treasury
