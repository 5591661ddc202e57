import Treasury.Kit.Except
import Treasury.Kit.Sort
import Treasury.External
import Treasury.Kit.Json.Flat

/-! The canonical JSON encoding that every hash is taken over: members sorted by
key, no blanks, no floats, and a cap on nesting. -/
namespace Treasury
open Kit Kit.Json

def maxDepth : Nat := 128

inductive CanonError where
  | floatRejected (text : String)
  | tooDeep
  | encode (message : String)
  deriving DecidableEq

def CanonError.display : CanonError → String
  | .floatRejected text => "float rejected in canonical encoding: " ++ text
  | .tooDeep => "value nesting exceeds maximum depth"
  | .encode message => "encode error: " ++ message

section
variable [External]

def joinMembers : Bool → List (String × Except CanonError Text) → Except CanonError Text
  | _, [] => .ok []
  | first, (key, written) :: rest => do
    let value ← written
    let tail ← joinMembers false rest
    return (if first then [] else [',']) ++ json.quote key ++ ':' :: value ++ tail

mutual
def writeValue (value : Value) (depth : Nat) : Except CanonError Text :=
  if maxDepth < depth then .error .tooDeep
  else match value with
    | .null => .ok ['n', 'u', 'l', 'l']
    | .bool true => .ok ['t', 'r', 'u', 'e']
    | .bool false => .ok ['f', 'a', 'l', 's', 'e']
    | .number (.int z) => .ok z.val.repr.toList
    | .number (.float text) => .error (.floatRejected text)
    | .string s => .ok (json.quote s)
    | .array items => do
      let inside ← writeItems true items (depth + 1)
      return '[' :: (inside ++ [']'])
    | .object map => do
      -- a key is sorted together with what its value writes
      let inside ← joinMembers true (sortBy Prod.fst (writeMembers map (depth + 1)))
      return '\x7b' :: (inside ++ ['\x7d'])

def writeItems : Bool → List Value → Nat → Except CanonError Text
  | _, [], _ => .ok []
  | first, item :: items, depth => do
    let value ← writeValue item depth
    let tail ← writeItems false items depth
    return (if first then [] else [',']) ++ value ++ tail

def writeMembers : List (String × Value) → Nat → List (String × Except CanonError Text)
  | [], _ => []
  | (key, value) :: map, depth => (key, writeValue value depth) :: writeMembers map depth
end

def canonicalBytes (value : Value) : Except CanonError Bytes := do
  let text ← writeValue value 0
  return utf8 (String.ofList text)

/- What an accepted value writes: the compact text of the tree. -/

def WritesValue (v : Value) : Prop :=
  Sorted v → ∀ d t, writeValue v d = .ok t ↔
    Integral v ∧ d + height v ≤ maxDepth ∧ t = print json v

def WritesItems (vs : List Value) : Prop :=
  SortedItems vs → ∀ first d t, d ≤ maxDepth → (writeItems first vs (d + 1) = .ok t ↔
    IntegralItems vs ∧ d + heightItems vs ≤ maxDepth ∧ t = printItems json first vs)

def WritesEntries (es : List (String × Value)) : Prop :=
  SortedEntries es → ∀ first d t, d ≤ maxDepth →
    (joinMembers first (writeMembers es (d + 1)) = .ok t ↔
      IntegralEntries es ∧ d + heightEntries es ≤ maxDepth ∧ t = printEntries json first es)

theorem writes_items_cons (v : Value) (vs : List Value) (head : WritesValue v)
    (tail : WritesItems vs) : WritesItems (v :: vs) := by
  intro sorted first d t shallow
  simp only [writeItems, bind_eq_ok, head sorted.1, tail sorted.2 false d _ shallow, pure_eq_ok,
    IntegralItems, heightItems, printItems]
  constructor
  · rintro ⟨_, ⟨iv, dv, rfl⟩, _, ⟨ivs, dvs, rfl⟩, rfl⟩
    exact ⟨⟨iv, ivs⟩, by omega, rfl⟩
  · rintro ⟨⟨iv, ivs⟩, deep, rfl⟩
    exact ⟨_, ⟨iv, by omega, rfl⟩, _, ⟨ivs, by omega, rfl⟩, rfl⟩

theorem writes_entries_cons (k : String) (v : Value) (es : List (String × Value))
    (head : WritesValue v) (tail : WritesEntries es) : WritesEntries ((k, v) :: es) := by
  intro sorted first d t shallow
  simp only [writeMembers, joinMembers, bind_eq_ok, head sorted.1,
    tail sorted.2 false d _ shallow, pure_eq_ok, IntegralEntries, heightEntries, printEntries]
  constructor
  · rintro ⟨_, ⟨iv, dv, rfl⟩, _, ⟨ivs, dvs, rfl⟩, rfl⟩
    exact ⟨⟨iv, ivs⟩, by omega, rfl⟩
  · rintro ⟨⟨iv, ivs⟩, deep, rfl⟩
    exact ⟨_, ⟨iv, by omega, rfl⟩, _, ⟨ivs, by omega, rfl⟩, rfl⟩

theorem writeMembers_keys (es : List (String × Value)) (d : Nat) :
    (writeMembers es d).map Prod.fst = es.map Prod.fst := by
  induction es with
  | nil => rfl
  | cons e es ih => obtain ⟨k, v⟩ := e; simp [writeMembers, ih]

theorem sortBy_writeMembers (es : List (String × Value)) (d : Nat)
    (ordered : es.Pairwise fun a b => a.1 < b.1) :
    sortBy Prod.fst (writeMembers es d) = writeMembers es d := by
  apply sortBy_eq_self
  have keys : (es.map Prod.fst).Pairwise (· ≤ ·) :=
    List.pairwise_map.mpr (ordered.imp le_of_lt)
  rw [← writeMembers_keys es d] at keys
  exact List.pairwise_map.mp keys

theorem writes_value (v : Value) : WritesValue v := by
  refine @Value.induct WritesValue WritesItems WritesEntries ?null ?bool ?number ?string ?array
    ?object ?nil writes_items_cons ?none writes_entries_cons v
  case null =>
    intro _ d t
    simp only [writeValue, print, Integral, height]
    split <;> simp [eq_comm] <;> omega
  case bool =>
    intro b _ d t
    cases b <;> simp only [writeValue, print, Integral, height] <;> split <;>
      simp [eq_comm] <;> omega
  case number =>
    intro n _ d t
    cases n <;> simp only [writeValue, print, Integral, height] <;> split <;>
      simp [eq_comm] <;> omega
  case string =>
    intro s _ d t
    simp only [writeValue, print, Integral, height]
    split <;> simp [eq_comm] <;> omega
  case array =>
    intro vs ih sorted d t
    simp only [writeValue, print, Integral, height]
    split
    · simp; omega
    · rename_i shallow
      simp only [bind_eq_ok, ih sorted true d _ (not_lt.mp shallow), pure_eq_ok]
      constructor
      · rintro ⟨_, ⟨integral, deep, rfl⟩, rfl⟩
        exact ⟨integral, deep, rfl⟩
      · rintro ⟨integral, deep, rfl⟩
        exact ⟨_, ⟨integral, deep, rfl⟩, rfl⟩
  case object =>
    intro es ih sorted d t
    simp only [writeValue, print, Integral, height]
    split
    · simp; omega
    · rename_i shallow
      simp only [sortBy_writeMembers es _ sorted.1, bind_eq_ok,
        ih sorted.2 true d _ (not_lt.mp shallow), pure_eq_ok]
      constructor
      · rintro ⟨_, ⟨integral, deep, rfl⟩, rfl⟩
        exact ⟨integral, deep, rfl⟩
      · rintro ⟨integral, deep, rfl⟩
        exact ⟨_, ⟨integral, deep, rfl⟩, rfl⟩
  case nil =>
    intro _ first d t shallow
    simp [writeItems, IntegralItems, heightItems, printItems, shallow, eq_comm]
  case none =>
    intro _ first d t shallow
    simp [writeMembers, joinMembers, IntegralEntries, heightEntries, printEntries, shallow,
      eq_comm]

theorem canonicalBytes_eq_ok {v : Value} (sorted : Sorted v) {b : Bytes} :
    canonicalBytes v = .ok b ↔ Integral v ∧ height v ≤ maxDepth ∧ b = utf8 (toText v) := by
  simp only [canonicalBytes, bind_eq_ok, writes_value v sorted 0, pure_eq_ok, toText, zero_add]
  constructor
  · rintro ⟨_, ⟨integral, deep, rfl⟩, rfl⟩
    exact ⟨integral, deep, rfl⟩
  · rintro ⟨integral, deep, rfl⟩
    exact ⟨_, ⟨integral, deep, rfl⟩, rfl⟩

theorem canonicalBytes_injective {v w : Value} (sv : Sorted v) (sw : Sorted w) {b : Bytes}
    (hv : canonicalBytes v = .ok b) (hw : canonicalBytes w = .ok b) : v = w := by
  obtain ⟨iv, _, rfl⟩ := (canonicalBytes_eq_ok sv).mp hv
  obtain ⟨iw, _, same⟩ := (canonicalBytes_eq_ok sw).mp hw
  exact print_injective json iv iw (String.ofList_injective (utf8_injective same))

theorem canonicalBytes_flat {n : Nat} {v : Value} (h : Flat n v) (fits : n ≤ maxDepth) :
    canonicalBytes v = .ok (utf8 (toText v)) :=
  (canonicalBytes_eq_ok h.sorted).mpr ⟨h.integral, h.shallow.trans fits, rfl⟩

theorem toText_flat_injective {m n : Nat} {v w : Value} (hv : Flat m v) (hw : Flat n w)
    (same : utf8 (toText v) = utf8 (toText w)) : v = w :=
  print_injective json hv.integral hw.integral (String.ofList_injective (utf8_injective same))

end

theorem AssetAmount.flat (a : AssetAmount) : Flat 1 a.toJson :=
  flat_object (by simp) (by simp)

end Treasury
