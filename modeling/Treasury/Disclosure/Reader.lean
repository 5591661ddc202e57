import Treasury.Disclosure.RollForward
import Treasury.Kit.Json.SubValue
import Treasury.Ledger.Record

/-! The second way to a roll-forward row: its derived reader takes the fields of a text one
by one and puts them together as they are, so that nothing in it makes the row roll. -/
namespace Treasury
open Kit Kit.Json

/-- The tree of a JSON text, with the members of each object as the text lists them. -/
class Documents [External] where
  document : String → Option Value
  document_toText : ∀ v, Integral v → document (toText v) = some v

export Documents (document)

/- The readers of the types, from the tree. -/

def uniqueMember (members : List (String × Value)) (name : String) : Option Value :=
  match members.filter (·.1 = name) with
  | [(_, v)] => some v
  | _ => none

/-- The fields of a derived reader: from an object, where a field that is missing or comes twice
is an error and any other member is skipped, or from an array, by position. -/
def structFields (names : List String) : Value → Option (List Value)
  | .object members => names.mapM (uniqueMember members)
  | .array items => if items.length = names.length then some items else none
  | _ => none

/-- `str::parse::<i128>`, which takes either sign and leading zeros. -/
def parseI128 (s : String) : Option I128 := do
  let z ← match s.toList with
    | '+' :: ds => natOfDigits ds
    | text => intOfText text
  Bounded.ofInt? z

def AssetId.deserialize (v : Value) : Option AssetId := (readText v).map AssetId.mk

def AssetAmount.deserialize (v : Value) : Option AssetAmount :=
  match structFields ["asset", "atoms"] v with
  | some [asset, atoms] => do
    let asset ← AssetId.deserialize asset
    let text ← readText atoms
    let atoms ← parseI128 text
    return ⟨asset, atoms⟩
  | _ => none

example : AssetAmount.deserialize (.array [.string "BTC", .string "+007"]) =
    some ⟨⟨"BTC"⟩, .literal 7⟩ := by decide

namespace RollForwardRow

def fieldNames : List String :=
  ["asset", "opening", "additions", "disposals", "remeasurement", "closing", "evidence"]

def ofTree (v : Value) : Option RollForwardRow :=
  match structFields fieldNames v with
  | some [asset, opening, additions, disposals, remeasurement, closing, evidence] => do
    let asset ← AssetId.deserialize asset
    let opening ← AssetAmount.deserialize opening
    let additions ← AssetAmount.deserialize additions
    let disposals ← AssetAmount.deserialize disposals
    let remeasurement ← AssetAmount.deserialize remeasurement
    let closing ← AssetAmount.deserialize closing
    let evidence ← readList readHash evidence
    return ⟨asset, opening, additions, disposals, remeasurement, closing, evidence⟩
  | _ => none

def deserialize [External] [Documents] (text : String) : Option RollForwardRow :=
  (document text).bind ofTree

def record (row : RollForwardRow) : Value :=
  .object [("asset", .string row.asset.value), ("opening", row.opening.toJson),
    ("additions", row.additions.toJson), ("disposals", row.disposals.toJson),
    ("remeasurement", row.remeasurement.toJson), ("closing", row.closing.toJson),
    ("evidence", hashesJson row.evidence)]

end RollForwardRow

theorem uniqueMember_eq_some {members : List (String × Value)} {name : String} {v : Value} :
    uniqueMember members name = some v ↔ members.filter (·.1 = name) = [(name, v)] := by
  unfold uniqueMember
  split
  · rename_i key w only
    have named : key = name := by
      have member : (key, w) ∈ members.filter (·.1 = name) := by simp [only]
      exact of_decide_eq_true (List.mem_filter.mp member).2
    simp [only, named]
  · rename_i other
    simp only [reduceCtorEq, false_iff]
    exact other name v

/-- What a tree gives for the fields of a struct. -/
def Gives (names : List String) : Value → List Value → Prop
  | .object members, vs =>
    List.Forall₂ (fun name v => members.filter (·.1 = name) = [(name, v)]) names vs
  | .array items, vs => items = vs ∧ items.length = names.length
  | _, _ => False

theorem structFields_eq_some {names : List String} {v : Value} {vs : List Value} :
    structFields names v = some vs ↔ Gives names v vs := by
  cases v with
  | object members =>
    simp only [structFields, Gives]
    induction names generalizing vs with
    | nil => cases vs <;> simp
    | cons name names ih =>
      cases vs with
      | nil => simp [Option.bind_eq_some_iff]
      | cons v vs => simp [Option.bind_eq_some_iff, uniqueMember_eq_some, ih]
  | array items =>
    simp only [structFields, Gives, Option.ite_none_right_eq_some, Option.some.injEq]
    exact and_comm
  | null | bool | number | string => simp [structFields, Gives]

/- What a tree has to look like. -/

def SpellsText (v : Value) : Prop := ∃ s, v = .string s

def SpellsI128 (v : Value) : Prop := ∃ s, v = .string s ∧ (parseI128 s).isSome

def SpellsAmount (v : Value) : Prop :=
  ∃ asset atoms, Gives ["asset", "atoms"] v [asset, atoms] ∧ SpellsText asset ∧ SpellsI128 atoms

def SpellsHash (v : Value) : Prop := ∃ s, v = .string s ∧ (ContentHash.fromHex s).isOk

def SpellsRow (v : Value) : Prop :=
  ∃ asset opening additions disposals remeasurement closing hashes,
    Gives RollForwardRow.fieldNames v
      [asset, opening, additions, disposals, remeasurement, closing, .array hashes] ∧
    SpellsText asset ∧ SpellsAmount opening ∧ SpellsAmount additions ∧ SpellsAmount disposals ∧
    SpellsAmount remeasurement ∧ SpellsAmount closing ∧ ∀ v ∈ hashes, SpellsHash v

theorem AssetId.deserialize_eq_some {v : Value} {asset : AssetId} :
    AssetId.deserialize v = some asset ↔ v = .string asset.value := by
  cases v with
  | string s =>
    obtain ⟨t⟩ := asset
    simp [AssetId.deserialize, readText]
  | null | bool | number | array | object => simp [AssetId.deserialize, readText]

theorem AssetAmount.deserialize_eq_some {v : Value} {a : AssetAmount} :
    AssetAmount.deserialize v = some a ↔ ∃ s, parseI128 s = some a.atoms ∧
      Gives ["asset", "atoms"] v [.string a.asset.value, .string s] := by
  unfold AssetAmount.deserialize
  split
  · rename_i asset atoms fields
    have given := structFields_eq_some.mp fields
    constructor
    · intro read
      simp only [Option.bind_eq_bind, Option.bind_eq_some_iff, AssetId.deserialize_eq_some] at read
      obtain ⟨id, rfl, s, text, z, parsed, same⟩ := read
      obtain rfl := Option.some.inj same
      cases atoms with
      | string t =>
        obtain rfl := Option.some.inj text
        exact ⟨t, parsed, given⟩
      | null | bool | number | array | object => cases text
    · rintro ⟨s, parsed, other⟩
      have same := fields.symm.trans (structFields_eq_some.mpr other)
      simp only [Option.some.injEq, List.cons.injEq, and_true] at same
      obtain ⟨rfl, rfl⟩ := same
      simp [AssetId.deserialize, readText, parsed]
  · rename_i other
    simp only [reduceCtorEq, false_iff, not_exists, not_and]
    exact fun s _ given => other _ _ (structFields_eq_some.mpr given)

theorem AssetAmount.deserialize_isSome (v : Value) :
    (AssetAmount.deserialize v).isSome ↔ SpellsAmount v := by
  rw [Option.isSome_iff_exists]
  constructor
  · rintro ⟨a, read⟩
    obtain ⟨s, parsed, given⟩ := deserialize_eq_some.mp read
    exact ⟨_, _, given, ⟨_, rfl⟩, ⟨s, rfl, by simp [parsed]⟩⟩
  · rintro ⟨_, _, given, ⟨asset, rfl⟩, ⟨s, rfl, reads⟩⟩
    obtain ⟨z, parsed⟩ := Option.isSome_iff_exists.mp reads
    exact ⟨⟨⟨asset⟩, z⟩, deserialize_eq_some.mpr ⟨s, parsed, given⟩⟩

theorem readHash_isSome (v : Value) : (readHash v).isSome ↔ SpellsHash v := by
  cases v with
  | string s => cases fromHex : ContentHash.fromHex s <;>
      simp [readHash, readText, SpellsHash, fromHex, Except.toOption, Except.isOk, Except.toBool]
  | null | bool | number | array | object => simp [readHash, readText, SpellsHash]

theorem mapM_isSome_iff {α β : Type} {f : α → Option β} {l : List α} :
    (l.mapM f).isSome ↔ ∀ a ∈ l, (f a).isSome := by
  induction l with
  | nil => simp
  | cons a l ih =>
    rw [List.forall_mem_cons, ← ih]
    cases head : f a <;> cases tail : l.mapM f <;> simp [head, tail]

/-- The two members of an amount are declared in the order of their names. -/
theorem AssetAmount.toJson_eq (a : AssetAmount) :
    a.toJson = .object [("asset", .string a.asset.value), ("atoms", .string a.atoms.val.repr)] := by
  have ordered : "asset" < "atoms" := by decide
  apply congrArg Value.object
  apply ofEntries_eq_self
  simpa using ordered

@[simp] theorem parseI128_repr (z : I128) : parseI128 z.val.repr = some z := by
  have unsigned : z.val.repr.toList.head? ≠ some '+' := by
    intro plus
    have signed : '+' ∈ z.val.repr.toList := List.mem_of_head? plus
    exact absurd (repr_numeric z.val '+' signed) (by decide)
  unfold parseI128
  split
  · rename_i ds text
    simp [text] at unsigned
  · simp [intOfText_repr]

@[simp] theorem AssetAmount.deserialize_toJson (a : AssetAmount) :
    AssetAmount.deserialize a.toJson = some a := by
  rw [deserialize_eq_some]
  refine ⟨a.atoms.val.repr, parseI128_repr a.atoms, ?_⟩
  simp [a.toJson_eq, Gives]

theorem readList_hashesJson (hashes : List ContentHash) :
    readList readHash (hashesJson hashes) = some hashes := by
  simp only [hashesJson, readList]
  induction hashes with
  | nil => rfl
  | cons h hashes ih => simp_all [readHash, hashJson, readText, Except.toOption]

namespace RollForwardRow

@[simp] theorem ofTree_record (row : RollForwardRow) : ofTree row.record = some row := by
  have fields : structFields fieldNames row.record = some [.string row.asset.value,
      row.opening.toJson, row.additions.toJson, row.disposals.toJson, row.remeasurement.toJson,
      row.closing.toJson, hashesJson row.evidence] := by
    simp [structFields_eq_some, Gives, fieldNames, record]
  simp [ofTree, fields, AssetId.deserialize, readText, readList_hashesJson]

theorem integral_record (row : RollForwardRow) : Integral row.record := by
  simp [record, Integral, IntegralEntries, AssetAmount.toJson_eq, hashesJson, integralItems_iff,
    hashJson]

/-- The reader takes a tree exactly when it spells a row, whatever its amounts add up to. -/
theorem ofTree_isSome (v : Value) : (ofTree v).isSome ↔ SpellsRow v := by
  constructor
  · intro read
    unfold ofTree at read
    split at read
    · rename_i asset opening additions disposals remeasurement closing evidence fields
      obtain ⟨row, read⟩ := Option.isSome_iff_exists.mp read
      simp only [Option.bind_eq_bind, Option.bind_eq_some_iff, AssetId.deserialize_eq_some] at read
      obtain ⟨id, rfl, o, opens, a, adds, d, disposes, r, remeasures, c, closes, hs, hashed, -⟩ :=
        read
      have amount : ∀ {v a}, AssetAmount.deserialize v = some a → SpellsAmount v :=
        fun read => (AssetAmount.deserialize_isSome _).mp (by simp [read])
      cases evidence with
      | array hashes =>
        refine ⟨_, _, _, _, _, _, hashes, structFields_eq_some.mp fields, ⟨_, rfl⟩, amount opens,
          amount adds, amount disposes, amount remeasures, amount closes, fun v listed => ?_⟩
        have read : hashes.mapM readHash = some hs := hashed
        have all : (hashes.mapM readHash).isSome := by simp [read]
        exact (readHash_isSome v).mp (mapM_isSome_iff.mp all v listed)
      | null | bool | number | string | object => cases hashed
    · cases read
  · rintro ⟨_, opening, additions, disposals, remeasurement, closing, hashes, given, ⟨asset, rfl⟩,
      opens, adds, disposes, remeasures, closes, hashed⟩
    have amount : ∀ {v}, SpellsAmount v → ∃ a, AssetAmount.deserialize v = some a :=
      fun spelled => Option.isSome_iff_exists.mp ((AssetAmount.deserialize_isSome _).mpr spelled)
    obtain ⟨o, opens⟩ := amount opens
    obtain ⟨a, adds⟩ := amount adds
    obtain ⟨d, disposes⟩ := amount disposes
    obtain ⟨r, remeasures⟩ := amount remeasures
    obtain ⟨c, closes⟩ := amount closes
    obtain ⟨hs, hashed⟩ := Option.isSome_iff_exists.mp
      (mapM_isSome_iff.mpr fun v listed => (readHash_isSome v).mpr (hashed v listed))
    simp [ofTree, structFields_eq_some.mpr given, AssetId.deserialize, readText, readList, opens,
      adds, disposes, remeasures, closes, hashed]

end RollForwardRow

theorem RollForwardRow.deserialize_eq [External] [Documents] {text : String} {tree : Value}
    (parsed : document text = some tree) : deserialize text = ofTree tree := by
  rw [deserialize, parsed, Option.bind_some]

@[reducible] def referenceDocuments : @Documents reference :=
  letI : External := reference
  { document := fun s => parseTree standardReader (s.toList.length + 1) s.toList
    document_toText := fun v integral => by
      have text : (toText v).toList = print standard v := String.toList_ofList
      rw [text]
      exact parseTree_unlimited standardReader integral (Nat.lt_succ_self _) }

structure Rolls (row : RollForwardRow) : Prop where
  currency : row.additions.asset = row.opening.asset ∧ row.disposals.asset = row.opening.asset ∧
    row.remeasurement.asset = row.opening.asset ∧ row.closing.asset = row.opening.asset
  nonnegative : 0 ≤ row.opening.atoms.val ∧ 0 ≤ row.additions.atoms.val ∧
    0 ≤ row.disposals.atoms.val ∧ 0 ≤ row.closing.atoms.val
  equation : row.opening.atoms.val + row.additions.atoms.val - row.disposals.atoms.val +
    row.remeasurement.atoms.val = row.closing.atoms.val
  evidence : row.evidence.Pairwise (· < ·)

def Buildable (row : RollForwardRow) : Prop :=
  ∃ asset opening additions disposals remeasurement closing evidence,
    RollForwardRow.new asset opening additions disposals remeasurement closing evidence = .ok row

/-- The checks of `new` on five amounts of one currency. The first sum has to fit, also where a
disposal would bring it back. -/
structure Passes (opening additions disposals remeasurement closing : I128) : Prop where
  nonnegative : 0 ≤ opening.val ∧ 0 ≤ additions.val ∧ 0 ≤ disposals.val ∧ 0 ≤ closing.val
  fits : opening.val + additions.val < 2 ^ 127
  equation : opening.val + additions.val - disposals.val + remeasurement.val = closing.val

theorem RollForwardRow.new_ok_iff {asset : AssetId}
    {opening additions disposals remeasurement closing : AssetAmount} {evidence : List ContentHash}
    {row : RollForwardRow} :
    new asset opening additions disposals remeasurement closing evidence = .ok row ↔
      (additions.asset = opening.asset ∧ disposals.asset = opening.asset ∧
        remeasurement.asset = opening.asset ∧ closing.asset = opening.asset) ∧
      Passes opening.atoms additions.atoms disposals.atoms remeasurement.atoms closing.atoms ∧
      row = ⟨asset, opening, additions, disposals, remeasurement, closing,
        dedupAdjacent (sortBy id evidence)⟩ := by
  unfold new
  dsimp only
  split_ifs with currency negative
  · simp only [false_iff, not_and]
    intro _ passes
    have := passes.nonnegative
    simp only [Bounded.lt_def, I128.zero_val] at negative
    omega
  · have nonneg : 0 ≤ opening.atoms.val ∧ 0 ≤ additions.atoms.val ∧ 0 ≤ disposals.atoms.val ∧
        0 ≤ closing.atoms.val := by
      simp only [Bounded.lt_def, I128.zero_val] at negative
      omega
    have steps := fun rolled => @rolled_eq_some opening.atoms additions.atoms disposals.atoms
      remeasurement.atoms rolled nonneg.1 nonneg.2.1 nonneg.2.2.1
    cases sum : ((opening.atoms.checkedAdd additions.atoms).bind
        (·.checkedSub disposals.atoms)).bind (·.checkedAdd remeasurement.atoms) with
    | none =>
      simp only [reduceCtorEq, false_iff, not_and]
      intro _ passes
      have rolled := (steps closing.atoms).mpr ⟨passes.fits, passes.equation⟩
      simp [sum] at rolled
    | some rolled =>
      obtain ⟨fits, equation⟩ := (steps rolled).mp sum
      by_cases closes : rolled = closing.atoms
      · subst closes
        have passes : Passes opening.atoms additions.atoms disposals.atoms remeasurement.atoms
            closing.atoms := ⟨nonneg, fits, equation⟩
        simp [currency, passes, eq_comm]
      · simp only [ne_eq, closes, not_false_iff, if_true, reduceCtorEq, false_iff, not_and]
        intro _ passes
        exact absurd (Bounded.ext_val (equation.symm.trans passes.equation)) closes
  · simp only [false_iff, not_and]
    exact fun same => absurd same currency

theorem Buildable.rolls {row : RollForwardRow} (buildable : Buildable row) : Rolls row := by
  obtain ⟨_, _, _, _, _, _, _, made⟩ := buildable
  obtain ⟨currency, passes, rfl⟩ := RollForwardRow.new_ok_iff.mp made
  exact ⟨currency, passes.nonnegative, passes.equation, strict_dedup_sortBy _⟩

/-- A tree that has the seven members as they are written, and no others, for amounts of one
currency that pass the checks and evidence in order. -/
def RollingTree (tree : Value) : Prop :=
  ∃ (asset currency : AssetId) (opening additions disposals remeasurement closing : I128)
    (evidence : List ContentHash),
    tree = .object [("asset", .string asset.value),
      ("opening", AssetAmount.toJson ⟨currency, opening⟩),
      ("additions", AssetAmount.toJson ⟨currency, additions⟩),
      ("disposals", AssetAmount.toJson ⟨currency, disposals⟩),
      ("remeasurement", AssetAmount.toJson ⟨currency, remeasurement⟩),
      ("closing", AssetAmount.toJson ⟨currency, closing⟩), ("evidence", hashesJson evidence)] ∧
    Passes opening additions disposals remeasurement closing ∧ evidence.Pairwise (· < ·)

theorem rollingTree_iff {tree : Value} :
    RollingTree tree ↔ ∃ row : RollForwardRow, Buildable row ∧ tree = row.record := by
  constructor
  · rintro ⟨asset, currency, opening, additions, disposals, remeasurement, closing, evidence, shape,
      passes, strict⟩
    refine ⟨⟨asset, ⟨currency, opening⟩, ⟨currency, additions⟩, ⟨currency, disposals⟩,
      ⟨currency, remeasurement⟩, ⟨currency, closing⟩, evidence⟩, ?_, shape⟩
    refine ⟨asset, ⟨currency, opening⟩, ⟨currency, additions⟩, ⟨currency, disposals⟩,
      ⟨currency, remeasurement⟩, ⟨currency, closing⟩, evidence, ?_⟩
    rw [RollForwardRow.new_ok_iff, dedup_sortBy_eq_self strict]
    exact ⟨⟨rfl, rfl, rfl, rfl⟩, passes, rfl⟩
  · rintro ⟨row, ⟨asset, ⟨currency, opening⟩, ⟨_, additions⟩, ⟨_, disposals⟩, ⟨_, remeasurement⟩,
      ⟨_, closing⟩, evidence, made⟩, rfl⟩
    obtain ⟨⟨rfl, rfl, rfl, rfl⟩, passes, rfl⟩ := RollForwardRow.new_ok_iff.mp made
    exact ⟨asset, _, opening, additions, disposals, remeasurement, closing, _, rfl, passes,
      strict_dedup_sortBy evidence⟩

/-- Every row that `new` builds rolls, and its encoding is read back as the row. What is read
from a text is such a row and the text its encoding exactly when the tree of the text does not
spell a row at all, or is a tree that rolls. -/
theorem rows_roll_iff [External] [Documents] :
    (∀ row, Buildable row → Rolls row ∧ document (toText row.record) = some row.record ∧
      ∀ text, document text = some row.record → RollForwardRow.deserialize text = some row) ∧
    ∀ text,
      (∀ row, RollForwardRow.deserialize text = some row →
        Rolls row ∧ Buildable row ∧ document text = some row.record) ↔
      ∀ tree, document text = some tree → SpellsRow tree → RollingTree tree := by
  constructor
  · intro row buildable
    refine ⟨buildable.rolls, Documents.document_toText _ row.integral_record, ?_⟩
    intro text parsed
    rw [RollForwardRow.deserialize_eq parsed, row.ofTree_record]
  · intro text
    constructor
    · intro sound tree parsed spelled
      obtain ⟨row, taken⟩ := Option.isSome_iff_exists.mp
        ((RollForwardRow.ofTree_isSome tree).mpr spelled)
      obtain ⟨_, buildable, encoding⟩ :=
        sound row ((RollForwardRow.deserialize_eq parsed).trans taken)
      obtain rfl := Option.some.inj (parsed.symm.trans encoding)
      exact rollingTree_iff.mpr ⟨row, buildable, rfl⟩
    · intro rolling row taken
      obtain ⟨tree, parsed, taken⟩ := Option.bind_eq_some_iff.mp taken
      have spelled := (RollForwardRow.ofTree_isSome tree).mp (by simp [taken])
      obtain ⟨built, buildable, rfl⟩ := rollingTree_iff.mp (rolling tree parsed spelled)
      obtain rfl := Option.some.inj (built.ofTree_record.symm.trans taken)
      exact ⟨buildable.rolls, buildable, parsed⟩

def fromNothing : RollForwardRow :=
  let usd (z : Int) : AssetAmount := ⟨⟨"USD"⟩, .literal z⟩
  ⟨⟨"BTC"⟩, usd 0, usd 0, usd 0, usd 0, usd 1, []⟩

/-- The text of a row that does not roll is read as a row. -/
theorem fromNothing_read :
    letI : External := reference
    letI : Documents := referenceDocuments
    RollForwardRow.deserialize (toText fromNothing.record) = some fromNothing ∧
      ¬Rolls fromNothing ∧ ¬Buildable fromNothing := by
  let _ : External := reference
  let _ : Documents := referenceDocuments
  have rollsNot : ¬Rolls fromNothing := fun rolls => absurd rolls.equation (by decide)
  have read := RollForwardRow.deserialize_eq
    (Documents.document_toText _ fromNothing.integral_record)
  exact ⟨read.trans fromNothing.ofTree_record, rollsNot, fun built => rollsNot built.rolls⟩

end Treasury
