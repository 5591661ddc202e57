import Mathlib.Data.List.Sort
import Mathlib.Data.String.Basic
import Treasury.Kit.Bounded

/-! JSON trees: their measures, the form in which an object is a map ordered by
key, and the construction of such a map from a list of members. -/
namespace Kit.Json

/-- Integers cover the signed and the unsigned 64-bit range, from `-2^63` to
`2^64 - 1`; any other number is kept as the text it prints as. -/
inductive Number where
  | int (z : Bounded (-9223372036854775808) 18446744073709551616)
  | float (text : String)
  deriving DecidableEq

inductive Value where
  | null
  | bool (b : Bool)
  | number (n : Number)
  | string (s : String)
  | array (items : List Value)
  | object (entries : List (String × Value))

/-- Induction over a tree, with one property of values, one of item lists and one
of member lists. -/
theorem Value.induct {P : Value → Prop} {I : List Value → Prop}
    {E : List (String × Value) → Prop} (null : P .null) (bool : ∀ b, P (.bool b))
    (number : ∀ n, P (.number n)) (string : ∀ s, P (.string s))
    (array : ∀ items, I items → P (.array items))
    (object : ∀ entries, E entries → P (.object entries))
    (items_nil : I []) (items_cons : ∀ v vs, P v → I vs → I (v :: vs))
    (entries_nil : E []) (entries_cons : ∀ k v es, P v → E es → E ((k, v) :: es))
    (v : Value) : P v :=
  @Value.rec P I E (fun e => P e.2) null bool number string array object items_nil items_cons
    entries_nil (fun e es head tail => entries_cons e.1 e.2 es head tail) (fun _ _ h => h) v

mutual
/-- How many levels a value has below its own. -/
def height : Value → Nat
  | .array items => heightItems items
  | .object entries => heightEntries entries
  | _ => 0

def heightItems : List Value → Nat
  | [] => 0
  | v :: vs => max (height v + 1) (heightItems vs)

def heightEntries : List (String × Value) → Nat
  | [] => 0
  | (_, v) :: es => max (height v + 1) (heightEntries es)
end

mutual
/-- How many arrays and objects are open at the deepest point. -/
def nesting : Value → Nat
  | .array items => nestingItems items + 1
  | .object entries => nestingEntries entries + 1
  | _ => 0

def nestingItems : List Value → Nat
  | [] => 0
  | v :: vs => max (nesting v) (nestingItems vs)

def nestingEntries : List (String × Value) → Nat
  | [] => 0
  | (_, v) :: es => max (nesting v) (nestingEntries es)
end

mutual
/-- No number of the tree is a float. -/
def Integral : Value → Prop
  | .number (.float _) => False
  | .array items => IntegralItems items
  | .object entries => IntegralEntries entries
  | _ => True

def IntegralItems : List Value → Prop
  | [] => True
  | v :: vs => Integral v ∧ IntegralItems vs

def IntegralEntries : List (String × Value) → Prop
  | [] => True
  | (_, v) :: es => Integral v ∧ IntegralEntries es
end

mutual
/-- Every object lists its members in strictly increasing key order, as a map
that is ordered by key does. -/
def Sorted : Value → Prop
  | .array items => SortedItems items
  | .object entries => entries.Pairwise (fun a b => a.1 < b.1) ∧ SortedEntries entries
  | _ => True

def SortedItems : List Value → Prop
  | [] => True
  | v :: vs => Sorted v ∧ SortedItems vs

def SortedEntries : List (String × Value) → Prop
  | [] => True
  | (_, v) :: es => Sorted v ∧ SortedEntries es
end

/-- A map ordered by key; a later binding of a key replaces an earlier one. -/
def insertEntry (k : String) (v : Value) : List (String × Value) → List (String × Value)
  | [] => [(k, v)]
  | (j, w) :: es =>
    if k < j then (k, v) :: (j, w) :: es
    else if k = j then (k, v) :: es
    else (j, w) :: insertEntry k v es

def ofEntries (es : List (String × Value)) : List (String × Value) :=
  es.foldl (fun m e => insertEntry e.1 e.2 m) []

def lookup (k : String) : List (String × Value) → Option Value
  | [] => none
  | (j, v) :: es => if j = k then some v else lookup k es

mutual
/-- The tree a reader builds, in which every object is a map ordered by key. -/
def asRead : Value → Value
  | .array items => .array (asReadItems items)
  | .object entries => .object (ofEntries (asReadEntries entries))
  | v => v

def asReadItems : List Value → List Value
  | [] => []
  | v :: vs => asRead v :: asReadItems vs

def asReadEntries : List (String × Value) → List (String × Value)
  | [] => []
  | (k, v) :: es => (k, asRead v) :: asReadEntries es
end

theorem integralItems_iff (vs : List Value) : IntegralItems vs ↔ ∀ v ∈ vs, Integral v := by
  induction vs with
  | nil => simp [IntegralItems]
  | cons v vs ih => simp [IntegralItems, ih]

theorem integralEntries_iff (es : List (String × Value)) :
    IntegralEntries es ↔ ∀ e ∈ es, Integral e.2 := by
  induction es with
  | nil => simp [IntegralEntries]
  | cons e es ih => obtain ⟨k, v⟩ := e; simp [IntegralEntries, ih]

theorem sortedItems_iff (vs : List Value) : SortedItems vs ↔ ∀ v ∈ vs, Sorted v := by
  induction vs with
  | nil => simp [SortedItems]
  | cons v vs ih => simp [SortedItems, ih]

theorem sortedEntries_iff (es : List (String × Value)) :
    SortedEntries es ↔ ∀ e ∈ es, Sorted e.2 := by
  induction es with
  | nil => simp [SortedEntries]
  | cons e es ih => obtain ⟨k, v⟩ := e; simp [SortedEntries, ih]

theorem heightItems_le_iff (vs : List Value) (n : Nat) :
    heightItems vs ≤ n ↔ ∀ v ∈ vs, height v + 1 ≤ n := by
  induction vs with
  | nil => simp [heightItems]
  | cons v vs ih => simp [heightItems, ih]

theorem heightEntries_le_iff (es : List (String × Value)) (n : Nat) :
    heightEntries es ≤ n ↔ ∀ e ∈ es, height e.2 + 1 ≤ n := by
  induction es with
  | nil => simp [heightEntries]
  | cons e es ih => obtain ⟨k, v⟩ := e; simp [heightEntries, ih]

theorem mem_insertEntry {k : String} {v : Value} {m : List (String × Value)}
    {e : String × Value} (h : e ∈ insertEntry k v m) : e = (k, v) ∨ e ∈ m := by
  induction m with
  | nil => left; simpa [insertEntry] using h
  | cons f m ih =>
    obtain ⟨j, w⟩ := f
    simp only [insertEntry] at h
    split_ifs at h with below same
    · exact List.mem_cons.mp h
    · rcases List.mem_cons.mp h with new | old
      · exact .inl new
      · exact .inr (List.mem_cons_of_mem _ old)
    · rcases List.mem_cons.mp h with first | later
      · exact .inr (first ▸ List.mem_cons_self)
      · exact (ih later).imp id (List.mem_cons_of_mem _)

theorem insertEntry_ordered (k : String) (v : Value) (m : List (String × Value))
    (h : m.Pairwise fun a b => a.1 < b.1) :
    (insertEntry k v m).Pairwise fun a b => a.1 < b.1 := by
  induction m with
  | nil => simp [insertEntry]
  | cons f m ih =>
    obtain ⟨j, w⟩ := f
    obtain ⟨above, rest⟩ := List.pairwise_cons.mp h
    simp only [insertEntry]
    split_ifs with below same
    · refine List.pairwise_cons.mpr ⟨fun e he => ?_, h⟩
      rcases List.mem_cons.mp he with first | later
      · rw [first]; exact below
      · exact below.trans (above e later)
    · subst same
      exact List.pairwise_cons.mpr ⟨above, rest⟩
    · refine List.pairwise_cons.mpr ⟨fun e he => ?_, ih rest⟩
      rcases mem_insertEntry he with new | old
      · rw [new]; exact lt_of_le_of_ne (not_lt.mp below) (Ne.symm same)
      · exact above e old

theorem lookup_eq_none {k : String} {es : List (String × Value)} (h : k ∉ es.map Prod.fst) :
    lookup k es = none := by
  induction es with
  | nil => rfl
  | cons e es ih =>
    simp only [List.map_cons, List.mem_cons, not_or] at h
    simp [lookup, Ne.symm h.1, ih h.2]

theorem lookup_insertEntry (k j : String) (v : Value) (m : List (String × Value)) :
    lookup j (insertEntry k v m) = if k = j then some v else lookup j m := by
  induction m with
  | nil => simp [insertEntry, lookup]
  | cons f m ih =>
    obtain ⟨i, w⟩ := f
    by_cases below : k < i
    · simp [insertEntry, below, lookup]
    by_cases here : k = i
    · subst here
      by_cases asked : k = j <;> simp [insertEntry, lookup, asked]
    · by_cases asked : k = j
      · subst asked
        simp [insertEntry, below, here, lookup, ih, Ne.symm here]
      · simp [insertEntry, below, here, lookup, ih, asked]

theorem mem_of_mem_ofEntries {es : List (String × Value)} {e : String × Value}
    (h : e ∈ ofEntries es) : e ∈ es := by
  have grow : ∀ (es m : List (String × Value)),
      e ∈ es.foldl (fun m e => insertEntry e.1 e.2 m) m → e ∈ es ∨ e ∈ m := by
    intro es
    induction es with
    | nil => exact fun m h => .inr h
    | cons f es ih =>
      intro m h
      rcases ih _ h with later | now
      · exact .inl (List.mem_cons_of_mem _ later)
      · rcases mem_insertEntry now with new | old
        · exact .inl (new ▸ List.mem_cons_self)
        · exact .inr old
  exact (grow es [] h).resolve_right (by simp)

theorem ofEntries_ordered (es : List (String × Value)) :
    (ofEntries es).Pairwise fun a b => a.1 < b.1 := by
  have keeps : ∀ (es m : List (String × Value)), m.Pairwise (fun a b => a.1 < b.1) →
      (es.foldl (fun m e => insertEntry e.1 e.2 m) m).Pairwise fun a b => a.1 < b.1 := by
    intro es
    induction es with
    | nil => exact fun m h => h
    | cons e es ih => exact fun m h => ih _ (insertEntry_ordered e.1 e.2 m h)
  exact keeps es [] List.Pairwise.nil

theorem lookup_ofEntries (es : List (String × Value)) (distinct : (es.map Prod.fst).Nodup)
    (k : String) : lookup k (ofEntries es) = lookup k es := by
  have later : ∀ (es m : List (String × Value)), (es.map Prod.fst).Nodup →
      lookup k (es.foldl (fun m e => insertEntry e.1 e.2 m) m) =
        (lookup k es).or (lookup k m) := by
    intro es
    induction es with
    | nil => intro m _; simp [lookup]
    | cons e es ih =>
      obtain ⟨j, v⟩ := e
      intro m nodup
      simp only [List.map_cons, List.nodup_cons] at nodup
      rw [List.foldl_cons, ih _ nodup.2, lookup_insertEntry]
      by_cases here : j = k
      · subst here
        simp [lookup, lookup_eq_none nodup.1]
      · simp [lookup, here]
  simpa [ofEntries, lookup] using later es [] distinct

theorem ofEntries_injective {es fs : List (String × Value)}
    (keys : es.map Prod.fst = fs.map Prod.fst) (distinct : (es.map Prod.fst).Nodup)
    (same : ofEntries es = ofEntries fs) : es = fs := by
  have lookups : ∀ k, lookup k es = lookup k fs := fun k => by
    rw [← lookup_ofEntries es distinct, ← lookup_ofEntries fs (keys ▸ distinct), same]
  clear same
  induction es generalizing fs with
  | nil => cases fs with
    | nil => rfl
    | cons f fs => simp at keys
  | cons e es ih => cases fs with
    | nil => simp at keys
    | cons f fs =>
      obtain ⟨k, v⟩ := e
      obtain ⟨j, w⟩ := f
      simp only [List.map_cons, List.cons.injEq] at keys
      obtain ⟨rfl, keys⟩ := keys
      simp only [List.map_cons, List.nodup_cons] at distinct
      have value : v = w := by simpa [lookup] using lookups k
      have rest : es = fs := ih keys distinct.2 fun i => by
        by_cases here : k = i
        · subst here
          rw [lookup_eq_none distinct.1, lookup_eq_none (keys ▸ distinct.1)]
        · simpa [lookup, here] using lookups i
      rw [value, rest]

/-- A value in which every object is a map. -/
structure Tree where
  value : Value
  sorted : Sorted value

theorem Tree.ext_value {a b : Tree} (h : a.value = b.value) : a = b := by
  cases a; cases b; cases h; rfl

theorem sorted_object {es : List (String × Value)} (h : ∀ e ∈ es, Sorted e.2) :
    Sorted (.object (ofEntries es)) :=
  ⟨ofEntries_ordered es, (sortedEntries_iff _).mpr fun e he => h e (mem_of_mem_ofEntries he)⟩

theorem mem_ofEntries {es : List (String × Value)} (distinct : (es.map Prod.fst).Nodup)
    {e : String × Value} (h : e ∈ es) : e ∈ ofEntries es := by
  have mem_of_lookup : ∀ fs : List (String × Value), lookup e.1 fs = some e.2 → e ∈ fs := by
    intro fs
    induction fs with
    | nil => simp [lookup]
    | cons f fs ih =>
      intro found
      simp only [lookup] at found
      split_ifs at found with same
      · rw [Option.some.injEq] at found
        exact List.mem_cons.mpr (.inl (Prod.ext same.symm found.symm))
      · exact List.mem_cons_of_mem _ (ih found)
  have lookup_of_mem : ∀ fs : List (String × Value), (fs.map Prod.fst).Nodup → e ∈ fs →
      lookup e.1 fs = some e.2 := by
    intro fs
    induction fs with
    | nil => simp
    | cons f fs ih =>
      intro nodup he
      simp only [List.map_cons, List.nodup_cons] at nodup
      rcases List.mem_cons.mp he with rfl | later
      · simp [lookup]
      · have different : f.1 ≠ e.1 := fun same =>
          nodup.1 (same ▸ List.mem_map_of_mem later)
        simp [lookup, different, ih nodup.2 later]
  apply mem_of_lookup
  rw [lookup_ofEntries es distinct]
  exact lookup_of_mem es distinct h

theorem integral_ofEntries {es : List (String × Value)} (distinct : (es.map Prod.fst).Nodup) :
    Integral (.object (ofEntries es)) ↔ ∀ e ∈ es, Integral e.2 := by
  rw [Integral, integralEntries_iff]
  exact ⟨fun h e he => h e (mem_ofEntries distinct he),
    fun h e he => h e (mem_of_mem_ofEntries he)⟩

theorem height_ofEntries {es : List (String × Value)} (distinct : (es.map Prod.fst).Nodup)
    (n : Nat) : height (.object (ofEntries es)) ≤ n ↔ ∀ e ∈ es, height e.2 + 1 ≤ n := by
  rw [height, heightEntries_le_iff]
  exact ⟨fun h e he => h e (mem_ofEntries distinct he),
    fun h e he => h e (mem_of_mem_ofEntries he)⟩

/- What a reader builds is a map everywhere, and a map is read back as it is. -/

theorem insertEntry_above {k : String} {v : Value} {m : List (String × Value)}
    (above : ∀ e ∈ m, e.1 < k) : insertEntry k v m = m ++ [(k, v)] := by
  induction m with
  | nil => rfl
  | cons f m ih =>
    obtain ⟨j, w⟩ := f
    have lower : j < k := above (j, w) List.mem_cons_self
    rw [insertEntry, if_neg (not_lt.mpr lower.le), if_neg lower.ne',
      ih fun e he => above e (List.mem_cons_of_mem _ he), List.cons_append]

theorem ofEntries_eq_self {es : List (String × Value)}
    (ordered : es.Pairwise fun a b => a.1 < b.1) : ofEntries es = es := by
  have grow : ∀ es m : List (String × Value), (m ++ es).Pairwise (fun a b => a.1 < b.1) →
      es.foldl (fun m e => insertEntry e.1 e.2 m) m = m ++ es := by
    intro es
    induction es with
    | nil => simp
    | cons e es ih =>
      intro m ordered
      have above : ∀ f ∈ m, f.1 < e.1 := fun f hf =>
        (List.pairwise_append.mp ordered).2.2 f hf e List.mem_cons_self
      rw [List.foldl_cons, insertEntry_above above, ih _ (by simpa using ordered),
        List.append_assoc, List.singleton_append]
  simpa [ofEntries] using grow es [] (by simpa using ordered)

theorem asReadEntries_keys (es : List (String × Value)) :
    (asReadEntries es).map Prod.fst = es.map Prod.fst := by
  induction es with
  | nil => rfl
  | cons e es ih => obtain ⟨k, v⟩ := e; simp [asReadEntries, ih]

theorem sorted_asRead (v : Value) : Sorted (asRead v) := by
  refine @Value.induct (fun v => Sorted (asRead v)) (fun vs => SortedItems (asReadItems vs))
    (fun es => SortedEntries (asReadEntries es)) ?null ?bool ?number ?string ?array ?object ?nil
    ?items ?none ?entries v
  case null => trivial
  case bool => exact fun _ => trivial
  case number => exact fun _ => trivial
  case string => exact fun _ => trivial
  case array => exact fun _ ih => ih
  case object => exact fun _ ih => sorted_object ((sortedEntries_iff _).mp ih)
  case nil => trivial
  case items => exact fun _ _ head tail => ⟨head, tail⟩
  case none => trivial
  case entries => exact fun _ _ _ head tail => ⟨head, tail⟩

theorem asRead_eq_self (v : Value) (sorted : Sorted v) : asRead v = v := by
  refine @Value.induct (fun v => Sorted v → asRead v = v)
    (fun vs => SortedItems vs → asReadItems vs = vs)
    (fun es => SortedEntries es → asReadEntries es = es) ?null ?bool ?number ?string ?array
    ?object ?nil ?items ?none ?entries v sorted
  case null => exact fun _ => rfl
  case bool => exact fun _ _ => rfl
  case number => exact fun _ _ => rfl
  case string => exact fun _ _ => rfl
  case array => exact fun _ ih sorted => congrArg Value.array (ih sorted)
  case object =>
    intro es ih sorted
    rw [asRead, ih sorted.2, ofEntries_eq_self sorted.1]
  case nil => exact fun _ => rfl
  case items => exact fun v vs head tail sorted => by rw [asReadItems, head sorted.1, tail sorted.2]
  case none => exact fun _ => rfl
  case entries =>
    exact fun k v es head tail sorted => by rw [asReadEntries, head sorted.1, tail sorted.2]

def Tree.ofValue (v : Value) : Tree := ⟨asRead v, sorted_asRead v⟩

@[simp] theorem Tree.ofValue_value (t : Tree) : Tree.ofValue t.value = t :=
  Tree.ext_value (asRead_eq_self t.value t.sorted)

end Kit.Json
