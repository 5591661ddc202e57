import Treasury.Kit.Json.Print

/-! A reader of compact JSON text with a limit on nesting. It inverts `print` on
trees without floats that nest below the limit and refuses the deeper ones. -/
namespace Kit.Json

/-- A reader of the strings that a quoting writes. -/
structure Unquoting (q : Quoting) where
  unquote : Text → Option (String × Text)
  unquote_quote : ∀ s r, unquote (q.quote s ++ r) = some (s, r)

def natOfDigits (ds : Text) : Option Int :=
  if ds ≠ [] ∧ ds.all Char.isDigit then some (Nat.ofDigitChars 10 ds 0) else none

def intOfText : Text → Option Int
  | '-' :: ds => (natOfDigits ds).map (- ·)
  | ds => natOfDigits ds

def parseNumber (text : Text) : Option (Value × Text) := do
  let z ← intOfText (text.takeWhile numeric)
  let n ← Bounded.ofInt? z
  return (.number (.int n), text.dropWhile numeric)

/-- What separates an item from the one before it. -/
def skipComma : Bool → Text → Option Text
  | true, text => some text
  | false, ',' :: text => some text
  | false, _ => none

variable {q : Quoting} (u : Unquoting q)

mutual
/-- The first argument bounds the recursion, the second is how deep arrays and
objects may still be opened: none may be when it is one. -/
def parseValue : Nat → Nat → Text → Option (Value × Text)
  | 0, _, _ => none
  | fuel + 1, depth, text =>
    match text with
    | 'n' :: 'u' :: 'l' :: 'l' :: rest => some (.null, rest)
    | 't' :: 'r' :: 'u' :: 'e' :: rest => some (.bool true, rest)
    | 'f' :: 'a' :: 'l' :: 's' :: 'e' :: rest => some (.bool false, rest)
    | '\x22' :: rest => (u.unquote ('\x22' :: rest)).map fun (s, rest) => (.string s, rest)
    | '[' :: rest =>
      if depth ≤ 1 then none
      else (parseItems fuel (depth - 1) true rest).map fun (vs, rest) => (.array vs, rest)
    | '\x7b' :: rest =>
      if depth ≤ 1 then none
      else (parseEntries fuel (depth - 1) true rest).map fun (es, rest) => (.object es, rest)
    | text => parseNumber text

def parseItems : Nat → Nat → Bool → Text → Option (List Value × Text)
  | 0, _, _, _ => none
  | fuel + 1, depth, first, text =>
    match text with
    | ']' :: rest => some ([], rest)
    | text => do
      let text ← skipComma first text
      let (v, text) ← parseValue fuel depth text
      let (vs, text) ← parseItems fuel depth false text
      return (v :: vs, text)

def parseEntries : Nat → Nat → Bool → Text → Option (List (String × Value) × Text)
  | 0, _, _, _ => none
  | fuel + 1, depth, first, text =>
    match text with
    | '\x7d' :: rest => some ([], rest)
    | text => do
      let text ← skipComma first text
      let (k, text) ← u.unquote text
      match text with
      | ':' :: text => do
        let (v, text) ← parseValue fuel depth text
        let (es, text) ← parseEntries fuel depth false text
        return ((k, v) :: es, text)
      | _ => none
end

/-- The tree of a text, with the members of each object as the text lists them. -/
def parseTree (limit : Nat) (text : Text) : Option Value :=
  match parseValue u (text.length + 1) limit text with
  | some (v, []) => some v
  | _ => none

def parse (limit : Nat) (text : Text) : Option Value := (parseTree u limit text).map asRead

theorem intOfText_repr (z : Int) : intOfText z.repr.toList = some z := by
  have digits : ∀ n : Nat, natOfDigits n.repr.toList = some (n : Int) := by
    intro n
    have all : (Nat.toDigits 10 n).all Char.isDigit := by
      rw [List.all_eq_true]
      exact fun c hc => Nat.isDigit_of_mem_toDigits (by decide) (by decide) hc
    simp [natOfDigits, Nat.toList_repr, all, Nat.toDigits_ne_nil, Nat.ofDigitChars_ten_toDigits]
  cases z with
  | ofNat n =>
    rw [repr_ofNat]
    have : intOfText n.repr.toList = natOfDigits n.repr.toList := by
      unfold intOfText
      split
      · rename_i ds same
        have minus : '-' ∈ Nat.toDigits 10 n := by
          rw [← Nat.toList_repr, same]
          exact List.mem_cons_self
        exact absurd (Nat.isDigit_of_mem_toDigits (by decide) (by decide) minus) (by decide)
      · rfl
    rw [this, digits]
    rfl
  | negSucc n =>
    have : (Int.negSucc n).repr.toList = '-' :: (n + 1).repr.toList := by simp [Int.repr]
    rw [this, intOfText, digits]
    rfl

theorem parseNumber_repr (z : Bounded (-9223372036854775808) 18446744073709551616) (r : Text)
    (stop : Stops r) : parseNumber (z.val.repr.toList ++ r) = some (.number (.int z), r) := by
  have digits := takeWhile_numeric z.val.repr.toList r (repr_numeric z.val) stop
  have rest : (z.val.repr.toList ++ r).dropWhile numeric = r := by
    have both := List.takeWhile_append_dropWhile (p := numeric) (l := z.val.repr.toList ++ r)
    rw [digits] at both
    exact List.append_cancel_left both
  simp [parseNumber, digits, rest, intOfText_repr]

mutual
/-- How deep the recursion goes that reads a tree. -/
def calls : Value → Nat
  | .array items => callsItems items + 1
  | .object entries => callsEntries entries + 1
  | _ => 1

def callsItems : List Value → Nat
  | [] => 1
  | v :: vs => max (calls v) (callsItems vs) + 1

def callsEntries : List (String × Value) → Nat
  | [] => 1
  | (_, v) :: es => max (calls v) (callsEntries es) + 1
end

theorem print_ne_nil (q : Quoting) (v : Value) (integral : Integral v) : 0 < (print q v).length := by
  obtain ⟨c, t, text, _⟩ := print_form q v integral
  simp [text]

theorem calls_le (q : Quoting) (v : Value) (integral : Integral v) :
    calls v ≤ (print q v).length := by
  refine @Value.induct (fun v => Integral v → calls v ≤ (print q v).length)
    (fun vs => IntegralItems vs → ∀ first, callsItems vs ≤ (printItems q first vs).length + 1)
    (fun es => IntegralEntries es →
      ∀ first, callsEntries es ≤ (printEntries q first es).length + 1)
    ?null ?bool ?number ?string ?array ?object ?nil ?items ?none ?entries v integral
  case null => exact fun h => print_ne_nil q _ h
  case bool => exact fun b h => print_ne_nil q _ h
  case number => exact fun n h => print_ne_nil q _ h
  case string => exact fun s h => print_ne_nil q _ h
  case array =>
    intro vs ih h
    have := ih h true
    simp only [calls, print, List.length_cons, List.length_append, List.length_nil]
    omega
  case object =>
    intro es ih h
    have := ih h true
    simp only [calls, print, List.length_cons, List.length_append, List.length_nil]
    omega
  case nil => simp [callsItems]
  case items =>
    intro v vs head tail h first
    have := head h.1
    have := tail h.2 false
    have := print_ne_nil q v h.1
    simp only [callsItems, printItems, List.length_append]
    omega
  case none => simp [callsEntries]
  case entries =>
    intro k v es head tail h first
    have := head h.1
    have := tail h.2 false
    have := print_ne_nil q v h.1
    simp only [callsEntries, printEntries, List.length_append, List.length_cons]
    omega

def ReadsValue (v : Value) : Prop :=
  Integral v → ∀ fuel d r, calls v ≤ fuel → 1 ≤ d → Stops r →
    parseValue u fuel d (print q v ++ r) =
      if nesting v < d then some (v, r) else none

def ReadsItems (vs : List Value) : Prop :=
  IntegralItems vs → ∀ fuel d first r, callsItems vs ≤ fuel → 1 ≤ d →
    parseItems u fuel d first (printItems q first vs ++ ']' :: r) =
      if nestingItems vs < d then some (vs, r) else none

def ReadsEntries (es : List (String × Value)) : Prop :=
  IntegralEntries es → ∀ fuel d first r, callsEntries es ≤ fuel → 1 ≤ d →
    parseEntries u fuel d first (printEntries q first es ++ '\x7d' :: r) =
      if nestingEntries es < d then some (es, r) else none

theorem parseItems_comma (fuel d : Nat) (first : Bool) (v : Value) (integral : Integral v)
    (r : Text) :
    parseItems u (fuel + 1) d first ((if first then [] else [',']) ++ print q v ++ r) = do
      let (w, text) ← parseValue u fuel d (print q v ++ r)
      let (ws, text) ← parseItems u fuel d false text
      return (w :: ws, text) := by
  cases first with
  | false => simp [parseItems, skipComma]
  | true =>
    obtain ⟨c, t, text, head⟩ := print_form q v integral
    have open_bracket : c ≠ ']' := by
      rintro rfl
      have := form_lt v
      rw [← head] at this
      exact absurd this (by decide)
    simp [parseItems, skipComma, text, open_bracket]

theorem parseEntries_comma (fuel d : Nat) (first : Bool) (k : String) (r : Text) :
    parseEntries u (fuel + 1) d first ((if first then [] else [',']) ++ q.quote k ++ ':' :: r) = do
      let (w, text) ← parseValue u fuel d r
      let (ws, text) ← parseEntries u fuel d false text
      return ((k, w) :: ws, text) := by
  obtain ⟨t, text⟩ := q.opens k
  have back := u.unquote_quote k (':' :: r)
  rw [text, List.cons_append] at back
  cases first with
  | false => simp [parseEntries, skipComma, text, back]
  | true => simp [parseEntries, skipComma, text, back]

theorem reads_items_cons (v : Value) (vs : List Value) (head : ReadsValue u v)
    (tail : ReadsItems u vs) : ReadsItems u (v :: vs) := by
  intro integral fuel d first r enough deep
  simp only [callsItems] at enough
  obtain ⟨fuel, rfl⟩ : ∃ n, fuel = n + 1 := ⟨fuel - 1, by omega⟩
  have text : printItems q first (v :: vs) ++ ']' :: r =
      (if first then [] else [',']) ++ print q v ++ (printItems q false vs ++ ']' :: r) := by
    simp [printItems]
  rw [text, parseItems_comma u fuel d first v integral.1,
    head integral.1 fuel d _ (by omega) deep (stops_items q vs r)]
  simp only [nestingItems]
  by_cases low : nesting v < d
  · simp only [low, if_true, Option.bind_eq_bind, Option.bind_some,
      tail integral.2 fuel d false r (by omega) deep]
    by_cases rest : nestingItems vs < d
    · simp [rest, low]
    · simp [rest]
  · simp [low]

theorem reads_entries_cons (k : String) (v : Value) (es : List (String × Value))
    (head : ReadsValue u v) (tail : ReadsEntries u es) : ReadsEntries u ((k, v) :: es) := by
  intro integral fuel d first r enough deep
  simp only [callsEntries] at enough
  obtain ⟨fuel, rfl⟩ : ∃ n, fuel = n + 1 := ⟨fuel - 1, by omega⟩
  have text : printEntries q first ((k, v) :: es) ++ '\x7d' :: r =
      (if first then [] else [',']) ++ q.quote k ++
        ':' :: (print q v ++ (printEntries q false es ++ '\x7d' :: r)) := by
    simp [printEntries]
  rw [text, parseEntries_comma u fuel d first k,
    head integral.1 fuel d _ (by omega) deep (stops_entries q es r)]
  simp only [nestingEntries]
  by_cases low : nesting v < d
  · simp only [low, if_true, Option.bind_eq_bind, Option.bind_some,
      tail integral.2 fuel d false r (by omega) deep]
    by_cases rest : nestingEntries es < d
    · simp [rest, low]
    · simp [rest]
  · simp [low]

theorem reads_value (v : Value) : ReadsValue u v := by
  refine @Value.induct (ReadsValue u) (ReadsItems u) (ReadsEntries u) ?null ?bool ?number ?string
    ?array ?object ?nil (reads_items_cons u) ?none (reads_entries_cons u) v
  case null =>
    intro _ fuel d r enough deep _
    obtain ⟨fuel, rfl⟩ : ∃ n, fuel = n + 1 := ⟨fuel - 1, by simp only [calls] at enough; omega⟩
    simp [print, parseValue, nesting, Nat.lt_of_lt_of_le Nat.zero_lt_one deep]
  case bool =>
    intro b _ fuel d r enough deep _
    obtain ⟨fuel, rfl⟩ : ∃ n, fuel = n + 1 := ⟨fuel - 1, by simp only [calls] at enough; omega⟩
    cases b <;>
      simp [print, parseValue, nesting, Nat.lt_of_lt_of_le Nat.zero_lt_one deep]
  case number =>
    intro n integral fuel d r enough deep stop
    obtain ⟨fuel, rfl⟩ : ∃ n, fuel = n + 1 := ⟨fuel - 1, by simp only [calls] at enough; omega⟩
    cases n with
    | float => exact absurd integral (by simp [Integral])
    | int z =>
      obtain ⟨c, t, text⟩ := List.exists_cons_of_ne_nil (repr_ne_nil z.val)
      have head : formOfChar c = 3 := numeric_form (repr_numeric z.val c (by simp [text]))
      have number := parseNumber_repr z r stop
      rw [text, List.cons_append] at number
      simp only [print, text, List.cons_append, nesting,
        Nat.lt_of_lt_of_le Nat.zero_lt_one deep, if_true]
      rw [← number]
      unfold parseValue
      split <;> first
        | rfl
        | (rename_i same; rw [(List.cons.inj same).1] at head; exact absurd head (by decide))
  case string =>
    intro s _ fuel d r enough deep _
    obtain ⟨fuel, rfl⟩ : ∃ n, fuel = n + 1 := ⟨fuel - 1, by simp only [calls] at enough; omega⟩
    obtain ⟨t, text⟩ := q.opens s
    have back := u.unquote_quote s r
    rw [text, List.cons_append] at back
    simp [print, text, parseValue, back, nesting,
      Nat.lt_of_lt_of_le Nat.zero_lt_one deep]
  case array =>
    intro vs ih integral fuel d r enough deep _
    simp only [calls] at enough
    obtain ⟨fuel, rfl⟩ : ∃ n, fuel = n + 1 := ⟨fuel - 1, by omega⟩
    simp only [print, List.cons_append, List.append_assoc, List.nil_append, parseValue, nesting]
    by_cases opened : d ≤ 1
    · have deeper : ¬ nestingItems vs + 1 < d := by omega
      simp [opened, deeper]
    · have level : nestingItems vs < d - 1 ↔ nestingItems vs + 1 < d := by omega
      rw [if_neg opened, ih integral fuel (d - 1) true r (by omega) (by omega)]
      by_cases low : nestingItems vs + 1 < d <;> simp [level, low]
  case object =>
    intro es ih integral fuel d r enough deep _
    simp only [calls] at enough
    obtain ⟨fuel, rfl⟩ : ∃ n, fuel = n + 1 := ⟨fuel - 1, by omega⟩
    simp only [print, List.cons_append, List.append_assoc, List.nil_append, parseValue, nesting]
    by_cases opened : d ≤ 1
    · have deeper : ¬ nestingEntries es + 1 < d := by omega
      simp [opened, deeper]
    · have level : nestingEntries es < d - 1 ↔ nestingEntries es + 1 < d := by omega
      rw [if_neg opened, ih integral fuel (d - 1) true r (by omega) (by omega)]
      by_cases low : nestingEntries es + 1 < d <;> simp [level, low]
  case nil =>
    intro _ fuel d first r enough deep
    simp only [callsItems] at enough
    obtain ⟨fuel, rfl⟩ : ∃ n, fuel = n + 1 := ⟨fuel - 1, by omega⟩
    simp [printItems, parseItems, nestingItems,
      Nat.lt_of_lt_of_le Nat.zero_lt_one deep]
  case none =>
    intro _ fuel d first r enough deep
    simp only [callsEntries] at enough
    obtain ⟨fuel, rfl⟩ : ∃ n, fuel = n + 1 := ⟨fuel - 1, by omega⟩
    simp [printEntries, parseEntries, nestingEntries,
      Nat.lt_of_lt_of_le Nat.zero_lt_one deep]

theorem parseTree_print (limit : Nat) (positive : 1 ≤ limit) (v : Value) (integral : Integral v) :
    parseTree u limit (print q v) = if nesting v < limit then some v else none := by
  have whole := reads_value u v integral ((print q v).length + 1) limit []
    (Nat.le_succ_of_le (calls_le q v integral)) positive (by simp [Stops])
  rw [List.append_nil] at whole
  rw [parseTree, whole]
  by_cases low : nesting v < limit <;> simp [low]

theorem parse_print (limit : Nat) (positive : 1 ≤ limit) (v : Value) (integral : Integral v) :
    parse u limit (print q v) = if nesting v < limit then some (asRead v) else none := by
  rw [parse, parseTree_print u limit positive v integral, apply_ite (Option.map asRead)]
  rfl

end Kit.Json
