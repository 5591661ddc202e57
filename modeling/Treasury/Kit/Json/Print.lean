import Std.Data.String.ToInt
import Treasury.Kit.Json.Value

/-! The compact text of a JSON tree and its unique readability. How a string is
quoted is a parameter; the contract asked of it is that a quoted string starts
with a quotation mark, shows where it ends and has no control characters. -/
namespace Kit.Json

abbrev Text := List Char

structure Quoting where
  quote : String → Text
  opens : ∀ s, ∃ t, quote s = '\x22' :: t
  delimited : ∀ s t r u, quote s ++ r = quote t ++ u → s = t ∧ r = u
  printable : ∀ s, ∀ c ∈ quote s, ' ' ≤ c
  /-- Letters and digits need no escape. -/
  plain : ∀ s : String, s.toList.all Char.isAlphanum →
    quote s = '\x22' :: (s.toList ++ ['\x22'])

mutual
/-- No blanks, and the members in the order in which the tree lists them. -/
def print (q : Quoting) : Value → Text
  | .null => ['n', 'u', 'l', 'l']
  | .bool true => ['t', 'r', 'u', 'e']
  | .bool false => ['f', 'a', 'l', 's', 'e']
  | .number (.int z) => z.val.repr.toList
  | .number (.float text) => text.toList
  | .string s => q.quote s
  | .array items => '[' :: (printItems q true items ++ [']'])
  | .object entries => '\x7b' :: (printEntries q true entries ++ ['\x7d'])

def printItems (q : Quoting) : Bool → List Value → Text
  | _, [] => []
  | first, v :: vs => (if first then [] else [',']) ++ print q v ++ printItems q false vs

def printEntries (q : Quoting) : Bool → List (String × Value) → Text
  | _, [] => []
  | first, (k, v) :: es =>
    (if first then [] else [',']) ++ q.quote k ++ ':' :: print q v ++ printEntries q false es
end

def numeric (c : Char) : Bool := c.isDigit || c == '-'

/-- What follows a value does not continue a number. -/
def Stops (r : Text) : Prop := ∀ c ∈ r.head?, numeric c = false

theorem repr_ofNat (n : Nat) : (Int.ofNat n).repr = n.repr := rfl

theorem repr_numeric (z : Int) : ∀ c ∈ z.repr.toList, numeric c = true := by
  intro c hc
  cases z with
  | ofNat n =>
    rw [repr_ofNat, Nat.toList_repr] at hc
    simp [numeric, Nat.isDigit_of_mem_toDigits (by decide) (by decide) hc]
  | negSucc n =>
    rw [Int.repr, String.toList_append, List.mem_append] at hc
    rcases hc with sign | digits
    · have : c = '-' := by simpa using sign
      simp [numeric, this]
    · rw [Nat.toList_repr] at digits
      simp [numeric, Nat.isDigit_of_mem_toDigits (by decide) (by decide) digits]

theorem repr_ne_nil (z : Int) : z.repr.toList ≠ [] := by
  cases z with
  | ofNat n =>
    rw [repr_ofNat, Nat.toList_repr]
    exact Nat.toDigits_ne_nil
  | negSucc n => simp [Int.repr]

theorem takeWhile_numeric (t r : Text) (all : ∀ c ∈ t, numeric c = true) (stop : Stops r) :
    (t ++ r).takeWhile numeric = t := by
  rw [List.takeWhile_append_of_pos all]
  cases r with
  | nil => simp
  | cons c r => simp [stop c (by simp)]

theorem int_delimited (a b : Int) (r s : Text) (stopR : Stops r) (stopS : Stops s)
    (same : a.repr.toList ++ r = b.repr.toList ++ s) : a = b ∧ r = s := by
  have left := takeWhile_numeric a.repr.toList r (repr_numeric a) stopR
  have right := takeWhile_numeric b.repr.toList s (repr_numeric b) stopS
  have digits : a.repr.toList = b.repr.toList := by rw [← left, ← right, same]
  refine ⟨Int.repr_inj.mp (String.toList_injective digits), ?_⟩
  rw [digits] at same
  exact List.append_cancel_left same

/-- Which of the seven forms a value has, as its first character tells. -/
def form : Value → Nat
  | .null => 0
  | .bool true => 1
  | .bool false => 2
  | .number _ => 3
  | .string _ => 4
  | .array _ => 5
  | .object _ => 6

def formOfChar (c : Char) : Nat :=
  if c = 'n' then 0 else if c = 't' then 1 else if c = 'f' then 2 else if c = '\x22' then 4
  else if c = '[' then 5 else if c = '\x7b' then 6 else if numeric c then 3 else 7

theorem numeric_form {c : Char} (h : numeric c = true) : formOfChar c = 3 := by
  unfold formOfChar
  split_ifs <;> first | rfl | (subst c; revert h; decide)

theorem form_lt (v : Value) : form v < 7 := by
  unfold form
  split <;> decide

/-- Two values of one form, by the constructors they share. -/
inductive SameForm : Value → Value → Prop where
  | null : SameForm .null .null
  | bool (b : Bool) : SameForm (.bool b) (.bool b)
  | number (m n : Number) : SameForm (.number m) (.number n)
  | string (s t : String) : SameForm (.string s) (.string t)
  | array (vs ws : List Value) : SameForm (.array vs) (.array ws)
  | object (es fs : List (String × Value)) : SameForm (.object es) (.object fs)

theorem sameForm (v w : Value) (h : form v = form w) : SameForm v w := by
  cases v with
  | null => cases w with
    | null => exact .null
    | bool b => cases b <;> simp [form] at h
    | _ => simp [form] at h
  | bool a => cases w with
    | bool b => cases a <;> cases b <;> first | exact .bool _ | simp [form] at h
    | _ => cases a <;> simp [form] at h
  | number m => cases w with
    | number n => exact .number m n
    | bool b => cases b <;> simp [form] at h
    | _ => simp [form] at h
  | string s => cases w with
    | string t => exact .string s t
    | bool b => cases b <;> simp [form] at h
    | _ => simp [form] at h
  | array vs => cases w with
    | array ws => exact .array vs ws
    | bool b => cases b <;> simp [form] at h
    | _ => simp [form] at h
  | object es => cases w with
    | object fs => exact .object es fs
    | bool b => cases b <;> simp [form] at h
    | _ => simp [form] at h

theorem print_form (q : Quoting) (v : Value) (integral : Integral v) :
    ∃ c t, print q v = c :: t ∧ formOfChar c = form v := by
  match v with
  | .null => exact ⟨_, _, rfl, by decide⟩
  | .bool true => exact ⟨_, _, rfl, by decide⟩
  | .bool false => exact ⟨_, _, rfl, by decide⟩
  | .number (.int z) =>
    obtain ⟨c, t, h⟩ := List.exists_cons_of_ne_nil (repr_ne_nil z.val)
    refine ⟨c, t, h, numeric_form (repr_numeric z.val c ?_)⟩
    simp [h]
  | .number (.float _) => exact absurd integral (by simp [Integral])
  | .string s =>
    obtain ⟨t, h⟩ := q.opens s
    exact ⟨_, t, h, rfl⟩
  | .array items => exact ⟨_, _, rfl, rfl⟩
  | .object entries => exact ⟨_, _, rfl, rfl⟩

theorem form_delimited (q : Quoting) (v w : Value) (r s : Text) (iv : Integral v)
    (iw : Integral w) (same : print q v ++ r = print q w ++ s) : SameForm v w := by
  obtain ⟨c, t, hv, hc⟩ := print_form q v iv
  obtain ⟨d, u, hw, hd⟩ := print_form q w iw
  rw [hv, hw] at same
  exact sameForm v w (by rw [← hc, ← hd, (List.cons.inj same).1])

theorem stops_items (q : Quoting) (vs : List Value) (r : Text) :
    Stops (printItems q false vs ++ ']' :: r) := by
  cases vs <;> simp [printItems, Stops, numeric]

theorem stops_entries (q : Quoting) (es : List (String × Value)) (r : Text) :
    Stops (printEntries q false es ++ '\x7d' :: r) := by
  cases es <;> simp [printEntries, Stops, numeric]

theorem print_head (q : Quoting) (v : Value) (integral : Integral v) (r : Text) (c : Char)
    (t : Text) (same : print q v ++ r = c :: t) : formOfChar c = form v := by
  obtain ⟨d, u, hv, hd⟩ := print_form q v integral
  rw [hv] at same
  rw [← hd, ← (List.cons.inj same).1]

theorem nil_ne_items (q : Quoting) (first : Bool) (w : Value) (ws : List Value) (r s : Text)
    (integral : IntegralItems (w :: ws)) :
    printItems q first [] ++ ']' :: r ≠ printItems q first (w :: ws) ++ ']' :: s := by
  intro same
  cases first with
  | true =>
    have head := print_head q w integral.1 _ ']' r (by simpa [printItems] using same.symm)
    exact absurd (form_lt w) (by rw [← head]; decide)
  | false => simp [printItems] at same

theorem nil_ne_entries (q : Quoting) (first : Bool) (f : String × Value)
    (fs : List (String × Value)) (r s : Text) :
    printEntries q first [] ++ '\x7d' :: r ≠ printEntries q first (f :: fs) ++ '\x7d' :: s := by
  obtain ⟨k, w⟩ := f
  obtain ⟨t, h⟩ := q.opens k
  intro same
  cases first <;> simp [printEntries, h] at same

/- What unique readability says of a value, of the items of an array up to its
closing bracket, and of the members of an object up to its closing brace. -/

def Delimited (q : Quoting) (v : Value) : Prop :=
  ∀ w r s, Integral v → Integral w → Stops r → Stops s →
    print q v ++ r = print q w ++ s → v = w ∧ r = s

def ItemsDelimited (q : Quoting) (vs : List Value) : Prop :=
  ∀ first ws r s, IntegralItems vs → IntegralItems ws →
    printItems q first vs ++ ']' :: r = printItems q first ws ++ ']' :: s → vs = ws ∧ r = s

def EntriesDelimited (q : Quoting) (es : List (String × Value)) : Prop :=
  ∀ first fs r s, IntegralEntries es → IntegralEntries fs →
    printEntries q first es ++ '\x7d' :: r = printEntries q first fs ++ '\x7d' :: s →
      es = fs ∧ r = s

theorem items_cons (q : Quoting) (v : Value) (vs : List Value) (head : Delimited q v)
    (tail : ItemsDelimited q vs) : ItemsDelimited q (v :: vs) := by
  intro first ws r s iv iw same
  cases ws with
  | nil => exact absurd same.symm (nil_ne_items q first v vs s r iv)
  | cons w ws =>
    have texts : print q v ++ (printItems q false vs ++ ']' :: r) =
        print q w ++ (printItems q false ws ++ ']' :: s) := by
      cases first <;> simpa [printItems] using same
    obtain ⟨eqHead, rest⟩ :=
      head w _ _ iv.1 iw.1 (stops_items q vs r) (stops_items q ws s) texts
    obtain ⟨eqTail, rest⟩ := tail false ws r s iv.2 iw.2 rest
    exact ⟨by rw [eqHead, eqTail], rest⟩

theorem entries_cons (q : Quoting) (k : String) (v : Value) (es : List (String × Value))
    (head : Delimited q v) (tail : EntriesDelimited q es) :
    EntriesDelimited q ((k, v) :: es) := by
  intro first fs r s ie jf same
  cases fs with
  | nil => exact absurd same.symm (nil_ne_entries q first (k, v) es s r)
  | cons f fs =>
    obtain ⟨j, w⟩ := f
    have texts : q.quote k ++ ':' :: (print q v ++ (printEntries q false es ++ '\x7d' :: r)) =
        q.quote j ++ ':' :: (print q w ++ (printEntries q false fs ++ '\x7d' :: s)) := by
      cases first <;> simpa [printEntries] using same
    obtain ⟨eqKey, rest⟩ := q.delimited k j _ _ texts
    obtain ⟨eqHead, rest⟩ := head w _ _ ie.1 jf.1 (stops_entries q es r) (stops_entries q fs s)
      (List.cons.inj rest).2
    obtain ⟨eqTail, rest⟩ := tail false fs r s ie.2 jf.2 rest
    exact ⟨by rw [eqKey, eqHead, eqTail], rest⟩

/-- Two trees without floats whose texts start one text are equal and leave the
same rest. -/
theorem print_delimited (q : Quoting) (v : Value) : Delimited q v := by
  refine @Value.induct (Delimited q) (ItemsDelimited q) (EntriesDelimited q) ?null ?bool ?number
    ?string ?array ?object ?nil (items_cons q) ?none (entries_cons q) v
  case null =>
    intro w r s iv iw stopR stopS same
    cases form_delimited q _ w r s iv iw same
    exact ⟨rfl, by simpa [print] using same⟩
  case bool =>
    intro b w r s iv iw stopR stopS same
    cases form_delimited q _ w r s iv iw same
    exact ⟨rfl, List.append_cancel_left same⟩
  case number =>
    intro m w r s iv iw stopR stopS same
    cases form_delimited q _ w r s iv iw same with
    | number m n =>
      cases m with
      | float => exact absurd iv (by simp [Integral])
      | int a =>
        cases n with
        | float => exact absurd iw (by simp [Integral])
        | int b =>
          obtain ⟨num, rest⟩ := int_delimited a.val b.val r s stopR stopS same
          exact ⟨by rw [Bounded.ext_val num], rest⟩
  case string =>
    intro a w r s iv iw stopR stopS same
    cases form_delimited q _ w r s iv iw same with
    | string a b =>
      obtain ⟨str, rest⟩ := q.delimited a b r s same
      exact ⟨by rw [str], rest⟩
  case array =>
    intro vs ih w r s iv iw stopR stopS same
    cases form_delimited q _ w r s iv iw same with
    | array vs ws =>
      simp only [print, List.cons_append, List.append_assoc, List.cons.injEq, true_and,
        List.nil_append] at same
      obtain ⟨items, rest⟩ := ih true ws r s iv iw same
      exact ⟨by rw [items], rest⟩
  case object =>
    intro es ih w r s iv iw stopR stopS same
    cases form_delimited q _ w r s iv iw same with
    | object es fs =>
      simp only [print, List.cons_append, List.append_assoc, List.cons.injEq, true_and,
        List.nil_append] at same
      obtain ⟨entries, rest⟩ := ih true fs r s iv iw same
      exact ⟨by rw [entries], rest⟩
  case nil =>
    intro first ws r s iv iw same
    cases ws with
    | nil => exact ⟨rfl, by simpa [printItems] using same⟩
    | cons w ws => exact absurd same (nil_ne_items q first w ws r s iw)
  case none =>
    intro first fs r s ie jf same
    cases fs with
    | nil => exact ⟨rfl, by simpa [printEntries] using same⟩
    | cons f fs => exact absurd same (nil_ne_entries q first f fs r s)

theorem print_injective (q : Quoting) {v w : Value} (iv : Integral v) (iw : Integral w)
    (same : print q v = print q w) : v = w :=
  (print_delimited q v w [] [] iv iw (by simp [Stops]) (by simp [Stops]) (by rw [same])).1

/- A printed tree is one line of printable characters. -/

theorem repr_printable (z : Int) : ∀ c ∈ z.repr.toList, ' ' ≤ c := by
  intro c hc
  have := repr_numeric z c hc
  simp only [numeric, Bool.or_eq_true, beq_iff_eq, Char.isDigit, Bool.and_eq_true,
    decide_eq_true_eq] at this
  rcases this with ⟨low, _⟩ | minus
  · exact le_trans (by decide) low
  · subst minus; decide

theorem all_printable {t : Text} (h : t.all (' ' ≤ ·)) : ∀ c ∈ t, ' ' ≤ c := by
  simpa using h

theorem print_printable (q : Quoting) (v : Value) (integral : Integral v) :
    ∀ c ∈ print q v, ' ' ≤ c := by
  refine @Value.induct (fun v => Integral v → ∀ c ∈ print q v, ' ' ≤ c)
    (fun vs => IntegralItems vs → ∀ first, ∀ c ∈ printItems q first vs, ' ' ≤ c)
    (fun es => IntegralEntries es → ∀ first, ∀ c ∈ printEntries q first es, ' ' ≤ c)
    ?null ?bool ?number ?string ?array ?object ?nil ?items ?none ?entries v integral
  case null => exact fun _ => all_printable (by simp only [print]; decide)
  case bool => exact fun b _ => all_printable (by cases b <;> simp only [print] <;> decide)
  case number =>
    intro n integral
    cases n with
    | int z => exact repr_printable z.val
    | float => exact absurd integral (by simp [Integral])
  case string => exact fun s _ => q.printable s
  case array =>
    intro vs ih integral c hc
    simp only [print, List.mem_cons, List.mem_append, List.not_mem_nil, or_false] at hc
    rcases hc with rfl | inside | rfl
    · decide
    · exact ih integral true c inside
    · decide
  case object =>
    intro es ih integral c hc
    simp only [print, List.mem_cons, List.mem_append, List.not_mem_nil, or_false] at hc
    rcases hc with rfl | inside | rfl
    · decide
    · exact ih integral true c inside
    · decide
  case nil => simp [printItems]
  case items =>
    intro v vs head tail integral first c hc
    simp only [printItems, List.mem_append] at hc
    rcases hc with (comma | inside) | later
    · cases first
      · have : c = ',' := by simpa using comma
        subst this; decide
      · simp at comma
    · exact head integral.1 c inside
    · exact tail integral.2 false c later
  case none => simp [printEntries]
  case entries =>
    intro k v es head tail integral first c hc
    simp only [printEntries, List.mem_append, List.mem_cons] at hc
    rcases hc with ((comma | key) | colon | inside) | later
    · cases first
      · have : c = ',' := by simpa using comma
        subst this; decide
      · simp at comma
    · exact q.printable k c key
    · subst colon; decide
    · exact head integral.1 c inside
    · exact tail integral.2 false c later

end Kit.Json
