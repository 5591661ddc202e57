import Treasury.Kit.Json.Parse

/-! The sub-values of a JSON tree and the depths at which they stand, and what the measures
of a tree say about them. -/
namespace Kit.Json

/-- A sub-value of a tree and its depth; the tree itself has depth zero. -/
inductive SubValue : Value → Nat → Value → Prop
  | self (v : Value) : SubValue v 0 v
  | item {v w : Value} {items : List Value} {d : Nat} (member : v ∈ items)
      (below : SubValue v d w) : SubValue (.array items) (d + 1) w
  | entry {e : String × Value} {w : Value} {entries : List (String × Value)} {d : Nat}
      (member : e ∈ entries) (below : SubValue e.2 d w) : SubValue (.object entries) (d + 1) w

/-- Induction over a tree with the hypothesis for every item and every member. -/
theorem Value.inductMem {P : Value → Prop} (null : P .null) (bool : ∀ b, P (.bool b))
    (number : ∀ n, P (.number n)) (string : ∀ s, P (.string s))
    (array : ∀ items, (∀ v ∈ items, P v) → P (.array items))
    (object : ∀ entries, (∀ e ∈ entries, P e.2) → P (.object entries)) (v : Value) : P v :=
  @Value.induct P (fun items => ∀ v ∈ items, P v) (fun entries => ∀ e ∈ entries, P e.2)
    null bool number string array object
    (fun _ none => absurd none List.not_mem_nil)
    (fun _ _ head tail => List.forall_mem_cons.mpr ⟨head, tail⟩)
    (fun _ none => absurd none List.not_mem_nil)
    (fun _ _ _ head tail => List.forall_mem_cons.mpr ⟨head, tail⟩) v

namespace SubValue

variable {v w : Value} {d : Nat}

theorem integral (sub : SubValue v d w) (whole : Integral v) : Integral w := by
  induction sub with
  | self v => exact whole
  | item member below ih => exact ih ((integralItems_iff _).mp whole _ member)
  | entry member below ih => exact ih ((integralEntries_iff _).mp whole _ member)

theorem depth_le (sub : SubValue v d w) : d ≤ height v := by
  induction sub with
  | self v => exact Nat.zero_le _
  | @item v w items d member below ih =>
    have deeper := (heightItems_le_iff items _).mp le_rfl v member
    rw [height]
    omega
  | @entry e w entries d member below ih =>
    have deeper := (heightEntries_le_iff entries _).mp le_rfl e member
    rw [height]
    omega

end SubValue

theorem integral_iff (v : Value) :
    Integral v ↔ ∀ d w, SubValue v d w → ∀ text, w ≠ .number (.float text) := by
  refine ⟨fun whole d w sub text float => ?_, ?_⟩
  · have inside := sub.integral whole
    rw [float, Integral] at inside
    exact inside
  · refine Value.inductMem (P := fun v =>
      (∀ d w, SubValue v d w → ∀ text, w ≠ .number (.float text)) → Integral v)
      ?null ?bool ?number ?string ?array ?object v
    case null => exact fun _ => trivial
    case bool => exact fun _ _ => trivial
    case number =>
      intro n none
      cases n with
      | int z => trivial
      | float text => exact absurd rfl (none 0 _ (.self _) text)
    case string => exact fun _ _ => trivial
    case array =>
      intro items ih none
      exact (integralItems_iff items).mpr fun v member =>
        ih v member fun d w sub => none (d + 1) w (.item member sub)
    case object =>
      intro entries ih none
      exact (integralEntries_iff entries).mpr fun e member =>
        ih e member fun d w sub => none (d + 1) w (.entry member sub)

/-- The height bounds the depth of every sub-value, and some sub-value attains it. -/
theorem height_le_iff (v : Value) (n : Nat) : height v ≤ n ↔ ∀ d w, SubValue v d w → d ≤ n := by
  refine ⟨fun low d w sub => sub.depth_le.trans low, ?_⟩
  refine Value.inductMem (P := fun v => ∀ n, (∀ d w, SubValue v d w → d ≤ n) → height v ≤ n)
    ?null ?bool ?number ?string ?array ?object v n
  case null => exact fun n _ => Nat.zero_le n
  case bool => exact fun _ n _ => Nat.zero_le n
  case number => exact fun _ n _ => Nat.zero_le n
  case string => exact fun _ n _ => Nat.zero_le n
  case array =>
    intro items ih n low
    refine (heightItems_le_iff items n).mpr fun v member => ?_
    have one : 1 ≤ n := low 1 v (.item member (.self v))
    have below := ih v member (n - 1) fun d w sub => by
      have := low (d + 1) w (.item member sub)
      omega
    omega
  case object =>
    intro entries ih n low
    refine (heightEntries_le_iff entries n).mpr fun e member => ?_
    have one : 1 ≤ n := low 1 e.2 (.entry member (.self e.2))
    have below := ih e member (n - 1) fun d w sub => by
      have := low (d + 1) w (.entry member sub)
      omega
    omega

theorem printItems_mem (q : Quoting) {v : Value} {items : List Value} (member : v ∈ items)
    (first : Bool) : ∀ c ∈ print q v, c ∈ printItems q first items := by
  induction items generalizing first with
  | nil => exact absurd member List.not_mem_nil
  | cons w ws ih =>
    intro c hc
    simp only [printItems, List.mem_append]
    rcases List.mem_cons.mp member with rfl | later
    · exact .inl (.inr hc)
    · exact .inr (ih later false c hc)

theorem printEntries_mem (q : Quoting) {e : String × Value} {entries : List (String × Value)}
    (member : e ∈ entries) (first : Bool) :
    ∀ c ∈ print q e.2, c ∈ printEntries q first entries := by
  induction entries generalizing first with
  | nil => exact absurd member List.not_mem_nil
  | cons f es ih =>
    intro c hc
    simp only [printEntries, List.mem_append, List.mem_cons]
    rcases List.mem_cons.mp member with rfl | later
    · exact .inl (.inr (.inr hc))
    · exact .inr (ih later false c hc)

theorem SubValue.print_mem (q : Quoting) {v w : Value} {d : Nat} (sub : SubValue v d w) :
    ∀ c ∈ print q w, c ∈ print q v := by
  induction sub with
  | self v => exact fun _ => id
  | item member below ih =>
    intro c hc
    exact List.mem_cons_of_mem _ (List.mem_append_left _ (printItems_mem q member true c (ih c hc)))
  | entry member below ih =>
    intro c hc
    exact List.mem_cons_of_mem _
      (List.mem_append_left _ (printEntries_mem q member true c (ih c hc)))

theorem nesting_le_calls (v : Value) : nesting v ≤ calls v := by
  refine @Value.induct (fun v => nesting v ≤ calls v) (fun vs => nestingItems vs ≤ callsItems vs)
    (fun es => nestingEntries es ≤ callsEntries es)
    ?null ?bool ?number ?string ?array ?object ?nil ?items ?none ?entries v
  case null => exact Nat.zero_le _
  case bool => exact fun _ => Nat.zero_le _
  case number => exact fun _ => Nat.zero_le _
  case string => exact fun _ => Nat.zero_le _
  case array => exact fun _ ih => Nat.succ_le_succ ih
  case object => exact fun _ ih => Nat.succ_le_succ ih
  case nil => exact Nat.zero_le _
  case items =>
    intro v vs head tail
    simp only [nestingItems, callsItems]
    omega
  case none => exact Nat.zero_le _
  case entries =>
    intro k v es head tail
    simp only [nestingEntries, callsEntries]
    omega

/-- A text cannot open more arrays and objects than it has characters, so a larger limit is
none: with it, what is printed is read back. -/
theorem parseTree_unlimited {q : Quoting} (u : Unquoting q) {v : Value} (integral : Integral v)
    {limit : Nat} (beyond : (print q v).length < limit) :
    parseTree u limit (print q v) = some v := by
  have open_le := (nesting_le_calls v).trans (calls_le q v integral)
  rw [parseTree_print u limit (Nat.one_le_of_lt beyond) v integral,
    if_pos (open_le.trans_lt beyond)]

theorem parse_unlimited {q : Quoting} (u : Unquoting q) {v : Value} (integral : Integral v)
    (sorted : Sorted v) {limit : Nat} (beyond : (print q v).length < limit) :
    parse u limit (print q v) = some v := by
  rw [parse, parseTree_unlimited u integral beyond, Option.map_some, asRead_eq_self v sorted]

end Kit.Json
