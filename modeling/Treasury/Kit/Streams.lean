import Mathlib.Data.List.Basic
import Mathlib.Order.Defs.PartialOrder

/-! Append-only streams under keys, an index that finds an element's place by its identity,
marks on the identities that some element names, and a clock along each stream. -/
namespace Kit

variable {K A I : Type*}

/-- The element's place: its stream and its index there. -/
def At (stream : K → List A) (key : K) (i : Nat) (a : A) : Prop := (stream key)[i]? = some a

/-- One stream has grown by one element, and the others are as they were. -/
def Grown [DecidableEq K] (stream next : K → List A) (key : K) (a : A) : Prop :=
  ∀ k, next k = if k = key then stream k ++ [a] else stream k

/-- The index finds exactly the places of the elements. -/
def Indexed (stream : K → List A) (id : A → I) (place : I → Option (K × Nat)) : Prop :=
  ∀ x key i, place x = some (key, i) ↔ ∃ a, At stream key i a ∧ id a = x

/-- Exactly what some element names is marked. -/
def Marked (stream : K → List A) (target : A → Option I) (marks : I → Prop) : Prop :=
  ∀ x, marks x ↔ ∃ key i a, At stream key i a ∧ target a = some x

def NamedOnce (stream : K → List A) (target : A → Option I) : Prop :=
  ∀ k i a l j b x, At stream k i a → At stream l j b → target a = some x → target b = some x →
    k = l ∧ i = j

def Unused (stream : K → List A) (id : A → I) (x : I) : Prop :=
  ∀ key i a, At stream key i a → id a ≠ x

section
variable {stream : K → List A} {k l : K} {i j : Nat} {a b : A}

theorem At.mem (h : At stream k i a) : a ∈ stream k := List.mem_of_getElem? h

theorem At.lt (h : At stream k i a) : i < (stream k).length := (List.getElem?_eq_some_iff.mp h).1

theorem At.unique (h : At stream k i a) (g : At stream k i b) : a = b :=
  Option.some.inj (h.symm.trans g)

theorem Indexed.distinct {id : A → I} {place : I → Option (K × Nat)}
    (indexed : Indexed stream id place) (ha : At stream k i a) (hb : At stream l j b)
    (same : id a = id b) : k = l ∧ i = j := by
  have first := (indexed (id a) k i).mpr ⟨a, ha, rfl⟩
  have second := (indexed (id a) l j).mpr ⟨b, hb, same.symm⟩
  simpa using first.symm.trans second

end

section
variable {T : Type*} [Preorder T] (clock : A → T) {l : List A} {new : A}

theorem later_than_all (clocked : l.Pairwise fun a b => clock a < clock b)
    (later : ∀ last, l.getLast? = some last → clock last < clock new) {a : A} (ha : a ∈ l) :
    clock a < clock new := by
  have nonempty := List.ne_nil_of_mem ha
  have lastLater := later _ (List.getLast?_eq_some_getLast nonempty)
  rw [← List.dropLast_append_getLast nonempty] at ha clocked
  rcases List.mem_append.mp ha with before | last
  · have ordered := (List.pairwise_append.mp clocked).2.2 a before (l.getLast nonempty) (by simp)
    exact lt_trans ordered lastLater
  · rwa [List.mem_singleton.mp last]

theorem clocked_concat (clocked : l.Pairwise fun a b => clock a < clock b)
    (later : ∀ last, l.getLast? = some last → clock last < clock new) :
    (l ++ [new]).Pairwise fun a b => clock a < clock b := by
  refine List.pairwise_append.mpr ⟨clocked, List.pairwise_singleton _ _, fun a ha b hb => ?_⟩
  rw [List.mem_singleton.mp hb]
  exact later_than_all clock clocked later ha

end

section
variable [DecidableEq K] {stream next : K → List A} {key : K} {new : A}

theorem Grown.at (grown : Grown stream next key new) {k : K} {i : Nat} {a : A} :
    At next k i a ↔ At stream k i a ∨ k = key ∧ i = (stream k).length ∧ a = new := by
  unfold At
  rw [grown k]
  split
  · rename_i same
    simp only [same, true_and]
    grind
  · rename_i other
    simp [other]

theorem Grown.at_old (grown : Grown stream next key new) {k : K} {i : Nat} {a : A}
    (h : At stream k i a) : At next k i a := grown.at.mpr (.inl h)

theorem Grown.at_new (grown : Grown stream next key new) :
    At next key (stream key).length new := grown.at.mpr (.inr ⟨rfl, rfl, rfl⟩)

theorem Grown.indexed [DecidableEq I] (grown : Grown stream next key new) {id : A → I}
    {place after : I → Option (K × Nat)} (indexed : Indexed stream id place)
    (unused : Unused stream id (id new))
    (added : ∀ x, after x = if x = id new then some (key, (stream key).length) else place x) :
    Indexed next id after := by
  intro x k i
  rw [added x]
  split
  · rename_i same
    subst same
    rw [Option.some.injEq, Prod.mk.injEq]
    constructor
    · rintro ⟨rfl, rfl⟩
      exact ⟨new, grown.at_new, rfl⟩
    · rintro ⟨a, ha, identity⟩
      rcases grown.at.mp ha with old | ⟨rfl, rfl, rfl⟩
      · exact absurd identity (unused k i a old)
      · exact ⟨rfl, rfl⟩
  · rename_i other
    rw [indexed x k i]
    constructor
    · rintro ⟨a, ha, identity⟩
      exact ⟨a, grown.at_old ha, identity⟩
    · rintro ⟨a, ha, identity⟩
      rcases grown.at.mp ha with old | ⟨rfl, rfl, rfl⟩
      · exact ⟨a, old, identity⟩
      · exact absurd identity.symm other

theorem Grown.marked (grown : Grown stream next key new) {target : A → Option I}
    {marks after : I → Prop} (marked : Marked stream target marks)
    (added : ∀ x, after x ↔ target new = some x ∨ marks x) : Marked next target after := by
  intro x
  rw [added x, marked x]
  constructor
  · rintro (names | ⟨k, i, a, ha, names⟩)
    · exact ⟨key, _, new, grown.at_new, names⟩
    · exact ⟨k, i, a, grown.at_old ha, names⟩
  · rintro ⟨k, i, a, ha, names⟩
    rcases grown.at.mp ha with old | ⟨rfl, rfl, rfl⟩
    · exact .inr ⟨k, i, a, old, names⟩
    · exact .inl names

theorem Grown.namedOnce (grown : Grown stream next key new) {target : A → Option I}
    {marks : I → Prop} (marked : Marked stream target marks) (once : NamedOnce stream target)
    (unmarked : ∀ x, target new = some x → ¬marks x) : NamedOnce next target := by
  have apart {x : I} (names : target new = some x) {k : K} {i : Nat} {a : A}
      (ha : At stream k i a) : target a ≠ some x :=
    fun twice => unmarked x names ((marked x).mpr ⟨k, i, a, ha, twice⟩)
  intro k i a l j b x ha hb first second
  rcases grown.at.mp ha with oldA | ⟨rfl, rfl, rfl⟩
  · rcases grown.at.mp hb with oldB | ⟨rfl, rfl, rfl⟩
    · exact once k i a l j b x oldA oldB first second
    · exact absurd first (apart second oldA)
  · rcases grown.at.mp hb with oldB | ⟨rfl, rfl, rfl⟩
    · exact absurd second (apart first oldB)
    · exact ⟨rfl, rfl⟩

end

end Kit
