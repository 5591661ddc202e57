import Mathlib.Data.List.Forall2
import Mathlib.Data.List.Induction

/-! Lists in which every element names the one before it. When an identity is
given to one element only, the last identity determines the whole list. -/
namespace Kit

variable {α H : Type*} (prev id : α → H)

/-- The first element names `start`, every other one the element before it. -/
def Chained (start : H) : List α → Prop
  | [] => True
  | a :: rest => prev a = start ∧ Chained (id a) rest

/-- The identity that an element behind the list has to name. -/
def lastId (start : H) (l : List α) : H := (l.getLast?.map id).getD start

@[simp] theorem lastId_nil (start : H) : lastId id start [] = start := rfl

@[simp] theorem lastId_concat (start : H) (l : List α) (a : α) :
    lastId id start (l ++ [a]) = id a := by
  simp [lastId]

theorem lastId_cons (start : H) (a : α) (l : List α) :
    lastId id start (a :: l) = lastId id (id a) l := by
  rcases List.eq_nil_or_concat l with rfl | ⟨front, last, rfl⟩
  · simp [lastId]
  · rw [List.concat_eq_append, lastId_concat, ← List.cons_append, lastId_concat]

theorem list_determined {l m : List α} (separate : ∀ a ∈ l, ∀ b ∈ m, id a = id b → a = b)
    (same : l.map id = m.map id) : l = m := by
  induction l generalizing m with
  | nil => exact (List.map_eq_nil_iff.mp same.symm).symm
  | cons a l ih =>
    cases m with
    | nil => cases same
    | cons b m =>
      obtain ⟨first, rest⟩ := List.cons.inj same
      rw [separate a List.mem_cons_self b List.mem_cons_self first,
        ih (fun x inL y inM => separate x (List.mem_cons_of_mem a inL) y
          (List.mem_cons_of_mem b inM)) rest]

theorem chained_append (start : H) (l m : List α) :
    Chained prev id start (l ++ m) ↔
      Chained prev id start l ∧ Chained prev id (lastId id start l) m := by
  induction l generalizing start with
  | nil => simp [Chained]
  | cons a l ih => simp [Chained, ih, lastId_cons, and_assoc]

theorem chained_concat (start : H) (l : List α) (a : α) :
    Chained prev id start (l ++ [a]) ↔
      Chained prev id start l ∧ prev a = lastId id start l := by
  simp [chained_append, Chained]

theorem chained_first {start : H} {l : List α} (chained : Chained prev id start l) {a : α}
    (first : l[0]? = some a) : prev a = start := by
  cases l with
  | nil => simp at first
  | cons b l =>
    obtain rfl : b = a := by simpa using first
    exact chained.1

theorem chained_next {start : H} {l : List α} (chained : Chained prev id start l) {i : Nat} {a b : α}
    (here : l[i]? = some a) (next : l[i + 1]? = some b) : prev b = id a := by
  induction l generalizing start i with
  | nil => simp at here
  | cons c l ih =>
    cases i with
    | zero =>
      obtain rfl : c = a := by simpa using here
      exact chained_first prev id chained.2 (by simpa using next)
    | succ i => exact ih chained.2 (by simpa using here) (by simpa using next)

theorem chained_unique {start : H} {l m : List α} (chainedL : Chained prev id start l)
    (chainedM : Chained prev id start m)
    (agree : List.Forall₂ (fun a b => id a = id b ∧ (prev a = prev b → a = b)) l m) : l = m := by
  induction agree generalizing start with
  | nil => rfl
  | cons same rest ih =>
    obtain ⟨identity, equal⟩ := same
    have first := equal (chainedL.1.trans chainedM.1.symm)
    subst first
    exact congrArg _ (ih chainedL.2 chainedM.2)

/-- Two chains with one last identity are the same list, when equal identities
mean equal elements and no element has the identity that a chain starts from. -/
theorem chain_determined (start : H) (l m : List α)
    (chainedL : Chained prev id start l) (chainedM : Chained prev id start m)
    (separate : ∀ a ∈ l, ∀ b ∈ m, id a = id b → a = b)
    (apart : ∀ a, a ∈ l ∨ a ∈ m → id a ≠ start)
    (same : lastId id start l = lastId id start m) : l = m := by
  induction l using List.reverseRecOn generalizing m with
  | nil =>
    rcases List.eq_nil_or_concat m with rfl | ⟨front, b, rfl⟩
    · rfl
    · rw [List.concat_eq_append, lastId_nil, lastId_concat] at same
      exact absurd same.symm (apart b (by simp))
  | append_singleton l a ih =>
    rcases List.eq_nil_or_concat m with rfl | ⟨front, b, rfl⟩
    · rw [lastId_nil, lastId_concat] at same
      exact absurd same (apart a (by simp))
    · rw [List.concat_eq_append] at *
      rw [lastId_concat, lastId_concat] at same
      have last : a = b := separate a (by simp) b (by simp) same
      subst last
      obtain ⟨beforeL, namesL⟩ := (chained_concat prev id start l a).mp chainedL
      obtain ⟨beforeM, namesM⟩ := (chained_concat prev id start front a).mp chainedM
      have rest : l = front := ih front beforeL beforeM
        (fun c hc d hd => separate c (by simp [hc]) d (by simp [hd]))
        (fun c hc => apart c (hc.imp (by simp +contextual) (by simp +contextual)))
        (namesL.symm.trans namesM)
      rw [rest]

end Kit
