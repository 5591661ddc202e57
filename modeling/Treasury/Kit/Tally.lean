import Mathlib.Algebra.BigOperators.Group.Finset.Piecewise
import Mathlib.Algebra.BigOperators.Group.List.Basic
import Mathlib.Tactic.Abel
import Treasury.Kit.Run

/-! Sums over the members of a list that have one key, and what a run neither makes nor
loses: what is there at its end, with all that was given out, is what was there at its
start, with all that came in. -/
namespace Kit

section Tally

variable {α K M : Type*} [DecidableEq K] [AddCommMonoid M]
variable (key : α → K) (amount : α → M) (k : K)

def tally (l : List α) : M := ((l.filter fun a => key a = k).map amount).sum

@[simp] theorem tally_nil : tally key amount k [] = 0 := rfl

theorem tally_cons (a : α) (l : List α) : tally key amount k (a :: l) =
    (if key a = k then amount a else 0) + tally key amount k l := by
  by_cases mine : key a = k <;> simp [tally, mine]

theorem tally_append (l m : List α) :
    tally key amount k (l ++ m) = tally key amount k l + tally key amount k m := by
  simp [tally]

theorem tally_perm {l m : List α} (perm : l.Perm m) :
    tally key amount k l = tally key amount k m :=
  ((perm.filter _).map amount).sum_eq

theorem tally_filter (keep : α → Bool) {l : List α}
    (nothing : ∀ a ∈ l, keep a = false → amount a = 0) :
    tally key amount k (l.filter keep) = tally key amount k l := by
  induction l with
  | nil => rfl
  | cons a l ih =>
    have tail := ih fun b inL => nothing b (List.mem_cons_of_mem a inL)
    cases kept : keep a with
    | false => simp [tally_cons, kept, tail, nothing a List.mem_cons_self kept]
    | true => simp [tally_cons, kept, tail]

theorem tally_add (f g : α → M) (l : List α) :
    tally key (fun a => f a + g a) k l = tally key f k l + tally key g k l :=
  List.sum_map_add

theorem tally_congr {f g : α → M} {l : List α} (same : ∀ a ∈ l, f a = g a) :
    tally key f k l = tally key g k l :=
  congrArg List.sum (List.map_congr_left fun a member => same a (List.mem_filter.mp member).1)

theorem tally_alike {l : List α} {g : K} (alike : ∀ a ∈ l, key a = g) :
    tally key amount k l = if g = k then (l.map amount).sum else 0 := by
  unfold tally
  split
  · rename_i same
    rw [List.filter_eq_self.mpr fun a member => decide_eq_true ((alike a member).trans same)]
  · rename_i other
    rw [List.filter_eq_nil_iff.mpr fun a member here =>
      other ((alike a member).symm.trans (of_decide_eq_true here))]
    rfl

theorem tally_none {l : List α} (absent : ∀ a ∈ l, key a ≠ k) : tally key amount k l = 0 := by
  unfold tally
  rw [List.filter_eq_nil_iff.mpr fun a member here => absent a member (of_decide_eq_true here)]
  rfl

theorem tally_unique {l : List α} (distinct : (l.map key).Nodup) {a : α} (member : a ∈ l) :
    tally key amount (key a) l = amount a := by
  induction l with
  | nil => cases member
  | cons b rest ih =>
    rw [List.map_cons, List.nodup_cons] at distinct
    rw [tally_cons]
    rcases List.mem_cons.mp member with rfl | later
    · have absent (c) (inRest : c ∈ rest) (same : key c = key a) : False :=
        distinct.1 (same ▸ List.mem_map_of_mem inRest)
      rw [if_pos rfl, tally_none _ _ _ absent, add_zero]
    · have apart (same : key b = key a) : False :=
        distinct.1 (same ▸ List.mem_map_of_mem later)
      rw [if_neg apart, zero_add, ih distinct.2 later]

theorem sum_tally {l : List α} {keys : Finset K} (listed : ∀ a ∈ l, key a ∈ keys) :
    ∑ k ∈ keys, tally key amount k l = (l.map amount).sum := by
  induction l with
  | nil => simp
  | cons a l ih =>
    have head := listed a List.mem_cons_self
    simp only [tally_cons, Finset.sum_add_distrib, Finset.sum_ite_eq, if_pos head, List.map_cons,
      List.sum_cons]
    rw [ih fun b member => listed b (List.mem_cons_of_mem a member)]

theorem tally_split {pre post : List α} {a left : α} {given : M} (same : key left = key a)
    (whole : amount left + given = amount a) :
    tally key amount k (pre ++ left :: post) + (if key a = k then given else 0) =
      tally key amount k (pre ++ a :: post) := by
  simp only [tally_append, tally_cons, same]
  by_cases mine : key a = k
  · simp only [if_pos mine, ← whole]
    abel
  · simp only [if_neg mine, add_zero]

theorem map_tally {N : Type*} [AddCommMonoid N] (f : M →+ N) (l : List α) :
    f (tally key amount k l) = tally key (f ∘ amount) k l := by
  rw [tally, map_list_sum, List.map_map]
  rfl

end Tally

section Nonneg

variable {α K : Type*} [DecidableEq K] (key : α → K) {amount : α → Int} {l : List α}

theorem tally_nonneg (nonneg : ∀ a ∈ l, 0 ≤ amount a) (k : K) : 0 ≤ tally key amount k l := by
  induction l with
  | nil => exact le_refl 0
  | cons a l ih =>
    obtain ⟨first, rest⟩ := List.forall_mem_cons.mp nonneg
    rw [tally_cons]
    have others := ih rest
    split <;> omega

theorem le_tally (nonneg : ∀ a ∈ l, 0 ≤ amount a) {a : α} (member : a ∈ l) :
    amount a ≤ tally key amount (key a) l := by
  obtain ⟨before, after, rfl⟩ := List.append_of_mem member
  have low := tally_nonneg key (fun b h => nonneg b (List.mem_append_left _ h)) (key a)
  have high := tally_nonneg key
    (fun b h => nonneg b (List.mem_append_right _ (List.mem_cons_of_mem _ h))) (key a)
  rw [tally_append, tally_cons, if_pos rfl]
  omega

theorem tally_front_le (nonneg : ∀ a ∈ l, 0 ≤ amount a) {front : List α} (isFront : front <+: l)
    (k : K) : tally key amount k front ≤ tally key amount k l := by
  obtain ⟨rest, rfl⟩ := isFront
  have more := tally_nonneg key (fun b h => nonneg b (List.mem_append_right _ h)) k
  rw [tally_append]
  omega

end Nonneg

section Balance

variable {S A M : Type*} [AddCommMonoid M]

def gathered (step : S → A → S) (yield : S → A → M) : S → List A → M
  | _, [] => 0
  | s, a :: rest => yield s a + gathered step yield (step s a) rest

theorem gathered_zero (step : S → A → S) (yield : S → A → M) (s : S) (as : List A)
    (zero : ∀ a ∈ as, ∀ s, yield s a = 0) : gathered step yield s as = 0 := by
  induction as generalizing s with
  | nil => rfl
  | cons a as ih =>
    rw [gathered, zero a List.mem_cons_self, ih _ fun b member =>
      zero b (List.mem_cons_of_mem a member), add_zero]

theorem gathered_nonneg (step : S → A → S) (yield : S → A → Int) (guard : S → A → Prop)
    (nonneg : ∀ s a, guard s a → 0 ≤ yield s a) (s : S) (as : List A)
    (admitted : Along step guard s as) : 0 ≤ gathered step yield s as := by
  induction as generalizing s with
  | nil => exact le_refl 0
  | cons a as ih => exact add_nonneg (nonneg s a admitted.1) (ih (step s a) admitted.2)

theorem gathered_add (step : S → A → S) (f g : S → A → M) (s : S) (as : List A) :
    gathered step (fun s a => f s a + g s a) s as = gathered step f s as + gathered step g s as := by
  induction as generalizing s with
  | nil => exact (add_zero 0).symm
  | cons a as ih => simp only [gathered, ih, add_add_add_comm]

theorem gathered_sub {M : Type*} [AddCommGroup M] (step : S → A → S) (f g : S → A → M) (s : S)
    (as : List A) : gathered step (fun s a => f s a - g s a) s as =
      gathered step f s as - gathered step g s as := by
  induction as generalizing s with
  | nil => exact (sub_zero 0).symm
  | cons a as ih => simp only [gathered, ih, add_sub_add_comm]

/-- The differences along a run add up to the difference between its ends. -/
theorem gathered_differences {M : Type*} [AddCommGroup M] (step : S → A → S) (content : S → M)
    (s : S) (as : List A) :
    gathered step (fun s a => content (step s a) - content s) s as =
      content (run step s as) - content s := by
  induction as generalizing s with
  | nil => exact (sub_self _).symm
  | cons a as ih =>
    simp only [gathered, run, ih]
    abel

theorem run_balanced (step : S → A → S) (guard : S → A → Prop) (good : S → Prop) (content : S → M)
    (out into : S → A → M) (keeps : ∀ s a, good s → guard s a → good (step s a))
    (balanced : ∀ s a, good s → guard s a → content (step s a) + out s a = content s + into s a)
    (as : List A) (s : S) (start : good s) (admitted : Along step guard s as) :
    content (run step s as) + gathered step out s as = content s + gathered step into s as := by
  induction as generalizing s with
  | nil => rfl
  | cons a as ih =>
    have later := ih (step s a) (keeps s a start admitted.1) admitted.2
    have now := balanced s a start admitted.1
    simp only [run, gathered]
    calc content (run step (step s a) as) + (out s a + gathered step out (step s a) as)
        = (content (run step (step s a) as) + gathered step out (step s a) as) + out s a := by abel
      _ = (content (step s a) + gathered step into (step s a) as) + out s a := by rw [later]
      _ = (content (step s a) + out s a) + gathered step into (step s a) as := by abel
      _ = content s + (into s a + gathered step into (step s a) as) := by rw [now, add_assoc]

end Balance

end Kit
