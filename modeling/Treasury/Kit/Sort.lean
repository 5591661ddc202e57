import Mathlib.Data.List.Sort
import Mathlib.Data.Prod.Lex

/-! Stable sorting by a key, as `sort_by_key` and `sort_unstable` do it. -/
namespace Kit

variable {α κ : Type*} [LinearOrder κ]

/-- Stable: elements with equal keys keep their order. -/
def sortBy (key : α → κ) (l : List α) : List α := l.insertionSort fun a b => key a ≤ key b

instance total_key (key : α → κ) : Std.Total fun a b : α => key a ≤ key b :=
  ⟨fun a b => le_total (key a) (key b)⟩

instance trans_key (key : α → κ) : IsTrans α fun a b => key a ≤ key b :=
  ⟨fun _ _ _ => le_trans⟩

theorem sortBy_perm (key : α → κ) (l : List α) : (sortBy key l).Perm l :=
  List.perm_insertionSort _ l

@[simp] theorem mem_sortBy {key : α → κ} {l : List α} {a : α} : a ∈ sortBy key l ↔ a ∈ l :=
  (sortBy_perm key l).mem_iff

@[simp] theorem length_sortBy (key : α → κ) (l : List α) : (sortBy key l).length = l.length :=
  (sortBy_perm key l).length_eq

theorem sortBy_ordered (key : α → κ) (l : List α) :
    (sortBy key l).Pairwise fun a b => key a ≤ key b :=
  List.pairwise_insertionSort _ l

theorem sortBy_eq_self {key : α → κ} {l : List α}
    (ordered : l.Pairwise fun a b => key a ≤ key b) : sortBy key l = l :=
  List.Pairwise.insertionSort_eq ordered

theorem filter_sortBy {key : α → κ} {p : α → Bool} {l : List α}
    (same : ∀ a ∈ l, ∀ b ∈ l, p a → p b → key a = key b) :
    (sortBy key l).filter p = l.filter p := by
  have inserted (a : α) (m : List α) (shared : p a → ∀ b ∈ m, p b → key a = key b) :
      (m.orderedInsert (fun a b => key a ≤ key b) a).filter p = (a :: m).filter p := by
    induction m with
    | nil => rfl
    | cons b m ih =>
      simp only [List.orderedInsert]
      split
      · rfl
      · rename_i above
        have later := ih fun ha c hc => shared ha c (List.mem_cons_of_mem b hc)
        have apart : ¬(p a = true ∧ p b = true) := fun ⟨ha, hb⟩ =>
          above (le_of_eq (shared ha b List.mem_cons_self hb))
        cases ha : p a <;> cases hb : p b <;> simp_all
  induction l with
  | nil => rfl
  | cons a l ih =>
    have tail := ih fun b hb c hc => same b (List.mem_cons_of_mem a hb) c (List.mem_cons_of_mem a hc)
    have shared : p a → ∀ b ∈ sortBy key l, p b → key a = key b := fun ha b hb =>
      same a List.mem_cons_self b (List.mem_cons_of_mem a (mem_sortBy.mp hb)) ha
    calc (sortBy key (a :: l)).filter p
        = (a :: sortBy key l).filter p := inserted a (sortBy key l) shared
      _ = (a :: l).filter p := by simp only [List.filter_cons, tail]

def withKey (key : α → κ) (k : κ) (l : List α) : List α := l.filter (key · = k)

theorem mem_withKey {key : α → κ} {k : κ} {l : List α} {a : α} :
    a ∈ withKey key k l ↔ a ∈ l ∧ key a = k := by
  rw [withKey, List.mem_filter, decide_eq_true_iff]

theorem eq_of_ordered_of_keys {key : α → κ} {l m : List α}
    (orderedL : l.Pairwise fun a b => key a ≤ key b) (orderedM : m.Pairwise fun a b => key a ≤ key b)
    (same : ∀ k, withKey key k l = withKey key k m) : l = m := by
  induction l generalizing m with
  | nil =>
    refine (List.eq_nil_iff_forall_not_mem.mpr fun b hb => ?_).symm
    exact List.not_mem_nil (same (key b) ▸ mem_withKey.mpr ⟨hb, rfl⟩)
  | cons a l ih =>
    cases m with
    | nil => exact absurd (same (key a) ▸ mem_withKey.mpr ⟨List.mem_cons_self, rfl⟩) List.not_mem_nil
    | cons b m =>
      obtain ⟨leL, restL⟩ := List.pairwise_cons.mp orderedL
      obtain ⟨leM, restM⟩ := List.pairwise_cons.mp orderedM
      -- each head is in the other list, so neither key is above the other
      have inM : a ∈ b :: m := (mem_withKey.mp (same (key a) ▸ mem_withKey.mpr ⟨List.mem_cons_self, rfl⟩)).1
      have inL : b ∈ a :: l := (mem_withKey.mp ((same (key b)).symm ▸ mem_withKey.mpr ⟨List.mem_cons_self, rfl⟩)).1
      have above : key b ≤ key a := by
        rcases List.mem_cons.mp inM with rfl | later
        · exact le_rfl
        · exact leM a later
      have below : key a ≤ key b := by
        rcases List.mem_cons.mp inL with rfl | later
        · exact le_rfl
        · exact leL b later
      have keys : key b = key a := le_antisymm above below
      have heads : a = b := by
        have both := same (key a)
        simp only [withKey, List.filter_cons, keys, decide_true, if_true] at both
        exact (List.cons.inj both).1
      subst heads
      apply congrArg (a :: ·)
      apply ih restL restM
      intro k
      have both := same k
      simp only [withKey, List.filter_cons] at both
      split at both
      · exact (List.cons.inj both).2
      · exact both

theorem withKey_sortBy (key : α → κ) (l : List α) (k : κ) :
    withKey key k (sortBy key l) = withKey key k l := by
  apply filter_sortBy
  intro a _ b _ ha hb
  rw [of_decide_eq_true ha, of_decide_eq_true hb]

theorem sortBy_eq_iff {key : α → κ} {l m : List α} :
    sortBy key l = sortBy key m ↔ ∀ k, withKey key k l = withKey key k m := by
  constructor
  · intro same k
    rw [← withKey_sortBy key l, ← withKey_sortBy key m, same]
  · intro same
    apply eq_of_ordered_of_keys (sortBy_ordered key l) (sortBy_ordered key m)
    simpa only [withKey_sortBy] using same

theorem sortBy_eq_of_perm {key : α → κ} {l m : List α} (perm : l.Perm m)
    (apart : (l.map key).Nodup) : sortBy key l = sortBy key m := by
  have sorted : (sortBy key l).Perm (sortBy key m) :=
    (sortBy_perm key l).trans (perm.trans (sortBy_perm key m).symm)
  refine sorted.eq_of_pairwise (fun a b ha hb below above => ?_) (sortBy_ordered key l)
    (sortBy_ordered key m)
  exact List.inj_on_of_nodup_map apart (mem_sortBy.mp ha) (perm.mem_iff.mpr (mem_sortBy.mp hb))
    (le_antisymm below above)

theorem eq_of_strict {key : α → κ} {l m : List α} (strictL : l.Pairwise fun a b => key a < key b)
    (strictM : m.Pairwise fun a b => key a < key b) (same : ∀ a, a ∈ l ↔ a ∈ m) : l = m := by
  have distinct {n : List α} (strict : n.Pairwise fun a b => key a < key b) : n.Nodup :=
    strict.imp fun below same => absurd (congrArg key same) below.ne
  have perm := (List.perm_ext_iff_of_nodup (distinct strictL) (distinct strictM)).mpr same
  exact perm.eq_of_pairwise (fun a b _ _ below above => absurd below above.asymm) strictL strictM

/-- Lists with the same elements, whose keys stand in the order of the same distinct keys. -/
theorem eq_of_keys_sublist {β : Type*} {key : α → β} {l m : List α} {keys : List β}
    (distinct : keys.Nodup) (inL : (l.map key).Sublist keys) (inM : (m.map key).Sublist keys)
    (same : ∀ a, a ∈ l ↔ a ∈ m) : l = m := by
  have distinctL := distinct.sublist inL
  have distinctM := distinct.sublist inM
  have perm : l.Perm m := (List.perm_ext_iff_of_nodup distinctL.of_map distinctM.of_map).mpr same
  have keysEq : l.map key = m.map key :=
    (distinct.perm_iff_eq_of_sublist inL inM).mp (perm.map key)
  apply List.ext_getElem (by simpa using congrArg List.length keysEq)
  intro i hi hj
  have sameKey : key l[i] = key m[i] := by
    simpa [hi, hj] using congrArg (fun ks : List β => ks[i]?) keysEq
  exact List.inj_on_of_nodup_map distinctM ((same _).mp (List.getElem_mem hi))
    (List.getElem_mem hj) sameKey

theorem sortBy_filter (key : α → κ) (p : α → Bool) (l : List α) :
    (sortBy key l).filter p = sortBy key (l.filter p) := by
  apply eq_of_ordered_of_keys ((sortBy_ordered key l).filter p) (sortBy_ordered key _)
  intro k
  have swap (m : List α) : withKey key k (m.filter p) = (withKey key k m).filter p :=
    List.filter_comm ..
  rw [swap, withKey_sortBy, withKey_sortBy, swap]

/-- Of a run of equal elements one stays, as `dedup` does it. -/
def dedupAdjacent {α : Type*} [DecidableEq α] : List α → List α
  | [] => []
  | [a] => [a]
  | a :: b :: l => if a = b then dedupAdjacent (b :: l) else a :: dedupAdjacent (b :: l)

@[simp] theorem mem_dedupAdjacent {α : Type*} [DecidableEq α] {l : List α} {x : α} :
    x ∈ dedupAdjacent l ↔ x ∈ l := by
  induction l using dedupAdjacent.induct with
  | case1 => rfl
  | case2 a => rfl
  | case3 a l ih =>
    rw [dedupAdjacent, if_pos rfl, ih]
    simp
  | case4 a b l different ih =>
    rw [dedupAdjacent, if_neg different]
    simp [ih]

theorem dedupAdjacent_strict {l : List κ} (ordered : l.Pairwise (· ≤ ·)) :
    (dedupAdjacent l).Pairwise (· < ·) := by
  induction l using dedupAdjacent.induct with
  | case1 => exact .nil
  | case2 a => exact List.pairwise_singleton _ _
  | case3 a l ih =>
    rw [dedupAdjacent, if_pos rfl]
    exact ih ordered.tail
  | case4 a b l different ih =>
    obtain ⟨below, later⟩ := List.pairwise_cons.mp ordered
    rw [dedupAdjacent, if_neg different]
    refine List.pairwise_cons.mpr ⟨fun c member => ?_, ih later⟩
    -- what stays behind is at or above the first that differs
    have first := lt_of_le_of_ne (below b List.mem_cons_self) different
    rcases List.mem_cons.mp (mem_dedupAdjacent.mp member) with rfl | behind
    · exact first
    · exact first.trans_le ((List.pairwise_cons.mp later).1 c behind)

theorem dedupAdjacent_eq_self {l : List κ} (strict : l.Pairwise (· < ·)) :
    dedupAdjacent l = l := by
  induction l using dedupAdjacent.induct with
  | case1 => rfl
  | case2 a => rfl
  | case3 a l ih => exact absurd rfl ((List.pairwise_cons.mp strict).1 a List.mem_cons_self).ne
  | case4 a b l different ih => rw [dedupAdjacent, if_neg different, ih strict.tail]

theorem strict_dedup_sortBy (l : List κ) : (dedupAdjacent (sortBy id l)).Pairwise (· < ·) :=
  dedupAdjacent_strict (sortBy_ordered id l)

theorem dedup_sortBy_eq_self {l : List κ} (strict : l.Pairwise (· < ·)) :
    dedupAdjacent (sortBy id l) = l := by
  have ordered : sortBy id l = l := sortBy_eq_self (strict.imp le_of_lt)
  rw [ordered, dedupAdjacent_eq_self strict]

end Kit
