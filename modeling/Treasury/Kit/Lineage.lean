import Mathlib.Data.List.Induction
import Mathlib.Data.List.Nodup
import Mathlib.Logic.Relation

/-! Logs in which an entry may correct an earlier one that nothing has corrected yet. The
entries form lineages, and in each of them one entry is in force. -/
namespace Kit

variable {α κ : Type*} [DecidableEq κ] (id : α → κ) (target : α → Option κ)

/-- Every entry is new, and what it corrects stands before it and was not corrected before. -/
def Corrected (log : List α) : Prop :=
  ∀ front a rest, log = front ++ a :: rest → id a ∉ front.map id ∧
    ∀ k, target a = some k → k ∈ front.map id ∧ k ∉ front.filterMap target

def inForce (log : List α) : List α := log.filter fun a => id a ∉ log.filterMap target

def Corrects (log : List α) (a b : α) : Prop := b ∈ log ∧ target b = some (id a)

/-- Corrections lead from the first entry to the second. -/
abbrev Lineage (log : List α) : α → α → Prop := Relation.ReflTransGen (Corrects id target log)

variable {id target}

omit [DecidableEq κ] in
theorem Corrected.of_prefix {front rest : List α} (h : Corrected id target (front ++ rest)) :
    Corrected id target front := by
  intro before a after split
  exact h before a (after ++ rest) (by rw [split, List.append_assoc, List.cons_append])

omit [DecidableEq κ] in
theorem Corrected.last {log : List α} {a : α} (h : Corrected id target (log ++ [a])) :
    id a ∉ log.map id ∧ ∀ k, target a = some k → k ∈ log.map id ∧ k ∉ log.filterMap target :=
  h log a [] rfl

section
variable {log : List α}

omit [DecidableEq κ]

theorem Corrected.ids_distinct (h : Corrected id target log) : (log.map id).Nodup := by
  induction log using List.reverseRecOn with
  | nil => exact List.nodup_nil
  | append_singleton log a ih =>
    rw [List.map_append, List.map_singleton, List.nodup_append]
    refine ⟨ih h.of_prefix, List.nodup_singleton _, ?_⟩
    rintro k hk l hl rfl
    exact h.last.1 (List.mem_singleton.mp hl ▸ hk)

theorem Corrected.separate (h : Corrected id target log) {a b : α} (ha : a ∈ log) (hb : b ∈ log)
    (same : id a = id b) : a = b := List.inj_on_of_nodup_map h.ids_distinct ha hb same

theorem Corrected.targets (h : Corrected id target log) {k : κ} (hk : k ∈ log.filterMap target) :
    k ∈ log.map id := by
  obtain ⟨a, ha, corrects⟩ := List.mem_filterMap.mp hk
  obtain ⟨front, rest, rfl⟩ := List.append_of_mem ha
  have before := ((h front a rest rfl).2 k corrects).1
  rw [List.map_append]
  exact List.mem_append_left _ before

theorem Corrected.once (h : Corrected id target log) {b c : α} (hb : b ∈ log) (hc : c ∈ log)
    {k : κ} (first : target b = some k) (second : target c = some k) : b = c := by
  induction log using List.reverseRecOn with
  | nil => contradiction
  | append_singleton log a ih =>
    have unused : ∀ x ∈ log, target x = some k → target a ≠ some k := fun x hx corrects again =>
      (h.last.2 k again).2 (List.mem_filterMap.mpr ⟨x, hx, corrects⟩)
    rcases List.mem_append.mp hb with oldB | newB
    · rcases List.mem_append.mp hc with oldC | newC
      · exact ih h.of_prefix oldB oldC
      · rw [List.mem_singleton.mp newC] at second
        exact absurd second (unused b oldB first)
    · rw [List.mem_singleton.mp newB] at first ⊢
      rcases List.mem_append.mp hc with oldC | newC
      · exact absurd first (unused c oldC second)
      · exact (List.mem_singleton.mp newC).symm

theorem Corrected.later (h : Corrected id target log) {r : α → α → Prop} (ordered : log.Pairwise r)
    {a b : α} (ha : a ∈ log) (corrects : Corrects id target log a b) : r a b := by
  obtain ⟨hb, names⟩ := corrects
  obtain ⟨front, rest, rfl⟩ := List.append_of_mem hb
  obtain ⟨c, hc, same⟩ := List.mem_map.mp ((h front b rest rfl).2 (id a) names).1
  obtain rfl := h.separate (List.mem_append_left _ hc) ha same
  exact (List.pairwise_append.mp ordered).2.2 c hc b List.mem_cons_self

theorem Lineage.mono {larger : List α} (within : ∀ a ∈ log, a ∈ larger) {a b : α}
    (h : Lineage id target log a b) : Lineage id target larger a b := by
  induction h with
  | refl => exact .refl
  | tail _ last ih => exact ih.tail ⟨within _ last.1, last.2⟩

theorem Lineage.mem {a b : α} (ha : a ∈ log) (h : Lineage id target log a b) : b ∈ log := by
  cases h with
  | refl => exact ha
  | tail _ last => exact last.1

theorem Corrected.rooted (h : Corrected id target log) {a : α} (ha : a ∈ log) :
    ∃ root ∈ log, target root = none ∧ Lineage id target log root a := by
  induction log using List.reverseRecOn generalizing a with
  | nil => contradiction
  | append_singleton log last ih =>
    have grow {x y : α} (path : Lineage id target log x y) : Lineage id target (log ++ [last]) x y :=
      path.mono fun z hz => List.mem_append_left _ hz
    rcases List.mem_append.mp ha with old | new
    · obtain ⟨root, inLog, corrects, path⟩ := ih h.of_prefix old
      exact ⟨root, List.mem_append_left _ inLog, corrects, grow path⟩
    · rw [List.mem_singleton.mp new]
      cases corrects : target last with
      | none => exact ⟨last, by simp, corrects, .refl⟩
      | some k =>
        obtain ⟨b, hb, rfl⟩ := List.mem_map.mp (h.last.2 k corrects).1
        obtain ⟨root, inLog, original, path⟩ := ih h.of_prefix hb
        refine ⟨root, List.mem_append_left _ inLog, original, (grow path).tail ?_⟩
        exact ⟨by simp, corrects⟩

theorem Corrected.linear (h : Corrected id target log) {a b c : α} (left : Lineage id target log a b)
    (right : Lineage id target log a c) :
    Lineage id target log b c ∨ Lineage id target log c b := by
  apply Relation.ReflTransGen.total_of_right_unique _ left right
  intro x y z first second
  exact h.once first.1 second.1 first.2 second.2

end

section
variable {log : List α}

theorem mem_inForce {a : α} :
    a ∈ inForce id target log ↔ a ∈ log ∧ id a ∉ log.filterMap target := by
  simp [inForce]

theorem eq_of_inForce {a b : α} (ha : a ∈ inForce id target log) (h : Lineage id target log a b) :
    a = b := by
  rcases Relation.ReflTransGen.cases_head h with same | ⟨c, ⟨hc, names⟩, _⟩
  · exact same
  · exact absurd (List.mem_filterMap.mpr ⟨c, hc, names⟩) (mem_inForce.mp ha).2

theorem inForce_concat {a : α} (h : Corrected id target (log ++ [a])) :
    inForce id target (log ++ [a]) =
      (inForce id target log).filter (fun b => target a ≠ some (id b)) ++ [a] := by
  have unmarked : id a ∉ (log ++ [a]).filterMap target := by
    intro marked
    rw [List.filterMap_append, List.mem_append] at marked
    rcases marked with old | new
    · exact h.last.1 (h.of_prefix.targets old)
    · have self : target a = some (id a) := by simpa using new
      exact h.last.1 (h.last.2 _ self).1
  have split (b : α) : id b ∉ (log ++ [a]).filterMap target ↔
      target a ≠ some (id b) ∧ id b ∉ log.filterMap target := by
    have added : id b ∈ [a].filterMap target ↔ target a = some (id b) := by simp
    rw [List.filterMap_append, List.mem_append, not_or, and_comm, added]
  have kept : [a].filter (fun b => id b ∉ (log ++ [a]).filterMap target) = [a] :=
    List.filter_eq_self.mpr (by simpa using unmarked)
  rw [inForce, List.filter_append, kept, inForce, List.filter_filter]
  congr 1
  apply List.filter_congr
  intro b _
  simp only [← Bool.decide_and, decide_eq_decide]
  exact split b

theorem Corrected.leads (h : Corrected id target log) {a : α} (ha : a ∈ log) :
    ∃ e ∈ inForce id target log, Lineage id target log a e := by
  induction log using List.reverseRecOn generalizing a with
  | nil => contradiction
  | append_singleton log last ih =>
    have inLast : last ∈ inForce id target (log ++ [last]) := by simp [inForce_concat h]
    rcases List.mem_append.mp ha with old | new
    · obtain ⟨e, he, path⟩ := ih h.of_prefix old
      have grown : Lineage id target (log ++ [last]) a e :=
        path.mono fun z hz => List.mem_append_left _ hz
      by_cases corrects : target last = some (id e)
      · exact ⟨last, inLast, grown.tail ⟨by simp, corrects⟩⟩
      · exact ⟨e, by simp [inForce_concat h, he, corrects], grown⟩
    · exact ⟨last, inLast, List.mem_singleton.mp new ▸ .refl⟩

/-- In each lineage one entry is in force, and every entry of the lineage leads to it. -/
theorem Corrected.one_in_force (h : Corrected id target log) {root : α} (inLog : root ∈ log) :
    ∃ e ∈ inForce id target log, Lineage id target log root e ∧
      ∀ f, Lineage id target log root f → Lineage id target log f e := by
  obtain ⟨e, he, path⟩ := h.leads inLog
  refine ⟨e, he, path, fun f other => ?_⟩
  rcases h.linear path other with onward | back
  · rw [eq_of_inForce he onward]
  · exact back

theorem Corrected.count (h : Corrected id target log) :
    (inForce id target log).length = (log.filter fun a => target a = none).length := by
  induction log using List.reverseRecOn with
  | nil => rfl
  | append_singleton log a ih =>
    have before := ih h.of_prefix
    rw [inForce_concat h, List.length_append, List.filter_append, List.length_append, ← before]
    cases corrects : target a with
    | none => simp [corrects]
    | some k =>
      obtain ⟨inLog, unmarked⟩ := h.last.2 k corrects
      obtain ⟨b, hb, rfl⟩ := List.mem_map.mp inLog
      have standing : id b ∈ (inForce id target log).map id :=
        List.mem_map_of_mem (mem_inForce.mpr ⟨hb, unmarked⟩)
      have nodup : ((inForce id target log).map id).Nodup :=
        h.of_prefix.ids_distinct.sublist (List.filter_sublist.map id)
      have single := List.count_eq_one_of_mem nodup standing
      rw [List.count_eq_countP, List.countP_map] at single
      have whole := @List.length_eq_countP_add_countP _ (fun c => id c == id b)
        (inForce id target log)
      have others : (inForce id target log).filter (fun c => some (id b) ≠ some (id c)) =
          (inForce id target log).filter fun c => ¬(id c == id b) = true := by
        apply List.filter_congr
        intro c _
        simp only [ne_eq, Option.some.injEq, beq_iff_eq, @eq_comm _ (id b) (id c)]
      have one : (inForce id target log).countP (fun c => id c == id b) = 1 := single
      rw [others, ← List.countP_eq_length_filter, whole, one]
      simp [corrects, Nat.add_comm]

end

end Kit
