import Mathlib.Data.Finset.Insert

/-! Askers who choose in turn: each one chooses from what those before it left, and
what is chosen is taken from then on. -/
namespace Kit

/-- One asker's turn: what was taken before it, and what it chose. -/
structure Turn (A B κ : Type) where
  asker : A
  taken : Finset κ
  choice : Option B

variable {A B κ : Type} [DecidableEq κ]

def takes (key : B → κ) (taken : Finset κ) : Option B → Finset κ
  | none => taken
  | some b => insert (key b) taken

def turns (key : B → κ) (choose : Finset κ → A → Option B) : Finset κ → List A → List (Turn A B κ)
  | _, [] => []
  | taken, a :: rest =>
    ⟨a, taken, choose taken a⟩ :: turns key choose (takes key taken (choose taken a)) rest

def allTaken (key : B → κ) (choose : Finset κ → A → Option B) : Finset κ → List A → Finset κ
  | taken, [] => taken
  | taken, a :: rest => allTaken key choose (takes key taken (choose taken a)) rest

theorem subset_takes (key : B → κ) (taken : Finset κ) (choice : Option B) :
    taken ⊆ takes key taken choice := by
  cases choice with
  | none => exact Finset.Subset.refl taken
  | some b => exact Finset.subset_insert (key b) taken

section
variable {key : B → κ} {choose : Finset κ → A → Option B}

theorem turns_asker (taken : Finset κ) (askers : List A) :
    (turns key choose taken askers).map Turn.asker = askers := by
  induction askers generalizing taken with
  | nil => rfl
  | cons a rest ih => simp [turns, ih]

theorem turn_choice {taken : Finset κ} {askers : List A} {t : Turn A B κ}
    (h : t ∈ turns key choose taken askers) :
    t.asker ∈ askers ∧ taken ⊆ t.taken ∧ t.choice = choose t.taken t.asker := by
  induction askers generalizing taken with
  | nil => contradiction
  | cons a rest ih =>
    rcases List.mem_cons.mp h with rfl | later
    · exact ⟨List.mem_cons_self, Finset.Subset.refl taken, rfl⟩
    · obtain ⟨asks, grown, chosen⟩ := ih later
      exact ⟨List.mem_cons_of_mem a asks, (subset_takes key taken _).trans grown, chosen⟩

theorem turns_ordered (taken : Finset κ) (askers : List A) :
    (turns key choose taken askers).Pairwise fun x y => takes key x.taken x.choice ⊆ y.taken := by
  induction askers generalizing taken with
  | nil => exact .nil
  | cons a rest ih =>
    refine .cons (fun t later => ?_) (ih _)
    exact (turn_choice later).2.1

theorem turns_of_none {askers : List A} (none : ∀ taken, ∀ a ∈ askers, choose taken a = .none)
    (taken : Finset κ) : turns key choose taken askers = askers.map (⟨·, taken, .none⟩) ∧
      allTaken key choose taken askers = taken := by
  induction askers with
  | nil => exact ⟨rfl, rfl⟩
  | cons a rest ih =>
    have here := none taken a List.mem_cons_self
    obtain ⟨later, all⟩ := ih fun taken b h => none taken b (List.mem_cons_of_mem a h)
    simp [turns, allTaken, here, takes, later, all]

theorem subset_allTaken (taken : Finset κ) (askers : List A) :
    taken ⊆ allTaken key choose taken askers := by
  induction askers generalizing taken with
  | nil => exact Finset.Subset.refl taken
  | cons a rest ih => exact (subset_takes key taken _).trans (ih _)

theorem takes_subset_allTaken {taken : Finset κ} {askers : List A} {t : Turn A B κ}
    (h : t ∈ turns key choose taken askers) :
    takes key t.taken t.choice ⊆ allTaken key choose taken askers := by
  induction askers generalizing taken with
  | nil => contradiction
  | cons a rest ih =>
    rcases List.mem_cons.mp h with rfl | later
    · exact subset_allTaken _ rest
    · exact ih later

theorem mem_taken {taken : Finset κ} {askers : List A} {before after : List (Turn A B κ)}
    {t : Turn A B κ} (split : turns key choose taken askers = before ++ t :: after) {k : κ} :
    k ∈ t.taken ↔ k ∈ taken ∨ ∃ u ∈ before, ∃ b, u.choice = some b ∧ key b = k := by
  induction before generalizing taken askers with
  | nil =>
    cases askers with
    | nil => cases split
    | cons a rest =>
      obtain rfl := (List.cons.inj split).1
      simp
  | cons u before ih =>
    cases askers with
    | nil => cases split
    | cons a rest =>
      obtain ⟨rfl, later⟩ := List.cons.inj split
      cases chosen : choose taken a with
      | none => simp [ih later, chosen, takes]
      | some b => simp [ih later, chosen, takes, or_assoc, or_left_comm, eq_comm]

theorem mem_allTaken {taken : Finset κ} {askers : List A} {k : κ} :
    k ∈ allTaken key choose taken askers ↔
      k ∈ taken ∨ ∃ t ∈ turns key choose taken askers, ∃ b, t.choice = some b ∧ key b = k := by
  induction askers generalizing taken with
  | nil => simp [allTaken, turns]
  | cons a rest ih =>
    cases chosen : choose taken a with
    | none => simp [allTaken, turns, ih, chosen, takes]
    | some b => simp [allTaken, turns, ih, chosen, takes, or_assoc, or_left_comm, eq_comm]

end

end Kit
