import Mathlib.Data.List.Basic

/-! Runs of a deterministic step function over a list of actions of any length.
A guard says from which states an action may be taken. The last theorems turn
an exact one-step criterion into an exact criterion on whole runs. -/
namespace Kit

variable {S A : Type*}

def run (step : S → A → S) : S → List A → S
  | s, [] => s
  | s, a :: rest => run step (step s a) rest

/-- Every action of the run is taken from a state that the guard admits. -/
def Along (step : S → A → S) (guard : S → A → Prop) : S → List A → Prop
  | _, [] => True
  | s, a :: rest => guard s a ∧ Along step guard (step s a) rest

/-- The predicate holds of the first state and of every state reached. -/
def Throughout (step : S → A → S) (good : S → Prop) : S → List A → Prop
  | s, [] => good s
  | s, a :: rest => good s ∧ Throughout step good (step s a) rest

theorem run_append (step : S → A → S) (s : S) (as bs : List A) :
    run step s (as ++ bs) = run step (run step s as) bs := by
  induction as generalizing s with
  | nil => rfl
  | cons a as ih => exact ih (step s a)

theorem along_append (step : S → A → S) (guard : S → A → Prop) (s : S) (as bs : List A) :
    Along step guard s (as ++ bs) ↔
      Along step guard s as ∧ Along step guard (run step s as) bs := by
  induction as generalizing s with
  | nil => simp [Along, run]
  | cons a as ih => simp [Along, run, ih, and_assoc]

theorem Along.and {step : S → A → S} {guard other : S → A → Prop} {s : S} {as : List A}
    (h : Along step guard s as) (g : Along step other s as) :
    Along step (fun s a => guard s a ∧ other s a) s as := by
  induction as generalizing s with
  | nil => trivial
  | cons a as ih => exact ⟨⟨h.1, g.1⟩, ih h.2 g.2⟩

theorem along_of_forall {step : S → A → S} {guard : A → Prop} {s : S} {as : List A}
    (each : ∀ a ∈ as, guard a) : Along step (fun _ a => guard a) s as := by
  induction as generalizing s with
  | nil => trivial
  | cons a as ih =>
    obtain ⟨first, rest⟩ := List.forall_mem_cons.mp each
    exact ⟨first, ih rest⟩

theorem run_invariant (step : S → A → S) (good : S → Prop)
    (keeps : ∀ s a, good s → good (step s a)) (as : List A) (s : S) (start : good s) :
    good (run step s as) := by
  induction as generalizing s with
  | nil => exact start
  | cons a as ih => exact ih (step s a) (keeps s a start)

theorem run_guarded (step : S → A → S) (guard : S → A → Prop) (good : S → Prop)
    (keeps : ∀ s a, good s → guard s a → good (step s a)) (as : List A) (s : S)
    (start : good s) (admitted : Along step guard s as) : good (run step s as) := by
  induction as generalizing s with
  | nil => exact start
  | cons a as ih => exact ih (step s a) (keeps s a start admitted.1) admitted.2

theorem run_simulates {T : Type*} (step : S → A → S) (other : T → A → T) (guard : S → A → Prop)
    (related : S → T → Prop)
    (keeps : ∀ s t a, related s t → guard s a → related (step s a) (other t a)) (as : List A)
    (s : S) (t : T) (start : related s t) (admitted : Along step guard s as) :
    related (run step s as) (run other t as) := by
  induction as generalizing s t with
  | nil => exact start
  | cons a as ih => exact ih (step s a) (other t a) (keeps s t a start admitted.1) admitted.2

/-- Where an action keeps what is good exactly if the guard admits it, and never restores it, the
end of a run is good exactly if the run is admitted. -/
theorem run_iff_along (step : S → A → S) (guard : S → A → Prop) (good : S → Prop)
    (exact : ∀ s a, good (step s a) ↔ good s ∧ guard s a) (as : List A) (s : S) :
    good (run step s as) ↔ good s ∧ Along step guard s as := by
  induction as generalizing s with
  | nil => exact (and_iff_left trivial).symm
  | cons a as ih => simp only [run, Along, ih, exact, and_assoc]

theorem throughout_guarded (step : S → A → S) (guard : S → A → Prop) (good : S → Prop)
    (keeps : ∀ s a, good s → guard s a → good (step s a)) (as : List A) (s : S)
    (start : good s) (admitted : Along step guard s as) : Throughout step good s as := by
  induction as generalizing s with
  | nil => exact start
  | cons a as ih => exact ⟨start, ih (step s a) (keeps s a start admitted.1) admitted.2⟩

theorem run_bounded (step : S → A → S) (bound good : S → Prop)
    (keeps : ∀ s a, bound (step s a) → bound s ∧ (good s → good (step s a))) (as : List A) (s : S)
    (bounded : bound (run step s as)) : bound s ∧ (good s → good (run step s as)) := by
  induction as generalizing s with
  | nil => exact ⟨bounded, id⟩
  | cons a as ih =>
    obtain ⟨next, later⟩ := ih (step s a) bounded
    obtain ⟨before, first⟩ := keeps s a next
    exact ⟨before, later ∘ first⟩

theorem throughout_bounded (step : S → A → S) (bound good : S → Prop)
    (keeps : ∀ s a, bound (step s a) → bound s ∧ (good s → good (step s a))) (as : List A) (s : S)
    (start : good s) (bounded : bound (run step s as)) : Throughout step good s as := by
  induction as generalizing s with
  | nil => exact start
  | cons a as ih =>
    have next := (run_bounded step bound good keeps as (step s a) bounded).1
    exact ⟨start, ih (step s a) ((keeps s a next).2 start) bounded⟩

theorem along_guarded (step : S → A → S) (guard other : S → A → Prop) (good : S → Prop)
    (keeps : ∀ s a, good s → guard s a → good (step s a))
    (gives : ∀ s a, good s → guard s a → other s a) (as : List A) (s : S)
    (start : good s) (admitted : Along step guard s as) : Along step other s as := by
  induction as generalizing s with
  | nil => trivial
  | cons a as ih =>
    exact ⟨gives s a start admitted.1, ih (step s a) (keeps s a start admitted.1) admitted.2⟩

theorem Throughout.imp {step : S → A → S} {good better : S → Prop}
    (weaker : ∀ s, good s → better s) {as : List A} {s : S} (h : Throughout step good s as) :
    Throughout step better s as := by
  induction as generalizing s with
  | nil => exact weaker s h
  | cons a as ih => exact ⟨weaker s h.1, ih h.2⟩

theorem throughout_iff_prefixes (step : S → A → S) (good : S → Prop) (as : List A) (s : S) :
    Throughout step good s as ↔ ∀ bs, bs <+: as → good (run step s bs) := by
  induction as generalizing s with
  | nil => simp [Throughout, run]
  | cons a as ih =>
    simp only [Throughout, ih]
    constructor
    · rintro ⟨first, later⟩ bs hp
      cases bs with
      | nil => exact first
      | cons b bs =>
        obtain ⟨same, tail⟩ := List.cons_prefix_cons.mp hp
        subst same
        exact later bs tail
    · intro h
      refine ⟨h [] (List.nil_prefix), fun bs hp => ?_⟩
      exact h (a :: bs) (List.cons_prefix_cons.mpr ⟨rfl, hp⟩)

theorem Throughout.until {step : S → A → S} {good : S → Prop} {as bs : List A} {s : S}
    (h : Throughout step good s as) (front : bs <+: as) : Throughout step good s bs := by
  refine (throughout_iff_prefixes ..).mpr fun cs hp => ?_
  exact (throughout_iff_prefixes ..).mp h cs (hp.trans front)

/-- If from every good state within an invariant an action keeps the state good exactly when
the guard admits it, then a run stays good throughout exactly when it is admitted. -/
theorem throughout_iff_along_within (step : S → A → S) (guard : S → A → Prop) (good inv : S → Prop)
    (keeps : ∀ s a, inv s → inv (step s a))
    (exact : ∀ s a, inv s → good s → (good (step s a) ↔ guard s a)) (as : List A) (s : S)
    (sound : inv s) (start : good s) : Throughout step good s as ↔ Along step guard s as := by
  induction as generalizing s with
  | nil => exact iff_of_true start trivial
  | cons a as ih =>
    simp only [Throughout, Along]
    constructor
    · rintro ⟨_, later⟩
      have next : good (step s a) := by
        cases as with
        | nil => exact later
        | cons b as => exact later.1
      exact ⟨(exact s a sound start).mp next, (ih (step s a) (keeps s a sound) next).mp later⟩
    · rintro ⟨admitted, later⟩
      have next := (exact s a sound start).mpr admitted
      exact ⟨start, (ih (step s a) (keeps s a sound) next).mpr later⟩

theorem throughout_iff_along (step : S → A → S) (guard : S → A → Prop) (good : S → Prop)
    (exact : ∀ s a, good s → (good (step s a) ↔ guard s a)) (as : List A) (s : S)
    (start : good s) : Throughout step good s as ↔ Along step guard s as :=
  throughout_iff_along_within step guard good (fun _ => True) (fun _ _ _ => trivial)
    (fun s a _ => exact s a) as s trivial start

end Kit
