import Mathlib.Data.Sum.Basic
import Treasury.Kit.Unwinding

/-! Two machines side by side: a call is for one of them and leaves the other as it is. A run of
both is a run of each over its own calls, and what isolates an observer in each isolates it in
both. -/
namespace Kit

variable {S T A B O P V W : Type*}

def beside (step : S → A → S) (other : T → B → T) (both : S × T) : A ⊕ B → S × T
  | .inl a => (step both.1 a, both.2)
  | .inr b => (both.1, other both.2 b)

/-- What a call of either machine answers. -/
def outBeside (out : S → A → O) (outOther : T → B → P) (both : S × T) : A ⊕ B → O ⊕ P
  | .inl a => .inl (out both.1 a)
  | .inr b => .inr (outOther both.2 b)

section
variable (step : S → A → S) (other : T → B → T)

theorem run_beside (both : S × T) (calls : List (A ⊕ B)) :
    run (beside step other) both calls =
      (run step both.1 (calls.filterMap Sum.getLeft?),
        run other both.2 (calls.filterMap Sum.getRight?)) := by
  induction calls generalizing both with
  | nil => rfl
  | cons call calls ih =>
    cases call with
    | inl a => exact ih _
    | inr b => exact ih _

theorem throughout_beside (good : S → Prop) (goodOther : T → Prop) {both : S × T}
    {calls : List (A ⊕ B)} (mine : Throughout step good both.1 (calls.filterMap Sum.getLeft?))
    (theirs : Throughout other goodOther both.2 (calls.filterMap Sum.getRight?)) :
    Throughout (beside step other) (fun both => good both.1 ∧ goodOther both.2) both calls := by
  induction calls generalizing both with
  | nil => exact ⟨mine, theirs⟩
  | cons call calls ih =>
    cases call with
    | inl a =>
      have now : goodOther both.2 := theirs.until List.nil_prefix
      exact ⟨⟨mine.1, now⟩, ih mine.2 theirs⟩
    | inr b =>
      have now : good both.1 := mine.until List.nil_prefix
      exact ⟨⟨now, theirs.1⟩, ih mine theirs.2⟩

end

section
variable {step : S → A → S} {other : T → B → T} {out : S → A → O} {outOther : T → B → P}
  {own : A → Prop} {ownOther : B → Prop} {view : S → V} {viewOther : T → W}
  {good : S → Prop} {goodOther : T → Prop}

instance elimDecidable [DecidablePred own] [DecidablePred ownOther] :
    DecidablePred (Sum.elim own ownOther)
  | .inl a => inferInstanceAs (Decidable (own a))
  | .inr b => inferInstanceAs (Decidable (ownOther b))

theorem Unwinds.beside (mine : Unwinds step out own view good)
    (theirs : Unwinds other outOther ownOther viewOther goodOther) :
    Unwinds (Kit.beside step other) (outBeside out outOther) (Sum.elim own ownOther)
      (Prod.map view viewOther) (fun both => good both.1 ∧ goodOther both.2) where
  respects both call sound foreign := by
    cases call with
    | inl a => exact Prod.ext (mine.respects both.1 a sound.1 foreign) rfl
    | inr b => exact Prod.ext rfl (theirs.respects both.2 b sound.2 foreign)
  consistent first second call soundFirst soundSecond same ours := by
    obtain ⟨left, right⟩ := Prod.ext_iff.mp same
    cases call with
    | inl a =>
      obtain ⟨answer, seen⟩ := mine.consistent first.1 second.1 a soundFirst.1 soundSecond.1 left ours
      exact ⟨congrArg Sum.inl answer, Prod.ext seen right⟩
    | inr b =>
      obtain ⟨answer, seen⟩ :=
        theirs.consistent first.2 second.2 b soundFirst.2 soundSecond.2 right ours
      exact ⟨congrArg Sum.inr answer, Prod.ext left seen⟩

end

end Kit
