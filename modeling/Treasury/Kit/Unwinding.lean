import Treasury.Kit.Run

/-! An observer who takes some of the actions of a run. Other actions leave what the observer
sees as it is, and the answers to its own follow from what it sees; then two runs in which it
takes the same actions give it the same answers, whatever stands between them. -/
namespace Kit

variable {S A O V : Type*} (step : S → A → S) (out : S → A → O) (own : A → Prop)
  [DecidablePred own]

def answers : S → List A → List O
  | _, [] => []
  | s, a :: rest =>
    if own a then out s a :: answers (step s a) rest else answers (step s a) rest

structure Unwinds (view : S → V) (good : S → Prop) : Prop where
  respects : ∀ s a, good s → ¬ own a → view (step s a) = view s
  consistent : ∀ s t a, good s → good t → view s = view t → own a →
    out s a = out t a ∧ view (step s a) = view (step t a)

variable {step out own} {view : S → V} {good : S → Prop}

theorem Unwinds.idle (unwinds : Unwinds step out own view good) {as : List A} {s : S}
    (sound : Throughout step good s as) (none : as.filter own = []) :
    answers step out own s as = [] ∧ view (run step s as) = view s := by
  induction as generalizing s with
  | nil => exact ⟨rfl, rfl⟩
  | cons a as ih =>
    have foreign : ¬ own a := by
      intro mine
      simp [mine] at none
    simp only [foreign, decide_false, Bool.false_eq_true, not_false_eq_true,
      List.filter_cons_of_neg] at none
    obtain ⟨silent, same⟩ := ih sound.2 none
    refine ⟨?_, same.trans (unwinds.respects s a sound.1 foreign)⟩
    simp only [answers, foreign, if_false, silent]

/-- Before the observer's next action, what it sees is as it was. -/
theorem Unwinds.next (unwinds : Unwinds step out own view good) {as later : List A} {s : S} {a : A}
    (sound : Throughout step good s as) (mine : as.filter own = a :: later) :
    ∃ t rest, view t = view s ∧ good t ∧ own a ∧ Throughout step good (step t a) rest ∧
      rest.filter own = later ∧ run step s as = run step (step t a) rest ∧
      answers step out own s as = out t a :: answers step out own (step t a) rest := by
  induction as generalizing s with
  | nil => cases mine
  | cons b as ih =>
    by_cases first : own b
    · simp only [first, decide_true, List.filter_cons_of_pos, List.cons.injEq] at mine
      obtain ⟨rfl, rest⟩ := mine
      exact ⟨s, as, rfl, sound.1, first, sound.2, rest, rfl, by simp only [answers, first, if_true]⟩
    · simp only [first, decide_false, Bool.false_eq_true, not_false_eq_true,
        List.filter_cons_of_neg] at mine
      obtain ⟨t, rest, same, goodT, ownA, soundT, filtered, ends, answered⟩ := ih sound.2 mine
      refine ⟨t, rest, same.trans (unwinds.respects s b sound.1 first), goodT, ownA, soundT,
        filtered, ends, ?_⟩
      simp only [answers, first, if_false, answered]

theorem unwinding (unwinds : Unwinds step out own view good) {as bs : List A} {s t : S}
    (soundS : Throughout step good s as) (soundT : Throughout step good t bs)
    (seen : view s = view t) (same : as.filter own = bs.filter own) :
    answers step out own s as = answers step out own t bs ∧
      view (run step s as) = view (run step t bs) := by
  generalize taken : bs.filter own = mine at same
  induction mine generalizing as bs s t with
  | nil =>
    obtain ⟨silentS, endS⟩ := unwinds.idle soundS same
    obtain ⟨silentT, endT⟩ := unwinds.idle soundT taken
    exact ⟨silentS.trans silentT.symm, endS.trans (seen.trans endT.symm)⟩
  | cons a mine ih =>
    obtain ⟨u, restS, viewS, goodS, ownA, soundS, filterS, endS, answerS⟩ :=
      unwinds.next soundS same
    obtain ⟨v, restT, viewT, goodT, _, soundT, filterT, endT, answerT⟩ :=
      unwinds.next soundT taken
    obtain ⟨out, view⟩ := unwinds.consistent u v a goodS goodT
      (viewS.trans (seen.trans viewT.symm)) ownA
    obtain ⟨later, ends⟩ := ih soundS soundT view filterT filterS
    simp only [answerS, answerT, endS, endT, out, later, ends, and_self]

end Kit
