import Treasury.Kit.Steps

/-! Loops that poll a state at most so many times and judge each answer by what was seen
before. The first poll that fails, is judged a failure or ends the loop decides; if none does,
the polls run out. -/
namespace Kit

variable {S ε O A R : Type}

/-- A judgment is a failure, or goes on with what was seen, or is the result. -/
def heed (goOn : A → Steps S ε (A ⊕ R)) : Except ε (A ⊕ R) → Steps S ε (A ⊕ R)
  | .error e => Steps.fail e
  | .ok (.inl seen) => goOn seen
  | .ok (.inr result) => pure (.inr result)

def watch (poll : Steps S ε O) (judge : A → O → Except ε (A ⊕ R)) :
    Nat → A → Steps S ε (A ⊕ R)
  | 0, seen => pure (.inl seen)
  | polls + 1, seen => do
    let answer ← poll
    heed (watch poll judge polls) (judge seen answer)

/-- The answers of successive polls. -/
inductive Polled (poll : Steps S ε O) : S → List O → S → Prop
  | nil {s : S} : Polled poll s [] s
  | cons {s t u : S} {answer : O} {rest : List O} :
      poll s = (t, .ok answer) → Polled poll t rest u → Polled poll s (answer :: rest) u

/-- Every answer leaves the matter open, and what is then seen. -/
inductive Open (judge : A → O → Except ε (A ⊕ R)) : A → List O → A → Prop
  | nil {seen : A} : Open judge seen [] seen
  | cons {seen more last : A} {answer : O} {rest : List O} :
      judge seen answer = .ok (.inl more) → Open judge more rest last →
      Open judge seen (answer :: rest) last

variable {poll : Steps S ε O} {judge : A → O → Except ε (A ⊕ R)}

theorem Polled.concat {s t u : S} {answers : List O} {answer : O} (polled : Polled poll s answers t)
    (next : poll t = (u, .ok answer)) : Polled poll s (answers ++ [answer]) u := by
  induction polled with
  | nil => exact .cons next .nil
  | cons first _ ih => exact .cons first (ih next)

theorem polled_concat {s u : S} {answers : List O} {answer : O} :
    Polled poll s (answers ++ [answer]) u ↔
      ∃ t, Polled poll s answers t ∧ poll t = (u, .ok answer) := by
  refine ⟨fun polled => ?_, fun ⟨t, before, next⟩ => before.concat next⟩
  induction answers generalizing s with
  | nil =>
    cases polled with
    | cons first rest =>
      cases rest
      exact ⟨s, .nil, first⟩
  | cons head answers ih =>
    cases polled with
    | cons first rest =>
      obtain ⟨t, before, next⟩ := ih rest
      exact ⟨t, .cons first before, next⟩

theorem watch_open {polls : Nat} {s t : S} {seen last : A} :
    watch poll judge polls seen s = (t, .ok (.inl last)) ↔
      ∃ answers, answers.length = polls ∧ Polled poll s answers t ∧ Open judge seen answers last := by
  induction polls generalizing s seen with
  | zero =>
    constructor
    · intro done
      cases done
      exact ⟨[], rfl, .nil, .nil⟩
    · rintro ⟨answers, none, polled, left⟩
      obtain rfl := List.length_eq_zero_iff.mp none
      cases polled
      cases left
      rfl
  | succ polls ih =>
    constructor
    · intro done
      obtain ⟨u, answer, first, rest⟩ := Steps.bind_eq_ok.mp done
      rcases judged : judge seen answer with e | more | result
      · rw [judged] at rest
        cases rest
      · rw [judged] at rest
        obtain ⟨answers, length, polled, left⟩ := ih.mp rest
        exact ⟨answer :: answers, congrArg Nat.succ length, .cons first polled, .cons judged left⟩
      · rw [judged] at rest
        cases rest
    · rintro ⟨answers, length, polled, left⟩
      cases left with
      | nil => cases length
      | cons judged left =>
        cases polled with
        | cons first polled =>
          refine (Steps.bind_of_ok first).trans ?_
          rw [judged]
          exact ih.mpr ⟨_, Nat.succ.inj length, polled, left⟩

theorem watch_result {polls : Nat} {s u : S} {seen : A} {result : R} :
    watch poll judge polls seen s = (u, .ok (.inr result)) ↔
      ∃ answers answer last, answers.length < polls ∧ Polled poll s (answers ++ [answer]) u ∧
        Open judge seen answers last ∧ judge last answer = .ok (.inr result) := by
  induction polls generalizing s seen with
  | zero =>
    constructor
    · intro done
      cases done
    · rintro ⟨answers, _, _, none, _⟩
      exact absurd none (Nat.not_lt_zero _)
  | succ polls ih =>
    constructor
    · intro done
      obtain ⟨t, answer, first, rest⟩ := Steps.bind_eq_ok.mp done
      rcases judged : judge seen answer with e | more | ended
      · rw [judged] at rest
        cases rest
      · rw [judged] at rest
        obtain ⟨answers, final, last, fewer, polled, left, ended⟩ := ih.mp rest
        exact ⟨answer :: answers, final, last, Nat.succ_lt_succ fewer, .cons first polled,
          .cons judged left, ended⟩
      · rw [judged] at rest
        cases rest
        exact ⟨[], answer, seen, Nat.succ_pos _, .cons first .nil, .nil, judged⟩
    · rintro ⟨answers, final, last, fewer, polled, left, ended⟩
      cases left with
      | nil =>
        cases polled with
        | cons first rest =>
          cases rest
          refine (Steps.bind_of_ok first).trans ?_
          rw [ended]
          rfl
      | cons judged left =>
        cases polled with
        | cons first polled =>
          refine (Steps.bind_of_ok first).trans ?_
          rw [judged]
          exact ih.mpr ⟨_, final, last, Nat.lt_of_succ_lt_succ fewer, polled, left, ended⟩

theorem watch_error {polls : Nat} {s u : S} {seen : A} {e : ε} :
    watch poll judge polls seen s = (u, .error e) ↔
      ∃ answers t last, answers.length < polls ∧ Polled poll s answers t ∧
        Open judge seen answers last ∧ (poll t = (u, .error e) ∨
          ∃ answer, poll t = (u, .ok answer) ∧ judge last answer = .error e) := by
  induction polls generalizing s seen with
  | zero =>
    constructor
    · intro done
      cases done
    · rintro ⟨answers, _, _, none, _⟩
      exact absurd none (Nat.not_lt_zero _)
  | succ polls ih =>
    rcases first : poll s with ⟨t, e' | answer⟩
    · have failed : watch poll judge (polls + 1) seen s = (t, .error e') := Steps.bind_of_error first
      rw [failed]
      constructor
      · intro same
        cases same
        exact ⟨[], s, seen, Nat.succ_pos _, .nil, .nil, .inl first⟩
      · rintro ⟨answers, v, last, -, polled, left, ends⟩
        cases polled with
        | nil =>
          rcases ends with ends | ⟨answer, ends, -⟩
          · cases first.symm.trans ends
            rfl
          · cases first.symm.trans ends
        | cons again => cases first.symm.trans again
    · have next : watch poll judge (polls + 1) seen s =
          heed (watch poll judge polls) (judge seen answer) t := Steps.bind_of_ok first
      rw [next]
      constructor
      · intro done
        rcases judged : judge seen answer with e' | more | result
        · rw [judged] at done
          cases done
          exact ⟨[], s, seen, Nat.succ_pos _, .nil, .nil, .inr ⟨answer, first, judged⟩⟩
        · rw [judged] at done
          obtain ⟨answers, v, last, fewer, polled, left, ends⟩ := ih.mp done
          exact ⟨answer :: answers, v, last, Nat.succ_lt_succ fewer, .cons first polled,
            .cons judged left, ends⟩
        · rw [judged] at done
          cases done
      · rintro ⟨answers, v, last, fewer, polled, left, ends⟩
        cases polled with
        | nil =>
          cases left
          rcases ends with ends | ⟨other, ends, judged⟩
          · cases first.symm.trans ends
          · cases first.symm.trans ends
            rw [judged]
            rfl
        | cons again polled =>
          cases first.symm.trans again
          cases left with
          | cons judged left =>
            rw [judged]
            exact ih.mpr ⟨_, v, last, Nat.lt_of_succ_lt_succ fewer, polled, left, ends⟩

end Kit
