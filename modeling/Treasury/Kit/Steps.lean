import Treasury.Kit.Except

/-! Computations over a state that keep the state they have reached when they fail, and how
they are taken apart at each `bind`. -/
namespace Kit

def Steps (S ε α : Type) := S → S × Except ε α

namespace Steps

variable {S T ε δ α β : Type}

instance instMonadSteps : Monad (Steps S ε) where
  pure a s := (s, .ok a)
  bind m f s :=
    match m s with
    | (t, .error e) => (t, .error e)
    | (t, .ok a) => f a t

theorem bind_of_ok {m : Steps S ε α} {f : α → Steps S ε β} {s t : S} {a : α}
    (h : m s = (t, .ok a)) : (m >>= f) s = f a t := by
  simp only [bind, h]

theorem bind_of_error {m : Steps S ε α} {f : α → Steps S ε β} {s t : S} {e : ε}
    (h : m s = (t, .error e)) : (m >>= f) s = (t, .error e) := by
  simp only [bind, h]

theorem bind_eq_ok {m : Steps S ε α} {f : α → Steps S ε β} {s u : S} {b : β} :
    (m >>= f) s = (u, .ok b) ↔ ∃ t a, m s = (t, .ok a) ∧ f a t = (u, .ok b) := by
  rcases first : m s with ⟨t, e | a⟩
  · rw [bind_of_error first]
    simp
  · rw [bind_of_ok first]
    constructor
    · exact fun h => ⟨t, a, rfl, h⟩
    · rintro ⟨_, _, same, h⟩
      cases same
      exact h

theorem bind_eq_error {m : Steps S ε α} {f : α → Steps S ε β} {s u : S} {e : ε} :
    (m >>= f) s = (u, .error e) ↔
      m s = (u, .error e) ∨ ∃ t a, m s = (t, .ok a) ∧ f a t = (u, .error e) := by
  rcases first : m s with ⟨t, d | a⟩
  · rw [bind_of_error first]
    simp
  · rw [bind_of_ok first]
    constructor
    · exact fun h => .inr ⟨t, a, rfl, h⟩
    · rintro (other | ⟨_, _, same, h⟩)
      · cases other
      · cases same
        exact h

/-- A computation whose errors are passed on as others. -/
def raise (wrap : ε → δ) (m : Steps S ε α) : Steps S δ α := fun s =>
  ((m s).1, (m s).2.mapError wrap)

def lift (result : Except ε α) : Steps S ε α := fun s => (s, result)

theorem lift_bind (a : α) (f : α → Steps S ε β) : (lift (.ok a) >>= f) = f a := rfl

theorem raise_eq_ok {wrap : ε → δ} {m : Steps S ε α} {s t : S} {a : α} :
    raise wrap m s = (t, .ok a) ↔ m s = (t, .ok a) := by
  simp only [raise, Prod.ext_iff, mapError_eq_ok]

theorem raise_eq_error {wrap : ε → δ} {m : Steps S ε α} {s t : S} {d : δ} :
    raise wrap m s = (t, .error d) ↔ ∃ e, m s = (t, .error e) ∧ wrap e = d := by
  rcases result : m s with ⟨u, e | a⟩ <;> simp [raise, result, Except.mapError]

def first (wrap : ε → δ) (m : Steps S ε α) : Steps (S × T) δ α := fun s =>
  (((m s.1).1, s.2), (m s.1).2.mapError wrap)

def second (wrap : ε → δ) (m : Steps T ε α) : Steps (S × T) δ α := fun s =>
  ((s.1, (m s.2).1), (m s.2).2.mapError wrap)

theorem first_eq_ok {wrap : ε → δ} {m : Steps S ε α} {s : S} {t : T} {u : S × T} {a : α} :
    first wrap m (s, t) = (u, .ok a) ↔ ∃ next, m s = (next, .ok a) ∧ u = (next, t) := by
  simp only [first, Prod.mk.injEq, mapError_eq_ok]
  constructor
  · rintro ⟨rfl, result⟩
    exact ⟨_, Prod.ext rfl result, rfl⟩
  · rintro ⟨next, result, rfl⟩
    simp [result]

theorem second_eq_ok {wrap : ε → δ} {m : Steps T ε α} {s : S} {t : T} {u : S × T} {a : α} :
    second wrap m (s, t) = (u, .ok a) ↔ ∃ next, m t = (next, .ok a) ∧ u = (s, next) := by
  simp only [second, Prod.mk.injEq, mapError_eq_ok]
  constructor
  · rintro ⟨rfl, result⟩
    exact ⟨_, Prod.ext rfl result, rfl⟩
  · rintro ⟨next, result, rfl⟩
    simp [result]

theorem first_of_error {wrap : ε → δ} {m : Steps S ε α} {s next : S} {e : ε}
    (h : m s = (next, .error e)) (t : T) : first wrap m (s, t) = ((next, t), .error (wrap e)) := by
  unfold first
  rw [h]
  rfl

def KeepsSecond (m : Steps (S × T) ε α) : Prop := ∀ s, (m s).1.2 = s.2

theorem keepsSecond_first (wrap : ε → δ) (m : Steps S ε α) : KeepsSecond (T := T) (first wrap m) :=
  fun _ => rfl

theorem keepsSecond_pure (a : α) : KeepsSecond (pure a : Steps (S × T) ε α) := fun _ => rfl

theorem KeepsSecond.bind {m : Steps (S × T) ε α} {f : α → Steps (S × T) ε β} (kept : KeepsSecond m)
    (rest : ∀ a, KeepsSecond (f a)) : KeepsSecond (m >>= f) := by
  intro s
  rcases result : m s with ⟨t, e | a⟩
  · have here := kept s
    rw [bind_of_error result]
    rwa [result] at here
  · have here := kept s
    rw [bind_of_ok result, rest a t]
    rwa [result] at here

/-- A computation that does on the image of every state what another does on the state. -/
def Follows (f : S → T) (n : Steps T ε α) (m : Steps S ε α) : Prop :=
  ∀ s, n (f s) = (f (m s).1, (m s).2)

theorem follows_pure (f : S → T) (a : α) : Follows f (pure a : Steps T ε α) (pure a) := fun _ => rfl

theorem Follows.bind {f : S → T} {n : Steps T ε α} {m : Steps S ε α} {k : α → Steps T ε β}
    {l : α → Steps S ε β} (here : Follows f n m) (rest : ∀ a, Follows f (k a) (l a)) :
    Follows f (n >>= k) (m >>= l) := by
  intro s
  have same := here s
  rcases result : m s with ⟨t, e | a⟩
  · rw [result] at same
    rw [bind_of_error same, bind_of_error result]
  · rw [result] at same
    rw [bind_of_ok same, bind_of_ok result, rest a t]

def fail (e : ε) : Steps S ε α := fun s => (s, .error e)

end Steps

end Kit
