import Treasury.Kit.Docket
import Treasury.Kit.Except
import Treasury.Kit.Run

/-! The life of a docket's item: the first entry under its key, and from there the moves that
were accepted, one after another. Callers may use calls of their own, as long as each enters an
item, moves one or is refused. -/
namespace Kit

section
variable {S A ε R : Type*} (perform : S → A → S × Except ε R)

def advance (s : S) (a : A) : S := (perform s a).1

def success (s : S) (a : A) : Option A :=
  match (perform s a).2 with
  | .ok _ => some a
  | .error _ => none

def succeeded : S → List A → List A
  | _, [] => []
  | s, a :: rest => (success perform s a).toList ++ succeeded (advance perform s a) rest

def results : S → List A → List (Except ε R)
  | _, [] => []
  | s, a :: rest => (perform s a).2 :: results (advance perform s a) rest

theorem succeeded_append (s : S) (as bs : List A) :
    succeeded perform s (as ++ bs) = succeeded perform s as ++
      succeeded perform (run (advance perform) s as) bs := by
  induction as generalizing s with
  | nil => simp [succeeded, run]
  | cons a as ih => simp [succeeded, run, ih]

theorem succeeded_concat (s : S) (as : List A) (a : A) :
    succeeded perform s (as ++ [a]) = succeeded perform s as ++
      (success perform (run (advance perform) s as) a).toList := by
  simp [succeeded_append, succeeded]

theorem mem_succeeded {s : S} {as : List A} {a : A} (member : a ∈ succeeded perform s as) :
    a ∈ as := by
  induction as generalizing s with
  | nil => cases member
  | cons b as ih =>
    simp only [succeeded, List.mem_append, Option.mem_toList] at member
    rcases member with now | later
    · unfold success at now
      split at now
      · cases now
        exact List.mem_cons_self
      · cases now
    · exact List.mem_cons_of_mem _ (ih later)

end

namespace Docket

inductive Call (κ P S M : Type) where
  | enter (key : κ) (payload : P) (start : S)
  | move (key : κ) (m : M)

structure Rules (κ S M ε : Type) where
  missing : κ → ε
  next : M → S → Except ε S

def Follows {S M ε : Type} (next : M → S → Except ε S) : S → List M → S → Prop
  | s, [], t => s = t
  | s, m :: rest, t => ∃ u, next m s = .ok u ∧ Follows next u rest t

theorem follows_concat {S M ε : Type} {next : M → S → Except ε S} {s t : S} {ms : List M} {m : M} :
    Follows next s (ms ++ [m]) t ↔ ∃ u, Follows next s ms u ∧ next m u = .ok t := by
  induction ms generalizing s with
  | nil => simp [Follows]
  | cons n ms ih =>
    simp only [List.cons_append, Follows, ih]
    constructor
    · rintro ⟨v, first, u, rest, last⟩
      exact ⟨u, ⟨v, first, rest⟩, last⟩
    · rintro ⟨u, ⟨v, first, rest⟩, last⟩
      exact ⟨v, first, u, rest, last⟩

theorem follows_mapError {S M ε δ : Type} {next : M → S → Except ε S} {wrap : ε → δ} {s t : S}
    {ms : List M} : Follows (fun m s => (next m s).mapError wrap) s ms t ↔ Follows next s ms t := by
  induction ms generalizing s with
  | nil => exact Iff.rfl
  | cons m ms ih => simp only [Follows, mapError_eq_ok, ih]

variable {κ P S M ε C R : Type} [DecidableEq κ]

theorem move_mapError {δ : Type} (d : Docket κ P S) (key : κ) (missing : ε)
    (next : S → Except ε S) (wrap : ε → δ) :
    d.move key (wrap missing) (fun s => (next s).mapError wrap) =
      ((d.move key missing next).1, (d.move key missing next).2.mapError wrap) := by
  unfold move
  cases d.item key with
  | none => rfl
  | some i => cases stepped : next i.2 <;> simp only [stepped] <;> rfl

def perform (rules : Rules κ S M ε) (d : Docket κ P S) :
    Call κ P S M → Docket κ P S × Except ε Unit
  | .enter key payload start => (d.enter key payload start, .ok ())
  | .move key m => d.move key (rules.missing key) (rules.next m)

namespace Call

def entry (key : κ) : Call κ P S M → Option (P × S)
  | .enter k payload start => if k = key then some (payload, start) else none
  | .move .. => none

def verb (key : κ) : Call κ P S M → Option M
  | .enter .. => none
  | .move k m => if k = key then some m else none

end Call

/-- The caller's calls act on the docket as the translation tells, and those that it does not
translate are refused. -/
structure Acts (rules : Rules κ S M ε) (act : Docket κ P S → C → Docket κ P S × Except ε R)
    (translate : C → Option (Call κ P S M)) : Prop where
  performs : ∀ d c call, translate c = some call →
    ∃ answer : R, act d c = ((d.perform rules call).1, (d.perform rules call).2.map fun _ => answer)
  refuses : ∀ d c, translate c = none → ∃ e, act d c = (d, .error e)

/-- The item, after the first entry and the accepted moves. -/
def Lives (next : M → S → Except ε S) (first : Option (P × S)) (moves : List M)
    (item : Option (P × S)) : Prop :=
  match first with
  | none => moves = [] ∧ item = none
  | some (payload, start) => ∃ s, item = some (payload, s) ∧ Follows next start moves s

section
variable {next : M → S → Except ε S} {first : Option (P × S)} {moves : List M}

theorem Lives.enter {item : Option (P × S)} (lives : Lives next first moves item) (i : P × S) :
    Lives next (first.or (some i)) moves (some (item.getD i)) := by
  cases first with
  | none =>
    obtain ⟨rfl, rfl⟩ := lives
    exact ⟨i.2, rfl, rfl⟩
  | some origin =>
    obtain ⟨s, rfl, follows⟩ := lives
    exact ⟨s, rfl, follows⟩

theorem Lives.move {payload : P} {old new : S} {m : M}
    (lives : Lives next first moves (some (payload, old))) (stepped : next m old = .ok new) :
    Lives next first (moves ++ [m]) (some (payload, new)) := by
  cases first with
  | none => cases lives.2
  | some origin =>
    obtain ⟨s, same, follows⟩ := lives
    cases same
    exact ⟨new, rfl, follows_concat.mpr ⟨old, follows, stepped⟩⟩

theorem Lives.origin {payload : P} {s : S} (lives : Lives next first moves (some (payload, s))) :
    ∃ start, first = some (payload, start) ∧ Follows next start moves s := by
  cases first with
  | none => cases lives.2
  | some origin =>
    obtain ⟨t, same, follows⟩ := lives
    cases same
    exact ⟨origin.2, rfl, follows⟩

end

section
variable {rules : Rules κ S M ε} {act : Docket κ P S → C → Docket κ P S × Except ε R}
  {translate : C → Option (Call κ P S M)}

/-- What enters under the key, and what moves the item there. -/
def entryBy (translate : C → Option (Call κ P S M)) (key : κ) (c : C) : Option (P × S) :=
  (translate c).bind (Call.entry key)

def verbBy (translate : C → Option (Call κ P S M)) (key : κ) (c : C) : Option M :=
  (translate c).bind (Call.verb key)

theorem Acts.cases (acts : Acts rules act translate) (d : Docket κ P S) (c : C) :
    (∃ e, act d c = (d, .error e)) ∨
      (∃ key payload start, ∃ answer : R, translate c = some (.enter key payload start) ∧
        act d c = (d.enter key payload start, .ok answer)) ∨
      ∃ key m payload old new, ∃ answer : R, translate c = some (.move key m) ∧
        d.item key = some (payload, old) ∧ rules.next m old = .ok new ∧
        act d c = (⟨d.items.insert key (payload, new)⟩, .ok answer) := by
  cases translated : translate c with
  | none => exact .inl (acts.refuses d c translated)
  | some call =>
    obtain ⟨answer, acted⟩ := acts.performs d c call translated
    cases call with
    | enter key payload start => exact .inr (.inl ⟨key, payload, start, answer, rfl, acted⟩)
    | move key m =>
      rcases d.move_cases key (rules.missing key) (rules.next m) with
        ⟨e, refused⟩ | ⟨payload, old, new, found, stepped, accepted⟩
      · simp only [perform, refused] at acted
        exact .inl ⟨e, acted⟩
      · simp only [perform, accepted] at acted
        exact .inr (.inr ⟨key, m, payload, old, new, answer, rfl, found, stepped, acted⟩)

theorem Acts.refused (acts : Acts rules act translate) {d : Docket κ P S} {c : C} {e : ε}
    (failed : (act d c).2 = .error e) : (act d c).1 = d := by
  rcases acts.cases d c with ⟨_, same⟩ | ⟨_, _, _, _, _, entered⟩ |
    ⟨_, _, _, _, _, _, _, _, _, moved⟩
  · simp only [same]
  · simp [entered] at failed
  · simp [moved] at failed

/-- Every item of a docket in use lives by its first entry and its accepted moves. -/
theorem Acts.lives (acts : Acts rules act translate) (calls : List C) (key : κ) :
    Lives rules.next ((succeeded act .empty calls).findSome? (entryBy translate key))
      ((succeeded act .empty calls).filterMap (verbBy translate key))
      ((run (advance act) .empty calls).item key) := by
  induction calls using List.reverseRecOn with
  | nil => exact ⟨rfl, item_empty key⟩
  | append_singleton calls c ih =>
    rw [succeeded_concat, run_append, List.findSome?_append, List.filterMap_append]
    generalize run (advance act) .empty calls = d at ih ⊢
    generalize (succeeded act .empty calls).findSome? _ = first at ih ⊢
    generalize (succeeded act .empty calls).filterMap _ = moves at ih ⊢
    rcases acts.cases d c with ⟨e, refused⟩ | ⟨k, payload, start, answer, translated, entered⟩ |
      ⟨k, m, payload, old, new, answer, translated, found, stepped, moved⟩
    · simpa [success, run, advance, refused] using ih
    · have lasts : success act d c = some c := by simp only [success, entered]
      by_cases same : k = key
      · subst same
        simpa [lasts, run, advance, entered, entryBy, verbBy, translated, Call.entry, Call.verb,
          item_enter_self] using ih.enter (payload, start)
      · simpa [lasts, run, advance, entered, entryBy, verbBy, translated, Call.entry, Call.verb,
          same, item_enter_other d payload start (Ne.symm same)] using ih
    · have lasts : success act d c = some c := by simp only [success, moved]
      by_cases same : k = key
      · subst same
        rw [found] at ih
        simpa [lasts, run, advance, moved, entryBy, verbBy, translated, Call.entry, Call.verb]
          using ih.move stepped
      · simpa [lasts, run, advance, moved, entryBy, verbBy, translated, Call.entry, Call.verb,
          same, item_insert, Ne.symm same] using ih

theorem Acts.final (acts : Acts rules act translate) {d : Docket κ P S} {key : κ} {payload : P}
    {s : S} (found : d.item key = some (payload, s)) (final : ∀ m t, rules.next m s ≠ .ok t)
    (more : List C) : (run (advance act) d more).item key = some (payload, s) := by
  refine run_invariant (advance act) (fun d => d.item key = some (payload, s)) ?_ more d found
  intro d c stands
  rcases acts.cases d c with ⟨e, refused⟩ | ⟨k, other, start, answer, _, entered⟩ |
    ⟨k, m, other, old, new, answer, _, there, stepped, moved⟩
  · simpa only [advance, refused] using stands
  · simp only [advance, entered]
    exact item_enter_of_some stands other start
  · simp only [advance, moved, item_insert]
    split
    · rename_i same
      subst same
      cases stands.symm.trans there
      exact absurd stepped (final m new)
    · exact stands

end

theorem keysWhere_sorted {κ : Type} [LinearOrder κ] (d : Docket κ P S) (p : P → S → Bool) :
    (d.keysWhere p).Pairwise (· < ·) := (Finset.sortedLT_sort _).pairwise

end Docket

end Kit
