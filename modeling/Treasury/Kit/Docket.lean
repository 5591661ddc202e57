import Mathlib.Data.Finmap
import Mathlib.Data.Finset.Sort

/-! Items kept under keys. An item is entered once, its payload never changes, and its
state moves by steps that may be refused. -/
namespace Kit

structure Docket (κ P S : Type) where
  items : Finmap fun _ : κ => P × S

namespace Docket

variable {κ P S ε : Type} [DecidableEq κ]

def empty : Docket κ P S := ⟨∅⟩

def item (d : Docket κ P S) (key : κ) : Option (P × S) := d.items.lookup key

def payload (d : Docket κ P S) (key : κ) : Option P := (d.item key).map Prod.fst

def state (d : Docket κ P S) (key : κ) : Option S := (d.item key).map Prod.snd

/-- An item that is already there is left as it is. -/
def enter (d : Docket κ P S) (key : κ) (payload : P) (start : S) : Docket κ P S :=
  match d.item key with
  | some _ => d
  | none => ⟨d.items.insert key (payload, start)⟩

/-- One step of the item's state, or an error that leaves everything as it is. -/
def move (d : Docket κ P S) (key : κ) (missing : ε) (next : S → Except ε S) :
    Docket κ P S × Except ε Unit :=
  match d.item key with
  | none => (d, .error missing)
  | some (payload, state) =>
    match next state with
    | .error e => (d, .error e)
    | .ok state => (⟨d.items.insert key (payload, state)⟩, .ok ())

def keysWhere {κ : Type} [LinearOrder κ] (d : Docket κ P S) (p : P → S → Bool) : List κ :=
  (d.items.keys.filter fun key => (d.item key).any fun i => p i.1 i.2).sort

theorem payload_of_item {d : Docket κ P S} {key : κ} {payload : P} {s : S}
    (found : d.item key = some (payload, s)) : d.payload key = some payload := by
  rw [Docket.payload, found]
  rfl

@[simp] theorem item_empty (key : κ) : (empty : Docket κ P S).item key = none :=
  Finmap.lookup_empty key

theorem item_enter_self (d : Docket κ P S) (key : κ) (payload : P) (start : S) :
    (d.enter key payload start).item key = some ((d.item key).getD (payload, start)) := by
  unfold enter
  split
  · rename_i i found
    rw [found]
    rfl
  · rename_i absent
    rw [absent]
    exact Finmap.lookup_insert d.items

theorem item_enter_other (d : Docket κ P S) {key other : κ} (payload : P) (start : S)
    (different : other ≠ key) : (d.enter key payload start).item other = d.item other := by
  unfold enter
  split
  · rfl
  · exact Finmap.lookup_insert_of_ne d.items different

theorem item_enter_of_some {d : Docket κ P S} {key other : κ} {i : P × S}
    (found : d.item other = some i) (payload : P) (start : S) :
    (d.enter key payload start).item other = some i := by
  by_cases same : other = key
  · subst same
    rw [item_enter_self, found]
    rfl
  · exact (item_enter_other d payload start same).trans found

theorem move_cases (d : Docket κ P S) (key : κ) (missing : ε) (next : S → Except ε S) :
    (∃ e, d.move key missing next = (d, .error e)) ∨
      ∃ payload old new, d.item key = some (payload, old) ∧ next old = .ok new ∧
        d.move key missing next = (⟨d.items.insert key (payload, new)⟩, .ok ()) := by
  unfold move
  cases found : d.item key with
  | none => exact .inl ⟨missing, rfl⟩
  | some i =>
    obtain ⟨payload, old⟩ := i
    cases stepped : next old with
    | error e => exact .inl ⟨e, by simp only [stepped]⟩
    | ok new => exact .inr ⟨payload, old, new, rfl, stepped, by simp only [stepped]⟩

theorem item_insert (d : Docket κ P S) (key other : κ) (i : P × S) :
    (⟨d.items.insert key i⟩ : Docket κ P S).item other =
      if other = key then some i else d.item other := by
  split
  · rename_i same
    subst same
    exact Finmap.lookup_insert d.items
  · rename_i different
    exact Finmap.lookup_insert_of_ne d.items different

@[simp] theorem item_insert_self (d : Docket κ P S) (key : κ) (i : P × S) :
    (⟨d.items.insert key i⟩ : Docket κ P S).item key = some i := by
  rw [item_insert, if_pos rfl]

theorem mem_keysWhere {κ : Type} [LinearOrder κ] {d : Docket κ P S} {p : P → S → Bool} {key : κ} :
    key ∈ d.keysWhere p ↔ ∃ payload state, d.item key = some (payload, state) ∧ p payload state := by
  rw [keysWhere, Finset.mem_sort, Finset.mem_filter, Finmap.mem_keys]
  constructor
  · rintro ⟨_, holds⟩
    cases found : d.item key with
    | none => simp [found] at holds
    | some i => exact ⟨i.1, i.2, rfl, by simpa [found] using holds⟩
  · rintro ⟨payload, state, found, holds⟩
    exact ⟨Finmap.mem_iff.mpr ⟨_, found⟩, by simp [found, holds]⟩

end Docket

end Kit
