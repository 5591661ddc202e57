import Mathlib.Data.List.Induction
import Mathlib.Order.Lattice

/-! Entries in strictly increasing order of time, and which of them is the last at or before a
time. -/
namespace Kit

variable {A T : Type*} [LinearOrder T] (time : A → T)

def Ascending (l : List A) : Prop := l.Pairwise fun a b => time a < time b

def latestAt (t : T) (l : List A) : Option A := l.reverse.find? fun a => time a ≤ t

def LatestAt (t : T) (l : List A) (a : A) : Prop :=
  a ∈ l ∧ time a ≤ t ∧ ∀ b ∈ l, time b ≤ t → b = a ∨ time b < time a

variable {time} {t : T} {l more : List A} {a : A}

theorem ascending_concat : Ascending time (l ++ [a]) ↔
    Ascending time l ∧ ∀ b ∈ l, time b < time a := by
  simp [Ascending, List.pairwise_append]

theorem Ascending.concat (sorted : Ascending time l)
    (later : ∀ last, l.getLast? = some last → time last < time a) :
    Ascending time (l ++ [a]) := by
  refine ascending_concat.mpr ⟨sorted, fun b member => ?_⟩
  induction l using List.reverseRecOn with
  | nil => cases member
  | append_singleton l last _ =>
    have newest : time last < time a := later last (by simp)
    rcases List.mem_append.mp member with before | here
    · exact ((ascending_concat.mp sorted).2 b before).trans newest
    · exact List.mem_singleton.mp here ▸ newest

theorem latestAt_concat : latestAt time t (l ++ [a]) =
    if time a ≤ t then some a else latestAt time t l := by
  by_cases early : time a ≤ t <;> simp [latestAt, early]

theorem latestAt_eq_none : latestAt time t l = none ↔ ∀ a ∈ l, t < time a := by
  simp [latestAt]

theorem latestAt_eq_some (sorted : Ascending time l) :
    latestAt time t l = some a ↔ LatestAt time t l a := by
  induction l using List.reverseRecOn with
  | nil => simp [latestAt, LatestAt]
  | append_singleton l last ih =>
    obtain ⟨before, newest⟩ := ascending_concat.mp sorted
    rw [latestAt_concat]
    split
    · rename_i early
      constructor
      · intro same
        cases same
        refine ⟨by simp, early, fun b member _ => ?_⟩
        rcases List.mem_append.mp member with inside | here
        · exact .inr (newest b inside)
        · exact .inl (List.mem_singleton.mp here)
      · rintro ⟨member, -, greatest⟩
        rcases greatest last (by simp) early with same | less
        · exact congrArg some same
        · rcases List.mem_append.mp member with inside | here
          · exact absurd (newest a inside) less.not_gt
          · exact congrArg some (List.mem_singleton.mp here).symm
    · rename_i late
      rw [ih before]
      constructor
      · rintro ⟨member, early, greatest⟩
        refine ⟨List.mem_append_left _ member, early, fun b inside soon => ?_⟩
        rcases List.mem_append.mp inside with earlier | here
        · exact greatest b earlier soon
        · exact absurd (List.mem_singleton.mp here ▸ soon) late
      · rintro ⟨member, early, greatest⟩
        rcases List.mem_append.mp member with inside | here
        · exact ⟨inside, early, fun b earlier => greatest b (List.mem_append_left _ earlier)⟩
        · exact absurd (List.mem_singleton.mp here ▸ early) late

theorem latestAt_append (later : ∀ b ∈ more, t < time b) :
    latestAt time t (l ++ more) = latestAt time t l := by
  induction more using List.reverseRecOn with
  | nil => rw [List.append_nil]
  | append_singleton more last ih =>
    simp only [List.mem_append, List.mem_singleton] at later
    rw [← List.append_assoc, latestAt_concat, if_neg (not_le.mpr (later last (.inr rfl)))]
    exact ih fun b member => later b (.inl member)

theorem Ascending.later (sorted : Ascending time (l ++ more)) (member : a ∈ l)
    (early : t ≤ time a) : ∀ b ∈ more, t < time b := fun b added =>
  early.trans_lt ((List.pairwise_append.mp sorted).2.2 a member b added)

end Kit
