import Mathlib.Algebra.Order.BigOperators.Group.List
import Mathlib.Tactic.Linarith

/-! A queue of parcels that is drained from its front. A parcel that is drained in part gives
the floor of its share of the value, so two draughts give what one of their size gives, or
one unit less: only the parcel that the first one stops in is rounded once more. -/
namespace Kit

structure Parcel (L : Type) where
  label : L
  weight : Int
  value : Int

namespace Parcel

variable {L : Type}

/-- `floor(value * q / weight)`. -/
def part (p : Parcel L) (q : Int) : Int := p.value * q / p.weight

def without (p : Parcel L) (q : Int) : Parcel L := ⟨p.label, p.weight - q, p.value - p.part q⟩

def outline (p : Parcel L) : L × Int := (p.label, p.weight)

theorem part_bounds {p : Parcel L} (heavy : 0 < p.weight) (q : Int) :
    p.part q * p.weight ≤ p.value * q ∧ p.value * q < (p.part q + 1) * p.weight := by
  constructor
  · exact Int.ediv_mul_le _ heavy.ne'
  · exact Int.lt_ediv_add_one_mul_self _ heavy

theorem part_whole {p : Parcel L} (heavy : 0 < p.weight) : p.part p.weight = p.value :=
  Int.mul_ediv_cancel _ heavy.ne'

/-- Two draughts from one parcel give no more than one does, and at most one unit less. -/
theorem part_split {p : Parcel L} {a b : Int} (ha : 0 ≤ a) (hb : 0 ≤ b)
    (light : a + b < p.weight) :
    p.part a + (p.without a).part b ≤ p.part (a + b) ∧
      p.part (a + b) ≤ p.part a + (p.without a).part b + 1 := by
  have heavy : 0 < p.weight := by omega
  have rest : 0 < (p.without a).weight := Int.sub_pos_of_lt (by omega)
  obtain ⟨firstLow, firstHigh⟩ := part_bounds heavy a
  obtain ⟨nextLow, nextHigh⟩ := part_bounds rest b
  obtain ⟨bothLow, bothHigh⟩ := part_bounds heavy (a + b)
  generalize (p.without a).part b = next at *
  simp only [without] at rest nextLow nextHigh
  generalize p.part (a + b) = both at *
  generalize p.part a = first at *
  have room : 0 ≤ p.weight - a - b := by omega
  constructor
  · -- what the two give is below their share, shown after multiplying by the weight left
    have low := mul_le_mul_of_nonneg_right firstLow room
    have nextScaled := mul_le_mul_of_nonneg_right nextLow heavy.le
    have share : (first + next) * p.weight * (p.weight - a) ≤
        p.value * (a + b) * (p.weight - a) := by linarith
    have below := (le_of_mul_le_mul_right share rest).trans_lt bothHigh
    exact Int.lt_add_one_iff.mp (lt_of_mul_lt_mul_right below heavy.le)
  · have high := mul_le_mul_of_nonneg_right firstHigh.le room
    have nextScaled := mul_lt_mul_of_pos_right nextHigh heavy
    have spare := mul_nonneg hb heavy.le
    have share : p.value * (a + b) * (p.weight - a) <
        (first + next + 2) * p.weight * (p.weight - a) := by linarith
    have above := bothLow.trans_lt (lt_of_mul_lt_mul_right share rest.le)
    have least := lt_of_mul_lt_mul_right above heavy.le
    omega

end Parcel

variable {L : Type}

def drained : List (Parcel L) → Int → Int
  | [], _ => 0
  | p :: queue, q =>
    if p.weight ≤ q then p.value + drained queue (q - p.weight) else p.part q

def remains : List (Parcel L) → Int → List (Parcel L)
  | [], _ => []
  | p :: queue, q =>
    if p.weight ≤ q then remains queue (q - p.weight) else p.without q :: queue

section
variable {p : Parcel L} {queue : List (Parcel L)} {q : Int}

theorem drained_whole (all : p.weight ≤ q) :
    drained (p :: queue) q = p.value + drained queue (q - p.weight) := if_pos all

theorem drained_part (light : q < p.weight) : drained (p :: queue) q = p.part q :=
  if_neg (not_le.mpr light)

theorem remains_whole (all : p.weight ≤ q) :
    remains (p :: queue) q = remains queue (q - p.weight) := if_pos all

theorem remains_part (light : q < p.weight) : remains (p :: queue) q = p.without q :: queue :=
  if_neg (not_le.mpr light)

end

theorem drained_nothing {queue : List (Parcel L)} (heavy : ∀ p ∈ queue, 0 < p.weight) :
    drained queue 0 = 0 := by
  cases queue with
  | nil => rfl
  | cons p queue =>
    rw [drained_part (heavy p List.mem_cons_self), Parcel.part, Int.mul_zero, Int.zero_ediv]

theorem remains_nothing {queue : List (Parcel L)} (heavy : ∀ p ∈ queue, 0 < p.weight) :
    remains queue 0 = queue := by
  cases queue with
  | nil => rfl
  | cons p queue =>
    rw [remains_part (heavy p List.mem_cons_self)]
    simp [Parcel.without, Parcel.part]

theorem drain_front {front later : List (Parcel L)} {q : Int}
    (heavy : ∀ p ∈ front, 0 < p.weight) (more : 0 ≤ q) :
    drained (front ++ later) ((front.map Parcel.weight).sum + q) =
        (front.map Parcel.value).sum + drained later q ∧
      remains (front ++ later) ((front.map Parcel.weight).sum + q) = remains later q := by
  induction front with
  | nil => simp
  | cons p front ih =>
    obtain ⟨here, behind⟩ := List.forall_mem_cons.mp heavy
    obtain ⟨given, left⟩ := ih behind
    have rest : 0 ≤ (front.map Parcel.weight).sum := List.sum_nonneg (by
      simpa using fun p h => (behind p h).le)
    have all : p.weight ≤ ((p :: front).map Parcel.weight).sum + q := by
      rw [List.map_cons, List.sum_cons]
      omega
    have next : ((p :: front).map Parcel.weight).sum + q - p.weight =
        (front.map Parcel.weight).sum + q := by
      rw [List.map_cons, List.sum_cons]
      omega
    rw [List.cons_append, drained_whole all, remains_whole all, next, given, left, List.map_cons,
      List.sum_cons]
    exact ⟨(add_assoc _ _ _).symm, rfl⟩

theorem drain_until {front later : List (Parcel L)} {last : Parcel L} {q : Int}
    (heavy : ∀ p ∈ front ++ later, 0 < p.weight) (some : 0 < q) (within : q ≤ last.weight) :
    drained (front ++ last :: later) ((front.map Parcel.weight).sum + q) =
        (front.map Parcel.value).sum + last.part q ∧
      remains (front ++ last :: later) ((front.map Parcel.weight).sum + q) =
        if q < last.weight then last.without q :: later else later := by
  obtain ⟨heavyFront, heavyLater⟩ := List.forall_mem_append.mp heavy
  obtain ⟨given, left⟩ := @drain_front L front (last :: later) q heavyFront some.le
  rw [given, left]
  rcases within.eq_or_lt with rfl | light
  · rw [drained_whole le_rfl, remains_whole le_rfl, sub_self, drained_nothing heavyLater,
      remains_nothing heavyLater, Parcel.part_whole some, add_zero, if_neg (lt_irrefl _)]
    exact ⟨rfl, rfl⟩
  · rw [drained_part light, remains_part light, if_pos light]
    exact ⟨rfl, rfl⟩

theorem remains_split {queue : List (Parcel L)} {a b : Int} (ha : 0 ≤ a) (hb : 0 ≤ b) :
    (remains (remains queue a) b).map Parcel.outline =
      (remains queue (a + b)).map Parcel.outline := by
  induction queue generalizing a with
  | nil => rfl
  | cons p queue ih =>
    rcases le_or_gt p.weight a with all | light
    · have both : p.weight ≤ a + b := by omega
      have next : a + b - p.weight = a - p.weight + b := by omega
      rw [remains_whole all, remains_whole both, next]
      exact ih (Int.sub_nonneg_of_le all)
    · rw [remains_part light]
      rcases le_or_gt p.weight (a + b) with both | light
      · -- the first draught stops in this parcel, and the second one empties it
        have rest : (p.without a).weight ≤ b := by
          simp only [Parcel.without]
          omega
        have next : b - (p.without a).weight = a + b - p.weight := by
          simp only [Parcel.without]
          omega
        rw [remains_whole rest, remains_whole both, next]
      · have rest : b < (p.without a).weight := by
          simp only [Parcel.without]
          omega
        rw [remains_part rest, remains_part light, List.map_cons, List.map_cons]
        simp only [Parcel.outline, Parcel.without, Int.sub_sub]

/-- Two draughts give what one of their size gives, or one unit less. -/
theorem drained_split {queue : List (Parcel L)} {a b : Int} (ha : 0 ≤ a) (hb : 0 ≤ b) :
    drained queue a + drained (remains queue a) b ≤ drained queue (a + b) ∧
      drained queue (a + b) ≤ drained queue a + drained (remains queue a) b + 1 := by
  induction queue generalizing a with
  | nil => simp [drained, remains]
  | cons p queue ih =>
    rcases le_or_gt p.weight a with all | light
    · have both : p.weight ≤ a + b := by omega
      have next : a + b - p.weight = a - p.weight + b := by omega
      have tail := ih (Int.sub_nonneg_of_le all)
      rw [drained_whole all, remains_whole all, drained_whole both, next]
      omega
    · rw [drained_part light, remains_part light]
      rcases le_or_gt p.weight (a + b) with both | light
      · -- the parcel that the first draught stops in is emptied by the second one
        have rest : (p.without a).weight ≤ b := by
          simp only [Parcel.without]
          omega
        have next : b - (p.without a).weight = a + b - p.weight := by
          simp only [Parcel.without]
          omega
        have given : p.part a + (p.without a).value = p.value := by
          simp only [Parcel.without]
          omega
        rw [drained_whole rest, drained_whole both, next]
        omega
      · have rest : b < (p.without a).weight := by
          simp only [Parcel.without]
          omega
        rw [drained_part rest, drained_part light]
        exact Parcel.part_split ha hb light

end Kit
