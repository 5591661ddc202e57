import Treasury.Kit.Drain
import Treasury.Lots.Fifo

/-! A disposal under FIFO in two steps. The lots of an asset at a venue are a queue of parcels
of their basis and of their fee, and a disposal is a draught from it. -/
namespace Treasury
open Kit

/-- The lot as it is but for its money, of which the currency of the basis stays. -/
def Lot.unpriced (l : Lot) : Lot :=
  { l with costBasis := ⟨l.costBasis.asset, 0⟩, acquisitionFee := ⟨l.costBasis.asset, 0⟩ }

/-- The lot as a parcel of some of its money. -/
def Lot.parcel (money : Lot → AssetAmount) (l : Lot) : Parcel Lot :=
  ⟨{ l.unpriced with atoms := 0 }, l.atoms.val, (money l).atoms.val⟩

def recorded (paid : LotRelief → AssetAmount) (reliefs : List LotRelief) : Int :=
  (reliefs.map fun r => (paid r).atoms.val).sum

/-- Money of lots that reliefs pay out pro rata. -/
structure Prorated (money : Lot → AssetAmount) (paid : LotRelief → AssetAmount) : Prop where
  whole : ∀ l : Lot, (paid l.whole).atoms = (money l).atoms
  share : ∀ {lot take left relief}, Relieved lot take left relief →
    (paid relief).atoms.val = share (money lot).atoms take lot.atoms
  left : ∀ {lot take left relief}, Relieved lot take left relief →
    (money left).atoms.val = (money lot).atoms.val - (paid relief).atoms.val

theorem prorated_basis : Prorated Lot.costBasis LotRelief.basisRelieved :=
  ⟨fun _ => rfl, fun h => h.basisShare, fun h => h.basis⟩

theorem prorated_fee : Prorated Lot.acquisitionFee LotRelief.feeRelieved :=
  ⟨fun _ => rfl, fun h => h.feeShare, fun h => h.fee⟩

theorem Relieved.unpriced_left {lot left : Lot} {take : I128} {relief : LotRelief}
    (h : Relieved lot take left relief) :
    left.unpriced = { lot.unpriced with atoms := left.atoms } :=
  (congrArg Lot.unpriced h.facts).trans rfl

theorem Relieved.parcel_left {money : Lot → AssetAmount} {paid : LotRelief → AssetAmount}
    (prorated : Prorated money paid) {lot left : Lot} {take : I128} {relief : LotRelief}
    (h : Relieved lot take left relief) :
    left.parcel money = (lot.parcel money).without take.val := by
  have label := congrArg (fun l : Lot => { l with atoms := 0 }) h.unpriced_left
  simp only [Lot.parcel, Parcel.without, Parcel.part, h.atoms, prorated.left h, prorated.share h,
    Treasury.share, label]

namespace FifoRelief

variable {lots out earlier later : List Lot} {last left : Lot} {asset : AssetId} {venue : VenueId}
  {reliefs : List LotRelief} {relief : LotRelief}

theorem queue_eq (h : FifoRelief lots out asset venue reliefs earlier last later left relief)
    (distinct : (lots.map Lot.lotId).Nodup) :
    fifoQueue lots asset venue = earlier ++ last :: later :=
  eq_of_strict (fifoQueue_ordered distinct asset venue) h.ordered fun l =>
    mem_fifoQueue.trans (h.queue l).symm

theorem open_iff_later
    (h : FifoRelief lots out asset venue reliefs earlier last later left relief) (l : Lot) :
    l ∈ out ∧ l.asset = asset ∧ l.venue = venue ↔
      l ∈ later ∨ l = left ∧ relief.atoms.val < last.atoms.val := by
  have remains : 0 < left.atoms.val ↔ relief.atoms.val < last.atoms.val := by
    rw [h.lastTaken.atoms, Int.sub_pos]
  rw [h.open_iff, remains]
  constructor
  · rintro ⟨⟨inLots, notEarlier, notLast⟩ | isLeft, here⟩
    · have queued := (h.queue l).mpr ⟨inLots, here⟩
      simp only [List.mem_append, List.mem_cons, notEarlier, notLast, false_or] at queued
      exact .inl queued
    · exact .inr isLeft
  · rintro (inLater | ⟨rfl, some⟩)
    · obtain ⟨inLots, here⟩ :=
        (h.queue l).mp (List.mem_append_right _ (List.mem_cons_of_mem last inLater))
      obtain ⟨_, fromLast, earlierFirst⟩ := List.pairwise_append.mp h.ordered
      have notEarlier : l ∉ earlier := fun inEarlier =>
        (earlierFirst l inEarlier l (List.mem_cons_of_mem last inLater)).ne rfl
      have notLast : l ≠ last := fun isLast =>
        ((List.pairwise_cons.mp fromLast).1 l inLater).ne (congrArg lotKey isLast.symm)
      exact ⟨.inl ⟨inLots, notEarlier, notLast⟩, here⟩
    · obtain ⟨_, here⟩ := (h.queue last).mp (List.mem_append_right _ List.mem_cons_self)
      have facts := h.lastTaken.facts
      exact ⟨.inr ⟨rfl, some⟩, (congrArg Lot.asset facts).trans here.1,
        (congrArg Lot.venue facts).trans here.2⟩

theorem queue_left (h : FifoRelief lots out asset venue reliefs earlier last later left relief)
    (distinct : (lots.map Lot.lotId).Nodup) :
    fifoQueue out asset venue =
      if relief.atoms.val < last.atoms.val then left :: later else later := by
  have fromLast := (List.pairwise_append.mp h.ordered).2.1
  have sameKey : lotKey left = lotKey last := by rw [h.lastTaken.facts]; rfl
  have strict := fifoQueue_ordered (distinct.sublist h.kept) asset venue
  have same (l : Lot) := (@mem_fifoQueue out asset venue l).trans (h.open_iff_later l)
  split
  · rename_i some
    apply eq_of_strict strict
    · rw [List.pairwise_cons] at fromLast ⊢
      exact ⟨fun m inLater => sameKey ▸ fromLast.1 m inLater, fromLast.2⟩
    · intro l
      rw [same, List.mem_cons, and_iff_left some, or_comm]
  · rename_i all
    apply eq_of_strict strict fromLast.tail
    intro l
    rw [same]
    exact or_iff_left fun isLeft => all isLeft.2

theorem drains {money : Lot → AssetAmount} {paid : LotRelief → AssetAmount}
    (prorated : Prorated money paid)
    (h : FifoRelief lots out asset venue reliefs earlier last later left relief)
    (distinct : (lots.map Lot.lotId).Nodup) (positive : ∀ l ∈ lots, 0 < l.atoms.val) :
    recorded paid reliefs =
        drained ((fifoQueue lots asset venue).map (Lot.parcel money))
          (reliefs.map fun r => r.atoms.val).sum ∧
      (fifoQueue out asset venue).map (Lot.parcel money) =
        remains ((fifoQueue lots asset venue).map (Lot.parcel money))
          (reliefs.map fun r => r.atoms.val).sum := by
  have heavy : ∀ p ∈ earlier.map (Lot.parcel money) ++ later.map (Lot.parcel money),
      0 < p.weight := by
    rw [← List.map_append, List.forall_mem_map]
    intro l among
    apply positive l
    exact ((h.queue l).mp (by
      rcases List.mem_append.mp among with early | late
      · exact List.mem_append_left _ early
      · exact List.mem_append_right _ (List.mem_cons_of_mem last late))).1
  obtain ⟨given, rest⟩ := @drain_until _ _ _ (last.parcel money) _ heavy h.positive h.within
  have taken : (reliefs.map fun r => r.atoms.val).sum =
      ((earlier.map (Lot.parcel money)).map Parcel.weight).sum + relief.atoms.val := by
    simp [h.reliefs_eq, Lot.whole, Lot.parcel, Function.comp_def]
  have gained : recorded paid reliefs =
      ((earlier.map (Lot.parcel money)).map Parcel.value).sum +
        (last.parcel money).part relief.atoms.val := by
    simp [recorded, h.reliefs_eq, Lot.parcel, Function.comp_def, prorated.whole,
      prorated.share h.lastTaken, share, Parcel.part]
  rw [h.queue_eq distinct, h.queue_left distinct, List.map_append, List.map_cons, taken, gained,
    given, rest]
  constructor
  · rfl
  · rw [← h.lastTaken.parcel_left prorated, apply_ite (List.map _), List.map_cons]
    rfl

end FifoRelief

/-- Lots with distinct ids, positive quantities and no negative money. -/
structure Orderly (lots : List Lot) : Prop where
  distinct : (lots.map Lot.lotId).Nodup
  positive : ∀ l ∈ lots, 0 < l.atoms.val
  basis : ∀ l ∈ lots, 0 ≤ l.costBasis.atoms.val
  fee : ∀ l ∈ lots, 0 ≤ l.acquisitionFee.atoms.val

theorem Orderly.nonneg {lots : List Lot} (orderly : Orderly lots) : ∀ l ∈ lots, l.NonNegative :=
  fun l h => ⟨(orderly.positive l h).le, orderly.basis l h, orderly.fee l h⟩

/-- What a disposal of a quantity under FIFO does to the lots. -/
structure Draught (lots out : List Lot) (asset : AssetId) (venue : VenueId) (atoms : Int)
    (reliefs : List LotRelief) : Prop where
  orderly : Orderly out
  others : ∀ l, ¬(l.asset = asset ∧ l.venue = venue) → (l ∈ out ↔ l ∈ lots)
  kept : (out.map Lot.lotId).Sublist (lots.map Lot.lotId)
  given : ∀ {money paid}, Prorated money paid →
    recorded paid reliefs = drained ((fifoQueue lots asset venue).map (Lot.parcel money)) atoms
  left : ∀ {money paid}, Prorated money paid →
    (fifoQueue out asset venue).map (Lot.parcel money) =
      remains ((fifoQueue lots asset venue).map (Lot.parcel money)) atoms

theorem FifoRelief.draught {lots out earlier later : List Lot} {last left : Lot} {asset : AssetId}
    {venue : VenueId} {reliefs : List LotRelief} {relief : LotRelief} (orderly : Orderly lots)
    (h : FifoRelief lots out asset venue reliefs earlier last later left relief) :
    Draught lots out asset venue (reliefs.map fun r => r.atoms.val).sum reliefs := by
  have queued := h.queue last
  obtain ⟨lastIn, lastHere⟩ := queued.mp (List.mem_append_right _ List.mem_cons_self)
  have leftNonneg := h.lastTaken.nonNegative (orderly.nonneg last lastIn)
    (orderly.positive last lastIn) h.within
  have facts := h.lastTaken.facts
  have leftHere : left.asset = asset ∧ left.venue = venue :=
    ⟨(congrArg Lot.asset facts).trans lastHere.1, (congrArg Lot.venue facts).trans lastHere.2⟩
  have holds {property : Lot → Prop} (before : ∀ l ∈ lots, property l)
      (leftover : 0 < left.atoms.val → property left) : ∀ l ∈ out, property l := by
    intro l remains
    rcases (h.open_iff l).mp remains with ⟨inLots, _⟩ | ⟨rfl, some⟩
    · exact before l inLots
    · exact leftover some
  constructor
  · constructor
    · exact orderly.distinct.sublist h.kept
    · exact holds orderly.positive id
    · exact holds orderly.basis fun _ => leftNonneg.basis
    · exact holds orderly.fee fun _ => leftNonneg.fee
  · intro l elsewhere
    rw [h.open_iff]
    constructor
    · rintro (⟨before, _⟩ | ⟨rfl, _⟩)
      · exact before
      · exact absurd leftHere elsewhere
    · intro before
      have notEarlier : l ∉ earlier := fun early =>
        elsewhere ((h.queue l).mp (List.mem_append_left _ early)).2
      have notLast : l ≠ last := fun isLast => elsewhere (isLast ▸ lastHere)
      exact .inl ⟨before, notEarlier, notLast⟩
  · exact h.kept
  · exact fun prorated => (h.drains prorated orderly.distinct orderly.positive).1
  · exact fun prorated => (h.drains prorated orderly.distinct orderly.positive).2

theorem unpriced_of_outline {money : Lot → AssetAmount} {l m : Lot}
    (same : (l.parcel money).outline = (m.parcel money).outline) : l.unpriced = m.unpriced := by
  obtain ⟨label, weight⟩ := Prod.mk.inj same
  have atoms : l.atoms = m.atoms := Bounded.ext_val weight
  calc l.unpriced = { { l.unpriced with atoms := 0 } with atoms := l.atoms } := rfl
    _ = { { m.unpriced with atoms := 0 } with atoms := m.atoms } := by
      rw [atoms]
      exact congrArg (fun k : Lot => { k with atoms := m.atoms }) label
    _ = m.unpriced := rfl

theorem unpriced_of_outlines {money : Lot → AssetAmount} {queue other : List Lot}
    (same : (queue.map (Lot.parcel money)).map Parcel.outline =
      (other.map (Lot.parcel money)).map Parcel.outline) :
    queue.map Lot.unpriced = other.map Lot.unpriced := by
  rw [List.map_map, List.map_map, ← List.forall₂_eq_eq_eq, List.forall₂_map_left_iff,
    List.forall₂_map_right_iff] at same
  rw [← List.forall₂_eq_eq_eq, List.forall₂_map_left_iff, List.forall₂_map_right_iff]
  exact same.imp fun _ _ outline => unpriced_of_outline outline

section
variable {lots whole mid twice : List Lot} {asset : AssetId} {venue : VenueId} {a b c : Int}
  {once first second : List LotRelief}

theorem Draught.same_queue (atOnce : Draught lots whole asset venue (a + b) once)
    (before : Draught lots mid asset venue a first) (after : Draught mid twice asset venue b second)
    (ha : 0 ≤ a) (hb : 0 ≤ b) :
    (fifoQueue whole asset venue).map Lot.unpriced =
      (fifoQueue twice asset venue).map Lot.unpriced := by
  apply @unpriced_of_outlines Lot.costBasis
  rw [atOnce.left prorated_basis, after.left prorated_basis, before.left prorated_basis]
  exact (remains_split ha hb).symm

theorem Draught.gap {money : Lot → AssetAmount} {paid : LotRelief → AssetAmount}
    (prorated : Prorated money paid) (atOnce : Draught lots whole asset venue (a + b) once)
    (before : Draught lots mid asset venue a first) (after : Draught mid twice asset venue b second)
    (ha : 0 ≤ a) (hb : 0 ≤ b) :
    recorded paid once - (recorded paid first + recorded paid second) = 0 ∨
      recorded paid once - (recorded paid first + recorded paid second) = 1 := by
  rw [atOnce.given prorated, before.given prorated, after.given prorated, before.left prorated]
  have bounds := @drained_split _ ((fifoQueue lots asset venue).map (Lot.parcel money)) _ _ ha hb
  omega

end

theorem mem_unpriced {lots out : List Lot} {asset : AssetId} {venue : VenueId}
    (others : ∀ l, ¬(l.asset = asset ∧ l.venue = venue) → (l ∈ out ↔ l ∈ lots)) (u : Lot) :
    u ∈ out.map Lot.unpriced ↔
      (∃ l ∈ lots, ¬(l.asset = asset ∧ l.venue = venue) ∧ l.unpriced = u) ∨
        u ∈ (fifoQueue out asset venue).map Lot.unpriced := by
  simp only [List.mem_map, mem_fifoQueue]
  constructor
  · rintro ⟨l, remains, rfl⟩
    by_cases here : l.asset = asset ∧ l.venue = venue
    · exact .inr ⟨l, ⟨remains, here⟩, rfl⟩
    · exact .inl ⟨l, (others l here).mp remains, here, rfl⟩
  · rintro (⟨l, before, elsewhere, rfl⟩ | ⟨l, ⟨remains, _⟩, rfl⟩)
    · exact ⟨l, (others l elsewhere).mpr before, rfl⟩
    · exact ⟨l, remains, rfl⟩

theorem Draught.same_lots {lots whole mid twice : List Lot} {asset : AssetId} {venue : VenueId}
    {a b : Int} {once first second : List LotRelief} (distinct : (lots.map Lot.lotId).Nodup)
    (atOnce : Draught lots whole asset venue (a + b) once)
    (before : Draught lots mid asset venue a first) (after : Draught mid twice asset venue b second)
    (ha : 0 ≤ a) (hb : 0 ≤ b) : whole.map Lot.unpriced = twice.map Lot.unpriced := by
  have ids (l : List Lot) : (l.map Lot.unpriced).map Lot.lotId = l.map Lot.lotId := by
    rw [List.map_map]
    rfl
  apply eq_of_keys_sublist distinct
  · rw [ids]
    exact atOnce.kept
  · rw [ids]
    exact after.kept.trans before.kept
  · intro u
    rw [mem_unpriced atOnce.others,
      mem_unpriced fun l elsewhere => (after.others l elsewhere).trans (before.others l elsewhere),
      atOnce.same_queue before after ha hb]

def DisposalResult.totalFeeRelieved (d : DisposalResult) : Int :=
  recorded LotRelief.feeRelieved d.reliefs

namespace LotBook

theorem dispose_draught {book out : LotBook} (orderly : Orderly book.lots) {asset : AssetId}
    {venue : VenueId} {atoms : I128} {policyHash : ContentHash} {proceeds : AssetAmount}
    {d : DisposalResult}
    (disposed : book.dispose asset venue atoms .fifo policyHash proceeds = (out, .ok d)) :
    Draught book.lots out.lots asset venue atoms.val d.reliefs ∧
      d.totalBasisRelieved.atoms.val = recorded LotRelief.basisRelieved d.reliefs := by
  have accepted := congrArg Prod.snd disposed
  obtain ⟨_, _, _, _, _, relieved⟩ :=
    dispose_fifoRelief orderly.distinct orderly.positive orderly.nonneg accepted
  have balanced := dispose_balanced orderly.nonneg (agree_of_distinct orderly.distinct) accepted
  rw [disposed] at relieved
  exact ⟨balanced.atoms ▸ relieved.draught orderly, balanced.basis⟩

/-- A disposal in two steps leaves the same lots with the same quantities, and it gives the
basis and the fee of the disposal at once, or one unit less. -/
theorem dispose_split {book whole mid twice : LotBook} (orderly : Orderly book.lots)
    {asset : AssetId} {venue : VenueId} {a b both : I128} (some : 0 < a.val) (more : 0 < b.val)
    (sum : both.val = a.val + b.val) {policyHash policyFirst policySecond : ContentHash}
    {proceeds proceedsFirst proceedsSecond : AssetAmount} {once first second : DisposalResult}
    (atOnce : book.dispose asset venue both .fifo policyHash proceeds = (whole, .ok once))
    (before : book.dispose asset venue a .fifo policyFirst proceedsFirst = (mid, .ok first))
    (after : mid.dispose asset venue b .fifo policySecond proceedsSecond = (twice, .ok second)) :
    whole.lots.map Lot.unpriced = twice.lots.map Lot.unpriced ∧
      (once.totalBasisRelieved.atoms.val -
          (first.totalBasisRelieved.atoms.val + second.totalBasisRelieved.atoms.val) = 0 ∨
        once.totalBasisRelieved.atoms.val -
          (first.totalBasisRelieved.atoms.val + second.totalBasisRelieved.atoms.val) = 1) ∧
      (once.totalFeeRelieved - (first.totalFeeRelieved + second.totalFeeRelieved) = 0 ∨
        once.totalFeeRelieved - (first.totalFeeRelieved + second.totalFeeRelieved) = 1) := by
  obtain ⟨drawn, onceBasis⟩ := dispose_draught orderly atOnce
  obtain ⟨drawnFirst, firstBasis⟩ := dispose_draught orderly before
  obtain ⟨drawnSecond, secondBasis⟩ := dispose_draught drawnFirst.orderly after
  rw [sum] at drawn
  refine ⟨drawn.same_lots orderly.distinct drawnFirst drawnSecond some.le more.le, ?_, ?_⟩
  · rw [onceBasis, firstBasis, secondBasis]
    exact drawn.gap prorated_basis drawnFirst drawnSecond some.le more.le
  · exact drawn.gap prorated_fee drawnFirst drawnSecond some.le more.le

def threeDollars : LotBook :=
  ⟨⟨"acme"⟩, [hundredAt 1 ⟨.literal 20⟩,
    { hundredAt 2 ⟨.literal 10⟩ with costBasis := ⟨⟨"USD"⟩, .literal 3⟩ }]⟩

def sold (book : LotBook) (atoms : I128) : LotBook × Except LotError DisposalResult :=
  book.dispose ⟨"BTC"⟩ ⟨"exchange"⟩ atoms .fifo (.filled 9) ⟨⟨"USD"⟩, 0⟩

theorem sold_eq {book : LotBook} {atoms : I128} (accepted : (sold book atoms).2.isOk) :
    ∃ d, sold book atoms = ((sold book atoms).1, .ok d) := by
  cases result : (sold book atoms).2 with
  | error e => simp [result, Except.isOk, Except.toBool] at accepted
  | ok d => exact ⟨d, by rw [← result]⟩

/-- Sixty-seven at once, and thirty-three and then thirty-four. -/
theorem dispose_split_dollars :
    ∃ once first second, (sold threeDollars (.literal 67)).2 = .ok once ∧
      (sold threeDollars (.literal 33)).2 = .ok first ∧
      (sold (sold threeDollars (.literal 33)).1 (.literal 34)).2 = .ok second ∧
      (sold threeDollars (.literal 67)).1.lots.map Lot.unpriced =
        (sold (sold threeDollars (.literal 33)).1 (.literal 34)).1.lots.map Lot.unpriced ∧
      (once.totalBasisRelieved.atoms.val -
          (first.totalBasisRelieved.atoms.val + second.totalBasisRelieved.atoms.val) = 0 ∨
        once.totalBasisRelieved.atoms.val -
          (first.totalBasisRelieved.atoms.val + second.totalBasisRelieved.atoms.val) = 1) := by
  have orderly : Orderly threeDollars.lots := ⟨by decide, by decide, by decide, by decide⟩
  obtain ⟨once, atOnce⟩ := @sold_eq threeDollars (.literal 67) (by decide)
  obtain ⟨first, before⟩ := @sold_eq threeDollars (.literal 33) (by decide)
  obtain ⟨second, after⟩ := @sold_eq (sold threeDollars (.literal 33)).1 (.literal 34) (by decide)
  have split := dispose_split orderly (by decide) (by decide) (by decide) atOnce before after
  exact ⟨once, first, second, congrArg Prod.snd atOnce, congrArg Prod.snd before,
    congrArg Prod.snd after, split.1, split.2.1⟩

end LotBook

end Treasury
