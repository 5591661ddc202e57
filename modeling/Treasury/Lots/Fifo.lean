import Treasury.Lots.Amounts
import Treasury.Lots.Disposal

/-! First in, first out, in closed form: the queue of the lots of one asset at one venue is
relieved from its front, every lot but the last in full. -/
namespace Treasury
open Kit

def Lot.whole (l : Lot) : LotRelief :=
  ⟨l.lotId, l.atoms, l.costBasis, ⟨l.costBasis.asset, l.acquisitionFee.atoms⟩⟩

theorem planFrom_split {ordered : List Lot} {needed : I128} {plan : ReliefPlan}
    (some : 0 < needed.val) (enough : needed.val ≤ totalAtoms ordered)
    (planned : planFrom needed ordered = .ok plan) :
    ∃ earlier last later take, ordered = earlier ++ last :: later ∧
      plan = earlier.map (fun l => (l.lotId, l.atoms)) ++ [(last.lotId, take)] := by
  induction ordered generalizing needed plan with
  | nil => exact absurd enough (not_le.mpr some)
  | cons lot ordered ih =>
    rcases planFrom_cons some.le planned with
      ⟨rfl, -⟩ | ⟨take, still, rest, rfl, behind, -, nonneg, chosen, within, difference, -⟩
    · exact absurd some (lt_irrefl 0)
    have room := Bounded.le_def.mp within
    rcases eq_or_ne still 0 with rfl | more
    · -- the lot covers what is needed
      obtain rfl := Except.ok.inj ((planFrom_zero ordered).symm.trans behind)
      exact ⟨[], lot, ordered, take, rfl, rfl⟩
    · -- all of the lot is taken, and the rest comes from the lots behind it
      have short : still.val ≠ 0 := fun zero => more (Bounded.ext_val zero)
      have total := totalAtoms_cons lot ordered
      have all : take = lot.atoms := chosen.resolve_left fun same => by
        subst same
        omega
      subst all
      obtain ⟨earlier, last, later, take, rfl, rfl⟩ := ih (by omega) (by omega) behind
      exact ⟨lot :: earlier, last, later, take, rfl, rfl⟩

theorem Drawn.whole {lots out : List Lot} {lot left : Lot} {relief : LotRelief}
    (drawn : Drawn lots out (lot.lotId, lot.atoms) lot left relief) :
    relief = lot.whole ∧ left.atoms.val = 0 := by
  have sizable := drawn.able.1
  have basis : relief.basisRelieved.atoms = lot.costBasis.atoms :=
    Bounded.ext_val (drawn.relieved.basisShare.trans (share_whole sizable))
  have fee : relief.feeRelieved.atoms = lot.acquisitionFee.atoms :=
    Bounded.ext_val (drawn.relieved.feeShare.trans (share_whole sizable))
  constructor
  · have recorded := drawn.relieved.record
    rw [basis, fee] at recorded
    exact recorded
  · exact drawn.relieved.atoms.trans (sub_self _)

section
variable {lots out : List Lot} (distinct : (lots.map Lot.lotId).Nodup)
include distinct

theorem Drawn.lot_eq {lot other left : Lot} {take : I128} {relief : LotRelief} (h : lot ∈ lots)
    (drawn : Drawn lots out (lot.lotId, take) other left relief) : other = lot := by
  have found := findLot_of_mem distinct h
  exact Option.some.inj (drawn.found.symm.trans found)

theorem drawn_split {earlier : List Lot} {last : LotId × I128} {reliefs : List LotRelief}
    (inLots : ∀ l ∈ earlier, l ∈ lots)
    (drawn : List.Forall₂ (fun entry relief => ∃ lot left, Drawn lots out entry lot left relief)
      (earlier.map (fun l => (l.lotId, l.atoms)) ++ [last]) reliefs) :
    ∃ relief, reliefs = earlier.map Lot.whole ++ [relief] ∧
      ∃ lot left, Drawn lots out last lot left relief := by
  induction earlier generalizing reliefs with
  | nil =>
    cases drawn with
    | @cons _ relief _ _ first rest =>
      cases rest
      exact ⟨relief, rfl, first⟩
  | cons lot earlier ih =>
    obtain ⟨here, behind⟩ := List.forall_mem_cons.mp inLots
    cases drawn with
    | @cons _ relief _ reliefs first rest =>
      obtain ⟨final, rfl, lastDrawn⟩ := ih behind rest
      obtain ⟨other, left, first⟩ := first
      obtain rfl := first.lot_eq distinct here
      exact ⟨final, by rw [first.whole.1]; rfl, lastDrawn⟩

end

/-- A relief of the queue from its front: what was taken from it, and what stays of it. -/
structure FifoRelief (lots out : List Lot) (asset : AssetId) (venue : VenueId)
    (reliefs : List LotRelief) (earlier : List Lot) (last : Lot) (later : List Lot) (left : Lot)
    (relief : LotRelief) : Prop where
  queue : ∀ l, l ∈ earlier ++ last :: later ↔ l ∈ lots ∧ l.asset = asset ∧ l.venue = venue
  ordered : (earlier ++ last :: later).Pairwise fun l m => lotKey l < lotKey m
  reliefs_eq : reliefs = earlier.map Lot.whole ++ [relief]
  lastTaken : Relieved last relief.atoms left relief
  positive : 0 < relief.atoms.val
  within : relief.atoms ≤ last.atoms
  open_iff : ∀ l, l ∈ out ↔
    l ∈ lots ∧ l ∉ earlier ∧ l ≠ last ∨ l = left ∧ 0 < left.atoms.val
  kept : (out.map Lot.lotId).Sublist (lots.map Lot.lotId)

def fifoQueue (lots : List Lot) (asset : AssetId) (venue : VenueId) : List Lot :=
  sortBy lotKey (lots.filter fun l => l.asset = asset ∧ l.venue = venue)

theorem mem_fifoQueue {lots : List Lot} {asset : AssetId} {venue : VenueId} {l : Lot} :
    l ∈ fifoQueue lots asset venue ↔ l ∈ lots ∧ l.asset = asset ∧ l.venue = venue := by
  simp [fifoQueue]

section
variable {lots : List Lot} (distinct : (lots.map Lot.lotId).Nodup)
include distinct

theorem fifoQueue_distinct (asset : AssetId) (venue : VenueId) :
    ((fifoQueue lots asset venue).map Lot.lotId).Nodup := by
  have perm := (sortBy_perm lotKey (lots.filter fun l => l.asset = asset ∧ l.venue = venue)).map
    Lot.lotId
  exact perm.nodup_iff.mpr (distinct.sublist (List.filter_sublist.map _))

theorem fifoQueue_ordered (asset : AssetId) (venue : VenueId) :
    (fifoQueue lots asset venue).Pairwise fun l m => lotKey l < lotKey m := by
  have ids := fifoQueue_distinct distinct asset venue
  have sorted := sortBy_ordered lotKey (lots.filter fun l => l.asset = asset ∧ l.venue = venue)
  refine (sorted.and (List.pairwise_map.mp ids)).imp fun ⟨below, different⟩ => ?_
  refine lt_of_le_of_ne below fun same => different ?_
  exact congrArg (fun k : TimestampNs ×ₗ LotId => (ofLex k).2) same

theorem Relieves.mem_left {out : List Lot} {plan : ReliefPlan} {reliefs : List LotRelief}
    (run : Relieves lots plan out (.ok reliefs)) (positive : ∀ l ∈ lots, 0 < l.atoms.val)
    {l : Lot} : l ∈ out.filter (0 < ·.atoms) ↔
      l ∈ lots ∧ l.lotId ∉ plan.map Prod.fst ∨
        l.lotId ∈ plan.map Prod.fst ∧ findLot out l.lotId = some l ∧ 0 < l.atoms.val := by
  have distinctOut : (out.map Lot.lotId).Nodup := run.lotIds_eq ▸ distinct
  simp only [List.mem_filter, decide_eq_true_iff]
  constructor
  · rintro ⟨inOut, remains⟩
    have found := findLot_of_mem distinctOut inOut
    by_cases planned : l.lotId ∈ plan.map Prod.fst
    · exact .inr ⟨planned, found, remains⟩
    · have before := (run.findLot_frame planned).symm.trans found
      exact .inl ⟨(findLot_mem before).1, planned⟩
  · rintro (⟨inLots, unplanned⟩ | ⟨_, found, remains⟩)
    · have after := (run.findLot_frame unplanned).trans (findLot_of_mem distinct inLots)
      exact ⟨(findLot_mem after).1, positive l inLots⟩
    · exact ⟨(findLot_mem found).1, remains⟩

theorem fifoRelief {out earlier later : List Lot} {last : Lot} {take : I128}
    {reliefs : List LotRelief} {asset : AssetId} {venue : VenueId}
    (positive : ∀ l ∈ lots, 0 < l.atoms.val)
    (split : fifoQueue lots asset venue = earlier ++ last :: later)
    (run : Relieves lots (earlier.map (fun l => (l.lotId, l.atoms)) ++ [(last.lotId, take)]) out
      (.ok reliefs)) :
    ∃ left relief, FifoRelief lots (out.filter (0 < ·.atoms)) asset venue reliefs earlier last later
      left relief := by
  have queue (l : Lot) :
      l ∈ earlier ++ last :: later ↔ l ∈ lots ∧ l.asset = asset ∧ l.venue = venue := by
    rw [← split]
    exact mem_fifoQueue
  have inLots (l) (h : l ∈ earlier) : l ∈ lots := ((queue l).mp (List.mem_append_left _ h)).1
  have lastIn : last ∈ lots := ((queue last).mp (by simp)).1
  obtain ⟨relief, recorded, lot, left, drawn⟩ := drawn_split distinct inLots run.drawn
  obtain rfl := drawn.lot_eq distinct lastIn
  have taken : relief.atoms = take := by rw [drawn.relieved.record]
  have planned (id : LotId) :
      id ∈ (earlier.map (fun l => (l.lotId, l.atoms)) ++ [(lot.lotId, take)]).map Prod.fst ↔
        (∃ l ∈ earlier, l.lotId = id) ∨ id = lot.lotId := by
    simp
  have drained (l) (h : l ∈ earlier) : ∃ empty, findLot out l.lotId = some empty ∧
      empty.atoms.val = 0 := by
    have entry : (l.lotId, l.atoms) ∈ earlier.map (fun l => (l.lotId, l.atoms)) ++
        [(lot.lotId, take)] := List.mem_append_left _ (List.mem_map_of_mem h)
    obtain ⟨_, other, empty, whole⟩ := drawn_of_mem run.drawn entry
    obtain rfl := whole.lot_eq distinct (inLots l h)
    exact ⟨empty, whole.foundLeft, whole.whole.2⟩
  refine ⟨left, relief, queue, split ▸ fifoQueue_ordered distinct asset venue, recorded,
    taken ▸ drawn.relieved, taken ▸ drawn.positive, taken ▸ drawn.within, fun l => ?_, ?_⟩
  · rw [run.mem_left distinct positive, planned]
    apply or_congr
    · refine and_congr_right fun here => not_or.trans (and_congr (not_congr ?_) (not_congr ?_))
      · constructor
        · rintro ⟨m, hm, same⟩
          exact List.inj_on_of_nodup_map distinct (inLots m hm) here same ▸ hm
        · exact fun h => ⟨l, h, rfl⟩
      · exact ⟨List.inj_on_of_nodup_map distinct here lastIn, congrArg Lot.lotId⟩
    · constructor
      · rintro ⟨⟨m, hm, same⟩ | same, found, remains⟩
        · -- what is left of an earlier lot is empty
          obtain ⟨empty, foundEmpty, none⟩ := drained m hm
          rw [same, found] at foundEmpty
          obtain rfl := Option.some.inj foundEmpty
          exact absurd none remains.ne'
        · rw [same] at found
          obtain rfl := Option.some.inj (found.symm.trans drawn.foundLeft)
          exact ⟨rfl, remains⟩
      · rintro ⟨rfl, remains⟩
        have sameId := drawn.relieved.lotId_eq
        exact ⟨.inr sameId, sameId ▸ drawn.foundLeft, remains⟩
  · exact run.lotIds_eq ▸ List.filter_sublist.map _

end

/- When there is not enough. -/

def LotError.Short : LotError → Prop
  | .insufficientQuantity _ _ => True
  | _ => False

/-- The computation does not fail for want of quantity. -/
def NeverShort {α : Type} (result : Except LotError α) : Prop :=
  ∀ e, result = .error e → ¬e.Short

theorem neverShort_ok {α : Type} (a : α) : NeverShort (.ok a) := by
  intro _ h
  cases h

theorem neverShort_error {α : Type} {e : LotError} (other : ¬e.Short) :
    NeverShort (.error e : Except LotError α) := by
  intro _ h
  cases h
  exact other

theorem neverShort_bind {α β : Type} {x : Except LotError α} {f : α → Except LotError β}
    (first : NeverShort x) (second : ∀ a, NeverShort (f a)) : NeverShort (x >>= f) := by
  cases x with
  | error e => exact neverShort_error (first e rfl)
  | ok a => exact second a

theorem neverShort_orOverflow {α : Type} (x : Option α) : NeverShort (orOverflow x) := by
  cases x with
  | none => exact neverShort_error id
  | some a => exact neverShort_ok a

theorem sumAtoms_fits {lots : List Lot} {start : I128} (nonneg : ∀ l ∈ lots, 0 ≤ l.atoms.val)
    (from' : 0 ≤ start.val) (fits : start.val + totalAtoms lots < 2 ^ 127) :
    ∃ available, sumAtoms start lots = .ok available ∧
      available.val = start.val + totalAtoms lots := by
  induction lots generalizing start with
  | nil => exact ⟨start, rfl, by simp [totalAtoms]⟩
  | cons lot lots ih =>
    obtain ⟨here, later⟩ := List.forall_mem_cons.mp nonneg
    have rest := totalAtoms_nonneg later
    have whole := totalAtoms_cons lot lots
    obtain ⟨next, sum⟩ := @I128.exists_val (start.val + lot.atoms.val) (by omega) (by omega)
    obtain ⟨available, summed, total⟩ := @ih next later (by omega) (by omega)
    have added : start.checkedAdd lot.atoms = some next := Bounded.checkedAdd_eq_some.mpr sum.symm
    refine ⟨available, ?_, by omega⟩
    simp only [sumAtoms, added, orOverflow, Bind.bind, Except.bind, summed]

theorem neverShort_planFrom (needed : I128) (lots : List Lot) :
    NeverShort (planFrom needed lots) := by
  induction lots generalizing needed with
  | nil => exact neverShort_ok []
  | cons lot lots ih =>
    simp only [planFrom]
    split
    · exact neverShort_ok []
    · exact neverShort_bind (neverShort_orOverflow _) fun still =>
        neverShort_bind (ih still) fun _ => neverShort_ok _

theorem neverShort_proRata (total part whole : I128) : NeverShort (proRata total part whole) :=
  neverShort_bind (neverShort_orOverflow _) fun _ => neverShort_orOverflow _

theorem neverShort_relieveLot (lot : Lot) (take : I128) : NeverShort (relieveLot lot take).2 := by
  unfold relieveLot
  split
  · rename_i e failed
    exact neverShort_error (neverShort_proRata _ _ _ e failed)
  · split
    · rename_i e failed
      exact neverShort_error (neverShort_proRata _ _ _ e failed)
    · dsimp only
      split
      · exact neverShort_error id
      · split
        · exact neverShort_ok _
        · exact neverShort_error id

theorem neverShort_relieveById (id : LotId) (take : I128) (lots : List Lot) :
    NeverShort (relieveById id take lots).2 := by
  induction lots with
  | nil => exact neverShort_error False.elim
  | cons lot lots ih =>
    simp only [relieveById]
    split
    · exact neverShort_relieveLot lot take
    · exact ih

theorem neverShort_relieveAll (lots : List Lot) (plan : ReliefPlan) :
    NeverShort (relieveAll lots plan).2 := by
  induction plan generalizing lots with
  | nil => exact neverShort_ok []
  | cons entry plan ih =>
    obtain ⟨id, take⟩ := entry
    simp only [relieveAll]
    split
    · rename_i out e failed
      exact neverShort_error (neverShort_relieveById id take lots e (by rw [failed]))
    · rename_i out relief done
      split
      · rename_i left e failed
        exact neverShort_error (ih out e (by rw [failed]))
      · exact neverShort_ok _

namespace LotBook

theorem neverShort_checkCurrency (lots : List Lot) (currency : AssetId) (plan : ReliefPlan) :
    NeverShort (checkCurrency lots currency plan) := by
  induction plan with
  | nil => exact neverShort_ok ()
  | cons entry plan ih =>
    simp only [checkCurrency]
    split
    · exact neverShort_error id
    · split
      · exact neverShort_error id
      · exact ih

theorem neverShort_basisCurrency (book : LotBook) (plan : ReliefPlan) :
    NeverShort (book.basisCurrency plan) := by
  unfold basisCurrency
  split
  · exact neverShort_error id
  · split
    · exact neverShort_error id
    · exact neverShort_bind (neverShort_checkCurrency _ _ _) fun _ => neverShort_ok _

theorem neverShort_sumBasis (total : AssetAmount) (reliefs : List LotRelief) :
    NeverShort (sumBasis total reliefs) := by
  induction reliefs generalizing total with
  | nil => exact neverShort_ok total
  | cons relief reliefs ih =>
    simp only [sumBasis]
    split
    · exact neverShort_error id
    · exact ih _

theorem neverShort_realize (method : ReliefMethod) (policyHash : ContentHash)
    (proceeds : AssetAmount) (currency : AssetId) (reliefs : List LotRelief) :
    NeverShort (realize method policyHash proceeds currency reliefs) := by
  refine neverShort_bind (neverShort_sumBasis _ _) fun total => ?_
  split
  · exact neverShort_error id
  · exact neverShort_ok _

theorem dispose_short_iff {book : LotBook} {asset : AssetId} {venue : VenueId} {atoms : I128}
    {method : ReliefMethod} {policyHash : ContentHash} {proceeds : AssetAmount} {e : LotError}
    (short : e.Short) :
    (book.dispose asset venue atoms method policyHash proceeds).2 = .error e ↔
      book.planRelief asset venue atoms method = .error e := by
  unfold dispose
  cases planning : book.planRelief asset venue atoms method with
  | error other => simp
  | ok plan =>
    refine iff_of_false (fun failed => ?_) (by simp)
    suffices never : NeverShort _ from never e failed short
    dsimp only
    split
    · rename_i other checked
      exact neverShort_error (neverShort_basisCurrency book plan other checked)
    · split
      · exact neverShort_error id
      · have relieving := neverShort_relieveAll book.lots plan
        unfold applyRelief
        cases relieved : relieveAll book.lots plan with
        | mk out result =>
          rw [relieved] at relieving
          cases result with
          | error other => exact neverShort_error (relieving other rfl)
          | ok reliefs => exact neverShort_realize _ _ _ _ _

theorem fifo_short_iff {book : LotBook} {asset : AssetId} {venue : VenueId} {atoms : I128}
    (nonneg : ∀ l ∈ book.lots, 0 ≤ l.atoms.val)
    (fits : totalAtoms (fifoQueue book.lots asset venue) < 2 ^ 127) {requested available : I128} :
    book.planRelief asset venue atoms .fifo = .error (.insufficientQuantity requested available) ↔
      0 < atoms.val ∧ requested = atoms ∧
        available.val = totalAtoms (fifoQueue book.lots asset venue) ∧ available < atoms := by
  have inQueue (l) (h : l ∈ fifoQueue book.lots asset venue) : 0 ≤ l.atoms.val :=
    nonneg l (mem_fifoQueue.mp h).1
  obtain ⟨sum, summed, total⟩ := sumAtoms_fits inQueue (le_refl (0 : I128).val) (by simpa using fits)
  rw [I128.zero_val, zero_add] at total
  unfold planRelief
  split
  · rename_i nonPositive
    have : ¬0 < atoms.val := not_lt.mpr nonPositive
    simp [this]
  · rename_i positive
    have : 0 < atoms.val := not_le.mp positive
    have accepted : candidates book.lots asset venue .fifo = .ok (fifoQueue book.lots asset venue) :=
      rfl
    simp only [accepted, summed, Bind.bind, Except.bind, this, true_and]
    split
    · rename_i less
      rw [Except.error.injEq, LotError.insufficientQuantity.injEq]
      constructor
      · rintro ⟨rfl, rfl⟩
        exact ⟨rfl, total, less⟩
      · rintro ⟨rfl, same, _⟩
        exact ⟨rfl, Bounded.ext_val (total.trans same.symm)⟩
    · rename_i enough
      refine iff_of_false (fun failed => neverShort_planFrom _ _ _ failed trivial) ?_
      rintro ⟨_, same, less⟩
      exact enough (Bounded.ext_val (total.trans same.symm) ▸ less)

theorem dispose_fifoRelief {book : LotBook} (distinct : (book.lots.map Lot.lotId).Nodup)
    (positive : ∀ l ∈ book.lots, 0 < l.atoms.val) (nonneg : ∀ l ∈ book.lots, l.NonNegative)
    {asset : AssetId} {venue : VenueId} {atoms : I128} {policyHash : ContentHash}
    {proceeds : AssetAmount} {d : DisposalResult}
    (disposed : (book.dispose asset venue atoms .fifo policyHash proceeds).2 = .ok d) :
    ∃ earlier last later left relief, FifoRelief book.lots
      (book.dispose asset venue atoms .fifo policyHash proceeds).1.lots asset venue d.reliefs
      earlier last later left relief := by
  obtain ⟨plan, out, planned, relieving, after, _⟩ := dispose_eq_ok disposed
  have run := planRelief_relieves nonneg (agree_of_distinct distinct) planned
  obtain ⟨some, ordered, available, accepted, summed, enough, planned⟩ :=
    planRelief_eq_ok.mp planned
  obtain rfl : fifoQueue book.lots asset venue = ordered := Except.ok.inj accepted
  have total := sumAtoms_total summed
  rw [I128.zero_val, zero_add] at total
  obtain ⟨earlier, last, later, take, split, rfl⟩ :=
    planFrom_split some (total ▸ Bounded.le_def.mp enough) planned
  rw [relieving] at run
  obtain ⟨left, relief, relieved⟩ := fifoRelief distinct positive split run
  rw [after]
  exact ⟨earlier, last, later, left, relief, relieved⟩

/-- A disposal under FIFO relieves the queue from its front and says what it took, and it falls
short exactly when less is there than is asked for. -/
theorem fifo_exact {book : LotBook} (distinct : (book.lots.map Lot.lotId).Nodup)
    (positive : ∀ l ∈ book.lots, 0 < l.atoms.val)
    (money : ∀ l ∈ book.lots, 0 ≤ l.costBasis.atoms.val ∧ 0 ≤ l.acquisitionFee.atoms.val)
    (asset : AssetId) (venue : VenueId) (atoms : I128) (policyHash : ContentHash)
    (proceeds : AssetAmount) :
    (∀ d, (book.dispose asset venue atoms .fifo policyHash proceeds).2 = .ok d →
      (d.reliefs.map fun r => r.atoms.val).sum = atoms.val ∧
      ∃ earlier last later left relief, FifoRelief book.lots
        (book.dispose asset venue atoms .fifo policyHash proceeds).1.lots asset venue d.reliefs
        earlier last later left relief) ∧
    (totalAtoms (book.lots.filter fun l => l.asset = asset ∧ l.venue = venue) < 2 ^ 127 →
      ((∃ requested available, (book.dispose asset venue atoms .fifo policyHash proceeds).2 =
          .error (.insufficientQuantity requested available)) ↔
        0 < atoms.val ∧
          totalAtoms (book.lots.filter fun l => l.asset = asset ∧ l.venue = venue) < atoms.val) ∧
      ∀ requested available, (book.dispose asset venue atoms .fifo policyHash proceeds).2 =
          .error (.insufficientQuantity requested available) →
        requested = atoms ∧ available.val =
          totalAtoms (book.lots.filter fun l => l.asset = asset ∧ l.venue = venue)) := by
  have nonneg (l) (h : l ∈ book.lots) : l.NonNegative :=
    ⟨(positive l h).le, (money l h).1, (money l h).2⟩
  have sameTotal : totalAtoms (fifoQueue book.lots asset venue) =
      totalAtoms (book.lots.filter fun l => l.asset = asset ∧ l.venue = venue) :=
    totalAtoms_perm (sortBy_perm lotKey _)
  constructor
  · intro d disposed
    have balanced := dispose_balanced nonneg (agree_of_distinct distinct) disposed
    exact ⟨balanced.atoms, dispose_fifoRelief distinct positive nonneg disposed⟩
  · intro fits
    rw [← sameTotal] at fits ⊢
    have short (requested available : I128) :=
      (@dispose_short_iff book asset venue atoms .fifo policyHash proceeds
        (.insufficientQuantity requested available) trivial).trans
        (fifo_short_iff (fun l h => (nonneg l h).atoms) fits)
    simp only [short]
    have inRange : 0 ≤ totalAtoms (fifoQueue book.lots asset venue) :=
      totalAtoms_nonneg fun l queued => (positive l (mem_fifoQueue.mp queued).1).le
    constructor
    · constructor
      · rintro ⟨requested, available, some, rfl, total, less⟩
        exact ⟨some, total ▸ Bounded.lt_def.mp less⟩
      · rintro ⟨some, less⟩
        obtain ⟨available, total⟩ := @I128.exists_val _ (by omega) fits
        exact ⟨atoms, available, some, rfl, total, Bounded.lt_def.mpr (total ▸ less)⟩
    · rintro requested available ⟨_, rfl, total, _⟩
      exact ⟨rfl, total⟩

def hundredAt (id : UInt8) (acquiredAt : TimestampNs) : Lot :=
  ⟨.filled id, ⟨"acme"⟩, ⟨"BTC"⟩, ⟨"exchange"⟩, .literal 100,
    ⟨⟨"USD"⟩, .literal 100⟩, ⟨⟨"USD"⟩, 0⟩, acquiredAt, .filled 0, none⟩

def twoHundred : LotBook :=
  ⟨⟨"acme"⟩, [hundredAt 1 ⟨.literal 20⟩, hundredAt 2 ⟨.literal 10⟩]⟩

def sale (atoms : I128) : Except LotError DisposalResult :=
  (twoHundred.dispose ⟨"BTC"⟩ ⟨"exchange"⟩ atoms .fifo (.filled 9) ⟨⟨"USD"⟩, 0⟩).2

theorem fifo_exact_two :
    (∃ d, sale (.literal 150) = .ok d ∧
      (d.reliefs.map fun r => r.atoms.val).sum = 150) ∧
    ∃ requested available,
      sale (.literal 201) = .error (.insufficientQuantity requested available) := by
  have relief (atoms : I128) := @fifo_exact twoHundred (by decide) (by decide) (by decide)
    ⟨"BTC"⟩ ⟨"exchange"⟩ atoms (.filled 9) ⟨⟨"USD"⟩, 0⟩
  have sold : (sale (.literal 150)).isOk := by decide
  constructor
  · cases disposed : sale (.literal 150) with
    | error e => simp [disposed, Except.isOk, Except.toBool] at sold
    | ok d => exact ⟨d, rfl, ((relief _).1 d disposed).1⟩
  · exact ((relief _).2 (by decide)).1.mpr (by decide)

end LotBook

end Treasury
