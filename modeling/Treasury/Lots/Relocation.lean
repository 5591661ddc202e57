import Treasury.Lots.Conservation
import Treasury.Lots.Split

/-! A transfer before a sale. The lots that a transfer opens are what a sale of the same quantity
takes, so a sale of all of them, there, takes them whole and leaves the lots that a sale at the
first venue leaves. -/
namespace Treasury
open Kit

theorem planFrom_all {ordered : List Lot} {needed : I128} (positive : ∀ l ∈ ordered, 0 < l.atoms.val)
    (all : needed.val = totalAtoms ordered) :
    planFrom needed ordered = .ok (ordered.map fun l => (l.lotId, l.atoms)) := by
  induction ordered generalizing needed with
  | nil => rfl
  | cons lot ordered ih =>
    obtain ⟨here, later⟩ := List.forall_mem_cons.mp positive
    have rest := totalAtoms_nonneg fun l h => (later l h).le
    have whole := totalAtoms_cons lot ordered
    have upper := needed.upper
    obtain ⟨still, difference⟩ := @I128.exists_val (totalAtoms ordered) (by omega) (by omega)
    have nonzero : needed ≠ 0 := by
      rintro rfl
      rw [I128.zero_val] at all
      omega
    have takes : min needed lot.atoms = lot.atoms :=
      min_eq_right (Bounded.le_def.mpr (by omega))
    have left : needed.checkedSub lot.atoms = some still :=
      Bounded.checkedSub_eq_some.mpr (by omega)
    simp only [planFrom, nonzero, if_false, takes, left, orOverflow, Bind.bind, Except.bind,
      ih later difference, List.map_cons]
    rfl

theorem drawn_wholes {lots out whole : List Lot} {reliefs : List LotRelief}
    (distinct : (lots.map Lot.lotId).Nodup) (inLots : ∀ l ∈ whole, l ∈ lots)
    (drawn : List.Forall₂ (fun entry relief => ∃ lot left, Drawn lots out entry lot left relief)
      (whole.map fun l => (l.lotId, l.atoms)) reliefs) : reliefs = whole.map Lot.whole := by
  rw [List.forall₂_map_left_iff] at drawn
  induction drawn with
  | nil => rfl
  | cons first _ ih =>
    obtain ⟨here, later⟩ := List.forall_mem_cons.mp inLots
    obtain ⟨other, left, first⟩ := first
    obtain rfl := first.lot_eq distinct here
    rw [List.map_cons, ih later, first.whole.1]

namespace LotBook

theorem checkCurrency_ok {lots : List Lot} {currency : AssetId} {plan : ReliefPlan}
    (same : ∀ entry ∈ plan, ∃ lot, findLot lots entry.1 = some lot ∧
      lot.costBasis.asset = currency) : checkCurrency lots currency plan = .ok () := by
  induction plan with
  | nil => rfl
  | cons entry plan ih =>
    obtain ⟨⟨lot, found, isCurrency⟩, later⟩ := List.forall_mem_cons.mp same
    simp only [checkCurrency, found, isCurrency, ne_eq, not_true_eq_false, if_false]
    exact ih later

theorem basisCurrency_ok {book : LotBook} {currency : AssetId} {plan : ReliefPlan}
    (planned : plan ≠ []) (same : ∀ entry ∈ plan, ∃ lot, findLot book.lots entry.1 = some lot ∧
      lot.costBasis.asset = currency) : book.basisCurrency plan = .ok currency := by
  cases plan with
  | nil => contradiction
  | cons entry plan =>
    obtain ⟨lot, found, isCurrency⟩ := same entry List.mem_cons_self
    simp only [basisCurrency, found, isCurrency, checkCurrency_ok same, Bind.bind, Except.bind]
    rfl

/-- A disposal asks for all that a venue has of an asset, and it can be settled. -/
structure SellsOut (book : LotBook) (asset : AssetId) (venue : VenueId) (atoms : I128)
    (proceeds : AssetAmount) : Prop where
  positive : 0 < atoms.val
  all : atoms.val = totalAtoms (fifoQueue book.lots asset venue)
  able : ∀ l ∈ fifoQueue book.lots asset venue, Relievable l l.atoms
  currency : ∀ l ∈ fifoQueue book.lots asset venue, l.costBasis.asset = proceeds.asset
  fits : ((fifoQueue book.lots asset venue).map fun l => l.costBasis.atoms.val).sum < 2 ^ 127
  gainFits : -2 ^ 127 ≤ proceeds.atoms.val -
    ((fifoQueue book.lots asset venue).map fun l => l.costBasis.atoms.val).sum

namespace SellsOut

variable {book : LotBook} {asset : AssetId} {venue : VenueId} {atoms : I128}
  {proceeds : AssetAmount}

def plan (book : LotBook) (asset : AssetId) (venue : VenueId) : ReliefPlan :=
  (fifoQueue book.lots asset venue).map fun l => (l.lotId, l.atoms)

theorem found (orderly : Orderly book.lots) :
    ∀ l ∈ fifoQueue book.lots asset venue, findLot book.lots l.lotId = some l :=
  fun _ queued => findLot_of_mem orderly.distinct (mem_fifoQueue.mp queued).1

theorem planned (h : book.SellsOut asset venue atoms proceeds) (orderly : Orderly book.lots) :
    book.planRelief asset venue atoms .fifo = .ok (plan book asset venue) := by
  have positive (l) (queued : l ∈ fifoQueue book.lots asset venue) : 0 < l.atoms.val :=
    orderly.positive l (mem_fifoQueue.mp queued).1
  have upper := atoms.upper
  obtain ⟨available, summed, total⟩ := @sumAtoms_fits (fifoQueue book.lots asset venue) 0
    (fun l queued => (positive l queued).le) le_rfl (by
      rw [I128.zero_val, zero_add, ← h.all]
      exact upper)
  rw [I128.zero_val, zero_add, ← h.all] at total
  obtain rfl := Bounded.ext_val total
  exact planRelief_eq_ok.mpr
    ⟨h.positive, _, available, rfl, summed, le_rfl, planFrom_all positive h.all⟩

theorem queue_ne_nil (h : book.SellsOut asset venue atoms proceeds) :
    fifoQueue book.lots asset venue ≠ [] := by
  intro none
  have all := h.all
  have positive := h.positive
  rw [none] at all
  simp only [totalAtoms, List.map_nil, List.sum_nil] at all
  omega

theorem checked (h : book.SellsOut asset venue atoms proceeds) (orderly : Orderly book.lots) :
    book.basisCurrency (plan book asset venue) = .ok proceeds.asset := by
  apply basisCurrency_ok
  · exact fun none => h.queue_ne_nil (List.map_eq_nil_iff.mp none)
  · intro entry inPlan
    obtain ⟨l, queued, rfl⟩ := List.mem_map.mp inPlan
    exact ⟨l, found orderly l queued, h.currency l queued⟩

theorem carried (h : book.SellsOut asset venue atoms proceeds) (orderly : Orderly book.lots) :
    Carried book.lots (plan book asset venue) := by
  constructor
  · rw [plan, List.map_map]
    exact fifoQueue_distinct orderly.distinct asset venue
  · intro entry inPlan
    obtain ⟨l, queued, rfl⟩ := List.mem_map.mp inPlan
    exact ⟨l, found orderly l queued, h.able l queued⟩

theorem relievedBasis_eq (h : book.SellsOut asset venue atoms proceeds)
    (orderly : Orderly book.lots) : relievedBasis book.lots (plan book asset venue) =
      ((fifoQueue book.lots asset venue).map fun l => l.costBasis.atoms.val).sum := by
  rw [relievedBasis, plan, List.map_map]
  congr 1
  apply List.map_congr_left
  intro l queued
  simp only [Function.comp_apply, found orderly l queued]
  exact share_whole (h.able l queued).1

theorem leaves (h : book.SellsOut asset venue atoms proceeds) (orderly : Orderly book.lots)
    {policyHash : ContentHash} {out : LotBook} {d : DisposalResult}
    (disposed : book.dispose asset venue atoms .fifo policyHash proceeds = (out, .ok d)) :
    out.lots = book.lots.filter fun l => ¬(l.asset = asset ∧ l.venue = venue) := by
  obtain ⟨drawn, _⟩ := dispose_draught orderly disposed
  have weights : ((fifoQueue book.lots asset venue).map (Lot.parcel Lot.costBasis)).map
      Parcel.weight = (fifoQueue book.lots asset venue).map fun l => l.atoms.val := by
    rw [List.map_map]
    rfl
  have heavy : ∀ p ∈ (fifoQueue book.lots asset venue).map (Lot.parcel Lot.costBasis),
      0 < p.weight :=
    List.forall_mem_map.mpr fun l queued => orderly.positive l (mem_fifoQueue.mp queued).1
  have emptied : fifoQueue out.lots asset venue = [] := by
    have left := drawn.left prorated_basis
    obtain ⟨_, rest⟩ := @drain_front _ _ [] 0 heavy le_rfl
    rw [List.append_nil, add_zero, weights] at rest
    rw [h.all, totalAtoms, rest] at left
    exact List.map_eq_nil_iff.mp left
  apply eq_of_keys_sublist orderly.distinct drawn.kept (List.filter_sublist.map _)
  intro l
  rw [List.mem_filter, decide_eq_true_iff]
  by_cases here : l.asset = asset ∧ l.venue = venue
  · apply iff_of_false
    · intro remains
      have queued := mem_fifoQueue.mpr ⟨remains, here⟩
      rw [emptied] at queued
      contradiction
    · exact fun kept => kept.2 here
  · exact (drawn.others l here).trans (and_iff_left here).symm

end SellsOut

section
variable [External]

theorem dispose_all {book : LotBook} (orderly : Orderly book.lots) {asset : AssetId}
    {venue : VenueId} {atoms : I128} {proceeds : AssetAmount}
    (h : book.SellsOut asset venue atoms proceeds) (policyHash : ContentHash) :
    ∃ d, book.dispose asset venue atoms .fifo policyHash proceeds =
        (⟨book.tenant, book.lots.filter fun l => ¬(l.asset = asset ∧ l.venue = venue)⟩, .ok d) ∧
      d.reliefs = (fifoQueue book.lots asset venue).map Lot.whole := by
  have agree := agree_of_distinct orderly.distinct
  have settled : book.Settles (SellsOut.plan book asset venue)
      (.dispose asset venue atoms .fifo policyHash proceeds) := by
    rw [Settles, h.relievedBasis_eq orderly]
    exact ⟨h.fits, h.gainFits⟩
  have planned : book.Planned (.dispose asset venue atoms .fifo policyHash proceeds)
      (SellsOut.plan book asset venue) := ⟨h.planned orderly, h.checked orderly⟩
  have succeeds := succeeds_of_carried orderly.nonneg agree planned (h.carried orderly) settled
  cases disposing : book.dispose asset venue atoms .fifo policyHash proceeds with
  | mk out result =>
    cases result with
    | error e => simp [Succeeds, perform, disposing, Except.map] at succeeds
    | ok d =>
      have accepted := congrArg Prod.snd disposing
      obtain ⟨other, left, plannedToo, relieving, after, _⟩ := dispose_eq_ok accepted
      obtain rfl := Except.ok.inj ((h.planned orderly).symm.trans plannedToo)
      have run := planRelief_relieves orderly.nonneg agree plannedToo
      rw [relieving] at run
      have tenant := congrArg LotBook.tenant after
      rw [disposing] at tenant
      have lots := h.leaves orderly disposing
      refine ⟨d, ?_, drawn_wholes orderly.distinct (fun l queued => (mem_fifoQueue.mp queued).1)
        run.drawn⟩
      cases out
      obtain rfl := tenant
      obtain rfl := lots
      rfl

end

def acquiredOf (lots : List Lot) (id : LotId) : TimestampNs :=
  match findLot lots id with
  | none => ⟨0⟩
  | some lot => lot.acquiredAt

def reopening (book : LotBook) (asset : AssetId) (toVenue : VenueId) (transferEvent : ContentHash)
    (relief : LotRelief) : Opening :=
  ⟨book.tenant, asset, toVenue, relief.atoms, relief.basisRelieved, relief.feeRelieved,
    acquiredOf book.lots relief.lotId, transferEvent, some relief.lotId⟩

def relievedLots (lots : List Lot) (reliefs : List LotRelief) : List Lot :=
  reliefs.filterMap fun r => findLot lots r.lotId

section
variable {book : LotBook} {out : List Lot} {plan : ReliefPlan} {reliefs : List LotRelief}
  (drawn : List.Forall₂ (fun entry relief => ∃ lot left, Drawn book.lots out entry lot left relief)
    plan reliefs)
include drawn

theorem reopenings_eq (asset : AssetId) (toVenue : VenueId) (transferEvent : ContentHash) :
    plan.filterMap (book.movedOpening asset toVenue transferEvent) =
      reliefs.map (book.reopening asset toVenue transferEvent) := by
  induction drawn with
  | nil => rfl
  | cons first _ ih =>
    obtain ⟨lot, left, drawn⟩ := first
    rw [List.filterMap_cons_some (movedOpening_drawn drawn asset toVenue transferEvent), ih,
      List.map_cons, reopening, acquiredOf, drawn.found_relief]

theorem drawn_lotIds : reliefs.map LotRelief.lotId = plan.map Prod.fst := by
  induction drawn with
  | nil => rfl
  | cons first _ ih =>
    obtain ⟨lot, left, drawn⟩ := first
    rw [List.map_cons, List.map_cons, ih, drawn.relieved.record, (findLot_mem drawn.found).2]

theorem relievedLots_acquired :
    (relievedLots book.lots reliefs).map Lot.acquiredAt =
      reliefs.map fun r => acquiredOf book.lots r.lotId := by
  induction drawn with
  | nil => rfl
  | @cons _ relief _ reliefs first _ ih =>
    obtain ⟨lot, left, drawn⟩ := first
    have named : relievedLots book.lots (relief :: reliefs) =
        lot :: relievedLots book.lots reliefs := by
      simp only [relievedLots, List.filterMap_cons, drawn.found_relief]
    rw [named, List.map_cons, List.map_cons, ih, acquiredOf, drawn.found_relief]

theorem drawn_relievable {relief : LotRelief} (h : relief ∈ reliefs) (asset : AssetId)
    (toVenue : VenueId) (transferEvent : ContentHash) (id : LotId) :
    ((book.reopening asset toVenue transferEvent relief).lot id).NonNegative ∧
      Relievable ((book.reopening asset toVenue transferEvent relief).lot id) relief.atoms := by
  obtain ⟨entry, _, lot, left, drawn⟩ := drawn_of_relief drawn h
  have taken : relief.atoms = entry.2 := by rw [drawn.relieved.record]
  have relieved := drawn.relieved
  have within := Bounded.le_def.mp drawn.within
  have positive := drawn.positive
  have scaled {total part : I128} (isShare : part.val = share total entry.2 lot.atoms)
      (nonneg : 0 ≤ total.val) (fits : total.val * entry.2.val < 2 ^ 127) :
      part.val * entry.2.val < 2 ^ 127 := by
    have most := isShare.trans_le (share_le nonneg drawn.able.1 within)
    exact (Int.mul_le_mul_of_nonneg_right most positive.le).trans_lt fits
  rw [← taken] at positive
  refine ⟨⟨positive.le, ?_, ?_⟩, positive, ?_, ?_⟩
  · exact relieved.basis_nonneg drawn.sound drawn.positive.le
  · exact relieved.fee_nonneg drawn.sound drawn.positive.le
  · rw [taken]
    exact scaled relieved.basisShare drawn.sound.basis drawn.able.2.1
  · rw [taken]
    exact scaled relieved.feeShare drawn.sound.fee drawn.able.2.2

end

section
variable [External]

def reopened (book : LotBook) (asset : AssetId) (toVenue : VenueId) (transferEvent : ContentHash)
    (reliefs : List LotRelief) : List Lot :=
  (reliefs.map (book.reopening asset toVenue transferEvent)).map Opening.opened

variable {book direct : LotBook} {asset : AssetId} {venue other : VenueId} {atoms : I128}
  {transferEvent policyHash : ContentHash} {proceeds : AssetAmount} {sold : DisposalResult}
  {envelopes : Set Bytes}

/-- The ids of the lots that are opened are new: they commit to the lots they come from and to
the venue, at which there are none. -/
theorem relocated_distinct (injective : Set.InjOn sha256 envelopes) {kept : List Lot}
    {reliefs : List LotRelief} (distinct : (kept.map Lot.lotId).Nodup)
    (descends : ∀ l ∈ kept, Descends envelopes l)
    (others : ∀ l ∈ kept, ¬(l.asset = asset ∧ l.venue = other))
    (apart : (reliefs.map LotRelief.lotId).Nodup)
    (hashed : ∀ r ∈ reliefs, (book.reopening asset other transferEvent r).bytes ∈ envelopes) :
    ((kept ++ book.reopened asset other transferEvent reliefs).map Lot.lotId).Nodup := by
  rw [List.map_append, List.nodup_append, reopened, List.map_map, List.map_map]
  refine ⟨distinct, ?_, ?_⟩
  · apply List.Nodup.map_on _ apart.of_map
    intro r hr s hs same
    have opening := Opening.bytes_injective (injective (hashed r hr) (hashed s hs) same)
    have named := Option.some.inj (congrArg Opening.movedFrom opening)
    exact List.inj_on_of_nodup_map apart hr hs named
  · intro id keptId id' movedId same
    obtain ⟨l, inKept, rfl⟩ := List.mem_map.mp keptId
    obtain ⟨r, inReliefs, rfl⟩ := List.mem_map.mp movedId
    obtain ⟨o, known, isId, isAsset, isVenue, _⟩ := descends l inKept
    have opening := Opening.bytes_injective
      (injective known (hashed r inReliefs) (isId.symm.trans same))
    exact others l inKept ⟨isAsset.trans (congrArg Opening.asset opening),
      isVenue.trans (congrArg Opening.venue opening)⟩

/-- The book after a transfer of what a disposal would take, to a venue with none of the asset. -/
structure Relocated (book direct relocated : LotBook) (asset : AssetId) (toVenue : VenueId)
    (transferEvent : ContentHash) (reliefs : List LotRelief) : Prop where
  tenant : relocated.tenant = direct.tenant
  lots_eq : relocated.lots = direct.lots ++ book.reopened asset toVenue transferEvent reliefs
  orderly : Orderly relocated.lots
  others : ∀ l ∈ direct.lots, ¬(l.asset = asset ∧ l.venue = toVenue)
  able : ∀ l ∈ book.reopened asset toVenue transferEvent reliefs, Relievable l l.atoms

theorem transfer_relocates (injective : Set.InjOn sha256 envelopes) (sound : book.Sound envelopes)
    (orderly : Orderly book.lots) (apart : other ≠ venue)
    (none : ∀ l ∈ book.lots, ¬(l.asset = asset ∧ l.venue = other))
    (hashed : ∀ o, book.Opens (.transfer asset venue other atoms transferEvent) o →
      o.bytes ∈ envelopes)
    (disposed : book.dispose asset venue atoms .fifo policyHash proceeds = (direct, .ok sold)) :
    ∃ relocated ids, book.transfer asset venue other atoms transferEvent = (relocated, .ok ids) ∧
      Relocated book direct relocated asset other transferEvent sold.reliefs := by
  have agree := agree_of_distinct orderly.distinct
  obtain ⟨plan, out, planned, relieving, after, _⟩ := dispose_eq_ok (congrArg Prod.snd disposed)
  rw [disposed] at after
  obtain rfl : direct = ⟨book.tenant, out.filter (0 < ·.atoms)⟩ := after
  have run := planRelief_relieves orderly.nonneg agree planned
  rw [relieving] at run
  have carried := run.ok_iff_carried.mp ⟨_, rfl⟩
  have opened := reopenings_eq run.drawn asset other transferEvent
  have transferred := transfer_relieved agree planned relieving run other transferEvent
  rw [opened] at transferred
  obtain ⟨drawn, _⟩ := dispose_draught orderly disposed
  have known (r) (h : r ∈ sold.reliefs) :
      (book.reopening asset other transferEvent r).bytes ∈ envelopes := by
    refine hashed _ (.inr ⟨plan, planned, carried, ?_⟩)
    rw [moved, opened]
    exact List.mem_map_of_mem h
  have others (l) (kept : l ∈ out.filter (0 < ·.atoms)) :
      ¬(l.asset = asset ∧ l.venue = other) := by
    intro there
    have elsewhere : ¬(l.asset = asset ∧ l.venue = venue) := fun here =>
      apart (there.2.symm.trans here.2)
    exact none l ((drawn.others l elsewhere).mp kept) there
  have descends (l) (kept : l ∈ out.filter (0 < ·.atoms)) : Descends envelopes l :=
    (sound.relieved run).descends l (List.mem_filter.mp kept).1
  have apartIds : (sold.reliefs.map LotRelief.lotId).Nodup :=
    drawn_lotIds run.drawn ▸ carried.distinct
  have fresh (l) (h : l ∈ book.reopened asset other transferEvent sold.reliefs) :
      l.NonNegative ∧ Relievable l l.atoms := by
    obtain ⟨o, isOpened, rfl⟩ := List.mem_map.mp h
    obtain ⟨r, inReliefs, rfl⟩ := List.mem_map.mp isOpened
    exact drawn_relievable run.drawn inReliefs asset other transferEvent _
  refine ⟨_, _, transferred, rfl, rfl, ?_, others, fun l h => (fresh l h).2⟩
  constructor
  · exact relocated_distinct injective drawn.orderly.distinct descends others apartIds known
  · exact List.forall_mem_append.mpr ⟨drawn.orderly.positive, fun l h => (fresh l h).2.1⟩
  · exact List.forall_mem_append.mpr ⟨drawn.orderly.basis, fun l h => (fresh l h).1.basis⟩
  · exact List.forall_mem_append.mpr ⟨drawn.orderly.fee, fun l h => (fresh l h).1.fee⟩

namespace Relocated

variable {relocated : LotBook} {reliefs : List LotRelief}

theorem reopened_there {l : Lot} (h : l ∈ book.reopened asset other transferEvent reliefs) :
    l.asset = asset ∧ l.venue = other := by
  obtain ⟨o, among, rfl⟩ := List.mem_map.mp h
  obtain ⟨r, _, rfl⟩ := List.mem_map.mp among
  exact ⟨rfl, rfl⟩

theorem book_left (h : Relocated book direct relocated asset other transferEvent reliefs) :
    (⟨relocated.tenant, relocated.lots.filter fun l => ¬(l.asset = asset ∧ l.venue = other)⟩ :
      LotBook) = direct := by
  rw [h.tenant, h.lots_eq, List.filter_append, List.filter_eq_self.mpr, List.filter_eq_nil_iff.mpr,
    List.append_nil]
  · intro l isOpened
    simp [reopened_there isOpened]
  · intro l kept
    exact decide_eq_true (h.others l kept)

theorem queue_perm
    (h : Relocated book direct relocated asset other transferEvent reliefs) :
    (fifoQueue relocated.lots asset other).Perm
      (book.reopened asset other transferEvent reliefs) := by
  have there : relocated.lots.filter (fun l => l.asset = asset ∧ l.venue = other) =
      book.reopened asset other transferEvent reliefs := by
    rw [h.lots_eq, List.filter_append, List.filter_eq_nil_iff.mpr, List.nil_append,
      List.filter_eq_self]
    · exact fun l isOpened => decide_eq_true (reopened_there isOpened)
    · exact fun l kept isThere => h.others l kept (of_decide_eq_true isThere)
  rw [fifoQueue, there]
  exact sortBy_perm lotKey _

theorem queue_sum (h : Relocated book direct relocated asset other transferEvent reliefs)
    {f : Lot → Int} {g : LotRelief → Int}
    (same : ∀ r, f (book.reopening asset other transferEvent r).opened = g r) :
    ((fifoQueue relocated.lots asset other).map f).sum = (reliefs.map g).sum := by
  rw [(h.queue_perm.map f).sum_eq, reopened, List.map_map, List.map_map]
  exact congrArg List.sum (List.map_congr_left fun r _ => same r)

theorem sellsOut (h : Relocated book direct relocated asset other transferEvent sold.reliefs)
    (positive : 0 < atoms.val) (balanced : Balanced sold atoms proceeds) :
    relocated.SellsOut asset other atoms proceeds := by
  have basis : ((fifoQueue relocated.lots asset other).map fun l => l.costBasis.atoms.val).sum =
      sold.totalBasisRelieved.atoms.val :=
    (h.queue_sum fun _ => rfl).trans balanced.basis.symm
  have quantity : totalAtoms (fifoQueue relocated.lots asset other) =
      (sold.reliefs.map fun r => r.atoms.val).sum := h.queue_sum fun _ => rfl
  have currency := balanced.realized_asset.2
  rw [balanced.proceeds_eq] at currency
  constructor
  · exact positive
  · exact balanced.atoms.symm.trans quantity.symm
  · exact fun l queued => h.able l (h.queue_perm.mem_iff.mp queued)
  · intro l queued
    obtain ⟨o, among, rfl⟩ := List.mem_map.mp (h.queue_perm.mem_iff.mp queued)
    obtain ⟨r, inReliefs, rfl⟩ := List.mem_map.mp among
    exact (balanced.currency r inReliefs).trans currency.symm
  · rw [basis]
    exact sold.totalBasisRelieved.atoms.upper
  · rw [basis, ← balanced.proceeds_eq, ← balanced.realized]
    exact sold.realized.atoms.lower

end Relocated

omit [External] in
theorem relievedLots_whole {lots whole : List Lot} (distinct : (lots.map Lot.lotId).Nodup)
    (inLots : ∀ l ∈ whole, l ∈ lots) : relievedLots lots (whole.map Lot.whole) = whole := by
  induction whole with
  | nil => rfl
  | cons l whole ih =>
    obtain ⟨here, later⟩ := List.forall_mem_cons.mp inLots
    have found : findLot lots l.whole.lotId = some l := findLot_of_mem distinct here
    have tail := ih later
    simp only [relievedLots] at tail
    simp only [relievedLots, List.map_cons, List.filterMap_cons, found, tail]

omit [External] in
theorem acquired_le_of_key {queue : List Lot}
    (strict : queue.Pairwise fun l m => lotKey l < lotKey m) :
    (queue.map Lot.acquiredAt).Pairwise (· ≤ ·) := by
  apply List.pairwise_map.mpr
  apply strict.imp
  intro l m below
  rcases Prod.Lex.toLex_lt_toLex.mp below with earlier | ⟨same, _⟩
  · exact earlier.le
  · exact same.le

omit [External] in
theorem relievedLots_ordered (orderly : Orderly book.lots)
    (disposed : book.dispose asset venue atoms .fifo policyHash proceeds = (direct, .ok sold)) :
    ((relievedLots book.lots sold.reliefs).map Lot.acquiredAt).Pairwise (· ≤ ·) := by
  obtain ⟨earlier, last, later, left, relief, relieved⟩ := dispose_fifoRelief orderly.distinct
    orderly.positive orderly.nonneg (congrArg Prod.snd disposed)
  have inLots (l) (h : l ∈ earlier ++ last :: later) : l ∈ book.lots := ((relieved.queue l).mp h).1
  have named : relievedLots book.lots sold.reliefs = earlier ++ [last] := by
    have found : findLot book.lots relief.lotId = some last := by
      rw [relieved.lastTaken.record]
      exact findLot_of_mem orderly.distinct (inLots last (by simp))
    rw [relieved.reliefs_eq, relievedLots, List.filterMap_append, ← relievedLots,
      relievedLots_whole orderly.distinct fun l early => inLots l (List.mem_append_left _ early)]
    simp only [List.filterMap_cons, found, List.filterMap_nil]
  rw [named]
  apply acquired_le_of_key
  exact relieved.ordered.sublist ((List.singleton_sublist.mpr List.mem_cons_self).append_left _)

omit [External] in
theorem Balanced.same {d e : DisposalResult} {atoms : I128} (hd : Balanced d atoms proceeds)
    (he : Balanced e atoms proceeds) (basis : recordedBasis d.reliefs = recordedBasis e.reliefs) :
    d.totalBasisRelieved = e.totalBasisRelieved ∧ d.realized = e.realized := by
  have ext {x y : AssetAmount} (asset : x.asset = y.asset) (atoms : x.atoms.val = y.atoms.val) :
      x = y := by
    cases x; cases y
    cases asset
    cases Bounded.ext_val atoms
    rfl
  have sameProceeds := hd.proceeds_eq.trans he.proceeds_eq.symm
  have total : d.totalBasisRelieved = e.totalBasisRelieved := by
    apply ext
    · rw [← hd.realized_asset.2, ← he.realized_asset.2, sameProceeds]
    · rw [hd.basis, he.basis, basis]
  have asset : d.realized.asset = e.realized.asset := by
    rw [hd.realized_asset.1, he.realized_asset.1, sameProceeds]
  have realized : d.realized.atoms.val = e.realized.atoms.val := by
    rw [hd.realized, he.realized, sameProceeds, total]
  exact ⟨total, ext asset realized⟩

/-- A disposal at the new venue of what was moved there, against one at the old. -/
theorem Relocated.disposes {relocated : LotBook} (orderly : Orderly book.lots)
    (disposed : book.dispose asset venue atoms .fifo policyHash proceeds = (direct, .ok sold))
    (h : Relocated book direct relocated asset other transferEvent sold.reliefs)
    (policyThere : ContentHash) :
    ∃ there, relocated.dispose asset other atoms .fifo policyThere proceeds = (direct, .ok there) ∧
      there.totalBasisRelieved = sold.totalBasisRelieved ∧
      there.totalFeeRelieved = sold.totalFeeRelieved ∧ there.realized = sold.realized ∧
      (relievedLots relocated.lots there.reliefs).map Lot.acquiredAt =
        (relievedLots book.lots sold.reliefs).map Lot.acquiredAt := by
  have accepted := congrArg Prod.snd disposed
  have balanced := dispose_balanced orderly.nonneg (agree_of_distinct orderly.distinct) accepted
  obtain ⟨plan, out, planned, relieving, _⟩ := dispose_eq_ok accepted
  have run := planRelief_relieves orderly.nonneg (agree_of_distinct orderly.distinct) planned
  rw [relieving] at run
  obtain ⟨there, disposedThere, whole⟩ := dispose_all h.orderly
    (h.sellsOut (planRelief_eq_ok.mp planned).1 balanced) policyThere
  rw [h.book_left] at disposedThere
  have balancedThere := dispose_balanced h.orderly.nonneg (agree_of_distinct h.orderly.distinct)
    (congrArg Prod.snd disposedThere)
  have basis : recordedBasis there.reliefs = recordedBasis sold.reliefs := by
    rw [recordedBasis, whole, List.map_map]
    exact h.queue_sum fun _ => rfl
  obtain ⟨total, realized⟩ := balancedThere.same balanced basis
  refine ⟨there, disposedThere, total, ?_, realized, ?_⟩
  · rw [DisposalResult.totalFeeRelieved, recorded, whole, List.map_map]
    exact h.queue_sum fun _ => rfl
  · -- both sides are in order of time, so it is enough that they have the same times
    have sameTimes : ((fifoQueue relocated.lots asset other).map Lot.acquiredAt).Perm
        ((relievedLots book.lots sold.reliefs).map Lot.acquiredAt) := by
      rw [relievedLots_acquired run.drawn]
      apply (h.queue_perm.map Lot.acquiredAt).trans
      apply List.Perm.of_eq
      rw [reopened, List.map_map, List.map_map]
      rfl
    rw [whole, relievedLots_whole h.orderly.distinct fun l queued => (mem_fifoQueue.mp queued).1]
    exact sameTimes.eq_of_pairwise (fun _ _ _ _ => le_antisymm)
      (acquired_le_of_key (fifoQueue_ordered h.orderly.distinct asset other))
      (relievedLots_ordered orderly disposed)

/-- A sale at another venue, after a transfer there, realizes what a sale at the first one
does, and leaves the same book. -/
theorem transfer_then_dispose (tenant : TenantId) (calls : List Call)
    (injective : Set.InjOn sha256 envelopes)
    (hashed : Along step (fun book call => ∀ o, book.Opens call o → o.bytes ∈ envelopes)
      (new tenant) (calls ++ [.transfer asset venue other atoms transferEvent]))
    (distinct : ((run step (new tenant) calls).lots.map Lot.lotId).Nodup)
    (positive : ∀ l ∈ (run step (new tenant) calls).lots, 0 < l.atoms.val) (apart : other ≠ venue)
    (none : ∀ l ∈ (run step (new tenant) calls).lots, ¬(l.asset = asset ∧ l.venue = other))
    {policyThere : ContentHash}
    (disposed : (run step (new tenant) calls).dispose asset venue atoms .fifo policyHash proceeds =
      (direct, .ok sold)) :
    ∃ relocated ids there,
      (run step (new tenant) calls).transfer asset venue other atoms transferEvent =
        (relocated, .ok ids) ∧
      relocated.dispose asset other atoms .fifo policyThere proceeds = (direct, .ok there) ∧
      there.totalBasisRelieved = sold.totalBasisRelieved ∧
      there.totalFeeRelieved = sold.totalFeeRelieved ∧ there.realized = sold.realized ∧
      (relievedLots relocated.lots there.reliefs).map Lot.acquiredAt =
        (relievedLots (run step (new tenant) calls).lots sold.reliefs).map Lot.acquiredAt := by
  obtain ⟨before, moves⟩ := (along_append _ _ _ _ _).mp hashed
  have sound := sound_calls injective tenant calls before
  have orderly : Orderly (run step (new tenant) calls).lots := ⟨distinct, positive,
    fun l h => (sound.nonneg l h).basis, fun l h => (sound.nonneg l h).fee⟩
  obtain ⟨relocated, ids, transferred, h⟩ :=
    transfer_relocates injective sound orderly apart none moves.1 disposed
  obtain ⟨there, disposes⟩ := h.disposes orderly disposed policyThere
  exact ⟨relocated, ids, there, transferred, disposes⟩

def custody : VenueId := ⟨"custody"⟩

def movedForty : Opening :=
  ⟨⟨"acme"⟩, bought.asset, custody, forty, ⟨⟨"USD"⟩, .literal 400⟩, ⟨⟨"USD"⟩, 0⟩,
    bought.acquiredAt, .filled 2, some bought.opened.lotId⟩

def moveForty : Call := .transfer bought.asset bought.venue custody forty (.filled 2)

theorem opens_moveForty {o : Opening} (opens : Opens ⟨⟨"acme"⟩, [bought.opened]⟩ moveForty o) :
    o = movedForty := by
  rcases opens with opens | ⟨plan, planned, _, isMoved⟩
  · contradiction
  · obtain rfl := Except.ok.inj (planned_some.1.symm.trans planned)
    have opened : movedOpening ⟨⟨"acme"⟩, [bought.opened]⟩ bought.asset custody (.filled 2)
        (bought.opened.lotId, forty) = some movedForty := by
      simp only [movedOpening, findLot_bought]
      rfl
    simpa [moved, moveForty, opened] using isMoved

end

/-- Forty sold at the exchange, and forty sold in custody after a transfer there. -/
theorem transfer_then_dispose_forty :
    letI : External := reference
    ∃ direct sold relocated ids there,
      dispose ⟨⟨"acme"⟩, [bought.opened]⟩ bought.asset bought.venue forty .fifo (.filled 9)
        ⟨⟨"USD"⟩, 0⟩ = (direct, .ok sold) ∧
      transfer ⟨⟨"acme"⟩, [bought.opened]⟩ bought.asset bought.venue custody forty (.filled 2) =
        (relocated, .ok ids) ∧
      relocated.dispose bought.asset custody forty .fifo (.filled 9) ⟨⟨"USD"⟩, 0⟩ =
        (direct, .ok there) ∧ there.realized = sold.realized := by
  let _ : External := reference
  have separate : Set.InjOn sha256 {bought.bytes, movedForty.bytes} := by
    have digests : sha256 bought.bytes ≠ sha256 movedForty.bytes := by
      simp only [Opening.bytes, toText, utf8_ofList]
      decide +kernel
    exact Set.injOn_pair.mpr fun same => absurd same digests
  have hashed : Along step (fun book call => ∀ o, book.Opens call o →
      o.bytes ∈ ({bought.bytes, movedForty.bytes} : Set Bytes)) (new ⟨"acme"⟩)
      ([buy] ++ [moveForty]) := by
    refine ⟨fun o opens => .inl (opens_buy rfl opens ▸ rfl), ?_, trivial⟩
    rw [step_buy (new ⟨"acme"⟩) rfl]
    exact fun o opens => .inr (opens_moveForty opens ▸ rfl)
  cases sale : dispose ⟨⟨"acme"⟩, [bought.opened]⟩ bought.asset bought.venue forty .fifo (.filled 9)
      ⟨⟨"USD"⟩, 0⟩ with
  | mk direct result =>
    cases result with
    | error e =>
      have succeeds := succeeds_sell
      simp [Succeeds, perform, sell, sale, Except.map] at succeeds
    | ok sold =>
      have disposed := sale
      rw [← run_buy] at disposed
      have apart : custody ≠ bought.venue := by decide
      obtain ⟨relocated, ids, there, transferred, disposedThere, _, _, realized, _⟩ :=
        @transfer_then_dispose _ _ _ _ custody _ _ _ _ _ _ ⟨"acme"⟩ [buy] separate hashed
          (by simp [run_buy]) (by rw [run_buy]; decide) apart (by
            rw [run_buy]
            exact List.forall_mem_singleton.mpr fun there => apart there.2.symm)
          (.filled 9) disposed
      rw [run_buy] at transferred
      exact ⟨direct, sold, relocated, ids, there, sale.symm ▸ rfl, transferred, disposedThere, realized⟩

end LotBook

end Treasury
