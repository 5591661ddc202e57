import Mathlib.Algebra.BigOperators.Group.Finset.Basic
import Treasury.Disclosure.Pack
import Treasury.Fairvalue.Transfers
import Treasury.Gaap.Subledger

/-! The close of a period. The positions of the valuation are marked in the general ledger from
their cost to their fair value, and what the crypto account of each asset then holds is what the
roll-forward row of the asset closes at and what the pack is tied to. -/
namespace Treasury
open Kit

def markEntries (policyHash : ContentHash) : List Position → Except EntryError (List AssetEntry)
  | [] => .ok []
  | p :: rest => do
    let entry ← remeasurementEntry p.costBasis p.fairValue policyHash
    let later ← markEntries policyHash rest
    return entry.toList.map (AssetEntry.mk p.asset) ++ later

def linesIn (currency : AssetId) (entries : List AssetEntry) : List JournalLine :=
  entries.flatMap fun e => e.entry.lines.filter (·.amount.asset = currency)

theorem AssetAmount.ext_val {a b : AssetAmount} (unit : a.asset = b.asset)
    (atoms : a.atoms.val = b.atoms.val) : a = b := by
  obtain ⟨asset, atoms⟩ := a
  exact congr (congrArg AssetAmount.mk unit) (Bounded.ext_val ‹_›)

section
variable {currency : AssetId} {policyHash : ContentHash}

theorem mark_posts {p : Position} (cost : p.costBasis.asset = currency)
    (fair : p.fairValue.asset = currency) {entry : Option JournalEntry}
    (made : remeasurementEntry p.costBasis p.fairValue policyHash = .ok entry) (asset : AssetId) :
    cryptoDebits (linesOf (asset, currency) (entry.toList.map (AssetEntry.mk p.asset))) =
        (if p.asset = asset then p.fairValue.atoms.val - p.costBasis.atoms.val else 0) ∧
      incomeCredits (linesOf (asset, currency) (entry.toList.map (AssetEntry.mk p.asset))) =
        if p.asset = asset then p.fairValue.atoms.val - p.costBasis.atoms.val else 0 := by
  obtain ⟨mine, atoms, ⟨c, before⟩, ⟨d, now⟩, unrealized⟩ := p
  obtain rfl : c = currency := cost
  obtain rfl : d = c := fair
  have posts := remeasurementEntry_posts made
  cases entry with
  | none =>
    have still : now.val - before.val = 0 := Int.sub_eq_zero.mpr posts
    simp [still]
  | some entry =>
    rw [Option.toList_some, List.map_singleton, cryptoDebits_single posts, incomeCredits_single posts]
    simp only [Prod.mk.injEq, and_true, and_self]

theorem markEntries_posts {positions : List Position} {marks : List AssetEntry}
    (made : markEntries policyHash positions = .ok marks)
    (units : ∀ p ∈ positions, p.costBasis.asset = currency ∧ p.fairValue.asset = currency)
    (asset : AssetId) :
    cryptoDebits (linesOf (asset, currency) marks) =
        tally Position.asset (fun p => p.fairValue.atoms.val - p.costBasis.atoms.val) asset positions ∧
      incomeCredits (linesOf (asset, currency) marks) =
        tally Position.asset (fun p => p.fairValue.atoms.val - p.costBasis.atoms.val) asset
          positions := by
  induction positions generalizing marks with
  | nil =>
    cases made
    exact ⟨rfl, rfl⟩
  | cons p rest ih =>
    obtain ⟨entry, first, more⟩ := bind_eq_ok.mp made
    obtain ⟨later, tail, same⟩ := bind_eq_ok.mp more
    cases pure_eq_ok.mp same
    obtain ⟨carried, income⟩ := ih tail fun q member => units q (List.mem_cons_of_mem p member)
    obtain ⟨cost, fair⟩ := units p List.mem_cons_self
    obtain ⟨carriedNow, incomeNow⟩ := mark_posts cost fair first asset
    rw [linesOf_append, cryptoDebits_append, incomeCredits_append, tally_cons, carried, income,
      carriedNow, incomeNow]
    exact ⟨rfl, rfl⟩

theorem cryptoDebits_linesOf (asset : AssetId) (entries : List AssetEntry) :
    cryptoDebits (linesOf (asset, currency) entries) = tally AssetEntry.asset
      (fun e => cryptoDebits (e.entry.lines.filter (·.amount.asset = currency))) asset entries := by
  induction entries with
  | nil => rfl
  | cons e rest ih =>
    rw [tally_cons, ← ih, linesOf, List.flatMap_cons, cryptoDebits_append]
    congr 1
    split <;> rfl

theorem cryptoDebits_linesIn (entries : List AssetEntry) :
    cryptoDebits (linesIn currency entries) = (entries.map fun e =>
      cryptoDebits (e.entry.lines.filter (·.amount.asset = currency))).sum := by
  induction entries with
  | nil => rfl
  | cons e rest ih => rw [linesIn, List.flatMap_cons, cryptoDebits_append, List.map_cons,
      List.sum_cons, ← ih, linesIn]

theorem tally_basis {lots : List Lot} (units : ∀ l ∈ lots, l.costBasis.asset = currency)
    (asset : AssetId) : (tally Lot.group Lot.amounts (asset, currency) lots).2.1 =
      basisOf lots asset := by
  have basis := map_tally Lot.asset Lot.amounts asset
    ((AddMonoidHom.fst Int Int).comp (AddMonoidHom.snd Int (Int × Int))) lots
  rw [tally_unit Lot.amounts units]
  exact basis

end

theorem ties_of_closings {v : Valuation} {pack : DisclosurePack}
    (same : ∀ asset, asset ∈ pack.rows.map RollForwardRow.asset ↔
      asset ∈ v.positions.map Position.asset)
    (closes : ∀ row ∈ pack.rows, ∀ p ∈ v.positions, row.asset = p.asset →
      row.closing = p.fairValue) : pack.tieToValuation v = [] := by
  refine tieToValuation_eq_nil.mpr ⟨fun p member => ?_, fun row member => ?_⟩
  · cases found : pack.rows.find? (·.asset = p.asset) with
    | none =>
      obtain ⟨row, inRows, mine⟩ :=
        List.mem_map.mp ((same p.asset).mpr (List.mem_map_of_mem member))
      exact absurd (decide_eq_true mine) (List.find?_eq_none.mp found row inRows)
    | some row =>
      have mine : row.asset = p.asset := by simpa using List.find?_some found
      exact ⟨row, rfl, closes row (List.mem_of_find?_eq_some found) p member mine⟩
  · exact List.mem_map.mp ((same row.asset).mp (List.mem_map_of_mem member))

/-- The general ledger after the close holds what the valuation says, asset by asset and in total,
and rows made of it roll and tie. -/
structure ClosedAt (currency : AssetId) (start : LotBook) (trades : List Trade) (v : Valuation)
    (all : List AssetEntry) [External] : Prop where
  carried : ∀ p ∈ v.positions,
    cryptoDebits (linesOf (p.asset, currency) all) = p.fairValue.atoms.val
  sold : ∀ asset, asset ∉ v.positions.map Position.asset →
    cryptoDebits (linesOf (asset, currency) all) = 0
  total : cryptoDebits (linesIn currency all) = v.totalFairValue.atoms.val
  income : ∀ asset, incomeCredits (linesOf (asset, currency) all) =
    gathered Trade.step (fun book t => t.realizedGain (asset, currency) book) start trades -
      gathered Trade.step (fun _ => Trade.expensedFee (asset, currency)) start trades +
      tally Position.asset (·.unrealized.atoms.val) asset v.positions
  rolls : ∀ p ∈ v.positions, 0 ≤ p.fairValue.atoms.val →
    ∀ additions disposals closing : I128, ∀ evidence,
    additions.val = gathered Trade.step (Trade.acquiredBasis (p.asset, currency)) start trades →
    disposals.val = gathered Trade.step (Trade.relievedBasis (p.asset, currency)) start trades →
    closing.val = cryptoDebits (linesOf (p.asset, currency) all) →
      ∃ row, RollForwardRow.new p.asset ⟨currency, 0⟩ ⟨currency, additions⟩ ⟨currency, disposals⟩
        p.unrealized ⟨currency, closing⟩ evidence = .ok row
  ties : ∀ pack : DisclosurePack,
    (∀ asset, asset ∈ pack.rows.map RollForwardRow.asset ↔
      asset ∈ v.positions.map Position.asset) →
    (∀ row ∈ pack.rows, row.closing.asset = currency ∧
      row.closing.atoms.val = cryptoDebits (linesOf (row.asset, currency) all)) →
    pack.tieToValuation v = []

section
variable [External] {envelopes : Set Bytes} (injective : Set.InjOn sha256 envelopes)
  {tenant : TenantId} {trades : List Trade} {made marks : List AssetEntry}
  {snapshot : PriceSnapshot} {election policyHash : ContentHash} {v : Valuation}

omit [External] in
theorem capitalizedFee_expense {t : Trade} (elected : t.treatment = .expense)
    (k : AssetId × AssetId) : t.capitalizedFee k = 0 := by
  unfold Trade.capitalizedFee
  cases t.call with
  | acquire => simp [elected, FeeTreatment.capitalized]
  | dispose => rfl
  | transfer => rfl

include injective

/-- Where fees are expensed the crypto account of an asset holds its open basis at the close. -/
theorem open_basis (period : Trade.Period envelopes (.new tenant) trades made)
    (expensed : ∀ t ∈ trades, t.treatment = .expense)
    (valued : valueBook (run Trade.step (.new tenant) trades) snapshot election = .ok v)
    (asset : AssetId) :
    ((run Trade.step (.new tenant) trades).openAmounts (asset, snapshot.currency)).2.1 =
        tally Position.asset (·.costBasis.atoms.val) asset v.positions ∧
      cryptoDebits (linesOf (asset, snapshot.currency) made) =
        tally Position.asset (·.costBasis.atoms.val) asset v.positions := by
  rw [valueBook_eq] at valued
  have positions := valueLots_valued valued
  have units := (valueLots_priceable valued).currency
  have listed : ((run Trade.step (.new tenant) trades).openAmounts (asset, snapshot.currency)).2.1 =
      basisOf (run Trade.step (.new tenant) trades).openLots asset := by
    rw [LotBook.openAmounts, ← tally_perm Lot.group Lot.amounts _ (sortBy_perm lotKey _)]
    exact tally_basis units asset
  have cost : basisOf (run Trade.step (.new tenant) trades).openLots asset =
      tally Position.asset (·.costBasis.atoms.val) asset v.positions := by
    by_cases held : asset ∈ v.positions.map Position.asset
    · obtain ⟨p, member, rfl⟩ := List.mem_map.mp held
      rw [tally_unique _ _ (positions.ordered.imp ne_of_lt) member]
      exact (positions.costBasis p member).2.symm
    · have none (l : Lot) (inLots : l ∈ (run Trade.step (.new tenant) trades).openLots)
          (same : l.asset = asset) : False := held ((positions.held asset).mpr ⟨l, inLots, same⟩)
      have absent (p : Position) (member : p ∈ v.positions) (same : p.asset = asset) : False :=
        held (same ▸ List.mem_map_of_mem member)
      rw [basisOf, tally_none _ _ _ none, tally_none _ _ _ absent]
  refine ⟨listed.trans cost, ?_⟩
  obtain ⟨-, carried, -⟩ := period.posts (k := (asset, snapshot.currency)) injective
    (Trade.new_kept envelopes tenant)
  have nothing : ((LotBook.new tenant).openAmounts (asset, snapshot.currency)).2.1 = 0 := rfl
  rw [carried, gathered_zero _ _ _ _ fun t member _ => capitalizedFee_expense (expensed t member) _,
    nothing, listed, cost, sub_zero, add_zero]

/-- Whatever a tenant bought, sold and moved, if every call went well and was booked with its fee
expensed and the positions of the valuation were marked, then the general ledger holds each asset
at its fair value and nothing for an asset that was sold, and all of it at the total of the
valuation; net income is what was realized less fees plus what is unrealized; and rows that close
at what the ledger holds roll and tie to the valuation. -/
theorem close_ties (period : Trade.Period envelopes (.new tenant) trades made)
    (expensed : ∀ t ∈ trades, t.treatment = .expense)
    (valued : valueBook (run Trade.step (.new tenant) trades) snapshot election = .ok v)
    (marked : markEntries policyHash v.positions = .ok marks) :
    ClosedAt snapshot.currency (.new tenant) trades v (made ++ marks) := by
  have positions := valueLots_valued ((valueBook_eq ..).symm.trans valued)
  have distinct : (v.positions.map Position.asset).Nodup := positions.ordered.imp ne_of_lt
  have units (p : Position) (member : p ∈ v.positions) := And.intro
    (positions.costBasis p member).1 (positions.fairValue p member).1
  have kept := Trade.new_kept envelopes tenant
  have held (asset : AssetId) : cryptoDebits (linesOf (asset, snapshot.currency) (made ++ marks)) =
      tally Position.asset (·.fairValue.atoms.val) asset v.positions := by
    rw [linesOf_append, cryptoDebits_append, (markEntries_posts marked units asset).1,
      (open_basis injective period expensed valued asset).2, ← tally_add]
    exact tally_congr _ _ fun p _ => add_sub_cancel _ _
  have carried (p : Position) (member : p ∈ v.positions) :
      cryptoDebits (linesOf (p.asset, snapshot.currency) (made ++ marks)) =
        p.fairValue.atoms.val := by
    rw [held, tally_unique _ _ distinct member]
  constructor
  case carried => exact carried
  case sold =>
    intro asset absent
    rw [held]
    exact tally_none _ _ _ fun p member same => absent (same ▸ List.mem_map_of_mem member)
  case total =>
    let assets := ((made ++ marks).map AssetEntry.asset ++ v.positions.map Position.asset).toFinset
    have booked : ∀ e ∈ made ++ marks, e.asset ∈ assets := fun e member =>
      List.mem_toFinset.mpr (List.mem_append_left _ (List.mem_map_of_mem member))
    have priced : ∀ p ∈ v.positions, p.asset ∈ assets := fun p member =>
      List.mem_toFinset.mpr (List.mem_append_right _ (List.mem_map_of_mem member))
    rw [cryptoDebits_linesIn, ← sum_tally _ _ booked, positions.totalFairValue.2,
      ← sum_tally _ _ priced]
    exact Finset.sum_congr rfl fun asset _ => (cryptoDebits_linesOf asset _).symm.trans (held asset)
  case income =>
    intro asset
    obtain ⟨-, -, income⟩ := period.posts (k := (asset, snapshot.currency)) injective kept
    rw [linesOf_append, incomeCredits_append, income, (markEntries_posts marked units asset).2]
    congr 1
    exact tally_congr _ _ fun p member => (positions.unrealized p member).2.symm
  case rolls =>
    intro p member fair additions disposals closing evidence added disposed closes
    obtain ⟨acquired, relieved⟩ :=
      period.nonneg (k := (p.asset, snapshot.currency)) injective kept
    have balance := period.balance (k := (p.asset, snapshot.currency)) injective kept
    have mark := (positions.unrealized p member).2
    have marks : p.unrealized = ⟨snapshot.currency, p.unrealized.atoms⟩ := by
      rw [← (positions.unrealized p member).1]
    rw [(open_basis injective period expensed valued p.asset).1,
      tally_unique _ _ distinct member, ← added, ← disposed] at balance
    rw [carried p member] at closes
    have nothing : ((LotBook.new tenant).openAmounts (p.asset, snapshot.currency)).2.1 = 0 := rfl
    have zero : (0 : I128).val = 0 := rfl
    have room := additions.upper
    refine ⟨_, (congrArg (RollForwardRow.new p.asset ⟨_, 0⟩ _ _ · _ evidence) marks).trans
      ((RollForwardRow.new_eq evidence (le_refl _) (added ▸ acquired) (disposed ▸ relieved)
        (closes ▸ fair) (by omega)).trans (if_pos (by omega)))⟩
  case ties =>
    intro pack same closes
    refine ties_of_closings same fun row inRows p member mine => ?_
    obtain ⟨unit, closing⟩ := closes row inRows
    rw [mine, carried p member] at closing
    exact AssetAmount.ext_val (unit.trans (units p member).2.symm) closing

end

open LotBook in
/-- What was bought for a thousand is carried at its fair value after the close. -/
theorem close_ties_bought :
    letI : External := reference
    ∃ made marks v, Trade.entries (.new ⟨"acme"⟩) [purchase] = .ok made ∧
      valueBook (run Trade.step (.new ⟨"acme"⟩) [purchase]) closingPrices (.filled 3) = .ok v ∧
      markEntries (.filled 8) v.positions = .ok marks ∧
      cryptoDebits (linesIn ⟨"USD"⟩ (made ++ marks)) = 1428 := by
  let _ : External := reference
  obtain ⟨made, booked⟩ := purchase_booked
  obtain ⟨v, valued, positions, total, -⟩ := valued_bought
  obtain ⟨marks, marked⟩ : ∃ marks, markEntries (.filled 8) v.positions = .ok marks :=
    positions ▸ ⟨_, rfl⟩
  have held : purchase.step (.new ⟨"acme"⟩) = ⟨⟨"acme"⟩, [bought.opened]⟩ :=
    step_buy (.new ⟨"acme"⟩) rfl
  have period : Trade.Period {bought.bytes} (.new ⟨"acme"⟩) [purchase] made.toList := by
    refine ⟨⟨fun o opens => opens_buy rfl opens ▸ Set.mem_singleton _, trivial⟩,
      ⟨succeeds_buy, trivial⟩, ?_⟩
    simp only [Trade.entries, booked]
    exact congrArg Except.ok (List.append_nil _)
  have ofRun : valueBook (run Trade.step (.new ⟨"acme"⟩) [purchase]) closingPrices (.filled 3) =
      .ok v := by rw [run, run, held, valued]
  have closed := close_ties (Set.injOn_singleton sha256 bought.bytes) period
    (List.forall_mem_singleton.mpr rfl) ofRun marked
  exact ⟨made.toList, marks, v, period.booked, ofRun, marked, closed.total.trans (by rw [total]; rfl)⟩

end Treasury
