import Treasury.Gaap.Bookable

/-! The lot book as the sub-ledger of the general ledger. Acquisitions and disposals are booked by
their entries, and the crypto account of an asset holds the open cost basis of its lots, and with
it the fees that were capitalized. -/
namespace Treasury
open Kit

structure AssetEntry where
  asset : AssetId
  entry : JournalEntry

def linesOf (k : AssetId × AssetId) (entries : List AssetEntry) : List JournalLine :=
  entries.flatMap fun e =>
    if e.asset = k.1 then e.entry.lines.filter (·.amount.asset = k.2) else []

/-- A call of the lot book, and what its entry is made under. -/
structure Trade where
  call : LotBook.Call
  treatment : FeeTreatment
  policyHash : ContentHash

namespace Trade

section
variable [External]

def step (book : LotBook) (t : Trade) : LotBook := book.step t.call

/-- An acquisition is booked at its cost, a disposal at what it realized, a transfer not at all. -/
def entry (book : LotBook) (t : Trade) : Except EntryError (Option AssetEntry) :=
  match t.call with
  | .acquire asset _ _ costBasis acquisitionFee _ _ => do
    let entry ← acquisitionEntry costBasis acquisitionFee t.treatment t.policyHash
    return some ⟨asset, entry⟩
  | .dispose asset venue atoms method policyHash proceeds =>
    match (book.dispose asset venue atoms method policyHash proceeds).2 with
    | .error _ => .ok none
    | .ok d => do
      let entry ← disposalEntry d.proceeds d.totalBasisRelieved t.policyHash
      return some ⟨asset, entry⟩
  | .transfer .. => .ok none

def entries : LotBook → List Trade → Except EntryError (List AssetEntry)
  | _, [] => .ok []
  | book, t :: rest => do
    let entry ← t.entry book
    let later ← entries (t.step book) rest
    return entry.toList ++ later

end

def capitalizedFee (k : AssetId × AssetId) (t : Trade) : Int :=
  match t.call with
  | .acquire asset _ _ costBasis acquisitionFee _ _ =>
    if (asset, costBasis.asset) = k then t.treatment.capitalized acquisitionFee.atoms else 0
  | _ => 0

def expensedFee (k : AssetId × AssetId) (t : Trade) : Int :=
  match t.call with
  | .acquire asset _ _ costBasis acquisitionFee _ _ =>
    if (asset, costBasis.asset) = k then t.treatment.expensed acquisitionFee.atoms else 0
  | _ => 0

def realizedGain (k : AssetId × AssetId) (book : LotBook) (t : Trade) : Int :=
  match t.call with
  | .dispose asset venue atoms method policyHash proceeds =>
    match (book.dispose asset venue atoms method policyHash proceeds).2 with
    | .ok d => if (asset, proceeds.asset) = k then d.realized.atoms.val else 0
    | .error _ => 0
  | _ => 0

end Trade

@[simp] theorem linesOf_nil (k : AssetId × AssetId) : linesOf k [] = [] := rfl

theorem linesOf_append (k : AssetId × AssetId) (es fs : List AssetEntry) :
    linesOf k (es ++ fs) = linesOf k es ++ linesOf k fs := List.flatMap_append

theorem linesOf_single {k : AssetId × AssetId} {asset currency : AssetId} {entry : JournalEntry}
    (balanced : Balanced currency entry.lines) :
    linesOf k [⟨asset, entry⟩] = if (asset, currency) = k then entry.lines else [] := by
  rw [linesOf, List.flatMap_singleton]
  by_cases same : (asset, currency) = k
  · subst same
    rw [if_pos rfl, if_pos rfl, List.filter_eq_self]
    exact fun l member => decide_eq_true (balanced.currency l member)
  · rw [if_neg same]
    split
    · rename_i mine
      refine List.filter_eq_nil_iff.mpr fun l member here => same (Prod.ext mine ?_)
      exact (balanced.currency l member).symm.trans (of_decide_eq_true here)
    · rfl

theorem cryptoDebits_single {k : AssetId × AssetId} {asset currency : AssetId}
    {entry : JournalEntry} {carrying income : Int} (posts : Posts currency carrying income entry.lines) :
    cryptoDebits (linesOf k [⟨asset, entry⟩]) = if (asset, currency) = k then carrying else 0 := by
  rw [linesOf_single posts.balanced]
  split
  · exact posts.carrying
  · rfl

theorem incomeCredits_single {k : AssetId × AssetId} {asset currency : AssetId}
    {entry : JournalEntry} {carrying income : Int} (posts : Posts currency carrying income entry.lines) :
    incomeCredits (linesOf k [⟨asset, entry⟩]) = if (asset, currency) = k then income else 0 := by
  rw [linesOf_single posts.balanced]
  split
  · exact posts.income
  · rfl

theorem sum_amounts_basis (reliefs : List LotRelief) :
    (reliefs.map LotRelief.amounts).sum.2.1 = recordedBasis reliefs := by
  induction reliefs with
  | nil => rfl
  | cons relief rest ih =>
    rw [List.map_cons, List.sum_cons, Prod.snd_add, Prod.fst_add, ih, recordedBasis, recordedBasis,
      List.map_cons, List.sum_cons]
    rfl

section
variable {book : LotBook} {k : AssetId × AssetId}

theorem relievedAmounts_basis (nonneg : ∀ l ∈ book.lots, l.NonNegative) (agree : Agree book.lots)
    {asset : AssetId} {venue : VenueId} {atoms : I128} {method : ReliefMethod}
    {policyHash : ContentHash} {proceeds : AssetAmount} {d : DisposalResult}
    (disposed : (book.dispose asset venue atoms method policyHash proceeds).2 = .ok d) :
    (book.relievedAmounts k (.dispose asset venue atoms method policyHash proceeds)).2.1 =
      if (asset, proceeds.asset) = k then d.totalBasisRelieved.atoms.val else 0 := by
  have balanced := LotBook.dispose_balanced nonneg agree disposed
  have unit : d.totalBasisRelieved.asset = proceeds.asset :=
    balanced.realized_asset.2.symm.trans (congrArg AssetAmount.asset balanced.proceeds_eq)
  simp only [LotBook.relievedAmounts, disposed]
  have alike : ∀ r ∈ d.reliefs, LotRelief.group asset r = (asset, proceeds.asset) :=
    fun r member => congrArg (Prod.mk asset) ((balanced.currency r member).trans unit)
  rw [tally_alike _ _ _ alike]
  split
  · rw [sum_amounts_basis, balanced.basis]
  · rfl

theorem acquisition_posts {basis fee : AssetAmount} (unit : fee.asset = basis.asset)
    {treatment : FeeTreatment} {policyHash : ContentHash} {entry : JournalEntry}
    (made : acquisitionEntry basis fee treatment policyHash = .ok entry) :
    Posts basis.asset (basis.atoms.val + treatment.capitalized fee.atoms)
      (-treatment.expensed fee.atoms) entry.lines := by
  obtain ⟨currency, basis⟩ := basis
  obtain ⟨other, fee⟩ := fee
  obtain rfl : other = currency := unit
  exact (acquisitionEntry_posts made).1

theorem disposal_posts {proceeds relieved : AssetAmount} (unit : relieved.asset = proceeds.asset)
    {policyHash : ContentHash} {entry : JournalEntry}
    (made : disposalEntry proceeds relieved policyHash = .ok entry) :
    Posts proceeds.asset (-relieved.atoms.val) (proceeds.atoms.val - relieved.atoms.val)
      entry.lines := by
  obtain ⟨currency, proceeds⟩ := proceeds
  obtain ⟨other, relieved⟩ := relieved
  obtain rfl : other = currency := unit
  exact (disposalEntry_posts made).1

variable [External]

/-- The entry of a call that succeeds moves the crypto account by what the open basis changes and
by a fee that is capitalized, and net income by what is realized less a fee that is expensed. -/
theorem Trade.entry_posts (nonneg : ∀ l ∈ book.lots, l.NonNegative) (agree : Agree book.lots)
    (tidy : ∀ l ∈ book.lots, l.Tidy) {t : Trade} (succeeds : book.Succeeds t.call)
    {made : Option AssetEntry} (booked : t.entry book = .ok made) :
    (∀ e ∈ made, ∃ currency, Balanced currency e.entry.lines) ∧
      cryptoDebits (linesOf k made.toList) =
        ((t.step book).openAmounts k).2.1 - (book.openAmounts k).2.1 + t.capitalizedFee k ∧
      incomeCredits (linesOf k made.toList) = t.realizedGain k book - t.expensedFee k := by
  have balance := congrArg (fun amounts : Amounts => amounts.2.1)
    (LotBook.amounts_step nonneg agree tidy k succeeds)
  simp only [Prod.snd_add, Prod.fst_add] at balance
  obtain ⟨call, treatment, policyHash⟩ := t
  cases call with
  | acquire asset venue atoms costBasis acquisitionFee acquiredAt sourceEvent =>
    obtain ⟨entry, builds, same⟩ := bind_eq_ok.mp booked
    cases pure_eq_ok.mp same
    have unit : acquisitionFee.asset = costBasis.asset := by
      cases acquired : (book.acquire asset venue atoms costBasis acquisitionFee acquiredAt
          sourceEvent).2 with
      | error e => simp [LotBook.Succeeds, LotBook.perform, acquired, Except.map] at succeeds
      | ok id => exact (LotBook.acquire_ok acquired).2.2.2.symm
    have posts := acquisition_posts unit builds
    refine ⟨?_, ?_, ?_⟩
    · rintro e ⟨⟩
      exact ⟨_, posts.balanced⟩
    · rw [Option.toList_some, cryptoDebits_single posts]
      simp only [LotBook.relievedAmounts, LotBook.acquiredAmounts, step, capitalizedFee] at balance ⊢
      split_ifs at balance ⊢ <;> simp only [Prod.snd_zero, Prod.fst_zero] at balance <;> omega
    · rw [Option.toList_some, incomeCredits_single posts]
      simp only [realizedGain, expensedFee]
      split_ifs <;> simp
  | dispose asset venue atoms method reliefPolicy proceeds =>
    cases disposed : (book.dispose asset venue atoms method reliefPolicy proceeds).2 with
    | error e => simp [LotBook.Succeeds, LotBook.perform, disposed, Except.map] at succeeds
    | ok d =>
      simp only [entry, disposed] at booked
      obtain ⟨entry, builds, same⟩ := bind_eq_ok.mp booked
      cases pure_eq_ok.mp same
      have settled := LotBook.dispose_balanced nonneg agree disposed
      have posts := disposal_posts settled.realized_asset.2.symm builds
      rw [settled.proceeds_eq] at posts
      refine ⟨?_, ?_, ?_⟩
      · rintro e ⟨⟩
        exact ⟨_, posts.balanced⟩
      · rw [Option.toList_some, cryptoDebits_single posts]
        rw [relievedAmounts_basis nonneg agree disposed] at balance
        simp only [LotBook.acquiredAmounts, Prod.snd_zero, Prod.fst_zero, step,
          capitalizedFee] at balance ⊢
        split_ifs at balance ⊢ <;> omega
      · rw [Option.toList_some, incomeCredits_single posts]
        have gain := settled.realized
        rw [settled.proceeds_eq] at gain
        simp only [realizedGain, disposed, expensedFee, sub_zero, gain]
  | transfer asset fromVenue toVenue atoms transferEvent =>
    cases booked
    refine ⟨fun e none => (Option.not_mem_none e none).elim, ?_, rfl⟩
    simp only [LotBook.relievedAmounts, LotBook.acquiredAmounts, Prod.snd_zero, Prod.fst_zero,
      step, capitalizedFee, Option.toList_none, linesOf_nil, cryptoDebits_nil] at balance ⊢
    omega

namespace Trade

/-- The facts that a call hashes are among those of which no two have one hash. -/
def Hashes (envelopes : Set Bytes) (book : LotBook) (t : Trade) : Prop :=
  ∀ o, book.Opens t.call o → o.bytes ∈ envelopes

def Succeeds (book : LotBook) (t : Trade) : Prop := book.Succeeds t.call

/-- A period of one tenant that every call of went well in, and its entries. -/
structure Period (envelopes : Set Bytes) (book : LotBook) (trades : List Trade)
    (made : List AssetEntry) : Prop where
  hashed : Along step (Hashes envelopes) book trades
  succeeds : Along step Succeeds book trades
  booked : entries book trades = .ok made

def acquiredBasis (k : AssetId × AssetId) (book : LotBook) (t : Trade) : Int :=
  (book.acquiredAmounts k t.call).2.1

def relievedBasis (k : AssetId × AssetId) (book : LotBook) (t : Trade) : Int :=
  (book.relievedAmounts k t.call).2.1

theorem acquiredBasis_nonneg {t : Trade} (succeeds : Succeeds book t) :
    0 ≤ acquiredBasis k book t := by
  obtain ⟨call, treatment, policyHash⟩ := t
  cases call with
  | acquire asset venue atoms costBasis acquisitionFee acquiredAt sourceEvent =>
    cases acquired : (book.acquire asset venue atoms costBasis acquisitionFee acquiredAt
        sourceEvent).2 with
    | error e => simp [Succeeds, LotBook.Succeeds, LotBook.perform, acquired, Except.map] at succeeds
    | ok id =>
      simp only [acquiredBasis, LotBook.acquiredAmounts]
      split_ifs
      · exact (LotBook.acquire_ok acquired).2.1
      · exact le_refl 0
  | dispose => exact le_refl 0
  | transfer => exact le_refl 0

omit [External] in
theorem relievedBasis_nonneg (nonneg : ∀ l ∈ book.lots, l.NonNegative) (agree : Agree book.lots)
    (t : Trade) : 0 ≤ relievedBasis k book t := by
  obtain ⟨call, treatment, policyHash⟩ := t
  cases call with
  | acquire => exact le_refl 0
  | dispose asset venue atoms method policyHash proceeds =>
    cases disposed : (book.dispose asset venue atoms method policyHash proceeds).2 with
    | error e => simp [relievedBasis, LotBook.relievedAmounts, disposed]
    | ok d =>
      obtain ⟨plan, out, planned, relieving, _⟩ := LotBook.dispose_eq_ok disposed
      have run := LotBook.planRelief_relieves nonneg agree planned
      rw [relieving] at run
      rw [relievedBasis, relievedAmounts_basis nonneg agree disposed]
      split_ifs
      · rw [(LotBook.dispose_balanced nonneg agree disposed).basis]
        exact recordedBasis_nonneg (LotBook.drawn_basis run.drawn)
      · exact le_refl 0
  | transfer => exact le_refl 0

variable {envelopes : Set Bytes} (injective : Set.InjOn sha256 envelopes)
include injective

omit injective in
theorem new_kept (envelopes : Set Bytes) (tenant : TenantId) :
    (LotBook.new tenant).Kept envelopes :=
  ⟨LotBook.new_sound envelopes tenant, by simp [LotBook.new]⟩

/-- Over a period the crypto account of an asset moves with the open basis and the capitalized
fees, and net income with the gains realized and the fees expensed. -/
theorem Period.posts {trades : List Trade} {made : List AssetEntry}
    (kept : book.Kept envelopes) (period : Period envelopes book trades made) :
    (∀ e ∈ made, ∃ currency, Balanced currency e.entry.lines) ∧
      cryptoDebits (linesOf k made) =
        ((run step book trades).openAmounts k).2.1 - (book.openAmounts k).2.1 +
          gathered step (fun _ => capitalizedFee k) book trades ∧
      incomeCredits (linesOf k made) =
        gathered step (fun book t => t.realizedGain k book) book trades -
          gathered step (fun _ => expensedFee k) book trades := by
  induction trades generalizing book made with
  | nil =>
    cases period.booked
    exact ⟨nofun, by simp [run, gathered], by simp [gathered]⟩
  | cons t rest ih =>
    obtain ⟨entry, first, more⟩ := bind_eq_ok.mp period.booked
    obtain ⟨later, tail, same⟩ := bind_eq_ok.mp more
    cases pure_eq_ok.mp same
    have next : (t.step book).Kept envelopes := LotBook.kept_step injective kept t.call period.hashed.1
    obtain ⟨balanced, carried, income⟩ := ih next ⟨period.hashed.2, period.succeeds.2, tail⟩
    obtain ⟨balancedNow, carriedNow, incomeNow⟩ :=
      @entry_posts book k _ kept.nonneg (kept.agree injective) kept.tidy t period.succeeds.1 _ first
    simp only [linesOf_append, cryptoDebits_append, incomeCredits_append, gathered, run]
    refine ⟨fun e member => ?_, by omega, by omega⟩
    rcases List.mem_append.mp member with now | afterwards
    · exact balancedNow e (Option.mem_toList.mp now)
    · exact balanced e afterwards

theorem Period.balance {trades : List Trade} {made : List AssetEntry}
    (kept : book.Kept envelopes) (period : Period envelopes book trades made) :
    ((run step book trades).openAmounts k).2.1 + gathered step (relievedBasis k) book trades =
      (book.openAmounts k).2.1 + gathered step (acquiredBasis k) book trades := by
  refine run_balanced step _ (LotBook.Kept envelopes) (fun book => (book.openAmounts k).2.1)
    (relievedBasis k) (acquiredBasis k)
    (fun _ t kept admitted => LotBook.kept_step injective kept t.call admitted.1)
    (fun book t kept admitted => ?_) trades book kept (period.hashed.and period.succeeds)
  have balance := congrArg (fun amounts : Amounts => amounts.2.1)
    (LotBook.amounts_step kept.nonneg (kept.agree injective) kept.tidy k admitted.2)
  exact balance

theorem Period.nonneg {trades : List Trade} {made : List AssetEntry}
    (kept : book.Kept envelopes) (period : Period envelopes book trades made) :
    0 ≤ gathered step (acquiredBasis k) book trades ∧
      0 ≤ gathered step (relievedBasis k) book trades := by
  constructor
  · exact gathered_nonneg step _ Succeeds (fun _ _ => acquiredBasis_nonneg) book trades period.succeeds
  · refine gathered_nonneg step _ (fun book _ => book.Kept envelopes)
      (fun book t kept => relievedBasis_nonneg kept.nonneg (kept.agree injective) t) book trades ?_
    exact along_guarded step (Hashes envelopes) _ (LotBook.Kept envelopes)
      (fun _ t kept hashed => LotBook.kept_step injective kept t.call hashed)
      (fun _ _ kept _ => kept) trades book kept period.hashed

/-- After any period whose calls all succeed and are all booked, the crypto account of an asset
in a currency holds the cost basis of the open lots and the fees that were capitalized, and net
income is what the disposals realized less the fees that were expensed. -/
theorem subledger_ties {tenant : TenantId} {trades : List Trade} {made : List AssetEntry}
    (period : Period envelopes (.new tenant) trades made) (k : AssetId × AssetId) :
    (∀ e ∈ made, ∃ currency, Balanced currency e.entry.lines) ∧
      cryptoDebits (linesOf k made) = ((run step (.new tenant) trades).openAmounts k).2.1 +
        gathered step (fun _ => capitalizedFee k) (.new tenant) trades ∧
      incomeCredits (linesOf k made) =
        gathered step (fun book t => t.realizedGain k book) (.new tenant) trades -
          gathered step (fun _ => expensedFee k) (.new tenant) trades := by
  obtain ⟨balanced, carried, income⟩ := period.posts (k := k) injective (new_kept envelopes tenant)
  refine ⟨balanced, ?_, income⟩
  simpa [LotBook.openAmounts, LotBook.new] using carried

end Trade

end

section
open LotBook

theorem not_opens_dispose (book : LotBook) (asset : AssetId) (venue : VenueId) (atoms : I128)
    (method : ReliefMethod) (policyHash : ContentHash) (proceeds : AssetAmount) (o : Opening) :
    ¬book.Opens (.dispose asset venue atoms method policyHash proceeds) o := by
  rintro (opens | ⟨plan, -, -, isMoved⟩)
  · contradiction
  · contradiction

def purchase : Trade := ⟨buy, .expense, .filled 8⟩

def sale : Trade :=
  ⟨.dispose bought.asset bought.venue forty .fifo (.filled 9) (usd 500), .expense, .filled 8⟩

theorem purchase_booked : ∃ entry, purchase.entry (.new ⟨"acme"⟩) = .ok entry := ⟨_, rfl⟩

variable [External]

theorem sale_booked : ∃ d entry,
    (dispose ⟨⟨"acme"⟩, [bought.opened]⟩ bought.asset bought.venue forty .fifo (.filled 9)
      (usd 500)).2 = .ok d ∧
    d.totalBasisRelieved.atoms.val = 400 ∧
    sale.entry ⟨⟨"acme"⟩, [bought.opened]⟩ = .ok entry := by
  obtain ⟨d, disposed, total⟩ := @dispose_single _ ⟨"acme"⟩ bought.opened forty (usd 500)
    (.filled 9) ⟨(by decide : 0 ≤ bought.atoms.val), (by decide : 0 ≤ bought.costBasis.atoms.val),
      (by decide : 0 ≤ bought.acquisitionFee.atoms.val)⟩
    (by decide) (by decide : forty ≤ bought.atoms)
    ⟨(by decide : 0 < bought.atoms.val),
      (by decide : bought.costBasis.atoms.val * forty.val < 2 ^ 127),
      (by decide : bought.acquisitionFee.atoms.val * forty.val < 2 ^ 127)⟩
    (by decide : bought.costBasis.asset = (usd 500).asset) (by decide)
  have relieved : d.totalBasisRelieved.atoms.val = 400 :=
    total.trans (by decide : share bought.costBasis.atoms forty bought.atoms = 400)
  have nonneg : ∀ l ∈ [bought.opened], l.NonNegative := List.forall_mem_singleton.mpr
    ⟨(by decide : 0 ≤ bought.atoms.val), (by decide : 0 ≤ bought.costBasis.atoms.val), le_rfl⟩
  have settled := dispose_balanced nonneg (agree_of_distinct (by simp)) disposed
  obtain ⟨entry, made, -⟩ := @disposalEntry_made d.proceeds d.totalBasisRelieved d.realized
    (.filled 8) (settled.proceeds_eq ▸ dispose_difference disposed) (settled.proceeds_eq ▸ by decide)
    (relieved ▸ by decide)
  refine ⟨d, some ⟨bought.asset, entry⟩, disposed, relieved, ?_⟩
  have ofLot : (dispose ⟨⟨"acme"⟩, [bought.opened]⟩ bought.asset bought.venue forty .fifo (.filled 9)
      (usd 500)).2 = .ok d := disposed
  simp only [sale, Trade.entry, ofLot, made]
  rfl

theorem period_sold : ∃ made,
    Trade.Period {bought.bytes} (.new ⟨"acme"⟩) [purchase, sale] made := by
  obtain ⟨first, booked⟩ := purchase_booked
  obtain ⟨d, second, disposed, -, sold⟩ := sale_booked
  have held : purchase.step (.new ⟨"acme"⟩) = ⟨⟨"acme"⟩, [bought.opened]⟩ :=
    step_buy (.new ⟨"acme"⟩) rfl
  refine ⟨first.toList ++ second.toList, ⟨?_, ?_, ?_⟩⟩
  · exact ⟨fun o opens => opens_buy rfl opens ▸ Set.mem_singleton _,
      fun o opens => absurd opens (not_opens_dispose _ _ _ _ _ _ _ o), trivial⟩
  · refine ⟨succeeds_buy, ?_, trivial⟩
    rw [held]
    simp only [Trade.Succeeds, LotBook.Succeeds, perform, sale, disposed]
    rfl
  · simp only [Trade.entries, held, booked, sold]
    exact congrArg (fun tail => Except.ok (first.toList ++ tail)) (List.append_nil _)

omit [External] in
/-- Six hundred of the thousand are still carried. -/
theorem subledger_ties_sold :
    letI : External := reference
    ∃ made, Trade.entries (.new ⟨"acme"⟩) [purchase, sale] = .ok made ∧
      cryptoDebits (linesOf (⟨"BTC"⟩, ⟨"USD"⟩) made) =
        ((run Trade.step (.new ⟨"acme"⟩) [purchase, sale]).openAmounts (⟨"BTC"⟩, ⟨"USD"⟩)).2.1 := by
  let _ : External := reference
  obtain ⟨made, period⟩ := period_sold
  obtain ⟨-, carried, -⟩ := Trade.subledger_ties (Set.injOn_singleton sha256 bought.bytes) period
    (⟨"BTC"⟩, ⟨"USD"⟩)
  have expensed : gathered Trade.step (fun _ => Trade.capitalizedFee (⟨"BTC"⟩, ⟨"USD"⟩))
      (.new ⟨"acme"⟩) [purchase, sale] = 0 := rfl
  exact ⟨made, period.booked, carried.trans (by rw [expensed, add_zero])⟩

end

end Treasury
