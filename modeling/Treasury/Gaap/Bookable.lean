import Treasury.Gaap.Module
import Treasury.Lots.Conservation

/-! Which purchases and sales that a lot book accepts have a journal entry. -/
namespace Treasury
open Kit

def JournalEntry.cashLines (entry : JournalEntry) : List JournalLine :=
  entry.lines.filter (·.line = .cash)

section
variable {basis fee : AssetAmount} {policyHash : ContentHash}

theorem balanced_iff {currency : AssetId} {lines : List JournalLine} :
    Balanced currency lines ↔ 2 ≤ lines.length ∧ (∀ l ∈ lines, l.amount.asset = currency) ∧
      (∀ l ∈ lines, 0 < l.amount.atoms.val) ∧
      tally JournalLine.side (·.amount.atoms.val) .debit lines =
        tally JournalLine.side (·.amount.atoms.val) .credit lines :=
  ⟨fun b => ⟨b.many, b.currency, b.positive, b.balanced⟩,
    fun ⟨many, currency, positive, balanced⟩ => ⟨many, currency, positive, balanced⟩⟩

theorem outlay_cases (basis fee : AssetAmount) :
    basis.atoms.checkedAdd fee.atoms = none ∧
        ¬(0 < basis.atoms.val + fee.atoms.val ∧ basis.atoms.val + fee.atoms.val < 2 ^ 127) ∨
      ∃ outlay, basis.atoms.checkedAdd fee.atoms = some outlay ∧
        outlay.val = basis.atoms.val + fee.atoms.val := by
  cases added : basis.atoms.checkedAdd fee.atoms with
  | some outlay => exact .inr ⟨outlay, rfl, (Bounded.checkedAdd_eq_some.mp added).symm⟩
  | none =>
    refine .inl ⟨rfl, fun ⟨above, below⟩ => ?_⟩
    obtain ⟨outlay, sum⟩ := @I128.exists_val _ (by omega) below
    rw [Bounded.checkedAdd_eq_some.mpr sum.symm] at added
    cases added

theorem capitalize_ok_iff :
    (∃ entry, acquisitionEntry basis fee .capitalize policyHash = .ok entry) ↔
      0 < basis.atoms.val + fee.atoms.val ∧ basis.atoms.val + fee.atoms.val < 2 ^ 127 := by
  unfold acquisitionEntry
  rcases outlay_cases basis fee with ⟨added, outside⟩ | ⟨outlay, added, sum⟩
  · simp only [added, reduceCtorEq, exists_false, outside]
  · have upper := outlay.upper
    simp only [added, List.cons_append, List.nil_append]
    rw [JournalEntry.new_ok_iff (by simpa [tally_cons] using upper), balanced_iff]
    simp [tally_cons, ← sum, upper]

theorem expense_ok_iff :
    (∃ entry, acquisitionEntry basis fee .expense policyHash = .ok entry) ↔
      basis.atoms.val + fee.atoms.val < 2 ^ 127 ∧ 0 < basis.atoms.val ∧ 0 ≤ fee.atoms.val ∧
        (0 < fee.atoms.val → fee.asset = basis.asset) := by
  unfold acquisitionEntry
  rcases outlay_cases basis fee with ⟨added, outside⟩ | ⟨outlay, added, sum⟩
  · simp only [added, reduceCtorEq, exists_false, false_iff]
    omega
  · have upper := outlay.upper
    have basisUpper := basis.atoms.upper
    simp only [added]
    by_cases charged : 0 < fee.atoms
    · have above : 0 < fee.atoms.val := charged
      simp only [charged, if_true, List.cons_append, List.nil_append]
      rw [JournalEntry.new_ok_iff (by simp [tally_cons]; omega), balanced_iff]
      by_cases same : fee.asset = basis.asset
      · simp [tally_cons, same]
        omega
      · simp [same, above]
    · have none : ¬0 < fee.atoms.val := charged
      simp only [charged, if_false, List.cons_append, List.nil_append]
      rw [JournalEntry.new_ok_iff (by simp [tally_cons]; omega), balanced_iff]
      simp [tally_cons]
      omega

/-- The cash line is the same whatever becomes of the fee. -/
theorem acquisitionEntry_cash {treatment : FeeTreatment} {entry : JournalEntry}
    (made : acquisitionEntry basis fee treatment policyHash = .ok entry) :
    ∃ outlay : I128, outlay.val = basis.atoms.val + fee.atoms.val ∧
      entry.cashLines = [⟨.credit, .cash, ⟨basis.asset, outlay⟩⟩] := by
  unfold acquisitionEntry at made
  rcases outlay_cases basis fee with ⟨added, -⟩ | ⟨outlay, added, sum⟩
  · simp [added] at made
  · simp only [added] at made
    refine ⟨outlay, sum, ?_⟩
    cases treatment with
    | capitalize =>
      obtain ⟨rfl, -⟩ := JournalEntry.new_ok made
      simp [JournalEntry.cashLines]
    | expense =>
      obtain ⟨rfl, -⟩ := JournalEntry.new_ok made
      by_cases charged : 0 < fee.atoms <;> simp [JournalEntry.cashLines, charged]

variable [External]

/-- An election of the fee treatment decides where the fee goes, and nothing else. -/
structure RoutesOnly (basis fee : AssetAmount) (policyHash : ContentHash) : Prop where
  together : (∃ entry, acquisitionEntry basis fee .capitalize policyHash = .ok entry) ↔
    ∃ entry, acquisitionEntry basis fee .expense policyHash = .ok entry
  outlay : ∀ capitalized expensed,
    acquisitionEntry basis fee .capitalize policyHash = .ok capitalized →
    acquisitionEntry basis fee .expense policyHash = .ok expensed →
      ∃ outlay : I128, outlay.val = basis.atoms.val + fee.atoms.val ∧
        capitalized.cashLines = [⟨.credit, .cash, ⟨basis.asset, outlay⟩⟩] ∧
        expensed.cashLines = [⟨.credit, .cash, ⟨basis.asset, outlay⟩⟩]
  refused : fee.asset ≠ basis.asset ∨ basis.atoms.val < 0 ∨ fee.atoms.val < 0 →
    ∀ treatment, ¬∃ entry, acquisitionEntry basis fee treatment policyHash = .ok entry
  accepted : ∀ (book : LotBook) asset venue atoms acquiredAt sourceEvent id,
    (book.acquire asset venue atoms basis fee acquiredAt sourceEvent).2 = .ok id →
    0 < basis.atoms.val + fee.atoms.val → basis.atoms.val + fee.atoms.val < 2 ^ 127 →
      ∀ treatment, ∃ entry, acquisitionEntry basis fee treatment policyHash = .ok entry

theorem LotBook.acquire_ok {book : LotBook} {asset : AssetId} {venue : VenueId} {atoms : I128}
    {acquiredAt : TimestampNs} {sourceEvent : ContentHash} {id : LotId}
    (acquired : (book.acquire asset venue atoms basis fee acquiredAt sourceEvent).2 = .ok id) :
    0 < atoms.val ∧ 0 ≤ basis.atoms.val ∧ 0 ≤ fee.atoms.val ∧ basis.asset = fee.asset := by
  unfold LotBook.acquire at acquired
  split at acquired
  · cases acquired
  · rename_i positive
    split at acquired
    · cases acquired
    · rename_i money
      split at acquired
      · cases acquired
      · rename_i same
        obtain ⟨basisSign, feeSign⟩ := not_or.mp money
        exact ⟨not_le.mp positive, not_lt.mp basisSign, not_lt.mp feeSign, not_not.mp same⟩

/-- The election routes and does no more exactly where the outlay is refused under both
treatments or the basis is positive, the fee is not negative and both have one currency. -/
theorem routesOnly_iff (basis fee : AssetAmount) (policyHash : ContentHash) :
    RoutesOnly basis fee policyHash ↔
      2 ^ 127 ≤ basis.atoms.val + fee.atoms.val ∨ basis.atoms.val + fee.atoms.val ≤ 0 ∨
        0 < basis.atoms.val ∧ 0 ≤ fee.atoms.val ∧ fee.asset = basis.asset := by
  constructor
  · rintro ⟨together, -, refused, -⟩
    rw [capitalize_ok_iff, expense_ok_iff] at together
    by_cases outside : 2 ^ 127 ≤ basis.atoms.val + fee.atoms.val ∨
        basis.atoms.val + fee.atoms.val ≤ 0
    · omega
    · have inside : 0 < basis.atoms.val + fee.atoms.val ∧
          basis.atoms.val + fee.atoms.val < 2 ^ 127 := by omega
      obtain ⟨-, above, notNegative, -⟩ := together.mp inside
      refine .inr (.inr ⟨above, notNegative, not_not.mp fun different => ?_⟩)
      exact refused (.inl different) .capitalize (capitalize_ok_iff.mpr inside)
  · intro condition
    constructor
    case together =>
      rw [capitalize_ok_iff, expense_ok_iff]
      rcases condition with large | none | ⟨above, notNegative, same⟩
      · omega
      · omega
      · simp only [same, above, notNegative, implies_true, and_true]
        omega
    case outlay =>
      intro capitalized expensed madeC madeE
      obtain ⟨outlay, sum, cash⟩ := acquisitionEntry_cash madeC
      obtain ⟨other, otherSum, otherCash⟩ := acquisitionEntry_cash madeE
      obtain rfl : outlay = other := Bounded.ext_val (sum.trans otherSum.symm)
      exact ⟨outlay, sum, cash, otherCash⟩
    case refused =>
      intro wrong treatment
      -- what is wrong excludes the last alternative, and the others exclude any entry
      have outside : 2 ^ 127 ≤ basis.atoms.val + fee.atoms.val ∨
          basis.atoms.val + fee.atoms.val ≤ 0 := by
        rcases condition with large | none | ⟨above, notNegative, same⟩
        · exact .inl large
        · exact .inr none
        · simp only [same, ne_eq, not_true_eq_false, false_or] at wrong
          omega
      cases treatment with
      | capitalize =>
        rw [capitalize_ok_iff]
        omega
      | expense =>
        rw [expense_ok_iff]
        omega
    case accepted =>
      intro book asset venue atoms acquiredAt sourceEvent id acquired above below treatment
      obtain ⟨-, -, -, same⟩ := LotBook.acquire_ok acquired
      cases treatment with
      | capitalize => exact capitalize_ok_iff.mpr ⟨above, below⟩
      | expense =>
        rw [expense_ok_iff]
        refine ⟨below, ?_, ?_, fun _ => same.symm⟩
        · omega
        · omega

def usd (atoms : Int) : AssetAmount := ⟨⟨"USD"⟩, .literal atoms⟩

omit [External] in
/-- A fee in euros joins a carrying amount in dollars. -/
theorem fee_in_euros : letI : External := reference
    ¬RoutesOnly (usd 1000) ⟨⟨"EUR"⟩, .literal 50⟩ (.filled 9) := by
  let _ : External := reference
  intro routes
  refine routes.refused (.inl (by decide)) .capitalize (capitalize_ok_iff.mpr ?_)
  decide

end

section
variable {proceeds carrying gain : AssetAmount} {policyHash : ContentHash}
  (difference : proceeds.checkedSub carrying = .ok gain) (paid : 0 < proceeds.atoms.val)
include difference paid

theorem disposalEntry_made (carried : 0 < carrying.atoms.val) :
    ∃ entry, disposalEntry proceeds carrying policyHash = .ok entry ∧
      Balanced proceeds.asset entry.lines := by
  obtain ⟨same, -, value⟩ := AssetAmount.checkedSub_eq_ok.mp difference
  have upper := proceeds.atoms.upper
  have carryingUpper := carrying.atoms.upper
  have absolute : |gain.atoms.val| = max gain.atoms.val (-gain.atoms.val) := abs_eq_max_neg
  unfold disposalEntry
  rw [if_neg (not_not.mpr same), Bounded.checkedSub_eq_some.mpr value]
  dsimp only
  by_cases even : gain.atoms = 0
  · have zero : gain.atoms.val = 0 := congrArg Bounded.val even
    have balanced : Balanced proceeds.asset [⟨.debit, .cash, proceeds⟩,
        ⟨.credit, .cryptoAssets, carrying⟩] := by
      simp [balanced_iff, tally_cons, same, paid, carried]
      omega
    rw [if_neg (not_not.mpr even)]
    exact ⟨_, JournalEntry.new_of_balanced (by simpa [tally_cons] using upper) balanced, balanced⟩
  · have some : gain.atoms.val ≠ 0 := fun zero => even (Bounded.ext_val zero)
    obtain ⟨magnitude, size⟩ := @I128.exists_val |gain.atoms.val| (by omega) (by omega)
    rw [if_pos even, Bounded.checkedAbs_eq_some.mpr size.symm]
    dsimp only [List.cons_append, List.nil_append]
    by_cases up : 0 < gain.atoms
    · have above : 0 < gain.atoms.val := up
      have balanced : Balanced proceeds.asset [⟨.debit, .cash, proceeds⟩,
          ⟨.credit, .cryptoAssets, carrying⟩,
          ⟨.credit, .realizedCryptoGainLoss, ⟨proceeds.asset, magnitude⟩⟩] := by
        simp [balanced_iff, tally_cons, same, paid, carried]
        omega
      rw [if_pos up]
      exact ⟨_, JournalEntry.new_of_balanced (by simpa [tally_cons] using upper) balanced, balanced⟩
    · have below : gain.atoms.val ≤ 0 := not_lt.mp up
      have balanced : Balanced proceeds.asset [⟨.debit, .cash, proceeds⟩,
          ⟨.credit, .cryptoAssets, carrying⟩,
          ⟨.debit, .realizedCryptoGainLoss, ⟨proceeds.asset, magnitude⟩⟩] := by
        simp [balanced_iff, tally_cons, same, paid, carried]
        omega
      rw [if_neg up]
      exact ⟨_, JournalEntry.new_of_balanced (by simp [tally_cons]; omega) balanced, balanced⟩

theorem disposalEntry_refused (nothing : carrying.atoms.val ≤ 0) :
    disposalEntry proceeds carrying policyHash = .error (.nonPositiveAmount carrying.atoms) := by
  obtain ⟨same, -, value⟩ := AssetAmount.checkedSub_eq_ok.mp difference
  have upper := gain.atoms.upper
  have absolute : |gain.atoms.val| = max gain.atoms.val (-gain.atoms.val) := abs_eq_max_neg
  have cash : ¬proceeds.atoms ≤ 0 := not_le.mpr paid
  have crypto : carrying.atoms ≤ 0 := nothing
  have even : gain.atoms ≠ 0 := fun zero => by
    have none : gain.atoms.val = 0 := congrArg Bounded.val zero
    omega
  obtain ⟨magnitude, size⟩ := @I128.exists_val |gain.atoms.val| (by omega) (by omega)
  have added : (0 : I128).checkedAdd proceeds.atoms = some proceeds.atoms :=
    Bounded.checkedAdd_eq_some.mpr (zero_add _)
  simp [disposalEntry, same, Bounded.checkedSub_eq_some.mpr value, even,
    Bounded.checkedAbs_eq_some.mpr size.symm, JournalEntry.new, JournalEntry.sumSides, cash, added,
    crypto]

end

theorem share_pos_iff {total part whole : I128} (sizable : 0 < whole.val) :
    0 < share total part whole ↔ whole.val ≤ total.val * part.val := by
  have unit := @Int.le_ediv_iff_mul_le 1 (total.val * part.val) whole.val sizable
  rwa [one_mul] at unit

/-- Some lot of the plan gives up a unit of its basis. -/
def GivesBasis (lots : List Lot) (plan : ReliefPlan) : Prop :=
  ∃ entry ∈ plan, ∃ lot, findLot lots entry.1 = some lot ∧
    lot.atoms.val ≤ lot.costBasis.atoms.val * entry.2.val

theorem relievedBasis_pos_iff {lots out : List Lot} {plan : ReliefPlan} {reliefs : List LotRelief}
    (drawn : List.Forall₂ (fun entry relief => ∃ lot left, Drawn lots out entry lot left relief)
      plan reliefs) :
    0 ≤ relievedBasis lots plan ∧ (0 < relievedBasis lots plan ↔ GivesBasis lots plan) := by
  induction drawn with
  | nil => simp [relievedBasis, GivesBasis]
  | @cons entry _ plan _ first _ ih =>
    obtain ⟨lot, left, drawn⟩ := first
    obtain ⟨nonneg, later⟩ := ih
    have part : 0 ≤ share lot.costBasis.atoms entry.2 lot.atoms :=
      share_nonneg drawn.sound.basis drawn.positive.le drawn.sound.atoms
    have whole : relievedBasis lots (entry :: plan) =
        share lot.costBasis.atoms entry.2 lot.atoms + relievedBasis lots plan := by
      simp [relievedBasis, drawn.found]
    have split : GivesBasis lots (entry :: plan) ↔
        0 < share lot.costBasis.atoms entry.2 lot.atoms ∨ GivesBasis lots plan := by
      simp [GivesBasis, drawn.found, share_pos_iff drawn.able.1]
    rw [whole, split, ← later]
    omega

namespace LotBook

theorem dispose_difference {book : LotBook} {asset : AssetId} {venue : VenueId} {atoms : I128}
    {method : ReliefMethod} {policyHash : ContentHash} {proceeds : AssetAmount} {d : DisposalResult}
    (disposed : (book.dispose asset venue atoms method policyHash proceeds).2 = .ok d) :
    proceeds.checkedSub d.totalBasisRelieved = .ok d.realized := by
  obtain ⟨_, _, _, _, _, settled⟩ := dispose_eq_ok disposed
  obtain ⟨total, gain, -, difference, same⟩ := realize_eq_ok settled
  rw [same]
  exact difference

section
variable [External]

/-- A sale out of a reached book has an entry exactly when it relieves some basis. -/
theorem disposal_bookable (tenant : TenantId) (calls : List Call) {asset : AssetId}
    {venue : VenueId} {atoms : I128} {method : ReliefMethod} {election : ContentHash}
    {proceeds : AssetAmount} {d : DisposalResult}
    (disposed : ((run step (new tenant) calls).dispose asset venue atoms method election
      proceeds).2 = .ok d) (paid : 0 < proceeds.atoms.val) (policyHash : ContentHash) :
    (0 < d.totalBasisRelieved.atoms.val →
      ∃ entry, disposalEntry proceeds d.totalBasisRelieved policyHash = .ok entry ∧
        Treasury.Balanced proceeds.asset entry.lines) ∧
    (d.totalBasisRelieved.atoms.val ≤ 0 →
      disposalEntry proceeds d.totalBasisRelieved policyHash =
        .error (.nonPositiveAmount d.totalBasisRelieved.atoms)) ∧
    ∀ envelopes : Set Bytes, Set.InjOn sha256 envelopes →
      Along step (fun book call => ∀ o, book.Opens call o → o.bytes ∈ envelopes)
        (new tenant) calls →
      0 ≤ d.totalBasisRelieved.atoms.val ∧
      (0 < d.totalBasisRelieved.atoms.val ↔ ∃ plan,
        (run step (new tenant) calls).planRelief asset venue atoms method = .ok plan ∧
        GivesBasis (run step (new tenant) calls).lots plan) := by
  have difference := dispose_difference disposed
  refine ⟨disposalEntry_made difference paid, disposalEntry_refused difference paid, ?_⟩
  intro envelopes injective hashed
  have sound := sound_calls injective tenant calls hashed
  have agree := sound.agree injective
  have balanced := dispose_balanced sound.nonneg agree disposed
  obtain ⟨plan, out, planned, relieving, -, -⟩ := dispose_eq_ok disposed
  have relieves := planRelief_relieves sound.nonneg agree planned
  rw [relieving] at relieves
  obtain ⟨nonneg, some⟩ := relievedBasis_pos_iff relieves.drawn
  rw [balanced.basis, recordedBasis_eq relieves.drawn]
  refine ⟨nonneg, some.trans ⟨fun gives => ⟨plan, planned, gives⟩, ?_⟩⟩
  rintro ⟨other, plannedToo, gives⟩
  obtain rfl := Except.ok.inj (planned.symm.trans plannedToo)
  exact gives

omit [External] in
theorem planRelief_single {tenant : TenantId} {lot : Lot} {take : I128} (some : 0 < take.val)
    (within : take ≤ lot.atoms) :
    planRelief ⟨tenant, [lot]⟩ lot.asset lot.venue take .fifo = .ok [(lot.lotId, take)] := by
  have here : candidates [lot] lot.asset lot.venue .fifo = .ok [lot] := by
    simp [candidates, sortBy]
  have added : (0 : I128).checkedAdd lot.atoms = Option.some lot.atoms :=
    Bounded.checkedAdd_eq_some.mpr (zero_add _)
  have left : take.checkedSub take = Option.some 0 :=
    Bounded.checkedSub_eq_some.mpr (sub_self _)
  have nonzero : take ≠ 0 := by
    rintro rfl
    exact lt_irrefl _ some
  refine planRelief_eq_ok.mpr ⟨some, [lot], lot.atoms, here, ?_, within, ?_⟩
  · simp only [sumAtoms, added, orOverflow]
    rfl
  · simp only [planFrom, nonzero, if_false, min_eq_left within, left, orOverflow]
    rfl

theorem dispose_single {tenant : TenantId} {lot : Lot} {take : I128} {proceeds : AssetAmount}
    (election : ContentHash) (sound : lot.NonNegative) (some : 0 < take.val)
    (within : take ≤ lot.atoms) (able : Relievable lot take)
    (currency : lot.costBasis.asset = proceeds.asset) (paid : 0 ≤ proceeds.atoms.val) :
    ∃ d, (dispose ⟨tenant, [lot]⟩ lot.asset lot.venue take .fifo election proceeds).2 = .ok d ∧
      d.totalBasisRelieved.atoms.val = share lot.costBasis.atoms take lot.atoms := by
  have nonneg : ∀ l ∈ [lot], l.NonNegative := List.forall_mem_singleton.mpr sound
  have agree : Agree [lot] := agree_of_distinct (List.nodup_singleton _)
  have planned := @planRelief_single tenant lot take some within
  have found : findLot [lot] lot.lotId = Option.some lot := by simp [findLot]
  have basis : relievedBasis [lot] [(lot.lotId, take)] =
      share lot.costBasis.atoms take lot.atoms := by simp [relievedBasis, found]
  have isCurrency : basisCurrency ⟨tenant, [lot]⟩ [(lot.lotId, take)] = .ok proceeds.asset := by
    simp only [basisCurrency, checkCurrency, found, currency, ne_eq, not_true_eq_false, if_false]
    rfl
  have below := share_le sound.basis able.1 (Bounded.le_def.mp within)
  have upper := lot.costBasis.atoms.upper
  have settles : Settles ⟨tenant, [lot]⟩ [(lot.lotId, take)]
      (.dispose lot.asset lot.venue take .fifo election proceeds) := by
    simp only [Settles, basis]
    omega
  have carried : Carried [lot] [(lot.lotId, take)] :=
    ⟨List.nodup_singleton _, List.forall_mem_singleton.mpr ⟨lot, found, able⟩⟩
  have succeeds := @succeeds_of_carried _ ⟨tenant, [lot]⟩ nonneg agree
    (.dispose lot.asset lot.venue take .fifo election proceeds) _ ⟨planned, isCurrency⟩ carried
    settles
  simp only [Succeeds, perform] at succeeds
  cases disposed : (dispose ⟨tenant, [lot]⟩ lot.asset lot.venue take .fifo election proceeds).2 with
  | error e => simp [disposed, Except.map] at succeeds
  | ok d =>
    refine ⟨d, rfl, ?_⟩
    obtain ⟨plan, out, plannedToo, relieving, -, -⟩ := dispose_eq_ok disposed
    obtain rfl := Except.ok.inj (planned.symm.trans plannedToo)
    have relieves := planRelief_relieves nonneg agree planned
    rw [relieving] at relieves
    rw [(dispose_balanced nonneg agree disposed).basis, recordedBasis_eq relieves.drawn, basis]

theorem step_of_acquired {book : LotBook} {call : Call} {o : Opening}
    (opens : book.acquired call = some o) :
    book.step call = ⟨book.tenant, book.lots ++ [o.opened]⟩ := by
  cases call with
  | acquire asset venue atoms costBasis acquisitionFee acquiredAt sourceEvent =>
    cases acquire_outcome book asset venue atoms costBasis acquisitionFee acquiredAt
        sourceEvent with
    | opened other accepted does =>
      obtain rfl := Option.some.inj (accepted.symm.trans opens)
      rw [step, does]
    | refused e refuses => cases refuses.symm.trans opens
    | stopped plan out e planned => cases planned
    | carried plan out reliefs planned => cases planned
  | dispose => cases opens
  | transfer => cases opens

def gift : Opening := { bought with costBasis := usd 0 }

def receive : Call :=
  .acquire gift.asset gift.venue gift.atoms gift.costBasis gift.acquisitionFee gift.acquiredAt
    gift.sourceEvent

theorem run_receive : run step (new ⟨"acme"⟩) [receive] = ⟨⟨"acme"⟩, [gift.opened]⟩ := by
  have fair : 0 < gift.atoms ∧ 0 ≤ gift.costBasis.atoms ∧ 0 ≤ gift.acquisitionFee.atoms ∧
      gift.costBasis.asset = gift.acquisitionFee.asset := by decide
  have opens : (new ⟨"acme"⟩).acquired receive = some gift := by
    simp only [acquired, receive, fair, and_self, if_true]
    rfl
  rw [run, run, step_of_acquired opens]
  rfl

omit [External] in
/-- The basis of a hundred is a thousand, and forty of them are sold. -/
theorem disposal_bookable_sold : letI : External := reference
    ∃ d entry, ((run step (new ⟨"acme"⟩) [buy]).dispose bought.asset bought.venue forty .fifo
        (.filled 9) (usd 500)).2 = .ok d ∧
      disposalEntry (usd 500) d.totalBasisRelieved (.filled 8) = .ok entry := by
  let _ : External := reference
  obtain ⟨d, disposed, total⟩ := @dispose_single _ ⟨"acme"⟩ bought.opened forty (usd 500)
    (.filled 9) ⟨by decide, by decide, by decide⟩ (by decide) (by decide)
    ⟨by decide, by decide, by decide⟩ (by decide) (by decide)
  rw [← run_buy] at disposed
  have bookable := disposal_bookable ⟨"acme"⟩ [buy] disposed (by decide) (.filled 8)
  obtain ⟨entry, made, -⟩ := bookable.1 (total ▸ by decide)
  exact ⟨d, entry, disposed, made⟩

omit [External] in
/-- A gift that is sold relieves no basis and has no entry. -/
theorem gift_not_bookable : letI : External := reference
    ∃ d, ((run step (new ⟨"acme"⟩) [receive]).dispose gift.asset gift.venue forty .fifo
        (.filled 9) (usd 500)).2 = .ok d ∧
      ¬∃ entry, disposalEntry (usd 500) d.totalBasisRelieved (.filled 8) = .ok entry := by
  let _ : External := reference
  obtain ⟨d, disposed, total⟩ := @dispose_single _ ⟨"acme"⟩ gift.opened forty (usd 500)
    (.filled 9) ⟨by decide, by decide, by decide⟩ (by decide) (by decide)
    ⟨by decide, by decide, by decide⟩ (by decide) (by decide)
  have none : d.totalBasisRelieved.atoms.val = 0 := total.trans (by decide)
  rw [← run_receive] at disposed
  refine ⟨d, disposed, ?_⟩
  rw [disposalEntry_refused (dispose_difference disposed) (by decide) none.le]
  simp

end

end LotBook

end Treasury
