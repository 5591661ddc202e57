import Treasury.Gaap.Entry
import Treasury.Ledger.Event

/-! The entry builders of the GAAP module, and what an entry that they build does to the carrying
amount and to net income. -/
namespace Treasury
open Kit Kit.Json

inductive FeeTreatment where
  | expense
  | capitalize
  deriving DecidableEq

def acquisitionEntry (basis fee : AssetAmount) (treatment : FeeTreatment)
    (policyHash : ContentHash) : Except EntryError JournalEntry :=
  let currency := basis.asset
  match basis.atoms.checkedAdd fee.atoms with
  | none => .error .overflow
  | some outlay =>
    let debits : List JournalLine :=
      match treatment with
      | .capitalize => [⟨.debit, .cryptoAssets, ⟨currency, outlay⟩⟩]
      | .expense => ⟨.debit, .cryptoAssets, basis⟩ ::
          if 0 < fee.atoms then [⟨.debit, .transactionCostsExpense, fee⟩] else []
    JournalEntry.new "acquisition" (debits ++ [⟨.credit, .cash, ⟨currency, outlay⟩⟩]) policyHash

/-- There is no entry when the mark is zero. -/
def remeasurementEntry (carryingBefore fairValueNow : AssetAmount) (policyHash : ContentHash) :
    Except EntryError (Option JournalEntry) :=
  if carryingBefore.asset ≠ fairValueNow.asset then .error .mixedCurrencies
  else match fairValueNow.atoms.checkedSub carryingBefore.atoms with
    | none => .error .overflow
    | some delta =>
      if delta = 0 then .ok none
      else match delta.checkedAbs with
        | none => .error .overflow
        | some magnitude => do
          let amount : AssetAmount := ⟨fairValueNow.asset, magnitude⟩
          let (assetSide, pnlSide) : Side × Side :=
            if 0 < delta then (.debit, .credit) else (.credit, .debit)
          let entry ← JournalEntry.new "asu2023_08_remeasurement"
            [⟨assetSide, .cryptoAssets, amount⟩, ⟨pnlSide, .unrealizedCryptoGainLoss, amount⟩]
            policyHash
          return some entry

def disposalEntry (proceeds carryingRelieved : AssetAmount) (policyHash : ContentHash) :
    Except EntryError JournalEntry :=
  if proceeds.asset ≠ carryingRelieved.asset then .error .mixedCurrencies
  else match proceeds.atoms.checkedSub carryingRelieved.atoms with
    | none => .error .overflow
    | some gain =>
      let lines : List JournalLine :=
        [⟨.debit, .cash, proceeds⟩, ⟨.credit, .cryptoAssets, carryingRelieved⟩]
      if gain ≠ 0 then
        match gain.checkedAbs with
        | none => .error .overflow
        | some magnitude =>
          let side : Side := if 0 < gain then .credit else .debit
          JournalEntry.new "disposal"
            (lines ++ [⟨side, .realizedCryptoGainLoss, ⟨proceeds.asset, magnitude⟩⟩]) policyHash
      else JournalEntry.new "disposal" lines policyHash

/-- What the lines add to the carrying amount of crypto assets. -/
def cryptoDebits (lines : List JournalLine) : Int :=
  tally JournalLine.line JournalLine.signed .cryptoAssets lines

def incomeCredits (lines : List JournalLine) : Int :=
  -tally (fun l => l.line.statement) JournalLine.signed .incomeStatement lines

/-- Lines that balance in the currency and move the two amounts by so much. -/
structure Posts (currency : AssetId) (carrying income : Int) (lines : List JournalLine) : Prop where
  balanced : Balanced currency lines
  carrying : cryptoDebits lines = carrying
  income : incomeCredits lines = income

def FeeTreatment.capitalized (treatment : FeeTreatment) (fee : I128) : Int :=
  match treatment with
  | .capitalize => fee.val
  | .expense => 0

def FeeTreatment.expensed (treatment : FeeTreatment) (fee : I128) : Int :=
  match treatment with
  | .capitalize => 0
  | .expense => fee.val

@[simp] theorem cryptoDebits_nil : cryptoDebits [] = 0 := rfl

@[simp] theorem incomeCredits_nil : incomeCredits [] = 0 := rfl

@[simp] theorem cryptoDebits_cons (l : JournalLine) (lines : List JournalLine) :
    cryptoDebits (l :: lines) =
      (if l.line = .cryptoAssets then l.signed else 0) + cryptoDebits lines :=
  tally_cons ..

@[simp] theorem incomeCredits_cons (l : JournalLine) (lines : List JournalLine) :
    incomeCredits (l :: lines) =
      (if l.line.statement = .incomeStatement then -l.signed else 0) + incomeCredits lines := by
  unfold incomeCredits
  rw [tally_cons, neg_add]
  congr 1
  split <;> simp

theorem cryptoDebits_append (l m : List JournalLine) :
    cryptoDebits (l ++ m) = cryptoDebits l + cryptoDebits m := tally_append ..

theorem incomeCredits_append (l m : List JournalLine) :
    incomeCredits (l ++ m) = incomeCredits l + incomeCredits m := by
  simp only [incomeCredits, tally_append, neg_add]

section
variable {change magnitude : I128} (size : |change.val| = magnitude.val) (line : StatementLine)
  (currency : AssetId)
include size

theorem signed_change :
    (JournalLine.mk (if 0 < change then .debit else .credit) line ⟨currency, magnitude⟩).signed =
      change.val := by
  by_cases up : 0 < change
  · simp only [JournalLine.signed, up, if_true, ← size]
    exact abs_of_pos up
  · simp only [JournalLine.signed, up, if_false, ← size]
    exact neg_eq_iff_eq_neg.mpr (abs_of_nonpos (Bounded.le_def.mp (not_lt.mp up)))

theorem signed_contra :
    (JournalLine.mk (if 0 < change then .credit else .debit) line ⟨currency, magnitude⟩).signed =
      -change.val := by
  rw [← signed_change size line currency]
  by_cases up : 0 < change <;> simp [JournalLine.signed, up]

end

section
variable {currency : AssetId} {policyHash : ContentHash}

theorem acquisitionEntry_posts {basis fee : I128} {treatment : FeeTreatment} {entry : JournalEntry}
    (made : acquisitionEntry ⟨currency, basis⟩ ⟨currency, fee⟩ treatment policyHash = .ok entry) :
    Posts currency (basis.val + treatment.capitalized fee) (-treatment.expensed fee) entry.lines ∧
      0 < basis.val + treatment.capitalized fee := by
  unfold acquisitionEntry at made
  dsimp only at made
  cases added : basis.checkedAdd fee with
  | none => simp [added] at made
  | some outlay =>
    have outlay_eq := Bounded.checkedAdd_eq_some.mp added
    simp only [added] at made
    cases treatment with
    | capitalize =>
      obtain ⟨rfl, balanced⟩ := JournalEntry.new_ok made
      have above := balanced.positive _ List.mem_cons_self
      refine ⟨⟨balanced, ?_, ?_⟩, ?_⟩
      · simp [JournalLine.signed, FeeTreatment.capitalized, outlay_eq]
      · simp [StatementLine.statement, FeeTreatment.expensed]
      · exact above.trans_eq outlay_eq.symm
    | expense =>
      by_cases charged : 0 < fee
      · simp only [charged, if_true] at made
        obtain ⟨rfl, balanced⟩ := JournalEntry.new_ok made
        have above := balanced.positive _ List.mem_cons_self
        refine ⟨⟨balanced, ?_, ?_⟩, ?_⟩
        · simp [JournalLine.signed, FeeTreatment.capitalized]
        · simp [JournalLine.signed, StatementLine.statement, FeeTreatment.expensed]
        · simpa [FeeTreatment.capitalized] using above
      · simp only [charged, if_false] at made
        obtain ⟨rfl, balanced⟩ := JournalEntry.new_ok made
        have above := balanced.positive _ List.mem_cons_self
        -- without a fee line the entry balances only if there is no fee
        have none : fee.val = 0 := by
          have sides := balanced.balanced
          simp [tally_cons] at sides
          omega
        refine ⟨⟨balanced, ?_, ?_⟩, ?_⟩
        · simp [JournalLine.signed, FeeTreatment.capitalized]
        · simp [StatementLine.statement, FeeTreatment.expensed, none]
        · simpa [FeeTreatment.capitalized] using above

theorem remeasurementEntry_posts {before now : I128} {made : Option JournalEntry}
    (booked : remeasurementEntry ⟨currency, before⟩ ⟨currency, now⟩ policyHash = .ok made) :
    match made with
    | none => now.val = before.val
    | some entry => Posts currency (now.val - before.val) (now.val - before.val) entry.lines := by
  unfold remeasurementEntry at booked
  dsimp only at booked
  rw [if_neg (not_not.mpr rfl)] at booked
  cases subtracted : now.checkedSub before with
  | none => simp [subtracted] at booked
  | some delta =>
    have delta_eq := Bounded.checkedSub_eq_some.mp subtracted
    simp only [subtracted] at booked
    by_cases still : delta = 0
    · simp only [still, if_true] at booked
      cases booked
      have zero : delta.val = 0 := congrArg Bounded.val still
      exact Int.sub_eq_zero.mp (delta_eq.trans zero)
    · simp only [still, if_false] at booked
      cases absolute : delta.checkedAbs with
      | none => simp [absolute] at booked
      | some magnitude =>
        have size := Bounded.checkedAbs_eq_some.mp absolute
        simp only [absolute] at booked
        have sides : (if 0 < delta then (Side.debit, Side.credit) else (Side.credit, Side.debit)) =
            (if 0 < delta then Side.debit else Side.credit,
              if 0 < delta then Side.credit else Side.debit) := by split <;> rfl
        simp only [sides] at booked
        obtain ⟨entry, made', same⟩ := bind_eq_ok.mp booked
        cases pure_eq_ok.mp same
        obtain ⟨rfl, balanced⟩ := JournalEntry.new_ok made'
        refine ⟨balanced, ?_, ?_⟩
        · simp [signed_change size, delta_eq]
        · simp [signed_contra size, StatementLine.statement, delta_eq]

theorem disposalEntry_posts {proceeds carryingRelieved : I128} {entry : JournalEntry}
    (made : disposalEntry ⟨currency, proceeds⟩ ⟨currency, carryingRelieved⟩ policyHash =
      .ok entry) :
    Posts currency (-carryingRelieved.val) (proceeds.val - carryingRelieved.val) entry.lines ∧
      0 < carryingRelieved.val := by
  unfold disposalEntry at made
  dsimp only at made
  rw [if_neg (not_not.mpr rfl)] at made
  cases subtracted : proceeds.checkedSub carryingRelieved with
  | none => simp [subtracted] at made
  | some gain =>
    have gain_eq := Bounded.checkedSub_eq_some.mp subtracted
    simp only [subtracted] at made
    by_cases even : gain = 0
    · simp only [even, ne_eq, not_true, if_false] at made
      obtain ⟨rfl, balanced⟩ := JournalEntry.new_ok made
      have zero : gain.val = 0 := congrArg Bounded.val even
      refine ⟨⟨balanced, ?_, ?_⟩, balanced.positive _ (.tail _ (.head _))⟩
      · simp [JournalLine.signed]
      · simp [StatementLine.statement]
        omega
    · simp only [ne_eq, even, not_false_eq_true, if_true] at made
      cases absolute : gain.checkedAbs with
      | none => simp [absolute] at made
      | some magnitude =>
        have size := Bounded.checkedAbs_eq_some.mp absolute
        simp only [absolute] at made
        obtain ⟨rfl, balanced⟩ := JournalEntry.new_ok made
        refine ⟨⟨balanced, ?_, ?_⟩, balanced.positive _ (.tail _ (.head _))⟩
        · simp [JournalLine.signed]
        · simp [signed_contra size, StatementLine.statement, gain_eq]

end

def outputMembers (entry : JournalEntry) (entryHash : ContentHash) : List (String × Value) :=
  [("schema", .string entrySchema), ("booking", .string "journal_entry"),
    ("kind", .string entry.kind), ("lines", .array (entry.lines.map JournalLine.toJson)),
    ("entry", .string entryHash.toHex)]

theorem outputMembers_flat (entry : JournalEntry) (entryHash : ContentHash) :
    ∀ e ∈ outputMembers entry entryHash, Flat 3 e.2 := by
  intro e h
  simp only [outputMembers, List.mem_cons, List.not_mem_nil, or_false] at h
  rcases h with rfl | rfl | rfl | rfl | rfl
  · exact flat_string 3 _
  · exact flat_string 3 _
  · exact flat_string 3 _
  · apply flat_array
    intro v hv
    obtain ⟨l, _, rfl⟩ := List.mem_map.mp hv
    exact l.flat
  · exact flat_string 3 _

/-- An entry for the ledger, and the events that it was computed from. -/
def draftPolicyOutput [External] (entry : JournalEntry) (tenant : TenantId)
    (eventTime : TimestampNs) (inputs : List ContentHash) : Except EntryError EventDraft := do
  let entryHash ← entry.entryHash
  return { tenant := tenant
           layer := .policyOutput
           eventTime := eventTime
           supersedes := none
           provenance := .policyOutput entry.policyHash inputs
           payload := ⟨.object (ofEntries (outputMembers entry entryHash)),
             sorted_object fun e member => (outputMembers_flat entry entryHash e member).sorted⟩ }

end Treasury
