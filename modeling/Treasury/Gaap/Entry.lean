import Treasury.Evidence.Canon
import Treasury.Kit.Tally

/-! Journal entries, which balance by construction, and the hash that stands for one. -/
namespace Treasury
open Kit Kit.Json

def entrySchema : String := "treasury-gaap/journal-entry/v1"

inductive Statement where
  | balanceSheet
  | incomeStatement
  | oci
  deriving DecidableEq

inductive StatementLine where
  | cryptoAssets
  | unrealizedCryptoGainLoss
  | realizedCryptoGainLoss
  | transactionCostsExpense
  | cash
  deriving DecidableEq

def StatementLine.statement : StatementLine → Statement
  | .cryptoAssets | .cash => .balanceSheet
  | .unrealizedCryptoGainLoss | .realizedCryptoGainLoss | .transactionCostsExpense =>
    .incomeStatement

def StatementLine.toJson : StatementLine → Value
  | .cryptoAssets => .string "crypto_assets"
  | .unrealizedCryptoGainLoss => .string "unrealized_crypto_gain_loss"
  | .realizedCryptoGainLoss => .string "realized_crypto_gain_loss"
  | .transactionCostsExpense => .string "transaction_costs_expense"
  | .cash => .string "cash"

inductive Side where
  | debit
  | credit
  deriving DecidableEq

def Side.toJson : Side → Value
  | .debit => .string "debit"
  | .credit => .string "credit"

structure JournalLine where
  side : Side
  line : StatementLine
  amount : AssetAmount
  deriving DecidableEq

def JournalLine.signed (l : JournalLine) : Int :=
  match l.side with
  | .debit => l.amount.atoms.val
  | .credit => -l.amount.atoms.val

def JournalLine.toJson (l : JournalLine) : Value :=
  .object (ofEntries [("side", l.side.toJson), ("line", l.line.toJson),
    ("amount", l.amount.toJson)])

structure JournalEntry where
  kind : String
  lines : List JournalLine
  policyHash : ContentHash
  deriving DecidableEq

inductive EntryError where
  | tooFewLines
  | mixedCurrencies
  | nonPositiveAmount (atoms : I128)
  | unbalanced (debits credits : I128)
  | overflow
  | canon (error : CanonError)
  deriving DecidableEq

/-- Two or more positive lines in one currency, and as much on one side as on the other. -/
structure Balanced (currency : AssetId) (lines : List JournalLine) : Prop where
  many : 2 ≤ lines.length
  currency : ∀ l ∈ lines, l.amount.asset = currency
  positive : ∀ l ∈ lines, 0 < l.amount.atoms.val
  balanced : tally JournalLine.side (·.amount.atoms.val) .debit lines =
    tally JournalLine.side (·.amount.atoms.val) .credit lines

namespace JournalEntry

def sumSides (currency : AssetId) : List JournalLine → I128 → I128 →
    Except EntryError (I128 × I128)
  | [], debits, credits => .ok (debits, credits)
  | line :: rest, debits, credits =>
    if line.amount.asset ≠ currency then .error .mixedCurrencies
    else if line.amount.atoms ≤ 0 then .error (.nonPositiveAmount line.amount.atoms)
    else match line.side with
      | .debit =>
        match debits.checkedAdd line.amount.atoms with
        | none => .error .overflow
        | some debits => sumSides currency rest debits credits
      | .credit =>
        match credits.checkedAdd line.amount.atoms with
        | none => .error .overflow
        | some credits => sumSides currency rest debits credits

def new (kind : String) (lines : List JournalLine) (policyHash : ContentHash) :
    Except EntryError JournalEntry :=
  match lines with
  | first :: _ :: _ =>
    match sumSides first.amount.asset lines 0 0 with
    | .error e => .error e
    | .ok (debits, credits) =>
      if debits ≠ credits then .error (.unbalanced debits credits)
      else .ok ⟨kind, lines, policyHash⟩
  | _ => .error .tooFewLines

theorem sumSides_cons {currency : AssetId} {line : JournalLine} {rest : List JournalLine}
    {debits credits : I128} {sums : I128 × I128}
    (summed : sumSides currency (line :: rest) debits credits = .ok sums) :
    line.amount.asset = currency ∧ 0 < line.amount.atoms.val ∧ ∃ debits' credits',
      sumSides currency rest debits' credits' = .ok sums ∧
      debits'.val = debits.val + (if line.side = .debit then line.amount.atoms.val else 0) ∧
      credits'.val = credits.val + (if line.side = .credit then line.amount.atoms.val else 0) := by
  unfold sumSides at summed
  split at summed
  · cases summed
  · rename_i same
    split at summed
    · cases summed
    · rename_i positive
      refine ⟨not_not.mp same, not_le.mp positive, ?_⟩
      cases side : line.side with
      | debit =>
        cases added : debits.checkedAdd line.amount.atoms with
        | none => simp [side, added] at summed
        | some total =>
          simp only [side, added] at summed
          exact ⟨total, credits, summed, (Bounded.checkedAdd_eq_some.mp added).symm, by simp⟩
      | credit =>
        cases added : credits.checkedAdd line.amount.atoms with
        | none => simp [side, added] at summed
        | some total =>
          simp only [side, added] at summed
          exact ⟨debits, total, summed, by simp, (Bounded.checkedAdd_eq_some.mp added).symm⟩

theorem sumSides_ok {currency : AssetId} {lines : List JournalLine} {debits credits : I128}
    {sums : I128 × I128} (summed : sumSides currency lines debits credits = .ok sums) :
    (∀ l ∈ lines, l.amount.asset = currency) ∧ (∀ l ∈ lines, 0 < l.amount.atoms.val) ∧
      sums.1.val = debits.val + tally JournalLine.side (·.amount.atoms.val) .debit lines ∧
      sums.2.val = credits.val + tally JournalLine.side (·.amount.atoms.val) .credit lines := by
  induction lines generalizing debits credits with
  | nil =>
    cases summed
    simp
  | cons line rest ih =>
    obtain ⟨same, above, debits', credits', later, debited, credited⟩ := sumSides_cons summed
    obtain ⟨currencies, positives, debit, credit⟩ := ih later
    simp only [List.forall_mem_cons, tally_cons]
    exact ⟨⟨same, currencies⟩, ⟨above, positives⟩, by omega, by omega⟩

theorem new_ok {kind : String} {first : JournalLine} {rest : List JournalLine}
    {policyHash : ContentHash} {entry : JournalEntry}
    (made : new kind (first :: rest) policyHash = .ok entry) :
    entry = ⟨kind, first :: rest, policyHash⟩ ∧
      Balanced first.amount.asset (first :: rest) := by
  unfold new at made
  split at made
  · rename_i same
    cases same
    split at made
    · cases made
    · rename_i debits credits summed
      split at made
      · cases made
      · rename_i equal
        obtain ⟨currency, positive, debit, credit⟩ := sumSides_ok summed
        rw [not_not.mp equal] at debit
        refine ⟨(Except.ok.inj made).symm, by simp, currency, positive, ?_⟩
        exact add_left_cancel (debit.symm.trans credit)
  · cases made

theorem side_nonneg {lines : List JournalLine} (positive : ∀ l ∈ lines, 0 < l.amount.atoms.val)
    (side : Side) : 0 ≤ tally JournalLine.side (·.amount.atoms.val) side lines := by
  induction lines with
  | nil => exact le_rfl
  | cons line rest ih =>
    obtain ⟨above, positives⟩ := List.forall_mem_cons.mp positive
    have later := ih positives
    rw [tally_cons]
    split <;> omega

theorem sumSides_fits {currency : AssetId} {lines : List JournalLine} {debits credits : I128}
    (same : ∀ l ∈ lines, l.amount.asset = currency)
    (positive : ∀ l ∈ lines, 0 < l.amount.atoms.val)
    (debit : debits.val + tally JournalLine.side (·.amount.atoms.val) .debit lines < 2 ^ 127)
    (credit : credits.val + tally JournalLine.side (·.amount.atoms.val) .credit lines < 2 ^ 127) :
    ∃ sums, sumSides currency lines debits credits = .ok sums := by
  induction lines generalizing debits credits with
  | nil => exact ⟨_, rfl⟩
  | cons line rest ih =>
    obtain ⟨isCurrency, currencies⟩ := List.forall_mem_cons.mp same
    obtain ⟨above, positives⟩ := List.forall_mem_cons.mp positive
    have debitLater := side_nonneg positives .debit
    have creditLater := side_nonneg positives .credit
    have debitsLower := debits.lower
    have creditsLower := credits.lower
    have accepted : ¬line.amount.atoms ≤ 0 := not_le.mpr above
    simp only [tally_cons] at debit credit
    simp only [sumSides, isCurrency, ne_eq, not_true_eq_false, accepted, if_false]
    cases side : line.side with
    | debit =>
      simp only [side, if_true, reduceCtorEq, if_false] at debit credit
      obtain ⟨total, sum⟩ :=
        @I128.exists_val (debits.val + line.amount.atoms.val) (by omega) (by omega)
      rw [Bounded.checkedAdd_eq_some.mpr sum.symm]
      exact ih currencies positives (by omega) (by omega)
    | credit =>
      simp only [side, if_true, reduceCtorEq, if_false] at debit credit
      obtain ⟨total, sum⟩ :=
        @I128.exists_val (credits.val + line.amount.atoms.val) (by omega) (by omega)
      rw [Bounded.checkedAdd_eq_some.mpr sum.symm]
      exact ih currencies positives (by omega) (by omega)

theorem new_ok_iff {kind : String} {first : JournalLine} {rest : List JournalLine}
    {policyHash : ContentHash}
    (fits : tally JournalLine.side (·.amount.atoms.val) .debit (first :: rest) < 2 ^ 127) :
    (∃ entry, new kind (first :: rest) policyHash = .ok entry) ↔
      Balanced first.amount.asset (first :: rest) := by
  constructor
  · rintro ⟨entry, made⟩
    exact (new_ok made).2
  · rintro ⟨many, currency, positive, balanced⟩
    obtain ⟨sums, summed⟩ := @sumSides_fits _ _ 0 0 currency positive (by simpa using fits)
      (by simpa [← balanced] using fits)
    obtain ⟨-, -, debit, credit⟩ := sumSides_ok summed
    have equal : sums.1 = sums.2 := Bounded.ext_val (by rw [debit, credit, balanced])
    cases rest with
    | nil => simp at many
    | cons second rest => simp [new, summed, equal]

theorem new_of_balanced {kind : String} {first : JournalLine} {rest : List JournalLine}
    {policyHash : ContentHash}
    (fits : tally JournalLine.side (·.amount.atoms.val) .debit (first :: rest) < 2 ^ 127)
    (balanced : Balanced first.amount.asset (first :: rest)) :
    new kind (first :: rest) policyHash = .ok ⟨kind, first :: rest, policyHash⟩ := by
  obtain ⟨entry, made⟩ := (@new_ok_iff kind first rest policyHash fits).mpr balanced
  rw [made, (new_ok made).1]

def envelope (entry : JournalEntry) : Value :=
  .object (ofEntries [("schema", .string entrySchema), ("kind", .string entry.kind),
    ("lines", .array (entry.lines.map JournalLine.toJson)),
    ("policy", .string entry.policyHash.toHex)])

def entryHash [External] (entry : JournalEntry) : Except EntryError ContentHash :=
  match canonicalBytes entry.envelope with
  | .error e => .error (.canon e)
  | .ok bytes => .ok (sha256 bytes)

end JournalEntry

theorem JournalLine.flat (l : JournalLine) : Flat 2 l.toJson := by
  apply flat_object (by simp)
  intro e h
  simp only [List.mem_cons, List.not_mem_nil, or_false] at h
  rcases h with rfl | rfl | rfl
  · cases l.side <;> exact flat_string 1 _
  · cases l.line <;> exact flat_string 1 _
  · exact l.amount.flat

namespace JournalEntry

theorem flat (entry : JournalEntry) : Flat 4 entry.envelope := by
  apply flat_object (by simp)
  intro e h
  simp only [List.mem_cons, List.not_mem_nil, or_false] at h
  rcases h with rfl | rfl | rfl | rfl
  · exact flat_string 3 _
  · exact flat_string 3 _
  · apply flat_array
    intro v hv
    obtain ⟨l, _, rfl⟩ := List.mem_map.mp hv
    exact l.flat
  · exact flat_string 3 _

section
variable [External]

def bytes (entry : JournalEntry) : Bytes := utf8 (toText entry.envelope)

def contentHash (entry : JournalEntry) : ContentHash := sha256 entry.bytes

theorem entryHash_eq (entry : JournalEntry) : entry.entryHash = .ok entry.contentHash := by
  rw [entryHash, canonicalBytes_flat entry.flat (by decide)]
  rfl

end

end JournalEntry

end Treasury
