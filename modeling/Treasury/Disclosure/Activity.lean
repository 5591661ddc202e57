import Treasury.Disclosure.RollForward
import Treasury.Gaap.Module

/-! The period of one asset in one currency: every purchase, mark and disposal is booked by an
entry builder, and the same activity makes the roll-forward row. The general ledger and the row
come to the same closing amount. -/
namespace Treasury
open Kit

inductive Activity where
  | acquisition (basis fee : I128) (treatment : FeeTreatment) (policyHash : ContentHash)
  | remeasurement (fairValue : I128) (policyHash : ContentHash)
  | disposal (proceeds carryingRelieved : I128) (policyHash : ContentHash)

namespace Activity

def addition : Activity → Int
  | .acquisition basis fee treatment _ => basis.val + treatment.capitalized fee
  | _ => 0

def expensedFee : Activity → Int
  | .acquisition _ fee treatment _ => treatment.expensed fee
  | _ => 0

def relieved : Activity → Int
  | .disposal _ carryingRelieved _ => carryingRelieved.val
  | _ => 0

def proceeds : Activity → Int
  | .disposal proceeds _ _ => proceeds.val
  | _ => 0

def mark (carrying : Int) : Activity → Int
  | .remeasurement fairValue _ => fairValue.val - carrying
  | _ => 0

def next (carrying : Int) : Activity → Int
  | .acquisition basis fee treatment _ => carrying + (basis.val + treatment.capitalized fee)
  | .remeasurement fairValue _ => fairValue.val
  | .disposal _ carryingRelieved _ => carrying - carryingRelieved.val

/-- Fair values are not negative, and a disposal takes for its proceeds no more than there is. -/
def Admissible (carrying : Int) : Activity → Prop
  | .acquisition .. => True
  | .remeasurement fairValue _ => 0 ≤ fairValue.val
  | .disposal proceeds carryingRelieved _ => 0 < proceeds.val ∧ carryingRelieved.val ≤ carrying

def book (currency : AssetId) (carrying : Int) : Activity → Except EntryError (Option JournalEntry)
  | .acquisition basis fee treatment policyHash => do
    let entry ← acquisitionEntry ⟨currency, basis⟩ ⟨currency, fee⟩ treatment policyHash
    return some entry
  | .remeasurement fairValue policyHash =>
    match Bounded.ofInt? carrying with
    | none => .error .overflow
    | some before => remeasurementEntry ⟨currency, before⟩ ⟨currency, fairValue⟩ policyHash
  | .disposal proceeds carryingRelieved policyHash => do
    let entry ← disposalEntry ⟨currency, proceeds⟩ ⟨currency, carryingRelieved⟩ policyHash
    return some entry

def bookAll (currency : AssetId) : Int → List Activity → Except EntryError (List JournalEntry)
  | _, [] => .ok []
  | carrying, a :: rest => do
    let entry ← a.book currency carrying
    let entries ← bookAll currency (a.next carrying) rest
    return entry.toList ++ entries

structure Booked (currency : AssetId) (carrying : Int) (a : Activity)
    (entries : List JournalEntry) : Prop where
  balanced : ∀ entry ∈ entries, Balanced currency entry.lines
  carried : cryptoDebits (entries.flatMap JournalEntry.lines) = a.next carrying - carrying
  income : incomeCredits (entries.flatMap JournalEntry.lines) =
    a.proceeds - a.relieved + a.mark carrying - a.expensedFee
  addition : 0 ≤ a.addition
  relieved : 0 ≤ a.relieved

variable {currency : AssetId} {carrying : Int}

theorem Booked.of_posts {a : Activity} {entry : JournalEntry}
    (posts : Posts currency (a.next carrying - carrying)
      (a.proceeds - a.relieved + a.mark carrying - a.expensedFee) entry.lines)
    (addition : 0 ≤ a.addition) (relieved : 0 ≤ a.relieved) :
    Booked currency carrying a [entry] where
  balanced e member := List.mem_singleton.mp member ▸ posts.balanced
  carried := by simpa using posts.carrying
  income := by simpa using posts.income
  addition := addition
  relieved := relieved

theorem booked_of_book {a : Activity} {made : Option JournalEntry}
    (booked : a.book currency carrying = .ok made) : Booked currency carrying a made.toList := by
  cases a with
  | acquisition basis fee treatment policyHash =>
    obtain ⟨entry, built, same⟩ := bind_eq_ok.mp booked
    cases pure_eq_ok.mp same
    obtain ⟨posts, above⟩ := acquisitionEntry_posts built
    refine .of_posts ?_ above.le (le_refl _)
    simpa [next, proceeds, relieved, mark, expensedFee] using posts
  | remeasurement fairValue policyHash =>
    simp only [book] at booked
    cases represented : (Bounded.ofInt? carrying : Option I128) with
    | none => simp [represented] at booked
    | some before =>
      have carrying_eq := Bounded.ofInt?_eq_some.mp represented
      simp only [represented] at booked
      have posts := remeasurementEntry_posts booked
      cases made with
      | none =>
        have still : fairValue.val - carrying = 0 := by
          rw [carrying_eq]
          exact Int.sub_eq_zero.mpr posts
        exact ⟨nofun, still.symm, by simp [proceeds, relieved, mark, expensedFee, still],
          le_refl _, le_refl _⟩
      | some entry =>
        refine .of_posts ?_ (le_refl _) (le_refl _)
        simpa [next, proceeds, relieved, mark, expensedFee, carrying_eq] using posts
  | disposal proceeds carryingRelieved policyHash =>
    obtain ⟨entry, built, same⟩ := bind_eq_ok.mp booked
    cases pure_eq_ok.mp same
    obtain ⟨posts, above⟩ := disposalEntry_posts built
    refine .of_posts ?_ (le_refl _) above.le
    simpa [next, Activity.proceeds, relieved, mark, expensedFee] using posts

theorem bookAll_cons {a : Activity} {rest : List Activity} {entries : List JournalEntry}
    (booked : bookAll currency carrying (a :: rest) = .ok entries) :
    ∃ entry later, a.book currency carrying = .ok entry ∧
      bookAll currency (a.next carrying) rest = .ok later ∧ entries = entry.toList ++ later := by
  obtain ⟨entry, first, more⟩ := bind_eq_ok.mp booked
  obtain ⟨later, tail, same⟩ := bind_eq_ok.mp more
  exact ⟨entry, later, first, tail, (pure_eq_ok.mp same).symm⟩

theorem booked_period {activities : List Activity} {entries : List JournalEntry}
    (booked : bookAll currency carrying activities = .ok entries) :
    (∀ entry ∈ entries, Balanced currency entry.lines) ∧
      cryptoDebits (entries.flatMap JournalEntry.lines) =
        gathered next (fun c a => a.next c - c) carrying activities ∧
      incomeCredits (entries.flatMap JournalEntry.lines) =
        gathered next (fun c a => a.proceeds - a.relieved + a.mark c - a.expensedFee) carrying
          activities ∧
      0 ≤ gathered next (fun _ => addition) carrying activities ∧
      0 ≤ gathered next (fun _ => relieved) carrying activities := by
  induction activities generalizing carrying entries with
  | nil =>
    cases booked
    exact ⟨nofun, rfl, rfl, le_refl _, le_refl _⟩
  | cons a rest ih =>
    obtain ⟨entry, later, first, tail, rfl⟩ := bookAll_cons booked
    obtain ⟨balanced, carried, income, additions, disposals⟩ := ih tail
    have now := booked_of_book first
    simp only [List.flatMap_append, cryptoDebits_append, incomeCredits_append, gathered]
    refine ⟨?_, ?_, ?_, add_nonneg now.addition additions, add_nonneg now.relieved disposals⟩
    · intro e member
      exact (List.mem_append.mp member).elim (now.balanced e) (balanced e)
    · rw [now.carried, carried]
    · rw [now.income, income]

theorem next_nonneg {a : Activity} {made : Option JournalEntry} (nonneg : 0 ≤ carrying)
    (admissible : a.Admissible carrying) (booked : a.book currency carrying = .ok made) :
    0 ≤ a.next carrying := by
  have additions := (booked_of_book booked).addition
  cases a with
  | acquisition basis fee treatment => exact add_nonneg nonneg additions
  | remeasurement fairValue => exact admissible
  | disposal proceeds carryingRelieved => exact Int.sub_nonneg_of_le admissible.2

theorem closing_nonneg {activities : List Activity} {entries : List JournalEntry}
    (nonneg : 0 ≤ carrying) (admitted : Along next Admissible carrying activities)
    (booked : bookAll currency carrying activities = .ok entries) :
    0 ≤ run next carrying activities := by
  induction activities generalizing carrying entries with
  | nil => exact nonneg
  | cons a rest ih =>
    obtain ⟨entry, later, first, tail, -⟩ := bookAll_cons booked
    exact ih (next_nonneg nonneg admitted.1 first) admitted.2 tail

theorem next_eq (carrying : Int) (a : Activity) :
    a.next carrying - carrying = a.addition - a.relieved + a.mark carrying := by
  cases a with
  | acquisition => simp [next, addition, relieved, mark]
  | remeasurement => simp [next, addition, relieved, mark]
  | disposal =>
    simp only [next, addition, relieved, mark]
    omega

/-- The general ledger and the roll-forward of a period agree. -/
structure Agree (asset currency : AssetId) (opening : I128) (activities : List Activity)
    (entries : List JournalEntry) : Prop where
  balanced : ∀ entry ∈ entries, Balanced currency entry.lines
  carrying : opening.val + cryptoDebits (entries.flatMap JournalEntry.lines) =
    run next opening.val activities
  income : incomeCredits (entries.flatMap JournalEntry.lines) =
    gathered next (fun _ => proceeds) opening.val activities -
      gathered next (fun _ => relieved) opening.val activities +
      gathered next mark opening.val activities -
      gathered next (fun _ => expensedFee) opening.val activities
  rolls : ∀ additions disposals remeasurement closing : I128, ∀ evidence,
    additions.val = gathered next (fun _ => addition) opening.val activities →
    disposals.val = gathered next (fun _ => relieved) opening.val activities →
    remeasurement.val = gathered next mark opening.val activities →
    closing.val = run next opening.val activities →
      RollForwardRow.new asset ⟨currency, opening⟩ ⟨currency, additions⟩ ⟨currency, disposals⟩
        ⟨currency, remeasurement⟩ ⟨currency, closing⟩ evidence =
      if opening.val + additions.val < 2 ^ 127 then
        .ok ⟨asset, ⟨currency, opening⟩, ⟨currency, additions⟩, ⟨currency, disposals⟩,
          ⟨currency, remeasurement⟩, ⟨currency, closing⟩, dedupAdjacent (sortBy id evidence)⟩
      else .error .overflow

/-- Whatever happens in a period, if every builder makes its entry then the ledger and the
roll-forward row close at the same amount. -/
theorem ledger_rolls_forward {currency : AssetId} {opening : I128} {activities : List Activity}
    {entries : List JournalEntry} (opens : 0 ≤ opening.val)
    (admitted : Along next Admissible opening.val activities)
    (booked : bookAll currency opening.val activities = .ok entries) (asset : AssetId) :
    Agree asset currency opening activities entries := by
  obtain ⟨balanced, carried, income, additionsNonneg, disposalsNonneg⟩ := booked_period booked
  have closed := gathered_differences next id opening.val activities
  simp only [id] at closed
  constructor
  case balanced => exact balanced
  case carrying =>
    rw [carried, closed]
    exact add_sub_cancel _ _
  case income => simp only [income, gathered_sub, gathered_add]
  case rolls =>
    intro additions disposals remeasurement closing evidence added disposed marked closes
    have rolls := closed
    simp only [next_eq, gathered_add, gathered_sub] at rolls
    refine RollForwardRow.new_eq evidence opens (added ▸ additionsNonneg)
      (disposed ▸ disposalsNonneg) (closes ▸ closing_nonneg opens admitted booked) ?_
    omega

def quarter : List Activity :=
  [.acquisition (.literal 70) (.literal 1) .expense (.filled 9),
    .remeasurement (.literal 100) (.filled 9),
    .disposal (.literal 60) (.literal 40) (.filled 9),
    .acquisition (.literal 10) (.literal 1) .capitalize (.filled 9)]

theorem ledger_rolls_forward_quarter : ∃ entries,
    bookAll ⟨"USD"⟩ 0 quarter = .ok entries ∧ entries.length = 4 ∧
      incomeCredits (entries.flatMap JournalEntry.lines) = 49 ∧
      RollForwardRow.new ⟨"BTC"⟩ ⟨⟨"USD"⟩, 0⟩ ⟨⟨"USD"⟩, .literal 81⟩ ⟨⟨"USD"⟩, .literal 40⟩
        ⟨⟨"USD"⟩, .literal 30⟩ ⟨⟨"USD"⟩, .literal 71⟩ [] =
      .ok ⟨⟨"BTC"⟩, ⟨⟨"USD"⟩, 0⟩, ⟨⟨"USD"⟩, .literal 81⟩, ⟨⟨"USD"⟩, .literal 40⟩,
        ⟨⟨"USD"⟩, .literal 30⟩, ⟨⟨"USD"⟩, .literal 71⟩, []⟩ := by
  have admitted : Along next Admissible (0 : I128).val quarter := by
    simp only [quarter, Along, Admissible, next]
    decide
  have made : ∃ entries, bookAll ⟨"USD"⟩ (0 : I128).val quarter = .ok entries ∧
      entries.length = 4 := ⟨_, rfl, rfl⟩
  obtain ⟨entries, booked, four⟩ := made
  have agree := ledger_rolls_forward (le_refl 0) admitted booked ⟨"BTC"⟩
  refine ⟨entries, booked, four, agree.income.trans rfl, ?_⟩
  exact (agree.rolls _ _ _ _ [] rfl rfl rfl rfl).trans (if_pos (by decide))

end Activity

end Treasury
