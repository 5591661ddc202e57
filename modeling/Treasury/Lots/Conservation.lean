import Treasury.Lots.Amounts
import Treasury.Lots.Disposal
import Treasury.Lots.Failure

/-! Conservation over whole runs: what was acquired is in the open lots or in the records of
the disposals, and a transfer moves what it moves without loss. -/
namespace Treasury.LotBook
open Kit

theorem tally_relieved {K : Type} [DecidableEq K] (view : AssetId × AssetId → K) (k : K)
    {book : LotBook} (agree : Agree book.lots) (tidy : ∀ l ∈ book.lots, l.Tidy) {asset : AssetId}
    {venue : VenueId} {atoms : I128} {method : ReliefMethod} {plan : ReliefPlan} {out : List Lot}
    {reliefs : List LotRelief} (planned : book.planRelief asset venue atoms method = .ok plan)
    (run : Relieves book.lots plan out (.ok reliefs))
    (nonneg : ∀ l ∈ book.lots, l.NonNegative) :
    tally (view ∘ Lot.group) Lot.amounts k (out.filter (0 < ·.atoms)) +
      tally (view ∘ LotRelief.group asset) LotRelief.amounts k reliefs =
    tally (view ∘ Lot.group) Lot.amounts k book.lots := by
  rw [tally_filter, run.conserves view k (planRelief_asset agree planned)]
  intro l h dropped
  apply (run.tidy_left tidy l h).empty
  have least := (run.nonNegative_left nonneg l h).atoms
  have most := not_lt.mp (of_decide_eq_false dropped)
  exact le_antisymm most least

section
variable [External]

theorem transfer_relieved {book : LotBook} (agree : Agree book.lots) {asset : AssetId}
    {fromVenue : VenueId} {atoms : I128} {plan : ReliefPlan} {out : List Lot}
    {reliefs : List LotRelief} (planned : book.planRelief asset fromVenue atoms .fifo = .ok plan)
    (relieving : relieveAll book.lots plan = (out, .ok reliefs))
    (run : Relieves book.lots plan out (.ok reliefs)) (toVenue : VenueId)
    (transferEvent : ContentHash) :
    book.transfer asset fromVenue toVenue atoms transferEvent =
      (⟨book.tenant, out.filter (0 < ·.atoms) ++
          (plan.filterMap (book.movedOpening asset toVenue transferEvent)).map Opening.opened⟩,
        .ok ((plan.filterMap (book.movedOpening asset toVenue transferEvent)).map fun o =>
          sha256 o.bytes)) := by
  obtain ⟨origins, captured, known⟩ := originsOf_found (planRelief_found agree planned)
  have opening := @openMoved_eq _ book out (out.filter (0 < ·.atoms)) plan reliefs origins asset
    toVenue transferEvent run.drawn known
  simp only [transfer, planned, captured, applyRelief, relieving, opening]

theorem transfer_eq_ok {book : LotBook} (sound : ∀ l ∈ book.lots, l.NonNegative)
    (agree : Agree book.lots) {asset : AssetId} {fromVenue toVenue : VenueId} {atoms : I128}
    {transferEvent : ContentHash} {ids : List LotId}
    (transferred : (book.transfer asset fromVenue toVenue atoms transferEvent).2 = .ok ids) :
    ∃ plan out reliefs, book.planRelief asset fromVenue atoms .fifo = .ok plan ∧
      Relieves book.lots plan out (.ok reliefs) ∧
      (book.transfer asset fromVenue toVenue atoms transferEvent).1.lots =
        out.filter (0 < ·.atoms) ++
          (plan.filterMap (book.movedOpening asset toVenue transferEvent)).map Opening.opened ∧
      ids = (plan.filterMap (book.movedOpening asset toVenue transferEvent)).map fun o =>
        sha256 o.bytes := by
  cases planning : book.planRelief asset fromVenue atoms .fifo with
  | error e => simp [transfer, planning] at transferred
  | ok plan =>
    have run := planRelief_relieves sound agree planning
    cases relieving : relieveAll book.lots plan with
    | mk out result =>
      rw [relieving] at run
      cases result with
      | error e =>
        obtain ⟨origins, captured, _⟩ := originsOf_found (planRelief_found agree planning)
        simp [transfer, planning, captured, applyRelief, relieving] at transferred
      | ok reliefs =>
        rw [transfer_relieved agree planning relieving run] at transferred ⊢
        exact ⟨plan, out, reliefs, rfl, run, rfl, (Except.ok.inj transferred).symm⟩

theorem tally_moved {K : Type} [DecidableEq K] (view : AssetId × AssetId → K) (k : K)
    {book : LotBook} {out : List Lot} {plan : ReliefPlan} {reliefs : List LotRelief}
    (drawn : List.Forall₂ (fun entry relief =>
      ∃ lot left, Drawn book.lots out entry lot left relief) plan reliefs)
    (asset : AssetId) (toVenue : VenueId) (transferEvent : ContentHash) :
    tally (view ∘ Lot.group) Lot.amounts k
      ((plan.filterMap (book.movedOpening asset toVenue transferEvent)).map Opening.opened) =
    tally (view ∘ LotRelief.group asset) LotRelief.amounts k reliefs := by
  induction drawn with
  | nil => rfl
  | cons first _ ih =>
    obtain ⟨lot, left, drawn⟩ := first
    rw [List.filterMap_cons_some (movedOpening_drawn drawn asset toVenue transferEvent),
      List.map_cons, tally_cons, tally_cons, ih]
    rfl

/-- What a transfer to another venue leaves of the book it was made in. -/
structure Moved (book after : LotBook) (ids : List LotId) : Prop where
  amounts : ∀ k, tally Lot.group Lot.amounts k after.lots = tally Lot.group Lot.amounts k book.lots
  assetAmounts : ∀ asset,
    tally Lot.asset Lot.amounts asset after.lots = tally Lot.asset Lot.amounts asset book.lots
  created : ∃ kept created, after.lots = kept ++ created ∧
    (kept.map Lot.lotId).Sublist (book.lots.map Lot.lotId) ∧ created.map Lot.lotId = ids ∧
    ∀ l ∈ created, (∃ origin ∈ book.lots, l.movedFrom = some origin.lotId) ∧
      ∀ origin ∈ book.lots, l.movedFrom = some origin.lotId → l.acquiredAt = origin.acquiredAt

theorem transfer_moved {book : LotBook} (nonneg : ∀ l ∈ book.lots, l.NonNegative)
    (agree : Agree book.lots) (tidy : ∀ l ∈ book.lots, l.Tidy) {asset : AssetId}
    {fromVenue toVenue : VenueId} {atoms : I128} {transferEvent : ContentHash} {ids : List LotId}
    (transferred : (book.transfer asset fromVenue toVenue atoms transferEvent).2 = .ok ids) :
    Moved book (book.transfer asset fromVenue toVenue atoms transferEvent).1 ids := by
  obtain ⟨plan, out, reliefs, planned, run, after, rfl⟩ := transfer_eq_ok nonneg agree transferred
  have same {K : Type} [DecidableEq K] (view : AssetId × AssetId → K) (k : K) :
      tally (view ∘ Lot.group) Lot.amounts k
        (book.transfer asset fromVenue toVenue atoms transferEvent).1.lots =
      tally (view ∘ Lot.group) Lot.amounts k book.lots := by
    rw [after, tally_append, tally_moved view k run.drawn]
    exact tally_relieved view k agree tidy planned run nonneg
  refine ⟨same id, same Prod.fst, _, _, after, ?_, ?_, ?_⟩
  · rw [← run.lotIds_eq]
    exact List.Sublist.map _ List.filter_sublist
  · rw [List.map_map]
    rfl
  · intro l h
    obtain ⟨o, isMoved, rfl⟩ := List.mem_map.mp h
    obtain ⟨entry, inPlan, opening⟩ := List.mem_filterMap.mp isMoved
    obtain ⟨relief, lot, left, drawn⟩ := drawn_of_mem run.drawn inPlan
    rw [movedOpening_drawn drawn] at opening
    obtain rfl := Option.some.inj opening
    obtain ⟨inLots, _⟩ := findLot_mem drawn.found
    have named : relief.lotId = lot.lotId := by rw [drawn.relieved.record]
    refine ⟨⟨lot, inLots, congrArg some named⟩, fun origin inBook from' => ?_⟩
    have sameId : origin.lotId = lot.lotId := (Option.some.inj from').symm.trans named
    exact (agree origin inBook lot inLots sameId).2.2.symm

/- Runs. -/

theorem acquired_tidy {book : LotBook} {call : Call} {o : Opening}
    (opens : book.acquired call = some o) : o.opened.Tidy := by
  cases call with
  | acquire =>
    obtain ⟨⟨positive, _, _, currency⟩, h⟩ := Option.ite_none_right_eq_some.mp opens
    cases h
    exact Lot.tidy_of_pos positive currency.symm
  | dispose => contradiction
  | transfer => contradiction

theorem moved_tidy {book : LotBook} {out : List Lot} {plan : ReliefPlan}
    {reliefs : List LotRelief} {call : Call} {o : Opening}
    (drawn : List.Forall₂ (fun entry relief =>
      ∃ lot left, Drawn book.lots out entry lot left relief) plan reliefs)
    (isMoved : o ∈ book.moved plan call) : o.opened.Tidy := by
  obtain ⟨entry, _, relief, lot, left, drawn, atoms, basis, fee, _⟩ := moved_drawn drawn isMoved
  have recorded := drawn.relieved.record
  apply Lot.tidy_of_pos
  · have positive := drawn.positive
    rw [recorded] at atoms
    simpa only [Opening.opened, Opening.lot, atoms] using positive
  · simp only [Opening.opened, Opening.lot, basis, fee]
    rw [recorded]

theorem tidy_step {book : LotBook} (nonneg : ∀ l ∈ book.lots, l.NonNegative)
    (agree : Agree book.lots) (tidy : ∀ l ∈ book.lots, l.Tidy) (call : Call) :
    ∀ l ∈ (book.step call).lots, l.Tidy := by
  cases outcome nonneg agree call with
  | opened o opens does =>
    rw [step, does]
    refine List.forall_mem_append.mpr ⟨tidy, ?_⟩
    simpa using acquired_tidy opens
  | refused e opens unplanned does =>
    rw [step, does]
    exact tidy
  | stopped plan out e planned run does =>
    rw [step, does]
    exact run.tidy_left tidy
  | carried plan out reliefs planned run does settles =>
    rw [does]
    refine List.forall_mem_append.mpr ⟨fun l h => ?_, fun l h => ?_⟩
    · exact run.tidy_left tidy l (List.mem_filter.mp h).1
    · obtain ⟨o, isMoved, rfl⟩ := List.mem_map.mp h
      exact moved_tidy run.drawn isMoved

def openAmounts (k : AssetId × AssetId) (book : LotBook) : Amounts :=
  tally Lot.group Lot.amounts k book.lots

def acquiredAmounts (k : AssetId × AssetId) (_ : LotBook) : Call → Amounts
  | .acquire asset _ atoms costBasis acquisitionFee _ _ =>
    if (asset, costBasis.asset) = k then
      (atoms.val, costBasis.atoms.val, acquisitionFee.atoms.val)
    else 0
  | _ => 0

def relievedAmounts (k : AssetId × AssetId) (book : LotBook) : Call → Amounts
  | .dispose asset venue atoms method policyHash proceeds =>
    match (book.dispose asset venue atoms method policyHash proceeds).2 with
    | .ok d => tally (LotRelief.group asset) LotRelief.amounts k d.reliefs
    | .error _ => 0
  | _ => 0

def Succeeds (book : LotBook) (call : Call) : Prop := (book.perform call).2 = .ok ()

theorem amounts_step {book : LotBook} (nonneg : ∀ l ∈ book.lots, l.NonNegative)
    (agree : Agree book.lots) (tidy : ∀ l ∈ book.lots, l.Tidy) (k : AssetId × AssetId)
    {call : Call} (succeeds : book.Succeeds call) :
    (book.step call).openAmounts k + book.relievedAmounts k call =
      book.openAmounts k + book.acquiredAmounts k call := by
  unfold Succeeds at succeeds
  cases call with
  | acquire asset venue atoms costBasis acquisitionFee acquiredAt sourceEvent =>
    cases acquire_outcome book asset venue atoms costBasis acquisitionFee acquiredAt
        sourceEvent with
    | opened o opens does =>
      obtain ⟨_, h⟩ := Option.ite_none_right_eq_some.mp opens
      cases h
      simp only [step, does, openAmounts, tally_append, tally_cons, tally_nil, relievedAmounts,
        acquiredAmounts, add_zero]
      rfl
    | refused e opens unplanned does => simp [does] at succeeds
    | stopped plan out e planned => contradiction
    | carried plan out reliefs planned => contradiction
  | dispose asset venue atoms method policyHash proceeds =>
    cases disposed : (book.dispose asset venue atoms method policyHash proceeds).2 with
    | error e => simp [perform, disposed, Except.map] at succeeds
    | ok d =>
      obtain ⟨plan, out, planned, relieving, after, _⟩ := dispose_eq_ok disposed
      have run := planRelief_relieves nonneg agree planned
      rw [relieving] at run
      have given := tally_relieved id k agree tidy planned run nonneg
      simp only [step, perform, after, openAmounts, relievedAmounts, disposed, acquiredAmounts,
        add_zero]
      exact given
  | transfer asset fromVenue toVenue atoms transferEvent =>
    cases transferred : (book.transfer asset fromVenue toVenue atoms transferEvent).2 with
    | error e => simp [perform, transferred, Except.map] at succeeds
    | ok ids =>
      simp only [relievedAmounts, acquiredAmounts, add_zero]
      exact (transfer_moved nonneg agree tidy transferred).amounts k

theorem succeeds_of_carried {book : LotBook} (nonneg : ∀ l ∈ book.lots, l.NonNegative)
    (agree : Agree book.lots) {call : Call} {plan : ReliefPlan} (planned : book.Planned call plan)
    (carried : Carried book.lots plan) (settled : book.Settles plan call) : book.Succeeds call := by
  cases outcome nonneg agree call with
  | opened o opens does => exact absurd planned (acquired_unplanned opens plan)
  | refused e opens unplanned does => exact absurd planned (unplanned plan)
  | stopped other out e plannedToo run does =>
    obtain rfl := planned_unique planned plannedToo
    obtain ⟨_, accepted⟩ := run.ok_iff_carried.mpr carried
    contradiction
  | carried other out reliefs plannedToo run does settles =>
    obtain rfl := planned_unique planned plannedToo
    cases result : (book.perform call).2 with
    | error e => exact absurd settled (settles.mp ⟨e, result⟩)
    | ok done => exact result

/-- A sound book with nothing left in its empty lots. -/
structure Kept (envelopes : Set Bytes) (book : LotBook) : Prop extends Sound envelopes book where
  tidy : ∀ l ∈ book.lots, l.Tidy

variable {envelopes : Set Bytes} (injective : Set.InjOn sha256 envelopes)
include injective

theorem kept_step {book : LotBook} (kept : book.Kept envelopes) (call : Call)
    (hashed : ∀ o, book.Opens call o → o.bytes ∈ envelopes) : (book.step call).Kept envelopes :=
  ⟨sound_step injective kept.toSound call hashed,
    tidy_step kept.nonneg (kept.agree injective) kept.tidy call⟩

/-- Of what was acquired, nothing is lost over any run of calls that succeed. In every book
that calls lead to, a transfer keeps all totals and the times of acquisition, and the totals of
a disposal are those of its records. -/
theorem lots_conserved (tenant : TenantId) (calls : List Call)
    (hashed : Along step (fun book call => ∀ o, book.Opens call o → o.bytes ∈ envelopes)
      (new tenant) calls) :
    (Along step Succeeds (new tenant) calls → ∀ k,
      (run step (new tenant) calls).openAmounts k +
          gathered step (relievedAmounts k) (new tenant) calls =
        gathered step (acquiredAmounts k) (new tenant) calls) ∧
    (∀ asset fromVenue toVenue atoms transferEvent ids,
      ((run step (new tenant) calls).transfer asset fromVenue toVenue atoms transferEvent).2 =
          .ok ids →
        Moved (run step (new tenant) calls)
          ((run step (new tenant) calls).transfer asset fromVenue toVenue atoms transferEvent).1
          ids) ∧
    (∀ asset venue atoms method policyHash proceeds d,
      ((run step (new tenant) calls).dispose asset venue atoms method policyHash proceeds).2 =
          .ok d →
        Balanced d atoms proceeds) ∧
    ∀ l ∈ (run step (new tenant) calls).lots, l.acquisitionFee.asset = l.costBasis.asset := by
  have start : (new tenant).Kept envelopes := ⟨new_sound envelopes tenant, by simp [new]⟩
  have kept := run_guarded step _ (Kept envelopes)
    (fun _ call kept hashed => kept_step injective kept call hashed) calls _ start hashed
  have agree := kept.agree injective
  refine ⟨fun succeeds k => ?_, ?_, ?_, fun l h => (kept.tidy l h).currency⟩
  · have balance := run_balanced step _ (Kept envelopes) (openAmounts k) (relievedAmounts k)
      (acquiredAmounts k) (fun _ call kept admitted => kept_step injective kept call admitted.1)
      (fun _ _ kept admitted =>
        amounts_step kept.nonneg (kept.agree injective) kept.tidy k admitted.2)
      calls _ start (hashed.and succeeds)
    simpa [openAmounts, new] using balance
  · intro asset fromVenue toVenue atoms transferEvent ids transferred
    exact transfer_moved kept.nonneg agree kept.tidy transferred
  · intro asset venue atoms method policyHash proceeds d disposed
    exact dispose_balanced kept.nonneg agree disposed

end

def forty : I128 := ⟨40, by decide, by decide⟩

section
variable [External]

theorem planned_some :
    Planned ⟨⟨"acme"⟩, [bought.opened]⟩ (sell forty .fifo) [(bought.opened.lotId, forty)] := by
  have here : sortBy lotKey ([bought.opened].filter fun l =>
      l.asset = bought.asset ∧ l.venue = bought.venue) = [bought.opened] := rfl
  have currency : ¬bought.opened.costBasis.asset ≠ bought.opened.costBasis.asset := not_not.mpr rfl
  constructor
  · exact planRelief_eq_ok.mpr
      ⟨by decide, _, bought.atoms, congrArg Except.ok here, rfl, by decide, rfl⟩
  · simp only [basisCurrency, checkCurrency, findLot_bought, currency, if_false]
    rfl

theorem succeeds_sell : Succeeds ⟨⟨"acme"⟩, [bought.opened]⟩ (sell forty .fifo) := by
  have nonneg : ∀ l ∈ [bought.opened], l.NonNegative := List.forall_mem_singleton.mpr
    ⟨(by decide : 0 ≤ bought.atoms.val), (by decide : 0 ≤ bought.costBasis.atoms.val), le_rfl⟩
  have able : Relievable bought.opened forty := ⟨(by decide : 0 < bought.atoms.val),
    (by decide : bought.costBasis.atoms.val * forty.val < 2 ^ 127),
    (by decide : bought.acquisitionFee.atoms.val * forty.val < 2 ^ 127)⟩
  have part : [share bought.costBasis.atoms forty bought.atoms].sum = 400 := by decide
  refine succeeds_of_carried nonneg (agree_of_distinct (by simp)) planned_some
    ⟨List.nodup_singleton _, List.forall_mem_singleton.mpr ⟨_, findLot_bought, able⟩⟩ ?_
  simp only [Settles, sell, relievedBasis, List.map_cons, List.map_nil, findLot_bought]
  exact ⟨part.trans_lt (by decide), part ▸ (by decide)⟩

theorem succeeds_buy : Succeeds (new ⟨"acme"⟩) buy := by
  cases acquire_outcome (new ⟨"acme"⟩) bought.asset bought.venue bought.atoms bought.costBasis
      bought.acquisitionFee bought.acquiredAt bought.sourceEvent with
  | opened o opens does => exact congrArg Prod.snd does
  | refused e opens => exact absurd opens (by decide)
  | stopped plan out e planned => contradiction
  | carried plan out reliefs planned => contradiction

omit [External] in
theorem not_opens_sell (book : LotBook) (atoms : I128) (method : ReliefMethod) (o : Opening) :
    ¬book.Opens (sell atoms method) o := by
  rintro (opens | ⟨plan, _, _, isMoved⟩)
  · contradiction
  · contradiction

end

theorem lots_conserved_sold :
    letI : External := reference
    (run step (new ⟨"acme"⟩) [buy, sell forty .fifo]).openAmounts (⟨"BTC"⟩, ⟨"USD"⟩) +
      gathered step (relievedAmounts (⟨"BTC"⟩, ⟨"USD"⟩)) (new ⟨"acme"⟩) [buy, sell forty .fifo] =
        (100, 1000, 0) := by
  let _ : External := reference
  have succeeds : Along step Succeeds (new ⟨"acme"⟩) [buy, sell forty .fifo] :=
    ⟨succeeds_buy, step_buy (new ⟨"acme"⟩) rfl ▸ succeeds_sell, trivial⟩
  obtain ⟨conserved, _⟩ := lots_conserved (Set.injOn_singleton sha256 bought.bytes) ⟨"acme"⟩
    [buy, sell forty .fifo] ⟨fun o opens => opens_buy rfl opens ▸ Set.mem_singleton _,
      fun o opens => absurd opens (not_opens_sell _ _ _ o), trivial⟩
  rw [conserved succeeds]
  simp [gathered, acquiredAmounts, buy, sell, bought]

end Treasury.LotBook
