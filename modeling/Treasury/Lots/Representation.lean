import Treasury.Lots.Failure

/-! The representation of a lot book: distinct ids, no empty lot, no negative money, one
currency a lot. A run keeps it exactly as long as every call is admitted. -/
namespace Treasury.LotBook
open Kit

/-- A lot with a quantity left and with basis and fee in one currency. -/
structure WellFormed (l : Lot) : Prop where
  positive : 0 < l.atoms.val
  basis : 0 ≤ l.costBasis.atoms.val
  fee : 0 ≤ l.acquisitionFee.atoms.val
  currency : l.costBasis.asset = l.acquisitionFee.asset

structure Represented (book : LotBook) : Prop where
  distinct : (book.lots.map Lot.lotId).Nodup
  wellFormed : ∀ l ∈ book.lots, WellFormed l

theorem WellFormed.nonNegative {l : Lot} (h : WellFormed l) : l.NonNegative :=
  ⟨h.positive.le, h.basis, h.fee⟩

theorem Represented.nonneg {book : LotBook} (h : book.Represented) :
    ∀ l ∈ book.lots, l.NonNegative := fun l inLots => (h.wellFormed l inLots).nonNegative

theorem new_represented (tenant : TenantId) : (new tenant).Represented :=
  ⟨by simp [new], by simp [new]⟩

theorem wellFormed_left {lots out : List Lot} {plan : ReliefPlan}
    {result : Except LotError (List LotRelief)} (run : Relieves lots plan out result)
    (wellFormed : ∀ l ∈ lots, WellFormed l) : ∀ l ∈ out.filter (0 < ·.atoms), WellFormed l := by
  have currency : ∀ l ∈ out, l.costBasis.asset = l.acquisitionFee.asset := by
    apply run.forall_left _ fun l h => (wellFormed l h).currency
    intro lot take left relief _ _ _ _ relieved _
    rw [relieved.facts]
  have nonneg := run.nonNegative_left fun l h => (wellFormed l h).nonNegative
  intro l h
  obtain ⟨inOut, positive⟩ := List.mem_filter.mp h
  exact ⟨of_decide_eq_true positive, (nonneg l inOut).basis, (nonneg l inOut).fee, currency l inOut⟩

section
variable [External]

def newIds (book : LotBook) (plan : ReliefPlan) (call : Call) : List LotId :=
  (book.moved plan call).map fun o => sha256 o.bytes

/-- The lots a call moves get ids of their own: distinct, and not those of lots that the
plan does not take whole. -/
structure Fresh (book : LotBook) (plan : ReliefPlan) (call : Call) : Prop where
  distinct : (book.newIds plan call).Nodup
  unused : ∀ l ∈ book.lots, (l.lotId, l.atoms) ∉ plan → l.lotId ∉ book.newIds plan call

/-- An acquisition gets an id that no open lot has; a plan is refused at its first lot, or
carried out with fresh ids. -/
structure Admitted (book : LotBook) (call : Call) : Prop where
  acquires : ∀ o, book.acquired call = some o → ∀ l ∈ book.lots, l.lotId ≠ sha256 o.bytes
  relieves : ∀ plan, book.Planned call plan →
    FirstRefused book.lots plan ∨ Carried book.lots plan ∧ book.Fresh plan call

theorem acquired_wellFormed {book : LotBook} {call : Call} {o : Opening}
    (opens : book.acquired call = some o) : WellFormed o.opened := by
  cases call with
  | acquire =>
    obtain ⟨⟨positive, basis, fee, currency⟩, h⟩ := Option.ite_none_right_eq_some.mp opens
    cases h
    exact ⟨positive, basis, fee, currency⟩
  | dispose => contradiction
  | transfer => contradiction

theorem moved_wellFormed {book : LotBook} {out : List Lot} {plan : ReliefPlan}
    {reliefs : List LotRelief} {call : Call} {o : Opening}
    (run : Relieves book.lots plan out (.ok reliefs)) (isMoved : o ∈ book.moved plan call) :
    WellFormed o.opened := by
  have nonneg := moved_nonNegative run.drawn isMoved
  obtain ⟨entry, _, relief, lot, left, drawn, atoms, basis, fee, _⟩ := moved_drawn run.drawn isMoved
  refine ⟨?_, nonneg.basis, nonneg.fee, ?_⟩
  · have recorded : relief.atoms = entry.2 := by rw [drawn.relieved.record]
    simp only [Opening.opened, Opening.lot, atoms, recorded]
    exact drawn.positive
  · simp only [Opening.opened, Opening.lot, basis, fee]
    rw [drawn.relieved.record]

omit [External] in
theorem represented_append {book : LotBook} (represented : book.Represented) {lot : Lot}
    (wellFormed : WellFormed lot) :
    Represented ⟨book.tenant, book.lots ++ [lot]⟩ ↔ ∀ l ∈ book.lots, l.lotId ≠ lot.lotId := by
  constructor
  · rintro ⟨distinct, _⟩ l h same
    rw [List.map_append, List.nodup_append] at distinct
    exact distinct.2.2 l.lotId (List.mem_map_of_mem h) lot.lotId (by simp) same
  · intro unused
    constructor
    · rw [List.map_append, List.nodup_append]
      refine ⟨represented.distinct, by simp, fun id h other isLot => ?_⟩
      obtain ⟨l, inLots, rfl⟩ := List.mem_map.mp h
      obtain rfl : other = lot.lotId := by simpa using isLot
      exact unused l inLots
    · intro l h
      rcases List.mem_append.mp h with h | h
      · exact represented.wellFormed l h
      · obtain rfl := List.mem_singleton.mp h
        exact wellFormed

/-- A carried plan leads to a represented book exactly when what it moves gets fresh ids. -/
theorem represented_carried {book : LotBook} (represented : book.Represented) {call : Call}
    {plan : ReliefPlan} {out : List Lot} {reliefs : List LotRelief}
    (run : Relieves book.lots plan out (.ok reliefs)) :
    Represented ⟨book.tenant,
      out.filter (0 < ·.atoms) ++ (book.moved plan call).map Opening.opened⟩ ↔
      book.Fresh plan call := by
  have survivors := run.survivors represented.distinct fun l h => (represented.wellFormed l h).positive
  have openedIds : ((book.moved plan call).map Opening.opened).map Lot.lotId =
      book.newIds plan call := by
    rw [List.map_map]
    rfl
  have ids : ((out.filter (0 < ·.atoms) ++ (book.moved plan call).map Opening.opened).map
      Lot.lotId) = (out.filter (0 < ·.atoms)).map Lot.lotId ++ book.newIds plan call := by
    rw [List.map_append, openedIds]
  constructor
  · rintro ⟨distinct, _⟩
    rw [ids, List.nodup_append] at distinct
    obtain ⟨_, distinctNew, apart⟩ := distinct
    refine ⟨distinctNew, fun l inLots kept again => ?_⟩
    exact apart l.lotId ((survivors l.lotId).mpr ⟨l, inLots, rfl, kept⟩) l.lotId again rfl
  · rintro ⟨distinctNew, unused⟩
    constructor
    · have distinctOut : (out.map Lot.lotId).Nodup := run.lotIds_eq ▸ represented.distinct
      rw [ids, List.nodup_append]
      refine ⟨distinctOut.sublist (List.filter_sublist.map Lot.lotId), distinctNew, ?_⟩
      rintro id survives other isNew rfl
      obtain ⟨l, inLots, rfl, kept⟩ := (survivors id).mp survives
      exact unused l inLots kept isNew
    · intro l h
      rcases List.mem_append.mp h with h | h
      · exact wellFormed_left run represented.wellFormed l h
      · obtain ⟨o, isMoved, rfl⟩ := List.mem_map.mp h
        exact moved_wellFormed run isMoved

theorem represented_step {book : LotBook} (represented : book.Represented) (call : Call) :
    (book.step call).Represented ↔ book.Admitted call := by
  have idle {plan : ReliefPlan} (planned : book.Planned call plan) :
      ∀ o, book.acquired call = some o → ∀ l ∈ book.lots, l.lotId ≠ sha256 o.bytes :=
    fun o opens => absurd planned (acquired_unplanned opens plan)
  cases outcome represented.nonneg (agree_of_distinct represented.distinct) call with
  | opened o opens does =>
    rw [step, does]
    rw [represented_append represented (acquired_wellFormed opens)]
    constructor
    · intro unused
      refine ⟨fun p opensToo => ?_, fun plan planned => absurd planned (acquired_unplanned opens plan)⟩
      cases opens.symm.trans opensToo
      exact unused
    · exact fun admitted => admitted.acquires o opens
  | refused e opens unplanned does =>
    refine iff_of_true ?_ ⟨by simp [opens], fun plan planned => absurd planned (unplanned plan)⟩
    rw [step, does]
    exact represented
  | stopped plan out e planned run does =>
    rw [step, does]
    by_cases refused : FirstRefused book.lots plan
    · refine iff_of_true ?_ ⟨idle planned, fun other plannedToo => .inl ?_⟩
      · rw [(run.unchanged_of_refused refused).1]
        exact represented
      · exact planned_unique planned plannedToo ▸ refused
    · refine iff_of_false ?_ (fun admitted => ?_)
      · rintro ⟨_, wellFormed⟩
        obtain ⟨l, inOut, empty⟩ := run.stopped_leaves_empty refused
        exact (wellFormed l inOut).positive.ne' empty
      · rcases admitted.relieves plan planned with first | ⟨carried, _⟩
        · exact refused first
        · obtain ⟨_, accepted⟩ := run.ok_iff_carried.mpr carried
          contradiction
  | carried plan out reliefs planned run does settles =>
    have carried := run.ok_iff_carried.mp ⟨reliefs, rfl⟩
    rw [does, represented_carried represented run]
    constructor
    · intro fresh
      refine ⟨idle planned, fun other plannedToo => .inr ?_⟩
      exact planned_unique planned plannedToo ▸ ⟨carried, fresh⟩
    · intro admitted
      rcases admitted.relieves plan planned with refused | ⟨_, fresh⟩
      · exact absurd refused carried.not_refused
      · exact fresh

/-- A run keeps its book represented throughout exactly when all its calls are admitted. -/
theorem represented_throughout (tenant : TenantId) (calls : List Call) :
    Throughout step Represented (new tenant) calls ↔ Along step Admitted (new tenant) calls :=
  throughout_iff_along step Admitted Represented (fun _ call represented =>
    represented_step represented call) calls _ (new_represented tenant)

end

/-- Buying twice with the same facts gives two lots one id, and a sale that names a lot
twice leaves it behind empty. -/
theorem representation_lost :
    letI : External := reference
    ¬Throughout step Represented (new ⟨"acme"⟩) [buy, buy] ∧
      ¬Throughout step Represented (new ⟨"acme"⟩) [buy, sell ⟨150, by decide, by decide⟩
        (.specificLots [bought.opened.lotId, bought.opened.lotId])] := by
  let _ : External := reference
  constructor
  · rintro ⟨_, _, twice⟩
    have again := step_buy ⟨⟨"acme"⟩, [bought.opened]⟩ rfl
    rw [step_buy (new ⟨"acme"⟩) rfl] at twice
    rw [new, List.nil_append, again] at twice
    exact absurd twice.distinct (by simp)
  · rintro ⟨_, once, sold⟩
    rw [step_buy (new ⟨"acme"⟩) rfl, new, List.nil_append] at once sold
    have admitted := (represented_step once _).mp sold
    rcases admitted.relieves _ planned_named_twice with ⟨lot, found, unable⟩ | ⟨carried, _⟩
    · cases findLot_bought.symm.trans found
      exact unable (by decide)
    · exact absurd carried.distinct (by simp)

end Treasury.LotBook
