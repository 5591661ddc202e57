import Treasury.Kit.Run
import Treasury.Lots.Calls
import Treasury.Reference

/-! Failed calls. A disposal or a transfer that meets an error after its first relief
leaves that relief in the book; every other failure leaves the lots alone. -/
namespace Treasury.LotBook
open Kit

section
variable [External]

/-- What is left of a lot that was opened under one of the envelopes. -/
def Descends (envelopes : Set Bytes) (lot : Lot) : Prop :=
  ∃ o : Opening, o.bytes ∈ envelopes ∧ lot.lotId = sha256 o.bytes ∧
    lot.asset = o.asset ∧ lot.venue = o.venue ∧ lot.acquiredAt = o.acquiredAt

structure Sound (envelopes : Set Bytes) (book : LotBook) : Prop where
  nonneg : ∀ l ∈ book.lots, l.NonNegative
  descends : ∀ l ∈ book.lots, Descends envelopes l

def Opens (book : LotBook) (call : Call) (o : Opening) : Prop :=
  book.acquired call = some o ∨
    ∃ plan, book.Planned call plan ∧ Carried book.lots plan ∧ o ∈ book.moved plan call

theorem Sound.agree {envelopes : Set Bytes} (injective : Set.InjOn sha256 envelopes)
    {book : LotBook} (sound : book.Sound envelopes) : Agree book.lots := by
  intro l hl m hm same
  obtain ⟨o, oIn, oId, oAsset, oVenue, oTime⟩ := sound.descends l hl
  obtain ⟨p, pIn, pId, pAsset, pVenue, pTime⟩ := sound.descends m hm
  have bytes := injective oIn pIn (oId.symm.trans (same.trans pId))
  obtain rfl := Opening.bytes_injective bytes
  exact ⟨oAsset.trans pAsset.symm, oVenue.trans pVenue.symm, oTime.trans pTime.symm⟩

theorem new_sound (envelopes : Set Bytes) (tenant : TenantId) : (new tenant).Sound envelopes :=
  ⟨by simp [new], by simp [new]⟩

theorem descends_opened {envelopes : Set Bytes} {o : Opening} (known : o.bytes ∈ envelopes) :
    Descends envelopes o.opened := ⟨o, known, rfl, rfl, rfl, rfl⟩

theorem Sound.relieved {envelopes : Set Bytes} {book : LotBook} (sound : book.Sound envelopes)
    {plan : ReliefPlan} {out : List Lot} {result : Except LotError (List LotRelief)}
    (run : Relieves book.lots plan out result) : Sound envelopes ⟨book.tenant, out⟩ := by
  constructor
  · exact run.nonNegative_left sound.nonneg
  · apply run.forall_left _ sound.descends
    rintro lot take left relief _ _ _ _ relieved ⟨o, known, facts⟩
    rw [relieved.facts]
    exact ⟨o, known, facts⟩

theorem sound_step {envelopes : Set Bytes} (injective : Set.InjOn sha256 envelopes)
    {book : LotBook} (sound : book.Sound envelopes) (call : Call)
    (hashed : ∀ o, book.Opens call o → o.bytes ∈ envelopes) :
    (book.step call).Sound envelopes := by
  cases outcome sound.nonneg (sound.agree injective) call with
  | opened o opens does =>
    rw [step, does]
    constructor
    · intro l h
      rcases List.mem_append.mp h with h | h
      · exact sound.nonneg l h
      · obtain rfl := List.mem_singleton.mp h
        exact acquired_nonNegative opens
    · intro l h
      rcases List.mem_append.mp h with h | h
      · exact sound.descends l h
      · obtain rfl := List.mem_singleton.mp h
        exact descends_opened (hashed o (.inl opens))
  | refused e opens unplanned does =>
    rw [step, does]
    exact sound
  | stopped plan out e planned run does =>
    rw [step, does]
    exact sound.relieved run
  | carried plan out reliefs planned run does settles =>
    have left := sound.relieved run
    have carried := run.ok_iff_carried.mp ⟨reliefs, rfl⟩
    rw [does]
    constructor
    · intro l h
      rcases List.mem_append.mp h with h | h
      · exact left.nonneg l (List.mem_filter.mp h).1
      · obtain ⟨o, isMoved, rfl⟩ := List.mem_map.mp h
        exact moved_nonNegative run.drawn isMoved
    · intro l h
      rcases List.mem_append.mp h with h | h
      · exact left.descends l (List.mem_filter.mp h).1
      · obtain ⟨o, isMoved, rfl⟩ := List.mem_map.mp h
        exact descends_opened (hashed o (.inr ⟨plan, planned, carried, isMoved⟩))

theorem sound_calls {envelopes : Set Bytes} (injective : Set.InjOn sha256 envelopes)
    (tenant : TenantId) (calls : List Call)
    (hashed : Along step (fun book call => ∀ o, book.Opens call o → o.bytes ∈ envelopes)
      (new tenant) calls) : (run step (new tenant) calls).Sound envelopes :=
  run_guarded step _ (Sound envelopes) (fun _ call sound admitted =>
    sound_step injective sound call admitted) calls _ (new_sound envelopes tenant) hashed

/-- If the call fails, the open lots are what they were. -/
def KeepsLots (book : LotBook) (call : Call) : Prop :=
  ∀ e, (book.perform call).2 = .error e →
    (book.step call).openLots = book.openLots ∧ (book.step call).lotsHash = book.lotsHash

/-- The plan of the call is refused at its first lot, or carried out and settled. -/
def Safe (book : LotBook) (call : Call) : Prop :=
  ∀ plan, book.Planned call plan →
    FirstRefused book.lots plan ∨ Carried book.lots plan ∧ book.Settles plan call

omit [External] in
theorem openLots_ne {book other : LotBook} (less : totalAtoms other.lots < totalAtoms book.lots) :
    other.openLots ≠ book.openLots := by
  intro same
  have here := totalAtoms_perm (sortBy_perm lotKey book.lots)
  have there := totalAtoms_perm (sortBy_perm lotKey other.lots)
  simp only [openLots] at same
  rw [same, here] at there
  omega

theorem keepsLots_iff {book : LotBook} (sound : ∀ l ∈ book.lots, l.NonNegative)
    (agree : Agree book.lots) (call : Call) : book.KeepsLots call ↔ book.Safe call := by
  cases outcome sound agree call with
  | opened o opens does =>
    refine iff_of_true (fun e failed => ?_) (fun plan planned => ?_)
    · rw [does] at failed
      contradiction
    · exact absurd planned (acquired_unplanned opens plan)
  | refused e opens unplanned does =>
    refine iff_of_true (fun _ _ => ?_) (fun plan planned => absurd planned (unplanned plan))
    rw [step, does]
    exact ⟨rfl, rfl⟩
  | stopped plan out e planned run does =>
    have uncarried : ¬Carried book.lots plan := fun carried => by
      obtain ⟨_, accepted⟩ := run.ok_iff_carried.mpr carried
      contradiction
    constructor
    · intro keeps other plannedToo
      obtain rfl := planned_unique planned plannedToo
      by_contra unsafeCall
      have started : ¬FirstRefused book.lots plan := fun refused => unsafeCall (.inl refused)
      have some : plan ≠ [] := by
        rintro rfl
        exact uncarried ⟨List.nodup_nil, by simp⟩
      obtain ⟨same, _⟩ := keeps e (by rw [does])
      rw [step, does] at same
      exact openLots_ne (run.totalAtoms_lt some started) same
    · intro safe d _
      rcases safe plan planned with refused | ⟨carried, _⟩
      · obtain ⟨same, _⟩ := run.unchanged_of_refused refused
        rw [step, does, same]
        exact ⟨rfl, rfl⟩
      · contradiction
  | carried plan out reliefs planned run does settles =>
    have carried := run.ok_iff_carried.mp ⟨reliefs, rfl⟩
    constructor
    · intro keeps other plannedToo
      obtain rfl := planned_unique planned plannedToo
      refine .inr ⟨carried, ?_⟩
      by_contra unsettled
      obtain ⟨e, failed⟩ := settles.mpr unsettled
      obtain ⟨same, _⟩ := keeps e failed
      rw [does, moved_of_unsettled unsettled, List.map_nil, List.append_nil] at same
      have less := run.totalAtoms_lt (planned_ne_nil planned) carried.not_refused
      rw [← totalAtoms_filter (run.nonNegative_left sound)] at less
      exact openLots_ne less same
    · intro safe e failed
      rcases safe plan planned with refused | ⟨_, settled⟩
      · exact absurd refused carried.not_refused
      · exact absurd settled (settles.mp ⟨e, failed⟩)

/-- In every book reached by calls that succeed or fail, a further call that fails leaves
the open lots and their hash as they were exactly when it is safe. -/
theorem failed_call_keeps_lots (tenant : TenantId) (envelopes : Set Bytes)
    (injective : Set.InjOn sha256 envelopes) (calls : List Call)
    (hashed : Along step (fun book call => ∀ o, book.Opens call o → o.bytes ∈ envelopes)
      (new tenant) calls) (call : Call) :
    (run step (new tenant) calls).KeepsLots call ↔ (run step (new tenant) calls).Safe call := by
  have sound := sound_calls injective tenant calls hashed
  exact keepsLots_iff sound.nonneg (sound.agree injective) call

end

def bought : Opening :=
  ⟨⟨"acme"⟩, ⟨"BTC"⟩, ⟨"exchange"⟩, ⟨100, by decide, by decide⟩,
    ⟨⟨"USD"⟩, ⟨1000, by decide, by decide⟩⟩, ⟨⟨"USD"⟩, 0⟩, ⟨⟨10, by decide, by decide⟩⟩,
    .filled 1, none⟩

def buy : Call :=
  .acquire bought.asset bought.venue bought.atoms bought.costBasis bought.acquisitionFee
    bought.acquiredAt bought.sourceEvent

def sell (atoms : I128) (method : ReliefMethod) : Call :=
  .dispose bought.asset bought.venue atoms method (.filled 9) ⟨⟨"USD"⟩, 0⟩

section
variable [External]

theorem step_buy (book : LotBook) (same : book.tenant = ⟨"acme"⟩) :
    book.step buy = ⟨⟨"acme"⟩, book.lots ++ [bought.opened]⟩ := by
  have positive : ¬bought.atoms ≤ 0 := by decide
  have basis : ¬bought.costBasis.atoms < 0 := by decide
  have fee : ¬bought.acquisitionFee.atoms < 0 := by decide
  have currency : bought.costBasis.asset = bought.acquisitionFee.asset := rfl
  simp [step, perform, buy, acquire, positive, basis, fee, currency, lotId_eq, same]
  rfl

theorem run_buy : run step (new ⟨"acme"⟩) [buy] = ⟨⟨"acme"⟩, [bought.opened]⟩ :=
  step_buy (new ⟨"acme"⟩) rfl

omit [External] in
theorem opens_buy {book : LotBook} (same : book.tenant = ⟨"acme"⟩) {o : Opening}
    (opens : book.Opens buy o) : o = bought := by
  rcases opens with opens | ⟨plan, planned, _⟩
  · simp only [buy, acquired, same] at opens
    obtain ⟨_, h⟩ := Option.ite_none_right_eq_some.mp opens
    exact (Option.some.inj h).symm
  · contradiction

theorem findLot_bought : findLot [bought.opened] bought.opened.lotId = some bought.opened := by
  simp [findLot]

/-- The lot named twice is planned twice: all of it, and then half of it again. -/
theorem planRelief_named_twice :
    planRelief ⟨⟨"acme"⟩, [bought.opened]⟩ bought.asset bought.venue ⟨150, by decide, by decide⟩
      (.specificLots [bought.opened.lotId, bought.opened.lotId]) =
      .ok [(bought.opened.lotId, bought.atoms), (bought.opened.lotId, ⟨50, by decide, by decide⟩)] := by
  have named : candidates [bought.opened] bought.asset bought.venue
      (.specificLots [bought.opened.lotId, bought.opened.lotId]) =
      .ok [bought.opened, bought.opened] := by
    have here : ¬(bought.opened.asset ≠ bought.asset ∨ bought.opened.venue ≠ bought.venue) := by
      rintro (h | h) <;> exact h rfl
    simp only [candidates, namedLots, findLot_bought, here, if_false]
    rfl
  exact planRelief_eq_ok.mpr
    ⟨by decide, _, ⟨200, by decide, by decide⟩, named, rfl, by decide, rfl⟩

theorem planned_named_twice :
    Planned ⟨⟨"acme"⟩, [bought.opened]⟩ (sell ⟨150, by decide, by decide⟩
      (.specificLots [bought.opened.lotId, bought.opened.lotId]))
      [(bought.opened.lotId, bought.atoms), (bought.opened.lotId, ⟨50, by decide, by decide⟩)] := by
  have currency : ¬bought.opened.costBasis.asset ≠ bought.opened.costBasis.asset := not_not.mpr rfl
  refine ⟨planRelief_named_twice, ?_⟩
  simp only [basisCurrency, checkCurrency, findLot_bought, currency, if_false]
  rfl

end

theorem failed_call_keeps_lots_overdrawn :
    letI : External := reference
    (run step (new ⟨"acme"⟩) [buy]).KeepsLots (sell ⟨101, by decide, by decide⟩ .fifo) := by
  let _ : External := reference
  apply (failed_call_keeps_lots ⟨"acme"⟩ {bought.bytes} (Set.injOn_singleton _ _) [buy]
    ⟨fun o opens => opens_buy rfl opens ▸ Set.mem_singleton _, trivial⟩ _).mpr
  rw [run_buy]
  rintro plan ⟨planned, _⟩
  obtain ⟨_, ordered, available, accepted, total, enough, _⟩ := planRelief_eq_ok.mp planned
  cases Except.ok.inj accepted
  cases Except.ok.inj total
  exact absurd enough (by decide)

theorem failed_sale_changes_lots :
    letI : External := reference
    ¬(run step (new ⟨"acme"⟩) [buy]).KeepsLots (sell ⟨150, by decide, by decide⟩
      (.specificLots [bought.opened.lotId, bought.opened.lotId])) := by
  let _ : External := reference
  have sound := sound_calls (Set.injOn_singleton sha256 bought.bytes) ⟨"acme"⟩ [buy]
    ⟨fun o opens => opens_buy rfl opens ▸ Set.mem_singleton _, trivial⟩
  rw [keepsLots_iff sound.nonneg (sound.agree (Set.injOn_singleton _ _)), run_buy]
  intro safe
  rcases safe _ planned_named_twice with ⟨lot, found, unable⟩ | ⟨carried, _⟩
  · cases findLot_bought.symm.trans found
    exact unable (by decide)
  · exact absurd carried.distinct (by simp)

end Treasury.LotBook
