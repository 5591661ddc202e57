import Treasury.Lots.Calls

/-! What a disposal that succeeds has done: it took what was asked for, and its totals are
those of its records. -/
namespace Treasury.LotBook
open Kit

theorem sumBasis_total {reliefs : List LotRelief} {start total : AssetAmount}
    (summed : sumBasis start reliefs = .ok total) :
    total.asset = start.asset ∧ (∀ r ∈ reliefs, r.basisRelieved.asset = start.asset) ∧
      total.atoms.val = start.atoms.val + recordedBasis reliefs := by
  induction reliefs generalizing start with
  | nil =>
    cases Except.ok.inj summed
    simp [recordedBasis]
  | cons relief reliefs ih =>
    simp only [sumBasis] at summed
    split at summed
    · contradiction
    · rename_i next added
      obtain ⟨same, asset, sum⟩ := AssetAmount.checkedAdd_eq_ok.mp added
      obtain ⟨assetTotal, assets, total⟩ := ih summed
      rw [asset] at assetTotal assets
      refine ⟨assetTotal, List.forall_mem_cons.mpr ⟨same.symm, assets⟩, ?_⟩
      simp only [recordedBasis, List.map_cons, List.sum_cons] at total ⊢
      omega

theorem realize_eq_ok {method : ReliefMethod} {policyHash : ContentHash} {proceeds : AssetAmount}
    {currency : AssetId} {reliefs : List LotRelief} {d : DisposalResult}
    (realized : realize method policyHash proceeds currency reliefs = .ok d) :
    ∃ total gain, sumBasis ⟨currency, 0⟩ reliefs = .ok total ∧
      proceeds.checkedSub total = .ok gain ∧
      d = ⟨method, policyHash, reliefs, total, proceeds, gain⟩ := by
  simp only [realize, bind_eq_ok] at realized
  obtain ⟨total, summed, realized⟩ := realized
  split at realized
  · contradiction
  · rename_i gain difference
    exact ⟨total, gain, summed, difference, (Except.ok.inj realized).symm⟩

theorem sumAtoms_total {ordered : List Lot} {start available : I128}
    (summed : sumAtoms start ordered = .ok available) :
    available.val = start.val + totalAtoms ordered := by
  induction ordered generalizing start with
  | nil =>
    cases Except.ok.inj summed
    simp [totalAtoms]
  | cons lot ordered ih =>
    simp only [sumAtoms, bind_eq_ok, orOverflow_eq_ok, Bounded.checkedAdd_eq_some] at summed
    obtain ⟨next, sum, rest⟩ := summed
    have later := ih rest
    simp only [totalAtoms, List.map_cons, List.sum_cons] at later ⊢
    omega

theorem planFrom_total {ordered : List Lot} {needed : I128} {plan : ReliefPlan}
    (nonneg : ∀ l ∈ ordered, 0 ≤ l.atoms.val) (proper : 0 ≤ needed.val)
    (planned : planFrom needed ordered = .ok plan) :
    (plan.map fun entry => entry.2.val).sum = min needed.val (totalAtoms ordered) := by
  induction ordered generalizing needed plan with
  | nil =>
    cases Except.ok.inj planned
    simp [totalAtoms, proper]
  | cons lot ordered ih =>
    obtain ⟨here, later⟩ := List.forall_mem_cons.mp nonneg
    have rest := totalAtoms_nonneg later
    rw [totalAtoms_cons]
    simp only [planFrom] at planned
    split at planned
    · rename_i nothing
      cases Except.ok.inj planned
      simp only [nothing, List.map_nil, List.sum_nil, I128.zero_val]
      omega
    · simp only [bind_eq_ok, pure_eq_ok, orOverflow_eq_ok, Bounded.checkedSub_eq_some] at planned
      obtain ⟨still, difference, plan, planned, rfl⟩ := planned
      rw [Bounded.min_val] at difference
      have tail := ih later (by omega) planned
      simp only [List.map_cons, List.sum_cons, tail, Bounded.min_val]
      omega

theorem candidates_mem {lots ordered : List Lot} {asset : AssetId} {venue : VenueId}
    {method : ReliefMethod} (accepted : candidates lots asset venue method = .ok ordered) :
    ∀ l ∈ ordered, l ∈ lots ∧ l.asset = asset := by
  cases method with
  | fifo =>
    cases Except.ok.inj accepted
    intro l h
    simp only [mem_sortBy, List.mem_filter, decide_eq_true_eq] at h
    exact ⟨h.1, h.2.1⟩
  | specificLots ids =>
    intro l h
    obtain ⟨found, here, _⟩ := namedLots_found accepted l h
    exact ⟨(findLot_mem found).1, here⟩

theorem planRelief_total {book : LotBook} {asset : AssetId} {venue : VenueId} {atoms : I128}
    {method : ReliefMethod} {plan : ReliefPlan} (sound : ∀ l ∈ book.lots, l.NonNegative)
    (planned : book.planRelief asset venue atoms method = .ok plan) :
    (plan.map fun entry => entry.2.val).sum = atoms.val := by
  obtain ⟨positive, ordered, available, accepted, summed, enough, planned⟩ :=
    planRelief_eq_ok.mp planned
  have total := sumAtoms_total summed
  have below := Bounded.le_def.mp enough
  have nonneg (l) (h : l ∈ ordered) : 0 ≤ l.atoms.val := (sound l (candidates_mem accepted l h).1).atoms
  simp only [I128.zero_val, zero_add] at total
  rw [planFrom_total nonneg positive.le planned]
  omega

theorem planRelief_asset {book : LotBook} {asset : AssetId} {venue : VenueId} {atoms : I128}
    {method : ReliefMethod} {plan : ReliefPlan} (agree : Agree book.lots)
    (planned : book.planRelief asset venue atoms method = .ok plan) :
    ∀ entry ∈ plan, ∀ lot, findLot book.lots entry.1 = some lot → lot.asset = asset := by
  obtain ⟨positive, ordered, _, accepted, _, _, planned⟩ := planRelief_eq_ok.mp planned
  intro entry h lot found
  obtain ⟨candidate, inOrdered, sameId⟩ := planFrom_mem positive.le planned entry h
  obtain ⟨inLots, isAsset⟩ := candidates_mem accepted candidate inOrdered
  obtain ⟨foundIn, foundId⟩ := findLot_mem found
  obtain ⟨same, _⟩ := agree lot foundIn candidate inLots (foundId.trans sameId.symm)
  exact same.trans isAsset

theorem dispose_eq_ok {book : LotBook} {asset : AssetId} {venue : VenueId} {atoms : I128}
    {method : ReliefMethod} {policyHash : ContentHash} {proceeds : AssetAmount} {d : DisposalResult}
    (disposed : (book.dispose asset venue atoms method policyHash proceeds).2 = .ok d) :
    ∃ plan out, book.planRelief asset venue atoms method = .ok plan ∧
      relieveAll book.lots plan = (out, .ok d.reliefs) ∧
      (book.dispose asset venue atoms method policyHash proceeds).1 =
        ⟨book.tenant, out.filter (0 < ·.atoms)⟩ ∧
      realize method policyHash proceeds proceeds.asset d.reliefs = .ok d := by
  unfold dispose at disposed ⊢
  cases planning : book.planRelief asset venue atoms method with
  | error e => simp [planning] at disposed
  | ok plan =>
    cases checking : book.basisCurrency plan with
    | error e => simp [planning, checking] at disposed
    | ok currency =>
      by_cases same : proceeds.asset = currency
      · subst same
        cases relieving : relieveAll book.lots plan with
        | mk out result =>
          cases result with
          | error e => simp [planning, checking, applyRelief, relieving] at disposed
          | ok reliefs =>
            simp only [planning, checking, applyRelief, relieving, ne_eq, not_true_eq_false,
              if_false] at disposed ⊢
            obtain ⟨_, _, _, _, rfl⟩ := realize_eq_ok disposed
            exact ⟨plan, out, rfl, relieving, rfl, disposed⟩
      · simp [planning, checking, same] at disposed

structure Balanced (d : DisposalResult) (atoms : I128) (proceeds : AssetAmount) : Prop where
  basis : d.totalBasisRelieved.atoms.val = recordedBasis d.reliefs
  currency : ∀ r ∈ d.reliefs, r.basisRelieved.asset = d.totalBasisRelieved.asset
  proceeds_eq : d.proceeds = proceeds
  realized_asset : d.realized.asset = d.proceeds.asset ∧ d.proceeds.asset = d.totalBasisRelieved.asset
  realized : d.realized.atoms.val = d.proceeds.atoms.val - d.totalBasisRelieved.atoms.val
  atoms : (d.reliefs.map fun r => r.atoms.val).sum = atoms.val

theorem drawn_atoms {lots out : List Lot} {plan : ReliefPlan} {reliefs : List LotRelief}
    (drawn : List.Forall₂ (fun entry relief => ∃ lot left, Drawn lots out entry lot left relief)
      plan reliefs) :
    (reliefs.map fun r => r.atoms.val).sum = (plan.map fun entry => entry.2.val).sum := by
  induction drawn with
  | nil => rfl
  | cons first _ ih =>
    obtain ⟨lot, left, drawn⟩ := first
    rw [List.map_cons, List.map_cons, List.sum_cons, List.sum_cons, ih, drawn.relieved.record]

theorem dispose_balanced {book : LotBook} (sound : ∀ l ∈ book.lots, l.NonNegative)
    (agree : Agree book.lots) {asset : AssetId} {venue : VenueId} {atoms : I128}
    {method : ReliefMethod} {policyHash : ContentHash} {proceeds : AssetAmount} {d : DisposalResult}
    (disposed : (book.dispose asset venue atoms method policyHash proceeds).2 = .ok d) :
    Balanced d atoms proceeds := by
  obtain ⟨plan, out, planned, relieving, _, settled⟩ := dispose_eq_ok disposed
  have run := planRelief_relieves sound agree planned
  rw [relieving] at run
  have taken := (drawn_atoms run.drawn).trans (planRelief_total sound planned)
  clear disposed
  generalize d.reliefs = reliefs at taken settled
  obtain ⟨total, gain, summed, difference, rfl⟩ := realize_eq_ok settled
  obtain ⟨asset, assets, basis⟩ := sumBasis_total summed
  obtain ⟨same, gainAsset, value⟩ := AssetAmount.checkedSub_eq_ok.mp difference
  constructor
  · simpa using basis
  · exact fun r h => (assets r h).trans asset.symm
  · rfl
  · exact ⟨gainAsset, same⟩
  · exact value.symm
  · exact taken

end Treasury.LotBook
