import Treasury.Reconcile.Matcher

/-! The matcher in closed form: its proposals are what the outflows choose in two rounds of
turns, and what tier 2 proposes for the outflows that choose nothing in the second. -/
namespace Treasury.Matcher
open Kit

abbrev LegTurn := Turn TransferLeg TransferLeg LegId

def soleCorroborated (config : MatcherConfig) (inflows : List TransferLeg) (taken : Finset LegId)
    (out : TransferLeg) : Option TransferLeg :=
  match corroborated config inflows taken out with
  | [inflow] => some inflow
  | _ => none

/-- The turns by transaction hash. -/
def firstRound (legs : List TransferLeg) : List LegTurn :=
  turns TransferLeg.legId (sameTransaction (inflowsOf legs)) ∅ (outflowsOf legs)

def leftOver (legs : List TransferLeg) : List TransferLeg :=
  ((firstRound legs).filter fun t => t.choice.isNone).map Turn.asker

/-- The turns by amount, time and address. -/
def secondRound (config : MatcherConfig) (legs : List TransferLeg) : List LegTurn :=
  turns TransferLeg.legId (soleCorroborated config (inflowsOf legs))
    (allTaken TransferLeg.legId (sameTransaction (inflowsOf legs)) ∅ (outflowsOf legs))
    (leftOver legs)

def nettedBy (configHash : ContentHash) (t : LegTurn) : List MatchProposal :=
  match t.choice with
  | none => []
  | some inflow => [⟨t.asker.legId, inflow.legId, .deterministic, .autoNet, configHash⟩]

def proposedBy (config : MatcherConfig) (configHash : ContentHash) (inflows : List TransferLeg)
    (t : LegTurn) : List MatchProposal :=
  match t.choice with
  | none => (candidates config inflows t.taken t.asker).map fun inflow =>
      ⟨t.asker.legId, inflow.legId, .probabilistic, .queue, configHash⟩
  | some inflow =>
    [⟨t.asker.legId, inflow.legId, .strongCorroboration, disposition config t.asker, configHash⟩]

def proposalsOf (config : MatcherConfig) (configHash : ContentHash) (legs : List TransferLeg) :
    List MatchProposal :=
  (firstRound legs).flatMap (nettedBy configHash) ++
    (secondRound config legs).flatMap (proposedBy config configHash (inflowsOf legs))

/-- As far as inflows go, the used legs are the ones taken. -/
def Tracks (inflows : List TransferLeg) (used taken : Finset LegId) : Prop :=
  ∀ i ∈ inflows, i.legId ∈ used ↔ i.legId ∈ taken

theorem Tracks.insert {inflows : List TransferLeg} {used taken : Finset LegId}
    (tracks : Tracks inflows used taken) {out : TransferLeg}
    (apart : ∀ i ∈ inflows, out.legId ≠ i.legId) (id : LegId) :
    Tracks inflows (insert id (insert out.legId used)) (insert id taken) := by
  intro i h
  simp [tracks i h, (apart i h).symm]

section
variable {inflows : List TransferLeg} {used taken : Finset LegId}

theorem sameTransaction_congr (tracks : Tracks inflows used taken) (out : TransferLeg) :
    sameTransaction inflows used out = sameTransaction inflows taken out := by
  cases tx : out.txHash with
  | none => simp only [sameTransaction, tx]
  | some outTx =>
    simp only [sameTransaction, tx, ← List.head?_filter]
    congr 1
    apply List.filter_congr
    intro i h
    simp [tracks i h]

theorem candidates_congr (tracks : Tracks inflows used taken) (config : MatcherConfig)
    (out : TransferLeg) : candidates config inflows used out = candidates config inflows taken out := by
  apply List.filter_congr
  intro i h
  simp [tracks i h]

theorem corroborated_congr (tracks : Tracks inflows used taken) (config : MatcherConfig)
    (out : TransferLeg) :
    corroborated config inflows used out = corroborated config inflows taken out := by
  rw [corroborated, candidates_congr tracks, corroborated]

theorem sameTransaction_free {out inflow : TransferLeg}
    (chosen : sameTransaction inflows taken out = some inflow) :
    inflow ∈ inflows ∧ inflow.legId ∉ taken ∧ inflow.amount.asset = out.amount.asset := by
  unfold sameTransaction at chosen
  split at chosen
  · contradiction
  · have holds := List.find?_some chosen
    simp only [decide_eq_true_eq] at holds
    exact ⟨List.mem_of_find?_eq_some chosen, holds.2⟩

theorem mem_candidates {config : MatcherConfig} {out inflow : TransferLeg} :
    inflow ∈ candidates config inflows taken out ↔
      inflow ∈ inflows ∧ inflow.legId ∉ taken ∧
        amountAndWindowMatch out inflow (expectedInflow out) config = true := by
  simp [candidates]

theorem soleCorroborated_eq_some {config : MatcherConfig} {out inflow : TransferLeg} :
    soleCorroborated config inflows taken out = some inflow ↔
      corroborated config inflows taken out = [inflow] := by
  unfold soleCorroborated
  split
  · rename_i single
    simp [single]
  · rename_i several
    simpa using several inflow

theorem soleCorroborated_candidate {config : MatcherConfig} {out inflow : TransferLeg}
    (chosen : soleCorroborated config inflows taken out = some inflow) :
    inflow ∈ candidates config inflows taken out := by
  have single := soleCorroborated_eq_some.mp chosen
  have inside : inflow ∈ corroborated config inflows taken out := by simp [single]
  exact (List.mem_filter.mp inside).1

end

theorem first_loop (configHash : ContentHash) {inflows : List TransferLeg}
    (outs : List TransferLeg) (m : Matching) (taken : Finset LegId)
    (apart : ∀ o ∈ outs, ∀ i ∈ inflows, o.legId ≠ i.legId) (tracks : Tracks inflows m.used taken) :
    (outs.foldl (netByTransaction configHash inflows) m).proposals = m.proposals ++
        (turns TransferLeg.legId (sameTransaction inflows) taken outs).flatMap (nettedBy configHash) ∧
      Tracks inflows (outs.foldl (netByTransaction configHash inflows) m).used
        (allTaken TransferLeg.legId (sameTransaction inflows) taken outs) ∧
      ∀ id, (∀ i ∈ inflows, id ≠ i.legId) →
        (id ∈ (outs.foldl (netByTransaction configHash inflows) m).used ↔ id ∈ m.used ∨
          ∃ t ∈ turns TransferLeg.legId (sameTransaction inflows) taken outs,
            t.choice ≠ none ∧ t.asker.legId = id) := by
  induction outs generalizing m taken with
  | nil => simp [turns, allTaken, tracks]
  | cons out outs ih =>
    have apartTail (o : TransferLeg) (h : o ∈ outs) := apart o (List.mem_cons_of_mem out h)
    have apartHead := apart out List.mem_cons_self
    have same := sameTransaction_congr tracks out
    cases chosen : sameTransaction inflows taken out with
    | none =>
      have stays : netByTransaction configHash inflows m out = m := by
        simp only [netByTransaction, same, chosen]
      obtain ⟨proposals, tracked, used⟩ := ih m taken apartTail tracks
      simp only [List.foldl_cons, stays, turns, allTaken, chosen, takes]
      refine ⟨by simp [proposals, nettedBy], tracked, fun id other => ?_⟩
      simp [used id other]
    | some inflow =>
      obtain ⟨inInflows, _⟩ := sameTransaction_free chosen
      have nets : netByTransaction configHash inflows m out =
          ⟨m.proposals ++ [⟨out.legId, inflow.legId, .deterministic, .autoNet, configHash⟩],
            insert inflow.legId (insert out.legId m.used)⟩ := by
        simp only [netByTransaction, same, chosen]
      obtain ⟨proposals, tracked, used⟩ :=
        ih ⟨m.proposals ++ [⟨out.legId, inflow.legId, .deterministic, .autoNet, configHash⟩],
          insert inflow.legId (insert out.legId m.used)⟩ _ apartTail
          (tracks.insert apartHead inflow.legId)
      simp only [List.foldl_cons, nets, turns, allTaken, chosen, takes]
      refine ⟨by rw [proposals]; simp [nettedBy], tracked, fun id other => ?_⟩
      rw [used id other]
      simp only [Finset.mem_insert, other inflow inInflows, false_or, List.mem_cons,
        exists_eq_or_imp, ne_eq, reduceCtorEq, not_false_eq_true, true_and]
      rw [eq_comm, or_assoc, or_left_comm]

theorem netOrQueue_free {config : MatcherConfig} {configHash : ContentHash}
    {inflows : List TransferLeg} {m : Matching} {taken : Finset LegId} {out : TransferLeg}
    (free : out.legId ∉ m.used) (tracks : Tracks inflows m.used taken) :
    netOrQueue config configHash inflows m out =
      ⟨m.proposals ++ proposedBy config configHash inflows
          ⟨out, taken, soleCorroborated config inflows taken out⟩,
        match soleCorroborated config inflows taken out with
        | none => m.used
        | some inflow => insert inflow.legId (insert out.legId m.used)⟩ := by
  simp only [netOrQueue, free, if_false, corroborated_congr tracks, candidates_congr tracks]
  split
  · rename_i inflow single
    have chosen := soleCorroborated_eq_some.mpr single
    simp only [proposedBy, chosen]
  · rename_i several
    have none : soleCorroborated config inflows taken out = none := by
      cases chosen : soleCorroborated config inflows taken out with
      | none => rfl
      | some inflow => exact absurd (soleCorroborated_eq_some.mp chosen) (several inflow)
    simp only [proposedBy, none]

theorem second_loop (config : MatcherConfig) (configHash : ContentHash) {inflows : List TransferLeg}
    (outs : List TransferLeg) (m : Matching) (taken : Finset LegId)
    (apart : ∀ o ∈ outs, ∀ i ∈ inflows, o.legId ≠ i.legId)
    (distinct : (outs.map TransferLeg.legId).Nodup) (tracks : Tracks inflows m.used taken) :
    (outs.foldl (netOrQueue config configHash inflows) m).proposals = m.proposals ++
      (turns TransferLeg.legId (soleCorroborated config inflows) taken
        (outs.filter fun o => o.legId ∉ m.used)).flatMap (proposedBy config configHash inflows) := by
  induction outs generalizing m taken with
  | nil => simp [turns]
  | cons out outs ih =>
    have apartTail (o : TransferLeg) (h : o ∈ outs) := apart o (List.mem_cons_of_mem out h)
    have apartHead := apart out List.mem_cons_self
    obtain ⟨other, distinctTail⟩ := List.nodup_cons.mp distinct
    by_cases free : out.legId ∈ m.used
    · have stays : netOrQueue config configHash inflows m out = m := by
        simp only [netOrQueue, free, if_true]
      rw [List.foldl_cons, stays, ih m taken apartTail distinctTail tracks]
      simp [free]
    · have settles := @netOrQueue_free config configHash inflows m taken out free tracks
      rw [List.foldl_cons, settles, List.filter_cons_of_pos (by simpa using free)]
      cases chosen : soleCorroborated config inflows taken out with
      | none =>
        have tail := ih ⟨m.proposals ++ proposedBy config configHash inflows ⟨out, taken, none⟩,
          m.used⟩ taken apartTail distinctTail tracks
        simp only [turns, chosen, takes, List.flatMap_cons, ← List.append_assoc]
        exact tail
      | some inflow =>
        have inInflows := (mem_candidates.mp (soleCorroborated_candidate chosen)).1
        have unchanged : outs.filter (fun o => o.legId ∉ insert inflow.legId
            (insert out.legId m.used)) = outs.filter fun o => o.legId ∉ m.used := by
          apply List.filter_congr
          intro o h
          have notOut : o.legId ≠ out.legId := fun same => other (same ▸ List.mem_map_of_mem h)
          simp [notOut, apartTail o h inflow inInflows]
        have tail := ih ⟨m.proposals ++ proposedBy config configHash inflows ⟨out, taken, inflow⟩,
          insert inflow.legId (insert out.legId m.used)⟩ _ apartTail distinctTail
          (tracks.insert apartHead inflow.legId)
        rw [unchanged] at tail
        simp only [turns, chosen, takes, List.flatMap_cons, ← List.append_assoc]
        exact tail

/- The legs by direction. -/

theorem mem_outflowsOf {legs : List TransferLeg} {l : TransferLeg} :
    l ∈ outflowsOf legs ↔ l ∈ legs ∧ l.direction = .outflow := by
  simp [outflowsOf]

theorem mem_inflowsOf {legs : List TransferLeg} {l : TransferLeg} :
    l ∈ inflowsOf legs ↔ l ∈ legs ∧ l.direction = .inflow := by
  simp [inflowsOf]

section
variable {legs : List TransferLeg} (distinct : (legs.map TransferLeg.legId).Nodup)
include distinct

theorem outflows_distinct : ((outflowsOf legs).map TransferLeg.legId).Nodup := by
  have perm := (sortBy_perm legKey (legs.filter fun l => l.direction = .outflow)).map
    TransferLeg.legId
  exact perm.nodup_iff.mpr (distinct.sublist (List.filter_sublist.map TransferLeg.legId))

theorem outflows_apart : ∀ o ∈ outflowsOf legs, ∀ i ∈ inflowsOf legs, o.legId ≠ i.legId := by
  intro o ho i hi same
  obtain ⟨outIn, out⟩ := mem_outflowsOf.mp ho
  obtain ⟨inIn, inflow⟩ := mem_inflowsOf.mp hi
  have := List.inj_on_of_nodup_map distinct outIn inIn same
  rw [this, inflow] at out
  contradiction

theorem leftOver_eq (configHash : ContentHash) :
    ((outflowsOf legs).filter fun o => o.legId ∉
      ((outflowsOf legs).foldl (netByTransaction configHash (inflowsOf legs)) ⟨[], ∅⟩).used) =
      leftOver legs := by
  obtain ⟨_, _, used⟩ := first_loop configHash (outflowsOf legs) ⟨[], ∅⟩ ∅
    (outflows_apart distinct) fun _ _ => Iff.rfl
  have askers := @turns_asker _ _ _ _ TransferLeg.legId (sameTransaction (inflowsOf legs)) ∅
    (outflowsOf legs)
  have askersDistinct := outflows_distinct distinct
  rw [← askers, List.map_map] at askersDistinct
  generalize ((outflowsOf legs).foldl (netByTransaction configHash (inflowsOf legs))
    ⟨[], ∅⟩).used = usedUp at used ⊢
  rw [leftOver, firstRound]
  conv_lhs => rw [← askers]
  rw [List.filter_map]
  congr 1
  apply List.filter_congr
  intro t h
  have inOut : t.asker ∈ outflowsOf legs := (turn_choice h).1
  have other : ∀ i ∈ inflowsOf legs, t.asker.legId ≠ i.legId :=
    outflows_apart distinct t.asker inOut
  have isUsed : t.asker.legId ∈ usedUp ↔ t.choice ≠ none := by
    rw [used t.asker.legId other]
    constructor
    · rintro (unused | ⟨u, hu, chose, same⟩)
      · simp at unused
      · rwa [List.inj_on_of_nodup_map askersDistinct hu h same] at chose
    · exact fun chose => .inr ⟨t, h, chose, rfl⟩
  cases chosen : t.choice <;> simp [isUsed, chosen]

end

section
variable [External]

theorem queuedDecisions_eq (proposals : List MatchProposal) :
    queuedDecisions proposals =
      .ok ((proposals.filter fun p => p.disposition = .queue).map MatchProposal.decision) := by
  induction proposals with
  | nil => rfl
  | cons p proposals ih =>
    by_cases queued : p.disposition = .queue
    · simp only [queuedDecisions, queued, if_true, p.decisionHash_eq, ih]
      simp [queued, Bind.bind, Except.bind, Pure.pure, Except.pure]
    · simp [queuedDecisions, queued, ih]

/-- Legs of one tenant with distinct ids are always matched, with the proposals of the two
rounds of turns. -/
theorem matchLegs_eq {legs : List TransferLeg} {tenant : TenantId}
    (one : ∀ l ∈ legs, l.tenant = tenant) (distinct : (legs.map TransferLeg.legId).Nodup)
    (config : MatcherConfig) :
    ∃ configHash, matchLegs legs config = .ok ⟨proposalsOf config configHash legs,
      ⟨unmatchedLegs legs (proposalsOf config configHash legs),
        ((proposalsOf config configHash legs).filter fun p => p.disposition = .queue).map
          MatchProposal.decision⟩⟩ := by
  obtain ⟨configHash, hashed⟩ := config.configHash_ok
  have unmixed : mixedTenants legs = false := by
    cases legs with
    | nil => rfl
    | cons first rest =>
      have same (l) (h : l ∈ first :: rest) : l.tenant = first.tenant :=
        (one l h).trans (one first List.mem_cons_self).symm
      simpa [mixedTenants] using fun l h => same l (List.mem_cons_of_mem first h)
  have apart := outflows_apart distinct
  obtain ⟨netted, tracks, _⟩ := first_loop configHash (outflowsOf legs) ⟨[], ∅⟩ ∅ apart
    fun _ _ => Iff.rfl
  have matched := second_loop config configHash (outflowsOf legs) _ _ apart
    (outflows_distinct distinct) tracks
  rw [leftOver_eq distinct, netted, List.nil_append] at matched
  refine ⟨configHash, ?_⟩
  simp only [matchLegs, unmixed, hashed, matched, queuedDecisions_eq]
  rfl

end

end Treasury.Matcher
