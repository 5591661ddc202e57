import Treasury.Chainsource.Book
import Treasury.Gaap.Module
import Treasury.Ledger.AsOf
import Treasury.Ledger.Loaded
import Treasury.Reconcile.Contradiction
import Treasury.Scope.Gate

/-! What the modules draft for the ledger. Whatever they draft, a ledger in a file takes it if its
time is later than the last of its tenant, and the file can be read again. -/
namespace Kit.Json

theorem nesting_le_height (v : Value) : nesting v ≤ height v + 1 := by
  induction v using Value.induct (I := fun vs => nestingItems vs ≤ heightItems vs)
    (E := fun es => nestingEntries es ≤ heightEntries es) with
  | null | bool | number | string => simp [nesting]
  | array items ih => simpa [nesting, height] using ih
  | object entries ih => simpa [nesting, height] using ih
  | items_nil | entries_nil => simp [nestingItems, nestingEntries]
  | items_cons v vs first rest => simp only [nestingItems, heightItems]; omega
  | entries_cons k v es first rest => simp only [nestingEntries, heightEntries]; omega

end Kit.Json

namespace Treasury
open Kit Kit.Json

/-- A draft that one of the modules has made. -/
inductive Drafted [External] (d : EventDraft) : Prop where
  | observation (reconciliation : Chainsource.Reconciliation) (tenant : TenantId)
      (sourceId : String) (rawEvidence : ContentHash) (observedAt : TimestampNs)
      (drafted : Chainsource.draftHistoryObservation reconciliation tenant sourceId rawEvidence
        observedAt = .ok d)
  | autoNet (proposal : MatchProposal) (tenant : TenantId) (eventTime : TimestampNs)
      (drafted : draftAutoNet proposal tenant eventTime = .ok d)
  | resolution (proposal : MatchProposal) (state : QueueState) (tenant : TenantId)
      (eventTime : TimestampNs) (drafted : draftResolution proposal state tenant eventTime = .ok d)
  | designation (proposal : DesignationProposal) (state : DesignationState) (tenant : TenantId)
      (eventTime : TimestampNs)
      (drafted : draftDesignation proposal state tenant eventTime = .ok d)
  | scopeJudgment (assessment : Scope.ScopeAssessment) (state : DualControlState)
      (eventTime : TimestampNs)
      (drafted : Scope.draftScopeJudgment assessment state eventTime = .ok d)
  | policyOutput (entry : JournalEntry) (tenant : TenantId) (eventTime : TimestampNs)
      (inputs : List ContentHash)
      (drafted : draftPolicyOutput entry tenant eventTime inputs = .ok d)

/-- A draft that a ledger can refuse for its time only, and that can be read again. -/
structure Plain (d : EventDraft) : Prop where
  layer : d.layer = d.provenance.layer
  original : d.supersedes = none
  payload : Flat 4 d.payload.value

theorem MatchProposal.bookingMembers_flat (p : MatchProposal) (booking resolution : String)
    (decision : ContentHash) : ∀ e ∈ p.bookingMembers booking resolution decision, Flat 3 e.2 := by
  intro e member
  simp only [bookingMembers, List.mem_cons, List.not_mem_nil, or_false] at member
  rcases member with rfl | rfl | rfl | rfl | rfl | rfl | rfl
  all_goals try exact flat_string 3 _
  cases p.tier <;> exact flat_string 3 _

theorem MatchProposal.rejectedMembers_flat (p : MatchProposal) (decision : ContentHash)
    (reason : String) : ∀ e ∈ p.rejectedMembers decision reason, Flat 3 e.2 := by
  intro e member
  rcases List.mem_append.mp member with shared | own
  · exact p.bookingMembers_flat _ _ decision e shared
  · exact List.mem_singleton.mp own ▸ flat_string 3 _

theorem Scope.ScopeVerdict.flat (v : Scope.ScopeVerdict) : Flat 2 v.toJson := by
  have names (cs : List Scope.Criterion) : Flat 1 (.array (cs.map Scope.Criterion.toJson)) := by
    refine flat_array fun v member => ?_
    obtain ⟨c, -, rfl⟩ := List.mem_map.mp member
    cases c <;> exact flat_string 0 _
  refine flat_object (by cases v <;> simp [Scope.ScopeVerdict.members]) fun e member => ?_
  cases v with
  | inScope => exact List.mem_singleton.mp member ▸ flat_string 1 _
  | outOfScope notMet undetermined =>
    simp only [Scope.ScopeVerdict.members, List.mem_cons, List.not_mem_nil, or_false] at member
    rcases member with rfl | rfl | rfl
    · exact flat_string 1 _
    · exact names notMet
    · exact names undetermined

section
variable {d : EventDraft}

theorem plain_observation {reconciliation : Chainsource.Reconciliation} {tenant : TenantId}
    {sourceId : String} {rawEvidence : ContentHash} {observedAt : TimestampNs}
    (drafted : Chainsource.draftHistoryObservation reconciliation tenant sourceId rawEvidence
      observedAt = .ok d) : Plain d := by
  cases reconciliation with
  | diverged => cases drafted
  | agreed history historyHash =>
    cases drafted
    refine ⟨rfl, rfl, flat_object (by simp [Chainsource.observationMembers]) fun e member => ?_⟩
    simp only [Chainsource.observationMembers, List.mem_cons, List.not_mem_nil, or_false] at member
    rcases member with rfl | rfl | rfl | rfl | rfl | rfl | rfl
    all_goals try exact flat_string 3 _
    cases history.chain <;> exact flat_string 3 _

variable [External]

theorem plain_autoNet {proposal : MatchProposal} {tenant : TenantId} {eventTime : TimestampNs}
    (drafted : draftAutoNet proposal tenant eventTime = .ok d) : Plain d := by
  unfold draftAutoNet at drafted
  split at drafted
  · cases drafted
  · split at drafted
    · cases drafted
    · rename_i decision hashed
      cases drafted
      exact ⟨rfl, rfl, flat_object (by simp [MatchProposal.autoMembers, MatchProposal.bookingMembers])
        (proposal.bookingMembers_flat _ _ decision)⟩

theorem plain_resolution {proposal : MatchProposal} {state : QueueState} {tenant : TenantId}
    {eventTime : TimestampNs} (drafted : draftResolution proposal state tenant eventTime = .ok d) :
    Plain d := by
  unfold draftResolution at drafted
  split at drafted
  · cases drafted
  · rename_i decision hashed
    cases state with
    | confirmed preparer approver =>
      cases drafted
      exact ⟨rfl, rfl,
        flat_object (by simp [MatchProposal.confirmedMembers, MatchProposal.bookingMembers])
          (proposal.bookingMembers_flat _ _ decision)⟩
    | rejected actor reason =>
      cases drafted
      exact ⟨rfl, rfl,
        flat_object (by simp [MatchProposal.rejectedMembers, MatchProposal.bookingMembers])
          (proposal.rejectedMembers_flat decision reason)⟩
    | pending => cases drafted
    | asserted preparer => cases drafted

theorem plain_designation {proposal : DesignationProposal} {state : DesignationState}
    {tenant : TenantId} {eventTime : TimestampNs}
    (drafted : draftDesignation proposal state tenant eventTime = .ok d) : Plain d := by
  cases state with
  | confirmed preparer approver =>
    simp only [draftDesignation] at drafted
    split at drafted
    · cases drafted
    · rename_i id hashed
      cases drafted
      refine ⟨rfl, rfl, flat_object (by simp [designationMembers]) fun e member => ?_⟩
      simp only [designationMembers, List.mem_cons, List.not_mem_nil, or_false] at member
      rcases member with rfl | rfl | rfl | rfl | rfl
      all_goals try exact flat_string 3 _
      exact proposal.classification.flat.mono (by decide)
  | asserted | rejected => cases drafted

theorem plain_scopeJudgment {assessment : Scope.ScopeAssessment} {state : DualControlState}
    {eventTime : TimestampNs}
    (drafted : Scope.draftScopeJudgment assessment state eventTime = .ok d) : Plain d := by
  unfold Scope.draftScopeJudgment at drafted
  split at drafted
  · split at drafted
    · cases drafted
    · rename_i id hashed
      cases drafted
      refine ⟨rfl, rfl, flat_object (by simp [Scope.judgmentMembers]) fun e member => ?_⟩
      simp only [Scope.judgmentMembers, List.mem_cons, List.not_mem_nil, or_false] at member
      rcases member with rfl | rfl | rfl | rfl | rfl | rfl
      all_goals try exact flat_string 3 _
      · exact assessment.criteria.flat.mono (by decide)
      · exact assessment.verdict.flat.mono (by decide)
  · cases drafted

theorem plain_policyOutput {entry : JournalEntry} {tenant : TenantId} {eventTime : TimestampNs}
    {inputs : List ContentHash} (drafted : draftPolicyOutput entry tenant eventTime inputs = .ok d) :
    Plain d := by
  obtain ⟨entryHash, -, same⟩ := bind_eq_ok.mp drafted
  cases pure_eq_ok.mp same
  exact ⟨rfl, rfl, flat_object (by simp [outputMembers]) (outputMembers_flat entry entryHash)⟩

theorem Drafted.plain (made : Drafted d) : Plain d := by
  cases made with
  | observation _ _ _ _ _ drafted => exact plain_observation drafted
  | autoNet _ _ _ drafted => exact plain_autoNet drafted
  | resolution _ _ _ _ drafted => exact plain_resolution drafted
  | designation _ _ _ _ drafted => exact plain_designation drafted
  | scopeJudgment _ _ _ drafted => exact plain_scopeJudgment drafted
  | policyOutput _ _ _ _ drafted => exact plain_policyOutput drafted

end

def Increasing (calls : List (EventDraft × TimestampNs)) : Prop :=
  calls.Pairwise fun c d => c.1.tenant = d.1.tenant → c.2 < d.2

def SealedEvent.call (e : SealedEvent) : EventDraft × TimestampNs := (e.draft, e.knowledgeTime)

theorem InMemoryLedger.checkTime_iff {ledger : InMemoryLedger} {d : EventDraft} {t : TimestampNs}
    (ordered : (ledger.stream d.tenant).Pairwise fun e f => e.knowledgeTime < f.knowledgeTime) :
    ledger.checkTime d t = .ok () ↔ ∀ e ∈ ledger.stream d.tenant, e.knowledgeTime < t := by
  unfold checkTime
  rcases List.eq_nil_or_concat (ledger.stream d.tenant) with none | ⟨before, last, split⟩
  · simp [none]
  · rw [List.concat_eq_append] at split
    rw [split, List.pairwise_append] at ordered
    simp only [split, List.getLast?_concat]
    constructor
    · intro checked e member
      have later : last.knowledgeTime < t := by
        by_contra early
        rw [if_pos (not_lt.mp early)] at checked
        cases checked
      rcases List.mem_append.mp member with old | now
      · exact (ordered.2.2 e old last (List.mem_singleton_self last)).trans later
      · exact List.mem_singleton.mp now ▸ later
    · intro later
      exact if_neg (not_le.mpr (later last (by simp)))

namespace FileLedger
variable [External]

def Takes (ledger : FileLedger) (call : EventDraft × TimestampNs) : Prop :=
  ∃ id, (ledger.append call.1 call.2 none).2 = .ok id

variable {ledger : FileLedger} {events : List SealedEvent} {call : EventDraft × TimestampNs}

theorem takes_iff : ledger.Takes call ↔ ledger.inner.Passes call := by
  constructor
  · rintro ⟨id, taken⟩
    rcases append_cases ledger call.1 call.2 with ⟨e, refused⟩ | ⟨e, seals, draft, time⟩
    · rw [append_rejected refused] at taken
      cases taken
    · have passes := seals.passes
      rwa [draft, time] at passes
  · intro passes
    obtain ⟨e, seals, draft, time⟩ := passes.seals
    rw [Takes, ← draft, ← time, append_sealed seals]
    exact ⟨_, rfl⟩

/-- What is drafted is refused for its time only. -/
theorem Logged.takes_iff (logged : Logged ledger events)
    (increasing : Increasing (events.map SealedEvent.call)) (plain : Plain call.1) :
    ledger.Takes call ↔ Increasing (events.map SealedEvent.call ++ [call]) := by
  have stream : ledger.inner.stream call.1.tenant =
      events.filter (call.1.tenant = ·.draft.tenant) := by
    rw [logged.inner_eq, InMemoryLedger.stream_run, InMemoryLedger.stream_new, List.nil_append]
  have ordered : (ledger.inner.stream call.1.tenant).Pairwise
      fun e f => e.knowledgeTime < f.knowledgeTime := by
    rw [stream, List.pairwise_filter]
    refine (List.pairwise_map.mp increasing).imp fun later mine theirs => later ?_
    exact (of_decide_eq_true mine).symm.trans (of_decide_eq_true theirs)
  have target : ledger.inner.checkSupersedes call.1 = .ok () := by
    simp [InMemoryLedger.checkSupersedes, plain.original]
  have shallow : height call.1.payload.value + 1 ≤ maxDepth :=
    (Nat.succ_le_succ plain.payload.shallow).trans (by decide)
  rw [FileLedger.takes_iff, InMemoryLedger.Passes, and_iff_right plain.layer,
    InMemoryLedger.checkTime_iff ordered, and_iff_left ⟨target, plain.payload.integral, shallow⟩,
    stream, Increasing, List.pairwise_append]
  constructor
  · intro later
    refine ⟨increasing, List.pairwise_singleton _ _, fun c member d now same => ?_⟩
    obtain ⟨e, inEvents, rfl⟩ := List.mem_map.mp member
    rw [List.mem_singleton.mp now] at same ⊢
    exact later e (List.mem_filter.mpr ⟨inEvents, decide_eq_true same.symm⟩)
  · rintro ⟨-, -, later⟩ e member
    obtain ⟨inEvents, same⟩ := List.mem_filter.mp member
    exact later e.call (List.mem_map_of_mem inEvents) call (List.mem_singleton_self _)
      (of_decide_eq_true same).symm

theorem Logged.drafts_run (logged : Logged ledger events)
    (increasing : Increasing (events.map SealedEvent.call))
    {calls : List (EventDraft × TimestampNs)} (plain : ∀ call ∈ calls, Plain call.1) :
    (Along appendOk Takes ledger calls ↔ Increasing (events.map SealedEvent.call ++ calls)) ∧
      (Increasing (events.map SealedEvent.call ++ calls) → ∃ more,
        Logged (Kit.run appendOk ledger calls) (events ++ more) ∧
          more.map SealedEvent.call = calls) := by
  induction calls generalizing ledger events with
  | nil =>
    rw [List.append_nil]
    exact ⟨iff_of_true trivial increasing, fun _ => ⟨[], by rwa [List.append_nil], rfl⟩⟩
  | cons call calls ih =>
    obtain ⟨first, rest⟩ := List.forall_mem_cons.mp plain
    have whole : events.map SealedEvent.call ++ call :: calls =
        events.map SealedEvent.call ++ [call] ++ calls := by simp
    have front : Increasing (events.map SealedEvent.call ++ call :: calls) →
        Increasing (events.map SealedEvent.call ++ [call]) := fun all =>
      (List.pairwise_append.mp (whole ▸ all)).1
    by_cases now : Increasing (events.map SealedEvent.call ++ [call])
    · have takes := (logged.takes_iff increasing first).mpr now
      obtain ⟨e, seals, draft, time⟩ := (FileLedger.takes_iff.mp takes).seals
      have same : e.call = call := Prod.ext draft time
      have next := logged.append seals
      have onward : (events ++ [e]).map SealedEvent.call =
          events.map SealedEvent.call ++ [call] := by
        rw [List.map_append, List.map_singleton, same]
      rw [draft, time] at next
      obtain ⟨along, ends⟩ := ih next (onward ▸ now) rest
      rw [onward, ← whole] at along ends
      refine ⟨⟨fun admitted => along.mp admitted.2, fun all => ⟨takes, along.mpr all⟩⟩, fun all => ?_⟩
      obtain ⟨more, later, rfl⟩ := ends all
      rw [List.append_assoc] at later
      exact ⟨e :: more, later, by rw [List.map_cons, same]⟩
    · refine ⟨iff_of_false (fun admitted => ?_) (now ∘ front), fun all => absurd (front all) now⟩
      exact now ((logged.takes_iff increasing first).mp admitted.1)

/-- The events of the drafts, in order, none of them superseded. -/
structure Books (ledger : FileLedger) (calls : List (EventDraft × TimestampNs)) : Prop where
  verified : ∀ tenant, ledger.inner.verifyChain tenant = .ok ()
  stream : ∀ tenant, (ledger.stream tenant).map SealedEvent.call =
    calls.filter (tenant = ·.1.tenant)
  asOf : ∀ tenant t, (ledger.asOf tenant t).map SealedEvent.call =
    calls.filter fun call => tenant = call.1.tenant ∧ call.2 ≤ t

theorem Logged.books (logged : Logged ledger events)
    (original : ∀ e ∈ events, e.draft.supersedes = none) :
    Books ledger (events.map SealedEvent.call) := by
  have streams (tenant : TenantId) :
      ledger.inner.stream tenant = events.filter (tenant = ·.draft.tenant) := by
    rw [logged.inner_eq, InMemoryLedger.stream_run, InMemoryLedger.stream_new, List.nil_append]
  refine ⟨fun tenant => ?_, fun tenant => ?_, fun tenant t => ?_⟩
  · rw [logged.inner_eq]
    exact verified_run InMemoryLedger.sound_new.verified logged.accepts tenant
  · rw [FileLedger.stream, streams, List.filter_map]
    rfl
  · have none : ((ledger.inner.stream tenant).filter (·.knowledgeTime ≤ t)).filterMap
        (·.draft.supersedes) = [] := by
      refine List.filterMap_eq_nil_iff.mpr fun e member => original e ?_
      rw [streams] at member
      exact (List.mem_filter.mp (List.mem_filter.mp member).1).1
    have all : ledger.inner.asOf tenant t =
        (ledger.inner.stream tenant).filter (·.knowledgeTime ≤ t) := by
      rw [InMemoryLedger.asOf, none]
      exact List.filter_eq_self.mpr fun e _ => by simp
    rw [FileLedger.asOf, all, streams, List.filter_filter, List.filter_map]
    refine congrArg _ (List.filter_congr fun e _ => ?_)
    rw [← Bool.decide_and]
    exact decide_eq_decide.mpr and_comm

/-- Whatever the modules draft, a ledger in a file takes all of it exactly if the times of each
tenant increase. It then has all of it, in order and in force, and the file gives it back. -/
theorem drafts_booked [LedgerReader] (calls : List (EventDraft × TimestampNs))
    (drafted : ∀ call ∈ calls, Drafted call.1) :
    (Along appendOk Takes fresh calls ↔ Increasing calls) ∧
      (Increasing calls → Books (Kit.run appendOk fresh calls) calls ∧
        ReadsBack (Kit.run appendOk fresh calls)) := by
  have plain (call) (member : call ∈ calls) := (drafted call member).plain
  obtain ⟨along, ends⟩ := logged_new.drafts_run List.Pairwise.nil plain
  refine ⟨along, fun increasing => ?_⟩
  obtain ⟨more, logged, rfl⟩ := ends increasing
  have each (e : SealedEvent) (member : e ∈ [] ++ more) : Plain e.draft :=
    plain e.call (List.mem_map_of_mem member)
  refine ⟨logged.books fun e member => (each e member).original,
    logged.readsBack_iff.mpr fun e member => ?_⟩
  have low := nesting_le_height e.draft.payload.value
  have shallow := (each e member).payload.shallow
  simp only [Shallow, recursionLimit]
  omega

theorem drafted_output (entry : JournalEntry) (tenant : TenantId) (eventTime : TimestampNs)
    (inputs : List ContentHash) : ∃ d, draftPolicyOutput entry tenant eventTime inputs = .ok d := by
  rw [draftPolicyOutput, entry.entryHash_eq]
  exact ⟨_, rfl⟩

omit [External] in
/-- An entry that is booked and, later, booked again. -/
theorem drafts_booked_again :
    letI : External := reference
    ∃ d, draftPolicyOutput ⟨"acquisition", [], .filled 8⟩ ⟨"acme"⟩ ⟨0⟩ [] = .ok d ∧
      Along appendOk Takes fresh [(d, ⟨0⟩), (d, ⟨.literal 1⟩)] := by
  let _ : External := reference
  let _ : LedgerReader := referenceReader
  obtain ⟨d, drafted⟩ := drafted_output ⟨"acquisition", [], .filled 8⟩ ⟨"acme"⟩ ⟨0⟩ []
  refine ⟨d, drafted, (drafts_booked _ fun call member => ?_).1.mpr ?_⟩
  · simp only [List.mem_cons, List.not_mem_nil, or_false] at member
    rcases member with rfl | rfl <;> exact .policyOutput _ _ _ _ drafted
  · refine List.pairwise_pair.mpr fun _ => ?_
    exact (by decide : (⟨0⟩ : TimestampNs) < ⟨.literal 1⟩)

end FileLedger

end Treasury
