import Mathlib.Data.Finmap
import Treasury.Ledger.Event

/-! The append-only ledger: one hash-chained stream for each tenant, an index of
events by identity and the set of superseded events. -/
namespace Treasury
open Kit Kit.Json

inductive LedgerError where
  | nonMonotonicKnowledgeTime (last proposed : TimestampNs)
  | layerProvenanceMismatch (layer provenanceLayer : ClaimLayer)
  | supersedeTargetMissing (id : EventId)
  | supersedeCrossTenant (id : EventId)
  | supersedeCrossLayer (target proposed : ClaimLayer)
  | alreadySuperseded (id : EventId)
  | chainViolation (id : EventId)
  | canon (error : CanonError)
  | backend (message : String)
  deriving DecidableEq

structure InMemoryLedger where
  streams : Finmap fun _ : TenantId => List SealedEvent
  byId : Finmap fun _ : EventId => TenantId × Nat
  superseded : Finset EventId

namespace InMemoryLedger

def new : InMemoryLedger := ⟨∅, ∅, ∅⟩

def stream (ledger : InMemoryLedger) (tenant : TenantId) : List SealedEvent :=
  (ledger.streams.lookup tenant).getD []

/-- A stream's knowledge times strictly increase. -/
def checkTime (ledger : InMemoryLedger) (draft : EventDraft) (knowledgeTime : TimestampNs) :
    Except LedgerError Unit :=
  match (ledger.stream draft.tenant).getLast? with
  | none => .ok ()
  | some last =>
    if knowledgeTime ≤ last.knowledgeTime then
      .error (.nonMonotonicKnowledgeTime last.knowledgeTime knowledgeTime)
    else .ok ()

/-- A superseded event exists, in the same tenant's stream and of the same layer,
and was not superseded before. -/
def checkSupersedes (ledger : InMemoryLedger) (draft : EventDraft) : Except LedgerError Unit :=
  match draft.supersedes with
  | none => .ok ()
  | some targetId =>
    match ledger.byId.lookup targetId with
    | none => .error (.supersedeTargetMissing targetId)
    | some (tenant, index) =>
      if tenant ≠ draft.tenant then .error (.supersedeCrossTenant targetId)
      else match (ledger.stream tenant)[index]? with
        | none => .error (.supersedeTargetMissing targetId)
        | some target =>
          if target.draft.layer ≠ draft.layer then
            .error (.supersedeCrossLayer target.draft.layer draft.layer)
          else if targetId ∈ ledger.superseded then .error (.alreadySuperseded targetId)
          else .ok ()

def push (ledger : InMemoryLedger) (sealedEvent : SealedEvent) : InMemoryLedger :=
  let tenant := sealedEvent.draft.tenant
  { streams := ledger.streams.insert tenant (ledger.stream tenant ++ [sealedEvent])
    byId := ledger.byId.insert sealedEvent.eventId (tenant, (ledger.stream tenant).length)
    superseded :=
      match sealedEvent.draft.supersedes with
      | none => ledger.superseded
      | some id => insert id ledger.superseded }

@[simp] theorem stream_new (tenant : TenantId) : new.stream tenant = [] := by
  simp [stream, new]

theorem stream_push (ledger : InMemoryLedger) (e : SealedEvent) (tenant : TenantId) :
    (ledger.push e).stream tenant =
      if tenant = e.draft.tenant then ledger.stream tenant ++ [e] else ledger.stream tenant := by
  by_cases same : tenant = e.draft.tenant
  · subst same
    simp [stream, push]
  · simp [stream, push, same, Finmap.lookup_insert_of_ne _ same]

def asOf (ledger : InMemoryLedger) (tenant : TenantId) (knowledgeTime : TimestampNs) :
    List SealedEvent :=
  let booked := (ledger.stream tenant).filter (·.knowledgeTime ≤ knowledgeTime)
  let superseded := booked.filterMap (·.draft.supersedes)
  booked.filter (·.eventId ∉ superseded)

variable [External]

def head (ledger : InMemoryLedger) (tenant : TenantId) : ContentHash :=
  match (ledger.stream tenant).getLast? with
  | some last => last.eventId
  | none => genesisHash tenant

def append (ledger : InMemoryLedger) (draft : EventDraft) (knowledgeTime : TimestampNs) :
    Except LedgerError (InMemoryLedger × EventId) :=
  if draft.layer ≠ draft.provenance.layer then
    .error (.layerProvenanceMismatch draft.layer draft.provenance.layer)
  else do
    ledger.checkTime draft knowledgeTime
    ledger.checkSupersedes draft
    let prev := ledger.head draft.tenant
    match computeId prev knowledgeTime draft with
    | .error e => .error (.canon e)
    | .ok eventId => .ok (ledger.push ⟨eventId, prev, knowledgeTime, draft⟩, eventId)

theorem append_eq_ok {ledger ledger' : InMemoryLedger} {d : EventDraft} {t : TimestampNs}
    {id : EventId} : ledger.append d t = .ok (ledger', id) ↔
      d.layer = d.provenance.layer ∧ ledger.checkTime d t = .ok () ∧
        ledger.checkSupersedes d = .ok () ∧ computeId (ledger.head d.tenant) t d = .ok id ∧
        ledger' = ledger.push ⟨id, ledger.head d.tenant, t, d⟩ := by
  unfold append
  split_ifs with pairing
  · simp [pairing]
  · rw [not_not] at pairing
    simp only [bind_eq_ok, pairing, true_and]
    cases computed : computeId (ledger.head d.tenant) t d with
    | error e => simp
    | ok id' =>
      constructor
      · rintro ⟨_, time, _, target, result⟩
        cases result
        exact ⟨time, target, rfl, rfl⟩
      · rintro ⟨time, target, same, rfl⟩
        cases same
        exact ⟨(), time, (), target, rfl⟩

def verifyFrom (expected : ContentHash) : List SealedEvent → Except LedgerError Unit
  | [] => .ok ()
  | event :: rest =>
    if event.prev ≠ expected then .error (.chainViolation event.eventId)
    else match computeId event.prev event.knowledgeTime event.draft with
      | .error e => .error (.canon e)
      | .ok recomputed =>
        if recomputed ≠ event.eventId then .error (.chainViolation event.eventId)
        else verifyFrom event.eventId rest

def verifyChain (ledger : InMemoryLedger) (tenant : TenantId) : Except LedgerError Unit :=
  verifyFrom (genesisHash tenant) (ledger.stream tenant)

end InMemoryLedger

end Treasury
