import Treasury.Kit.Run
import Treasury.Ledger.Ledger

/-! Runs of appends: what one append adds, and what many do. -/
namespace Treasury
open Kit Kit.Json

namespace InMemoryLedger
variable [External]

/-- The event is what appending its draft produces. -/
def Seals (ledger : InMemoryLedger) (e : SealedEvent) : Prop :=
  ledger.append e.draft e.knowledgeTime = .ok (ledger.push e, e.eventId)

/-- The events, in this order, are what appending their drafts produces. -/
def Accepts (ledger : InMemoryLedger) (events : List SealedEvent) : Prop :=
  Along push Seals ledger events

theorem seals_of_append {ledger ledger' : InMemoryLedger} {d : EventDraft} {t : TimestampNs}
    {id : EventId} (accepted : ledger.append d t = .ok (ledger', id)) :
    ledger.Seals ⟨id, ledger.head d.tenant, t, d⟩ ∧
      ledger' = ledger.push ⟨id, ledger.head d.tenant, t, d⟩ := by
  have pushed := (append_eq_ok.mp accepted).2.2.2.2
  exact ⟨by rw [Seals, ← pushed, accepted], pushed⟩

theorem Seals.prev_eq {ledger : InMemoryLedger} {e : SealedEvent} (seals : ledger.Seals e) :
    e.prev = ledger.head e.draft.tenant := by
  obtain ⟨_, _, _, _, pushed⟩ := append_eq_ok.mp seals
  have streams := congrArg (·.stream e.draft.tenant) pushed
  simp only [stream_push, if_true] at streams
  have same := (List.cons.inj (List.append_cancel_left streams)).1
  rw [same]

/-- What an append checks: the layer against the provenance, the time, what is superseded, and
whether the payload has a canonical form. -/
def Passes (ledger : InMemoryLedger) (call : EventDraft × TimestampNs) : Prop :=
  call.1.layer = call.1.provenance.layer ∧ ledger.checkTime call.1 call.2 = .ok () ∧
    ledger.checkSupersedes call.1 = .ok () ∧ Integral call.1.payload.value ∧
    height call.1.payload.value + 1 ≤ maxDepth

theorem Passes.seals {ledger : InMemoryLedger} {d : EventDraft} {t : TimestampNs}
    (passes : ledger.Passes (d, t)) : ∃ e, ledger.Seals e ∧ e.draft = d ∧ e.knowledgeTime = t := by
  obtain ⟨pairing, time, target, integral, shallow⟩ := passes
  have written : canonicalEnvelope (ledger.head d.tenant) t d = .ok _ :=
    canonicalEnvelope_eq_ok.mpr ⟨integral, shallow, rfl⟩
  have accepted : ledger.append d t = .ok (_, _) :=
    append_eq_ok.mpr ⟨pairing, time, target, computeId_eq_ok.mpr ⟨_, written, rfl⟩, rfl⟩
  exact ⟨_, (seals_of_append accepted).1, rfl, rfl⟩

theorem Seals.passes {ledger : InMemoryLedger} {e : SealedEvent} (seals : ledger.Seals e) :
    ledger.Passes (e.draft, e.knowledgeTime) := by
  obtain ⟨pairing, time, target, identified, _⟩ := append_eq_ok.mp seals
  obtain ⟨_, written, _⟩ := computeId_eq_ok.mp identified
  obtain ⟨integral, shallow, _⟩ := canonicalEnvelope_eq_ok.mp written
  exact ⟨pairing, time, target, integral, shallow⟩

theorem Seals.integral {ledger : InMemoryLedger} {e : SealedEvent} (seals : ledger.Seals e) :
    Integral e.draft.payload.value := seals.passes.2.2.2.1

theorem Accepts.integral {ledger : InMemoryLedger} {events : List SealedEvent}
    (accepts : ledger.Accepts events) : ∀ e ∈ events, Integral e.draft.payload.value := by
  induction events generalizing ledger with
  | nil => simp
  | cons e events ih => exact List.forall_mem_cons.mpr ⟨accepts.1.integral, ih accepts.2⟩

theorem new_seals (d : EventDraft) (t : TimestampNs) (pairing : d.layer = d.provenance.layer)
    (original : d.supersedes = none) (integral : Integral d.payload.value)
    (shallow : height d.payload.value + 1 ≤ maxDepth) :
    ∃ e, new.Seals e ∧ e.draft = d ∧ e.knowledgeTime = t :=
  Passes.seals ⟨pairing, by simp [checkTime], by simp [checkSupersedes, original], integral,
    shallow⟩

omit [External] in
theorem stream_run (ledger : InMemoryLedger) (events : List SealedEvent) (tenant : TenantId) :
    (run push ledger events).stream tenant =
      ledger.stream tenant ++ events.filter (tenant = ·.draft.tenant) := by
  induction events generalizing ledger with
  | nil => simp [run]
  | cons e events ih =>
    rw [run, ih, stream_push]
    by_cases same : tenant = e.draft.tenant <;> simp [same]

/-- A refused append leaves the ledger as it is. -/
def appendCall (ledger : InMemoryLedger) (call : EventDraft × TimestampNs) : InMemoryLedger :=
  match ledger.append call.1 call.2 with
  | .ok (next, _) => next
  | .error _ => ledger

theorem appendCall_cases (ledger : InMemoryLedger) (call : EventDraft × TimestampNs) :
    ledger.appendCall call = ledger ∨ ∃ e, ledger.Seals e ∧ e.draft = call.1 ∧
      e.knowledgeTime = call.2 ∧ ledger.appendCall call = ledger.push e := by
  unfold appendCall
  split
  · rename_i next id accepted
    obtain ⟨seals, pushed⟩ := seals_of_append accepted
    exact .inr ⟨_, seals, rfl, rfl, pushed⟩
  · exact .inl rfl

theorem Passes.appendCall {ledger : InMemoryLedger} {call : EventDraft × TimestampNs}
    (passes : ledger.Passes call) :
    ∃ e, e.draft = call.1 ∧ ledger.appendCall call = ledger.push e := by
  obtain ⟨e, seals, same, time⟩ := passes.seals
  have accepted : ledger.append call.1 call.2 = .ok (ledger.push e, e.eventId) :=
    same ▸ time ▸ seals
  exact ⟨e, same, by simp only [InMemoryLedger.appendCall, accepted]⟩

theorem appendCall_of_not_passes {ledger : InMemoryLedger} {call : EventDraft × TimestampNs}
    (refused : ¬ ledger.Passes call) : ledger.appendCall call = ledger := by
  rcases ledger.appendCall_cases call with unmoved | ⟨e, seals, same, time, _⟩
  · exact unmoved
  · have passes : ledger.Passes (call.1, call.2) := same ▸ time ▸ seals.passes
    exact absurd passes refused

theorem Seals.later {ledger : InMemoryLedger} {e : SealedEvent} (seals : ledger.Seals e)
    {last : SealedEvent} (ends : (ledger.stream e.draft.tenant).getLast? = some last) :
    last.knowledgeTime < e.knowledgeTime := by
  have checked := (append_eq_ok.mp seals).2.1
  simp only [checkTime, ends] at checked
  split at checked
  · contradiction
  · rename_i later
    exact not_le.mp later

end InMemoryLedger

end Treasury
