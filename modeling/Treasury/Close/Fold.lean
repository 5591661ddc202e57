import Treasury.Ledger.AsOf

/-! Folding the active events of a time into a state root, and why it can be folded again:
what the books said at a booked time never changes. -/
namespace Treasury
open Kit Kit.Json

def stateSchema : String := "treasury-close/state/v1"

/-- The commitment to the active events, in stream order. -/
def stateRoot [External] (active : List SealedEvent) : Except CanonError ContentHash := do
  let ids := active.map fun e => Value.string e.eventId.toHex
  let envelope := .object (ofEntries [("schema", .string stateSchema), ("events", .array ids)])
  let bytes ← canonicalBytes envelope
  return sha256 bytes

namespace InMemoryLedger

theorem asOf_append {ledger next : InMemoryLedger} {tenant : TenantId} {t : TimestampNs}
    {added : List SealedEvent} (grown : next.stream tenant = ledger.stream tenant ++ added)
    (after : ∀ e ∈ added, t < e.knowledgeTime) : next.asOf tenant t = ledger.asOf tenant t := by
  have none : added.filter (·.knowledgeTime ≤ t) = [] := by
    apply List.filter_eq_nil_iff.mpr
    intro e he
    simpa using after e he
  rw [asOf_eq, asOf_eq, booked, grown, List.filter_append, none, List.append_nil, booked]

variable [External]

/-- The stream has grown by events that are booked after a time it had reached. -/
structure GrownAfter (before : List SealedEvent) (tenant : TenantId) (t : TimestampNs)
    (ledger : InMemoryLedger) : Prop where
  grown : ∃ added, ledger.stream tenant = before ++ added ∧ ∀ e ∈ added, t < e.knowledgeTime
  reached : ∃ last, (ledger.stream tenant).getLast? = some last ∧ t ≤ last.knowledgeTime

theorem GrownAfter.appendCall {before : List SealedEvent} {tenant : TenantId} {t : TimestampNs}
    {ledger : InMemoryLedger} (h : ledger.GrownAfter before tenant t)
    (call : EventDraft × TimestampNs) : (ledger.appendCall call).GrownAfter before tenant t := by
  rcases appendCall_cases ledger call with same | ⟨e, seals, _, _, pushed⟩
  · rwa [same]
  · obtain ⟨added, grown, after⟩ := h.grown
    obtain ⟨last, ends, reached⟩ := h.reached
    rw [pushed]
    by_cases own : tenant = e.draft.tenant
    · subst own
      have later := reached.trans_lt (seals.later ends)
      constructor
      · refine ⟨added ++ [e], by rw [stream_push, if_pos rfl, grown, List.append_assoc], ?_⟩
        intro f hf
        rcases List.mem_append.mp hf with old | new
        · exact after f old
        · rwa [List.mem_singleton.mp new]
      · exact ⟨e, by rw [stream_push, if_pos rfl, List.getLast?_concat], later.le⟩
    · have kept : (ledger.push e).stream tenant = ledger.stream tenant := by
        rw [stream_push, if_neg own]
      exact ⟨⟨added, kept ▸ grown, after⟩, ⟨last, kept ▸ ends, reached⟩⟩

/-- What the books said at a time that a stream has reached, and the root it folds to, stay
the same whatever is appended. -/
theorem history_stable (ledger : InMemoryLedger) (tenant : TenantId) {last : SealedEvent}
    (ends : (ledger.stream tenant).getLast? = some last) {t : TimestampNs}
    (reached : t ≤ last.knowledgeTime) (calls : List (EventDraft × TimestampNs)) :
    (run appendCall ledger calls).asOf tenant t = ledger.asOf tenant t ∧
      stateRoot ((run appendCall ledger calls).asOf tenant t) =
        stateRoot (ledger.asOf tenant t) := by
  have start : ledger.GrownAfter (ledger.stream tenant) tenant t :=
    ⟨⟨[], by simp⟩, ⟨last, ends, reached⟩⟩
  obtain ⟨⟨added, grown, after⟩, _⟩ :=
    run_invariant appendCall (GrownAfter (ledger.stream tenant) tenant t)
      (fun _ call h => h.appendCall call) calls ledger start
  have same := asOf_append grown after
  exact ⟨same, by rw [same]⟩

omit [External] in
/-- A second event leaves the first time's books as they were. -/
theorem history_stable_first :
    letI : External := reference
    (run appendCall (new.push (firstEvent "acme")) [(observed "acme", ⟨⟨1, by decide, by decide⟩⟩)]).asOf
        ⟨"acme"⟩ ⟨0⟩ = (new.push (firstEvent "acme")).asOf ⟨"acme"⟩ ⟨0⟩ := by
  let _ : External := reference
  have stream := stream_firstEvent new "acme" (stream_new _)
  have ends : ((new.push (firstEvent "acme")).stream ⟨"acme"⟩).getLast? = some (firstEvent "acme") := by
    rw [stream, List.getLast?_singleton]
  exact (history_stable _ ⟨"acme"⟩ ends le_rfl _).1

end InMemoryLedger

end Treasury
