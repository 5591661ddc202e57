import Treasury.Close.Fold

/-! Whether a state root can be folded again from a ledger that has grown: exactly where nothing
was booked back to the time of the root. -/
namespace Treasury
open Kit Kit.Json

def stateEnvelope (active : List SealedEvent) : Value :=
  .object (ofEntries [("schema", .string stateSchema),
    ("events", .array (active.map fun e => .string e.eventId.toHex))])

theorem stateEnvelope_flat (active : List SealedEvent) : Flat 2 (stateEnvelope active) := by
  have ids : Flat 1 (.array (active.map fun e => .string e.eventId.toHex)) := by
    refine flat_array fun v member => ?_
    obtain ⟨e, _, rfl⟩ := List.mem_map.mp member
    exact flat_string 0 _
  exact flat_object (by simp) (by simp [ids])

theorem stateEnvelope_ids {a b : List SealedEvent} (h : stateEnvelope a = stateEnvelope b) :
    a.map SealedEvent.eventId = b.map SealedEvent.eventId := by
  have same := ofEntries_injective (by simp) (by simp) (Value.object.inj h)
  simp only [List.cons.injEq, Prod.mk.injEq, true_and, and_true, Value.array.injEq] at same
  have texts : Function.Injective fun id : EventId => Value.string id.toHex :=
    fun _ _ same => ContentHash.toHex_injective (Value.string.inj same)
  refine List.map_injective_iff.mpr texts ?_
  rw [List.map_map, List.map_map]
  exact same

section
variable [External]

def stateBytes (active : List SealedEvent) : Bytes := utf8 (toText (stateEnvelope active))

theorem stateRoot_eq (active : List SealedEvent) :
    stateRoot active = .ok (sha256 (stateBytes active)) := by
  have written := canonicalBytes_flat (stateEnvelope_flat active) (by decide)
  unfold stateEnvelope at written
  unfold stateRoot
  dsimp only
  rw [written]
  rfl

theorem stateBytes_ids {a b : List SealedEvent} (h : stateBytes a = stateBytes b) :
    a.map SealedEvent.eventId = b.map SealedEvent.eventId :=
  stateEnvelope_ids (toText_flat_injective (stateEnvelope_flat a) (stateEnvelope_flat b) h)

end

namespace InMemoryLedger
variable [External] {ledger later : InMemoryLedger} {tenant : TenantId} {added : List SealedEvent}

theorem stream_grows (ledger : InMemoryLedger) (calls : List (EventDraft × TimestampNs))
    (tenant : TenantId) :
    ∃ added, (run appendCall ledger calls).stream tenant = ledger.stream tenant ++ added := by
  refine run_invariant appendCall
    (fun next => ∃ added, next.stream tenant = ledger.stream tenant ++ added) ?_ calls ledger
    ⟨[], (List.append_nil _).symm⟩
  rintro next call ⟨added, grown⟩
  rcases appendCall_cases next call with same | ⟨e, _, _, _, pushed⟩
  · exact ⟨added, by rw [same, grown]⟩
  · rw [pushed, stream_push]
    split
    · exact ⟨added ++ [e], by rw [grown, List.append_assoc]⟩
    · exact ⟨added, grown⟩

theorem Sound.last_active (sound : later.Sound) {t : TimestampNs} {front : List SealedEvent}
    {last : SealedEvent} (split : later.booked tenant t = front ++ [last]) :
    last ∈ later.asOf tenant t := by
  have corrected := sound.corrected_booked tenant t
  rw [split] at corrected
  rw [asOf_eq, split, inForce_concat corrected]
  exact List.mem_append_right _ (List.mem_singleton_self _)

/-- The active events of a time keep their identities exactly where nothing is booked back to
that time: of what is, the last is active and has an identity of its own. -/
theorem Sound.active_ids_iff (sound : later.Sound)
    (grown : later.stream tenant = ledger.stream tenant ++ added) (t : TimestampNs) :
    (later.asOf tenant t).map SealedEvent.eventId = (ledger.asOf tenant t).map SealedEvent.eventId ↔
      ∀ e ∈ added, t < e.knowledgeTime := by
  constructor
  · intro same e member
    by_contra backdated
    have inBooked : e ∈ added.filter (·.knowledgeTime ≤ t) := by simpa [member] using backdated
    rcases List.eq_nil_or_concat (added.filter (·.knowledgeTime ≤ t)) with none | ⟨front, last, split⟩
    · exact absurd inBooked (none ▸ List.not_mem_nil)
    · rw [List.concat_eq_append] at split
      have books : later.booked tenant t = (ledger.booked tenant t ++ front) ++ [last] := by
        rw [booked, grown, List.filter_append, split, ← List.append_assoc, booked]
      have late : last ∈ added.filter (·.knowledgeTime ≤ t) :=
        split ▸ List.mem_append_right _ (List.mem_singleton_self _)
      have isNew : last ∈ added := (List.mem_filter.mp late).1
      have identity : last.eventId ∈ (ledger.asOf tenant t).map SealedEvent.eventId :=
        same ▸ List.mem_map_of_mem (sound.last_active books)
      obtain ⟨old, active, twice⟩ := List.mem_map.mp identity
      have isOld : old ∈ ledger.stream tenant := by
        rw [asOf_eq] at active
        exact (mem_booked.mp (mem_inForce.mp active).1).1
      have distinct := (sound.corrected tenant).ids_distinct
      rw [grown, List.map_append, List.nodup_append] at distinct
      exact distinct.2.2 _ (List.mem_map_of_mem isOld) _ (List.mem_map_of_mem isNew) twice
  · exact fun after => congrArg _ (asOf_append grown after)

theorem Sound.root_iff {preimages : Set Bytes} (injective : Set.InjOn sha256 preimages)
    (sound : later.Sound) (grown : later.stream tenant = ledger.stream tenant ++ added)
    {t : TimestampNs} (before : stateBytes (ledger.asOf tenant t) ∈ preimages)
    (now : stateBytes (later.asOf tenant t) ∈ preimages) :
    stateRoot (later.asOf tenant t) = stateRoot (ledger.asOf tenant t) ↔
      ∀ e ∈ added, t < e.knowledgeTime := by
  rw [← sound.active_ids_iff grown t, stateRoot_eq, stateRoot_eq, Except.ok.injEq]
  constructor
  · exact fun same => stateBytes_ids (injective now before same)
  · intro same
    have texts := congrArg (List.map fun id : EventId => Value.string id.toHex) same
    simp only [List.map_map] at texts
    exact congrArg (fun ids => sha256 (utf8 (toText (.object (ofEntries
      [("schema", .string stateSchema), ("events", .array ids)]))))) texts

end InMemoryLedger

end Treasury
