import Treasury.Kit.Json.Parse
import Treasury.Ledger.Event
import Treasury.Reference

/-! The record of a sealed event in the log: the members in the order in which the
types declare them, and the reader of such a record. -/
namespace Treasury
open Kit Kit.Json

def EventDraft.record (d : EventDraft) : Value :=
  .object [("tenant", .string d.tenant.value), ("layer", d.layer.toJson),
    ("event_time", d.eventTime.toJson), ("supersedes", supersedesJson d.supersedes),
    ("provenance", .object d.provenance.members), ("payload", d.payload.value)]

def SealedEvent.record (e : SealedEvent) : Value :=
  .object [("event_id", hashJson e.eventId), ("prev", hashJson e.prev),
    ("knowledge_time", e.knowledgeTime.toJson), ("draft", e.draft.record)]

/-- A record opens two objects around the payload, and four levels around the
inputs of a provenance. -/
theorem SealedEvent.nesting_record (e : SealedEvent) :
    2 + nesting e.draft.payload.value ≤ nesting e.record ∧
      nesting e.record ≤ max 4 (2 + nesting e.draft.payload.value) := by
  have scalar : nesting e.draft.layer.toJson = 0 ∧ nesting (supersedesJson e.draft.supersedes) = 0 := by
    constructor
    · cases e.draft.layer <;> rfl
    · cases e.draft.supersedes <;> rfl
  have flat : ∀ vs : List Value, (∀ v ∈ vs, nesting v = 0) → nestingItems vs = 0 := by
    intro vs
    induction vs with
    | nil => exact fun _ => rfl
    | cons v vs ih =>
      intro h
      simp [nestingItems, h v (by simp), ih fun w hw => h w (by simp [hw])]
  have provenance : nestingEntries e.draft.provenance.members ≤ 1 := by
    cases e.draft.provenance <;>
      simp [Provenance.members, nestingEntries, nesting, hashJson, hashesJson, flat]
  simp only [record, EventDraft.record, nesting, nestingEntries, hashJson, TimestampNs.toJson,
    scalar.1, scalar.2]
  omega

theorem SealedEvent.integral_record (e : SealedEvent) :
    Integral e.record ↔ Integral e.draft.payload.value := by
  have provenance : IntegralEntries e.draft.provenance.members := by
    rw [integralEntries_iff]
    exact (integral_ofEntries e.draft.provenance.keys_distinct).mp e.draft.provenance.flat.1
  have scalar : Integral e.draft.layer.toJson ∧ Integral (supersedesJson e.draft.supersedes) := by
    constructor
    · cases e.draft.layer <;> trivial
    · cases e.draft.supersedes <;> trivial
  simp [record, EventDraft.record, Integral, IntegralEntries, hashJson, TimestampNs.toJson,
    scalar.1, scalar.2, provenance]

/-- `serde_json::from_str` at the type of a sealed event. -/
class LedgerReader [External] where
  readSealed : String → Option SealedEvent
  readSealed_record : ∀ e : SealedEvent, Integral e.draft.payload.value →
    readSealed (toText e.record) = if nesting e.record < recursionLimit then some e else none

export LedgerReader (readSealed)

/- A reader of records, from the tree that a reader of JSON builds. -/

def readMember (key : String) : Value → Option Value
  | .object map => lookup key map
  | _ => none

def readText : Value → Option String
  | .string s => some s
  | _ => none

def readHash (v : Value) : Option ContentHash := do
  let text ← readText v
  (ContentHash.fromHex text).toOption

def readTime (v : Value) : Option TimestampNs := do
  let text ← readText v
  let z ← intOfText text.toList
  let nanos ← Bounded.ofInt? z
  return ⟨nanos⟩

def readList {α : Type} (read : Value → Option α) : Value → Option (List α)
  | .array vs => vs.mapM read
  | _ => none

def readActor (v : Value) : Option ActorId := (readText v).map ActorId.mk

def readLayer (v : Value) : Option ClaimLayer := do
  match ← readText v with
  | "observation" => some .observation
  | "derived_fact" => some .derivedFact
  | "judgment" => some .judgment
  | "policy_output" => some .policyOutput
  | _ => none

def readSupersedes : Value → Option (Option EventId)
  | .null => some none
  | v => (readHash v).map some

def readProvenance (v : Value) : Option Provenance := do
  let kind ← readMember "kind" v >>= readText
  match kind with
  | "observation" => do
    let source ← readMember "source" v >>= readText
    let evidence ← readMember "evidence" v >>= readHash
    return .observation ⟨source⟩ evidence
  | "derived" => do
    let codeVersion ← readMember "code_version" v >>= readHash
    let inputs ← readMember "inputs" v >>= readList readHash
    return .derived codeVersion inputs
  | "judgment" => do
    let policyHash ← readMember "policy_hash" v >>= readHash
    let approvers ← readMember "approvers" v >>= readList readActor
    let evidence ← readMember "evidence" v >>= readList readHash
    return .judgment policyHash approvers evidence
  | "policy_output" => do
    let policyHash ← readMember "policy_hash" v >>= readHash
    let inputs ← readMember "inputs" v >>= readList readHash
    return .policyOutput policyHash inputs
  | _ => none

def readDraft (v : Value) : Option EventDraft := do
  let tenant ← readMember "tenant" v >>= readText
  let layer ← readMember "layer" v >>= readLayer
  let eventTime ← readMember "event_time" v >>= readTime
  let supersedes ← readMember "supersedes" v >>= readSupersedes
  let provenance ← readMember "provenance" v >>= readProvenance
  let payload ← readMember "payload" v
  return ⟨⟨tenant⟩, layer, eventTime, supersedes, provenance, .ofValue payload⟩

def readEvent (v : Value) : Option SealedEvent := do
  let eventId ← readMember "event_id" v >>= readHash
  let prev ← readMember "prev" v >>= readHash
  let knowledgeTime ← readMember "knowledge_time" v >>= readTime
  let draft ← readMember "draft" v >>= readDraft
  return ⟨eventId, prev, knowledgeTime, draft⟩

theorem readMember_asRead {es : List (String × Value)} (distinct : (es.map Prod.fst).Nodup)
    (key : String) :
    readMember key (asRead (.object es)) = (lookup key es).map asRead := by
  have member : ∀ fs : List (String × Value),
      lookup key (asReadEntries fs) = (lookup key fs).map asRead := by
    intro fs
    induction fs with
    | nil => rfl
    | cons f fs ih =>
      obtain ⟨k, v⟩ := f
      simp only [asReadEntries, lookup]
      split_ifs
      · rfl
      · exact ih
  rw [asRead, readMember, lookup_ofEntries _ (by rw [asReadEntries_keys]; exact distinct), member]

@[simp] theorem asRead_string (s : String) : asRead (.string s) = .string s := rfl

@[simp] theorem readHash_hashJson (h : ContentHash) : readHash (asRead (hashJson h)) = some h := by
  simp [hashJson, readHash, readText, Except.toOption]

@[simp] theorem readTime_toJson (t : TimestampNs) : readTime (asRead t.toJson) = some t := by
  simp [TimestampNs.toJson, readTime, readText, intOfText_repr]

@[simp] theorem readLayer_toJson (l : ClaimLayer) : readLayer (asRead l.toJson) = some l := by
  cases l <;> rfl

@[simp] theorem readSupersedes_json (s : Option EventId) :
    readSupersedes (asRead (supersedesJson s)) = some s := by
  cases s with
  | none => rfl
  | some id =>
    have back := readHash_hashJson id
    simp only [hashJson, asRead] at back
    simp [supersedesJson, hashJson, readSupersedes, back]

theorem readList_asRead {α : Type} (read : Value → Option α) (write : α → Value)
    (back : ∀ a, read (asRead (write a)) = some a) (l : List α) :
    readList read (asRead (.array (l.map write))) = some l := by
  simp only [asRead, readList]
  induction l with
  | nil => rfl
  | cons a l ih => simp [asReadItems, back, ih]

theorem readProvenance_members (p : Provenance) :
    readProvenance (asRead (.object p.members)) = some p := by
  have member := readMember_asRead p.keys_distinct
  have hashes := readList_asRead readHash hashJson readHash_hashJson
  have actors := readList_asRead readActor (fun a => Value.string a.value) fun a => by
    simp [readActor, readText]
  generalize asRead (.object p.members) = v at member ⊢
  cases p <;>
    simp [readProvenance, member, Provenance.members, lookup, hashesJson, hashes, actors, readText]

theorem readDraft_record (d : EventDraft) : readDraft (asRead d.record) = some d := by
  have member := @readMember_asRead [("tenant", .string d.tenant.value),
    ("layer", d.layer.toJson), ("event_time", d.eventTime.toJson),
    ("supersedes", supersedesJson d.supersedes), ("provenance", .object d.provenance.members),
    ("payload", d.payload.value)] (by simp)
  rw [EventDraft.record]
  generalize asRead (.object _) = v at member ⊢
  simp [readDraft, member, lookup, readText, readProvenance_members,
    asRead_eq_self _ d.payload.sorted]

theorem readEvent_record (e : SealedEvent) : readEvent (asRead e.record) = some e := by
  have member := @readMember_asRead [("event_id", hashJson e.eventId),
    ("prev", hashJson e.prev), ("knowledge_time", e.knowledgeTime.toJson),
    ("draft", e.draft.record)] (by simp)
  rw [SealedEvent.record]
  generalize asRead (.object _) = v at member ⊢
  simp [readEvent, member, lookup, readDraft_record]

/-- The reader of records over the reference reader of JSON. -/
@[reducible] def referenceReader : @LedgerReader reference :=
  letI : External := reference
  { readSealed := fun s => (parse standardReader recursionLimit s.toList).bind readEvent
    readSealed_record := fun e integral => by
      have whole := parse_print standardReader recursionLimit (by decide) e.record
        (e.integral_record.mpr integral)
      have text : (toText e.record).toList = print standard e.record := String.toList_ofList
      rw [text, whole]
      split_ifs
      · exact readEvent_record e
      · rfl }

end Treasury
