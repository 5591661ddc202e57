import Treasury.Evidence.Canon

/-! Events: claim layers, the provenance that each layer requires, and the
identity of a sealed event, which is the digest of its canonical envelope. -/
namespace Treasury
open Kit Kit.Json

def eventSchema : String := "treasury-ledger/event/v1"

abbrev EventId := ContentHash

inductive ClaimLayer where
  | observation
  | derivedFact
  | judgment
  | policyOutput
  deriving DecidableEq

def ClaimLayer.toJson : ClaimLayer → Value
  | .observation => .string "observation"
  | .derivedFact => .string "derived_fact"
  | .judgment => .string "judgment"
  | .policyOutput => .string "policy_output"

inductive Provenance where
  | observation (source : SourceId) (evidence : ContentHash)
  | derived (codeVersion : ContentHash) (inputs : List EventId)
  | judgment (policyHash : ContentHash) (approvers : List ActorId) (evidence : List ContentHash)
  | policyOutput (policyHash : ContentHash) (inputs : List EventId)
  deriving DecidableEq

def Provenance.layer : Provenance → ClaimLayer
  | .observation .. => .observation
  | .derived .. => .derivedFact
  | .judgment .. => .judgment
  | .policyOutput .. => .policyOutput

def hashJson (h : ContentHash) : Value := .string h.toHex
def hashesJson (hs : List ContentHash) : Value := .array (hs.map hashJson)

/-- The members of a provenance, the tag first, in the order of the declaration. -/
def Provenance.members : Provenance → List (String × Value)
  | .observation source evidence =>
    [("kind", .string "observation"), ("source", .string source.value),
      ("evidence", hashJson evidence)]
  | .derived codeVersion inputs =>
    [("kind", .string "derived"), ("code_version", hashJson codeVersion),
      ("inputs", hashesJson inputs)]
  | .judgment policyHash approvers evidence =>
    [("kind", .string "judgment"), ("policy_hash", hashJson policyHash),
      ("approvers", .array (approvers.map fun a => .string a.value)),
      ("evidence", hashesJson evidence)]
  | .policyOutput policyHash inputs =>
    [("kind", .string "policy_output"), ("policy_hash", hashJson policyHash),
      ("inputs", hashesJson inputs)]

def Provenance.toJson (p : Provenance) : Value := .object (ofEntries p.members)

structure EventDraft where
  tenant : TenantId
  layer : ClaimLayer
  eventTime : TimestampNs
  supersedes : Option EventId
  provenance : Provenance
  payload : Tree

structure SealedEvent where
  eventId : EventId
  prev : ContentHash
  knowledgeTime : TimestampNs
  draft : EventDraft

def supersedesJson : Option EventId → Value
  | none => .null
  | some id => hashJson id

def envelopeMembers (prev : ContentHash) (knowledgeTime : TimestampNs) (draft : EventDraft) :
    List (String × Value) :=
  [("schema", .string eventSchema), ("prev", hashJson prev), ("tenant", .string draft.tenant.value),
    ("layer", draft.layer.toJson), ("event_time", draft.eventTime.toJson),
    ("knowledge_time", knowledgeTime.toJson), ("supersedes", supersedesJson draft.supersedes),
    ("provenance", draft.provenance.toJson), ("payload", draft.payload.value)]

def envelope (prev : ContentHash) (knowledgeTime : TimestampNs) (draft : EventDraft) : Value :=
  .object (ofEntries (envelopeMembers prev knowledgeTime draft))

def genesisTag (tenant : TenantId) : Bytes :=
  utf8 ("presidio-treasury:genesis:v1:" ++ tenant.value)

section
variable [External]

def canonicalEnvelope (prev : ContentHash) (knowledgeTime : TimestampNs) (draft : EventDraft) :
    Except CanonError Bytes :=
  canonicalBytes (envelope prev knowledgeTime draft)

def computeId (prev : ContentHash) (knowledgeTime : TimestampNs) (draft : EventDraft) :
    Except CanonError EventId := do
  let bytes ← canonicalEnvelope prev knowledgeTime draft
  return sha256 bytes

def genesisHash (tenant : TenantId) : ContentHash := sha256 (genesisTag tenant)

end

/- The parts of an envelope determine what they were written from. -/

theorem ClaimLayer.toJson_injective {a b : ClaimLayer} (h : a.toJson = b.toJson) : a = b := by
  cases a <;> cases b <;> first | rfl | exact absurd (Value.string.inj h) (by decide)

theorem hashJson_injective {a b : ContentHash} (h : hashJson a = hashJson b) : a = b :=
  ContentHash.toHex_injective (Value.string.inj h)

theorem hashesJson_injective {a b : List ContentHash} (h : hashesJson a = hashesJson b) : a = b :=
  List.map_injective_iff.mpr (fun _ _ => hashJson_injective) (Value.array.inj h)

theorem supersedesJson_injective {a b : Option EventId}
    (h : supersedesJson a = supersedesJson b) : a = b := by
  cases a with
  | none => cases b with
    | none => rfl
    | some b => cases h
  | some a => cases b with
    | none => cases h
    | some b => rw [hashJson_injective h]

theorem Provenance.keys_distinct (p : Provenance) : (p.members.map Prod.fst).Nodup := by
  cases p <;> simp [members]

theorem Provenance.lookup_kind (p : Provenance) : lookup "kind" (ofEntries p.members) =
    some (.string (match p with
      | .observation .. => "observation"
      | .derived .. => "derived"
      | .judgment .. => "judgment"
      | .policyOutput .. => "policy_output")) := by
  rw [lookup_ofEntries _ p.keys_distinct]
  cases p <;> simp [members, lookup]

theorem Provenance.toJson_injective {p q : Provenance} (h : p.toJson = q.toJson) : p = q := by
  have maps := Value.object.inj h
  have kinds := p.lookup_kind
  rw [maps, q.lookup_kind, Option.some.injEq, Value.string.injEq] at kinds
  have members : ∀ (_ : p.members.map Prod.fst = q.members.map Prod.fst), p.members = q.members :=
    fun keys => ofEntries_injective keys p.keys_distinct maps
  cases p with
  | observation source evidence => cases q with
    | observation source' evidence' =>
      have same := members rfl
      simp only [Provenance.members, List.cons.injEq, Prod.mk.injEq, true_and, and_true,
        Value.string.injEq] at same
      obtain ⟨sources, hashes⟩ := same
      cases source; cases source'; cases sources
      rw [hashJson_injective hashes]
    | _ => exact absurd kinds (by simp)
  | derived codeVersion inputs => cases q with
    | derived codeVersion' inputs' =>
      have same := members rfl
      simp only [Provenance.members, List.cons.injEq, Prod.mk.injEq, true_and, and_true] at same
      rw [hashJson_injective same.1, hashesJson_injective same.2]
    | _ => exact absurd kinds (by simp)
  | judgment policyHash approvers evidence => cases q with
    | judgment policyHash' approvers' evidence' =>
      have same := members rfl
      simp only [Provenance.members, List.cons.injEq, Prod.mk.injEq, true_and, and_true,
        Value.array.injEq] at same
      rw [hashJson_injective same.1, approvers_injective same.2.1, hashesJson_injective same.2.2]
    | _ => exact absurd kinds (by simp)
  | policyOutput policyHash inputs => cases q with
    | policyOutput policyHash' inputs' =>
      have same := members rfl
      simp only [Provenance.members, List.cons.injEq, Prod.mk.injEq, true_and, and_true] at same
      rw [hashJson_injective same.1, hashesJson_injective same.2]
    | _ => exact absurd kinds (by simp)

theorem envelope_keys_distinct (prev : ContentHash) (t : TimestampNs) (d : EventDraft) :
    ((envelopeMembers prev t d).map Prod.fst).Nodup := by
  simp [envelopeMembers]

theorem envelope_injective {p q : ContentHash} {t u : TimestampNs} {d e : EventDraft}
    (h : envelope p t d = envelope q u e) : p = q ∧ t = u ∧ d = e := by
  have same := ofEntries_injective (by simp [envelopeMembers]) (envelope_keys_distinct p t d)
    (Value.object.inj h)
  simp only [envelopeMembers, List.cons.injEq, Prod.mk.injEq, true_and, and_true,
    Value.string.injEq] at same
  obtain ⟨prev, tenant, layer, eventTime, knowledgeTime, supersedes, provenance, payload⟩ := same
  refine ⟨hashJson_injective prev, TimestampNs.toJson_injective knowledgeTime, ?_⟩
  obtain ⟨⟨tenantD⟩, layerD, timeD, supersedesD, provenanceD, payloadD⟩ := d
  obtain ⟨⟨tenantE⟩, layerE, timeE, supersedesE, provenanceE, payloadE⟩ := e
  obtain rfl : tenantD = tenantE := tenant
  obtain rfl : layerD = layerE := ClaimLayer.toJson_injective layer
  obtain rfl : timeD = timeE := TimestampNs.toJson_injective eventTime
  obtain rfl : supersedesD = supersedesE := supersedesJson_injective supersedes
  obtain rfl : provenanceD = provenanceE := Provenance.toJson_injective provenance
  obtain rfl : payloadD = payloadE := Tree.ext_value payload
  rfl

/- What the envelope adds around a payload: three levels of its own, no float. -/

theorem Provenance.sorted (p : Provenance) : Sorted p.toJson := by
  refine sorted_object fun e he => ?_
  cases p <;> simp only [members, List.mem_cons, List.not_mem_nil, or_false] at he <;>
    rcases he with rfl | rfl | rfl | rfl <;> simp [Sorted, hashJson, hashesJson, sortedItems_iff]

theorem envelope_sorted (prev : ContentHash) (t : TimestampNs) (d : EventDraft) :
    Sorted (envelope prev t d) := by
  refine sorted_object fun e he => ?_
  simp only [envelopeMembers, List.mem_cons, List.not_mem_nil, or_false] at he
  rcases he with rfl | rfl | rfl | rfl | rfl | rfl | rfl | rfl | rfl
  · trivial
  · trivial
  · trivial
  · cases d.layer <;> trivial
  · trivial
  · trivial
  · cases d.supersedes <;> trivial
  · exact d.provenance.sorted
  · exact d.payload.sorted

theorem Provenance.flat (p : Provenance) :
    Integral p.toJson ∧ height p.toJson ≤ 2 := by
  rw [toJson, integral_ofEntries p.keys_distinct, height_ofEntries p.keys_distinct]
  refine ⟨fun e he => ?_, fun e he => ?_⟩
  · cases p <;> simp only [members, List.mem_cons, List.not_mem_nil, or_false] at he <;>
      rcases he with rfl | rfl | rfl | rfl <;>
        simp [Integral, hashJson, hashesJson, integralItems_iff]
  · have list : ∀ vs : List Value, (∀ v ∈ vs, height v = 0) → heightItems vs ≤ 1 :=
      fun vs h => (heightItems_le_iff vs 1).mpr fun v hv => by rw [h v hv]
    cases p <;> simp only [members, List.mem_cons, List.not_mem_nil, or_false] at he <;>
      rcases he with rfl | rfl | rfl | rfl <;>
        simp [height, hashJson, hashesJson, list]

theorem envelope_integral (prev : ContentHash) (t : TimestampNs) (d : EventDraft) :
    Integral (envelope prev t d) ↔ Integral d.payload.value := by
  rw [envelope, integral_ofEntries (envelope_keys_distinct prev t d)]
  constructor
  · exact fun h => h ("payload", d.payload.value) (by simp [envelopeMembers])
  · intro payload e he
    simp only [envelopeMembers, List.mem_cons, List.not_mem_nil, or_false] at he
    rcases he with rfl | rfl | rfl | rfl | rfl | rfl | rfl | rfl | rfl
    · trivial
    · trivial
    · trivial
    · cases d.layer <;> trivial
    · trivial
    · trivial
    · cases d.supersedes <;> trivial
    · exact d.provenance.flat.1
    · exact payload

theorem envelope_height (prev : ContentHash) (t : TimestampNs) (d : EventDraft) :
    height (envelope prev t d) ≤ maxDepth ↔ height d.payload.value + 1 ≤ maxDepth := by
  rw [envelope, height_ofEntries (envelope_keys_distinct prev t d)]
  constructor
  · exact fun h => h ("payload", d.payload.value) (by simp [envelopeMembers])
  · intro payload e he
    have scalar : ∀ v : Value, height v = 0 → height v + 1 ≤ maxDepth := by
      intro v h; rw [h]; decide
    simp only [envelopeMembers, List.mem_cons, List.not_mem_nil, or_false] at he
    rcases he with rfl | rfl | rfl | rfl | rfl | rfl | rfl | rfl | rfl
    · exact scalar _ rfl
    · exact scalar _ rfl
    · exact scalar _ rfl
    · exact scalar _ (by cases d.layer <;> rfl)
    · exact scalar _ rfl
    · exact scalar _ rfl
    · exact scalar _ (by cases d.supersedes <;> rfl)
    · have := d.provenance.flat.2
      simp only [maxDepth]
      omega
    · exact payload

section
variable [External]

theorem canonicalEnvelope_eq_ok {prev : ContentHash} {t : TimestampNs} {d : EventDraft}
    {b : Bytes} : canonicalEnvelope prev t d = .ok b ↔
      Integral d.payload.value ∧ height d.payload.value + 1 ≤ maxDepth ∧
        b = utf8 (toText (envelope prev t d)) := by
  rw [canonicalEnvelope, canonicalBytes_eq_ok (envelope_sorted prev t d), envelope_integral,
    envelope_height]

theorem computeId_eq_ok {prev : ContentHash} {t : TimestampNs} {d : EventDraft} {id : EventId} :
    computeId prev t d = .ok id ↔
      ∃ b, canonicalEnvelope prev t d = .ok b ∧ sha256 b = id := by
  simp only [computeId, bind_eq_ok, pure_eq_ok]

theorem canonicalEnvelope_injective {p q : ContentHash} {t u : TimestampNs} {d e : EventDraft}
    {b : Bytes} (first : canonicalEnvelope p t d = .ok b)
    (second : canonicalEnvelope q u e = .ok b) : p = q ∧ t = u ∧ d = e :=
  envelope_injective
    (canonicalBytes_injective (envelope_sorted p t d) (envelope_sorted q u e) first second)

/-- An envelope opens with a brace and a genesis tag does not. -/
theorem canonicalEnvelope_ne_genesisTag {prev : ContentHash} {t : TimestampNs} {d : EventDraft}
    {b : Bytes} (accepted : canonicalEnvelope prev t d = .ok b) (tenant : TenantId) :
    b ≠ genesisTag tenant := by
  obtain ⟨_, _, bytes⟩ := canonicalEnvelope_eq_ok.mp accepted
  rw [bytes]
  intro same
  have text : toText (envelope prev t d) = "presidio-treasury:genesis:v1:" ++ tenant.value :=
    utf8_injective same
  have brace : (toText (envelope prev t d)).toList.head? = some '\x7b' := by
    rw [toText, String.toList_ofList, envelope, print, List.head?_cons]
  have letter : ("presidio-treasury:genesis:v1:" ++ tenant.value).toList.head? = some 'p' := by
    rw [String.toList_append]
    rfl
  rw [text, letter] at brace
  exact absurd brace (by decide)

end

end Treasury
