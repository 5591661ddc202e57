import Treasury.Ledger.Event

/-! Checkpoints of a closed period, and the identity of a sealed one, which is the digest of
its canonical envelope. -/
namespace Treasury
open Kit Kit.Json

def checkpointSchema : String := "treasury-close/checkpoint/v1"

abbrev CheckpointId := ContentHash

structure PeriodId where
  value : String
  deriving DecidableEq

inductive SupersessionReason where
  | lateData
  | providerRevision
  | chainReorg
  | policyCorrection
  | judgmentRevision
  deriving DecidableEq

def SupersessionReason.toJson : SupersessionReason → Value
  | .lateData => .string "late_data"
  | .providerRevision => .string "provider_revision"
  | .chainReorg => .string "chain_reorg"
  | .policyCorrection => .string "policy_correction"
  | .judgmentRevision => .string "judgment_revision"

structure CheckpointDraft where
  tenant : TenantId
  period : PeriodId
  asOf : TimestampNs
  stateRoot : ContentHash
  supersedes : Option CheckpointId
  reason : Option SupersessionReason
  materialityMemo : Option ContentHash
  deriving DecidableEq

structure SealedCheckpoint where
  checkpointId : CheckpointId
  sealedAt : TimestampNs
  draft : CheckpointDraft
  deriving DecidableEq

def nullable {α : Type} (toJson : α → Value) (a : Option α) : Value := (a.map toJson).getD .null

namespace SealedCheckpoint

def envelopeMembers (sealedAt : TimestampNs) (draft : CheckpointDraft) : List (String × Value) :=
  [("schema", .string checkpointSchema), ("tenant", .string draft.tenant.value),
    ("period", .string draft.period.value), ("as_of", draft.asOf.toJson),
    ("sealed_at", sealedAt.toJson), ("state_root", hashJson draft.stateRoot),
    ("supersedes", nullable hashJson draft.supersedes),
    ("reason", nullable SupersessionReason.toJson draft.reason),
    ("materiality_memo", nullable hashJson draft.materialityMemo)]

def envelope (sealedAt : TimestampNs) (draft : CheckpointDraft) : Value :=
  .object (ofEntries (envelopeMembers sealedAt draft))

def computeId [External] (sealedAt : TimestampNs) (draft : CheckpointDraft) :
    Except CanonError CheckpointId := do
  let bytes ← canonicalBytes (envelope sealedAt draft)
  return sha256 bytes

end SealedCheckpoint

theorem SupersessionReason.toJson_injective {a b : SupersessionReason} (h : a.toJson = b.toJson) :
    a = b := by
  cases a <;> cases b <;> first | rfl | exact absurd (Value.string.inj h) (by decide)

theorem nullable_injective {α : Type} {toJson : α → Value}
    (injective : ∀ a b, toJson a = toJson b → a = b) (present : ∀ a, toJson a ≠ .null)
    {a b : Option α} (h : nullable toJson a = nullable toJson b) : a = b := by
  cases a with
  | none => cases b with
    | none => rfl
    | some b => exact absurd h.symm (present b)
  | some a => cases b with
    | none => exact absurd h (present a)
    | some b => rw [injective a b h]

theorem nullable_flat {α : Type} {toJson : α → Value} (text : ∀ a, Flat 0 (toJson a))
    (a : Option α) : Flat 0 (nullable toJson a) := by
  cases a with
  | none => exact flat_null 0
  | some a => exact text a

theorem nullable_hash_injective {a b : Option ContentHash}
    (h : nullable hashJson a = nullable hashJson b) : a = b :=
  nullable_injective (fun _ _ => hashJson_injective) (by simp [hashJson]) h

theorem SupersessionReason.flat (reason : SupersessionReason) : Flat 0 reason.toJson := by
  cases reason <;> exact flat_string 0 _

namespace SealedCheckpoint

theorem envelope_keys_distinct (t : TimestampNs) (d : CheckpointDraft) :
    ((envelopeMembers t d).map Prod.fst).Nodup := by
  simp [envelopeMembers]

theorem envelope_injective {t u : TimestampNs} {d e : CheckpointDraft}
    (h : envelope t d = envelope u e) : t = u ∧ d = e := by
  have same := ofEntries_injective (by simp [envelopeMembers]) (envelope_keys_distinct t d)
    (Value.object.inj h)
  simp only [envelopeMembers, List.cons.injEq, Prod.mk.injEq, true_and, and_true,
    Value.string.injEq] at same
  obtain ⟨tenant, period, asOf, sealedAt, stateRoot, supersedes, reason, memo⟩ := same
  refine ⟨TimestampNs.toJson_injective sealedAt, ?_⟩
  obtain ⟨⟨tenantD⟩, ⟨periodD⟩, asOfD, rootD, supersedesD, reasonD, memoD⟩ := d
  obtain ⟨⟨tenantE⟩, ⟨periodE⟩, asOfE, rootE, supersedesE, reasonE, memoE⟩ := e
  obtain rfl : tenantD = tenantE := tenant
  obtain rfl : periodD = periodE := period
  obtain rfl : asOfD = asOfE := TimestampNs.toJson_injective asOf
  obtain rfl : rootD = rootE := hashJson_injective stateRoot
  obtain rfl : supersedesD = supersedesE := nullable_hash_injective supersedes
  obtain rfl : memoD = memoE := nullable_hash_injective memo
  obtain rfl : reasonD = reasonE := nullable_injective
    (fun _ _ => SupersessionReason.toJson_injective) (fun r => by cases r <;> simp [SupersessionReason.toJson])
    reason
  rfl

theorem envelope_flat (t : TimestampNs) (d : CheckpointDraft) : Flat 1 (envelope t d) := by
  apply flat_object (envelope_keys_distinct t d)
  intro e he
  simp only [envelopeMembers, List.mem_cons, List.not_mem_nil, or_false] at he
  rcases he with rfl | rfl | rfl | rfl | rfl | rfl | rfl | rfl | rfl
  · exact flat_string 0 _
  · exact flat_string 0 _
  · exact flat_string 0 _
  · exact flat_string 0 _
  · exact flat_string 0 _
  · exact flat_string 0 _
  · exact nullable_flat (fun h : ContentHash => flat_string 0 h.toHex) _
  · exact nullable_flat SupersessionReason.flat _
  · exact nullable_flat (fun h : ContentHash => flat_string 0 h.toHex) _

section
variable [External]

def envelopeBytes (sealedAt : TimestampNs) (draft : CheckpointDraft) : Bytes :=
  utf8 (toText (envelope sealedAt draft))

theorem computeId_eq (t : TimestampNs) (d : CheckpointDraft) :
    computeId t d = .ok (sha256 (envelopeBytes t d)) := by
  rw [computeId, canonicalBytes_flat (envelope_flat t d) (by decide)]
  rfl

theorem envelopeBytes_injective {t u : TimestampNs} {d e : CheckpointDraft}
    (h : envelopeBytes t d = envelopeBytes u e) : t = u ∧ d = e :=
  envelope_injective (toText_flat_injective (envelope_flat t d) (envelope_flat u e) h)

end

end SealedCheckpoint

end Treasury
