import Mathlib.Data.Set.Function
import Treasury.Kit.HashChain
import Treasury.Ledger.Ledger
import Treasury.Reference

/-! What a stream's last identity commits to: a stream that verifies is determined
by it, whatever was done to the ledger that holds the stream. -/
namespace Treasury
open Kit Kit.Json

namespace InMemoryLedger
variable [External]

theorem verifyFrom_eq_ok (expected : ContentHash) (s : List SealedEvent) :
    verifyFrom expected s = .ok () ↔
      Chained SealedEvent.prev SealedEvent.eventId expected s ∧
        ∀ e ∈ s, computeId e.prev e.knowledgeTime e.draft = .ok e.eventId := by
  induction s generalizing expected with
  | nil => simp [verifyFrom, Chained]
  | cons e s ih =>
    simp only [verifyFrom, Chained, List.forall_mem_cons]
    split_ifs with broken
    · exact iff_of_false (by simp) fun h => broken h.1.1
    · rw [not_not] at broken
      cases computed : computeId e.prev e.knowledgeTime e.draft with
      | error error => simp
      | ok id =>
        by_cases same : id = e.eventId
        · simp only [same, ne_eq, not_true_eq_false, if_false, ih, broken, true_and]
        · simp [same]

def hashed (tenant : TenantId) (s : List SealedEvent) : Set Bytes :=
  {b | b = genesisTag tenant ∨ ∃ e ∈ s, canonicalEnvelope e.prev e.knowledgeTime e.draft = .ok b}

theorem hashed_event {tenant : TenantId} {s : List SealedEvent} {e : SealedEvent} (member : e ∈ s)
    (computed : computeId e.prev e.knowledgeTime e.draft = .ok e.eventId) :
    ∃ b ∈ hashed tenant s, canonicalEnvelope e.prev e.knowledgeTime e.draft = .ok b ∧
      sha256 b = e.eventId := by
  obtain ⟨b, written, digest⟩ := computeId_eq_ok.mp computed
  exact ⟨b, .inr ⟨e, member, written⟩, written, digest⟩

/-- Two streams of a tenant that verify and end in the same event id are equal. -/
theorem chain_binds (tenant : TenantId) (l m : InMemoryLedger)
    (injective : Set.InjOn sha256
      (hashed tenant (l.stream tenant) ∪ hashed tenant (m.stream tenant)))
    (verifiedL : l.verifyChain tenant = .ok ()) (verifiedM : m.verifyChain tenant = .ok ())
    (nonemptyL : l.stream tenant ≠ []) (nonemptyM : m.stream tenant ≠ [])
    (same : ((l.stream tenant).getLast nonemptyL).eventId =
      ((m.stream tenant).getLast nonemptyM).eventId) :
    l.stream tenant = m.stream tenant := by
  obtain ⟨chainedL, computedL⟩ := (verifyFrom_eq_ok _ _).mp verifiedL
  obtain ⟨chainedM, computedM⟩ := (verifyFrom_eq_ok _ _).mp verifiedM
  have tag : genesisTag tenant ∈
      hashed tenant (l.stream tenant) ∪ hashed tenant (m.stream tenant) := .inl (.inl rfl)
  refine chain_determined SealedEvent.prev SealedEvent.eventId (genesisHash tenant) _ _ chainedL
    chainedM ?separate ?apart ?last
  case separate =>
    intro a ha b hb ids
    obtain ⟨bytesA, inA, writtenA, digestA⟩ := @hashed_event _ tenant _ _ ha (computedL a ha)
    obtain ⟨bytesB, inB, writtenB, digestB⟩ := @hashed_event _ tenant _ _ hb (computedM b hb)
    have bytes : bytesA = bytesB :=
      injective (.inl inA) (.inr inB) (by rw [digestA, digestB, ids])
    subst bytes
    obtain ⟨prev, time, draft⟩ := canonicalEnvelope_injective writtenA writtenB
    cases a; cases b
    cases prev; cases time; cases draft; cases ids
    rfl
  case apart =>
    intro a ha genesis
    have written : ∃ b ∈ hashed tenant (l.stream tenant) ∪ hashed tenant (m.stream tenant),
        canonicalEnvelope a.prev a.knowledgeTime a.draft = .ok b ∧ sha256 b = a.eventId := by
      rcases ha with h | h
      · obtain ⟨b, inside, rest⟩ := hashed_event h (computedL a h)
        exact ⟨b, .inl inside, rest⟩
      · obtain ⟨b, inside, rest⟩ := hashed_event h (computedM a h)
        exact ⟨b, .inr inside, rest⟩
    obtain ⟨b, inside, accepted, digest⟩ := written
    exact canonicalEnvelope_ne_genesisTag accepted tenant
      (injective inside tag (digest.trans genesis))
  case last =>
    simp only [lastId, List.getLast?_eq_some_getLast nonemptyL,
      List.getLast?_eq_some_getLast nonemptyM, Option.map_some, Option.getD_some, same]

def observed (tenant : String) : EventDraft :=
  ⟨⟨tenant⟩, .observation, ⟨0⟩, none, .observation ⟨"coinbase-prime"⟩ (.filled 2), ⟨.null, trivial⟩⟩

def firstEnvelope (tenant : String) : Bytes :=
  utf8 (toText (envelope (genesisHash ⟨tenant⟩) ⟨0⟩ (observed tenant)))

def firstEvent (tenant : String) : SealedEvent :=
  ⟨sha256 (utf8 (toText (envelope (genesisHash ⟨tenant⟩) ⟨0⟩ (observed tenant)))),
    genesisHash ⟨tenant⟩, ⟨0⟩, observed tenant⟩

def corrected (tenant : String) : EventDraft :=
  { observed tenant with
    supersedes := some (firstEvent tenant).eventId
    payload := ⟨.bool true, trivial⟩ }

def correctedEnvelope (tenant : String) : Bytes :=
  utf8 (toText (envelope (firstEvent tenant).eventId ⟨.literal 1⟩ (corrected tenant)))

def correctedEvent (tenant : String) : SealedEvent :=
  ⟨sha256 (correctedEnvelope tenant), (firstEvent tenant).eventId, ⟨.literal 1⟩, corrected tenant⟩

theorem firstEvent_envelope (tenant : String) :
    canonicalEnvelope (genesisHash ⟨tenant⟩) ⟨0⟩ (observed tenant) =
      .ok (utf8 (toText (envelope (genesisHash ⟨tenant⟩) ⟨0⟩ (observed tenant)))) :=
  canonicalEnvelope_eq_ok.mpr ⟨trivial, by simp [observed, height, maxDepth], rfl⟩

theorem correctedEvent_envelope (tenant : String) :
    canonicalEnvelope (firstEvent tenant).eventId ⟨.literal 1⟩ (corrected tenant) =
      .ok (correctedEnvelope tenant) :=
  canonicalEnvelope_eq_ok.mpr ⟨trivial, by simp [corrected, height, maxDepth], rfl⟩

theorem verify_corrected (tenant : String) :
    verifyFrom (genesisHash ⟨tenant⟩) [firstEvent tenant, correctedEvent tenant] = .ok () := by
  refine (verifyFrom_eq_ok _ _).mpr ⟨⟨rfl, rfl, trivial⟩, ?_⟩
  simp only [List.forall_mem_cons, List.not_mem_nil, false_imp_iff, implies_true, and_true]
  exact ⟨computeId_eq_ok.mpr ⟨_, firstEvent_envelope tenant, rfl⟩,
    computeId_eq_ok.mpr ⟨_, correctedEvent_envelope tenant, rfl⟩⟩

theorem stream_firstEvent (ledger : InMemoryLedger) (tenant : String)
    (fresh : ledger.stream ⟨tenant⟩ = []) :
    (ledger.push (firstEvent tenant)).stream ⟨tenant⟩ = [firstEvent tenant] := by
  have same : (⟨tenant⟩ : TenantId) = (firstEvent tenant).draft.tenant := rfl
  rw [stream_push, if_pos same, fresh, List.nil_append]

def corrections (ledger : InMemoryLedger) (tenant : String) : InMemoryLedger :=
  (ledger.push (firstEvent tenant)).push (correctedEvent tenant)

theorem stream_corrections (ledger : InMemoryLedger) (tenant : String)
    (fresh : ledger.stream ⟨tenant⟩ = []) :
    (ledger.corrections tenant).stream ⟨tenant⟩ = [firstEvent tenant, correctedEvent tenant] := by
  have same : (⟨tenant⟩ : TenantId) = (correctedEvent tenant).draft.tenant := rfl
  rw [corrections, stream_push, if_pos same, stream_firstEvent ledger tenant fresh, List.cons_append,
    List.nil_append]

theorem stream_beside {tenant other : String} (different : tenant ≠ other) :
    (new.push (firstEvent other)).stream ⟨tenant⟩ = [] := by
  have foreign : (⟨tenant⟩ : TenantId) ≠ (firstEvent other).draft.tenant :=
    fun same => different (congrArg TenantId.value same)
  rw [stream_push, if_neg foreign, stream_new]

def sampledBytes : List Bytes :=
  [genesisTag ⟨"acme"⟩, genesisTag ⟨"beta"⟩, firstEnvelope "acme", firstEnvelope "beta",
    correctedEnvelope "acme"]

def sampled : Set Bytes := {b | b ∈ sampledBytes}

theorem firstEnvelope_sampled {tenant : String} (one : tenant = "acme" ∨ tenant = "beta") :
    firstEnvelope tenant ∈ sampled := by
  rcases one with rfl | rfl <;> simp [sampled, sampledBytes]

theorem correctedEnvelope_sampled : correctedEnvelope "acme" ∈ sampled := by
  simp [sampled, sampledBytes]

omit [External] in
theorem injOn_sampled :
    letI : External := reference
    Set.InjOn sha256 sampled := by
  let _ : External := reference
  have digests : (sampledBytes.map sha256).Nodup := by
    simp only [sampledBytes, firstEnvelope, correctedEnvelope, firstEvent, toText, utf8_ofList]
    decide +kernel
  exact fun a ha b hb same => List.inj_on_of_nodup_map digests ha hb same

theorem hashed_corrections :
    hashed ⟨"acme"⟩ [firstEvent "acme", correctedEvent "acme"] ⊆ sampled := by
  rintro b (rfl | ⟨e, member, written⟩)
  · exact List.mem_cons_self
  · rcases List.mem_pair.mp member with rfl | rfl
    · have bytes := Except.ok.inj (written.symm.trans (firstEvent_envelope "acme"))
      exact bytes ▸ firstEnvelope_sampled (.inl rfl)
    · have bytes := Except.ok.inj (written.symm.trans (correctedEvent_envelope "acme"))
      exact bytes ▸ correctedEnvelope_sampled

omit [External] in
/-- A corrected balance, alone and beside another tenant's. -/
theorem chain_binds_first :
    letI : External := reference
    (new.corrections "acme").stream ⟨"acme"⟩ =
      ((new.push (firstEvent "beta")).corrections "acme").stream ⟨"acme"⟩ := by
  let _ : External := reference
  have one := stream_corrections new "acme" (stream_new _)
  have two := stream_corrections (new.push (firstEvent "beta")) "acme" (stream_beside (by decide))
  refine chain_binds ⟨"acme"⟩ _ _ ?injective ?verified ?verified' (by simp [one]) (by simp [two])
    (by simp only [one, two])
  case injective =>
    rw [one, two, Set.union_self]
    exact injOn_sampled.mono hashed_corrections
  case verified => rw [verifyChain, one, verify_corrected]
  case verified' => rw [verifyChain, two, verify_corrected]

end InMemoryLedger

end Treasury
