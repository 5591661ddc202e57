import Treasury.Anchor.Policy
import Treasury.Books
import Treasury.Disclosure.Commitment
import Treasury.Evidence.Cut

/-! What a disclosure pack cites: the checkpoint and through it the events, the valuation and
through it the lots and the prices, the policies, and the receipt of an anchor and through it the
evidence. The hash of the pack commits to all of it. -/
namespace Treasury
open Kit Kit.Json

/-- A close, and the runs that it was made from. -/
structure Filing where
  evidence : List Bytes
  calls : List BooksCall
  book : LotBook
  snapshot : PriceSnapshot
  election : ContentHash
  valuation : Valuation
  checkpoint : SealedCheckpoint
  receipt : Option AnchorReceipt
  pack : DisclosurePack

/-- The kinds of byte strings that are hashed for a close. -/
inductive Cited where
  | pack
  | checkpoint
  | root
  | event
  | valuation
  | key
  | lots
  | prices
  | policy
  | receipt
  | head
  | blob

namespace Filing
variable [External]

def store (f : Filing) : InMemoryEvidenceStore := .ofBlobs f.evidence

def books (f : Filing) : Books := run Books.step Books.new f.calls

def active (f : Filing) : List SealedEvent :=
  f.books.ledger.asOf f.checkpoint.draft.tenant f.checkpoint.draft.asOf

def hashed (f : Filing) : Cited → Set Bytes
  | .pack => {f.pack.preimage}
  | .checkpoint => {SealedCheckpoint.envelopeBytes f.checkpoint.sealedAt f.checkpoint.draft}
  | .root => {stateBytes f.active}
  | .event => {b | ∃ e ∈ f.active, canonicalEnvelope e.prev e.knowledgeTime e.draft = .ok b}
  | .valuation => {f.valuation.preimage}
  | .key => {(valuationKey f.book f.snapshot f.election).preimage}
  | .lots => {f.book.statePreimage}
  | .prices => {f.snapshot.preimage}
  | .policy => {b | ∃ hash artifact, f.books.registry.artifact hash = some artifact ∧
      b = artifact.preimage}
  | .receipt => {b | ∃ receipt ∈ f.receipt, b = utf8 (toText receipt.toJson)}
  | .head => {b | b ∈ headPreimages f.store.order}
  | .blob => {b | b ∈ f.evidence}

/-- The pack was made of the rest. -/
structure Filed (f : Filing) : Prop where
  folded : stateRoot f.active = .ok f.checkpoint.draft.stateRoot
  identified : SealedCheckpoint.computeId f.checkpoint.sealedAt f.checkpoint.draft =
    .ok f.checkpoint.checkpointId
  checkpoint : f.pack.checkpoint = f.checkpoint.checkpointId
  valued : valueBook f.book f.snapshot f.election = .ok f.valuation
  valuation : f.valuation.valuationHash = .ok f.pack.valuation
  inForce : ∀ entry ∈ f.pack.policies, f.books.registry.activeAt f.pack.tenant ⟨entry.1⟩
    f.checkpoint.draft.asOf = some entry.2
  anchored : ∀ receipt ∈ f.receipt, receipt.treeHead = f.store.treeHead
  receipt : f.receipt.mapM AnchorReceipt.receiptHash = .ok f.pack.anchorReceipt

/-- Two closes that say the same. -/
structure SameClose (f g : Filing) : Prop where
  pack : f.pack = g.pack
  checkpoint : f.checkpoint = g.checkpoint
  active : f.active = g.active
  tenant : f.book.tenant = g.book.tenant
  lots : f.book.openLots = g.book.openLots
  prices : f.snapshot = g.snapshot
  election : f.election = g.election
  valuation : f.valuation = g.valuation
  policies : ∀ entry ∈ f.pack.policies,
    f.books.registry.artifact entry.2 = g.books.registry.artifact entry.2
  receipt : f.receipt = g.receipt
  evidence : f.receipt.isSome → f.store = g.store

end Filing

namespace InMemoryLedger
variable [External]

theorem verified_run (calls : List (EventDraft × TimestampNs)) (tenant : TenantId) :
    (run appendCall new calls).verifyChain tenant = .ok () := by
  refine run_invariant appendCall (fun ledger => ∀ tenant, ledger.verifyChain tenant = .ok ())
    ?_ calls new sound_new.verified tenant
  intro ledger call verified
  rcases appendCall_cases ledger call with same | ⟨e, seals, _, _, pushed⟩
  · rwa [same]
  · rw [pushed]
    exact verified_push verified seals

end InMemoryLedger

namespace InMemoryEvidenceStore
variable [External]

theorem entries_run (evidence : List Bytes) :
    ∃ blobs, (ofBlobs evidence).Entries blobs ∧ ∀ blob ∈ blobs, blob ∈ evidence := by
  induction evidence using List.reverseRecOn with
  | nil => exact ⟨[], ⟨rfl, fun hash => by simp [ofBlobs, run], nofun⟩, nofun⟩
  | append_singleton evidence blob ih =>
    obtain ⟨blobs, entries, inside⟩ := ih
    have within (b : Bytes) (member : b ∈ blobs) : b ∈ evidence ++ [blob] :=
      List.mem_append_left _ (inside b member)
    rw [ofBlobs_concat]
    by_cases known : sha256 blob ∈ blobs.map sha256
    · obtain ⟨old, found⟩ := Option.isSome_iff_exists.mp ((entries.known _).mpr known)
      rw [put_known found]
      exact ⟨blobs, entries, within⟩
    · refine ⟨blobs ++ [blob], entries.put known, fun b member => ?_⟩
      rcases List.mem_append.mp member with old | last
      · exact within b old
      · exact List.mem_append_right _ last

theorem eq_of_order {a b : List Bytes} {blobs : Set Bytes} (injective : Set.InjOn sha256 blobs)
    (inA : ∀ x ∈ a, x ∈ blobs) (inB : ∀ x ∈ b, x ∈ blobs)
    (same : (ofBlobs a).order = (ofBlobs b).order) : ofBlobs a = ofBlobs b := by
  obtain ⟨keptA, entriesA, fromA⟩ := entries_run a
  obtain ⟨keptB, entriesB, fromB⟩ := entries_run b
  obtain rfl : keptA = keptB := list_determined sha256
    (fun x inX y inY => injective (inA x (fromA x inX)) (inB y (fromB y inY)))
    (entriesA.order_eq.symm.trans (same.trans entriesB.order_eq))
  have blobsSame : (ofBlobs a).blobs = (ofBlobs b).blobs := by
    refine Finmap.ext_lookup fun hash => ?_
    by_cases known : hash ∈ keptA.map sha256
    · obtain ⟨blob, member, rfl⟩ := List.mem_map.mp known
      have foundA := entriesA.found blob member
      have foundB := entriesB.found blob member
      unfold get at foundA foundB
      cases inStore : (ofBlobs a).blobs.lookup (sha256 blob) with
      | none => simp [inStore] at foundA
      | some x =>
        cases inOther : (ofBlobs b).blobs.lookup (sha256 blob) with
        | none => simp [inOther] at foundB
        | some y =>
          simp only [inStore, Except.ok.injEq] at foundA
          simp only [inOther, Except.ok.injEq] at foundB
          rw [foundA, foundB]
    · have noneA := Option.not_isSome_iff_eq_none.mp (mt (entriesA.known hash).mp known)
      have noneB := Option.not_isSome_iff_eq_none.mp (mt (entriesB.known hash).mp known)
      rw [noneA, noneB]
  calc ofBlobs a = ⟨(ofBlobs a).blobs, (ofBlobs a).order⟩ := rfl
    _ = ⟨(ofBlobs b).blobs, (ofBlobs b).order⟩ := by rw [blobsSame, same]
    _ = ofBlobs b := rfl

end InMemoryEvidenceStore

namespace Filing
variable [External] {f g : Filing}

theorem event_identified {e : SealedEvent} (active : e ∈ f.active) :
    ∃ b ∈ f.hashed .event, canonicalEnvelope e.prev e.knowledgeTime e.draft = .ok b ∧
      sha256 b = e.eventId := by
  have verified : f.books.ledger.verifyChain f.checkpoint.draft.tenant = .ok () := by
    rw [books, Books.ledger_run]
    exact InMemoryLedger.verified_run _ _
  have inStream : e ∈ f.books.ledger.stream f.checkpoint.draft.tenant := by
    have inForce := active
    rw [Filing.active, InMemoryLedger.asOf_eq] at inForce
    exact (InMemoryLedger.mem_booked.mp (mem_inForce.mp inForce).1).1
  have computed := ((InMemoryLedger.verifyFrom_eq_ok _ _).mp verified).2 e inStream
  obtain ⟨b, written, digest⟩ := computeId_eq_ok.mp computed
  exact ⟨b, ⟨e, active, written⟩, written, digest⟩

theorem registered (f : Filing) {tenant : TenantId} {kind : PolicyKind} {time : TimestampNs}
    {hash : ContentHash} (inForce : f.books.registry.activeAt tenant kind time = some hash) :
    ∃ artifact, f.books.registry.artifact hash = some artifact ∧ artifact.policyHash = .ok hash := by
  have sound : PolicyRegistry.Sound (succeeded PolicyRegistry.perform .new
      (f.calls.filterMap Sum.getRight?)) f.books.registry := by
    rw [books, Books.registry_run]
    exact PolicyRegistry.sound_registry _
  rw [PolicyRegistry.activeAt_eq] at inForce
  obtain ⟨record, latest, rfl⟩ := Option.map_eq_some_iff.mp inForce
  have member := ((latestAt_eq_some (sound.ascending tenant kind)).mp latest).1
  obtain ⟨artifact, found, -⟩ := sound.backed tenant kind record member
  exact ⟨artifact, found, (sound.stored _ artifact found).1⟩

theorem Filed.receipt_hash (filed : f.Filed) :
    f.pack.anchorReceipt = f.receipt.map fun r => sha256 (utf8 (toText r.toJson)) := by
  have hashed := filed.receipt
  cases anchored : f.receipt with
  | none =>
    rw [anchored] at hashed
    exact (Except.ok.inj hashed).symm
  | some receipt =>
    rw [anchored] at hashed
    simp only [Option.mapM_some, AnchorReceipt.receiptHash_eq] at hashed
    exact (Except.ok.inj hashed).symm

section
variable (separate : ∀ kind, Set.InjOn sha256 (f.hashed kind ∪ g.hashed kind))
include separate

theorem active_eq (root : sha256 (stateBytes f.active) = sha256 (stateBytes g.active)) :
    f.active = g.active := by
  have ids := stateBytes_ids (separate .root (.inl rfl) (.inr rfl) root)
  refine list_determined SealedEvent.eventId (fun a inF b inG same => ?_) ids
  obtain ⟨bytesA, hashedA, writtenA, digestA⟩ := event_identified inF
  obtain ⟨bytesB, hashedB, writtenB, digestB⟩ := event_identified inG
  obtain rfl : bytesA = bytesB :=
    separate .event (.inl hashedA) (.inr hashedB) (digestA.trans (same.trans digestB.symm))
  obtain ⟨prev, time, draft⟩ := canonicalEnvelope_injective writtenA writtenB
  cases a; cases b
  cases prev; cases time; cases draft; cases same
  rfl

theorem key_eq (valuation : sha256 f.valuation.preimage = sha256 g.valuation.preimage)
    (valuedF : valueBook f.book f.snapshot f.election = .ok f.valuation)
    (valuedG : valueBook g.book g.snapshot g.election = .ok g.valuation) :
    (f.book.tenant = g.book.tenant ∧
      sortBy Lot.lotId f.book.lots = sortBy Lot.lotId g.book.lots) ∧
    f.snapshot = g.snapshot ∧ f.election = g.election := by
  have hashes := Valuation.keyHash_of_preimage
    (separate .valuation (.inl rfl) (.inr rfl) valuation)
  rw [(valueBook_ok valuedF).1, (valueBook_ok valuedG).1] at hashes
  have keys := ValuationKey.preimage_injective (separate .key (.inl rfl) (.inr rfl) hashes)
  simp only [valuationKey, ValuationKey.mk.injEq] at keys
  obtain ⟨lots, prices, policy⟩ := keys
  exact ⟨LotBook.statePreimage_eq_iff.mp (separate .lots (.inl rfl) (.inr rfl) lots),
    PriceSnapshot.preimage_injective (separate .prices (.inl rfl) (.inr rfl) prices), policy⟩

theorem artifact_eq {hash : ContentHash} {a b : PolicyArtifact}
    (inF : f.books.registry.artifact hash = some a) (inG : g.books.registry.artifact hash = some b)
    (hashedA : a.policyHash = .ok hash) (hashedB : b.policyHash = .ok hash) : a = b := by
  refine PolicyArtifact.policyHash_injective ((separate .policy).mono ?_) hashedA hashedB
  rintro bytes (rfl | rfl)
  · exact .inl ⟨hash, a, inF, rfl⟩
  · exact .inr ⟨hash, b, inG, rfl⟩

variable (filedF : f.Filed) (filedG : g.Filed)
include filedF filedG

theorem checkpoint_eq (ids : f.checkpoint.checkpointId = g.checkpoint.checkpointId) :
    f.checkpoint = g.checkpoint := by
  have idF := filedF.identified
  have idG := filedG.identified
  rw [SealedCheckpoint.computeId_eq, Except.ok.injEq] at idF idG
  obtain ⟨time, draft⟩ := SealedCheckpoint.envelopeBytes_injective
    (separate .checkpoint (.inl rfl) (.inr rfl) (idF.trans (ids.trans idG.symm)))
  calc f.checkpoint = ⟨f.checkpoint.checkpointId, f.checkpoint.sealedAt, f.checkpoint.draft⟩ := rfl
    _ = ⟨g.checkpoint.checkpointId, g.checkpoint.sealedAt, g.checkpoint.draft⟩ := by
      rw [ids, time, draft]
    _ = g.checkpoint := rfl

theorem receipt_eq (cited : f.pack.anchorReceipt = g.pack.anchorReceipt) :
    f.receipt = g.receipt := by
  have hashes := filedF.receipt_hash.symm.trans (cited.trans filedG.receipt_hash)
  cases anchoredF : f.receipt with
  | none =>
    rw [anchoredF, Option.map_none] at hashes
    exact (Option.map_eq_none_iff.mp hashes.symm).symm
  | some r =>
    rw [anchoredF, Option.map_some] at hashes
    obtain ⟨s, anchoredG, digest⟩ := Option.map_eq_some_iff.mp hashes.symm
    have texts := separate .receipt (.inl ⟨r, anchoredF, rfl⟩) (.inr ⟨s, anchoredG, rfl⟩)
      digest.symm
    rw [anchoredG, AnchorReceipt.toJson_injective (toText_flat_injective r.flat s.flat texts)]

end

def closingValuation : Valuation where
  key := valuationKey ⟨⟨"acme"⟩, twoLots⟩ closingPrices (.filled 3)
  keyHash := sha256 (valuationKey ⟨⟨"acme"⟩, twoLots⟩ closingPrices (.filled 3)).preimage
  asOf := ⟨0⟩
  positions := [⟨⟨"BTC"⟩, .literal 10, ⟨⟨"USD"⟩, .literal 90⟩, ⟨⟨"USD"⟩, .literal 142⟩,
    ⟨⟨"USD"⟩, .literal 52⟩⟩]
  totalFairValue := ⟨⟨"USD"⟩, .literal 142⟩
  totalUnrealized := ⟨⟨"USD"⟩, .literal 52⟩

theorem valued_closing :
    valueBook ⟨⟨"acme"⟩, twoLots⟩ closingPrices (.filled 3) = .ok closingValuation := by
  have openLots : LotBook.openLots ⟨⟨"acme"⟩, twoLots⟩ = twoLots := sortBy_eq_self (by decide)
  have held : aggregateLots ⟨"USD"⟩ ∅ twoLots = .ok (Finmap.singleton ⟨"BTC"⟩
      (.literal 10, ⟨⟨"USD"⟩, .literal 90⟩)) := rfl
  have priced : valuePositions closingPrices ⟨⟨"USD"⟩, 0⟩ ⟨⟨"USD"⟩, 0⟩ [(⟨"BTC"⟩, .literal 10,
      ⟨⟨"USD"⟩, .literal 90⟩)] = .ok (closingValuation.positions, closingValuation.totalFairValue,
        closingValuation.totalUnrealized) := rfl
  rw [← inOrder_singleton] at priced
  rw [valueBook_eq, openLots]
  exact bind_eq_ok.mpr ⟨_, held, bind_eq_ok.mpr ⟨_, priced, rfl⟩⟩

def closingReceipt : AnchorReceipt where
  treeHead := (InMemoryEvidenceStore.ofBlobs [[7]]).treeHead
  entryCount := .literal 1
  method := .publicChain "bitcoin" "f00d"
  anchoredAt := ⟨.literal 2⟩
  confirmationPolicy := .filled 4

def bitcoinRow : RollForwardRow where
  asset := ⟨"BTC"⟩
  opening := ⟨⟨"USD"⟩, 0⟩
  additions := ⟨⟨"USD"⟩, .literal 90⟩
  disposals := ⟨⟨"USD"⟩, 0⟩
  remeasurement := ⟨⟨"USD"⟩, .literal 52⟩
  closing := ⟨⟨"USD"⟩, .literal 142⟩
  evidence := [sha256 [7]]

def closingPack : DisclosurePack where
  tenant := ⟨"acme"⟩
  period := "2026Q1"
  checkpoint := Books.closingCheckpoint.checkpointId
  valuation := sha256 closingValuation.preimage
  policies := [("principal-market/v1", sha256 PolicyRegistry.venues.preimage)]
  anchorReceipt := some (sha256 (utf8 (toText closingReceipt.toJson)))
  rows := [bitcoinRow]

def policyCalls : List BooksCall :=
  [.inr (.register PolicyRegistry.venues), .inr (PolicyRegistry.venuesActivation ⟨"acme"⟩ ⟨0⟩)]

def sampleClose (lots : List Lot) (later : List BooksCall) : Filing where
  evidence := [[7]]
  calls := policyCalls ++ Books.bookedCalls ++ later
  book := ⟨⟨"acme"⟩, lots⟩
  snapshot := closingPrices
  election := .filled 3
  valuation := closingValuation
  checkpoint := Books.closingCheckpoint
  receipt := some closingReceipt
  pack := closingPack

def closingRegistry : PolicyRegistry :=
  (PolicyRegistry.new.enter (sha256 PolicyRegistry.venues.preimage) PolicyRegistry.venues).push
    ⟨⟨"acme"⟩, ⟨"principal-market/v1"⟩, sha256 PolicyRegistry.venues.preimage, ⟨0⟩⟩

theorem registry_closing : run (advance PolicyRegistry.perform) PolicyRegistry.new
    (policyCalls.filterMap Sum.getRight?) = closingRegistry := by
  have kind : PolicyRegistry.venues.kind = ⟨"principal-market/v1"⟩ := rfl
  simp [policyCalls, PolicyRegistry.venuesActivation, run, advance, PolicyRegistry.perform,
    PolicyRegistry.register, PolicyRegistry.venues_hash, PolicyRegistry.enter,
    PolicyRegistry.activate, PolicyRegistry.new, PolicyRegistry.push, PolicyRegistry.timeline, kind,
    Except.map, closingRegistry]

theorem governed_closing : closingRegistry.activeAt ⟨"acme"⟩ ⟨"principal-market/v1"⟩ ⟨0⟩ =
    some (sha256 PolicyRegistry.venues.preimage) := by
  rw [PolicyRegistry.activeAt_eq, closingRegistry, PolicyRegistry.timeline_push, if_pos rfl,
    PolicyRegistry.timeline_enter]
  rfl

theorem registered_closing {hash : ContentHash} {artifact : PolicyArtifact}
    (found : closingRegistry.artifact hash = some artifact) : artifact = PolicyRegistry.venues := by
  have entered : (PolicyRegistry.new.enter (sha256 PolicyRegistry.venues.preimage)
      PolicyRegistry.venues).artifact hash = some artifact := found
  rw [PolicyRegistry.artifact_enter] at entered
  by_cases same : hash = sha256 PolicyRegistry.venues.preimage
  · simpa [same, PolicyRegistry.artifact, PolicyRegistry.new, eq_comm] using entered
  · simp [same, PolicyRegistry.artifact, PolicyRegistry.new] at entered

theorem active_now (lots : List Lot) :
    (sampleClose lots []).active = [InMemoryLedger.firstEvent "acme"] := by
  have booked : (sampleClose lots []).books.ledger = (run Books.step .new Books.bookedCalls).ledger := by
    rw [books, Books.ledger_run, Books.ledger_run]
    rfl
  have stream : (sampleClose lots []).books.ledger.stream ⟨"acme"⟩ =
      [InMemoryLedger.firstEvent "acme"] := by rw [booked, Books.stream_booked]
  have none : ∀ e ∈ ([] : List SealedEvent), (⟨0⟩ : TimestampNs) < e.knowledgeTime := by simp
  exact Books.asOf_sealed _ stream none

theorem active_later (lots : List Lot) :
    (sampleClose lots Books.correctedLater).active = [InMemoryLedger.firstEvent "acme"] := by
  have closed : (sampleClose lots Books.correctedLater).books.ledger =
      (run Books.step .new Books.closedCalls).ledger := by
    rw [books, Books.ledger_run, Books.ledger_run]
    rfl
  have stream : (sampleClose lots Books.correctedLater).books.ledger.stream ⟨"acme"⟩ =
      [InMemoryLedger.firstEvent "acme", InMemoryLedger.correctedEvent "acme"] := by
    rw [closed, Books.stream_closed]
  exact Books.asOf_sealed _ stream Books.after_closing

section
variable {lots : List Lot} {later : List BooksCall}

theorem registry_sample (ungoverned : later.filterMap Sum.getRight? = []) :
    (sampleClose lots later).books.registry = closingRegistry := by
  have governed : (sampleClose lots later).calls.filterMap Sum.getRight? =
      policyCalls.filterMap Sum.getRight? := by
    rw [sampleClose, List.filterMap_append, List.filterMap_append, ungoverned]
    rfl
  rw [books, Books.registry_run, governed]
  exact registry_closing

theorem filed_sample (active : (sampleClose lots later).active = [InMemoryLedger.firstEvent "acme"])
    (registry : (sampleClose lots later).books.registry = closingRegistry)
    (valued : valueBook ⟨⟨"acme"⟩, lots⟩ closingPrices (.filled 3) = .ok closingValuation) :
    (sampleClose lots later).Filed := by
  constructor
  case folded =>
    rw [active, stateRoot_eq]
    rfl
  case identified => exact SealedCheckpoint.computeId_eq _ _
  case checkpoint => rfl
  case valued => exact valued
  case valuation => exact Valuation.valuationHash_eq _
  case inForce =>
    intro entry member
    obtain rfl := List.mem_singleton.mp member
    rw [registry]
    exact governed_closing
  case anchored =>
    rintro receipt ⟨⟩
    rfl
  case receipt =>
    have hashed := AnchorReceipt.receiptHash_eq closingReceipt
    simp only [sampleClose, Option.mapM_some, hashed]
    rfl

def sampleBytes : Cited → Bytes
  | .pack => closingPack.preimage
  | .checkpoint => SealedCheckpoint.envelopeBytes ⟨.literal 1⟩ Books.closingDraft
  | .root => stateBytes [InMemoryLedger.firstEvent "acme"]
  | .event => InMemoryLedger.firstEnvelope "acme"
  | .valuation => closingValuation.preimage
  | .key => (valuationKey ⟨⟨"acme"⟩, twoLots⟩ closingPrices (.filled 3)).preimage
  | .lots => LotBook.statePreimage ⟨⟨"acme"⟩, twoLots⟩
  | .prices => closingPrices.preimage
  | .policy => PolicyRegistry.venues.preimage
  | .receipt => utf8 (toText closingReceipt.toJson)
  | .head => inputBytes (.leaf (sha256 [7]))
  | .blob => [7]

theorem hashed_sample (active : (sampleClose lots later).active = [InMemoryLedger.firstEvent "acme"])
    (registry : (sampleClose lots later).books.registry = closingRegistry)
    (state : LotBook.statePreimage ⟨⟨"acme"⟩, lots⟩ = LotBook.statePreimage ⟨⟨"acme"⟩, twoLots⟩)
    (kind : Cited) : (sampleClose lots later).hashed kind ⊆ {sampleBytes kind} := by
  cases kind with
  | root => exact Set.singleton_subset_singleton.mpr (congrArg stateBytes active)
  | event =>
    rintro b ⟨e, member, written⟩
    rw [active] at member
    rw [List.mem_singleton.mp member] at written
    exact Except.ok.inj (written.symm.trans (InMemoryLedger.firstEvent_envelope "acme"))
  | policy =>
    rintro b ⟨hash, artifact, found, rfl⟩
    rw [registry] at found
    exact congrArg PolicyArtifact.preimage (registered_closing found)
  | receipt =>
    rintro b ⟨receipt, ⟨⟩, rfl⟩
    rfl
  | key =>
    have key : valuationKey ⟨⟨"acme"⟩, lots⟩ closingPrices (.filled 3) =
        valuationKey ⟨⟨"acme"⟩, twoLots⟩ closingPrices (.filled 3) := by
      simp only [valuationKey, state]
    exact Set.singleton_subset_singleton.mpr (congrArg ValuationKey.preimage key)
  | lots => exact Set.singleton_subset_singleton.mpr state
  | blob =>
    intro b member
    exact List.mem_singleton.mp member
  | head =>
    have only : headPreimages [sha256 [7]] = [inputBytes (.leaf (sha256 [7]))] := by
      simp [headPreimages, Merkle.Splitting.layout, Merkle.Tree.inputs]
    have order : (sampleClose lots later).store.order = [sha256 [7]] :=
      Anchored.order_put_new [7]
    intro b member
    have listed : b ∈ headPreimages (sampleClose lots later).store.order := member
    rw [order, only] at listed
    exact List.mem_singleton.mp listed
  | pack => exact subset_rfl
  | checkpoint => exact subset_rfl
  | valuation => exact subset_rfl
  | prices => exact subset_rfl

end

end Filing

end Treasury
