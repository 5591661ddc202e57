import Mathlib.Data.Set.Function
import Treasury.Kit.HashChain
import Treasury.Kit.Run
import Treasury.Kit.Streams
import Treasury.Close.Dag
import Treasury.Reference

/-! The lineages of checkpoints are linear chains: the checks of one sealing force each
correction onto the last checkpoint. -/
namespace Treasury
open Kit Kit.Json

namespace CheckpointDag

abbrev At (dag : CheckpointDag) (key : TenantId × PeriodId) (i : Nat) (c : SealedCheckpoint) : Prop :=
  Kit.At dag.lineage key i c

theorem grown_push (dag : CheckpointDag) (new : SealedCheckpoint) :
    Grown dag.lineage (dag.push new).lineage new.draft.lineageKey new := lineage_push dag new

/-- Each checkpoint of a lineage names the one before it, the first one none. -/
def Linked (lineage : List SealedCheckpoint) : Prop :=
  Chained (·.draft.supersedes) (fun c => some c.checkpointId) none lineage

section
variable [External]

structure Sound (dag : CheckpointDag) : Prop where
  linked : ∀ key, Linked (dag.lineage key)
  clock : ∀ key, (dag.lineage key).Pairwise fun c d => c.sealedAt < d.sealedAt
  owned : ∀ key i c, dag.At key i c → c.draft.lineageKey = key
  computed : ∀ key i c, dag.At key i c →
    c.checkpointId = sha256 (SealedCheckpoint.envelopeBytes c.sealedAt c.draft)
  justified : ∀ key i c, dag.At key i c → c.draft.supersedes.isSome →
    c.draft.reason.isSome ∧ c.draft.materialityMemo.isSome
  indexed : Indexed dag.lineage SealedCheckpoint.checkpointId dag.byId.lookup
  once : NamedOnce dag.lineage (·.draft.supersedes)
  marked : Marked dag.lineage (·.draft.supersedes) (· ∈ dag.superseded)

theorem sound_new : new.Sound := by
  have empty (key : TenantId × PeriodId) (i : Nat) (c : SealedCheckpoint) : ¬new.At key i c := by
    simp [Kit.At]
  constructor
  · simp [Linked, Chained]
  · simp
  · exact fun key i c h => absurd h (empty key i c)
  · exact fun key i c h => absurd h (empty key i c)
  · exact fun key i c h => absurd h (empty key i c)
  · intro id key i
    refine iff_of_false (by simp [new]) ?_
    rintro ⟨c, h, _⟩
    exact empty key i c h
  · exact fun key i c _ _ _ _ h => absurd h (empty key i c)
  · intro id
    refine iff_of_false (by simp [new]) ?_
    rintro ⟨key, i, c, h, _⟩
    exact empty key i c h

section
variable {dag : CheckpointDag}

theorem Sound.initial_iff (sound : dag.Sound) {key : TenantId × PeriodId} {i : Nat}
    {c : SealedCheckpoint} (h : dag.At key i c) : c.draft.supersedes = none ↔ i = 0 := by
  cases i with
  | zero => exact iff_of_true (chained_first _ _ (sound.linked key) h) rfl
  | succ i =>
    have before : i < (dag.lineage key).length := by have := h.lt; omega
    have names := chained_next _ _ (sound.linked key) (List.getElem?_eq_getElem before) h
    simp [names]

theorem Sound.supersedes_previous (sound : dag.Sound) {key : TenantId × PeriodId} {i : Nat}
    {c d : SealedCheckpoint} (hc : dag.At key i c) (hd : dag.At key (i + 1) d) :
    d.draft.supersedes = some c.checkpointId := chained_next _ _ (sound.linked key) hc hd

theorem Sound.superseded_iff (sound : dag.Sound) {key : TenantId × PeriodId} {i : Nat}
    {c : SealedCheckpoint} (h : dag.At key i c) :
    c.checkpointId ∈ dag.superseded ↔ i + 1 < (dag.lineage key).length := by
  refine (sound.marked c.checkpointId).trans ?_
  constructor
  · rintro ⟨other, j, d, hd, names⟩
    -- what supersedes it stands behind a checkpoint with the same identity
    cases j with
    | zero => simp [(sound.initial_iff hd).mpr rfl] at names
    | succ j =>
      have before : j < (dag.lineage other).length := by have := hd.lt; omega
      have hb : dag.At other j _ := List.getElem?_eq_getElem before
      have same := Option.some.inj ((sound.supersedes_previous hb hd).symm.trans names)
      obtain ⟨rfl, rfl⟩ := sound.indexed.distinct hb h same
      exact hd.lt
  · intro behind
    have hd : dag.At key (i + 1) _ := List.getElem?_eq_getElem behind
    exact ⟨key, i + 1, _, hd, sound.supersedes_previous h hd⟩

theorem Sound.head_eq (sound : dag.Sound) (key : TenantId × PeriodId) :
    dag.head key = (dag.lineage key).getLast? := by
  rcases List.eq_nil_or_concat (dag.lineage key) with none | ⟨front, last, split⟩
  · simp [head, none]
  · rw [List.concat_eq_append] at split
    have h : dag.At key front.length last := by simp [Kit.At, split]
    have current : last.checkpointId ∉ dag.superseded := by
      rw [sound.superseded_iff h, split]
      simp
    rw [head, split, List.reverse_concat, List.getLast?_concat,
      List.find?_cons_of_pos (by simpa using current)]

end

/-- The checkpoint is what sealing its draft produces. -/
def Seals (dag : CheckpointDag) (c : SealedCheckpoint) : Prop :=
  dag.seal c.draft c.sealedAt = .ok (dag.push c, c.checkpointId)

def sealCall (dag : CheckpointDag) (call : CheckpointDraft × TimestampNs) : CheckpointDag :=
  match dag.seal call.1 call.2 with
  | .ok (next, _) => next
  | .error _ => dag

theorem sealCall_cases (dag : CheckpointDag) (call : CheckpointDraft × TimestampNs) :
    dag.sealCall call = dag ∨ ∃ c, dag.Seals c ∧ c.draft = call.1 ∧ c.sealedAt = call.2 ∧
      dag.sealCall call = dag.push c := by
  unfold sealCall
  split
  · rename_i next id accepted
    have pushed := (seal_eq_ok.mp accepted).2.2.2
    exact .inr ⟨_, by rw [Seals, ← pushed, accepted], rfl, rfl, pushed⟩
  · exact .inl rfl

section
variable {dag : CheckpointDag} {new : SealedCheckpoint}

theorem Seals.later (seals : dag.Seals new) :
    ∀ last, (dag.lineage new.draft.lineageKey).getLast? = some last → last.sealedAt < new.sealedAt :=
  checkTime_eq_ok.mp (seal_eq_ok.mp seals).1

theorem Seals.supersedes_ok (seals : dag.Seals new) : dag.checkSupersedes new.draft = .ok () :=
  (seal_eq_ok.mp seals).2.1

theorem Seals.unmarked (seals : dag.Seals new) {id : CheckpointId}
    (names : new.draft.supersedes = some id) : id ∉ dag.superseded :=
  ((checkSupersedes_correction names).mp seals.supersedes_ok).2.2.2

theorem Sound.names_last (sound : dag.Sound) (seals : dag.Seals new) :
    new.draft.supersedes =
      lastId (fun c : SealedCheckpoint => some c.checkpointId) none (dag.lineage new.draft.lineageKey) := by
  cases names : new.draft.supersedes with
  | none =>
    have empty := ((checkSupersedes_initial names).mp seals.supersedes_ok).2.2
    rw [empty, lastId_nil]
  | some id =>
    obtain ⟨_, _, ⟨i, found⟩, unmarked⟩ := (checkSupersedes_correction names).mp seals.supersedes_ok
    obtain ⟨c, hc, rfl⟩ := (sound.indexed _ _ _).mp found
    have last : i + 1 = (dag.lineage new.draft.lineageKey).length := by
      have := hc.lt
      have := mt (sound.superseded_iff hc).mpr unmarked
      omega
    have ends : (dag.lineage new.draft.lineageKey).getLast? = some c := by
      rw [List.getLast?_eq_getElem?, ← last]
      exact hc
    simp [lastId, ends]

theorem linked_push (sound : dag.Sound) (seals : dag.Seals new) (key : TenantId × PeriodId) :
    Linked ((dag.push new).lineage key) := by
  rw [lineage_push]
  split
  · rename_i same
    subst same
    exact (chained_concat ..).mpr ⟨sound.linked _, sound.names_last seals⟩
  · exact sound.linked key

theorem clock_push (sound : dag.Sound) (seals : dag.Seals new) (key : TenantId × PeriodId) :
    ((dag.push new).lineage key).Pairwise fun c d => c.sealedAt < d.sealedAt := by
  rw [lineage_push]
  split
  · rename_i same
    subst same
    exact clocked_concat SealedCheckpoint.sealedAt (sound.clock _) seals.later
  · exact sound.clock key

theorem indexed_push (sound : dag.Sound)
    (unused : Unused dag.lineage (·.checkpointId) new.checkpointId) :
    Indexed (dag.push new).lineage SealedCheckpoint.checkpointId (dag.push new).byId.lookup := by
  refine (grown_push dag new).indexed sound.indexed unused fun id => ?_
  split
  · rename_i same
    rw [push, same, Finmap.lookup_insert]
  · rename_i other
    rw [push, Finmap.lookup_insert_of_ne _ other]

theorem marked_push (sound : dag.Sound) : Marked (dag.push new).lineage (·.draft.supersedes)
    (· ∈ (dag.push new).superseded) := by
  refine (grown_push dag new).marked sound.marked fun id => ?_
  cases names : new.draft.supersedes with
  | none => simp [push, names]
  | some target => simp [push, names, @eq_comm _ target id]

theorem Sound.push (sound : dag.Sound) (seals : dag.Seals new)
    (unused : Unused dag.lineage (·.checkpointId) new.checkpointId) : (dag.push new).Sound := by
  have grown := grown_push dag new
  constructor
  · exact linked_push sound seals
  · exact clock_push sound seals
  · intro key i c hc
    rcases grown.at.mp hc with old | ⟨rfl, _, rfl⟩
    · exact sound.owned key i c old
    · rfl
  · intro key i c hc
    rcases grown.at.mp hc with old | ⟨_, _, rfl⟩
    · exact sound.computed key i c old
    · exact (seal_eq_ok.mp seals).2.2.1
  · intro key i c hc correction
    rcases grown.at.mp hc with old | ⟨_, _, rfl⟩
    · exact sound.justified key i c old correction
    · obtain ⟨id, names⟩ := Option.isSome_iff_exists.mp correction
      obtain ⟨reason, memo, _⟩ := (checkSupersedes_correction names).mp seals.supersedes_ok
      exact ⟨reason, memo⟩
  · exact indexed_push sound unused
  · exact grown.namedOnce sound.marked sound.once fun id names => seals.unmarked names
  · exact marked_push sound

end

/-- Everything hashed for the identities in the graph is among the byte strings. -/
def HashedIn (dag : CheckpointDag) (preimages : Set Bytes) : Prop :=
  ∀ key, ∀ c ∈ dag.lineage key, SealedCheckpoint.envelopeBytes c.sealedAt c.draft ∈ preimages

theorem HashedIn.of_push {dag : CheckpointDag} {new : SealedCheckpoint} {preimages : Set Bytes}
    (hashed : (dag.push new).HashedIn preimages) : dag.HashedIn preimages := by
  intro key c hc
  apply hashed key c
  rw [lineage_push]
  split
  · exact List.mem_append_left _ hc
  · exact hc

theorem HashedIn.push {dag : CheckpointDag} {new : SealedCheckpoint} {preimages : Set Bytes}
    (hashed : dag.HashedIn preimages)
    (added : SealedCheckpoint.envelopeBytes new.sealedAt new.draft ∈ preimages) :
    (dag.push new).HashedIn preimages := by
  intro key c hc
  rw [lineage_push] at hc
  split at hc
  · rcases List.mem_append.mp hc with old | last
    · exact hashed key c old
    · exact List.mem_singleton.mp last ▸ added
  · exact hashed key c hc

theorem Sound.unused {dag : CheckpointDag} {new : SealedCheckpoint} {preimages : Set Bytes}
    (injective : Set.InjOn sha256 preimages) (sound : dag.Sound) (seals : dag.Seals new)
    (hashed : (dag.push new).HashedIn preimages) :
    Unused dag.lineage (·.checkpointId) new.checkpointId := by
  intro key i c hc same
  have inC := hashed.of_push key c hc.mem
  have inNew := hashed new.draft.lineageKey new (by simp [lineage_push])
  have digests : sha256 (SealedCheckpoint.envelopeBytes c.sealedAt c.draft) =
      sha256 (SealedCheckpoint.envelopeBytes new.sealedAt new.draft) := by
    rw [← sound.computed key i c hc, ← (seal_eq_ok.mp seals).2.2.1]
    exact same
  obtain ⟨time, draft⟩ := SealedCheckpoint.envelopeBytes_injective (injective inC inNew digests)
  have before : c ∈ dag.lineage new.draft.lineageKey := by
    rw [← draft, sound.owned key i c hc]
    exact hc.mem
  have later := later_than_all SealedCheckpoint.sealedAt (sound.clock _) seals.later before
  exact absurd time later.ne

theorem sound_sealCall {preimages : Set Bytes} (injective : Set.InjOn sha256 preimages)
    (dag : CheckpointDag) (call : CheckpointDraft × TimestampNs)
    (hashed : (dag.sealCall call).HashedIn preimages) :
    dag.HashedIn preimages ∧ (dag.Sound → (dag.sealCall call).Sound) := by
  rcases sealCall_cases dag call with same | ⟨c, seals, _, _, pushed⟩
  · rw [same] at hashed ⊢
    exact ⟨hashed, id⟩
  · rw [pushed] at hashed ⊢
    exact ⟨hashed.of_push, fun sound => sound.push seals (sound.unused injective seals hashed)⟩

theorem sound_reached {preimages : Set Bytes} (injective : Set.InjOn sha256 preimages)
    (calls : List (CheckpointDraft × TimestampNs))
    (hashed : (run sealCall new calls).HashedIn preimages) : (run sealCall new calls).Sound :=
  (run_bounded sealCall (HashedIn · preimages) Sound (sound_sealCall injective) calls new
    hashed).2 sound_new

/-- A lineage that is one chain of corrections. -/
structure Linear (dag : CheckpointDag) (key : TenantId × PeriodId) : Prop where
  initial : ∀ i c, dag.At key i c → (c.draft.supersedes = none ↔ i = 0)
  corrects : ∀ i c d, dag.At key i c → dag.At key (i + 1) d →
    d.draft.supersedes = some c.checkpointId ∧ d.draft.reason.isSome ∧
      d.draft.materialityMemo.isSome
  clock : (dag.lineage key).Pairwise fun c d => c.sealedAt < d.sealedAt
  head_last : dag.head key = (dag.lineage key).getLast?
  filed_first : ∀ c, dag.asFiled key = some c ↔ dag.At key 0 c
  /-- Every checkpoint but the last is superseded from one place among all lineages. -/
  superseded_once : ∀ i c, dag.At key i c → i + 1 < (dag.lineage key).length →
    ∃! place : (TenantId × PeriodId) × Nat, ∃ d, dag.At place.1 place.2 d ∧
      d.draft.supersedes = some c.checkpointId
  last_current : ∀ c, (dag.lineage key).getLast? = some c → ∀ other j d, dag.At other j d →
    d.draft.supersedes ≠ some c.checkpointId

theorem Sound.linear {dag : CheckpointDag} (sound : dag.Sound) (key : TenantId × PeriodId) :
    dag.Linear key := by
  constructor
  · exact fun i c h => sound.initial_iff h
  · intro i c d hc hd
    have names := sound.supersedes_previous hc hd
    exact ⟨names, sound.justified key (i + 1) d hd (by simp [names])⟩
  · exact sound.clock key
  · exact sound.head_eq key
  · intro c
    rw [asFiled, List.head?_eq_getElem?]
    rfl
  · intro i c hc behind
    have hd : dag.At key (i + 1) _ := List.getElem?_eq_getElem behind
    have names := sound.supersedes_previous hc hd
    refine ⟨(key, i + 1), ⟨_, hd, names⟩, ?_⟩
    rintro ⟨other, j⟩ ⟨e, he, twice⟩
    obtain ⟨rfl, rfl⟩ := sound.once _ _ _ _ _ _ _ he hd twice names
    rfl
  · intro c ends other j d hd names
    have hc : dag.At key ((dag.lineage key).length - 1) c := by
      rw [List.getLast?_eq_getElem?] at ends
      exact ends
    have behind := (sound.superseded_iff hc).mp ((sound.marked _).mpr ⟨other, j, d, hd, names⟩)
    omega

omit [External] in
theorem asFiled_push {dag : CheckpointDag} {key : TenantId × PeriodId} {c : SealedCheckpoint}
    (filed : dag.asFiled key = some c) (new : SealedCheckpoint) :
    (dag.push new).asFiled key = some c := by
  rw [asFiled, lineage_push]
  split
  · rw [List.head?_append, ← asFiled, filed]
    rfl
  · exact filed

theorem asFiled_run {dag : CheckpointDag} {key : TenantId × PeriodId} {c : SealedCheckpoint}
    (filed : dag.asFiled key = some c) (calls : List (CheckpointDraft × TimestampNs)) :
    (run sealCall dag calls).asFiled key = some c := by
  refine run_invariant sealCall (fun dag => dag.asFiled key = some c) ?_ calls dag filed
  intro dag call filed
  rcases sealCall_cases dag call with same | ⟨new, _, _, _, pushed⟩
  · rwa [same]
  · rw [pushed]
    exact asFiled_push filed new

/-- In every graph that sealings lead to, each lineage is one chain of corrections, and what
was filed first stays filed. -/
theorem lineages_linear {preimages : Set Bytes} (injective : Set.InjOn sha256 preimages)
    (calls : List (CheckpointDraft × TimestampNs))
    (hashed : (run sealCall new calls).HashedIn preimages) :
    (∀ key, (run sealCall new calls).Linear key) ∧
      ∀ key c, (run sealCall new calls).asFiled key = some c →
        ∀ later, (run sealCall (run sealCall new calls) later).asFiled key = some c := by
  have sound := sound_reached injective calls hashed
  exact ⟨sound.linear, fun key c filed later => asFiled_run filed later⟩

def initialDraft (tenant period : String) : CheckpointDraft :=
  ⟨⟨tenant⟩, ⟨period⟩, ⟨0⟩, .filled 5, none, none, none⟩

def initialCheckpoint (tenant period : String) : SealedCheckpoint :=
  ⟨sha256 (SealedCheckpoint.envelopeBytes ⟨0⟩ (initialDraft tenant period)), ⟨0⟩,
    initialDraft tenant period⟩

section
variable {dag : CheckpointDag} {tenant period : String}

theorem lineage_initial (fresh : dag.lineage (⟨tenant⟩, ⟨period⟩) = []) :
    (dag.push (initialCheckpoint tenant period)).lineage (⟨tenant⟩, ⟨period⟩) =
      [initialCheckpoint tenant period] := by
  have own : ((⟨tenant⟩, ⟨period⟩) : TenantId × PeriodId) =
      (initialCheckpoint tenant period).draft.lineageKey := rfl
  rw [lineage_push, if_pos own, fresh, List.nil_append]

theorem seal_initial (fresh : dag.lineage (⟨tenant⟩, ⟨period⟩) = []) :
    dag.sealCall (initialDraft tenant period, ⟨0⟩) = dag.push (initialCheckpoint tenant period) := by
  have own : dag.lineage (initialDraft tenant period).lineageKey = [] := fresh
  have sealed : dag.seal (initialDraft tenant period) ⟨0⟩ =
      .ok (dag.push (initialCheckpoint tenant period), _) :=
    seal_eq_ok.mpr ⟨checkTime_eq_ok.mpr (by simp [own]),
      (checkSupersedes_initial rfl).mpr ⟨rfl, rfl, own⟩, rfl, rfl⟩
  rw [sealCall, sealed]

def correctionDraft (tenant period : String) : CheckpointDraft :=
  ⟨⟨tenant⟩, ⟨period⟩, ⟨0⟩, .filled 6, some (initialCheckpoint tenant period).checkpointId,
    some .lateData, some (.filled 7)⟩

def correctionCheckpoint (tenant period : String) : SealedCheckpoint :=
  ⟨sha256 (SealedCheckpoint.envelopeBytes ⟨.literal 1⟩ (correctionDraft tenant period)),
    ⟨.literal 1⟩, correctionDraft tenant period⟩

theorem seal_correction (fresh : dag.lineage (⟨tenant⟩, ⟨period⟩) = [])
    (unmarked : dag.superseded = ∅) :
    (dag.push (initialCheckpoint tenant period)).sealCall
        (correctionDraft tenant period, ⟨.literal 1⟩) =
      (dag.push (initialCheckpoint tenant period)).push (correctionCheckpoint tenant period) := by
  have lineage := lineage_initial fresh
  have time : (dag.push (initialCheckpoint tenant period)).checkTime
      (correctionDraft tenant period) ⟨.literal 1⟩ = .ok () := by
    refine checkTime_eq_ok.mpr fun last ends => ?_
    rw [show (correctionDraft tenant period).lineageKey = (⟨tenant⟩, ⟨period⟩) from rfl,
      lineage, List.getLast?_singleton] at ends
    cases ends
    exact (by decide : (⟨0⟩ : TimestampNs) < ⟨.literal 1⟩)
  have found : (dag.push (initialCheckpoint tenant period)).byId.lookup
      (initialCheckpoint tenant period).checkpointId =
        some ((correctionDraft tenant period).lineageKey, _) := Finmap.lookup_insert _
  have free : (initialCheckpoint tenant period).checkpointId ∉
      (dag.push (initialCheckpoint tenant period)).superseded := by
    rw [show (dag.push (initialCheckpoint tenant period)).superseded = ∅ from unmarked]
    exact Finset.notMem_empty _
  have target := (checkSupersedes_correction (d := correctionDraft tenant period) rfl).mpr
    ⟨rfl, rfl, ⟨_, found⟩, free⟩
  have sealed : (dag.push (initialCheckpoint tenant period)).seal (correctionDraft tenant period)
      ⟨.literal 1⟩ = .ok (_, (correctionCheckpoint tenant period).checkpointId) :=
    seal_eq_ok.mpr ⟨time, target, rfl, rfl⟩
  rw [sealCall, sealed]
  rfl

end

def correctedCalls : List (CheckpointDraft × TimestampNs) :=
  [(initialDraft "beta" "2026Q2", ⟨0⟩), (initialDraft "acme" "2026Q2", ⟨0⟩),
    (correctionDraft "acme" "2026Q2", ⟨.literal 1⟩)]

def correctedDag : CheckpointDag :=
  ((new.push (initialCheckpoint "beta" "2026Q2")).push (initialCheckpoint "acme" "2026Q2")).push
    (correctionCheckpoint "acme" "2026Q2")

theorem run_correctedCalls : run sealCall new correctedCalls = correctedDag := by
  have fresh : (new.push (initialCheckpoint "beta" "2026Q2")).lineage
      (⟨"acme"⟩, ⟨"2026Q2"⟩) = [] := by
    have other : ((⟨"acme"⟩, ⟨"2026Q2"⟩) : TenantId × PeriodId) ≠
        (initialCheckpoint "beta" "2026Q2").draft.lineageKey := by
      simp [initialCheckpoint, initialDraft, CheckpointDraft.lineageKey]
    rw [lineage_push, if_neg other, lineage_new]
  rw [correctedCalls, run, seal_initial (lineage_new _), run, seal_initial fresh, run,
    seal_correction fresh rfl, run, correctedDag]

theorem lineage_correctedDag : correctedDag.lineage (⟨"acme"⟩, ⟨"2026Q2"⟩) =
    [initialCheckpoint "acme" "2026Q2", correctionCheckpoint "acme" "2026Q2"] := by
  simp [correctedDag, lineage_push, correctionCheckpoint, initialCheckpoint, correctionDraft,
    initialDraft, CheckpointDraft.lineageKey]

def correctedBytes : List Bytes :=
  [SealedCheckpoint.envelopeBytes ⟨0⟩ (initialDraft "beta" "2026Q2"),
    SealedCheckpoint.envelopeBytes ⟨0⟩ (initialDraft "acme" "2026Q2"),
    SealedCheckpoint.envelopeBytes ⟨.literal 1⟩ (correctionDraft "acme" "2026Q2")]

omit [External] in
theorem injOn_correctedBytes :
    letI : External := reference
    Set.InjOn sha256 {b | b ∈ correctedBytes} := by
  let _ : External := reference
  have digests : (correctedBytes.map sha256).Nodup := by
    simp only [correctedBytes, SealedCheckpoint.envelopeBytes, correctionDraft, initialCheckpoint,
      toText, utf8_ofList]
    decide +kernel
  exact fun a ha b hb same => List.inj_on_of_nodup_map digests ha hb same

theorem hashed_correctedDag : correctedDag.HashedIn {b | b ∈ correctedBytes} := by
  have none : new.HashedIn {b | b ∈ correctedBytes} := by simp [HashedIn]
  refine ((none.push ?_).push ?_).push ?_
  · exact List.mem_cons_self
  · exact List.mem_cons_of_mem _ List.mem_cons_self
  · exact List.mem_cons_of_mem _ (List.mem_cons_of_mem _ List.mem_cons_self)

end

/-- The head of a corrected lineage is the correction, and the first checkpoint stays filed. -/
theorem lineages_linear_first :
    letI : External := reference
    let dag := run sealCall new correctedCalls
    dag.head (⟨"acme"⟩, ⟨"2026Q2"⟩) = some (correctionCheckpoint "acme" "2026Q2") ∧
      dag.asFiled (⟨"acme"⟩, ⟨"2026Q2"⟩) = some (initialCheckpoint "acme" "2026Q2") := by
  let _ : External := reference
  have hashed : (run sealCall new correctedCalls).HashedIn {b | b ∈ correctedBytes} := by
    rw [run_correctedCalls]
    exact hashed_correctedDag
  obtain ⟨linear, _⟩ := lineages_linear injOn_correctedBytes _ hashed
  have chain := linear (⟨"acme"⟩, ⟨"2026Q2"⟩)
  refine ⟨?_, (chain.filed_first _).mpr ?_⟩
  · rw [chain.head_last, run_correctedCalls, lineage_correctedDag]
    rfl
  · rw [At, Kit.At, run_correctedCalls, lineage_correctedDag]
    rfl

end CheckpointDag

end Treasury
