import Treasury.Kit.Lineage
import Treasury.Ledger.Sound

/-! What the books said at a time: of every correction lineage the version that was booked
last, whatever is appended afterwards. -/
namespace Treasury
open Kit Kit.Json

theorem split_at_time {l : List SealedEvent}
    (clock : l.Pairwise fun e f => e.knowledgeTime < f.knowledgeTime) (t : TimestampNs) :
    l = l.filter (·.knowledgeTime ≤ t) ++ l.filter (t < ·.knowledgeTime) := by
  induction l with
  | nil => rfl
  | cons e l ih =>
    obtain ⟨later, rest⟩ := List.pairwise_cons.mp clock
    by_cases booked : e.knowledgeTime ≤ t
    · rw [List.filter_cons_of_pos (by simpa using booked),
        List.filter_cons_of_neg (by simpa using booked), List.cons_append, ← ih rest]
    · rw [not_le] at booked
      have none : l.filter (·.knowledgeTime ≤ t) = [] := by
        apply List.filter_eq_nil_iff.mpr
        intro f hf
        simpa using booked.trans (later f hf)
      have all : l.filter (t < ·.knowledgeTime) = l := by
        apply List.filter_eq_self.mpr
        intro f hf
        simpa using booked.trans (later f hf)
      rw [List.filter_cons_of_neg (by simpa using booked),
        List.filter_cons_of_pos (by simpa using booked), none, all, List.nil_append]

namespace InMemoryLedger

def booked (ledger : InMemoryLedger) (tenant : TenantId) (t : TimestampNs) : List SealedEvent :=
  (ledger.stream tenant).filter (·.knowledgeTime ≤ t)

theorem asOf_eq (ledger : InMemoryLedger) (tenant : TenantId) (t : TimestampNs) :
    ledger.asOf tenant t =
      inForce SealedEvent.eventId (·.draft.supersedes) (ledger.booked tenant t) := rfl

theorem mem_booked {ledger : InMemoryLedger} {tenant : TenantId} {t : TimestampNs}
    {e : SealedEvent} :
    e ∈ ledger.booked tenant t ↔ e ∈ ledger.stream tenant ∧ e.knowledgeTime ≤ t := by
  simp [booked]

/-- The event and its corrections, the corrections of these, and so on. -/
abbrev Versions (ledger : InMemoryLedger) (tenant : TenantId) : SealedEvent → SealedEvent → Prop :=
  Lineage SealedEvent.eventId (·.draft.supersedes) (ledger.stream tenant)

section
variable [External] {ledger : InMemoryLedger}

theorem Sound.corrected (sound : ledger.Sound) (tenant : TenantId) :
    Corrected SealedEvent.eventId (·.draft.supersedes) (ledger.stream tenant) := by
  intro front e rest split
  have here : ledger.At tenant front.length e := by simp [Kit.At, split]
  have before {f : SealedEvent} (hf : f ∈ front) : ∃ j < front.length, ledger.At tenant j f := by
    obtain ⟨j, hj⟩ := List.mem_iff_getElem?.mp hf
    have small := (List.getElem?_eq_some_iff.mp hj).1
    refine ⟨j, small, ?_⟩
    unfold At Kit.At
    rw [split, List.getElem?_append_left small, hj]
  constructor
  · intro used
    obtain ⟨f, hf, same⟩ := List.mem_map.mp used
    obtain ⟨j, small, there⟩ := before hf
    exact absurd (sound.distinct _ _ _ _ _ _ there here same).2 small.ne
  · intro id supersedes
    obtain ⟨j, target, small, there, identity, _⟩ := sound.corrects _ _ _ _ here supersedes
    unfold At Kit.At at there
    rw [split, List.getElem?_append_left small] at there
    refine ⟨List.mem_map.mpr ⟨target, List.mem_of_getElem? there, identity⟩, fun marked => ?_⟩
    obtain ⟨f, hf, twice⟩ := List.mem_filterMap.mp marked
    obtain ⟨k, less, place⟩ := before hf
    exact absurd (sound.once _ _ _ _ _ _ _ place here twice supersedes).2 less.ne

theorem Sound.corrected_booked (sound : ledger.Sound) (tenant : TenantId) (t : TimestampNs) :
    Corrected SealedEvent.eventId (·.draft.supersedes) (ledger.booked tenant t) := by
  have whole := sound.corrected tenant
  rw [split_at_time (sound.clock tenant) t] at whole
  exact whole.of_prefix

theorem Sound.versions_booked (sound : ledger.Sound) {tenant : TenantId} {t : TimestampNs}
    {e f : SealedEvent} (inStream : e ∈ ledger.stream tenant) (versions : ledger.Versions tenant e f)
    (byT : f.knowledgeTime ≤ t) :
    Lineage SealedEvent.eventId (·.draft.supersedes) (ledger.booked tenant t) e f := by
  induction versions with
  | refl => exact .refl
  | tail path last ih =>
    have later := (sound.corrected tenant).later (sound.clock tenant) (Lineage.mem inStream path) last
    exact (ih (later.le.trans byT)).tail ⟨mem_booked.mpr ⟨last.1, byT⟩, last.2⟩

theorem Sound.versions_later (sound : ledger.Sound) {tenant : TenantId} {e f : SealedEvent}
    (inStream : e ∈ ledger.stream tenant) (versions : ledger.Versions tenant e f) :
    e.knowledgeTime ≤ f.knowledgeTime := by
  induction versions with
  | refl => exact le_rfl
  | tail path last ih =>
    have later := (sound.corrected tenant).later (sound.clock tenant) (Lineage.mem inStream path) last
    exact ih.trans later.le

/-- Of every lineage that begins by the time exactly one version is active, the last one booked
by then, and nothing else is active. -/
theorem Sound.one_active (sound : ledger.Sound) (tenant : TenantId) (t : TimestampNs)
    {root : SealedEvent} (inStream : root ∈ ledger.stream tenant) (byT : root.knowledgeTime ≤ t) :
    ∃ e ∈ ledger.asOf tenant t, ledger.Versions tenant root e ∧
      (∀ f ∈ ledger.asOf tenant t, ledger.Versions tenant root f → f = e) ∧
      ∀ f ∈ ledger.stream tenant, ledger.Versions tenant root f → f.knowledgeTime ≤ t →
        f.knowledgeTime ≤ e.knowledgeTime := by
  have corrected := sound.corrected_booked tenant t
  have whole {e f : SealedEvent}
      (path : Lineage SealedEvent.eventId (·.draft.supersedes) (ledger.booked tenant t) e f) :
      ledger.Versions tenant e f := path.mono fun x hx => (mem_booked.mp hx).1
  obtain ⟨e, active, path, last⟩ := corrected.one_in_force (mem_booked.mpr ⟨inStream, byT⟩)
  refine ⟨e, active, whole path, fun f activeF versions => ?_, fun f hf versions bookedF => ?_⟩
  · have bookedF := (mem_booked.mp (mem_inForce.mp activeF).1).2
    exact eq_of_inForce activeF (last f (sound.versions_booked inStream versions bookedF))
  · have onward := last f (sound.versions_booked inStream versions bookedF)
    exact sound.versions_later hf (whole onward)

theorem Sound.active_rooted (sound : ledger.Sound) (tenant : TenantId) (t : TimestampNs)
    {e : SealedEvent} (active : e ∈ ledger.asOf tenant t) :
    ∃ root ∈ ledger.stream tenant, root.draft.supersedes = none ∧ root.knowledgeTime ≤ t ∧
      ledger.Versions tenant root e := by
  have booked := (mem_inForce.mp (asOf_eq ledger tenant t ▸ active)).1
  obtain ⟨root, inBooked, original, path⟩ := (sound.corrected_booked tenant t).rooted booked
  obtain ⟨inStream, byT⟩ := mem_booked.mp inBooked
  exact ⟨root, inStream, original, byT, path.mono fun x hx => (mem_booked.mp hx).1⟩

theorem Sound.active_count (sound : ledger.Sound) (tenant : TenantId) (t : TimestampNs) :
    (ledger.asOf tenant t).length = ((ledger.stream tenant).filter fun root =>
      root.draft.supersedes = none ∧ root.knowledgeTime ≤ t).length := by
  rw [asOf_eq, (sound.corrected_booked tenant t).count, booked, List.filter_filter]
  simp only [Bool.decide_and]

/-- In every ledger that appends lead to, the lineages of corrections are chains, and as of
every time each lineage begun by then has one active version, the last. -/
theorem one_active_version {preimages : Set Bytes} (injective : Set.InjOn sha256 preimages)
    (calls : List (EventDraft × TimestampNs))
    (hashed : (run appendCall new calls).HashedIn preimages) (tenant : TenantId) (t : TimestampNs) :
    let ledger := run appendCall new calls
    (∀ root ∈ ledger.stream tenant, root.draft.supersedes = none → root.knowledgeTime ≤ t →
      (∀ e f, ledger.Versions tenant root e → ledger.Versions tenant root f →
        ledger.Versions tenant e f ∨ ledger.Versions tenant f e) ∧
      ∃ e ∈ ledger.asOf tenant t, ledger.Versions tenant root e ∧
        (∀ f ∈ ledger.asOf tenant t, ledger.Versions tenant root f → f = e) ∧
        ∀ f ∈ ledger.stream tenant, ledger.Versions tenant root f → f.knowledgeTime ≤ t →
          f.knowledgeTime ≤ e.knowledgeTime) ∧
    (∀ e ∈ ledger.asOf tenant t, ∃ root ∈ ledger.stream tenant, root.draft.supersedes = none ∧
      root.knowledgeTime ≤ t ∧ ledger.Versions tenant root e) ∧
    (ledger.asOf tenant t).length = ((ledger.stream tenant).filter fun root =>
      root.draft.supersedes = none ∧ root.knowledgeTime ≤ t).length := by
  have sound := sound_reached injective calls hashed
  refine ⟨fun root inStream _ byT => ⟨?_, ?_⟩, ?_, ?_⟩
  · exact fun e f left right => (sound.corrected tenant).linear left right
  · exact sound.one_active tenant t inStream byT
  · exact fun e active => sound.active_rooted tenant t active
  · exact sound.active_count tenant t

end

/-- A balance that is corrected: before the correction it is active itself, after it the
correction is. -/
theorem one_active_version_first :
    letI : External := reference
    let ledger := run appendCall new ((observed "beta", ⟨0⟩) :: correctedCalls "acme")
    (ledger.asOf ⟨"acme"⟩ ⟨0⟩).length = 1 ∧
      ∃ e ∈ ledger.asOf ⟨"acme"⟩ ⟨.literal 1⟩, ledger.Versions ⟨"acme"⟩ (firstEvent "acme") e ∧
        e.draft = corrected "acme" := by
  let _ : External := reference
  set ledger := run appendCall new ((observed "beta", ⟨0⟩) :: correctedCalls "acme") with reached
  have stream : ledger.stream ⟨"acme"⟩ = [firstEvent "acme", correctedEvent "acme"] := by
    rw [reached, run_sampled, stream_corrections _ _ (stream_beside (by decide))]
  have before := one_active_version injOn_sampled _ hashed_sampled ⟨"acme"⟩ ⟨0⟩
  have after := one_active_version injOn_sampled _ hashed_sampled ⟨"acme"⟩ ⟨.literal 1⟩
  refine ⟨?_, ?_⟩
  · rw [before.2.2, ← reached, stream]
    rfl
  · have root : firstEvent "acme" ∈ ledger.stream ⟨"acme"⟩ := by simp [stream]
    have correction : correctedEvent "acme" ∈ ledger.stream ⟨"acme"⟩ := by simp [stream]
    have corrects : ledger.Versions ⟨"acme"⟩ (firstEvent "acme") (correctedEvent "acme") :=
      .single ⟨correction, rfl⟩
    obtain ⟨_, e, active, versions, _, latest⟩ := after.1 _ root rfl (by decide)
    refine ⟨e, active, versions, ?_⟩
    have late := latest _ correction corrects le_rfl
    have member := (mem_booked.mp (mem_inForce.mp active).1).1
    rw [stream] at member
    rcases List.mem_pair.mp member with rfl | rfl
    · exact absurd late (by decide)
    · rfl

end InMemoryLedger

end Treasury
