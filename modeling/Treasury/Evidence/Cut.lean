import Treasury.Evidence.Durable
import Treasury.Kit.Cut

/-! Recovery of a store from the first bytes of its log, wherever the log is cut off. -/
namespace Treasury
open Kit Kit.Merkle

section
variable [External]

def distinctBlobs : List Bytes → List Bytes
  | [] => []
  | blob :: rest => blob :: (distinctBlobs rest).filter (sha256 · ≠ sha256 blob)

theorem digests_distinctBlobs (blobs : List Bytes) : ((distinctBlobs blobs).map sha256).Nodup := by
  induction blobs with
  | nil => exact List.nodup_nil
  | cons blob rest ih =>
    rw [distinctBlobs, List.map_cons, List.nodup_cons]
    refine ⟨fun again => ?_, ih.sublist ((List.filter_sublist).map sha256)⟩
    obtain ⟨other, kept, same⟩ := List.mem_map.mp again
    have differs := (List.mem_filter.mp kept).2
    simp [same] at differs

theorem exists_distinctBlobs {blobs : List Bytes} {blob : Bytes} (member : blob ∈ blobs) :
    ∃ kept ∈ distinctBlobs blobs, sha256 kept = sha256 blob := by
  induction blobs with
  | nil => exact absurd member List.not_mem_nil
  | cons first rest ih =>
    by_cases same : sha256 first = sha256 blob
    · exact ⟨first, List.mem_cons_self, same⟩
    · rcases List.mem_cons.mp member with rfl | later
      · exact absurd rfl same
      · obtain ⟨kept, inRest, digest⟩ := ih later
        refine ⟨kept, List.mem_cons_of_mem _ (List.mem_filter.mpr ⟨inRest, ?_⟩), digest⟩
        simpa [digest] using Ne.symm same

theorem distinctBlobs_sublist (blobs : List Bytes) : (distinctBlobs blobs).Sublist blobs := by
  induction blobs with
  | nil => exact List.Sublist.slnil
  | cons blob rest ih => exact (List.filter_sublist.trans ih).cons_cons blob

theorem distinctBlobs_exact {blobs : List Bytes} (injective : Set.InjOn sha256 {b | b ∈ blobs}) :
    (distinctBlobs blobs).Nodup ∧ ∀ blob, blob ∈ distinctBlobs blobs ↔ blob ∈ blobs := by
  have sublist := distinctBlobs_sublist blobs
  refine ⟨(digests_distinctBlobs blobs).of_map, fun blob => ⟨fun h => sublist.subset h, ?_⟩⟩
  intro member
  obtain ⟨kept, distinct, same⟩ := exists_distinctBlobs member
  exact injective (sublist.subset distinct) member same ▸ distinct

def newBlobs (digests : List ContentHash) (blobs : List Bytes) : List Bytes :=
  blobs.filter (sha256 · ∉ digests)

theorem newBlobs_cons (digests : List ContentHash) (blob : Bytes) (blobs : List Bytes) :
    newBlobs digests (distinctBlobs (blob :: blobs)) =
      if sha256 blob ∈ digests then newBlobs digests (distinctBlobs blobs)
      else blob :: newBlobs (digests ++ [sha256 blob]) (distinctBlobs blobs) := by
  rw [newBlobs, distinctBlobs]
  split
  · rename_i known
    rw [List.filter_cons_of_neg (by simpa using known), List.filter_filter]
    refine List.filter_congr fun other _ => ?_
    rw [Bool.and_eq_left_iff_imp, decide_eq_true_iff, decide_eq_true_iff]
    exact fun absent same => absent (same ▸ known)
  · rename_i new
    rw [List.filter_cons_of_pos (by simpa using new), List.filter_filter]
    refine congrArg _ (List.filter_congr fun other _ => ?_)
    rw [← Bool.decide_and, decide_eq_decide, List.mem_append, List.mem_singleton, not_or]

namespace InMemoryEvidenceStore

/-- A store in memory that was given these byte strings, all with digests of their own. -/
def ofBlobs (blobs : List Bytes) : InMemoryEvidenceStore :=
  run (fun store blob => (store.put blob).1) .new blobs

structure Entries (store : InMemoryEvidenceStore) (blobs : List Bytes) : Prop where
  order_eq : store.order = blobs.map sha256
  known : ∀ hash, (store.blobs.lookup hash).isSome ↔ hash ∈ blobs.map sha256
  found : ∀ blob ∈ blobs, store.get (sha256 blob) = .ok blob

theorem Entries.fresh {store : InMemoryEvidenceStore} {blobs : List Bytes} {blob : Bytes}
    (entries : store.Entries blobs) (new : sha256 blob ∉ blobs.map sha256) :
    store.blobs.lookup (sha256 blob) = none := by
  rw [← Option.not_isSome_iff_eq_none, entries.known]
  exact new

theorem Entries.put {store : InMemoryEvidenceStore} {blobs : List Bytes} {blob : Bytes}
    (entries : store.Entries blobs) (new : sha256 blob ∉ blobs.map sha256) :
    (store.put blob).1.Entries (blobs ++ [blob]) where
  order_eq := by
    rw [put_fresh (entries.fresh new), entries.order_eq, List.map_append]
    rfl
  known := by
    intro hash
    rw [lookup_put_isSome, entries.known, List.map_append, List.mem_append, or_comm]
    exact or_congr_right List.mem_singleton.symm
  found := by
    intro other member
    rw [put_fresh (entries.fresh new), InMemoryEvidenceStore.get]
    rcases List.mem_append.mp member with old | last
    · have differs : sha256 other ≠ sha256 blob := fun same =>
        new (same ▸ List.mem_map_of_mem old)
      rw [Finmap.lookup_insert_of_ne _ differs]
      exact entries.found other old
    · rw [List.mem_singleton.mp last, Finmap.lookup_insert]

theorem ofBlobs_concat (blobs : List Bytes) (blob : Bytes) :
    ofBlobs (blobs ++ [blob]) = ((ofBlobs blobs).put blob).1 := run_append ..

theorem entries_ofBlobs {blobs : List Bytes} (digests : (blobs.map sha256).Nodup) :
    (ofBlobs blobs).Entries blobs := by
  induction blobs using List.reverseRecOn with
  | nil => exact ⟨rfl, fun hash => by simp [ofBlobs, run], fun blob member => by cases member⟩
  | append_singleton blobs blob ih =>
    rw [List.map_append, List.nodup_append] at digests
    obtain ⟨before, -, apart⟩ := digests
    rw [ofBlobs_concat]
    exact (ih before).put fun old => apart _ old _ (List.mem_singleton_self _) rfl

end InMemoryEvidenceStore

namespace FileEvidenceStore

def blobLine (blob : Bytes) : Line := recordLine (sha256 blob) blob

def blobBytes (blob : Bytes) : Bytes := recordBytes (sha256 blob) blob

/-- The store was built from these byte strings, and its file has exactly their records. -/
structure Stored (store : FileEvidenceStore) (blobs : List Bytes) : Prop where
  file_eq : store.file = utf8 (String.ofList (logText (blobs.map blobLine)))
  inner_eq : store.inner = .ofBlobs blobs
  digests : (blobs.map sha256).Nodup

theorem stored_new : Stored ⟨.new, []⟩ [] := ⟨rfl, rfl, List.nodup_nil⟩

theorem Stored.entries {store : FileEvidenceStore} {blobs : List Bytes}
    (stored : Stored store blobs) : store.inner.Entries blobs :=
  stored.inner_eq ▸ InMemoryEvidenceStore.entries_ofBlobs stored.digests

def putCall (store : FileEvidenceStore) (call : Bytes × Option Fault) : FileEvidenceStore :=
  (store.put call.1 call.2).1

def Succeeds (store : FileEvidenceStore) (call : Bytes × Option Fault) : Prop :=
  ∃ hash, (store.put call.1 call.2).2 = .ok hash

theorem Stored.put {store : FileEvidenceStore} {blobs : List Bytes} (stored : Stored store blobs)
    {call : Bytes × Option Fault} (succeeds : store.Succeeds call) :
    Stored (store.putCall call)
      (if sha256 call.1 ∈ blobs.map sha256 then blobs else blobs ++ [call.1]) := by
  obtain ⟨blob, fault⟩ := call
  split
  · rename_i known
    rw [putCall, put_known fault ((stored.entries.known _).mpr known)]
    exact stored
  · rename_i new
    have fresh := stored.entries.fresh new
    cases fault with
    | some f =>
      rw [Succeeds, put_fresh _ fresh] at succeeds
      obtain ⟨hash, failed⟩ := succeeds
      cases failed
    | none =>
      rw [putCall, put_fresh _ fresh]
      refine ⟨?_, ?_, ?_⟩
      · simp only [stored.file_eq, List.map_append, List.map_cons, List.map_nil, logText_concat,
          utf8_ofList_append, reached, recordBytes, blobLine]
      · simp only [InMemoryEvidenceStore.ofBlobs_concat, stored.inner_eq]
      · rw [List.map_append, List.nodup_append]
        refine ⟨stored.digests, List.nodup_singleton _, fun a old b last same => ?_⟩
        rw [same, List.mem_singleton.mp last] at old
        exact new old

theorem Stored.run {store : FileEvidenceStore} {blobs : List Bytes} (stored : Stored store blobs)
    {calls : List (Bytes × Option Fault)} (succeed : Along putCall Succeeds store calls) :
    Stored (Kit.run putCall store calls)
      (blobs ++ newBlobs (blobs.map sha256) (distinctBlobs (calls.map Prod.fst))) := by
  induction calls generalizing store blobs with
  | nil => simpa [Kit.run, distinctBlobs, newBlobs] using stored
  | cons call calls ih =>
    obtain ⟨first, rest⟩ := succeed
    have later := ih (stored.put first) rest
    rw [List.map_cons, newBlobs_cons, Kit.run]
    split at later
    · rename_i known
      rw [if_pos known]
      exact later
    · rename_i new
      rw [if_neg new]
      rw [List.map_append, List.append_assoc] at later
      exact later

theorem valid_cut (blobs : List Bytes) (n : Nat) :
    ValidUtf8 ((utf8 (String.ofList (logText (blobs.map blobLine)))).take n) := by
  have ascii : Ascii (logText (blobs.map blobLine)) := by
    induction blobs with
    | nil => exact fun c none => absurd none List.not_mem_nil
    | cons blob blobs ih => exact (recordLine_ascii (sha256 blob) blob).append ih
  rw [take_utf8 ascii]
  exact validUtf8_utf8 _

theorem replay_blobs (blobs : List Bytes) (index : Nat) (inner : InMemoryEvidenceStore) :
    replay index (blobs.map blobLine) inner =
      .ok (Kit.run (fun store blob => (store.put blob).1) inner blobs) := by
  induction blobs generalizing index inner with
  | nil => rfl
  | cons blob blobs ih =>
    exact bind_eq_ok.mpr ⟨blob, records_recordLine blob index, ih _ _⟩

theorem lineBytes_blobLine : lineBytes ∘ blobLine = blobBytes := by
  funext blob
  simp only [Function.comp_apply, lineBytes, blobLine, blobBytes, recordBytes]

theorem Stored.open_cut {store : FileEvidenceStore} {blobs : List Bytes}
    (stored : Stored store blobs) {n : Nat} (inFile : n ≤ store.file.length) (recover : Bool) :
    openInternal (store.file.take n) recover =
      if AtBoundary blobBytes n blobs ∨ recover = true then
        .ok ⟨.ofBlobs (within blobBytes n blobs), (within blobBytes n blobs).flatMap blobBytes⟩
      else .error .tornTail := by
  have printable : ∀ l ∈ blobs.map blobLine, Printable l := by
    intro l member
    obtain ⟨blob, -, rfl⟩ := List.mem_map.mp member
    exact recordLine_printable _ _
  have lines_eq : within lineBytes n (blobs.map blobLine) =
      (within blobBytes n blobs).map blobLine :=
    lineBytes_blobLine ▸ within_map lineBytes blobLine n blobs
  have bytes (kept : List Bytes) : (kept.map blobLine).flatMap lineBytes = kept.flatMap blobBytes :=
    List.flatMap_map ..
  have boundary : AtBoundary lineBytes n (blobs.map blobLine) ↔ AtBoundary blobBytes n blobs := by
    rw [AtBoundary, AtBoundary, lines_eq, bytes]
  rw [stored.file_eq] at inFile ⊢
  rw [openInternal, openLog_cut _ _ _ printable inFile (valid_cut blobs n), lines_eq, replay_blobs,
    bytes]
  simp only [boundary]
  split <;> rfl

theorem stored_run {calls : List (Bytes × Option Fault)}
    (succeed : Along putCall Succeeds ⟨.new, []⟩ calls) :
    Stored (Kit.run putCall ⟨.new, []⟩ calls) (distinctBlobs (calls.map Prod.fst)) := by
  have stored := stored_new.run succeed
  have all : newBlobs [] (distinctBlobs (calls.map Prod.fst)) =
      distinctBlobs (calls.map Prod.fst) := by
    simp [newBlobs]
  rwa [List.map_nil, all, List.nil_append] at stored

/-- The head over the entries of a store is the earlier head of any store that has more. -/
theorem treeHeadAt_prefix {early late : InMemoryEvidenceStore} {kept blobs : List Bytes}
    (first : early.Entries kept) (all : late.Entries blobs) (front : kept <+: blobs) :
    late.treeHeadAt kept.length = some early.treeHead := by
  obtain ⟨rest, rfl⟩ := front
  refine InMemoryEvidenceStore.treeHeadAt_eq_some.mpr ⟨?_, ?_⟩
  · rw [all.order_eq, List.length_map, List.length_append]
    exact Nat.le_add_right _ _
  · have length : kept.length = (kept.map sha256).length := (List.length_map _).symm
    rw [all.order_eq, List.map_append, length, List.take_left, InMemoryEvidenceStore.treeHead,
      first.order_eq]

/-- A log that is cut off anywhere in a run of successful puts is recovered: as the store of
the distinct byte strings whose lines lie within the cut, with the head that the store had
over as many entries. Opening gives the same where a line ends. -/
theorem cut_reopens (calls : List (Bytes × Option Fault))
    (succeed : Along putCall Succeeds ⟨.new, []⟩ calls) (n : Nat)
    (inFile : n ≤ (Kit.run putCall ⟨.new, []⟩ calls).file.length) :
    let store := Kit.run putCall ⟨.new, []⟩ calls
    let blobs := distinctBlobs (calls.map Prod.fst)
    let kept := within blobBytes n blobs
    ∃ reopened, openWithRecovery (store.file.take n) = .ok reopened ∧
      reopened.inner.Entries kept ∧ reopened.file = kept.flatMap blobBytes ∧
      store.inner.treeHeadAt kept.length = some reopened.inner.treeHead ∧
      (AtBoundary blobBytes n blobs → «open» (store.file.take n) = .ok reopened) ∧
      (¬ AtBoundary blobBytes n blobs → «open» (store.file.take n) = .error .tornTail) := by
  intro store blobs kept
  have stored : Stored store blobs := stored_run succeed
  have front : kept <+: blobs := within_front blobBytes n blobs
  have entries : (InMemoryEvidenceStore.ofBlobs kept).Entries kept :=
    InMemoryEvidenceStore.entries_ofBlobs (stored.digests.sublist (front.sublist.map sha256))
  have opens (recover : Bool) := stored.open_cut inFile recover
  refine ⟨⟨.ofBlobs kept, kept.flatMap blobBytes⟩, ?_, entries, rfl,
    treeHeadAt_prefix entries stored.entries front, fun inside => ?_, fun inside => ?_⟩
  · exact (opens true).trans (if_pos (.inr rfl))
  · exact (opens false).trans (if_pos (.inl inside))
  · exact (opens false).trans (if_neg (by simp [inside]))

def repeatedCalls : List (Bytes × Option Fault) := [([97], none), ([97], none), ([], none)]

theorem succeeds_without_fault (store : FileEvidenceStore) (blob : Bytes) :
    store.Succeeds (blob, none) := by
  cases known : (store.inner.blobs.lookup (sha256 blob)).isSome with
  | true => exact ⟨_, by rw [put_known none known]⟩
  | false =>
    have fresh := Option.isNone_iff_eq_none.mp (Option.isSome_eq_false_iff.mp known)
    exact ⟨_, by rw [put_fresh none fresh]⟩

theorem succeed_repeated : Along putCall Succeeds ⟨.new, []⟩ repeatedCalls :=
  ⟨succeeds_without_fault _ _, succeeds_without_fault _ _, succeeds_without_fault _ _, trivial⟩

theorem within_first (blob : Bytes) (rest : List Bytes) :
    within blobBytes (blobBytes blob).length (blob :: rest) = [blob] := by
  have nonempty (other : Bytes) : ¬ (blobBytes other).length ≤ 0 := by
    rw [blobBytes, recordBytes, length_utf8_concat]
    have := Char.utf8Size_pos '\n'
    omega
  rw [within, if_pos (Nat.le_refl _), Nat.sub_self]
  cases rest with
  | nil => rfl
  | cons other rest => rw [within, if_neg (nonempty other)]

theorem within_repeated : within blobBytes (blobBytes [97]).length
    (distinctBlobs (repeatedCalls.map Prod.fst)) = [[97]] := within_first [97] _

theorem boundary_repeated : AtBoundary blobBytes (blobBytes [97]).length
    (distinctBlobs (repeatedCalls.map Prod.fst)) := by
  rw [AtBoundary, within_repeated, List.flatMap_singleton]

theorem file_repeated :
    (blobBytes [97]).length ≤ (Kit.run putCall ⟨.new, []⟩ repeatedCalls).file.length := by
  rw [(stored_run succeed_repeated).file_eq, utf8_logText, List.flatMap_map]
  exact (List.prefix_append _ _).length_le

omit [External] in
/-- The log of the repeated puts is cut off behind its first line. -/
theorem cut_reopens_repeated :
    letI : External := reference
    ∃ reopened, «open» ((Kit.run putCall ⟨.new, []⟩ repeatedCalls).file.take
      (blobBytes [97]).length) = .ok reopened ∧ reopened.inner.order = [sha256 [97]] := by
  obtain ⟨reopened, -, entries, -, -, plain, -⟩ := @cut_reopens reference repeatedCalls
    (@succeed_repeated reference) _ (@file_repeated reference)
  rw [@within_repeated reference] at entries
  exact ⟨reopened, plain (@boundary_repeated reference),
    @InMemoryEvidenceStore.Entries.order_eq reference _ _ entries⟩

end FileEvidenceStore

end

end Treasury
