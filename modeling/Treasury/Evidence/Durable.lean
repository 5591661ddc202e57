import Treasury.Kit.Except
import Treasury.Evidence.File

/-! What a session of puts leaves on disk when the device may fail in any call:
which acknowledged entries can be read back from the file. -/
namespace Treasury
open Kit Kit.Json

namespace FileEvidenceStore
variable [External]

/-- The digests of the complete lines of a file that verify. -/
def completeRecords (file : Bytes) : List ContentHash :=
  match decodeUtf8 file with
  | none => []
  | some raw => (lines (splitTail raw.toList).1).filterMap fun line =>
    match readRecord 0 line with
    | .error _ => none
    | .ok blob => some (sha256 blob)

/-- The file ends where a line ends. -/
def AtLineEnd (file : Bytes) : Prop :=
  ∃ raw, decodeUtf8 file = some raw ∧ (splitTail raw.toList).2 = []

def Records (line : Line) (blob : Bytes) : Prop := ∀ index, readRecord index line = .ok blob

theorem records_iff {line : Line} {blob : Bytes} (index : Nat) :
    readRecord index line = .ok blob ↔ Records line blob := by
  refine ⟨fun h other => ?_, fun h => h index⟩
  revert h
  unfold readRecord
  repeat' split
  all_goals simp

theorem recordLine_eq_print (hash : ContentHash) (bytes : Bytes) :
    recordLine hash bytes = print json (.object
      [("hash", .string hash.toHex), ("blob", .string (hexEncode bytes))]) := by
  have first := json.plain hash.toHex (hexEncode_alphanum hash.bytes)
  have second := json.plain (hexEncode bytes) (hexEncode_alphanum bytes)
  have names : json.quote "hash" = "\"hash\"".toList ∧ json.quote "blob" = "\"blob\"".toList :=
    ⟨json.plain "hash" (by decide), json.plain "blob" (by decide)⟩
  simp [recordLine, print, printEntries, first, second, names.1, names.2]

theorem recordLine_printable (hash : ContentHash) (bytes : Bytes) :
    Printable (recordLine hash bytes) := by
  rw [recordLine_eq_print]
  exact print_printable json _ (by simp [Integral, IntegralEntries])

omit [External] in
theorem recordLine_ascii (hash : ContentHash) (bytes : Bytes) :
    Ascii (recordLine hash bytes ++ ['\n']) := by
  simp only [recordLine, String.toList_append]
  refine ((((Ascii.append ?_ ?_).append ?_).append ?_).append ?_).append ?_
  · exact ascii_of_all (by decide)
  · exact ascii_of_alphanum (hexEncode_alphanum _)
  · exact ascii_of_all (by decide)
  · exact ascii_of_alphanum (hexEncode_alphanum _)
  · exact ascii_of_all (by decide)
  · exact ascii_of_all (by decide)

theorem records_recordLine (bytes : Bytes) : Records (recordLine (sha256 bytes) bytes) bytes := by
  intro index
  have back := External.fromStr_print (.object
    [("hash", .string (sha256 bytes).toHex), ("blob", .string (hexEncode bytes))])
    (by simp [Integral, IntegralEntries]) (by simp [nesting, nestingEntries, recursionLimit])
  rw [← recordLine_eq_print] at back
  have members : lookup "hash" (ofEntries
        [("hash", .string (sha256 bytes).toHex), ("blob", .string (hexEncode bytes))]) =
      some (.string (sha256 bytes).toHex) ∧
      lookup "blob" (ofEntries
        [("hash", .string (sha256 bytes).toHex), ("blob", .string (hexEncode bytes))]) =
      some (.string (hexEncode bytes)) := by
    constructor <;> rw [lookup_ofEntries _ (by simp)] <;> simp [lookup]
  simp [readRecord, back, asRead, asReadEntries, textMember, members.1, members.2]

theorem replay_records (ls : List Line) (verified : ∀ l ∈ ls, ∃ blob, Records l blob)
    (index : Nat) (inner : InMemoryEvidenceStore) (addressed : inner.Addressed) :
    ∃ reopened, replay index ls inner = .ok reopened ∧ reopened.Addressed ∧
      ∀ hash, (reopened.blobs.lookup hash).isSome ↔
        (inner.blobs.lookup hash).isSome ∨ ∃ l ∈ ls, ∃ blob, Records l blob ∧ sha256 blob = hash := by
  induction ls generalizing index inner with
  | nil => exact ⟨inner, rfl, addressed, by simp⟩
  | cons l ls ih =>
    obtain ⟨blob, reads⟩ := verified l List.mem_cons_self
    obtain ⟨reopened, ok, kept, known⟩ := ih (fun m hm => verified m (List.mem_cons_of_mem _ hm))
      (index + 1) (inner.put blob).1 (InMemoryEvidenceStore.addressed_put addressed blob)
    refine ⟨reopened, bind_eq_ok.mpr ⟨blob, reads index, ok⟩, kept, fun hash => ?_⟩
    rw [known, InMemoryEvidenceStore.lookup_put_isSome]
    constructor
    · rintro ((rfl | old) | ⟨m, hm, later⟩)
      · exact .inr ⟨l, List.mem_cons_self, blob, reads, rfl⟩
      · exact .inl old
      · exact .inr ⟨m, List.mem_cons_of_mem _ hm, later⟩
    · rintro (old | ⟨m, hm, other, readsM, rfl⟩)
      · exact .inl (.inr old)
      · rcases List.mem_cons.mp hm with rfl | hm
        · have same : blob = other := Except.ok.inj ((reads 0).symm.trans (readsM 0))
          exact .inl (.inl (by rw [same]))
        · exact .inr ⟨m, hm, other, readsM, rfl⟩

theorem replay_verified (ls : List Line) (index : Nat) (inner reopened : InMemoryEvidenceStore)
    (ok : replay index ls inner = .ok reopened) : ∀ l ∈ ls, ∃ blob, Records l blob := by
  induction ls generalizing index inner with
  | nil => simp
  | cons l ls ih =>
    obtain ⟨blob, reads, rest⟩ := bind_eq_ok.mp ok
    intro m hm
    rcases List.mem_cons.mp hm with rfl | hm
    · exact ⟨blob, (records_iff index).mp reads⟩
    · exact ih _ _ rest m hm

/-- A file of lines that verify, and behind them a tail without a newline. -/
structure Sound (file : Bytes) (complete tail : List Char) : Prop extends
    Holds file complete tail where
  verified : ∀ l ∈ lines complete, ∃ blob, Records l blob

theorem Sound.mem_completeRecords {file : Bytes} {complete tail : List Char}
    (sound : Sound file complete tail) {hash : ContentHash} : hash ∈ completeRecords file ↔
      ∃ l ∈ lines complete, ∃ blob, Records l blob ∧ sha256 blob = hash := by
  obtain ⟨decoded, split⟩ := sound.splits
  simp only [completeRecords, decoded, String.toList_ofList, split, List.mem_filterMap]
  constructor
  · rintro ⟨l, hl, found⟩
    cases reads : readRecord 0 l with
    | error e => simp [reads] at found
    | ok blob =>
      simp only [reads, Option.some.injEq] at found
      exact ⟨l, hl, blob, (records_iff 0).mp reads, found⟩
  · rintro ⟨l, hl, blob, reads, rfl⟩
    exact ⟨l, hl, by simp [reads 0]⟩

theorem Sound.atLineEnd {file : Bytes} {complete tail : List Char}
    (sound : Sound file complete tail) : AtLineEnd file ↔ tail = [] := by
  obtain ⟨decoded, split⟩ := sound.splits
  simp [AtLineEnd, decoded, split]

theorem Sound.recovers {file : Bytes} {complete tail : List Char}
    (sound : Sound file complete tail) : ∃ reopened, openWithRecovery file = .ok reopened ∧
      ∀ hash ∈ completeRecords file, reopened.inner.Serves hash := by
  obtain ⟨inner, ok, addressed, known⟩ := replay_records (lines complete) sound.verified 0 .new
    InMemoryEvidenceStore.addressed_new
  refine ⟨⟨inner, utf8 (String.ofList complete)⟩, ?_, fun hash recorded => ?_⟩
  · rw [openWithRecovery, openInternal, sound.openLog_eq _ _ _ true (.inr rfl), ok]
    rfl
  · rw [InMemoryEvidenceStore.serves_iff addressed, known]
    exact .inr (sound.mem_completeRecords.mp recorded)

theorem sound_of_open {file : Bytes} {recover : Bool} {store : FileEvidenceStore}
    (opened : openInternal file recover = .ok store) : ∃ complete, Sound store.file complete [] := by
  obtain ⟨⟨inner, kept⟩, log, result⟩ := bind_eq_ok.mp opened
  cases Except.ok.inj result
  obtain ⟨complete, holds, replayed⟩ := openLog_eq_ok log
  exact ⟨complete, holds, replay_verified _ _ _ _ replayed⟩

theorem Sound.write_record {file : Bytes} {complete : List Char} (sound : Sound file complete [])
    (bytes : Bytes) : Sound (file ++ recordBytes (sha256 bytes) bytes)
      (complete ++ (recordLine (sha256 bytes) bytes ++ ['\n'])) [] where
  toHolds := sound.write_line _
  verified := by
    intro l hl
    rw [lines_append sound.closed, lines_line (recordLine_printable _ _), List.mem_append] at hl
    rcases hl with old | new
    · exact sound.verified l old
    · exact ⟨bytes, List.mem_singleton.mp new ▸ records_recordLine bytes⟩

theorem Sound.mem_write_record {file : Bytes} {complete : List Char} (sound : Sound file complete [])
    (bytes : Bytes) : recordLine (sha256 bytes) bytes ∈
      lines (complete ++ (recordLine (sha256 bytes) bytes ++ ['\n'])) := by
  rw [lines_append sound.closed, lines_line (recordLine_printable _ _)]
  simp

theorem Sound.mem_of_longer {file longer : Bytes} {complete tail more rest : List Char}
    (sound : Sound file complete tail) (grown : Sound longer (complete ++ more) rest)
    {hash : ContentHash} (h : hash ∈ completeRecords file) : hash ∈ completeRecords longer := by
  obtain ⟨l, hl, blob, reads⟩ := sound.mem_completeRecords.mp h
  refine grown.mem_completeRecords.mpr ⟨l, ?_, blob, reads⟩
  rw [lines_append sound.closed]
  exact List.mem_append_left _ hl

theorem reached_record (hash : ContentHash) (bytes : Bytes) (fault : Option Fault) :
    reached fault (recordBytes hash bytes) = recordBytes hash bytes ∨
      ∃ f part, fault = some f ∧ '\n' ∉ part ∧
        reached fault (recordBytes hash bytes) = utf8 (String.ofList part) := by
  cases fault with
  | none => exact .inl rfl
  | some f =>
    simp only [reached, recordBytes, take_utf8 (recordLine_ascii hash bytes)]
    by_cases short : f.after ≤ (recordLine hash bytes).length
    · refine .inr ⟨f, _, rfl, ?_, rfl⟩
      rw [List.take_append_of_le_length short]
      exact fun h => (recordLine_printable hash bytes).newline (List.mem_of_mem_take h)
    · exact .inl (by rw [List.take_of_length_le (by simp; omega)])

theorem put_known {store : FileEvidenceStore} {bytes : Bytes} (fault : Option Fault)
    (known : (store.inner.blobs.lookup (sha256 bytes)).isSome) :
    store.put bytes fault = (store, .ok (sha256 bytes)) := by
  obtain ⟨old, entry⟩ := Option.isSome_iff_exists.mp known
  simp [put, InMemoryEvidenceStore.put_known entry]

/-- New bytes are in memory afterwards whether or not their record was written. -/
theorem put_fresh {store : FileEvidenceStore} {bytes : Bytes} (fault : Option Fault)
    (fresh : store.inner.blobs.lookup (sha256 bytes) = none) :
    store.put bytes fault =
      (⟨(store.inner.put bytes).1,
          store.file ++ reached fault (recordBytes (sha256 bytes) bytes)⟩,
        match fault with
        | none => .ok (sha256 bytes)
        | some f => .error (.backend (FileStoreError.io f.message).toString)) := by
  have longer := (InMemoryEvidenceStore.len_put store.inner bytes).mpr fresh
  simp only [put, InMemoryEvidenceStore.put_hash, longer, if_true, persist, writeParts_eq,
    List.flatten_cons, List.flatten_nil, List.append_nil]
  cases fault <;> rfl

/-- A store in use, and the digests for which some put has returned `Ok`. -/
structure Session where
  store : FileEvidenceStore
  acked : List ContentHash

def Session.put (s : Session) (call : Bytes × Option Fault) : Session :=
  match s.store.put call.1 call.2 with
  | (store, .ok hash) => ⟨store, s.acked ++ [hash]⟩
  | (store, .error _) => ⟨store, s.acked⟩

/-- Every acknowledged digest has a complete record, and recovery serves it. -/
def Session.Durable (s : Session) : Prop :=
  (∀ hash ∈ s.acked, hash ∈ completeRecords s.store.file) ∧
    ∃ reopened, openWithRecovery s.store.file = .ok reopened ∧
      ∀ hash ∈ s.acked, reopened.inner.Serves hash

/-- A put of bytes that the store holds finds their record in the file, and a
record that is written whole starts on a line of its own. -/
def Session.Recorded (s : Session) (call : Bytes × Option Fault) : Prop :=
  if (s.store.inner.blobs.lookup (sha256 call.1)).isSome then
    sha256 call.1 ∈ completeRecords s.store.file
  else reached call.2 (recordBytes (sha256 call.1) call.1) = recordBytes (sha256 call.1) call.1 →
    AtLineEnd s.store.file

/-- The invariant of a session whose puts are all recorded. -/
def Session.Backed (s : Session) : Prop :=
  (∃ complete tail, Sound s.store.file complete tail) ∧
    ∀ hash ∈ s.acked, hash ∈ completeRecords s.store.file

theorem Session.Backed.durable {s : Session} (backed : s.Backed) : s.Durable := by
  obtain ⟨⟨complete, tail, sound⟩, acked⟩ := backed
  obtain ⟨reopened, ok, serves⟩ := sound.recovers
  exact ⟨acked, reopened, ok, fun hash h => serves hash (acked hash h)⟩

theorem Session.put_known (s : Session) (bytes : Bytes) (fault : Option Fault)
    (known : (s.store.inner.blobs.lookup (sha256 bytes)).isSome) :
    s.put (bytes, fault) = ⟨s.store, s.acked ++ [sha256 bytes]⟩ := by
  simp [Session.put, FileEvidenceStore.put_known fault known]

theorem Session.put_fresh (s : Session) (bytes : Bytes) (fault : Option Fault)
    (fresh : s.store.inner.blobs.lookup (sha256 bytes) = none) :
    s.put (bytes, fault) =
      ⟨⟨(s.store.inner.put bytes).1,
          s.store.file ++ reached fault (recordBytes (sha256 bytes) bytes)⟩,
        if fault = none then s.acked ++ [sha256 bytes] else s.acked⟩ := by
  cases fault <;> simp [Session.put, FileEvidenceStore.put_fresh _ fresh]

theorem Session.backed_put (s : Session) (call : Bytes × Option Fault) (backed : s.Backed)
    (recorded : s.Recorded call) : (s.put call).Backed := by
  obtain ⟨⟨complete, tail, sound⟩, acked⟩ := backed
  obtain ⟨bytes, fault⟩ := call
  by_cases known : (s.store.inner.blobs.lookup (sha256 bytes)).isSome
  · simp only [Recorded, known, if_true] at recorded
    rw [s.put_known bytes fault known]
    refine ⟨⟨complete, tail, sound⟩, fun hash h => ?_⟩
    rcases List.mem_append.mp h with old | new
    · exact acked hash old
    · rw [List.mem_singleton.mp new]
      exact recorded
  · simp only [Recorded, known] at recorded
    rw [Bool.not_eq_true, Option.isSome_eq_false_iff, Option.isNone_iff_eq_none] at known
    rw [s.put_fresh bytes fault known]
    rcases reached_record (sha256 bytes) bytes fault with whole | ⟨f, part, rfl, unfinished, text⟩
    · have first : tail = [] := sound.atLineEnd.mp (recorded whole)
      subst first
      have longer := sound.write_record bytes
      have new := longer.mem_completeRecords.mpr
        ⟨_, sound.mem_write_record bytes, bytes, records_recordLine bytes, rfl⟩
      rw [whole]
      refine ⟨⟨_, _, longer⟩, fun hash h => ?_⟩
      dsimp only at h ⊢
      split_ifs at h
      · rcases List.mem_append.mp h with old | now
        · exact sound.mem_of_longer longer (acked hash old)
        · rw [List.mem_singleton.mp now]
          exact new
      · exact sound.mem_of_longer longer (acked hash h)
    · have longer : Sound (s.store.file ++ utf8 (String.ofList part)) (complete ++ [])
          (tail ++ part) := by
        rw [List.append_nil]
        exact ⟨sound.write_part unfinished, sound.verified⟩
      rw [text, if_neg (by simp)]
      exact ⟨⟨_, _, longer⟩, fun hash h => sound.mem_of_longer longer (acked hash h)⟩

theorem not_durable_of_unrecorded (s : Session) (bytes : Bytes) (fault : Option Fault)
    (known : (s.store.inner.blobs.lookup (sha256 bytes)).isSome)
    (missing : sha256 bytes ∉ completeRecords s.store.file) : ¬ (s.put (bytes, fault)).Durable := by
  rw [s.put_known bytes fault known]
  intro durable
  exact missing (durable.1 (sha256 bytes) (by simp))

/-- A session that starts from an opened file and in which every put finds the
file as it must be is durable throughout. -/
theorem session_durable (file : Bytes) (recover : Bool) (store : FileEvidenceStore)
    (opened : openInternal file recover = .ok store) (calls : List (Bytes × Option Fault))
    (recorded : Along Session.put Session.Recorded ⟨store, []⟩ calls) :
    Throughout Session.put Session.Durable ⟨store, []⟩ calls := by
  obtain ⟨complete, sound⟩ := sound_of_open opened
  have start : Session.Backed ⟨store, []⟩ := ⟨⟨complete, [], sound⟩, by simp⟩
  exact (throughout_guarded Session.put Session.Recorded Session.Backed Session.backed_put calls _
    start recorded).imp fun _ => Session.Backed.durable

theorem open_new (recover : Bool) : openInternal [] recover = .ok ⟨.new, []⟩ := by
  rw [openInternal, holds_nil.openLog_eq _ _ _ recover (.inl rfl)]
  rfl

/-- Nothing of the first record reaches the disk, and the same bytes are put again:
the second put is acknowledged and the file is empty. -/
theorem retried_not_durable (bytes : Bytes) (message : String) :
    ¬ Throughout Session.put Session.Durable ⟨⟨.new, []⟩, []⟩
      [(bytes, some ⟨0, message⟩), (bytes, none)] := by
  rintro ⟨_, _, durable⟩
  have first := Session.put_fresh ⟨⟨.new, []⟩, []⟩ bytes (some ⟨0, message⟩)
    (InMemoryEvidenceStore.lookup_new _)
  rw [first] at durable
  refine not_durable_of_unrecorded _ bytes none ?_ ?_ durable
  · exact (InMemoryEvidenceStore.lookup_put_isSome _ _ _).mpr (.inl rfl)
  · have empty : decodeUtf8 [] = some "" := decodeUtf8_utf8 ""
    simp [reached, completeRecords, empty, splitTail, lines, linesFrom]

omit [External] in
theorem retry_not_durable :
    letI : External := reference
    openWithRecovery [] = .ok ⟨.new, []⟩ ∧
      ¬ Throughout Session.put Session.Durable ⟨⟨.new, []⟩, []⟩
        [([97], some ⟨0, "no space left on device"⟩), ([97], none)] :=
  let _ : External := reference
  ⟨open_new true, retried_not_durable [97] "no space left on device"⟩

omit [External] in
theorem session_durable_torn :
    letI : External := reference
    Throughout Session.put Session.Durable ⟨⟨.new, []⟩, []⟩
      [([97], none), ([98], some ⟨5, "no space left on device"⟩)] := by
  let _ : External := reference
  have empty : decodeUtf8 [] = some "" := decodeUtf8_utf8 ""
  have first := Session.put_fresh ⟨⟨.new, []⟩, []⟩ [97] none (InMemoryEvidenceStore.lookup_new _)
  have other : sha256 [98] ≠ sha256 [97] := by decide +kernel
  have fresh : (InMemoryEvidenceStore.new.put [97]).1.blobs.lookup (sha256 [98]) = none := by
    rw [InMemoryEvidenceStore.put_fresh (InMemoryEvidenceStore.lookup_new _),
      Finmap.lookup_insert_of_ne _ other]
    exact InMemoryEvidenceStore.lookup_new _
  refine session_durable [] true _ (open_new true) _ ⟨?_, ?_, trivial⟩
  · simp [Session.Recorded, AtLineEnd, empty, splitTail]
  · have short : ¬ reached (some ⟨5, "no space left on device"⟩) (recordBytes (sha256 [98]) [98]) =
        recordBytes (sha256 [98]) [98] := by
      intro same
      have long : 5 < (recordBytes (sha256 [98]) [98]).length := by
        rw [recordBytes, utf8_ascii (recordLine_ascii _ _)]
        simp [recordLine]
      have short := congrArg List.length same
      simp only [reached, List.length_take] at short
      omega
    rw [first]
    simp [Session.Recorded, fresh, short]

end FileEvidenceStore

end Treasury
