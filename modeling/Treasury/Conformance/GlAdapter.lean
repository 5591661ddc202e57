import Mathlib.Data.Multiset.Count
import Treasury.Gl.Drive

/-! The contract of a general-ledger adapter. The suite submits one batch four times and
compares what the ledger lists with the batch twice, as sets, so that what it accepts may hold
an entry more than once and may change with the two last submissions. -/
namespace Treasury
open Kit

inductive ContractViolation where
  | notPosted
  | readbackMismatch (missing unexpected : List ContentHash)
  | notIdempotent (first second : String)
  | underlying (message : String)
  deriving DecidableEq

/-- What a ledger holds under a key, entries as often as it holds them. -/
structure GlHolding where
  glRef : Option String
  entryHashes : Multiset ContentHash

variable {G : Type}

/-- Reading a key back lists what the ledger holds under it. -/
def GlAdapter.Truthful (adapter : GlAdapter G) (stored : G → ContentHash → GlHolding) : Prop :=
  ∀ gl key readback, adapter.readBack gl key = .ok readback →
    readback.glRef = (stored gl key).glRef ∧ ↑readback.entryHashes = (stored gl key).entryHashes

namespace Conformance

abbrev Check (G : Type) := Steps G ContractViolation

def underlying {ε α : Type} (display : ε → String) (m : G → G × Except ε α) : Check G α :=
  fun gl => ((m gl).1, (m gl).2.mapError fun e => .underlying (display e))

def consult {ε α : Type} (display : ε → String) (look : G → Except ε α) : Check G α :=
  underlying display fun gl => (gl, look gl)

def missingFrom (left right : List ContentHash) : List ContentHash := left.filter (· ∉ right)

section
variable [External]

def verifyDriveVerifies (adapter : GlAdapter G) (batch : PostingBatch) (preparer approver : ActorId) :
    Check G Unit := fun gl =>
  match Drive.postBatch adapter batch preparer approver (.new, gl) with
  | ((_, gl), .ok (.verified _)) => (gl, .ok ())
  | ((_, gl), .ok (.verificationFailed missing unexpected)) =>
    (gl, .error (.readbackMismatch missing unexpected))
  | ((_, gl), .ok .retryableNotPosted) => (gl, .error .notPosted)
  | ((_, gl), .error e) => (gl, .error (.underlying e.display))

def verifyReadbackFidelity (adapter : GlAdapter G) (batch : PostingBatch) : Check G Unit := do
  let key ← consult CanonError.display fun _ => batch.batchId
  let fingerprint ← consult CanonError.display fun _ => batch.entryFingerprint
  let _ ← underlying GlError.display fun gl => adapter.submit gl batch key
  let readback ← consult GlError.display fun gl => adapter.readBack gl key
  if readback.glRef.isNone then Steps.fail .notPosted
  else
    let missing := missingFrom fingerprint readback.entryHashes
    let unexpected := missingFrom readback.entryHashes fingerprint
    if ¬missing.isEmpty ∨ ¬unexpected.isEmpty then
      Steps.fail (.readbackMismatch missing unexpected)
    else return ()

/-- Two acknowledgements that name different references. -/
def clash : SubmitOutcome → SubmitOutcome → Option (String × String)
  | .acknowledged a _, .acknowledged b _ => if a ≠ b then some (a, b) else none
  | _, _ => none

def verifyIdempotentSubmit (adapter : GlAdapter G) (batch : PostingBatch) : Check G Unit := do
  let key ← consult CanonError.display fun _ => batch.batchId
  let first ← underlying GlError.display fun gl => adapter.submit gl batch key
  let second ← underlying GlError.display fun gl => adapter.submit gl batch key
  match clash first second with
  | some (a, b) => Steps.fail (.notIdempotent a b)
  | none =>
    let readback ← consult GlError.display fun gl => adapter.readBack gl key
    if readback.glRef.isNone then Steps.fail .notPosted else return ()

def verifyGlAdapterContract (adapter : GlAdapter G) (batch : PostingBatch)
    (preparer approver : ActorId) : Check G Unit := do
  verifyDriveVerifies adapter batch preparer approver
  verifyReadbackFidelity adapter batch
  verifyIdempotentSubmit adapter batch

end

theorem underlying_eq_ok {ε α : Type} {display : ε → String} {m : G → G × Except ε α} {gl next : G}
    {a : α} : underlying display m gl = (next, .ok a) ↔ m gl = (next, .ok a) := by
  simp only [underlying, Prod.ext_iff, mapError_eq_ok]

theorem consult_eq_ok {ε α : Type} {display : ε → String} {look : G → Except ε α} {gl next : G} {a : α} :
    consult display look gl = (next, .ok a) ↔ gl = next ∧ look gl = .ok a :=
  underlying_eq_ok.trans (by rw [Prod.mk.injEq])

theorem consult_readBack {adapter : GlAdapter G} {gl : G} {key : ContentHash} {readback : GlReadback}
    (shown : adapter.readBack gl key = .ok readback) :
    consult GlError.display (fun gl => adapter.readBack gl key) gl = (gl, .ok readback) :=
  consult_eq_ok.mpr ⟨rfl, shown⟩

theorem missingFrom_isEmpty {left right : List ContentHash} :
    (missingFrom left right).isEmpty ↔ ∀ h ∈ left, h ∈ right := by
  simp [missingFrom, List.filter_eq_nil_iff]

theorem posted_iff {glRef : Option String} : ¬glRef.isNone ↔ glRef.isSome := by
  rw [Bool.not_eq_true, Option.isNone_eq_false_iff]

variable [External] {adapter : GlAdapter G} {batch : PostingBatch} {preparer approver : ActorId}

/-- The state after so many submissions of the batch under its id. -/
def submissions (adapter : GlAdapter G) (batch : PostingBatch) (gl : G) : Nat → G
  | 0 => gl
  | n + 1 => (adapter.submit (submissions adapter batch gl n) batch batch.key).1

/-- The ledger has a record under the batch id that lists the entries of the batch and no
others, some of them perhaps more than once. -/
def Shows (adapter : GlAdapter G) (batch : PostingBatch) (gl : G) : Prop :=
  ∃ readback, adapter.readBack gl batch.key = .ok readback ∧ readback.glRef.isSome ∧
    ∀ h, h ∈ batch.hashes ↔ h ∈ readback.entryHashes

theorem consult_batchId (batch : PostingBatch) (gl : G) :
    consult CanonError.display (fun _ => batch.batchId) gl = (gl, .ok batch.key) :=
  consult_eq_ok.mpr ⟨rfl, batch.batchId_eq⟩

theorem consult_fingerprint (batch : PostingBatch) (gl : G) :
    consult CanonError.display (fun _ => batch.entryFingerprint) gl =
      (gl, .ok (PostingBatch.fingerprint batch.hashes)) :=
  consult_eq_ok.mpr ⟨rfl, batch.entryFingerprint_eq⟩

/-- The entries of the batch and no others are listed under the batch id, some of them perhaps
more than once. -/
def Lists (adapter : GlAdapter G) (batch : PostingBatch) (gl : G) : Prop :=
  ∃ readback, adapter.readBack gl batch.key = .ok readback ∧
    ∀ h, h ∈ batch.hashes ↔ h ∈ readback.entryHashes

theorem Shows.lists {gl : G} (shows : Shows adapter batch gl) : Lists adapter batch gl := by
  obtain ⟨readback, shown, _, exact⟩ := shows
  exact ⟨readback, shown, exact⟩

theorem verifyDriveVerifies_ok {gl next : G}
    (verified : verifyDriveVerifies adapter batch preparer approver gl = (next, .ok ())) :
    next = (adapter.submit gl batch batch.key).1 ∧ Lists adapter batch next := by
  rcases driven : Drive.postBatch adapter batch preparer approver (.new, gl) with ⟨⟨p, held⟩, result⟩
  simp only [verifyDriveVerifies, driven] at verified
  rcases result with e | result
  · cases verified
  · cases result with
    | verified glRef =>
      obtain ⟨rfl, _⟩ := Prod.mk.inj verified
      have next : held = (adapter.submit gl batch batch.key).1 := Drive.postBatch_gl driven
      subst next
      have unseen : PostingProtocol.new.state batch.key = none := Finmap.lookup_empty _
      exact ⟨rfl, Drive.postBatch_verified (Docket.item_empty _) unseen driven⟩
    | _ => cases verified

theorem verifyReadbackFidelity_ok {gl next : G} :
    verifyReadbackFidelity adapter batch gl = (next, .ok ()) ↔
      (∃ answer, adapter.submit gl batch batch.key = (next, .ok answer)) ∧ Shows adapter batch next := by
  have tied (readback : GlReadback) :
      ¬(¬(missingFrom (PostingBatch.fingerprint batch.hashes) readback.entryHashes).isEmpty ∨
        ¬(missingFrom readback.entryHashes (PostingBatch.fingerprint batch.hashes)).isEmpty) ↔
      ∀ h, h ∈ batch.hashes ↔ h ∈ readback.entryHashes := by
    simp only [not_or, not_not, missingFrom_isEmpty, PostingBatch.mem_fingerprint, iff_def, forall_and]
  unfold verifyReadbackFidelity
  rw [Steps.bind_of_ok (consult_batchId batch gl), Steps.bind_of_ok (consult_fingerprint batch gl)]
  constructor
  · intro accepted
    obtain ⟨t, answer, taken, rest⟩ := Steps.bind_eq_ok.mp accepted
    obtain ⟨u, readback, looked, rest⟩ := Steps.bind_eq_ok.mp rest
    obtain ⟨rfl, shown⟩ := consult_eq_ok.mp looked
    split at rest
    · cases rest
    · rename_i present
      dsimp only at rest
      split at rest
      · cases rest
      · rename_i equal
        obtain ⟨rfl, _⟩ := Prod.mk.inj rest
        exact ⟨⟨answer, underlying_eq_ok.mp taken⟩, readback, shown, posted_iff.mp present,
          (tied readback).mp equal⟩
  · rintro ⟨⟨answer, taken⟩, readback, shown, present, equal⟩
    refine (Steps.bind_of_ok (underlying_eq_ok.mpr taken)).trans ?_
    refine (Steps.bind_of_ok (consult_readBack shown)).trans ?_
    rw [if_neg (posted_iff.mpr present), if_neg ((tied readback).mpr equal)]
    rfl

theorem verifyIdempotentSubmit_ok {gl next : G} :
    verifyIdempotentSubmit adapter batch gl = (next, .ok ()) ↔
      ∃ between first second readback, adapter.submit gl batch batch.key = (between, .ok first) ∧
        adapter.submit between batch batch.key = (next, .ok second) ∧ clash first second = none ∧
        adapter.readBack next batch.key = .ok readback ∧ readback.glRef.isSome := by
  unfold verifyIdempotentSubmit
  rw [Steps.bind_of_ok (consult_batchId batch gl)]
  constructor
  · intro accepted
    obtain ⟨between, first, taken, rest⟩ := Steps.bind_eq_ok.mp accepted
    obtain ⟨t, second, again, rest⟩ := Steps.bind_eq_ok.mp rest
    cases agree : clash first second with
    | some pair =>
      rw [agree] at rest
      cases rest
    | none =>
      rw [agree] at rest
      obtain ⟨u, readback, looked, rest⟩ := Steps.bind_eq_ok.mp rest
      obtain ⟨rfl, shown⟩ := consult_eq_ok.mp looked
      split at rest
      · cases rest
      · rename_i present
        obtain ⟨rfl, _⟩ := Prod.mk.inj rest
        exact ⟨between, first, second, readback, underlying_eq_ok.mp taken, underlying_eq_ok.mp again,
          agree, shown, posted_iff.mp present⟩
  · rintro ⟨between, first, second, readback, taken, again, agree, shown, present⟩
    refine (Steps.bind_of_ok (underlying_eq_ok.mpr taken)).trans ?_
    refine (Steps.bind_of_ok (underlying_eq_ok.mpr again)).trans ?_
    simp only [agree]
    refine (Steps.bind_of_ok (consult_readBack shown)).trans ?_
    rw [if_neg (posted_iff.mpr present)]
    rfl

/-- What the suite knows of an adapter it accepts: it has submitted the batch four times, and
has compared it with what the ledger lists after the first and the second, as sets. -/
theorem verifyGlAdapterContract_ok {gl final : G}
    (accepted : verifyGlAdapterContract adapter batch preparer approver gl = (final, .ok ())) :
    final = submissions adapter batch gl 4 ∧ Lists adapter batch (submissions adapter batch gl 1) ∧
      Lists adapter batch (submissions adapter batch gl 2) := by
  obtain ⟨first, _, driven, rest⟩ := Steps.bind_eq_ok.mp accepted
  obtain ⟨sent, listed⟩ := verifyDriveVerifies_ok driven
  obtain rfl : first = submissions adapter batch gl 1 := sent
  obtain ⟨second, _, read, rest⟩ := Steps.bind_eq_ok.mp rest
  obtain ⟨⟨_, again⟩, shown⟩ := verifyReadbackFidelity_ok.mp read
  obtain rfl : submissions adapter batch gl 2 = second := congrArg Prod.fst again
  obtain ⟨third, _, _, _, taken, last, _, _, _⟩ := verifyIdempotentSubmit_ok.mp rest
  obtain rfl : submissions adapter batch gl 3 = third := congrArg Prod.fst taken
  exact ⟨(congrArg Prod.fst last).symm, listed, shown.lists⟩

theorem verifyGlAdapterContract_acknowledged (different : preparer ≠ approver) {glRef : String}
    {raw : Bytes} {gl : G} (acknowledged : ∀ n, (adapter.submit (submissions adapter batch gl n) batch
      batch.key).2 = .ok (.acknowledged glRef raw))
    (shows : ∀ n, Shows adapter batch (submissions adapter batch gl (n + 1))) :
    verifyGlAdapterContract adapter batch preparer approver gl = (submissions adapter batch gl 4, .ok ()) := by
  have taken (n : Nat) : adapter.submit (submissions adapter batch gl n) batch batch.key =
      (submissions adapter batch gl (n + 1), .ok (.acknowledged glRef raw)) :=
    Prod.ext rfl (acknowledged n)
  have driven : verifyDriveVerifies adapter batch preparer approver gl =
      (submissions adapter batch gl 1, .ok ()) := by
    obtain ⟨q, submitting, registered, posted⟩ := @Drive.postBatch_fresh _ _ adapter batch preparer
      approver .new (Docket.item_empty _) (Finmap.lookup_empty _) different gl
    obtain ⟨readback, shown, _, exact⟩ := shows 0
    have verified := Drive.submitted_acknowledged submitting registered shown exact glRef raw
    have kept := Drive.keepsSecond_submitted adapter batch.key (.acknowledged glRef raw)
      (q, submissions adapter batch gl 1)
    unfold verifyDriveVerifies
    rw [posted _ _ (taken 0)]
    generalize Drive.submitted adapter batch.key (.acknowledged glRef raw)
      (q, submissions adapter batch gl 1) = result at verified kept
    obtain ⟨⟨p, held⟩, result⟩ := result
    subst verified kept
    rfl
  have read := verifyReadbackFidelity_ok.mpr ⟨⟨_, taken 1⟩, shows 1⟩
  obtain ⟨readback, shown, present, _⟩ := shows 3
  have agree : clash (.acknowledged glRef raw) (.acknowledged glRef raw) = none := if_neg (not_not.mpr rfl)
  have idempotent := verifyIdempotentSubmit_ok.mpr ⟨_, _, _, _, taken 2, taken 3, agree, shown, present⟩
  exact (Steps.bind_of_ok driven).trans ((Steps.bind_of_ok read).trans idempotent)

/-- How often the ledger holds an entry under the batch id after so many submissions. -/
def copies (adapter : GlAdapter G) (stored : G → ContentHash → GlHolding) (batch : PostingBatch) (gl : G)
    (n : Nat) (h : ContentHash) : Nat :=
  (stored (submissions adapter batch gl n) batch.key).entryHashes.count h

/-- The ledger ends up with each entry of the batch exactly once under the batch id, and has held
it once from the first submission on, so that no submission of the same key stored it again. -/
structure PostsOnce (adapter : GlAdapter G) (stored : G → ContentHash → GlHolding) (batch : PostingBatch)
    (gl final : G) : Prop where
  once : ∀ h ∈ batch.hashes, (stored final batch.key).entryHashes.count h = 1
  never_again : ∀ h ∈ batch.hashes, ∀ n, 1 ≤ n → n ≤ 4 → copies adapter stored batch gl n h = 1

/-- To submit the batch in this state of the ledger stores an entry that is not there at most once,
stores none again and takes none away. -/
def Deduplicates (adapter : GlAdapter G) (stored : G → ContentHash → GlHolding) (batch : PostingBatch)
    (gl : G) : Prop :=
  ∀ h ∈ batch.hashes,
    let before := (stored gl batch.key).entryHashes.count h
    let after := (stored (adapter.submit gl batch batch.key).1 batch.key).entryHashes.count h
    after ≤ max 1 before ∧ (0 < before → 0 < after)

theorem copies_listed {stored : G → ContentHash → GlHolding} (truthful : adapter.Truthful stored)
    {gl : G} {n : Nat} (lists : Lists adapter batch (submissions adapter batch gl n)) {h : ContentHash}
    (mem : h ∈ batch.hashes) : 0 < copies adapter stored batch gl n h := by
  obtain ⟨readback, shown, exact⟩ := lists
  obtain ⟨_, held⟩ := truthful _ _ _ shown
  have listed := (exact h).mp mem
  rw [copies, Multiset.count_pos, ← held]
  exact Multiset.mem_coe.mpr listed

section
variable {stored : G → ContentHash → GlHolding} {gl : G} {h : ContentHash}

theorem deduplicates_of_once {n : Nat}
    (once : ∀ h ∈ batch.hashes, copies adapter stored batch gl (n + 1) h = 1) :
    Deduplicates adapter stored batch (submissions adapter batch gl n) := fun h mem =>
  ⟨(once h mem).le.trans (le_max_left _ _), fun _ => Nat.lt_of_lt_of_eq one_pos (once h mem).symm⟩

theorem Deduplicates.copies_succ {n : Nat}
    (deduplicates : Deduplicates adapter stored batch (submissions adapter batch gl n))
    (mem : h ∈ batch.hashes) (once : copies adapter stored batch gl n h = 1) :
    copies adapter stored batch gl (n + 1) h = 1 := by
  obtain ⟨few, kept⟩ := deduplicates h mem
  have before : (stored (submissions adapter batch gl n) batch.key).entryHashes.count h = 1 := once
  rw [before] at few kept
  exact Nat.le_antisymm few (kept one_pos)

theorem copies_run {bound : Nat} (deduplicates : ∀ n < bound, Deduplicates adapter stored batch
      (submissions adapter batch gl n)) (mem : h ∈ batch.hashes)
    (start : (stored gl batch.key).entryHashes.count h ≤ 1)
    (listed : 0 < copies adapter stored batch gl 1 h) {n : Nat} (sent : 1 ≤ n) (within : n ≤ bound) :
    copies adapter stored batch gl n h = 1 := by
  induction n, sent using Nat.le_induction with
  | base =>
    have few : copies adapter stored batch gl 1 h ≤
        max 1 ((stored gl batch.key).entryHashes.count h) := (deduplicates 0 within h mem).1
    rw [max_eq_left start] at few
    exact Nat.le_antisymm few listed
  | succ n _ ih => exact (deduplicates n within).copies_succ mem (ih (Nat.le_of_succ_le within))

end

section
variable (batch)

theorem fixture_submissions (n : Nat) :
    submissions FixtureGl.adapter batch .new (n + 1) = FixtureGl.storing batch batch.key := by
  induction n with
  | zero => exact congrArg Prod.fst (FixtureGl.submit_new batch batch.key)
  | succ n ih =>
    rw [submissions, ih]
    exact congrArg Prod.fst (FixtureGl.submit_storing batch batch.key)

theorem fixture_conforms (different : preparer ≠ approver) :
    verifyGlAdapterContract FixtureGl.adapter batch preparer approver .new =
      (FixtureGl.storing batch batch.key, .ok ()) := by
  have acknowledged (n : Nat) : (FixtureGl.adapter.submit (submissions FixtureGl.adapter batch .new n)
      batch batch.key).2 = .ok (.acknowledged "JE-1" (utf8 "fixture-ack")) := by
    cases n with
    | zero => exact congrArg Prod.snd (FixtureGl.submit_new batch batch.key)
    | succ n =>
      rw [fixture_submissions]
      exact congrArg Prod.snd (FixtureGl.submit_storing batch batch.key)
  have shows (n : Nat) : Shows FixtureGl.adapter batch (submissions FixtureGl.adapter batch .new (n + 1)) := by
    rw [fixture_submissions]
    exact ⟨_, FixtureGl.readBack_storing batch batch.key, rfl, fun h => PostingBatch.mem_fingerprint.symm⟩
  have accepted := verifyGlAdapterContract_acknowledged different acknowledged shows
  rwa [fixture_submissions] at accepted

end

def fixtureStored (gl : FixtureGl) (key : ContentHash) : GlHolding :=
  match gl.readBack key with
  | .ok readback => ⟨readback.glRef, readback.entryHashes⟩
  | .error _ => ⟨none, 0⟩

theorem fixture_truthful : FixtureGl.adapter.Truthful fixtureStored := by
  intro gl key readback shown
  have shown : gl.readBack key = .ok readback := shown
  simp only [fixtureStored, shown, and_self]

/-- A ledger that stores a batch once more at each submission, always under one reference. -/
def appending : GlAdapter (ContentHash → List ContentHash) where
  submit gl batch key :=
    (Function.update gl key (gl key ++ batch.hashes), .ok (.acknowledged "JE-1" []))
  readBack gl key := .ok ⟨if (gl key).isEmpty then none else some "JE-1", gl key, []⟩

def appendingStored (gl : ContentHash → List ContentHash) (key : ContentHash) : GlHolding :=
  ⟨if (gl key).isEmpty then none else some "JE-1", gl key⟩

theorem appending_truthful : appending.Truthful appendingStored := by
  intro gl key readback shown
  obtain rfl := Except.ok.inj shown
  exact ⟨rfl, rfl⟩

theorem appending_submissions (batch : PostingBatch) (n : Nat) :
    submissions appending batch (fun _ => []) n batch.key = (List.replicate n batch.hashes).flatten := by
  induction n with
  | zero => rfl
  | succ n ih =>
    have next : submissions appending batch (fun _ => []) (n + 1) batch.key =
        submissions appending batch (fun _ => []) n batch.key ++ batch.hashes := Function.update_self ..
    rw [next, ih, List.replicate_succ', List.flatten_concat]

theorem appending_conforms {batch : PostingBatch} (some_entry : batch.hashes ≠ [])
    (different : preparer ≠ approver) :
    verifyGlAdapterContract appending batch preparer approver (fun _ => []) =
      (submissions appending batch (fun _ => []) 4, .ok ()) := by
  refine verifyGlAdapterContract_acknowledged different (fun _ => rfl) fun n => ⟨_, rfl, ?_, fun h => ?_⟩
  · simp [appending_submissions, some_entry]
  · simp [appending_submissions]

end Conformance

end Treasury
