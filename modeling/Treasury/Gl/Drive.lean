import Treasury.Gl.Adapter
import Treasury.Kit.Steps
import Treasury.Posting.Safety

/-! Driving one batch through the posting protocol against an adapter. A batch whose
acknowledgement was lost and that was proven absent is reported as retryable, but the
approval it was released by is spent, so that no later drive of it submits anything. -/
namespace Treasury
open Kit

inductive DriveOutcome where
  | verified (glRef : String)
  | verificationFailed (missing unexpected : List ContentHash)
  | retryableNotPosted

inductive DriveError where
  | protocol (error : PostingError)
  | gl (error : GlError)
  | unexpected

def DriveError.display : DriveError → String
  | .protocol error => error.display
  | .gl error => error.display
  | .unexpected => "unexpected protocol state after drive"

variable {G : Type}

/-- A ledger in states of `G`. Others write to it too, so that reading back may find it in
another state each time. -/
structure GlService (G : Type) where
  submit : PostingBatch → ContentHash → G → G × Except GlError SubmitOutcome
  readBack : ContentHash → G → G × Except GlError GlReadback

def GlAdapter.service (adapter : GlAdapter G) : GlService G where
  submit batch key gl := adapter.submit gl batch key
  readBack key gl := (gl, adapter.readBack gl key)

/-- What drives have: the protocol and the adapter's state, both kept when a drive fails. -/
abbrev Drive (G : Type) := Steps (PostingProtocol × G) DriveError

namespace Drive

def onProtocol {α : Type} (operation : PostingProtocol → PostingProtocol × Except PostingError α) :
    Drive G α := Steps.first .protocol operation

def onGl {α : Type} (operation : G → G × Except GlError α) : Drive G α :=
  Steps.second .gl operation

def outcome (id : ContentHash) : Drive G DriveOutcome := fun s =>
  (s, match s.1.state id with
    | some (.verified glRef _) => .ok (.verified glRef)
    | some (.verificationFailed missing unexpected _) => .ok (.verificationFailed missing unexpected)
    | _ => .error .unexpected)

end Drive

namespace GlService
variable [External]

def verifyPosted (service : GlService G) (id : ContentHash) : Drive G DriveOutcome := do
  let readback ← Drive.onGl (service.readBack id)
  Drive.onProtocol fun p => p.verify id readback.entryHashes (sha256 readback.rawPayload)
  Drive.outcome id

/-- What follows the ledger's answer to the submission. A lost acknowledgement is resolved by
reading back only. -/
def submitted (service : GlService G) (id : ContentHash) : SubmitOutcome → Drive G DriveOutcome
  | .acknowledged glRef rawResponse => do
    Drive.onProtocol fun p => p.confirmPosted id glRef (sha256 rawResponse)
    service.verifyPosted id
  | .ackLost => do
    Drive.onProtocol fun p => p.reportUnknown id
    let readback ← Drive.onGl (service.readBack id)
    let found := readback.glRef.map fun glRef => (glRef, sha256 readback.rawPayload)
    Drive.onProtocol fun p => p.resolveUnknown id found
    if found.isNone then return .retryableNotPosted
    else service.verifyPosted id

def postBatch (service : GlService G) (batch : PostingBatch) (preparer approver : ActorId) :
    Drive G DriveOutcome := do
  let id ← Drive.onProtocol fun p => p.register batch preparer
  Drive.onProtocol fun p => p.release id approver
  Drive.onProtocol fun p => p.beginSubmit id
  let answer ← Drive.onGl (service.submit batch id)
  service.submitted id answer

end GlService

namespace Drive
variable [External]

/-- The drive of an adapter, which nobody else writes to. -/
abbrev verifyPosted (adapter : GlAdapter G) (id : ContentHash) : Drive G DriveOutcome :=
  adapter.service.verifyPosted id

abbrev submitted (adapter : GlAdapter G) (id : ContentHash) : SubmitOutcome → Drive G DriveOutcome :=
  adapter.service.submitted id

def postBatch (adapter : GlAdapter G) (batch : PostingBatch) (preparer approver : ActorId) :
    Drive G DriveOutcome := adapter.service.postBatch batch preparer approver

section
omit [External]

theorem service_readBack {adapter : GlAdapter G} {gl : G} {id : ContentHash}
    {answer : Except GlError GlReadback} (shown : adapter.readBack gl id = answer) :
    adapter.service.readBack id gl = (gl, answer) := congrArg (Prod.mk gl) shown

theorem keepsSecond_onGl {α : Type} (look : G → Except GlError α) :
    Steps.KeepsSecond (onGl fun gl => (gl, look gl) : Drive G α) := fun _ => rfl

theorem keepsSecond_outcome (id : ContentHash) : Steps.KeepsSecond (outcome id : Drive G DriveOutcome) :=
  fun _ => rfl

theorem outcome_ne_retryable (id : ContentHash) (s : PostingProtocol × G) :
    (outcome id s).2 ≠ .ok .retryableNotPosted := by
  simp only [outcome]
  split <;> simp

end

theorem verifyPosted_ne_retryable {adapter : GlAdapter G} {id : ContentHash}
    {s t : PostingProtocol × G} : verifyPosted adapter id s ≠ (t, .ok .retryableNotPosted) := by
  intro retryable
  obtain ⟨_, _, _, rest⟩ := Steps.bind_eq_ok.mp retryable
  obtain ⟨u, _, _, last⟩ := Steps.bind_eq_ok.mp rest
  exact outcome_ne_retryable id u (congrArg Prod.snd last)

theorem keepsSecond_verifyPosted (adapter : GlAdapter G) (id : ContentHash) :
    Steps.KeepsSecond (verifyPosted adapter id) :=
  (keepsSecond_onGl _).bind fun _ => (Steps.keepsSecond_first _ _).bind fun _ => keepsSecond_outcome id

theorem keepsSecond_submitted (adapter : GlAdapter G) (id : ContentHash) (answer : SubmitOutcome) :
    Steps.KeepsSecond (submitted adapter id answer) := by
  have verified := keepsSecond_verifyPosted adapter id
  cases answer with
  | acknowledged glRef rawResponse => exact (Steps.keepsSecond_first _ _).bind fun _ => verified
  | ackLost =>
    refine (Steps.keepsSecond_first _ _).bind fun _ => (keepsSecond_onGl _).bind fun readback =>
      (Steps.keepsSecond_first _ _).bind fun _ => ?_
    split
    · exact Steps.keepsSecond_pure _
    · exact verified

variable {adapter : GlAdapter G} {batch : PostingBatch} {preparer approver : ActorId}

theorem postBatch_eq_ok {p : PostingProtocol} {gl : G} {t : PostingProtocol × G} {result : DriveOutcome}
    (driven : postBatch adapter batch preparer approver (p, gl) = (t, .ok result)) :
    ∃ p₁ p₂ p₃ next answer, p.register batch preparer = (p₁, .ok batch.key) ∧
      p₁.release batch.key approver = (p₂, .ok ()) ∧ p₂.beginSubmit batch.key = (p₃, .ok ()) ∧
      adapter.submit gl batch batch.key = (next, .ok answer) ∧
      submitted adapter batch.key answer (p₃, next) = (t, .ok result) := by
  obtain ⟨_, id, registered, rest⟩ := Steps.bind_eq_ok.mp driven
  obtain ⟨p₁, registration, rfl⟩ := Steps.first_eq_ok.mp registered
  obtain rfl : batch.key = id := by
    rw [PostingProtocol.register_eq] at registration
    exact Except.ok.inj (Prod.mk.inj registration).2
  obtain ⟨_, _, released, rest⟩ := Steps.bind_eq_ok.mp rest
  obtain ⟨p₂, release, rfl⟩ := Steps.first_eq_ok.mp released
  obtain ⟨_, _, begun, rest⟩ := Steps.bind_eq_ok.mp rest
  obtain ⟨p₃, submission, rfl⟩ := Steps.first_eq_ok.mp begun
  obtain ⟨_, answer, answered, rest⟩ := Steps.bind_eq_ok.mp rest
  obtain ⟨next, taken, rfl⟩ := Steps.second_eq_ok.mp answered
  exact ⟨p₁, p₂, p₃, next, answer, registration, release, submission, taken, rest⟩

theorem postBatch_gl {p : PostingProtocol} {gl : G} {t : PostingProtocol × G} {result : DriveOutcome}
    (driven : postBatch adapter batch preparer approver (p, gl) = (t, .ok result)) :
    t.2 = (adapter.submit gl batch batch.key).1 := by
  obtain ⟨_, _, p₃, next, answer, _, _, _, taken, rest⟩ := postBatch_eq_ok driven
  have kept := keepsSecond_submitted adapter batch.key answer (p₃, next)
  rw [rest] at kept
  exact kept.trans (congrArg Prod.fst taken).symm

theorem retryable_confirmed {p : PostingProtocol} {gl : G} {t : PostingProtocol × G}
    (retryable : postBatch adapter batch preparer approver (p, gl) = (t, .ok .retryableNotPosted)) :
    ∃ payload proposer, t.1.approvals.item batch.key = some (payload, .confirmed proposer approver) ∧
      t.1.state batch.key = some .readyToSubmit := by
  obtain ⟨p₁, p₂, p₃, next, answer, _, release, submission, _, rest⟩ := postBatch_eq_ok retryable
  obtain ⟨⟨payload, proposer, item⟩, _⟩ := PostingProtocol.release_eq_ok release
  obtain ⟨_, _, _, _, rfl⟩ := PostingProtocol.transition_eq_ok.mp submission
  cases answer with
  | acknowledged glRef rawResponse =>
    obtain ⟨_, _, _, last⟩ := Steps.bind_eq_ok.mp rest
    exact absurd last verifyPosted_ne_retryable
  | ackLost =>
    obtain ⟨s₅, _, reported, rest⟩ := Steps.bind_eq_ok.mp rest
    obtain ⟨p₅, report, rfl⟩ := Steps.first_eq_ok.mp reported
    obtain ⟨_, _, _, _, rfl⟩ := PostingProtocol.transition_eq_ok.mp report
    obtain ⟨s₆, readback, looked, rest⟩ := Steps.bind_eq_ok.mp rest
    obtain ⟨_, _, rfl⟩ := Steps.second_eq_ok.mp looked
    obtain ⟨s₇, _, resolved, rest⟩ := Steps.bind_eq_ok.mp rest
    obtain ⟨p₇, resolution, rfl⟩ := Steps.first_eq_ok.mp resolved
    obtain ⟨old, new, _, moved, rfl⟩ := PostingProtocol.transition_eq_ok.mp resolution
    split at rest
    · rename_i absent
      rw [Option.isNone_iff_eq_none.mp absent] at moved
      cases old <;> simp only [reduceCtorEq, Option.some.injEq] at moved
      subst moved
      obtain ⟨rfl, _⟩ := Prod.mk.inj rest
      exact ⟨payload, proposer, item, PostingProtocol.state_setState ..⟩
    · exact absurd rest verifyPosted_ne_retryable

theorem postBatch_spent {p : PostingProtocol} {payload : PostingBatch} {proposer confirmer : ActorId}
    (item : p.approvals.item batch.key = some (payload, .confirmed proposer confirmer))
    {s : PostingState} (here : p.state batch.key = some s) (gl : G) :
    postBatch adapter batch preparer approver (p, gl) =
      ((p, gl), .error (.protocol (.dualControl .invalidTransition))) := by
  have registered : onProtocol (fun p => p.register batch preparer) (p, gl) = ((p, gl), .ok batch.key) :=
    Steps.first_eq_ok.mpr ⟨p, PostingProtocol.register_known item here preparer, rfl⟩
  rw [postBatch, GlService.postBatch, Steps.bind_of_ok registered]
  exact Steps.bind_of_error
    (Steps.first_of_error (PostingProtocol.release_confirmed item approver) gl)

theorem postBatch_fresh {p : PostingProtocol} (unknown : p.approvals.item batch.key = none)
    (unseen : p.state batch.key = none) (different : preparer ≠ approver) (gl : G) :
    ∃ q : PostingProtocol, q.state batch.key = some .submitting ∧
      q.approvals.payload batch.key = some batch ∧
      ∀ next answer, adapter.submit gl batch batch.key = (next, .ok answer) →
        postBatch adapter batch preparer approver (p, gl) = submitted adapter batch.key answer (q, next) := by
  obtain ⟨p₁, p₂, p₃, registered, released, begun, submitting, payload⟩ :=
    PostingProtocol.submit_fresh unknown unseen different
  refine ⟨p₃, submitting, payload, fun next answer answered => ?_⟩
  refine (Steps.bind_of_ok (Steps.first_eq_ok.mpr ⟨p₁, registered, rfl⟩)).trans ?_
  refine (Steps.bind_of_ok (Steps.first_eq_ok.mpr ⟨p₂, released, rfl⟩)).trans ?_
  refine (Steps.bind_of_ok (Steps.first_eq_ok.mpr ⟨p₃, begun, rfl⟩)).trans ?_
  exact Steps.bind_of_ok (Steps.second_eq_ok.mpr ⟨next, answered, rfl⟩)

theorem submitted_lost {q : PostingProtocol} {id : ContentHash} (submitting : q.state id = some .submitting)
    {gl : G} {readback : GlReadback} (shown : adapter.readBack gl id = .ok readback)
    (absent : readback.glRef = none) :
    (submitted adapter id .ackLost (q, gl)).2 = .ok .retryableNotPosted ∧
      (submitted adapter id .ackLost (q, gl)).1.2 = gl := by
  have reported : q.reportUnknown id = (q.setState id .unknown, .ok ()) :=
    PostingProtocol.transition_eq_ok.mpr ⟨_, _, submitting, rfl, rfl⟩
  have resolved : (q.setState id .unknown).resolveUnknown id none =
      ((q.setState id .unknown).setState id .readyToSubmit, .ok ()) :=
    PostingProtocol.transition_eq_ok.mpr ⟨_, _, PostingProtocol.state_setState .., rfl, rfl⟩
  have result : submitted adapter id .ackLost (q, gl) =
      (((q.setState id .unknown).setState id .readyToSubmit, gl), .ok .retryableNotPosted) := by
    refine (Steps.bind_of_ok (Steps.first_eq_ok.mpr ⟨_, reported, rfl⟩)).trans ?_
    refine (Steps.bind_of_ok (Steps.second_eq_ok.mpr ⟨gl, service_readBack shown, rfl⟩)).trans ?_
    rw [absent]
    exact Steps.bind_of_ok (Steps.first_eq_ok.mpr ⟨_, resolved, rfl⟩)
  rw [result]
  exact ⟨rfl, rfl⟩

theorem submitted_acknowledged {q : PostingProtocol} {id : ContentHash}
    (submitting : q.state id = some .submitting) (registered : q.approvals.payload id = some batch)
    {gl : G} {readback : GlReadback} (shown : adapter.readBack gl id = .ok readback)
    (exact : ∀ h, h ∈ batch.hashes ↔ h ∈ readback.entryHashes) (glRef : String) (raw : Bytes) :
    (submitted adapter id (.acknowledged glRef raw) (q, gl)).2 = .ok (.verified glRef) := by
  have confirmed : q.confirmPosted id glRef (sha256 raw) =
      (q.setState id (.posted glRef (sha256 raw)), .ok ()) :=
    PostingProtocol.transition_eq_ok.mpr ⟨_, _, submitting, rfl, rfl⟩
  have posted := PostingProtocol.state_setState q id (.posted glRef (sha256 raw))
  have same := PostingProtocol.compare_same (sha256 readback.rawPayload) glRef fun h =>
    PostingBatch.mem_fingerprint.trans (exact h)
  have checked : (q.setState id (.posted glRef (sha256 raw))).verify id readback.entryHashes
      (sha256 readback.rawPayload) = ((q.setState id (.posted glRef (sha256 raw))).setState id
        (.verified glRef (sha256 readback.rawPayload)), .ok ()) := by
    have kept : (q.setState id (.posted glRef (sha256 raw))).approvals.payload id = some batch :=
      registered
    simp only [PostingProtocol.verify, kept, batch.entryFingerprint_eq]
    exact PostingProtocol.transition_eq_ok.mpr ⟨_, _, posted, congrArg some same, rfl⟩
  refine (congrArg Prod.snd (Steps.bind_of_ok (Steps.first_eq_ok.mpr ⟨_, confirmed, rfl⟩))).trans ?_
  refine (congrArg Prod.snd
    (Steps.bind_of_ok (Steps.second_eq_ok.mpr ⟨gl, service_readBack shown, rfl⟩))).trans ?_
  refine (congrArg Prod.snd (Steps.bind_of_ok (Steps.first_eq_ok.mpr ⟨_, checked, rfl⟩))).trans ?_
  simp only [outcome, PostingProtocol.state_setState]

theorem verifyPosted_verified {q : PostingProtocol} {id : ContentHash} {gl : G}
    {t : PostingProtocol × G} {glRef : String} (registered : q.approvals.payload id = some batch)
    (verified : verifyPosted adapter id (q, gl) = (t, .ok (.verified glRef))) :
    ∃ readback, adapter.readBack gl id = .ok readback ∧
      ∀ h, h ∈ batch.hashes ↔ h ∈ readback.entryHashes := by
  obtain ⟨_, readback, looked, rest⟩ := Steps.bind_eq_ok.mp verified
  obtain ⟨_, shown, rfl⟩ := Steps.second_eq_ok.mp looked
  obtain ⟨rfl, answered⟩ := Prod.mk.inj shown
  obtain ⟨_, _, checked, last⟩ := Steps.bind_eq_ok.mp rest
  obtain ⟨p, check, rfl⟩ := Steps.first_eq_ok.mp checked
  refine ⟨readback, answered, ?_⟩
  simp only [PostingProtocol.verify, registered, batch.entryFingerprint_eq] at check
  obtain ⟨old, new, _, moved, rfl⟩ := PostingProtocol.transition_eq_ok.mp check
  cases old <;> simp only [reduceCtorEq, Option.some.injEq] at moved
  subst moved
  by_contra differ
  have different : ¬∀ h, h ∈ PostingBatch.fingerprint batch.hashes ↔ h ∈ readback.entryHashes :=
    fun same => differ fun h => PostingBatch.mem_fingerprint.symm.trans (same h)
  obtain ⟨missing, unexpected, failed⟩ := PostingProtocol.compare_differ
    (sha256 readback.rawPayload) _ different
  rw [failed] at last
  simp [outcome, PostingProtocol.state_setState] at last

theorem submitted_verified {q : PostingProtocol} {id : ContentHash} {gl : G}
    {t : PostingProtocol × G} {glRef : String} {answer : SubmitOutcome}
    (registered : q.approvals.payload id = some batch)
    (verified : submitted adapter id answer (q, gl) = (t, .ok (.verified glRef))) :
    ∃ readback, adapter.readBack gl id = .ok readback ∧
      ∀ h, h ∈ batch.hashes ↔ h ∈ readback.entryHashes := by
  cases answer with
  | acknowledged glRef raw =>
    obtain ⟨_, _, confirmed, rest⟩ := Steps.bind_eq_ok.mp verified
    obtain ⟨_, confirmation, rfl⟩ := Steps.first_eq_ok.mp confirmed
    obtain ⟨_, _, _, _, rfl⟩ := PostingProtocol.transition_eq_ok.mp confirmation
    refine verifyPosted_verified ?_ rest
    exact registered
  | ackLost =>
    obtain ⟨_, _, reported, rest⟩ := Steps.bind_eq_ok.mp verified
    obtain ⟨_, report, rfl⟩ := Steps.first_eq_ok.mp reported
    obtain ⟨_, _, _, _, rfl⟩ := PostingProtocol.transition_eq_ok.mp report
    obtain ⟨_, _, looked, rest⟩ := Steps.bind_eq_ok.mp rest
    obtain ⟨_, shown, rfl⟩ := Steps.second_eq_ok.mp looked
    obtain ⟨rfl, _⟩ := Prod.mk.inj shown
    obtain ⟨_, _, resolved, rest⟩ := Steps.bind_eq_ok.mp rest
    obtain ⟨_, resolution, rfl⟩ := Steps.first_eq_ok.mp resolved
    obtain ⟨_, _, _, _, rfl⟩ := PostingProtocol.transition_eq_ok.mp resolution
    split at rest
    · cases rest
    · refine verifyPosted_verified ?_ rest
      exact registered

theorem postBatch_verified {p : PostingProtocol} (unknown : p.approvals.item batch.key = none)
    (unseen : p.state batch.key = none) {gl : G} {t : PostingProtocol × G} {glRef : String}
    (driven : postBatch adapter batch preparer approver (p, gl) = (t, .ok (.verified glRef))) :
    ∃ readback, adapter.readBack (adapter.submit gl batch batch.key).1 batch.key = .ok readback ∧
      ∀ h, h ∈ batch.hashes ↔ h ∈ readback.entryHashes := by
  obtain ⟨p₁, p₂, p₃, next, answer, registration, release, _, taken, _⟩ := postBatch_eq_ok driven
  have different : preparer ≠ approver := by
    rcases PostingProtocol.release_cases p₁ batch.key approver with
      ⟨e, refused⟩ | ⟨payload, first, found, different, _⟩
    · rw [refused] at release
      cases release
    · rw [PostingProtocol.register_eq] at registration
      obtain rfl := (Prod.mk.inj registration).1
      rw [Docket.item_enter_self, unknown] at found
      cases found
      exact different
  obtain ⟨q, _, registered, result⟩ :=
    @postBatch_fresh _ _ adapter batch preparer approver p unknown unseen different gl
  rw [result next answer taken] at driven
  rw [taken]
  exact submitted_verified registered driven

def driven (adapter : GlAdapter G) (batch : PostingBatch) (preparer approver : ActorId) :
    PostingProtocol → List G → PostingProtocol :=
  run fun p gl => (postBatch adapter batch preparer approver (p, gl)).1.1

/-- After these drives one more drive posts and verifies the batch. -/
def RetrySucceeds (adapter : GlAdapter G) (batch : PostingBatch) (preparer approver : ActorId)
    (p : PostingProtocol) (lost : List G) (gl : G) : Prop :=
  ∃ glRef, (postBatch adapter batch preparer approver
    (driven adapter batch preparer approver p lost, gl)).2 = .ok (.verified glRef)

/-- Once a drive has reported a batch as retryable, every later drive of it fails for want of
an approval, before anything is submitted. -/
theorem retry_never_succeeds {p : PostingProtocol} {first : G}
    (retryable : (postBatch adapter batch preparer approver (p, first)).2 = .ok .retryableNotPosted)
    (more : List G) (gl : G) :
    ¬RetrySucceeds adapter batch preparer approver p (first :: more) gl ∧
      postBatch adapter batch preparer approver
          (driven adapter batch preparer approver p (first :: more), gl) =
        ((driven adapter batch preparer approver p (first :: more), gl),
          .error (.protocol (.dualControl .invalidTransition))) := by
  obtain ⟨payload, proposer, item, ready⟩ := retryable_confirmed (Prod.ext rfl retryable)
  have kept : driven adapter batch preparer approver p (first :: more) =
      (postBatch adapter batch preparer approver (p, first)).1.1 := by
    refine run_invariant _ (· = (postBatch adapter batch preparer approver (p, first)).1.1) ?_ more _ rfl
    rintro _ gl rfl
    rw [postBatch_spent item ready]
  have refused : postBatch adapter batch preparer approver (_, gl) = _ := postBatch_spent item ready gl
  rw [← kept] at refused
  refine ⟨?_, refused⟩
  rintro ⟨glRef, verified⟩
  rw [refused] at verified
  cases verified

theorem retry_spent {s : PostingProtocol × G}
    (retryable : (postBatch adapter batch preparer approver s).2 = .ok .retryableNotPosted) :
    (postBatch adapter batch preparer approver (postBatch adapter batch preparer approver s).1).2 =
      .error (.protocol (.dualControl .invalidTransition)) := by
  obtain ⟨payload, proposer, item, ready⟩ :=
    @retryable_confirmed _ _ adapter batch preparer approver s.1 s.2 _ (Prod.ext rfl retryable)
  exact congrArg Prod.snd (postBatch_spent item ready _)

theorem fixture_lost (batch : PostingBatch) (different : preparer ≠ approver) :
    (postBatch FixtureGl.adapter batch preparer approver
        (.new, FixtureGl.new.inject .ackLostNotPosted)).2 = .ok .retryableNotPosted ∧
      (postBatch FixtureGl.adapter batch preparer approver
        (.new, FixtureGl.new.inject .ackLostNotPosted)).1.2 = FixtureGl.new := by
  obtain ⟨q, submitting, _, result⟩ := @postBatch_fresh _ _ FixtureGl.adapter batch preparer approver
    .new (Docket.item_empty _) (Finmap.lookup_empty _) different (FixtureGl.new.inject .ackLostNotPosted)
  rw [result FixtureGl.new .ackLost rfl]
  exact submitted_lost submitting (FixtureGl.readBack_new batch.key) rfl

theorem fixture_verified (batch : PostingBatch) (different : preparer ≠ approver) :
    (postBatch FixtureGl.adapter batch preparer approver (.new, FixtureGl.new)).2 =
      .ok (.verified "JE-1") := by
  obtain ⟨q, submitting, registered, result⟩ := @postBatch_fresh _ _ FixtureGl.adapter batch preparer
    approver .new (Docket.item_empty _) (Finmap.lookup_empty _) different FixtureGl.new
  rw [result _ _ (FixtureGl.submit_new batch batch.key)]
  exact submitted_acknowledged submitting registered (FixtureGl.readBack_storing batch batch.key)
    (fun h => PostingBatch.mem_fingerprint.symm) _ _

omit [External] in
theorem retry_never_succeeds_fixture :
    letI : External := reference
    ¬RetrySucceeds FixtureGl.adapter (PostingProtocol.remeasuredTimes 1) ⟨"alice"⟩ ⟨"bob"⟩ .new
      [FixtureGl.new.inject .ackLostNotPosted] FixtureGl.new := by
  let _ : External := reference
  have different : (⟨"alice"⟩ : ActorId) ≠ ⟨"bob"⟩ := by decide
  have lost := (fixture_lost (PostingProtocol.remeasuredTimes 1) different).1
  exact (retry_never_succeeds lost [] FixtureGl.new).1

omit [External] in
/-- The fixture would acknowledge and show the batch, but the drive never gets to it. -/
theorem retry_refused :
    letI : External := reference
    let drive := postBatch FixtureGl.adapter (PostingProtocol.remeasuredTimes 1) ⟨"alice"⟩ ⟨"bob"⟩
    let lost := drive (.new, FixtureGl.new.inject .ackLostNotPosted)
    lost.2 = .ok .retryableNotPosted ∧ (drive (.new, lost.1.2)).2 = .ok (.verified "JE-1") ∧
      (drive lost.1).2 = .error (.protocol (.dualControl .invalidTransition)) := by
  let _ : External := reference
  have different : (⟨"alice"⟩ : ActorId) ≠ ⟨"bob"⟩ := by decide
  obtain ⟨lost, state⟩ := fixture_lost (PostingProtocol.remeasuredTimes 1) different
  have verified := fixture_verified (PostingProtocol.remeasuredTimes 1) different
  exact ⟨lost, by rw [state]; exact verified, retry_spent lost⟩

end Drive

end Treasury
