import Treasury.Gl.Drive

/-! The driver against a ledger that may answer every call as it likes, and the list of the
calls it makes. Whatever the answers are, the state in which a batch is left says only what
they have shown. -/
namespace Treasury
open Kit

inductive GlCall where
  | submit (batch : PostingBatch) (key : ContentHash) (answer : Except GlError SubmitOutcome)
  | readBack (key : ContentHash) (answer : Except GlError GlReadback)

def GlCall.isSubmit : GlCall → Bool
  | .submit .. => true
  | .readBack .. => false

def GlCall.failure : GlCall → Option GlError
  | .submit _ _ (.error e) => some e
  | .readBack _ (.error e) => some e
  | _ => none

variable {G : Type}

namespace GlService

/-- The service that keeps a list of its calls. -/
def recorded (service : GlService G) : GlService (G × List GlCall) where
  submit batch key s :=
    let (gl, answer) := service.submit batch key s.1
    ((gl, s.2 ++ [.submit batch key answer]), answer)
  readBack key s :=
    let (gl, answer) := service.readBack key s.1
    ((gl, s.2 ++ [.readBack key answer]), answer)

variable [External]

/-- An adapter is driven as the service that it is. -/
theorem postBatch_adapter (adapter : GlAdapter G) (batch : PostingBatch)
    (preparer approver : ActorId) : adapter.service.postBatch batch preparer approver =
      Drive.postBatch adapter batch preparer approver := rfl

def unrecorded (s : PostingProtocol × G × List GlCall) : PostingProtocol × G := (s.1, s.2.1)

omit [External] in
theorem follows_onProtocol {α : Type}
    (operation : PostingProtocol → PostingProtocol × Except PostingError α) :
    Steps.Follows unrecorded (Drive.onProtocol operation : Drive G α) (Drive.onProtocol operation) :=
  fun _ => rfl

theorem follows_verifyPosted (service : GlService G) (id : ContentHash) :
    Steps.Follows unrecorded (service.verifyPosted id) (service.recorded.verifyPosted id) := by
  refine Steps.Follows.bind (fun _ => rfl) fun readback => ?_
  exact (follows_onProtocol _).bind fun _ _ => rfl

theorem follows_submitted (service : GlService G) (id : ContentHash) (answer : SubmitOutcome) :
    Steps.Follows unrecorded (service.submitted id answer) (service.recorded.submitted id answer) := by
  have verified := follows_verifyPosted service id
  cases answer with
  | acknowledged glRef rawResponse => exact (follows_onProtocol _).bind fun _ => verified
  | ackLost =>
    refine (follows_onProtocol _).bind fun _ => Steps.Follows.bind (fun _ => rfl) fun readback => ?_
    refine (follows_onProtocol _).bind fun _ => ?_
    split
    · exact Steps.follows_pure _ _
    · exact verified

/-- Keeping the list changes nothing else. -/
theorem follows_postBatch (service : GlService G) (batch : PostingBatch)
    (preparer approver : ActorId) : Steps.Follows unrecorded
      (service.postBatch batch preparer approver)
      (service.recorded.postBatch batch preparer approver) := by
  refine (follows_onProtocol _).bind fun id => (follows_onProtocol _).bind fun _ => ?_
  refine (follows_onProtocol _).bind fun _ => Steps.Follows.bind (fun _ => rfl) fun answer => ?_
  exact follows_submitted service id answer

section
omit [External]
variable {α β : Type} {p q : PostingProtocol} {gl next : G}

theorem onProtocol_ok {operation : PostingProtocol → PostingProtocol × Except PostingError α} {a : α}
    (result : operation p = (q, .ok a)) (rest : α → Drive G β) :
    (Drive.onProtocol operation >>= rest) (p, gl) = rest a (q, gl) :=
  Steps.bind_of_ok (Steps.first_eq_ok.mpr ⟨q, result, rfl⟩)

theorem onProtocol_error {operation : PostingProtocol → PostingProtocol × Except PostingError α}
    {e : PostingError} (result : operation p = (q, .error e)) (rest : α → Drive G β) :
    (Drive.onProtocol operation >>= rest) (p, gl) = ((q, gl), .error (.protocol e)) :=
  Steps.bind_of_error (Steps.first_of_error result gl)

theorem onGl_ok {operation : G → G × Except GlError α} {a : α}
    (result : operation gl = (next, .ok a)) (rest : α → Drive G β) :
    (Drive.onGl operation >>= rest) (p, gl) = rest a (p, next) :=
  Steps.bind_of_ok (Steps.second_eq_ok.mpr ⟨next, result, rfl⟩)

theorem onGl_error {operation : G → G × Except GlError α} {e : GlError}
    (result : operation gl = (next, .error e)) (rest : α → Drive G β) :
    (Drive.onGl operation >>= rest) (p, gl) = ((p, next), .error (.gl e)) := by
  have failed : (Drive.onGl operation : Drive G α) (p, gl) = ((p, next), .error (.gl e)) := by
    simp only [Drive.onGl, Steps.second, result]
    rfl
  exact Steps.bind_of_error failed

theorem recorded_readBack {service : GlService G} {key : ContentHash}
    {answer : Except GlError GlReadback} (read : service.readBack key gl = (next, answer))
    (calls : List GlCall) :
    service.recorded.readBack key (gl, calls) = ((next, calls ++ [.readBack key answer]), answer) := by
  simp only [recorded, read]

theorem recorded_submit {service : GlService G} {batch : PostingBatch} {key : ContentHash}
    {answer : Except GlError SubmitOutcome} (sent : service.submit batch key gl = (next, answer))
    (calls : List GlCall) : service.recorded.submit batch key (gl, calls) =
      ((next, calls ++ [.submit batch key answer]), answer) := by
  simp only [recorded, sent]

end

/-- The calls that have shown the batch to be in the ledger, under which reference and by what
evidence. -/
inductive Shown (batch : PostingBatch) : List GlCall → String → ContentHash → Prop
  | acknowledged (glRef : String) (raw : Bytes) :
      Shown batch [.submit batch batch.key (.ok (.acknowledged glRef raw))] glRef (sha256 raw)
  | found {glRef : String} {readback : GlReadback} : readback.glRef = some glRef →
      Shown batch [.submit batch batch.key (.ok .ackLost), .readBack batch.key (.ok readback)] glRef
        (sha256 readback.rawPayload)

/-- How a drive that has submitted its batch ends: the calls it made, the state in which it leaves
the batch, and what it returns. -/
inductive Ends (batch : PostingBatch) :
    List GlCall → PostingState → Except DriveError DriveOutcome → Prop
  | unanswered (e : GlError) : Ends batch [.submit batch batch.key (.error e)] .submitting (.error (.gl e))
  | unread (e : GlError) : Ends batch
      [.submit batch batch.key (.ok .ackLost), .readBack batch.key (.error e)] .unknown (.error (.gl e))
  | absent {readback : GlReadback} : readback.glRef = none → Ends batch
      [.submit batch batch.key (.ok .ackLost), .readBack batch.key (.ok readback)] .readyToSubmit
      (.ok .retryableNotPosted)
  | unverified {calls : List GlCall} {glRef : String} {evidence : ContentHash} (e : GlError) :
      Shown batch calls glRef evidence →
      Ends batch (calls ++ [.readBack batch.key (.error e)]) (.posted glRef evidence) (.error (.gl e))
  | verified {calls : List GlCall} {glRef : String} {evidence : ContentHash} (readback : GlReadback)
      (shown : ContentHash) : Shown batch calls glRef evidence →
      Ends batch (calls ++ [.readBack batch.key (.ok readback)]) (.verified glRef shown)
        (.ok (.verified glRef))
  | differed {calls : List GlCall} {glRef : String} {evidence : ContentHash} (readback : GlReadback)
      (missing unexpected : List ContentHash) (shown : ContentHash) : Shown batch calls glRef evidence →
      Ends batch (calls ++ [.readBack batch.key (.ok readback)])
        (.verificationFailed missing unexpected shown) (.ok (.verificationFailed missing unexpected))

def Untouched (key : ContentHash) (p q : PostingProtocol) : Prop :=
  ∀ other, other ≠ key → q.state other = p.state other ∧ q.approvals.item other = p.approvals.item other

section
omit [External]

theorem Untouched.refl (key : ContentHash) (p : PostingProtocol) : Untouched key p p :=
  fun _ _ => ⟨rfl, rfl⟩

theorem Untouched.trans {key : ContentHash} {p q r : PostingProtocol} (first : Untouched key p q)
    (second : Untouched key q r) : Untouched key p r := fun other different =>
  ⟨(second other different).1.trans (first other different).1,
    (second other different).2.trans (first other different).2⟩

theorem untouched_setState (p : PostingProtocol) (key : ContentHash) (s : PostingState) :
    Untouched key p (p.setState key s) :=
  fun _ different => ⟨PostingProtocol.state_setState_other p s different, rfl⟩

end

/-- The end of a drive: the calls, the state of the batch, the result, and no other batch. -/
def EndsFrom (batch : PostingBatch) (p : PostingProtocol)
    (done : (PostingProtocol × G × List GlCall) × Except DriveError DriveOutcome) : Prop :=
  ∃ s, done.1.1.state batch.key = some s ∧ Ends batch done.1.2.2 s done.2 ∧
    Untouched batch.key p done.1.1

variable {service : GlService G} {batch : PostingBatch} {p : PostingProtocol}

theorem EndsFrom.after {q : PostingProtocol}
    {done : (PostingProtocol × G × List GlCall) × Except DriveError DriveOutcome}
    (ends : EndsFrom batch q done) (before : Untouched batch.key p q) : EndsFrom batch p done := by
  obtain ⟨s, here, ending, later⟩ := ends
  exact ⟨s, here, ending, before.trans later⟩

theorem verifyPosted_ends {glRef : String} {evidence : ContentHash}
    (posted : p.state batch.key = some (.posted glRef evidence)) {payload : PostingBatch}
    (registered : p.approvals.payload batch.key = some payload) {calls : List GlCall}
    (shown : Shown batch calls glRef evidence) (gl : G) :
    EndsFrom batch p (service.recorded.verifyPosted batch.key (p, gl, calls)) := by
  rcases read : service.readBack batch.key gl with ⟨next, e | readback⟩
  · rw [verifyPosted, onGl_error (recorded_readBack read calls)]
    exact ⟨_, posted, .unverified e shown, .refl _ _⟩
  · let fingerprint := PostingBatch.fingerprint payload.hashes
    let verdict := PostingProtocol.compare fingerprint readback.entryHashes
      (sha256 readback.rawPayload) glRef
    have checked : p.verify batch.key readback.entryHashes (sha256 readback.rawPayload) =
        (p.setState batch.key verdict, .ok ()) := by
      simp only [PostingProtocol.verify, registered, payload.entryFingerprint_eq]
      exact PostingProtocol.transition_eq_ok.mpr ⟨_, _, posted, rfl, rfl⟩
    have here : (p.setState batch.key verdict).state batch.key = some verdict :=
      PostingProtocol.state_setState ..
    rw [verifyPosted, onGl_ok (recorded_readBack read calls), onProtocol_ok checked]
    refine ⟨verdict, here, ?_, untouched_setState _ _ _⟩
    simp only [Drive.outcome, here]
    by_cases same : ∀ h, h ∈ fingerprint ↔ h ∈ readback.entryHashes
    · have verified : verdict = .verified glRef (sha256 readback.rawPayload) :=
        PostingProtocol.compare_same _ _ same
      rw [verified]
      exact .verified readback _ shown
    · obtain ⟨missing, unexpected, differed⟩ :=
        PostingProtocol.compare_differ (sha256 readback.rawPayload) glRef same
      have failed : verdict = .verificationFailed missing unexpected (sha256 readback.rawPayload) :=
        differed
      rw [failed]
      exact .differed readback missing unexpected _ shown

theorem submitted_ends (submitting : p.state batch.key = some .submitting) {payload : PostingBatch}
    (registered : p.approvals.payload batch.key = some payload) (gl : G) (answer : SubmitOutcome) :
    EndsFrom batch p (service.recorded.submitted batch.key answer
      (p, gl, [.submit batch batch.key (.ok answer)])) := by
  cases answer with
  | acknowledged glRef raw =>
    have confirmed : p.confirmPosted batch.key glRef (sha256 raw) =
        (p.setState batch.key (.posted glRef (sha256 raw)), .ok ()) :=
      PostingProtocol.transition_eq_ok.mpr ⟨_, _, submitting, rfl, rfl⟩
    have posted := PostingProtocol.state_setState p batch.key (.posted glRef (sha256 raw))
    rw [submitted, onProtocol_ok confirmed]
    exact (verifyPosted_ends posted registered (.acknowledged glRef raw) gl).after
      (untouched_setState _ _ _)
  | ackLost =>
    have reported : p.reportUnknown batch.key = (p.setState batch.key .unknown, .ok ()) :=
      PostingProtocol.transition_eq_ok.mpr ⟨_, _, submitting, rfl, rfl⟩
    have unknown := PostingProtocol.state_setState p batch.key .unknown
    have before : Untouched batch.key p (p.setState batch.key .unknown) := untouched_setState _ _ _
    rw [submitted, onProtocol_ok reported]
    rcases read : service.readBack batch.key gl with ⟨next, e | readback⟩
    · rw [onGl_error (recorded_readBack read _)]
      exact ⟨_, unknown, .unread e, before⟩
    · rw [onGl_ok (recorded_readBack read _)]
      cases reference : readback.glRef with
      | none =>
        have resolved : (p.setState batch.key .unknown).resolveUnknown batch.key none =
            ((p.setState batch.key .unknown).setState batch.key .readyToSubmit, .ok ()) :=
          PostingProtocol.transition_eq_ok.mpr ⟨_, _, unknown, rfl, rfl⟩
        simp only [Option.map_none]
        rw [onProtocol_ok resolved]
        exact ⟨_, PostingProtocol.state_setState .., .absent reference,
          before.trans (untouched_setState _ _ _)⟩
      | some glRef =>
        have resolved : (p.setState batch.key .unknown).resolveUnknown batch.key
            (some (glRef, sha256 readback.rawPayload)) = ((p.setState batch.key .unknown).setState
              batch.key (.posted glRef (sha256 readback.rawPayload)), .ok ()) :=
          PostingProtocol.transition_eq_ok.mpr ⟨_, _, unknown, rfl, rfl⟩
        have posted := PostingProtocol.state_setState (p.setState batch.key .unknown) batch.key
          (.posted glRef (sha256 readback.rawPayload))
        simp only [Option.map_some]
        rw [onProtocol_ok resolved]
        exact ((verifyPosted_ends posted registered (.found reference) next).after
          (untouched_setState _ _ _)).after before

theorem submission_ends (ready : p.state batch.key = some .readyToSubmit) {payload : PostingBatch}
    (registered : p.approvals.payload batch.key = some payload) (gl : G) :
    EndsFrom batch p ((Drive.onProtocol (fun p => p.beginSubmit batch.key) >>= fun _ =>
      Drive.onGl (service.recorded.submit batch batch.key) >>=
        service.recorded.submitted batch.key) (p, gl, [])) := by
  have begun : p.beginSubmit batch.key = (p.setState batch.key .submitting, .ok ()) :=
    PostingProtocol.transition_eq_ok.mpr ⟨_, _, ready, rfl, rfl⟩
  have submitting := PostingProtocol.state_setState p batch.key .submitting
  have before : Untouched batch.key p (p.setState batch.key .submitting) := untouched_setState _ _ _
  rw [onProtocol_ok begun]
  rcases sent : service.submit batch batch.key gl with ⟨next, e | answer⟩
  · rw [onGl_error (recorded_submit sent [])]
    exact ⟨_, submitting, .unanswered e, before⟩
  · rw [onGl_ok (recorded_submit sent [])]
    exact (submitted_ends submitting registered next answer).after before

theorem untouched_register (p : PostingProtocol) (batch : PostingBatch) (preparer : ActorId) :
    Untouched batch.key p (p.register batch preparer).1 := by
  intro other different
  constructor
  · rw [PostingProtocol.register_state, if_neg different]
  · rw [PostingProtocol.register_eq]
    exact Docket.item_enter_other p.approvals batch (.asserted preparer) different

/-- A drive either submits nothing, or is released by an actor who has not registered the batch
first and ends in one of the ways above. -/
theorem postBatch_ends (ops : List PostingOp) (service : GlService G) (batch : PostingBatch)
    (preparer approver : ActorId) (gl : G) :
    let p := run PostingProtocol.advance .new ops
    let done := service.recorded.postBatch batch preparer approver (p, gl, [])
    (∃ e q, done = ((q, gl, []), .error (.protocol e)) ∧ Untouched batch.key p q) ∨
      (∃ registrant, PostingProtocol.firstRegistrant batch.key (ops ++ [.register batch preparer]) =
          some registrant ∧ registrant ≠ approver) ∧
        (p.advance (.register batch preparer)).Succeeds (.release batch.key approver) ∧
        EndsFrom batch p done := by
  intro p done
  let p₁ := (p.register batch preparer).1
  have registered : p.register batch preparer = (p₁, .ok batch.key) := by
    simp only [p₁, PostingProtocol.register_eq]
  have before : Untouched batch.key p p₁ := untouched_register p batch preparer
  have agrees : PostingProtocol.Agrees (ops ++ [.register batch preparer]) p₁ :=
    (PostingProtocol.agrees_run ops).register batch preparer
  have paired := agrees batch.key
  rcases agrees.release_cases batch.key approver with
    ⟨e, refused⟩ | ⟨payload, registrant, found, different, released⟩
  · refine .inl ⟨e, p₁, ?_, before⟩
    simp only [done]
    rw [postBatch, onProtocol_ok registered, onProtocol_error refused]
  · have asserted : p₁.approval batch.key = some (.asserted registrant) := by
      simp [PostingProtocol.approval, Docket.state, found]
    rw [asserted] at paired
    have first : PostingProtocol.firstRegistrant batch.key (ops ++ [.register batch preparer]) =
        some registrant := by
      generalize PostingProtocol.firstRegistrant batch.key _ = r at paired ⊢
      generalize p₁.state batch.key = s at paired
      cases paired
      rfl
    have succeeds : (p₁.release batch.key approver).2 = .ok () := by rw [released]
    refine .inr ⟨⟨registrant, first, different⟩, succeeds, ?_⟩
    let confirmed : PostingProtocol :=
      ⟨⟨p₁.approvals.items.insert batch.key (payload, .confirmed registrant approver)⟩, p₁.states⟩
    have item : confirmed.approvals.item batch.key = some (payload, .confirmed registrant approver) :=
      Docket.item_insert_self ..
    have confirming : Untouched batch.key p₁ confirmed := fun other different =>
      ⟨rfl, by simp only [confirmed, Docket.item_insert, different, if_false]⟩
    have ready := PostingProtocol.state_setState confirmed batch.key .readyToSubmit
    have ends := @submission_ends _ _ service _ _ ready _ (Docket.payload_of_item item) gl
    simp only [done]
    rw [postBatch, onProtocol_ok registered, onProtocol_ok released]
    exact ends.after ((before.trans confirming).trans (untouched_setState _ _ _))

/-- The ledger has acknowledged the batch, or has shown a reference of it. -/
def Posted (batch : PostingBatch) (calls : List GlCall) : Prop :=
  (∃ glRef raw, .submit batch batch.key (.ok (.acknowledged glRef raw)) ∈ calls) ∨
    ∃ readback, .readBack batch.key (.ok readback) ∈ calls ∧ readback.glRef.isSome

/-- A drive of the batch guesses nothing: `p` before it, `q` after it, with what it called and
returned. -/
structure NeverGuesses (ops : List PostingOp) (batch : PostingBatch) (preparer approver : ActorId)
    (p q : PostingProtocol) (calls : List GlCall) (result : Except DriveError DriveOutcome) : Prop where
  once : calls.countP GlCall.isSubmit ≤ 1
  keyed : ∀ b key answer, .submit b key answer ∈ calls → b = batch ∧ batch.batchId = .ok key
  released : (∃ call ∈ calls, GlCall.isSubmit call) →
    (∃ registrant, PostingProtocol.firstRegistrant batch.key (ops ++ [.register batch preparer]) =
      some registrant ∧ registrant ≠ approver) ∧
    (p.advance (.register batch preparer)).Succeeds (.release batch.key approver)
  retryable : result = .ok .retryableNotPosted →
    (∃ readback, calls = [.submit batch batch.key (.ok .ackLost), .readBack batch.key (.ok readback)] ∧
      readback.glRef = none) ∧ q.state batch.key = some .readyToSubmit
  verified : ∀ glRef, result = .ok (.verified glRef) → Posted batch calls ∧
    ∃ evidence, q.state batch.key = some (.verified glRef evidence)
  failed : ∀ missing unexpected, result = .ok (.verificationFailed missing unexpected) →
    Posted batch calls ∧
      ∃ evidence, q.state batch.key = some (.verificationFailed missing unexpected evidence)
  /-- A failed call ends the drive, and in no state that claims absence or success. -/
  surfaced : ∀ call ∈ calls, ∀ e, GlCall.failure call = some e → result = .error (.gl e)
  left_open : ∀ e, result = .error e → calls ≠ [] → q.state batch.key = some .submitting ∨
    q.state batch.key = some .unknown ∨
    ∃ glRef evidence, q.state batch.key = some (.posted glRef evidence)
  others : Untouched batch.key p q

theorem Shown.posted {calls : List GlCall} {glRef : String} {evidence : ContentHash}
    (shown : Shown batch calls glRef evidence) (more : List GlCall) : Posted batch (calls ++ more) := by
  cases shown with
  | acknowledged glRef raw => exact .inl ⟨glRef, raw, by simp⟩
  | @found glRef readback reference =>
    exact .inr ⟨readback, List.mem_append_left _ (by simp), by simp [reference]⟩

theorem Shown.calls {calls : List GlCall} {glRef : String} {evidence : ContentHash}
    (shown : Shown batch calls glRef evidence) : ∃ answer reads,
      calls = .submit batch batch.key (.ok answer) :: reads ∧
      ∀ call ∈ reads, ∃ readback, call = .readBack batch.key (.ok readback) := by
  cases shown with
  | acknowledged glRef raw => exact ⟨_, [], rfl, by simp⟩
  | found reference => exact ⟨_, _, rfl, by simp⟩

theorem Ends.calls {calls : List GlCall} {s : PostingState}
    {result : Except DriveError DriveOutcome} (ends : Ends batch calls s result) :
    ∃ answer reads, calls = .submit batch batch.key answer :: reads ∧
      (∀ call ∈ reads, ∃ readback, call = .readBack batch.key readback) ∧
      ∀ call ∈ calls, ∀ e, GlCall.failure call = some e → result = .error (.gl e) := by
  have surfaced {calls : List GlCall} {glRef : String} {evidence : ContentHash}
      (shown : Shown batch calls glRef evidence) (answer : Except GlError GlReadback) :
      ∃ answer' reads, calls ++ [.readBack batch.key answer] =
          .submit batch batch.key answer' :: reads ∧
        (∀ call ∈ reads, ∃ readback, call = .readBack batch.key readback) ∧
        ∀ call ∈ calls ++ [.readBack batch.key answer], ∀ e, GlCall.failure call = some e →
          answer = .error e := by
    obtain ⟨first, reads, rfl, answered⟩ := shown.calls
    refine ⟨_, reads ++ [.readBack batch.key answer], rfl, ?_, ?_⟩
    · intro call member
      rcases List.mem_append.mp member with earlier | last
      · obtain ⟨readback, rfl⟩ := answered call earlier
        exact ⟨_, rfl⟩
      · exact ⟨answer, List.mem_singleton.mp last⟩
    · intro call member e failed
      rcases List.mem_append.mp member with earlier | last
      · rcases List.mem_cons.mp earlier with rfl | earlier
        · cases failed
        · obtain ⟨readback, rfl⟩ := answered call earlier
          cases failed
      · obtain rfl := List.mem_singleton.mp last
        cases answer with
        | error e' => exact congrArg Except.error (Option.some.inj failed)
        | ok readback => cases failed
  cases ends with
  | unanswered e => exact ⟨_, [], rfl, by simp, by simp [GlCall.failure]⟩
  | unread e => exact ⟨_, _, rfl, by simp, by simp [GlCall.failure]⟩
  | absent none => exact ⟨_, _, rfl, by simp, by simp [GlCall.failure]⟩
  | unverified e shown =>
    obtain ⟨answer, reads, split, reading, failing⟩ := surfaced shown (.error e)
    refine ⟨answer, reads, split, reading, fun call member e' failed => ?_⟩
    obtain rfl := Except.error.inj (failing call member e' failed)
    rfl
  | verified readback _ shown =>
    obtain ⟨answer, reads, split, reading, failing⟩ := surfaced shown (.ok readback)
    exact ⟨answer, reads, split, reading, fun call member e failed =>
      nomatch failing call member e failed⟩
  | differed readback missing unexpected _ shown =>
    obtain ⟨answer, reads, split, reading, failing⟩ := surfaced shown (.ok readback)
    exact ⟨answer, reads, split, reading, fun call member e failed =>
      nomatch failing call member e failed⟩

/-- For every reachable protocol and every service, the driver never guesses. -/
theorem postBatch_never_guesses (ops : List PostingOp) (service : GlService G) (batch : PostingBatch)
    (preparer approver : ActorId) (gl : G) :
    let p := run PostingProtocol.advance .new ops
    let done := service.recorded.postBatch batch preparer approver (p, gl, [])
    NeverGuesses ops batch preparer approver p done.1.1 done.1.2.2 done.2 := by
  intro p done
  rcases postBatch_ends ops service batch preparer approver gl with
    ⟨e, q, unsent, untouched⟩ | ⟨registrant, released, s, here, ends, untouched⟩
  · have unsent : done = ((q, gl, []), .error (.protocol e)) := unsent
    rw [unsent]
    constructor
    case others => exact untouched
    all_goals simp
  · obtain ⟨answer, reads, split, reading, surfaced⟩ := ends.calls
    have notSubmit : ∀ call ∈ reads, GlCall.isSubmit call = false := by
      intro call member
      obtain ⟨readback, rfl⟩ := reading call member
      rfl
    have here : done.1.1.state batch.key = some s := here
    have ends : Ends batch done.1.2.2 s done.2 := ends
    generalize done.1.1 = q at here untouched ⊢
    generalize done.1.2.2 = calls at split surfaced ends ⊢
    generalize done.2 = result at surfaced ends ⊢
    constructor
    · have none_later : reads.countP GlCall.isSubmit = 0 :=
        List.countP_eq_zero.mpr fun call member => by simp [notSubmit call member]
      rw [split, List.countP_cons_of_pos rfl, none_later]
    · intro b key answer' member
      rw [split, List.mem_cons] at member
      rcases member with same | later
      · cases same
        exact ⟨rfl, batch.batchId_eq⟩
      · exact absurd (notSubmit _ later) (by simp [GlCall.isSubmit])
    · exact fun _ => ⟨registrant, released⟩
    · intro retryable
      subst retryable
      cases ends with
      | absent reference => exact ⟨⟨_, rfl, reference⟩, here⟩
    · intro glRef verified
      subst verified
      cases ends with
      | verified readback evidence shown => exact ⟨shown.posted _, evidence, here⟩
    · intro missing unexpected failed
      subst failed
      cases ends with
      | differed readback _ _ evidence shown => exact ⟨shown.posted _, evidence, here⟩
    · exact surfaced
    · intro e failed _
      subst failed
      cases ends with
      | unanswered => exact .inl here
      | unread => exact .inr (.inl here)
      | unverified _ shown => exact .inr (.inr ⟨_, _, here⟩)
    · exact untouched

end GlService

end Treasury
