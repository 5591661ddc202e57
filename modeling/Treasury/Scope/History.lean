import Treasury.Reference
import Treasury.Scope.Gate

/-! What the gate says of an asset against everything that was done to the gate. -/
namespace Treasury.Scope
open Kit Kit.Json

namespace ScopeGate
variable [External]

def rules : Docket.Rules ContentHash DualControlState Verdict (ScopeError ⊕ DualControlError) where
  missing id := .inr (.unknownItem id)
  next v s := (s.decide v).mapError .inr

def translate :
    ScopeCall → Option (Docket.Call ContentHash ScopeAssessment DualControlState Verdict)
  | .propose a preparer => some (.enter a.key a (.asserted preparer))
  | .confirm id approver => some (.move id (.confirm approver))
  | .reject id actor reason => some (.move id (.reject actor reason))

def proposal (id : ContentHash) : ScopeCall → Option (ScopeAssessment × ActorId)
  | .propose a preparer => if a.assessmentHash = .ok id then some (a, preparer) else none
  | _ => none

def roles : Roles ScopeAssessment ScopeCall where
  payload id c := (proposal id c).map Prod.fst
  preparer id c := (proposal id c).map Prod.snd
  approver id
    | .confirm key approver => if key = id then some approver else none
    | _ => none

theorem perform_cases (q : DualControlQueue ScopeAssessment) (c : ScopeCall) :
    (∃ e, ∀ index, perform ⟨q, index⟩ c = (⟨q, index⟩, .error e)) ∨
    (∃ a preparer, c = .propose a preparer ∧ ∀ index, perform ⟨q, index⟩ c =
      (⟨q.enter a.key a (.asserted preparer), index⟩, .ok (some a.key))) ∨
    (∃ id approver a preparer, c = .confirm id approver ∧
      q.item id = some (a, .asserted preparer) ∧ preparer ≠ approver ∧
      ∀ index, perform ⟨q, index⟩ c = (⟨⟨q.items.insert id (a, .confirmed preparer approver)⟩,
        index.insert (a.tenant, a.asset) id⟩, .ok none)) ∨
    ∃ id actor reason a preparer, c = .reject id actor reason ∧
      q.item id = some (a, .asserted preparer) ∧ ∀ index, perform ⟨q, index⟩ c =
        (⟨⟨q.items.insert id (a, .rejected actor reason)⟩, index⟩, .ok none) := by
  cases c with
  | propose a preparer =>
    refine .inr (.inl ⟨a, preparer, rfl, fun index => ?_⟩)
    simp only [perform, propose, a.assessmentHash_eq]
    rfl
  | confirm id approver =>
    rcases DualControlQueue.confirm_cases q id approver with
      ⟨e, refused⟩ | ⟨a, preparer, found, differ, confirmed⟩
    · refine .inl ⟨.inr e, fun index => ?_⟩
      simp only [perform, confirm, refused]
      rfl
    · refine .inr (.inr (.inl ⟨id, approver, a, preparer, rfl, found, differ, fun index => ?_⟩))
      have held := Docket.payload_of_item (q.item_insert_self id (a, .confirmed preparer approver))
      simp only [perform, confirm, confirmed, held]
      rfl
  | reject id actor reason =>
    rcases DualControlQueue.reject_cases q id actor reason with
      ⟨e, refused⟩ | ⟨a, preparer, found, rejected⟩
    · refine .inl ⟨.inr e, fun index => ?_⟩
      simp only [perform, reject, refused]
      rfl
    · refine .inr (.inr (.inr ⟨id, actor, reason, a, preparer, rfl, found, fun index => ?_⟩))
      simp only [perform, reject, rejected]
      rfl

theorem act_eq (g : ScopeGate) (c : ScopeCall) :
    act g.queue c = ((perform g c).1.queue, (perform g c).2) := by
  obtain ⟨q, index⟩ := g
  unfold act
  rcases perform_cases q c with ⟨_, acted⟩ | ⟨_, _, _, acted⟩ | ⟨_, _, _, _, _, _, _, acted⟩ |
    ⟨_, _, _, _, _, _, _, acted⟩ <;> simp only [acted]

theorem act_confirm (q : DualControlQueue ScopeAssessment) (id : ContentHash) (approver : ActorId) :
    act q (.confirm id approver) = ((DualControlQueue.confirm q id approver).1,
      ((DualControlQueue.confirm q id approver).2.mapError .inr).map fun _ => none) := by
  rcases result : DualControlQueue.confirm q id approver with ⟨queue, e | _⟩
  · simp only [act, perform, confirm, result]
  · simp only [act, perform, confirm, result]
    cases queue.payload id <;> rfl

theorem acts : Docket.Acts rules act translate where
  performs q c call translated := by
    cases c with
    | propose a preparer =>
      cases translated
      refine ⟨some a.key, ?_⟩
      simp only [act, perform, propose, a.assessmentHash_eq]
      rfl
    | confirm id approver =>
      cases translated
      refine ⟨none, (act_confirm q id approver).trans ?_⟩
      simp only [Docket.perform, rules, Docket.move_mapError]
      rfl
    | reject id actor reason =>
      cases translated
      refine ⟨none, ?_⟩
      simp only [Docket.perform, rules, Docket.move_mapError]
      rfl
  refuses q c none := by cases c <;> cases none

theorem entryBy_eq (id : ContentHash) (c : ScopeCall) :
    Docket.entryBy translate id c = (proposal id c).map fun i => (i.1, .asserted i.2) := by
  cases c with
  | propose a preparer =>
    simp [Docket.entryBy, translate, Docket.Call.entry, proposal, a.assessmentHash_eq, apply_ite]
  | confirm | reject => rfl

theorem approver_eq (id : ContentHash) (c : ScopeCall) :
    roles.approver id c = (Docket.verbBy translate id c).bind Verdict.approver := by
  cases c with
  | propose => rfl
  | confirm key approver =>
    exact (Verdict.approver_move translate (.confirm key approver) rfl id).symm
  | reject key actor reason =>
    exact ((Verdict.approver_move translate (.reject key actor reason) rfl id).trans
      (ite_self none)).symm

theorem controlled (calls : List ScopeCall) :
    DualControlled act roles DualControlState.isTerminal DualControlState.signatures calls := by
  refine dualControlled_of_proposals acts proposal entryBy_eq (fun _ _ => rfl) (fun _ _ => rfl)
    approver_eq ?_ ?_ calls
  · intro s terminal v t decided
    exact DualControlState.decide_final terminal v t (mapError_eq_ok.mp decided)
  · intro first vs s preparer approver follows signed
    obtain ⟨same, rfl, differ⟩ :=
      DualControlState.follows_signed (Docket.follows_mapError.mp follows) signed
    exact ⟨same, rfl, differ⟩

theorem run_queue (g : ScopeGate) (calls : List ScopeCall) :
    (run (advance perform) g calls).queue = run (advance act) g.queue calls ∧
      succeeded perform g calls = succeeded act g.queue calls := by
  induction calls generalizing g with
  | nil => exact ⟨rfl, rfl⟩
  | cons c calls ih =>
    have queue : (advance perform g c).queue = advance act g.queue c := by
      simp only [advance, act_eq]
    have answer : success perform g c = success act g.queue c := by
      simp only [success, act_eq]
    obtain ⟨ends, answers⟩ := ih (advance perform g c)
    rw [queue] at ends answers
    exact ⟨ends, by simp only [succeeded, answer, answers]⟩

def confirms : ScopeCall → Option ContentHash
  | .confirm id _ => some id
  | _ => none

def confirmations (calls : List ScopeCall) : List ContentHash :=
  (succeeded perform new calls).filterMap confirms

section
omit [External]

/-- The queue holds an assessment of this tenant and asset under the hash. -/
def Covers (q : DualControlQueue ScopeAssessment) (key : TenantId × AssetId) (id : ContentHash) :
    Bool :=
  (q.payload id).any fun a => (a.tenant, a.asset) = key

/-- These items are confirmed, and of each asset the last of them governs. -/
structure Governed (ids : List ContentHash) (g : ScopeGate) : Prop where
  stands : ∀ id ∈ ids, ∃ a preparer approver,
    g.queue.item id = some (a, .confirmed preparer approver)
  governs : ∀ key, g.confirmed.lookup key = (ids.filter (Covers g.queue key)).getLast?

theorem governed_new : Governed [] new := ⟨nofun, fun key => Finmap.lookup_empty key⟩

theorem filter_covers {q r : DualControlQueue ScopeAssessment} {ids : List ContentHash}
    (kept : ∀ id ∈ ids, r.payload id = q.payload id) (key : TenantId × AssetId) :
    ids.filter (Covers r key) = ids.filter (Covers q key) := by
  refine List.filter_congr fun id member => ?_
  simp only [Covers, kept id member]

theorem payload_insert {q : DualControlQueue ScopeAssessment} {id : ContentHash}
    {a : ScopeAssessment} {old : DualControlState} (found : q.item id = some (a, old))
    (s : DualControlState) (other : ContentHash) :
    Docket.payload ⟨q.items.insert id (a, s)⟩ other = q.payload other := by
  simp only [Docket.payload, Docket.item_insert]
  split
  · rename_i same
    simp only [same, found, Option.map_some]
  · rfl

section
variable {ids : List ContentHash} {g : ScopeGate} {id : ContentHash} {a : ScopeAssessment}
  {preparer : ActorId}

theorem Governed.entered (governed : Governed ids g) :
    Governed ids ⟨g.queue.enter id a (.asserted preparer), g.confirmed⟩ where
  stands key member := by
    obtain ⟨b, first, second, confirmed⟩ := governed.stands key member
    exact ⟨b, first, second, Docket.item_enter_of_some confirmed a _⟩
  governs key := by
    refine (governed.governs key).trans (congrArg List.getLast? (filter_covers ?_ key).symm)
    intro other member
    obtain ⟨b, first, second, confirmed⟩ := governed.stands other member
    simp only [Docket.payload, Docket.item_enter_of_some confirmed a, confirmed]

theorem Governed.stands_insert (governed : Governed ids g)
    (found : g.queue.item id = some (a, .asserted preparer)) (s : DualControlState) :
    ∀ key ∈ ids, ∃ b first second,
      Docket.item ⟨g.queue.items.insert id (a, s)⟩ key = some (b, .confirmed first second) := by
  intro key member
  obtain ⟨b, first, second, confirmed⟩ := governed.stands key member
  have other : key ≠ id := by
    rintro rfl
    cases found.symm.trans confirmed
  exact ⟨b, first, second, by simp only [Docket.item_insert, other, if_false, confirmed]⟩

theorem Governed.rejected (governed : Governed ids g)
    (found : g.queue.item id = some (a, .asserted preparer)) (actor : ActorId) (reason : String) :
    Governed ids ⟨⟨g.queue.items.insert id (a, .rejected actor reason)⟩, g.confirmed⟩ where
  stands := governed.stands_insert found _
  governs key := (governed.governs key).trans
    (congrArg List.getLast? (filter_covers (fun other _ => payload_insert found _ other) key).symm)

theorem Governed.confirmed (governed : Governed ids g)
    (found : g.queue.item id = some (a, .asserted preparer)) (approver : ActorId) :
    Governed (ids ++ [id]) ⟨⟨g.queue.items.insert id (a, .confirmed preparer approver)⟩,
      g.confirmed.insert (a.tenant, a.asset) id⟩ where
  stands key member := by
    rcases List.mem_append.mp member with old | last
    · exact governed.stands_insert found _ key old
    · exact ⟨a, preparer, approver, by simp [List.mem_singleton.mp last]⟩
  governs key := by
    have kept : ids.filter
        (Covers ⟨g.queue.items.insert id (a, .confirmed preparer approver)⟩ key) =
        ids.filter (Covers g.queue key) :=
      filter_covers (fun other _ => payload_insert found _ other) key
    have covers : Covers ⟨g.queue.items.insert id (a, .confirmed preparer approver)⟩ key id =
        decide ((a.tenant, a.asset) = key) := by
      simp only [Covers, Docket.payload, Docket.item_insert_self, Option.map_some, Option.any_some]
    simp only [List.filter_append, kept, List.filter_singleton, covers]
    by_cases same : (a.tenant, a.asset) = key
    · subst same
      simp [Finmap.lookup_insert]
    · simp only [same, decide_false, cond_false, List.append_nil,
        Finmap.lookup_insert_of_ne _ (Ne.symm same), governed.governs key]

end

end

theorem governed (calls : List ScopeCall) :
    Governed (confirmations calls) (run (advance perform) new calls) := by
  induction calls using List.reverseRecOn with
  | nil => exact governed_new
  | append_singleton calls c ih =>
    have ends : run (advance perform) new (calls ++ [c]) =
        (perform (run (advance perform) new calls) c).1 := run_append ..
    have added : confirmations (calls ++ [c]) = confirmations calls ++
        (success perform (run (advance perform) new calls) c).toList.filterMap confirms := by
      simp only [confirmations, succeeded_concat, List.filterMap_append]
    rw [ends, added]
    generalize run (advance perform) new calls = g at ih ⊢
    obtain ⟨q, index⟩ := g
    rcases perform_cases q c with ⟨e, refused⟩ | ⟨a, preparer, rfl, entered⟩ |
      ⟨id, approver, a, preparer, rfl, found, differ, moved⟩ |
      ⟨id, actor, reason, a, preparer, rfl, found, moved⟩
    · simpa only [success, refused, Option.toList_none, List.filterMap_nil, List.append_nil]
        using ih
    · simpa [success, entered, confirms, List.filterMap_cons] using ih.entered
    · simpa [success, moved, confirms, List.filterMap_cons] using ih.confirmed found approver
    · simpa [success, moved, confirms, List.filterMap_cons] using ih.rejected found actor reason

def Proposed (calls : List ScopeCall) (id : ContentHash) (a : ScopeAssessment) : Prop :=
  a.assessmentHash = .ok id ∧ ∃ preparer, .propose a preparer ∈ calls

/-- An assessment of exactly this tenant and asset was proposed under the hash. -/
def concerns (calls : List ScopeCall) (tenant : TenantId) (asset : AssetId) (id : ContentHash) :
    Bool :=
  calls.any fun
    | .propose a _ => a.assessmentHash = .ok id ∧ a.tenant = tenant ∧ a.asset = asset
    | _ => false

/-- The confirmed assessments of exactly this tenant and asset, in the order in which they
were confirmed. -/
def confirmedOf (calls : List ScopeCall) (tenant : TenantId) (asset : AssetId) : List ContentHash :=
  (confirmations calls).filter (concerns calls tenant asset)

/-- What is hashed for the assessments that are proposed. -/
def hashed (calls : List ScopeCall) : Set Bytes :=
  {b | ∃ a preparer, .propose a preparer ∈ calls ∧ b = a.bytes}

theorem concerns_iff {calls : List ScopeCall} {tenant : TenantId} {asset : AssetId}
    {id : ContentHash} : concerns calls tenant asset id = true ↔
      ∃ a, Proposed calls id a ∧ a.tenant = tenant ∧ a.asset = asset := by
  simp only [concerns, List.any_eq_true, Proposed]
  constructor
  · rintro ⟨c, member, holds⟩
    cases c with
    | propose a preparer =>
      obtain ⟨hash, tenants, assets⟩ := of_decide_eq_true holds
      exact ⟨a, ⟨hash, preparer, member⟩, tenants, assets⟩
    | confirm | reject => cases holds
  · rintro ⟨a, ⟨hash, preparer, member⟩, rfl, rfl⟩
    exact ⟨.propose a preparer, member, decide_eq_true ⟨hash, rfl, rfl⟩⟩

theorem proposed_of_payload {calls : List ScopeCall} {id : ContentHash} {a : ScopeAssessment}
    (held : (run (advance perform) new calls).queue.payload id = some a) : Proposed calls id a := by
  obtain ⟨queue, _⟩ := run_queue new calls
  obtain ⟨⟨_, s⟩, found, rfl⟩ := Option.map_eq_some_iff.mp held
  have found' : (run (advance act) .empty calls).item id = some (_, s) := queue ▸ found
  have first := (controlled calls).payload id _ s found'
  obtain ⟨c, member, payload⟩ := List.exists_of_findSome?_eq_some first
  obtain ⟨⟨_, preparer⟩, proposes, rfl⟩ := Option.map_eq_some_iff.mp payload
  cases c with
  | propose b actor =>
    simp only [proposal] at proposes
    split at proposes
    · rename_i hash
      cases proposes
      exact ⟨hash, preparer, mem_succeeded act member⟩
    · cases proposes
  | confirm | reject => cases proposes

theorem Proposed.unique {calls : List ScopeCall} (injective : Set.InjOn sha256 (hashed calls))
    {id : ContentHash} {a b : ScopeAssessment} (first : Proposed calls id a)
    (second : Proposed calls id b) : a = b := by
  obtain ⟨hashA, preparerA, memberA⟩ := first
  obtain ⟨hashB, preparerB, memberB⟩ := second
  rw [a.assessmentHash_eq] at hashA
  rw [b.assessmentHash_eq] at hashB
  have digests : sha256 a.bytes = sha256 b.bytes :=
    (Except.ok.inj hashA).trans (Except.ok.inj hashB).symm
  exact ScopeAssessment.bytes_injective
    (injective ⟨a, preparerA, memberA, rfl⟩ ⟨b, preparerB, memberB, rfl⟩ digests)

section
variable {calls : List ScopeCall} (injective : Set.InjOn sha256 (hashed calls))
include injective

theorem covers_eq_concerns {id : ContentHash} (confirmed : id ∈ confirmations calls)
    (tenant : TenantId) (asset : AssetId) :
    Covers (run (advance perform) new calls).queue (tenant, asset) id =
      concerns calls tenant asset id := by
  obtain ⟨a, _, _, found⟩ := (governed calls).stands id confirmed
  have held : (run (advance perform) new calls).queue.payload id = some a :=
    Docket.payload_of_item found
  have proposed := proposed_of_payload held
  have same : concerns calls tenant asset id = true ↔ a.tenant = tenant ∧ a.asset = asset := by
    rw [concerns_iff]
    constructor
    · rintro ⟨b, other, rfl, rfl⟩
      rw [proposed.unique injective other]
      exact ⟨rfl, rfl⟩
    · rintro ⟨rfl, rfl⟩
      exact ⟨a, proposed, rfl, rfl⟩
  have covers : Covers (run (advance perform) new calls).queue (tenant, asset) id =
      decide (a.tenant = tenant ∧ a.asset = asset) := by
    simp only [Covers, held, Option.any_some, Prod.mk.injEq]
  rw [covers, Bool.eq_iff_iff, same, decide_eq_true_iff]

/-- The index points to the last confirmed assessment of the asset. -/
theorem lookup_eq (tenant : TenantId) (asset : AssetId) :
    (run (advance perform) new calls).confirmed.lookup (tenant, asset) =
      (confirmedOf calls tenant asset).getLast? := by
  refine ((governed calls).governs (tenant, asset)).trans (congrArg List.getLast? ?_)
  exact List.filter_congr fun id member => covers_eq_concerns injective member tenant asset

theorem check_cases (tenant : TenantId) (asset : AssetId) :
    (confirmedOf calls tenant asset = [] ∧
      (run (advance perform) new calls).check tenant asset = .blockedNoAssessment) ∨
    ∃ id a preparer approver, (confirmedOf calls tenant asset).getLast? = some id ∧
      Proposed calls id a ∧
      (run (advance perform) new calls).queue.item id = some (a, .confirmed preparer approver) ∧
      (run (advance perform) new calls).check tenant asset =
        match a.verdict with
        | .inScope => .proceed id
        | .outOfScope notMet undetermined =>
          .blockedOutOfScope id (.outOfScope notMet undetermined) := by
  have lookup := lookup_eq injective tenant asset
  unfold check
  cases last : (confirmedOf calls tenant asset).getLast? with
  | none =>
    rw [last] at lookup
    simp only [lookup]
    exact .inl ⟨List.getLast?_eq_none_iff.mp last, trivial⟩
  | some id =>
    rw [last] at lookup
    have member : id ∈ confirmations calls :=
      List.mem_of_mem_filter (List.mem_of_getLast? last)
    obtain ⟨a, preparer, approver, found⟩ := (governed calls).stands id member
    have held : (run (advance perform) new calls).queue.payload id = some a :=
      Docket.payload_of_item found
    simp only [lookup, held]
    exact .inr ⟨id, a, preparer, approver, rfl, proposed_of_payload held, found, rfl⟩

end

omit [External] in
theorem check_congr {g h : ScopeGate} {tenant : TenantId} {asset : AssetId}
    (lookup : h.confirmed.lookup (tenant, asset) = g.confirmed.lookup (tenant, asset))
    (payload : ∀ id, g.confirmed.lookup (tenant, asset) = some id →
      h.queue.payload id = g.queue.payload id) : h.check tenant asset = g.check tenant asset := by
  unfold check
  rw [lookup]
  cases governs : g.confirmed.lookup (tenant, asset) with
  | none => rfl
  | some id => simp only [payload id governs]

def Confirms (calls : List ScopeCall) (tenant : TenantId) (asset : AssetId) (c : ScopeCall) :
    Prop :=
  ∃ id approver, c = .confirm id approver ∧ concerns calls tenant asset id = true ∧
    ∃ answer, (perform (run (advance perform) new calls) c).2 = .ok answer

/-- Nothing but a confirmation for the asset itself changes the answer. -/
theorem check_unmoved {calls : List ScopeCall} {tenant : TenantId} {asset : AssetId} {c : ScopeCall}
    (other : ¬ Confirms calls tenant asset c) :
    (advance perform (run (advance perform) new calls) c).check tenant asset =
      (run (advance perform) new calls).check tenant asset := by
  have governed := governed calls
  have proposed (id : ContentHash) (a : ScopeAssessment) := @proposed_of_payload _ calls id a
  unfold Confirms at other
  generalize run (advance perform) new calls = g at governed proposed other ⊢
  obtain ⟨q, index⟩ := g
  unfold advance
  rcases perform_cases q c with ⟨e, refused⟩ | ⟨a, preparer, rfl, entered⟩ |
    ⟨id, approver, a, preparer, rfl, found, differ, moved⟩ |
    ⟨id, actor, reason, a, preparer, rfl, found, moved⟩
  · simp only [refused]
  · rw [entered]
    refine check_congr rfl fun id governs => ?_
    have last := (governed.governs (tenant, asset)).symm.trans governs
    obtain ⟨b, first, second, confirmed⟩ :=
      governed.stands id (List.mem_of_mem_filter (List.mem_of_getLast? last))
    simp only [Docket.payload, Docket.item_enter_of_some confirmed a, confirmed]
  · have apart : (tenant, asset) ≠ (a.tenant, a.asset) := by
      intro same
      cases same
      have proposed := proposed id a (Docket.payload_of_item found)
      exact other ⟨id, approver, rfl, concerns_iff.mpr ⟨a, proposed, rfl, rfl⟩, none, by rw [moved]⟩
    rw [moved]
    exact check_congr (Finmap.lookup_insert_of_ne _ apart) fun key _ => payload_insert found _ key
  · rw [moved]
    exact check_congr rfl fun key _ => payload_insert found _ key

/-- Two different actors prepared and approved the assessment. -/
def SignedByTwo (calls : List ScopeCall) (id : ContentHash) : Prop :=
  ∃ preparer approver, (succeeded perform new calls).findSome? (roles.preparer id) = some preparer ∧
    (succeeded perform new calls).filterMap (roles.approver id) = [approver] ∧ preparer ≠ approver

/-- The gate lets an asset proceed exactly when the last assessment that was confirmed for it
finds all six criteria met, under two signatures. It names the criteria that are not when that
assessment finds some, and it says that there is none exactly when none was confirmed. Other calls
do not change its answer. -/
theorem gate_answers (calls : List ScopeCall) (injective : Set.InjOn sha256 (hashed calls))
    (tenant : TenantId) (asset : AssetId) :
    (∀ id, (run (advance perform) new calls).check tenant asset = .proceed id ↔
      (confirmedOf calls tenant asset).getLast? = some id ∧
        (∃ a, Proposed calls id a ∧ a.criteria.AllMet) ∧ SignedByTwo calls id) ∧
    (∀ id notMet undetermined, (run (advance perform) new calls).check tenant asset =
        .blockedOutOfScope id (.outOfScope notMet undetermined) ↔
      (confirmedOf calls tenant asset).getLast? = some id ∧
        ∃ a, Proposed calls id a ∧ ¬a.criteria.AllMet ∧
          notMet = a.criteria.withStatus .notMet ∧
          undetermined = a.criteria.withStatus .undetermined) ∧
    ((run (advance perform) new calls).check tenant asset = .blockedNoAssessment ↔
      confirmedOf calls tenant asset = []) ∧
    ∀ c, ¬ Confirms calls tenant asset c →
      (advance perform (run (advance perform) new calls) c).check tenant asset =
        (run (advance perform) new calls).check tenant asset := by
  refine ⟨?_, ?_, ?_, fun c => check_unmoved⟩
  · intro id
    rcases check_cases injective tenant asset with ⟨none, blocked⟩ |
      ⟨key, a, preparer, approver, last, proposed, found, answer⟩
    · rw [blocked, none]
      exact iff_of_false (by simp) (by simp)
    · obtain ⟨queue, taken⟩ := run_queue new calls
      have signed : SignedByTwo calls key := by
        rw [queue] at found
        exact ⟨preparer, approver, taken ▸ (controlled calls).signed key a _ _ _ found rfl⟩
      rw [answer, last]
      constructor
      · intro proceeds
        cases verdict : a.verdict with
        | inScope =>
          simp only [verdict, GateDecision.proceed.injEq] at proceeds
          subst proceeds
          exact ⟨rfl, ⟨a, proposed, ScopeAssessment.verdict_inScope.mp verdict⟩, signed⟩
        | outOfScope => simp [verdict] at proceeds
      · rintro ⟨same, ⟨b, again, allMet⟩, _⟩
        cases same
        obtain rfl := proposed.unique injective again
        simp only [ScopeAssessment.verdict_inScope.mpr allMet]
  · intro id notMet undetermined
    rcases check_cases injective tenant asset with ⟨none, blocked⟩ |
      ⟨key, a, _, _, last, proposed, _, answer⟩
    · rw [blocked, none]
      exact iff_of_false (by simp) (by simp)
    · rw [answer, last]
      constructor
      · intro blocked
        cases verdict : a.verdict with
        | inScope => simp [verdict] at blocked
        | outOfScope =>
          simp only [verdict, GateDecision.blockedOutOfScope.injEq] at blocked
          obtain ⟨rfl, same⟩ := blocked
          exact ⟨rfl, a, proposed, ScopeAssessment.verdict_outOfScope.mp (verdict.trans same)⟩
      · rintro ⟨same, b, again, outside⟩
        cases same
        obtain rfl := proposed.unique injective again
        simp only [ScopeAssessment.verdict_outOfScope.mpr outside]
  · rcases check_cases injective tenant asset with ⟨none, blocked⟩ |
      ⟨key, a, _, _, last, _, _, answer⟩
    · exact iff_of_true blocked none
    · refine iff_of_false ?_ ?_
      · rw [answer]
        cases a.verdict <;> simp
      · intro none
        simp [none] at last

def approvedBy (a : ScopeAssessment) (preparer approver : ActorId) : List ScopeCall :=
  [.propose a preparer, .confirm a.key approver]

theorem hashed_approvedBy (a : ScopeAssessment) (preparer approver : ActorId) :
    Set.InjOn sha256 (hashed (approvedBy a preparer approver)) := by
  have only : ∀ b ∈ hashed (approvedBy a preparer approver), b = a.bytes := by
    intro x inputs
    obtain ⟨b, actor, member, same⟩ := inputs
    simp only [approvedBy, List.mem_cons, ScopeCall.propose.injEq, List.not_mem_nil, or_false,
      reduceCtorEq] at member
    rw [same, member.1]
  intro x hx y hy _
  rw [only x hx, only y hy]

theorem succeeded_approvedBy (a : ScopeAssessment) {preparer approver : ActorId}
    (differ : preparer ≠ approver) : succeeded perform new (approvedBy a preparer approver) =
      approvedBy a preparer approver := by
  have proposed : perform new (.propose a preparer) =
      (⟨Docket.empty.enter a.key a (.asserted preparer), ∅⟩, .ok (some a.key)) := by
    simp only [perform, propose, a.assessmentHash_eq]
    rfl
  have waits : (Docket.empty.enter a.key a (DualControlState.asserted preparer)).item a.key =
      some (a, .asserted preparer) := by simp [Docket.item_enter_self]
  rcases perform_cases (Docket.empty.enter a.key a (.asserted preparer))
    (.confirm a.key approver) with ⟨e, refused⟩ | ⟨_, _, other, _⟩ |
      ⟨id, _, _, _, same, _, _, moved⟩ | ⟨_, _, _, _, _, other, _⟩
  · have answer := refused ∅
    simp [perform, confirm, DualControlQueue.confirm, Docket.move, waits, DualControlState.confirm,
      differ, Docket.payload, Except.mapError, Except.map] at answer
  · cases other
  · cases same
    simp [approvedBy, succeeded, success, advance, proposed, moved]
  · cases other

theorem confirmedOf_approvedBy (a : ScopeAssessment) {preparer approver : ActorId}
    (differ : preparer ≠ approver) :
    confirmedOf (approvedBy a preparer approver) a.tenant a.asset = [a.key] ∧
      Proposed (approvedBy a preparer approver) a.key a ∧
      SignedByTwo (approvedBy a preparer approver) a.key := by
  have taken := succeeded_approvedBy a differ
  have proposed : Proposed (approvedBy a preparer approver) a.key a :=
    ⟨a.assessmentHash_eq, preparer, List.mem_cons_self⟩
  refine ⟨?_, proposed, preparer, approver, ?_, ?_, differ⟩
  · have concerned := concerns_iff.mpr ⟨a, proposed, rfl, rfl⟩
    simp only [confirmedOf, confirmations, taken]
    simp [approvedBy, confirms, List.filterMap_cons] at concerned ⊢
    exact concerned
  · rw [taken]
    simp [approvedBy, roles, proposal, a.assessmentHash_eq]
  · rw [taken]
    simp [approvedBy, roles]

def bitcoin : ScopeAssessment :=
  ⟨⟨"acme"⟩, ⟨"BTC"⟩, ⟨.met, .met, .met, .met, .met, .met⟩, .filled 9⟩

omit [External] in
/-- One assessment, proposed and confirmed. -/
theorem gate_answers_bitcoin :
    letI : External := reference
    (run (advance perform) new (approvedBy bitcoin ⟨"alice"⟩ ⟨"bob"⟩)).check ⟨"acme"⟩ ⟨"BTC"⟩ =
      .proceed bitcoin.key := by
  have differ : (⟨"alice"⟩ : ActorId) ≠ ⟨"bob"⟩ := by decide
  obtain ⟨confirmed, proposed, signed⟩ := @confirmedOf_approvedBy reference bitcoin _ _ differ
  have allMet : bitcoin.criteria.AllMet := by
    constructor <;> rfl
  exact ((@gate_answers reference (@approvedBy reference bitcoin ⟨"alice"⟩ ⟨"bob"⟩)
    (@hashed_approvedBy reference bitcoin ⟨"alice"⟩ ⟨"bob"⟩) ⟨"acme"⟩ ⟨"BTC"⟩).1 _).mpr
      ⟨congrArg List.getLast? confirmed, ⟨bitcoin, proposed, allMet⟩, signed⟩

end ScopeGate

end Treasury.Scope
