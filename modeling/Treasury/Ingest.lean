import Treasury.Close.Checkpoint
import Treasury.Reference

/-! The boundary to the venues: the sealed list of the requests that may leave the network, and
the scopes that a venue's key may have. -/
namespace Treasury.Ingest
open Kit Kit.Json

def allowlistSchema : String := "treasury-ingest/allowlist/v1"

inductive HttpMethod where
  | get
  | head
  | post
  deriving DecidableEq

def HttpMethod.isRead : HttpMethod → Bool
  | .get | .head => true
  | .post => false

def HttpMethod.name : HttpMethod → String
  | .get => "GET"
  | .head => "HEAD"
  | .post => "POST"

inductive PathPattern where
  | exact (path : String)
  | literalPrefix (path : String)
  deriving DecidableEq

def PathPattern.matches : PathPattern → String → Bool
  | exact p, path => path = p
  | literalPrefix p, path => p.toList.isPrefixOf path.toList

namespace PathPattern

def tag : PathPattern → String
  | exact _ => "exact"
  | literalPrefix _ => "prefix"

def path : PathPattern → String
  | exact path | literalPrefix path => path

def toJson (pattern : PathPattern) : Value :=
  .object (ofEntries [("match", .string pattern.tag), ("path", .string pattern.path)])

theorem toJson_injective {a b : PathPattern} (h : a.toJson = b.toJson) : a = b := by
  have same := ofEntries_injective (by simp) (by simp) (Value.object.inj h)
  simp only [List.cons.injEq, Prod.mk.injEq, true_and, and_true, Value.string.injEq] at same
  cases a <;> cases b <;> simp_all [tag, path]

theorem flat (pattern : PathPattern) : Flat 1 pattern.toJson := flat_object (by simp) (by simp)

end PathPattern

structure AllowlistEntry where
  venue : VenueId
  method : HttpMethod
  pattern : PathPattern
  justification : Option String
  deriving DecidableEq

structure Request where
  venue : VenueId
  method : HttpMethod
  path : String

namespace AllowlistEntry

/-- What does not only read is justified in writing. -/
def Justified (entry : AllowlistEntry) : Prop :=
  entry.method.isRead ∨ ∃ why ∈ entry.justification, why ≠ ""

instance decidableJustified : DecidablePred Justified := fun entry =>
  inferInstanceAs (Decidable (_ ∨ ∃ why ∈ entry.justification, why ≠ ""))

def Admits (entry : AllowlistEntry) (request : Request) : Prop :=
  entry.venue = request.venue ∧ entry.method = request.method ∧
    entry.pattern.matches request.path

instance decidableAdmits (request : Request) : DecidablePred (Admits · request) := fun entry =>
  inferInstanceAs (Decidable (_ ∧ _ ∧ entry.pattern.matches request.path = true))

def members (entry : AllowlistEntry) : List (String × Value) :=
  [("venue", .string entry.venue.value), ("method", .string entry.method.name),
    ("pattern", entry.pattern.toJson), ("justification", nullable .string entry.justification)]

def toJson (entry : AllowlistEntry) : Value := .object (ofEntries entry.members)

theorem toJson_injective {a b : AllowlistEntry} (h : a.toJson = b.toJson) : a = b := by
  have same := ofEntries_injective (by simp [members]) (by simp [members]) (Value.object.inj h)
  simp only [members, List.cons.injEq, Prod.mk.injEq, true_and, and_true, Value.string.injEq]
    at same
  obtain ⟨venue, method, pattern, justification⟩ := same
  obtain ⟨⟨venueA⟩, methodA, patternA, justificationA⟩ := a
  obtain ⟨⟨venueB⟩, methodB, patternB, justificationB⟩ := b
  obtain rfl : venueA = venueB := venue
  obtain rfl : methodA = methodB := by cases methodA <;> cases methodB <;> simp_all [HttpMethod.name]
  obtain rfl : patternA = patternB := PathPattern.toJson_injective pattern
  obtain rfl : justificationA = justificationB :=
    nullable_injective (fun _ _ => Value.string.inj) (fun _ => Value.noConfusion) justification
  rfl

theorem flat (entry : AllowlistEntry) : Flat 2 entry.toJson := by
  have justification : Flat 0 (nullable .string entry.justification) :=
    nullable_flat (flat_string 0) _
  refine flat_object (by simp [members]) ?_
  simp only [members, List.forall_mem_cons, List.not_mem_nil, false_imp_iff, implies_true,
    and_true, flat_string, true_and]
  exact ⟨entry.pattern.flat, justification.mono (by decide)⟩

end AllowlistEntry

inductive AllowlistError where
  | noApprovers
  | unjustifiedNonReadMethod (index : Nat)
  | canon (e : CanonError)
  deriving DecidableEq

inductive EgressDecision where
  | allow (entryIndex : Nat)
  | deny
  deriving DecidableEq

def allowlistMembers (entries : List AllowlistEntry) (approvers : List ActorId) :
    List (String × Value) :=
  [("schema", .string allowlistSchema), ("entries", .array (entries.map AllowlistEntry.toJson)),
    ("approvers", .array (approvers.map fun a => .string a.value))]

def allowlistEnvelope (entries : List AllowlistEntry) (approvers : List ActorId) : Value :=
  .object (ofEntries (allowlistMembers entries approvers))

theorem allowlistEnvelope_injective {entries others : List AllowlistEntry}
    {approvers reviewers : List ActorId}
    (h : allowlistEnvelope entries approvers = allowlistEnvelope others reviewers) :
    entries = others ∧ approvers = reviewers := by
  have same := ofEntries_injective (by simp [allowlistMembers]) (by simp [allowlistMembers])
    (Value.object.inj h)
  simp only [allowlistMembers, List.cons.injEq, Prod.mk.injEq, true_and, and_true,
    Value.array.injEq] at same
  exact ⟨List.map_injective_iff.mpr (fun _ _ => AllowlistEntry.toJson_injective) same.1,
    approvers_injective same.2⟩

theorem allowlistEnvelope_flat (entries : List AllowlistEntry) (approvers : List ActorId) :
    Flat 4 (allowlistEnvelope entries approvers) := by
  have listed : Flat 3 (.array (entries.map AllowlistEntry.toJson)) := by
    refine flat_array fun v member => ?_
    obtain ⟨entry, -, rfl⟩ := List.mem_map.mp member
    exact entry.flat
  have approved : Flat 1 (.array (approvers.map fun a => .string a.value)) := flat_array (by simp)
  refine flat_object (by simp [allowlistMembers]) ?_
  simp only [allowlistMembers, List.forall_mem_cons, List.not_mem_nil, false_imp_iff,
    implies_true, and_true, flat_string, true_and]
  exact ⟨listed, approved.mono (by decide)⟩

section
variable [External]

def allowlistBytes (entries : List AllowlistEntry) (approvers : List ActorId) : Bytes :=
  utf8 (toText (allowlistEnvelope entries approvers))

theorem allowlistBytes_injective {entries others : List AllowlistEntry}
    {approvers reviewers : List ActorId}
    (h : allowlistBytes entries approvers = allowlistBytes others reviewers) :
    entries = others ∧ approvers = reviewers :=
  allowlistEnvelope_injective (toText_flat_injective (allowlistEnvelope_flat entries approvers)
    (allowlistEnvelope_flat others reviewers) h)

/-- A list as it is sealed: approved, justified where it lets more than reads through, and known
by its hash. -/
structure EgressAllowlist where
  entries : List AllowlistEntry
  approvers : List ActorId
  allowlistHash : ContentHash
  approved : approvers ≠ []
  justified : ∀ entry ∈ entries, entry.Justified
  committed : allowlistHash = sha256 (allowlistBytes entries approvers)

def unjustified (entries : List AllowlistEntry) : Option Nat :=
  entries.findIdx? fun entry => ¬ entry.Justified

omit [External] in
theorem unjustified_eq_none {entries : List AllowlistEntry} :
    unjustified entries = none ↔ ∀ entry ∈ entries, entry.Justified := by
  simp [unjustified, List.findIdx?_eq_none_iff]

theorem allowlist_canonical (entries : List AllowlistEntry) (approvers : List ActorId) :
    canonicalBytes (allowlistEnvelope entries approvers) =
      .ok (allowlistBytes entries approvers) :=
  canonicalBytes_flat (allowlistEnvelope_flat entries approvers) (by decide)

theorem committed_of_canonical {entries : List AllowlistEntry} {approvers : List ActorId}
    {bytes : Bytes} (written : canonicalBytes (allowlistEnvelope entries approvers) = .ok bytes) :
    sha256 bytes = sha256 (allowlistBytes entries approvers) := by
  rw [allowlist_canonical] at written
  rw [Except.ok.inj written]

namespace EgressAllowlist

theorem ext_data {a b : EgressAllowlist} (entries : a.entries = b.entries)
    (approvers : a.approvers = b.approvers) : a = b := by
  have hashes : a.allowlistHash = b.allowlistHash := by
    rw [a.committed, b.committed, entries, approvers]
  cases a; cases b
  cases entries; cases approvers; cases hashes
  rfl

end EgressAllowlist

def EgressAllowlist.«seal» (entries : List AllowlistEntry) (approvers : List ActorId) :
    Except AllowlistError EgressAllowlist :=
  if approved : approvers = [] then .error .noApprovers
  else match justified : unjustified entries with
    | some index => .error (.unjustifiedNonReadMethod index)
    | none => match written : canonicalBytes (allowlistEnvelope entries approvers) with
      | .error e => .error (.canon e)
      | .ok bytes => .ok ⟨entries, approvers, sha256 bytes, approved,
          unjustified_eq_none.mp justified, committed_of_canonical written⟩

def EgressAllowlist.decide (list : EgressAllowlist) (request : Request) : EgressDecision :=
  match list.entries.findIdx? fun entry => entry.Admits request with
  | some entryIndex => .allow entryIndex
  | none => .deny

namespace EgressAllowlist

variable {entries others : List AllowlistEntry} {approvers reviewers : List ActorId}
variable {list reviewed : EgressAllowlist} {request : Request}

theorem seal_ok (sealed : «seal» entries approvers = .ok list) :
    list.entries = entries ∧ list.approvers = approvers := by
  unfold «seal» at sealed
  split at sealed
  · cases sealed
  · split at sealed
    · cases sealed
    · split at sealed
      · cases sealed
      · cases sealed
        exact ⟨rfl, rfl⟩

theorem seal_iff : (∃ list, «seal» entries approvers = .ok list) ↔
    approvers ≠ [] ∧ ∀ entry ∈ entries, entry.Justified := by
  constructor
  · rintro ⟨list, sealed⟩
    obtain ⟨rfl, rfl⟩ := seal_ok sealed
    exact ⟨list.approved, list.justified⟩
  · rintro ⟨approved, justified⟩
    unfold «seal»
    rw [dif_neg approved]
    split
    · rename_i found
      rw [unjustified_eq_none.mpr justified] at found
      cases found
    · split
      · rename_i refused
        rw [allowlist_canonical] at refused
        cases refused
      · exact ⟨_, rfl⟩

theorem decide_allow {entryIndex : Nat} (allowed : list.decide request = .allow entryIndex) :
    ∃ entry, list.entries[entryIndex]? = some entry ∧ entry.Admits request := by
  unfold EgressAllowlist.decide at allowed
  split at allowed
  · rename_i index found
    obtain rfl := EgressDecision.allow.inj allowed
    obtain ⟨bound, admits, -⟩ := List.findIdx?_eq_some_iff_getElem.mp found
    exact ⟨_, List.getElem?_eq_getElem bound, of_decide_eq_true admits⟩
  · cases allowed

theorem decide_deny : list.decide request = .deny ↔
    ∀ entry ∈ list.entries, ¬ entry.Admits request := by
  unfold EgressAllowlist.decide
  split
  · rename_i index found
    obtain ⟨bound, admits, -⟩ := List.findIdx?_eq_some_iff_getElem.mp found
    exact iff_of_false (fun same => by cases same) fun none =>
      none _ (List.getElem_mem bound) (of_decide_eq_true admits)
  · rename_i none
    simpa using none

theorem eq_of_hash (injective : Set.InjOn sha256
      {allowlistBytes list.entries list.approvers,
        allowlistBytes reviewed.entries reviewed.approvers})
    (same : list.allowlistHash = reviewed.allowlistHash) : list = reviewed := by
  rw [list.committed, reviewed.committed] at same
  have bytes := injective (Set.mem_insert _ _) (Set.mem_insert_of_mem _ rfl) same
  exact ext_data (allowlistBytes_injective bytes).1 (allowlistBytes_injective bytes).2

/-- The hash settles what leaves the network. Through a list that was sealed with the hash of the
list that was reviewed goes what an entry of that list names, and nothing else. What goes is
approved, and where it does not only read it is justified. -/
theorem hash_settles (injective : Set.InjOn sha256
      {allowlistBytes entries approvers, allowlistBytes others reviewers})
    (deployed : «seal» entries approvers = .ok list)
    (review : «seal» others reviewers = .ok reviewed)
    (same : list.allowlistHash = reviewed.allowlistHash) (requests : List Request) :
    requests.map list.decide = requests.map reviewed.decide ∧
      ∀ request ∈ requests,
        (list.decide request = .deny ↔ ∀ entry ∈ others, ¬ entry.Admits request) ∧
        ∀ entryIndex, list.decide request = .allow entryIndex → reviewers ≠ [] ∧
          ∃ entry, others[entryIndex]? = some entry ∧ entry.Admits request ∧
            (request.method.isRead ∨ ∃ why ∈ entry.justification, why ≠ "") := by
  obtain ⟨rfl, rfl⟩ := seal_ok deployed
  obtain ⟨rfl, rfl⟩ := seal_ok review
  obtain rfl := eq_of_hash injective same
  refine ⟨rfl, fun request _ => ⟨decide_deny, fun entryIndex allowed => ?_⟩⟩
  obtain ⟨entry, listed, admits⟩ := decide_allow allowed
  have justified := list.justified entry (List.mem_of_getElem? listed)
  rw [AllowlistEntry.Justified, admits.2.1] at justified
  exact ⟨list.approved, entry, listed, admits, justified⟩

omit [External] in
/-- Reads of the accounts, listed once and reviewed. -/
theorem hash_settles_accounts :
    letI : External := reference
    ∃ list, «seal» [⟨⟨"kraken"⟩, .get, .literalPrefix "/v1/accounts", none⟩] [⟨"cto"⟩] = .ok list ∧
      (list.decide ⟨⟨"kraken"⟩, .post, "/v1/accounts/1"⟩ = .deny ↔ ∀ entry ∈ list.entries,
        ¬ entry.Admits ⟨⟨"kraken"⟩, .post, "/v1/accounts/1"⟩) := by
  let _ : External := reference
  obtain ⟨list, sealed⟩ := seal_iff.mpr ⟨List.cons_ne_nil (⟨"cto"⟩ : ActorId) [],
    List.forall_mem_singleton.mpr (.inl rfl : AllowlistEntry.Justified
      ⟨⟨"kraken"⟩, .get, .literalPrefix "/v1/accounts", none⟩)⟩
  refine ⟨list, sealed, ?_⟩
  rw [(seal_ok sealed).1]
  exact ((hash_settles (by simp) sealed sealed rfl [⟨⟨"kraken"⟩, .post, "/v1/accounts/1"⟩]).2 _
    (List.mem_singleton_self _)).1

end EgressAllowlist

end

inductive ScopeClaim where
  | read
  | trade
  | withdraw
  | transfer
  | unknown (name : String)
  deriving DecidableEq

structure ScopeViolation where
  venue : VenueId
  claim : ScopeClaim
  deriving DecidableEq

inductive ScopeDecision where
  | accept
  | reject (violations : List ScopeViolation)
  deriving DecidableEq

def validateScopes (venue : VenueId) (claims : List ScopeClaim) : ScopeDecision :=
  if claims = [] then .reject [⟨venue, .unknown "empty scope report"⟩]
  else
    let violations := (claims.filter (· ≠ .read)).map (ScopeViolation.mk venue)
    if violations = [] then .accept else .reject violations

theorem validateScopes_accept {venue : VenueId} {claims : List ScopeClaim} :
    validateScopes venue claims = .accept ↔ claims ≠ [] ∧ ∀ claim ∈ claims, claim = .read := by
  unfold validateScopes
  by_cases none : claims = []
  · simp [none]
  · simp [none, List.filter_eq_nil_iff]

theorem validateScopes_reject {venue : VenueId} {claims : List ScopeClaim}
    {violations : List ScopeViolation} (reported : claims ≠ [])
    (rejected : validateScopes venue claims = .reject violations) :
    violations.map ScopeViolation.claim = claims.filter (· ≠ .read) := by
  simp only [validateScopes, if_neg reported] at rejected
  split at rejected
  · cases rejected
  · obtain rfl := ScopeDecision.reject.inj rejected
    rw [List.map_map]
    exact List.map_id _

end Treasury.Ingest
