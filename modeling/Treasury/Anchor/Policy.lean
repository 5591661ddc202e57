import Treasury.Anchor.Log
import Treasury.Evidence.Canon

/-! The confirmation policy of an anchor and the hash of a receipt, which commits to it. -/
namespace Treasury
open Kit Kit.Json

structure AnchorPolicy where
  requiredDepth : U64
  deriving DecidableEq

def anchorPolicySchema : String := "treasury-anchor/anchor-policy/v1"

def receiptSchema : String := "treasury-anchor/receipt/v2"

def AnchorPolicy.toJson (policy : AnchorPolicy) : Value :=
  .object (ofEntries
    [("schema", .string anchorPolicySchema), ("required_depth", policy.requiredDepth.toJson)])

def AnchorMethod.toJson : AnchorMethod → Value
  | .publicChain chain txRef =>
    .object (ofEntries
      [("kind", .string "public_chain"), ("chain", .string chain), ("tx_ref", .string txRef)])
  | .rfc3161Tsa authority tokenHash =>
    .object (ofEntries [("kind", .string "rfc3161_tsa"), ("authority", .string authority),
      ("token_hash", .string tokenHash.toHex)])

def AnchorReceipt.toJson (receipt : AnchorReceipt) : Value :=
  .object (ofEntries
    [("schema", .string receiptSchema),
      ("tree_head", .string receipt.treeHead.toHex),
      ("entry_count", receipt.entryCount.toJson),
      ("method", receipt.method.toJson),
      ("anchored_at", receipt.anchoredAt.toJson),
      ("confirmation_policy", .string receipt.confirmationPolicy.toHex)])

theorem AnchorMethod.toJson_injective {a b : AnchorMethod} (h : a.toJson = b.toJson) : a = b := by
  cases a with
  | publicChain chainA refA =>
    cases b with
    | publicChain chainB refB =>
      have same := ofEntries_injective (by simp) (by simp) (Value.object.inj h)
      simp only [List.cons.injEq, Prod.mk.injEq, true_and, and_true, Value.string.injEq] at same
      rw [same.1, same.2]
    | rfc3161Tsa authorityB tokenB =>
      have kinds := congrArg (lookup "kind") (Value.object.inj h)
      rw [lookup_ofEntries _ (by simp), lookup_ofEntries _ (by simp)] at kinds
      simp [lookup] at kinds
  | rfc3161Tsa authorityA tokenA =>
    cases b with
    | publicChain chainB refB =>
      have kinds := congrArg (lookup "kind") (Value.object.inj h)
      rw [lookup_ofEntries _ (by simp), lookup_ofEntries _ (by simp)] at kinds
      simp [lookup] at kinds
    | rfc3161Tsa authorityB tokenB =>
      have same := ofEntries_injective (by simp) (by simp) (Value.object.inj h)
      simp only [List.cons.injEq, Prod.mk.injEq, true_and, and_true, Value.string.injEq,
        ContentHash.toHex_inj] at same
      rw [same.1, same.2]

theorem AnchorReceipt.toJson_injective {a b : AnchorReceipt} (h : a.toJson = b.toJson) :
    a = b := by
  have same := ofEntries_injective (by simp) (by simp) (Value.object.inj h)
  simp only [List.cons.injEq, Prod.mk.injEq, true_and, and_true, Value.string.injEq,
    ContentHash.toHex_inj] at same
  obtain ⟨head, count, method, time, policy⟩ := same
  obtain ⟨headA, countA, methodA, timeA, policyA⟩ := a
  obtain ⟨headB, countB, methodB, timeB, policyB⟩ := b
  obtain rfl : headA = headB := head
  obtain rfl : countA = countB := U64.toJson_injective count
  obtain rfl : methodA = methodB := AnchorMethod.toJson_injective method
  obtain rfl : timeA = timeB := TimestampNs.toJson_injective time
  obtain rfl : policyA = policyB := policy
  rfl

theorem U64.flat (n : Nat) (u : U64) : Flat n u.toJson := flat_int n _

theorem AnchorPolicy.flat (policy : AnchorPolicy) : Flat 1 policy.toJson :=
  flat_object (by simp) (by simp [U64.flat])

theorem AnchorMethod.flat (method : AnchorMethod) : Flat 1 method.toJson := by
  cases method with
  | publicChain chain txRef => exact flat_object (by simp) (by simp)
  | rfc3161Tsa authority tokenHash => exact flat_object (by simp) (by simp)

theorem AnchorReceipt.flat (receipt : AnchorReceipt) : Flat 2 receipt.toJson :=
  flat_object (by simp) (by simp [U64.flat, AnchorMethod.flat, TimestampNs.toJson])

section
variable [External]

def AnchorPolicy.policyHash (policy : AnchorPolicy) : Except CanonError ContentHash := do
  let bytes ← canonicalBytes policy.toJson
  return sha256 bytes

def AnchorReceipt.receiptHash (receipt : AnchorReceipt) : Except CanonError ContentHash := do
  let bytes ← canonicalBytes receipt.toJson
  return sha256 bytes

theorem AnchorPolicy.policyHash_eq (policy : AnchorPolicy) :
    policy.policyHash = .ok (sha256 (utf8 (toText policy.toJson))) := by
  simp [policyHash, canonicalBytes_flat policy.flat (by decide)]

theorem AnchorReceipt.receiptHash_eq (receipt : AnchorReceipt) :
    receipt.receiptHash = .ok (sha256 (utf8 (toText receipt.toJson))) := by
  simp [receiptHash, canonicalBytes_flat receipt.flat (by decide)]

end

end Treasury
