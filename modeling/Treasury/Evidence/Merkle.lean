import Mathlib.Data.Nat.Init
import Treasury.Kit.Merkle
import Treasury.Reference

/-! The tree head over evidence hashes. A leaf and an inner node are hashed behind prefixes
that differ, and the empty tree is hashed from no bytes at all. -/
namespace Treasury
open Kit Kit.Merkle

def leafPrefix : UInt8 := 0x00
def nodePrefix : UInt8 := 0x01

/-- The loop that doubles `k`; a product that saturates is not below a `usize` either. -/
def doubledBelow (n k : Nat) (pos : 0 < k) : Nat :=
  if k * 2 < n then doubledBelow n (k * 2) (by omega) else k
termination_by n - k

/-- The loop ends at the power of two that has `n` between itself and its double. -/
theorem doubledBelow_spec {n k : Nat} {pos : 0 < k} (below : k < n) :
    (∃ e, doubledBelow n k pos = k * 2 ^ e) ∧ doubledBelow n k pos < n ∧
      n ≤ doubledBelow n k pos * 2 := by
  fun_induction doubledBelow n k pos with
  | case1 k pos more ih =>
    obtain ⟨⟨e, power⟩, lt, le⟩ := ih more
    exact ⟨⟨e + 1, by rw [power, Nat.pow_succ', Nat.mul_assoc]⟩, lt, le⟩
  | case2 k pos done => exact ⟨⟨0, by simp⟩, below, by omega⟩

/-- Largest power of two strictly less than `n`, for `n` at least two. -/
def largestPowerOfTwoBelow (n : Nat) : Nat := doubledBelow n 1 Nat.one_pos

theorem largestPowerOfTwoBelow_spec {n : Nat} (many : 2 ≤ n) :
    (∃ e, largestPowerOfTwoBelow n = 2 ^ e) ∧ largestPowerOfTwoBelow n < n ∧
      n ≤ largestPowerOfTwoBelow n * 2 := by
  obtain ⟨⟨e, power⟩, bounds⟩ := @doubledBelow_spec n 1 Nat.one_pos many
  exact ⟨⟨e, power.trans (Nat.one_mul _)⟩, bounds⟩

theorem largestPowerOfTwoBelow_lt {n : Nat} (many : 2 ≤ n) : largestPowerOfTwoBelow n < n :=
  (largestPowerOfTwoBelow_spec many).2.1

theorem largestPowerOfTwoBelow_pos {n : Nat} (many : 2 ≤ n) : 0 < largestPowerOfTwoBelow n := by
  have half := (largestPowerOfTwoBelow_spec many).2.2
  omega

/-- Trees are split at the largest power of two. -/
def atPowers : Splitting :=
  ⟨largestPowerOfTwoBelow, fun _ => largestPowerOfTwoBelow_pos, fun _ => largestPowerOfTwoBelow_lt⟩

def inputBytes : Input ContentHash ContentHash → Bytes
  | .empty => []
  | .leaf entry => leafPrefix :: entry.bytes
  | .node left right => nodePrefix :: (left.bytes ++ right.bytes)

theorem inputBytes_injective {i j : Input ContentHash ContentHash}
    (same : inputBytes i = inputBytes j) : i = j := by
  cases i with
  | empty => cases j <;> simp [inputBytes] at same ⊢
  | leaf entry =>
    cases j with
    | empty => simp [inputBytes] at same
    | leaf other => rw [ContentHash.ext_bytes (List.cons.inj same).2]
    | node left right => exact absurd (List.cons.inj same).1 (by decide)
  | node left right =>
    cases j with
    | empty => simp [inputBytes] at same
    | leaf entry => exact absurd (List.cons.inj same).1 (by decide)
    | node otherLeft otherRight =>
      have lengths := left.length_eq.trans otherLeft.length_eq.symm
      obtain ⟨sameLeft, sameRight⟩ := List.append_inj (List.cons.inj same).2 lengths
      rw [ContentHash.ext_bytes sameLeft, ContentHash.ext_bytes sameRight]

variable [External]

def leafHash (entry : ContentHash) : ContentHash := sha256 (leafPrefix :: entry.bytes)

def nodeHash (left right : ContentHash) : ContentHash :=
  sha256 (nodePrefix :: (left.bytes ++ right.bytes))

/-- The tree head over evidence hashes in insertion order. -/
def merkleRoot : List ContentHash → ContentHash
  | [] => sha256 []
  | [single] => leafHash single
  | a :: b :: rest =>
    let many := a :: b :: rest
    let k := largestPowerOfTwoBelow many.length
    nodeHash (merkleRoot (many.take k)) (merkleRoot (many.drop k))
termination_by leaves => leaves.length
decreasing_by
  · have := largestPowerOfTwoBelow_lt (n := rest.length + 1 + 1) (by omega)
    simp only [List.length_take, List.length_cons]
    omega
  · have := largestPowerOfTwoBelow_pos (n := rest.length + 1 + 1) (by omega)
    simp only [List.length_drop, List.length_cons]
    omega

theorem merkleRoot_split {leaves : List ContentHash} (many : 2 ≤ leaves.length) :
    merkleRoot leaves =
      nodeHash (merkleRoot (leaves.take (largestPowerOfTwoBelow leaves.length)))
        (merkleRoot (leaves.drop (largestPowerOfTwoBelow leaves.length))) := by
  match leaves with
  | a :: b :: rest => rw [merkleRoot]

def headPreimages (leaves : List ContentHash) : List Bytes :=
  ((atPowers.layout leaves).inputs (sha256 ∘ inputBytes)).map inputBytes

theorem merkleRoot_eq_root (leaves : List ContentHash) :
    merkleRoot leaves = (atPowers.layout leaves).root (sha256 ∘ inputBytes) := by
  induction leaves using merkleRoot.induct with
  | case1 => simp [merkleRoot, Splitting.layout, Tree.root, inputBytes]
  | case2 single => simp [merkleRoot, leafHash, Splitting.layout, Tree.root, inputBytes]
  | case3 a b rest many k left right =>
    unfold merkleRoot Splitting.layout Tree.root
    exact congrArg₂ nodeHash left right

theorem merkleRoot_injective {preimages : Set Bytes} (injective : Set.InjOn sha256 preimages)
    {a b : List ContentHash} (inA : ∀ i ∈ headPreimages a, i ∈ preimages)
    (inB : ∀ i ∈ headPreimages b, i ∈ preimages) (same : merkleRoot a = merkleRoot b) :
    a = b := by
  have separate : Set.InjOn (sha256 ∘ inputBytes) {i | inputBytes i ∈ preimages} :=
    fun i iIn j jIn eq => inputBytes_injective (injective iIn jIn eq)
  rw [merkleRoot_eq_root, merkleRoot_eq_root] at same
  have trees := Tree.root_injective separate
    (fun i iIn => inA _ (List.mem_map_of_mem iIn)) (fun i iIn => inB _ (List.mem_map_of_mem iIn)) same
  calc a = (atPowers.layout a).leaves := (atPowers.leaves_layout a).symm
    _ = (atPowers.layout b).leaves := by rw [trees]
    _ = b := atPowers.leaves_layout b

/-- The recursion splits every list of two or more at a power of two, and no two lists have
one head. -/
theorem head_commits :
    (∀ n, 2 ≤ n → ∃ e, largestPowerOfTwoBelow n = 2 ^ e ∧ 2 ^ e < n ∧ n ≤ 2 * 2 ^ e) ∧
    (∀ leaves : List ContentHash, 2 ≤ leaves.length → ∃ k,
      k = largestPowerOfTwoBelow leaves.length ∧
      (leaves.take k).length < leaves.length ∧ (leaves.drop k).length < leaves.length ∧
      merkleRoot leaves = nodeHash (merkleRoot (leaves.take k)) (merkleRoot (leaves.drop k))) ∧
    ∀ a b : List ContentHash,
      Set.InjOn sha256 {i | i ∈ headPreimages a ∨ i ∈ headPreimages b} →
      merkleRoot a = merkleRoot b → a = b := by
  refine ⟨fun n many => ?_, fun leaves many => ?_, fun a b injective same => ?_⟩
  · obtain ⟨⟨e, power⟩, lt, le⟩ := largestPowerOfTwoBelow_spec many
    exact ⟨e, power, power ▸ lt, by omega⟩
  · have lt := largestPowerOfTwoBelow_lt many
    have pos := largestPowerOfTwoBelow_pos many
    refine ⟨_, rfl, ?_, ?_, merkleRoot_split many⟩
    · rw [List.length_take]
      omega
    · rw [List.length_drop]
      omega
  · exact merkleRoot_injective injective (fun _ => .inl) (fun _ => .inr) same

def pairPreimages (first second : ContentHash) : List Bytes :=
  [inputBytes (.node (leafHash first) (leafHash second)), inputBytes (.leaf first),
    inputBytes (.leaf second)]

theorem headPreimages_pair (first second : ContentHash) :
    headPreimages [first, second] = pairPreimages first second := by
  rw [headPreimages, Splitting.layout_pair]
  rfl

theorem headPreimages_single (entry : ContentHash) :
    headPreimages [entry] = [inputBytes (.leaf entry)] := by
  simp [headPreimages, Splitting.layout, Tree.inputs]

omit [External] in
theorem digests_pair : letI : External := reference
    ((pairPreimages (.filled 1) (.filled 2)).map sha256).Nodup := by decide +kernel

omit [External] in
theorem head_commits_pair : letI : External := reference
    merkleRoot [.filled 1, .filled 2] ≠ merkleRoot [.filled 1] ∧
      ∃ e, largestPowerOfTwoBelow 5 = 2 ^ e := by
  let _ : External := reference
  have member (b : Bytes) (inSet : b ∈ headPreimages [.filled 1, .filled 2] ∨
      b ∈ headPreimages [.filled 1]) : b ∈ pairPreimages (.filled 1) (.filled 2) := by
    rw [headPreimages_pair, headPreimages_single] at inSet
    refine inSet.elim id fun single => ?_
    exact List.mem_singleton.mp single ▸ .tail _ (.head _)
  obtain ⟨split, -, commits⟩ := head_commits
  constructor
  · intro same
    have one := commits [.filled 1, .filled 2] [.filled 1] (fun a inA b inB eq =>
      List.inj_on_of_nodup_map digests_pair (member a inA) (member b inB) eq) same
    exact absurd (congrArg List.length one) (by decide)
  · obtain ⟨e, power, -⟩ := split 5 (by decide)
    exact ⟨e, power⟩

end Treasury
