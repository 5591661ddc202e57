import Treasury.Evidence.Merkle
import Treasury.Reference
import Treasury.Kit.Inclusion

/-! One root over many tree heads, and the proof of each head in it. The prover splits the
heads as the tree does; the verifier knows only the index and the size, and finds the sides
of the siblings by shifting both. -/
namespace Treasury
open Kit Kit.Merkle

/-- The siblings on the way from one head to the root, from bottom to top. -/
structure InclusionProof where
  leafIndex : Nat
  treeSize : Nat
  auditPath : List ContentHash
  deriving DecidableEq

structure Aggregation where
  root : ContentHash
  proofs : List InclusionProof
  deriving DecidableEq

namespace Aggregation

def largestPowerOfTwoBelow (n : Nat) : Nat := doubledBelow n 1 Nat.one_pos

def split (entries : List ContentHash) (k : Nat) :
    Option (List ContentHash × List ContentHash) :=
  if k ≤ entries.length then some (entries.take k, entries.drop k) else none

theorem split_point {entries : List ContentHash} (many : ¬ entries.length ≤ 1) :
    split entries (largestPowerOfTwoBelow entries.length) =
      some (entries.take (atPowers.point entries.length),
        entries.drop (atPowers.point entries.length)) :=
  if_pos (atPowers.lt _ (not_le.mp many)).le

theorem split_lt {entries left right : List ContentHash} (many : ¬ entries.length ≤ 1)
    (halves : split entries (largestPowerOfTwoBelow entries.length) = some (left, right)) :
    left.length < entries.length ∧ right.length < entries.length := by
  have pos := atPowers.pos _ (not_le.mp many)
  have lt := atPowers.lt _ (not_le.mp many)
  rw [split_point many] at halves
  cases halves
  rw [List.length_take, List.length_drop]
  omega

/-- The inner loop: the levels at which the node on the right edge has no sibling. -/
def skipLevels (fnIdx sn : Nat) : Nat × Nat :=
  if fnIdx ≠ 0 ∧ fnIdx % 2 = 0 then skipLevels (fnIdx / 2) (sn / 2) else (fnIdx, sn)
termination_by fnIdx

theorem skipLevels_le (fnIdx sn : Nat) : (skipLevels fnIdx sn).2 ≤ sn := by
  fun_induction skipLevels fnIdx sn with
  | case1 fnIdx sn even ih => omega
  | case2 fnIdx sn stop => exact le_rfl

/-- The sides on which the verifier takes the siblings to stand. -/
def sides (fnIdx sn : Nat) : List SiblingSide :=
  if sn = 0 then []
  else if fnIdx % 2 = 1 ∨ fnIdx = sn then
    .left :: sides ((skipLevels fnIdx sn).1 / 2) ((skipLevels fnIdx sn).2 / 2)
  else .right :: sides (fnIdx / 2) (sn / 2)
termination_by sn
decreasing_by
  · have := skipLevels_le fnIdx sn
    omega
  · omega

theorem sides_zero (fnIdx : Nat) : sides fnIdx 0 = [] := by
  unfold sides
  rfl

theorem sides_odd {fnIdx sn : Nat} (odd : fnIdx % 2 = 1) (more : sn ≠ 0) :
    sides fnIdx sn = .left :: sides (fnIdx / 2) (sn / 2) := by
  have stop : skipLevels fnIdx sn = (fnIdx, sn) := by
    unfold skipLevels
    exact if_neg (by omega)
  rw [sides, if_neg more, if_pos (.inl odd), stop]

theorem sides_even {fnIdx sn : Nat} (even : fnIdx % 2 = 0) (inside : fnIdx < sn) :
    sides fnIdx sn = .right :: sides (fnIdx / 2) (sn / 2) := by
  rw [sides, if_neg (by omega), if_neg (by omega)]

theorem sides_edge {last : Nat} (even : last % 2 = 0) :
    sides last last = sides (last / 2) (last / 2) := by
  rcases Nat.eq_zero_or_pos last with rfl | pos
  · rfl
  · have skip : skipLevels last last = skipLevels (last / 2) (last / 2) := by
      rw [skipLevels, if_pos ⟨by omega, even⟩]
    have again : sides (last / 2) (last / 2) = .left ::
        sides ((skipLevels (last / 2) (last / 2)).1 / 2)
          ((skipLevels (last / 2) (last / 2)).2 / 2) := by
      rw [sides, if_neg (by omega), if_pos (.inr rfl)]
    rw [again, sides, if_neg (by omega), if_pos (.inr rfl), skip]

/-- Below the highest bit of the last index: a path in the full left subtree, whose sibling
is the right one. -/
theorem sides_left {e m n : Nat} (inLeft : m < 2 ^ e) (low : 2 ^ e ≤ n) (high : n < 2 ^ (e + 1)) :
    sides m n = sides m (2 ^ e - 1) ++ [.right] := by
  induction e generalizing m n with
  | zero =>
    obtain ⟨rfl, rfl⟩ : m = 0 ∧ n = 1 := by omega
    rw [sides_even rfl Nat.one_pos, Nat.zero_div, sides_zero, pow_zero, Nat.sub_self, sides_zero]
    rfl
  | succ e ih =>
    have half : (2 ^ (e + 1) - 1) / 2 = 2 ^ e - 1 := by omega
    have below := ih (m := m / 2) (n := n / 2) (by omega) (by omega) (by omega)
    rcases Nat.mod_two_eq_zero_or_one m with even | odd
    · rw [sides_even even (inLeft.trans_le low), sides_even even (by omega), below, half]
      rfl
    · rw [sides_odd odd (by omega), sides_odd odd (by omega), below, half]
      rfl

/-- From the highest bit on: a path in the right subtree, whose sibling is the left one. -/
theorem sides_right {e m n : Nat} (inRight : 2 ^ e ≤ m) (le : m ≤ n) (high : n < 2 ^ (e + 1)) :
    sides m n = sides (m - 2 ^ e) (n - 2 ^ e) ++ [.left] := by
  induction e generalizing m n with
  | zero =>
    obtain ⟨rfl, rfl⟩ : m = 1 ∧ n = 1 := by omega
    rw [sides_odd rfl Nat.one_ne_zero, pow_zero, Nat.sub_self, sides_zero]
    rfl
  | succ e ih =>
    have below := ih (m := m / 2) (n := n / 2) (by omega) (by omega) (by omega)
    have halfM : (m - 2 ^ (e + 1)) / 2 = m / 2 - 2 ^ e := by omega
    have halfN : (n - 2 ^ (e + 1)) / 2 = n / 2 - 2 ^ e := by omega
    rcases Nat.mod_two_eq_zero_or_one m with even | odd
    · have even' : (m - 2 ^ (e + 1)) % 2 = 0 := by omega
      rcases le.eq_or_lt with rfl | inside
      · rw [sides_edge even, below, sides_edge even', halfM]
      · have inside' : m - 2 ^ (e + 1) < n - 2 ^ (e + 1) := by omega
        rw [sides_even even inside, below, sides_even even' inside', halfM, halfN]
        rfl
    · have odd' : (m - 2 ^ (e + 1)) % 2 = 1 := by omega
      rw [sides_odd odd (by omega), below, sides_odd odd' (by omega), halfM, halfN]
      rfl

theorem sides_path (hash : Input ContentHash ContentHash → ContentHash) {m : Nat}
    {entries : List ContentHash} (inside : m < entries.length) :
    (atPowers.path hash m entries).map Prod.fst = sides m (entries.length - 1) := by
  induction m, entries using Splitting.path.induct atPowers with
  | case1 m => exact absurd inside (Nat.not_lt_zero m)
  | case2 m a => simp [Splitting.path, sides_zero]
  | case3 m a b rest many k inLeft ih =>
    obtain ⟨⟨e, power⟩, below, half⟩ :=
      largestPowerOfTwoBelow_spec (n := many.length) (by simp [many])
    have k_eq : k = 2 ^ e := power
    have length : (many.take k).length = k := List.length_take_of_le (k_eq ▸ power ▸ below.le)
    have total : (a :: b :: rest).length = many.length := rfl
    unfold Splitting.path
    rw [if_pos inLeft, List.map_append, ih (inLeft.trans_eq length.symm), length, k_eq]
    exact (sides_left (k_eq ▸ inLeft) (by omega) (by omega)).symm
  | case4 m a b rest many k notLeft ih =>
    obtain ⟨⟨e, power⟩, below, half⟩ :=
      largestPowerOfTwoBelow_spec (n := many.length) (by simp [many])
    have k_eq : k = 2 ^ e := power
    have length : (many.drop k).length = many.length - k := List.length_drop
    have last : many.length - k - 1 = many.length - 1 - 2 ^ e := by omega
    change m < many.length at inside
    unfold Splitting.path
    rw [if_neg notLeft, List.map_append, ih (by omega), length, last, k_eq]
    exact (sides_right (k_eq ▸ not_lt.mp notLeft) (by omega) (by omega)).symm

variable [External]

def leafHash (entry : ContentHash) : ContentHash := sha256 (leafPrefix :: entry.bytes)

def nodeHash (left right : ContentHash) : ContentHash :=
  sha256 (nodePrefix :: (left.bytes ++ right.bytes))

def subtreeRoot (entries : List ContentHash) : ContentHash := merkleRoot entries

def auditPath (m : Nat) (entries : List ContentHash) : List ContentHash :=
  if entries.length ≤ 1 then []
  else
    let k := largestPowerOfTwoBelow entries.length
    match _halves : split entries k with
    | none => []
    | some (left, right) =>
      if m < k then auditPath m left ++ [subtreeRoot right]
      else auditPath (m - k) right ++ [subtreeRoot left]
termination_by entries.length
decreasing_by
  · exact (split_lt ‹_› _halves).1
  · exact (split_lt ‹_› _halves).2

theorem auditPath_many {m : Nat} {entries : List ContentHash} (many : ¬ entries.length ≤ 1) :
    auditPath m entries =
      let k := atPowers.point entries.length
      if m < k then auditPath m (entries.take k) ++ [merkleRoot (entries.drop k)]
      else auditPath (m - k) (entries.drop k) ++ [merkleRoot (entries.take k)] := by
  have halves := split_point many
  rw [auditPath, if_neg many]
  dsimp only
  split
  · rename_i none
    cases halves.symm.trans none
  · rename_i left right some
    cases halves.symm.trans some
    rfl

def aggregate (heads : List ContentHash) : Option Aggregation :=
  if heads.isEmpty then none
  else
    let root := merkleRoot heads
    let proofs := (List.range heads.length).map fun index =>
      ⟨index, heads.length, auditPath index heads⟩
    some ⟨root, proofs⟩

def reaches (root : ContentHash) (fnIdx sn : Nat) (hash : ContentHash) :
    List ContentHash → Bool
  | [] => sn = 0 && hash = root
  | sibling :: rest =>
    if sn = 0 then false
    else if fnIdx % 2 = 1 ∨ fnIdx = sn then
      let (fnIdx, sn) := skipLevels fnIdx sn
      reaches root (fnIdx / 2) (sn / 2) (nodeHash sibling hash) rest
    else reaches root (fnIdx / 2) (sn / 2) (nodeHash hash sibling) rest

def verifyInclusion (head : ContentHash) (proof : InclusionProof) (root : ContentHash) : Bool :=
  if proof.leafIndex ≥ proof.treeSize then false
  else reaches root proof.leafIndex (proof.treeSize - 1) (leafHash head) proof.auditPath

/-- The hash of an input of the tree. -/
abbrev inputHash : Input ContentHash ContentHash → ContentHash := sha256 ∘ inputBytes

theorem leafHash_eq (entry : ContentHash) : leafHash entry = inputHash (.leaf entry) := rfl

theorem reaches_iff {root hash : ContentHash} {fnIdx sn : Nat} {siblings : List ContentHash} :
    reaches root fnIdx sn hash siblings = true ↔
      siblings.length = (sides fnIdx sn).length ∧
        climb inputHash hash ((sides fnIdx sn).zip siblings) = root := by
  induction siblings generalizing fnIdx sn hash with
  | nil =>
    unfold reaches
    rw [Bool.and_eq_true, decide_eq_true_iff, decide_eq_true_iff, List.zip_nil_right, climb]
    refine and_congr_left fun _ => ⟨?_, fun none => ?_⟩
    · rintro rfl
      rw [sides_zero]
      rfl
    · by_contra more
      rw [sides, if_neg more] at none
      split at none <;> exact absurd none (Nat.succ_ne_zero _).symm
  | cons sibling rest ih =>
    unfold reaches
    rw [sides]
    by_cases top : sn = 0
    · simp [top]
    · by_cases onLeft : fnIdx % 2 = 1 ∨ fnIdx = sn
      · simp only [if_neg top, if_pos onLeft, ih, List.length_cons, Nat.add_right_cancel_iff,
          List.zip_cons_cons, climb]
        rfl
      · simp only [if_neg top, if_neg onLeft, ih, List.length_cons, Nat.add_right_cancel_iff,
          List.zip_cons_cons, climb]
        rfl

theorem auditPath_eq (m : Nat) (entries : List ContentHash) :
    auditPath m entries = (atPowers.path inputHash m entries).map Prod.snd := by
  induction m, entries using Splitting.path.induct atPowers with
  | case1 m => simp [auditPath, Splitting.path]
  | case2 m a => simp [auditPath, Splitting.path]
  | case3 m a b rest many k inLeft ih =>
    have more : ¬ many.length ≤ 1 := by simp [many]
    unfold Splitting.path
    rw [if_pos inLeft, List.map_append, ← ih, ← merkleRoot_eq_root, auditPath_many more,
      if_pos inLeft]
    rfl
  | case4 m a b rest many k notLeft ih =>
    have more : ¬ many.length ≤ 1 := by simp [many]
    unfold Splitting.path
    rw [if_neg notLeft, List.map_append, ← ih, ← merkleRoot_eq_root, auditPath_many more,
      if_neg notLeft]
    rfl

def preimages (head : ContentHash) (proof : InclusionProof) : List Bytes :=
  let path := (sides proof.leafIndex (proof.treeSize - 1)).zip proof.auditPath
  (.leaf head :: climbed inputHash (leafHash head) path).map inputBytes

theorem proofs_eq {heads : List ContentHash} {agg : Aggregation}
    (made : aggregate heads = some agg) :
    agg.root = merkleRoot heads ∧ agg.proofs.length = heads.length ∧
      ∀ index < heads.length,
        agg.proofs[index]? = some ⟨index, heads.length, auditPath index heads⟩ := by
  unfold aggregate at made
  split at made
  · cases made
  · cases made
    refine ⟨rfl, by simp, fun index inside => ?_⟩
    simp [inside]

theorem aggregate_isSome {heads : List ContentHash} (nonempty : heads ≠ []) :
    ∃ agg, aggregate heads = some agg := by
  unfold aggregate
  rw [if_neg (by simpa using nonempty)]
  exact ⟨_, rfl⟩

theorem verify_audited {heads : List ContentHash} {index : Nat} {head : ContentHash}
    (atIndex : heads[index]? = some head) :
    verifyInclusion head ⟨index, heads.length, auditPath index heads⟩ (merkleRoot heads) =
      true := by
  have inside : index < heads.length := (List.getElem?_eq_some_iff.mp atIndex).1
  have path := atPowers.path_layout inputHash atIndex
  have lengths : (auditPath index heads).length = (sides index (heads.length - 1)).length := by
    rw [auditPath_eq, ← sides_path inputHash inside, List.length_map, List.length_map]
  have steps := List.zip_of_prod (sides_path inputHash inside) (auditPath_eq index heads).symm
  unfold verifyInclusion
  rw [if_neg (not_le.mpr inside), reaches_iff]
  refine ⟨lengths, ?_⟩
  rw [← steps, leafHash_eq, path.climb_eq, merkleRoot_eq_root]

/-- Every head verifies against the root under its proof, in a tree of any size. -/
theorem inclusion_complete {heads : List ContentHash} (nonempty : heads ≠ []) :
    ∃ agg, aggregate heads = some agg ∧ agg.root = merkleRoot heads ∧
      agg.proofs.length = heads.length ∧
      ∀ index head, heads[index]? = some head → ∃ proof, agg.proofs[index]? = some proof ∧
        proof.leafIndex = index ∧ verifyInclusion head proof agg.root = true := by
  obtain ⟨agg, made⟩ := aggregate_isSome nonempty
  obtain ⟨root, length, proofs⟩ := proofs_eq made
  refine ⟨agg, made, root, length, fun index head atIndex => ?_⟩
  have inside : index < heads.length := (List.getElem?_eq_some_iff.mp atIndex).1
  refine ⟨_, proofs index inside, rfl, ?_⟩
  rw [root]
  exact verify_audited atIndex

omit [External] in
theorem inclusion_complete_pair :
    letI : External := reference
    ∃ agg, aggregate [.filled 1, .filled 2] = some agg ∧ agg.proofs.length = 2 := by
  let _ : External := reference
  obtain ⟨agg, made, -, length, -⟩ :=
    inclusion_complete (List.cons_ne_nil (.filled 1) [.filled 2])
  exact ⟨agg, made, length⟩

/-- A verified head is one of the heads, whatever index, size and path the proof claims; with
the right size it is the head at the index, under the path that the prover makes. -/
theorem inclusion_sound {heads : List ContentHash} {head : ContentHash} {proof : InclusionProof}
    (injective : Set.InjOn sha256 {b | b ∈ headPreimages heads ∨ b ∈ preimages head proof})
    (verified : verifyInclusion head proof (merkleRoot heads) = true) :
    head ∈ heads ∧ (proof.treeSize = heads.length →
      heads[proof.leafIndex]? = some head ∧
        ∃ agg, aggregate heads = some agg ∧ agg.proofs[proof.leafIndex]? = some proof) := by
  have separate : Set.InjOn inputHash
      {i | inputBytes i ∈ headPreimages heads ∨ inputBytes i ∈ preimages head proof} :=
    fun i iIn j jIn eq => inputBytes_injective (injective iIn jIn eq)
  unfold verifyInclusion at verified
  split at verified
  · cases verified
  · rename_i inside
    obtain ⟨lengths, reached⟩ := reaches_iff.mp verified
    have path := Tree.Path.of_climb separate
      (fun i member => .inl (List.mem_map_of_mem member))
      (.inr (List.mem_map_of_mem (List.mem_cons_self)))
      (fun i member => .inr (List.mem_map_of_mem (List.mem_cons_of_mem _ member)))
      (reached.trans (merkleRoot_eq_root heads))
    have member := path.mem_leaves
    rw [Splitting.leaves_layout] at member
    refine ⟨member, fun size => ?_⟩
    have index : proof.leafIndex < heads.length := by omega
    have audited := atPowers.path_layout inputHash (List.getElem?_eq_getElem index)
    have walked : ((sides proof.leafIndex (proof.treeSize - 1)).zip proof.auditPath).map Prod.fst =
        (atPowers.path inputHash proof.leafIndex heads).map Prod.fst := by
      rw [List.map_fst_zip lengths.ge, sides_path inputHash index, size]
    obtain ⟨same, steps⟩ := path.eq_of_sides audited walked
    have siblings : proof.auditPath = auditPath proof.leafIndex heads := by
      rw [auditPath_eq, ← steps, List.map_snd_zip lengths.le]
    obtain ⟨agg, made⟩ := aggregate_isSome (List.length_pos_iff.mp (Nat.zero_lt_of_lt index))
    refine ⟨(List.getElem?_eq_getElem index).trans (congrArg some same.symm), agg, made, ?_⟩
    rw [(proofs_eq made).2.2 _ index, ← size, ← siblings]

def secondOfPair (first : ContentHash) : InclusionProof := ⟨1, 2, [leafHash first]⟩

omit [External] in
theorem sides_pair : sides 1 (2 - 1) = [.left] := by
  rw [sides_odd rfl Nat.one_ne_zero, sides_zero]

theorem preimages_secondOfPair (first second : ContentHash) :
    preimages second (secondOfPair first) =
      [inputBytes (.leaf second), inputBytes (.node (leafHash first) (leafHash second))] := by
  rw [preimages, secondOfPair, sides_pair]
  rfl

theorem verify_secondOfPair (first second : ContentHash) :
    verifyInclusion second (secondOfPair first) (merkleRoot [first, second]) = true := by
  have inside : ¬ (secondOfPair first).leafIndex ≥ (secondOfPair first).treeSize :=
    not_le.mpr Nat.one_lt_two
  rw [verifyInclusion, if_neg inside, secondOfPair, reaches_iff, sides_pair, merkleRoot_eq_root,
    Splitting.layout_pair]
  exact ⟨rfl, rfl⟩

omit [External] in
theorem inclusion_sound_pair :
    letI : External := reference
    ∃ agg, aggregate [.filled 1, .filled 2] = some agg ∧
      agg.proofs[1]? = some (secondOfPair (.filled 1)) := by
  let _ : External := reference
  have member (b : Bytes) (inSet : b ∈ headPreimages [.filled 1, .filled 2] ∨
      b ∈ preimages (.filled 2) (secondOfPair (.filled 1))) :
      b ∈ pairPreimages (.filled 1) (.filled 2) := by
    rw [headPreimages_pair, preimages_secondOfPair] at inSet
    refine inSet.elim id fun proof => ?_
    rcases List.mem_pair.mp proof with rfl | rfl
    · exact .tail _ (.tail _ (.head _))
    · exact .head _
  have injective : Set.InjOn sha256 {b | b ∈ headPreimages [.filled 1, .filled 2] ∨
      b ∈ preimages (.filled 2) (secondOfPair (.filled 1))} := fun a inA b inB same =>
    List.inj_on_of_nodup_map digests_pair (member a inA) (member b inB) same
  exact ((inclusion_sound injective (verify_secondOfPair (.filled 1) (.filled 2))).2 rfl).2

end Aggregation

end Treasury
