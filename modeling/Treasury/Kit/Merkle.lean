import Mathlib.Data.Set.Function
import Mathlib.Data.List.Basic

/-! Hash trees. What is hashed at a node says which kind of node it is, so as long as no
two of the hashed inputs collide the root determines the tree, and with it its leaves. -/
namespace Kit.Merkle

inductive Tree (L : Type*) where
  | empty
  | leaf (l : L)
  | node (left right : Tree L)

/-- What is hashed at a node of a tree. -/
inductive Input (L H : Type*) where
  | empty
  | leaf (l : L)
  | node (left right : H)

variable {L H : Type*}

namespace Tree

def leaves : Tree L → List L
  | empty => []
  | leaf l => [l]
  | node left right => left.leaves ++ right.leaves

variable (hash : Input L H → H)

def root : Tree L → H
  | empty => hash .empty
  | leaf l => hash (.leaf l)
  | node left right => hash (.node left.root right.root)

/-- The input at the root itself. -/
def top : Tree L → Input L H
  | empty => .empty
  | leaf l => .leaf l
  | node left right => .node (left.root hash) (right.root hash)

def inputs : Tree L → List (Input L H)
  | empty => [.empty]
  | leaf l => [.leaf l]
  | node left right => .node (left.root hash) (right.root hash) :: (left.inputs ++ right.inputs)

theorem root_eq_top (t : Tree L) : t.root hash = hash (t.top hash) := by
  cases t <;> rfl

theorem top_mem (t : Tree L) : t.top hash ∈ t.inputs hash := by
  cases t <;> simp [top, inputs]

variable {hash} {hashed : Set (Input L H)} (injective : Set.InjOn hash hashed)
include injective

/-- Trees of any two shapes with one root are the same tree. -/
theorem root_injective {s t : Tree L} (inS : ∀ i ∈ s.inputs hash, i ∈ hashed)
    (inT : ∀ i ∈ t.inputs hash, i ∈ hashed) (same : s.root hash = t.root hash) : s = t := by
  have tops {s t : Tree L} (inS : ∀ i ∈ s.inputs hash, i ∈ hashed)
      (inT : ∀ i ∈ t.inputs hash, i ∈ hashed) (same : s.root hash = t.root hash) :
      s.top hash = t.top hash :=
    injective (inS _ (top_mem hash s)) (inT _ (top_mem hash t))
      ((root_eq_top hash s).symm.trans (same.trans (root_eq_top hash t)))
  have top := tops inS inT same
  induction s generalizing t with
  | empty => cases t <;> cases top; rfl
  | leaf l => cases t <;> cases top; rfl
  | node left right ihLeft ihRight =>
    cases t with
    | empty => cases top
    | leaf l => cases top
    | node otherLeft otherRight =>
      obtain ⟨sameLeft, sameRight⟩ := Input.node.inj top
      simp only [inputs, List.forall_mem_cons, List.forall_mem_append] at inS inT
      obtain ⟨-, leftS, rightS⟩ := inS
      obtain ⟨-, leftT, rightT⟩ := inT
      rw [ihLeft leftS leftT sameLeft (tops leftS leftT sameLeft),
        ihRight rightS rightT sameRight (tops rightS rightT sameRight)]

end Tree

/-- Where a list of two or more elements is split: neither part is empty. -/
structure Splitting where
  point : Nat → Nat
  pos : ∀ n, 2 ≤ n → 0 < point n
  lt : ∀ n, 2 ≤ n → point n < n

/-- The tree that a way of splitting builds over a list. -/
def Splitting.layout (split : Splitting) : List L → Tree L
  | [] => .empty
  | [l] => .leaf l
  | a :: b :: rest =>
    let k := split.point (rest.length + 2)
    .node (split.layout ((a :: b :: rest).take k)) (split.layout ((a :: b :: rest).drop k))
termination_by l => l.length
decreasing_by
  · have := split.lt (rest.length + 2) (by omega)
    simp only [List.length_take, List.length_cons]
    omega
  · have := split.pos (rest.length + 2) (by omega)
    simp only [List.length_drop, List.length_cons]
    omega

@[simp] theorem Splitting.leaves_layout (split : Splitting) (l : List L) :
    (split.layout l).leaves = l := by
  induction l using Splitting.layout.induct split with
  | case1 => simp [layout, Tree.leaves]
  | case2 l => simp [layout, Tree.leaves]
  | case3 a b rest k left right =>
    unfold layout Tree.leaves
    exact (congrArg₂ (· ++ ·) left right).trans (List.take_append_drop k (a :: b :: rest))

theorem Splitting.layout_pair (split : Splitting) (a b : L) :
    split.layout [a, b] = .node (.leaf a) (.leaf b) := by
  have pos := split.pos 2 le_rfl
  have lt := split.lt 2 le_rfl
  have point : split.point 2 = 1 := by omega
  simp [layout, point]

end Kit.Merkle
