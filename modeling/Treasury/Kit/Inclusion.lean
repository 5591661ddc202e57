import Mathlib.Data.List.Induction
import Treasury.Kit.Merkle

/-! Inclusion paths in hash trees. A path climbs from a leaf to the root and joins the hash
so far with a sibling at each level. The paths that stand in a tree reach its root, and as
long as no two of the hashed inputs collide no others do. -/
namespace Kit.Merkle

/-- The side on which a sibling stands. -/
inductive SiblingSide where
  | left
  | right
  deriving DecidableEq

variable {L H : Type*}

/-- What is hashed of a sibling and of the hash that it is joined with. -/
def SiblingSide.join : SiblingSide → H → H → Input L H
  | left, sibling, below => .node sibling below
  | right, sibling, below => .node below sibling

section
variable (hash : Input L H → H)

def climb (below : H) : List (SiblingSide × H) → H
  | [] => below
  | (side, sibling) :: rest => climb (hash (side.join sibling below)) rest

def climbed (below : H) : List (SiblingSide × H) → List (Input L H)
  | [] => []
  | (side, sibling) :: rest =>
    side.join sibling below :: climbed (hash (side.join sibling below)) rest

theorem climb_append (below : H) (path rest : List (SiblingSide × H)) :
    climb hash below (path ++ rest) = climb hash (climb hash below path) rest := by
  induction path generalizing below with
  | nil => rfl
  | cons step path ih => exact ih _

theorem climbed_append (below : H) (path rest : List (SiblingSide × H)) :
    climbed hash below (path ++ rest) =
      climbed hash below path ++ climbed hash (climb hash below path) rest := by
  induction path generalizing below with
  | nil => rfl
  | cons step path ih => exact congrArg (List.cons _) (ih _)

/-- A leaf of a tree with its path to the root, past the roots of the subtrees beside it. -/
inductive Tree.Path : Tree L → L → List (SiblingSide × H) → Prop
  | leaf (l : L) : Path (.leaf l) l []
  | left {left right : Tree L} {l : L} {path : List (SiblingSide × H)} (below : Path left l path) :
      Path (.node left right) l (path ++ [(.right, right.root hash)])
  | right {left right : Tree L} {l : L} {path : List (SiblingSide × H)}
      (below : Path right l path) :
      Path (.node left right) l (path ++ [(.left, left.root hash)])

end

namespace Tree.Path

variable {hash : Input L H → H} {t : Tree L} {l : L} {path : List (SiblingSide × H)}

theorem climb_eq (inTree : t.Path hash l path) :
    climb hash (hash (.leaf l)) path = t.root hash := by
  induction inTree with
  | leaf l => rfl
  | left below ih => rw [climb_append, ih]; rfl
  | right below ih => rw [climb_append, ih]; rfl

theorem mem_leaves (inTree : t.Path hash l path) : l ∈ t.leaves := by
  induction inTree with
  | leaf l => exact List.mem_singleton_self l
  | left below ih => exact List.mem_append_left _ ih
  | right below ih => exact List.mem_append_right _ ih

/-- The sides alone determine the leaf and the siblings. -/
theorem eq_of_sides {l' : L} {path' : List (SiblingSide × H)} (inTree : t.Path hash l path)
    (inTree' : t.Path hash l' path') (sides : path.map Prod.fst = path'.map Prod.fst) :
    l = l' ∧ path = path' := by
  induction inTree generalizing l' path' with
  | leaf l => cases inTree'; exact ⟨rfl, rfl⟩
  | left below ih =>
    cases inTree' with
    | left below' =>
      simp only [List.map_append, List.append_cancel_right_eq] at sides
      obtain ⟨rfl, rfl⟩ := ih below' sides
      exact ⟨rfl, rfl⟩
    | right below' =>
      rw [List.map_append, List.map_append] at sides
      exact absurd (List.append_inj' sides rfl).2 (by simp)
  | right below ih =>
    cases inTree' with
    | left below' =>
      rw [List.map_append, List.map_append] at sides
      exact absurd (List.append_inj' sides rfl).2 (by simp)
    | right below' =>
      simp only [List.map_append, List.append_cancel_right_eq] at sides
      obtain ⟨rfl, rfl⟩ := ih below' sides
      exact ⟨rfl, rfl⟩

/-- A path with any siblings that reaches the root of a tree stands in the tree: the topmost
join is the input at the root, so the sibling is a subtree's root and the rest of the path
reaches the root of the other subtree. -/
theorem of_climb {hashed : Set (Input L H)} (injective : Set.InjOn hash hashed)
    (inTree : ∀ i ∈ t.inputs hash, i ∈ hashed) (leafIn : .leaf l ∈ hashed)
    (inPath : ∀ i ∈ climbed hash (hash (.leaf l)) path, i ∈ hashed)
    (same : climb hash (hash (.leaf l)) path = t.root hash) : t.Path hash l path := by
  have atTop {i : Input L H} (member : i ∈ hashed) (eq : hash i = t.root hash) : i = t.top hash :=
    injective member (inTree _ (top_mem hash t)) (eq.trans (root_eq_top hash t))
  induction path using List.reverseRecOn generalizing t with
  | nil =>
    have top := atTop leafIn same
    cases t <;> cases top
    exact .leaf l
  | append_singleton path step ih =>
    obtain ⟨side, sibling⟩ := step
    rw [climbed_append, List.forall_mem_append] at inPath
    obtain ⟨inRest, inLast⟩ := inPath
    rw [climb_append] at same
    have top := atTop (inLast _ (List.mem_singleton_self _)) same
    cases t with
    | empty => cases side <;> cases top
    | leaf l => cases side <;> cases top
    | node left right =>
      simp only [inputs, List.forall_mem_cons, List.forall_mem_append] at inTree
      obtain ⟨-, inLeft, inRight⟩ := inTree
      have below {t : Tree L} (inT : ∀ i ∈ t.inputs hash, i ∈ hashed)
          (reached : climb hash (hash (.leaf l)) path = t.root hash) : t.Path hash l path :=
        ih inT inRest reached fun member eq =>
          injective member (inT _ (top_mem hash t)) (eq.trans (root_eq_top hash t))
      cases side with
      | left =>
        obtain ⟨rfl, reached⟩ := Input.node.inj top
        exact .right (below inRight reached)
      | right =>
        obtain ⟨reached, rfl⟩ := Input.node.inj top
        exact .left (below inLeft reached)

end Tree.Path

/-- The path of the `m`-th element of a list in the tree that is built over it. -/
def Splitting.path (split : Splitting) (hash : Input L H → H) (m : Nat) :
    List L → List (SiblingSide × H)
  | [] => []
  | [_] => []
  | a :: b :: rest =>
    let many := a :: b :: rest
    let k := split.point many.length
    if m < k then
      split.path hash m (many.take k) ++ [(.right, (split.layout (many.drop k)).root hash)]
    else split.path hash (m - k) (many.drop k) ++ [(.left, (split.layout (many.take k)).root hash)]
termination_by l => l.length
decreasing_by
  · have := split.lt (rest.length + 1 + 1) (by omega)
    simp only [List.length_take, List.length_cons]
    omega
  · have := split.pos (rest.length + 1 + 1) (by omega)
    simp only [List.length_drop, List.length_cons]
    omega

theorem Splitting.path_layout (split : Splitting) (hash : Input L H → H) {m : Nat} {l : List L}
    {x : L} (at_m : l[m]? = some x) : (split.layout l).Path hash x (split.path hash m l) := by
  induction m, l using Splitting.path.induct split with
  | case1 m => simp at at_m
  | case2 m a =>
    obtain ⟨rfl, rfl⟩ : m = 0 ∧ a = x := by simpa [List.getElem?_singleton] using at_m
    simpa [layout, path] using Tree.Path.leaf a
  | case3 m a b rest many k inLeft ih =>
    unfold layout path
    rw [if_pos inLeft]
    exact .left (ih ((List.getElem?_take_of_lt inLeft).trans at_m))
  | case4 m a b rest many k notLeft ih =>
    unfold layout path
    rw [if_neg notLeft]
    refine .right (ih ?_)
    rw [List.getElem?_drop, Nat.add_sub_cancel' (not_lt.mp notLeft)]
    exact at_m

end Kit.Merkle
