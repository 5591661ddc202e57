import Treasury.Chainsource.Live

/-! Sources that read the best chain of a node. The chain may change between two answers, down
to the height that the finality policy calls settled and no deeper. -/
namespace Treasury.Chainsource
open Kit

/-- What two readings of one chain report up to a height depends on the blocks up to there. -/
def ReadsAs {B : Type}
    (one two : List B → String → U64 → Except SourceError AddressHistory) : Prop :=
  ∀ {blocks others : List B} {address : String} {observed later height : U64}
    {a b : AddressHistory}, height ≤ observed → height ≤ later →
    blocks.take (height.val.toNat + 1) = others.take (height.val.toNat + 1) →
    one blocks address observed = .ok a → two others address later = .ok b → Alike a b height

/-- How a source reads the history of an address off the best chain of its node. -/
structure Indexer (B : Type) where
  chain : Chain
  sourceId : String
  history : List B → String → U64 → Except SourceError AddressHistory
  reads : ReadsAs history history

/-- The best chain of a node, from its first block, and what becomes of it before each of the
next answers. -/
structure Node (B : Type) where
  blocks : List B
  pending : List (List (Reorg B))

variable {B : Type}

def Node.next (n : Node B) : Node B :=
  match n.pending with
  | [] => n
  | events :: rest => ⟨run Reorg.apply n.blocks events, rest⟩

/-- No event reaches the first so many blocks. -/
def Node.Keeps (kept : Nat) (n : Node B) : Prop :=
  Along Reorg.apply (Reorg.Keeps kept) n.blocks n.pending.flatten

def Indexer.source (indexer : Indexer B) : LiveSource (Node B) where
  chain := indexer.chain
  sourceId := indexer.sourceId
  addressHistory address observedHeight n :=
    (n.next, indexer.history n.next.blocks address observedHeight)

/-- What a rule takes for granted about an event: under a confirmation depth it drops at most so
many blocks and never the first one, and otherwise it keeps the blocks up to the height that is
reported final. No chain gives way to a shorter one. -/
def FinalityRule.Respects (rule : FinalityRule) (observed : U64) (chain : List B) (r : Reorg B) :
    Prop :=
  match rule with
  | .confirmationDepth depth => r.Within depth.val.toNat chain
  | .externalFinalized => r.Keeps (observed.val.toNat + 1) chain

/-- The node has the block at the height, and all that becomes of its chain respects the rule. -/
def Node.Respects (n : Node B) (rule : FinalityRule) (observed : U64) : Prop :=
  observed.val.toNat < n.blocks.length ∧
    Along Reorg.apply (rule.Respects observed) n.blocks n.pending.flatten

theorem saturatingSub_val (a b : U64) : (a.saturatingSub b).val = max (a.val - b.val) 0 := by
  unfold Bounded.saturatingSub
  split_ifs with low
  · exact (max_eq_right (Int.sub_nonpos_of_le low.le)).symm
  · exact (max_eq_left (Int.sub_nonneg_of_le (not_lt.mp low))).symm

theorem FinalityPolicy.settledHeight_mono (policy : FinalityPolicy) {low high : U64}
    (ordered : low ≤ high) : policy.settledHeight low ≤ policy.settledHeight high := by
  obtain ⟨chain, rule⟩ := policy
  cases rule with
  | confirmationDepth depth =>
    have := Bounded.le_def.mp ordered
    refine Bounded.le_def.mpr ?_
    simp only [settledHeight, saturatingSub_val]
    omega
  | externalFinalized => exact ordered

theorem FinalityPolicy.settledHeight_le (policy : FinalityPolicy) (observed : U64) :
    policy.settledHeight observed ≤ observed := by
  obtain ⟨chain, rule⟩ := policy
  cases rule with
  | confirmationDepth depth =>
    have := observed.lower
    have := depth.lower
    refine Bounded.le_def.mpr ?_
    simp only [settledHeight, saturatingSub_val]
    omega
  | externalFinalized => exact le_rfl

section
variable {n : Node B} {kept : Nat}

theorem Node.Keeps.next (keeps : n.Keeps kept) : n.next.Keeps kept := by
  obtain ⟨blocks, pending⟩ := n
  cases pending with
  | nil => exact keeps
  | cons events rest => exact ((along_append ..).mp keeps).2

theorem Node.Keeps.take_next (keeps : n.Keeps kept) :
    n.next.blocks.take kept = n.blocks.take kept := by
  obtain ⟨blocks, pending⟩ := n
  cases pending with
  | nil => rfl
  | cons events rest => exact (Reorg.take_run events ((along_append ..).mp keeps).1).1

theorem Node.Respects.keeps {policy : FinalityPolicy} {observed : U64}
    (respects : n.Respects policy.rule observed) :
    n.Keeps ((policy.settledHeight observed).val.toNat + 1) := by
  obtain ⟨below, along⟩ := respects
  unfold FinalityPolicy.settledHeight
  cases rule : policy.rule with
  | confirmationDepth depth =>
    rw [rule] at along
    have kept := Reorg.keeps_of_within below n.pending.flatten along
    have settled : (observed.saturatingSub depth).val.toNat =
        observed.val.toNat - depth.val.toNat := by
      have := depth.lower
      have := observed.lower
      rw [saturatingSub_val]
      omega
    rw [← settled] at kept
    exact kept
  | externalFinalized =>
    rw [rule] at along
    exact along

/-- The node has the blocks that a chain starts with, and keeps them. -/
def Node.Shows (start : List B) (kept : Nat) (n : Node B) : Prop :=
  n.Keeps kept ∧ n.blocks.take kept = start.take kept

theorem Node.Shows.next {start : List B} (shows : n.Shows start kept) : n.next.Shows start kept :=
  ⟨shows.1.next, shows.1.take_next.trans shows.2⟩

variable {one two : Indexer B} {start : List B} {m : Node B} {address : String}
  {observed later height : U64} {a b : AddressHistory} {next after : Node B}

theorem Indexer.tells_iff : one.source.Tells address observed n a next ↔
    next = n.next ∧ one.history n.next.blocks address observed = .ok a := by
  unfold LiveSource.Tells source
  rw [Prod.mk.injEq, eq_comm]

theorem Indexer.alike_of_shows (reads : ReadsAs one.history two.history)
    (shows : n.Shows start kept) (also : m.Shows start kept) (inside : height.val.toNat + 1 ≤ kept)
    (below : height ≤ observed) (under : height ≤ later)
    (told : one.source.Tells address observed n a next)
    (again : two.source.Tells address later m b after) : Alike a b height := by
  have same : n.next.blocks.take kept = m.next.blocks.take kept :=
    shows.next.2.trans also.next.2.symm
  have shared := congrArg (List.take (height.val.toNat + 1)) same
  rw [List.take_take, List.take_take, min_eq_left inside] at shared
  exact reads below under shared (tells_iff.mp told).2 (tells_iff.mp again).2

end

structure Payment where
  address : String
  txRef : String
  direction : Direction
  amount : AssetAmount

def Payment.movement (p : Payment) (height : U64) : ChainMovement :=
  ⟨p.txRef, p.direction, p.amount, height⟩

def movementsAt (address : String) (block : List Payment × Nat) : List ChainMovement :=
  (Bounded.ofInt? block.2 : Option U64).toList.flatMap fun height =>
    (block.1.filter (·.address = address)).map (·.movement height)

def listed (blocks : List (List Payment)) (address : String) : List ChainMovement :=
  blocks.zipIdx.flatMap (movementsAt address)

theorem height_of_mem_movementsAt {address : String} {block : List Payment × Nat}
    {m : ChainMovement} (member : m ∈ movementsAt address block) :
    m.blockHeight.val = block.2 := by
  obtain ⟨height, counted, paid⟩ := List.mem_flatMap.mp member
  obtain ⟨p, _, rfl⟩ := List.mem_map.mp paid
  exact (Bounded.ofInt?_eq_some.mp (Option.mem_toList.mp counted)).symm

theorem listed_to (blocks : List (List Payment)) (address : String) (height : U64) :
    (listed blocks address).filter (·.blockHeight ≤ height) =
      (listed (blocks.take (height.val.toNat + 1)) address).filter (·.blockHeight ≤ height) := by
  have later : ((blocks.drop (height.val.toNat + 1)).zipIdx
      (blocks.take (height.val.toNat + 1)).length |>.flatMap (movementsAt address)).filter
        (·.blockHeight ≤ height) = [] := by
    refine List.filter_eq_nil_iff.mpr fun m member => ?_
    obtain ⟨⟨block, i⟩, inRest, at_⟩ := List.mem_flatMap.mp member
    have beyond := List.le_snd_of_mem_zipIdx inRest
    have nonempty := List.length_pos_of_mem inRest
    have here := height_of_mem_movementsAt at_
    rw [List.length_zipIdx, List.length_drop] at nonempty
    rw [List.length_take, min_eq_left (by omega)] at beyond
    rw [decide_eq_true_eq, Bounded.le_def, here]
    omega
  conv_lhs => rw [listed, ← List.take_append_drop (height.val.toNat + 1) blocks, List.zipIdx_append,
    List.flatMap_append, List.filter_append]
  rw [Nat.zero_add, later, List.append_nil]
  rfl

def scan (chain : Chain) (blocks : List (List Payment)) (address : String) (observed : U64) :
    Except SourceError AddressHistory :=
  if short : ((listed blocks address).filter (·.blockHeight ≤ observed)).length <
      18446744073709551616 then
    .ok ⟨chain, address, observed, (listed blocks address).filter (·.blockHeight ≤ observed), short⟩
  else .error (.transport "too many movements")

theorem scan_ok {chain : Chain} {blocks : List (List Payment)} {address : String} {observed : U64}
    {a : AddressHistory} (scanned : scan chain blocks address observed = .ok a) :
    a.chain = chain ∧ a.address = address ∧
      a.movements = (listed blocks address).filter (·.blockHeight ≤ observed) := by
  unfold scan at scanned
  split at scanned
  · cases scanned
    exact ⟨rfl, rfl, rfl⟩
  · cases scanned

theorem scan_reads (chain : Chain) : ReadsAs (scan chain) (scan chain) := by
  intro blocks others address observed later height a b below under shared readA readB
  obtain ⟨chainA, addressA, movementsA⟩ := scan_ok readA
  obtain ⟨chainB, addressB, movementsB⟩ := scan_ok readB
  refine ⟨chainA.trans chainB.symm, addressA.trans addressB.symm, fun key => ?_⟩
  have settled {h : AddressHistory} {blocks : List (List Payment)} {seen : U64} (inside : height ≤ seen)
      (read : h.movements = (listed blocks address).filter (·.blockHeight ≤ seen)) :
      (h.settledTo height).settled =
        (listed (blocks.take (height.val.toNat + 1)) address).filter (·.blockHeight ≤ height) := by
    have kept (m : ChainMovement) : (decide (m.blockHeight ≤ height) && decide (m.blockHeight ≤ seen)) =
        decide (m.blockHeight ≤ height) := by
      rw [← Bool.decide_and, decide_eq_decide]
      exact and_iff_left_of_imp fun low => low.trans inside
    change h.movements.filter (·.blockHeight ≤ height) = _
    rw [← listed_to, read, List.filter_filter]
    exact List.filter_congr fun m _ => kept m
  rw [settled below movementsA, settled under movementsB, shared]

/-- The node that lists what its blocks pay. -/
def Indexer.payments (chain : Chain) (sourceId : String) : Indexer (List Payment) :=
  ⟨chain, sourceId, scan chain, scan_reads chain⟩

def LiveSource.onFirst {W V : Type} (source : LiveSource W) : LiveSource (W × V) where
  chain := source.chain
  sourceId := source.sourceId
  addressHistory address observedHeight :=
    Steps.first id (source.addressHistory address observedHeight)

def LiveSource.onSecond {W V : Type} (source : LiveSource V) : LiveSource (W × V) where
  chain := source.chain
  sourceId := source.sourceId
  addressHistory address observedHeight :=
    Steps.second id (source.addressHistory address observedHeight)

end Treasury.Chainsource
