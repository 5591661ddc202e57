import Treasury.Anchor.Pipeline
import Treasury.Kit.Steps

/-! The wallet that broadcasts a commitment and reports what the chain shows of it. The
pipeline takes its reports as they are; the fixture is a wallet over a chain that grows by one
block at each poll. -/
namespace Treasury
open Kit

structure Broadcast where
  txRef : String
  submittedHeight : U64
  deriving DecidableEq

structure Confirmation where
  currentHeight : U64
  includedAt : Option U64
  deriving DecidableEq

inductive SubmitterError where
  | transport (message : String)
  | notBroadcast
  | notConfirmed
  deriving DecidableEq

def SubmitterError.display : SubmitterError → String
  | .transport message => "submitter transport error: " ++ message
  | .notBroadcast => "transaction not broadcast"
  | .notConfirmed => "transaction not yet confirmed"

/-- A wallet, by what it answers in a state and what state it is left in. -/
structure ChainAnchorSubmitter (W : Type) where
  broadcast : ContentHash → Steps W SubmitterError Broadcast
  poll : String → Steps W SubmitterError Confirmation
  calendarProof : String → Steps W SubmitterError ContentHash

structure FixtureChainSubmitter where
  tip : U64
  blocksToInclusion : U64
  neverConfirms : Bool
  broadcastHeight : Option U64
  includedHeight : Option U64
  seq : U64
  deriving DecidableEq

namespace FixtureChainSubmitter

def new (startTip blocksToInclusion : U64) : FixtureChainSubmitter where
  tip := startTip
  blocksToInclusion
  neverConfirms := false
  broadcastHeight := none
  includedHeight := none
  seq := 0

def neverConfirming (startTip : U64) : FixtureChainSubmitter :=
  { new startTip 0 with neverConfirms := true }

def broadcast (_root : ContentHash) : Steps FixtureChainSubmitter SubmitterError Broadcast :=
  fun wallet =>
    let submittedHeight := wallet.tip
    let n := wallet.seq.saturatingAdd (.literal 1)
    let includedHeight :=
      if wallet.neverConfirms then none
      else some (submittedHeight.saturatingAdd wallet.blocksToInclusion)
    ({ wallet with
        seq := n, broadcastHeight := some submittedHeight, includedHeight := includedHeight },
      .ok ⟨"fixture-tx-" ++ n.val.repr, submittedHeight⟩)

/-- The tip advances by one block at every poll after a broadcast. -/
def poll (_txRef : String) : Steps FixtureChainSubmitter SubmitterError Confirmation :=
  fun wallet =>
    if wallet.broadcastHeight.isNone then (wallet, .error .notBroadcast)
    else
      let currentHeight := wallet.tip.saturatingAdd (.literal 1)
      ({ wallet with tip := currentHeight },
        .ok ⟨currentHeight, wallet.includedHeight.filter (· ≤ currentHeight)⟩)

def calendarProof [External] (txRef : String) :
    Steps FixtureChainSubmitter SubmitterError ContentHash := fun wallet =>
  match wallet.includedHeight with
  | none => (wallet, .error .notConfirmed)
  | some included =>
    if wallet.tip < included then (wallet, .error .notConfirmed)
    else (wallet, .ok (sha256 (utf8 ("calendar-proof:" ++ txRef))))

def submitter [External] : ChainAnchorSubmitter FixtureChainSubmitter where
  broadcast := broadcast
  poll := poll
  calendarProof := calendarProof

end FixtureChainSubmitter

/-- The height so many blocks above another, as far as `u64` goes. -/
def U64.above (start : U64) (blocks : Nat) : U64 :=
  ⟨min (start.val + blocks) 18446744073709551615, by have := start.lower; omega, by omega⟩

theorem U64.above_zero (start : U64) : start.above 0 = start := by
  apply Bounded.ext_val
  have := start.upper
  simp only [above]
  omega

theorem U64.above_succ (start : U64) (blocks : Nat) :
    (start.above blocks).saturatingAdd (.literal 1) = start.above (blocks + 1) := by
  apply Bounded.ext_val
  have one : (Bounded.literal 1 : U64).val = 1 := by decide
  rw [Bounded.saturatingAdd_val, one]
  simp only [above]
  omega

theorem U64.above_mono (start : U64) {few many : Nat} (le : few ≤ many) :
    start.above few ≤ start.above many := by
  apply Bounded.le_def.mpr
  simp only [above]
  omega

namespace FixtureChainSubmitter

def polledTimes (wallet : FixtureChainSubmitter) (start : U64) (polls : Nat) :
    FixtureChainSubmitter :=
  { wallet with tip := start.above polls }

/-- What a poll shows when the chain has grown by so many blocks. -/
def shown (included : Option U64) (start : U64) (blocks : Nat) : Confirmation :=
  ⟨start.above blocks, included.filter (· ≤ start.above blocks)⟩

theorem poll_polledTimes {wallet : FixtureChainSubmitter} (sent : wallet.broadcastHeight.isSome)
    (start : U64) (polls : Nat) (txRef : String) :
    poll txRef (wallet.polledTimes start polls) = (wallet.polledTimes start (polls + 1),
      .ok (shown wallet.includedHeight start (polls + 1))) := by
  have present : ¬wallet.broadcastHeight.isNone := by
    rw [Bool.not_eq_true, Option.isNone_eq_false_iff]
    exact sent
  simp only [poll, polledTimes, if_neg present, U64.above_succ, shown]

def reports (included : Option U64) (start : U64) (polls : Nat) : List Confirmation :=
  (List.range polls).map fun i => shown included start (i + 1)

theorem reports_succ (included : Option U64) (start : U64) (polls : Nat) :
    reports included start (polls + 1) =
      reports included start polls ++ [shown included start (polls + 1)] := by
  simp [reports, List.range_succ]

theorem mem_reports {included : Option U64} {start : U64} {polls : Nat} {report : Confirmation} :
    report ∈ reports included start polls ↔
      ∃ blocks, 0 < blocks ∧ blocks ≤ polls ∧ shown included start blocks = report := by
  simp only [reports, List.mem_map, List.mem_range]
  constructor
  · rintro ⟨i, inside, rfl⟩
    exact ⟨i + 1, Nat.succ_pos i, inside, rfl⟩
  · rintro ⟨blocks, some, inside, rfl⟩
    exact ⟨blocks - 1, by omega, by rw [Nat.sub_add_cancel some]⟩

end FixtureChainSubmitter

end Treasury
