import Treasury.Conformance.ChainSource

/-! The suite of the chain sources over nodes whose best chains change while they are asked. What
respects the finality rule raises no alarm, and two nodes agree that have forked above what is
settled. -/
namespace Treasury.Conformance.SourceSuite
open Kit Chainsource

variable {B : Type} {address : String} {policy : FinalityPolicy} {lowTip highTip observed : U64}

theorem toNat_mono {low high : U64} (ordered : low ≤ high) :
    low.val.toNat + 1 ≤ high.val.toNat + 1 :=
  Nat.succ_le_succ (Int.toNat_le_toNat (Bounded.le_def.mp ordered))

section
variable [External]

omit [External] in
theorem tells_onFirst {W V : Type} {source : LiveSource W} {w : W} {v : V} {a : AddressHistory}
    {next : W × V} : source.onFirst.Tells address observed (w, v) a next ↔
      ∃ after, source.Tells address observed w a after ∧ next = (after, v) :=
  Steps.first_eq_ok

omit [External] in
theorem tells_onSecond {W V : Type} {source : LiveSource V} {w : W} {v : V} {a : AddressHistory}
    {next : W × V} : source.onSecond.Tells address observed (w, v) a next ↔
      ∃ after, source.Tells address observed v a after ∧ next = (w, after) :=
  Steps.second_eq_ok

end

/-- A chain that pays twice, and whose last block gives way to two others before the second
answer. -/
def reorganized : Node (List Payment) where
  blocks := [[], [⟨"bc1q", "t1", .inflow, ⟨⟨"BTC"⟩, ⟨7, by decide, by decide⟩⟩⟩], [],
    [⟨"bc1q", "t2", .inflow, ⟨⟨"BTC"⟩, ⟨9, by decide, by decide⟩⟩⟩]]
  pending := [[], [⟨1, [[], []]⟩]]

def core : Indexer (List Payment) := .payments .bitcoin "core+electrs"

def oneDeep : FinalityPolicy := ⟨.bitcoin, .confirmationDepth (.literal 1)⟩

theorem reorganized_respects : reorganized.Respects oneDeep.rule (.literal 3) :=
  ⟨by decide, ⟨by decide, by decide, by decide⟩, trivial⟩

/-- The same chain but for its last block. -/
def forked : Node (List Payment) := ⟨reorganized.blocks.dropLast ++ [[], []], []⟩

theorem forked_respects : forked.Respects oneDeep.rule (.literal 3) := ⟨by decide, trivial⟩

end Treasury.Conformance.SourceSuite
