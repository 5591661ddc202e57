import Treasury.Kit.Turns
import Treasury.Reconcile.Decision

/-! The tiered matcher. It goes through the outflows in time order, once for equal
transaction hashes and once for amounts, times and addresses. -/
namespace Treasury
open Kit

structure CloseBlockers where
  unmatchedLegs : List LegId
  queuedDecisions : List ContentHash
  deriving DecidableEq

def CloseBlockers.closePermitted (b : CloseBlockers) : Bool :=
  b.unmatchedLegs.isEmpty && b.queuedDecisions.isEmpty

structure MatchOutcome where
  proposals : List MatchProposal
  blockers : CloseBlockers
  deriving DecidableEq

inductive MatchError where
  | mixedTenants
  | canon (error : CanonError)
  deriving DecidableEq

namespace Matcher

def expectedInflow (out : TransferLeg) : Option AssetAmount :=
  match out.fee with
  | none => some out.amount
  | some fee => (out.amount.checkedSub fee).toOption

def amountAndWindowMatch (out inflow : TransferLeg) (expectedIn : Option AssetAmount)
    (config : MatcherConfig) : Bool :=
  match expectedIn with
  | none => false
  | some expected =>
    if inflow.amount ≠ expected then false
    else
      match inflow.eventTime.nanos.checkedSub out.eventTime.nanos with
      | none => false
      | some delta => decide (0 ≤ delta ∧ delta ≤ config.timeWindowNs)

def addressesCorroborate (out inflow : TransferLeg) : Bool :=
  match out.address, inflow.address with
  | some a, some b => decide (a = b)
  | _, _ => false

def legKey (l : TransferLeg) : TimestampNs ×ₗ LegId := toLex (l.eventTime, l.legId)

/-- The proposals so far and the legs that are used up. -/
structure Matching where
  proposals : List MatchProposal
  used : Finset LegId

def sameTransaction (inflows : List TransferLeg) (used : Finset LegId) (out : TransferLeg) :
    Option TransferLeg :=
  match out.txHash with
  | none => none
  | some outTx => inflows.find? fun inflow =>
      inflow.txHash = some outTx ∧ inflow.legId ∉ used ∧ inflow.amount.asset = out.amount.asset

def netByTransaction (configHash : ContentHash) (inflows : List TransferLeg) (m : Matching)
    (out : TransferLeg) : Matching :=
  match sameTransaction inflows m.used out with
  | none => m
  | some inflow =>
    ⟨m.proposals ++ [⟨out.legId, inflow.legId, .deterministic, .autoNet, configHash⟩],
      insert inflow.legId (insert out.legId m.used)⟩

def candidates (config : MatcherConfig) (inflows : List TransferLeg) (used : Finset LegId)
    (out : TransferLeg) : List TransferLeg :=
  inflows.filter fun inflow =>
    inflow.legId ∉ used ∧ amountAndWindowMatch out inflow (expectedInflow out) config

def corroborated (config : MatcherConfig) (inflows : List TransferLeg) (used : Finset LegId)
    (out : TransferLeg) : List TransferLeg :=
  (candidates config inflows used out).filter fun inflow => addressesCorroborate out inflow

/-- Below materiality a corroborated match is netted without a human. -/
def disposition (config : MatcherConfig) (out : TransferLeg) : Disposition :=
  if out.amount.atoms < config.thresholdFor out.amount.asset then .autoNet else .queue

/-- Tier 1 for a single corroborated candidate, tier 2 otherwise. -/
def netOrQueue (config : MatcherConfig) (configHash : ContentHash) (inflows : List TransferLeg)
    (m : Matching) (out : TransferLeg) : Matching :=
  if out.legId ∈ m.used then m
  else
    match corroborated config inflows m.used out with
    | [inflow] =>
      ⟨m.proposals ++
          [⟨out.legId, inflow.legId, .strongCorroboration, disposition config out, configHash⟩],
        insert inflow.legId (insert out.legId m.used)⟩
    | _ =>
      ⟨m.proposals ++ (candidates config inflows m.used out).map fun inflow =>
          ⟨out.legId, inflow.legId, .probabilistic, .queue, configHash⟩, m.used⟩

def outflowsOf (legs : List TransferLeg) : List TransferLeg :=
  sortBy legKey (legs.filter fun l => l.direction = .outflow)

def inflowsOf (legs : List TransferLeg) : List TransferLeg :=
  sortBy legKey (legs.filter fun l => l.direction = .inflow)

def unmatchedLegs (legs : List TransferLeg) (proposals : List MatchProposal) : List LegId :=
  let proposed := proposals.flatMap fun p => [p.outLeg, p.inLeg]
  sortBy id ((legs.filter fun l => l.legId ∉ proposed).map TransferLeg.legId)

def mixedTenants : List TransferLeg → Bool
  | [] => false
  | first :: rest => (first :: rest).any fun l => l.tenant ≠ first.tenant

def queuedDecisions [External] : List MatchProposal → Except CanonError (List ContentHash)
  | [] => .ok []
  | p :: rest =>
    if p.disposition = .queue then do
      let hash ← p.decisionHash
      let hashes ← queuedDecisions rest
      return hash :: hashes
    else queuedDecisions rest

end Matcher

open Matcher in
def matchLegs [External] (legs : List TransferLeg) (config : MatcherConfig) :
    Except MatchError MatchOutcome :=
  if mixedTenants legs then .error .mixedTenants
  else
    match config.configHash with
    | .error e => .error (.canon e)
    | .ok configHash =>
      let outflows := outflowsOf legs
      let inflows := inflowsOf legs
      let netted := outflows.foldl (netByTransaction configHash inflows) ⟨[], ∅⟩
      let matched := outflows.foldl (netOrQueue config configHash inflows) netted
      match queuedDecisions matched.proposals with
      | .error e => .error (.canon e)
      | .ok queued =>
        .ok ⟨matched.proposals, ⟨unmatchedLegs legs matched.proposals, queued⟩⟩

end Treasury
