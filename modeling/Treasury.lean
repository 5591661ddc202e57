import Treasury.Kit.Run
import Treasury.Kit.Lineage
import Treasury.Kit.Streams
import Treasury.Kit.LineLog
import Treasury.Reference
import Treasury.Evidence.Faithful
import Treasury.Evidence.Store
import Treasury.Evidence.Cut
import Treasury.Anchor.Log
import Treasury.Anchor.Aggregation
import Treasury.Kit.HashChain
import Treasury.Ledger.Chain
import Treasury.Ledger.Cut
import Treasury.Ledger.Loaded
import Treasury.Ledger.Isolation
import Treasury.Ledger.AsOf
import Treasury.Chainsource.Book
import Treasury.Close.Fold
import Treasury.Close.Lineages
import Treasury.Lots.Book
import Treasury.Lots.Representation
import Treasury.Lots.Conservation
import Treasury.Posting.Safety
import Treasury.Gl.Drive
import Treasury.Reconcile.Review
import Treasury.Reconcile.Settled
import Treasury.Reconcile.Lifecycle
import Treasury.Scope.History
import Treasury.Judgments
import Treasury.Reconcile.Reorder
import Treasury.Reconcile.Ambiguity
import Treasury.Reconcile.Contradiction
import Treasury.Lots.Relocation
import Treasury.Anchor.Pipeline
import Treasury.Policy.Registry
import Treasury.Disclosure.Activity
import Treasury.Disclosure.Reader
import Treasury.Disclosure.Pack
import Treasury.Conformance.GlAdapter
import Treasury.Gl.Trace
import Treasury.Gaap.Bookable
import Treasury.Fairvalue.Floor
import Treasury.Reconcile.Accounting
import Treasury.Conformance.AnchorFixture
import Treasury.Conformance.AnchorSessions
import Treasury.Conformance.Reorgs
import Treasury.Disclosure.Close
import Treasury.Disclosure.Commitment
import Treasury.Disclosure.Filing
import Treasury.Restarts
import Treasury.Drafts
import Treasury.Ingest
