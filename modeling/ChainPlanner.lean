import ChainPlanner.Anchor
import ChainPlanner.Assembly.Build
import ChainPlanner.Assembly.Error
import ChainPlanner.Assembly.Order
import ChainPlanner.Assembly.Resync
import ChainPlanner.ChainError
import ChainPlanner.Config.Basic
import ChainPlanner.Config.Source
import ChainPlanner.Double
import ChainPlanner.Id
import ChainPlanner.Json.Number
import ChainPlanner.Json.Real
import ChainPlanner.Json.Text
import ChainPlanner.Json.Token
import ChainPlanner.Json.Tree
import ChainPlanner.Json.Value
import ChainPlanner.KeyedList
import ChainPlanner.Minutes
import ChainPlanner.Mutation
import ChainPlanner.Optimizer.Basic
import ChainPlanner.Optimizer.Driver
import ChainPlanner.Optimizer.Greedy
import ChainPlanner.Optimizer.Recorder
import ChainPlanner.Owner
import ChainPlanner.ParameterMap
import ChainPlanner.Placement
import ChainPlanner.Planner.Basic
import ChainPlanner.Planner.Coordination
import ChainPlanner.Priority
import ChainPlanner.Proofs.Build.Agreement
import ChainPlanner.Proofs.Build.Built
import ChainPlanner.Proofs.Build.Complete
import ChainPlanner.Proofs.Build.Draft
import ChainPlanner.Proofs.Build.PinnedFirst
import ChainPlanner.Proofs.Build.Restart
import ChainPlanner.Proofs.Build.Steady
import ChainPlanner.Proofs.Chain.Arrangement
import ChainPlanner.Proofs.Chain.Checking
import ChainPlanner.Proofs.Chain.Edits
import ChainPlanner.Proofs.Chain.Exactness
import ChainPlanner.Proofs.Chain.Mutations
import ChainPlanner.Proofs.Chain.Operations
import ChainPlanner.Proofs.Chain.Placing
import ChainPlanner.Proofs.Chain.Reachable
import ChainPlanner.Proofs.Chain.Refinement
import ChainPlanner.Proofs.Chain.Rejection
import ChainPlanner.Proofs.Chain.Relinking
import ChainPlanner.Proofs.Chain.Repetition
import ChainPlanner.Proofs.Chain.Rewire
import ChainPlanner.Proofs.Chain.Roster
import ChainPlanner.Proofs.Chain.Splice
import ChainPlanner.Proofs.Chain.Validation
import ChainPlanner.Proofs.Chain.Walk
import ChainPlanner.Proofs.Interleaving.Batches
import ChainPlanner.Proofs.Interleaving.Confirmation
import ChainPlanner.Proofs.Interleaving.FailedPublish
import ChainPlanner.Proofs.Interleaving.FailedRefresh
import ChainPlanner.Proofs.Interleaving.Journal
import ChainPlanner.Proofs.Interleaving.Lifecycle
import ChainPlanner.Proofs.Interleaving.Moves
import ChainPlanner.Proofs.Interleaving.Recovery
import ChainPlanner.Proofs.Interleaving.StaleRecords
import ChainPlanner.Proofs.Placement.Frame
import ChainPlanner.Proofs.Placement.Rule
import ChainPlanner.Proofs.Publishing.Exposure
import ChainPlanner.Proofs.Publishing.Follows
import ChainPlanner.Proofs.Publishing.Handover
import ChainPlanner.Proofs.Publishing.Numbering
import ChainPlanner.Proofs.Publishing.Quiet
import ChainPlanner.Proofs.Publishing.Window
import ChainPlanner.Proofs.Replay.Ahead
import ChainPlanner.Proofs.Replay.Simulation
import ChainPlanner.Proofs.Resync.Comparison
import ChainPlanner.Proofs.Resync.Convergence
import ChainPlanner.Proofs.Resync.Extent
import ChainPlanner.Proofs.Resync.Records
import ChainPlanner.Proofs.Resync.Reordering
import ChainPlanner.Proofs.Resync.Returning
import ChainPlanner.Proofs.Resync.Rounds
import ChainPlanner.Proofs.Resync.Settled
import ChainPlanner.Proofs.Resync.Soundness
import ChainPlanner.Proofs.Resync.Standing
import ChainPlanner.Proofs.Resync.Strangers
import ChainPlanner.Proofs.Wire.Data
import ChainPlanner.Proofs.Wire.Fields
import ChainPlanner.Proofs.Wire.ParameterMap
import ChainPlanner.Proofs.Wire.Records
import ChainPlanner.Proofs.Wire.RoundTrip
import ChainPlanner.Proofs.Wire.Trees
import ChainPlanner.Proofs.Wire.Words
import ChainPlanner.Publish.Plan
import ChainPlanner.Publish.Publisher
import ChainPlanner.Published
import ChainPlanner.Range
import ChainPlanner.Record
import ChainPlanner.Runtime.Error
import ChainPlanner.Runtime.Memory
import ChainPlanner.Solution.Basic
import ChainPlanner.Solution.Check
import ChainPlanner.Solution.Layout
import ChainPlanner.Solution.Links
import ChainPlanner.SortedSet
import ChainPlanner.Sync.Basic
import ChainPlanner.Sync.Script
import ChainPlanner.Task
import ChainPlanner.Text.Blank
import ChainPlanner.Text.Decimal
import ChainPlanner.Text.Duration
import ChainPlanner.Text.Hidden
import ChainPlanner.Text.Quoted
import ChainPlanner.Text.Shortest
import ChainPlanner.Toml.Document
import ChainPlanner.Toml.Reader
import ChainPlanner.Toml.Scalar
import ChainPlanner.User
import ChainPlanner.Wire.Fields
import ChainPlanner.Wire.Record
import ChainPlanner.Wire.Solution
import ChainPlanner.Wire.Task
