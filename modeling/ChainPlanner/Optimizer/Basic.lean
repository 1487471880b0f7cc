import ChainPlanner.Mutation

/-!
# ChainPlanner.Optimizer.Basic

What an optimizer reports.  It starts from a solution, takes batches of changes while it runs,
and reports each better solution it finds.
-/

namespace ChainPlanner

/-- Changes that are submitted together. -/
abbrev Batch := List Mutation

/-- A better solution. -/
structure BestSolution where
  solution : Solution
  /-- Whether every change submitted so far is in the solution. -/
  allMutationsProcessed : Bool
  /-- Whether every task has a place. -/
  initialized : Bool

/-- Only complete solutions that are up to date may be published. -/
def BestSolution.isPublishable (e : BestSolution) : Bool :=
  e.allMutationsProcessed && e.initialized

end ChainPlanner
