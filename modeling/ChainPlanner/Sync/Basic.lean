import ChainPlanner.Runtime.Memory

/-!
# ChainPlanner.Sync.Basic

One look at the task runtime.  Until the optimizer runs, the tasks and the workers are offered for
a start; afterwards the tasks alone are offered for a comparison.  Whatever fails ends the cycle,
and the next cycle is the next attempt.
-/

namespace ChainPlanner

/-- Who receives what a cycle has fetched.  A failure says nothing more: it is only logged. -/
structure SyncHandler (σ : Type) where
  /-- Whether the optimizer runs. -/
  isStarted : σ → Bool
  /-- Try to start the optimizer; the answer is whether there was anything to start on. -/
  bootstrap : List TaskRecord → List DirectoryUser → σ → Option Bool × σ
  /-- Compare with the current solution; the answer is the number of changes submitted. -/
  refresh : List TaskRecord → σ → Option Nat × σ

/-- What a cycle has come to. -/
inductive SyncOutcome where
  | started
  /-- There was nothing to start on. -/
  | waiting
  | refreshed (changes : Nat)
  /-- Something failed. -/
  | skipped
  deriving DecidableEq

/-- What a cycle works on. -/
structure SyncWorld (σ : Type) where
  runtime : MemoryRuntime
  directory : MemoryDirectory
  handler : σ

/-- Run one cycle. -/
def SyncHandler.cycle {σ : Type} (h : SyncHandler σ) (pageSize : UInt32) (w : SyncWorld σ) :
    SyncOutcome × SyncWorld σ :=
  match w.runtime.fetch ⟨TaskStatus.plannable, 0, pageSize⟩ with
  | (.error _, runtime) => (.skipped, { w with runtime })
  | (.ok records, runtime) =>
    let w := { w with runtime }
    if h.isStarted w.handler then
      match h.refresh records w.handler with
      | (some changes, handler) => (.refreshed changes, { w with handler })
      | (none, handler) => (.skipped, { w with handler })
    else match w.directory.findAll with
      | (.error _, directory) => (.skipped, { w with directory })
      | (.ok users, directory) => match h.bootstrap records users w.handler with
        | (some true, handler) => (.started, { w with directory, handler })
        | (some false, handler) => (.waiting, { w with directory, handler })
        | (none, handler) => (.skipped, { w with directory, handler })

end ChainPlanner
