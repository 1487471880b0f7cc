import ChainPlanner.Sync.Basic

/-!
# ChainPlanner.Sync.Script

A handler that answers from a script and records how it is called.  It fails once its answers
have run out.
-/

namespace ChainPlanner

/-- A call of the handler. -/
inductive SyncCall where
  | bootstrap (records : List TaskRecord) (users : List DirectoryUser)
  | refresh (records : List TaskRecord)

/-- The answers still to give, and the calls so far. -/
structure SyncScript where
  started : Bool
  bootstraps : List (Option Bool)
  refreshes : List (Option Nat)
  calls : List SyncCall

namespace SyncScript

/-- Answer the next offer for a start; an answer decides whether the optimizer runs from now. -/
def bootstrap (records : List TaskRecord) (users : List DirectoryUser) (s : SyncScript) :
    Option Bool × SyncScript :=
  let answer := s.bootstraps.head?.join
  (answer, { s with
    started := answer.getD s.started
    bootstraps := s.bootstraps.tail
    calls := s.calls ++ [.bootstrap records users] })

/-- Answer the next offer for a comparison. -/
def refresh (records : List TaskRecord) (s : SyncScript) : Option Nat × SyncScript :=
  (s.refreshes.head?.join, { s with
    refreshes := s.refreshes.tail
    calls := s.calls ++ [.refresh records] })

/-- The handler of a script. -/
def handler : SyncHandler SyncScript where
  isStarted := (·.started)
  bootstrap
  refresh

end SyncScript

end ChainPlanner
