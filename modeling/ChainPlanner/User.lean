import ChainPlanner.Id
import ChainPlanner.SortedSet

/-!
# ChainPlanner.User

Workers.  Each one anchors a chain of tasks; the fallback user takes the tasks that nobody else
may work on.
-/

namespace ChainPlanner

/-- A worker and the head of its chain. -/
structure User where
  id : UserId
  groups : SortedSet GroupId
  /-- The first task of the chain. -/
  next : Option TaskId
  deriving DecidableEq

/-- The id of the owner of last resort. -/
def UserId.fallback : UserId := ⟨"planninguser"⟩

namespace User

/-- A worker in no group, with an empty chain. -/
def ofId (id : UserId) : User := ⟨id, ∅, none⟩

/-- The worker that takes the tasks nobody else is eligible for. -/
def fallback : User := ofId .fallback

/-- Whether this is the owner of last resort. -/
def isFallback (u : User) : Bool := u.id = .fallback

end User

end ChainPlanner
