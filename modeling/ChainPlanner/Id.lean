/-!
# ChainPlanner.Id

Identifiers.  Tasks carry the number that the task runtime gave them; workers and groups carry
the opaque name that the directory gave them.  Ids are ordered — numbers by value, names by code
point — because sets of them are written in order.
-/

namespace ChainPlanner

/-- The number of a task. -/
structure TaskId where
  val : Int64
  deriving DecidableEq, Inhabited

/-- The name of a worker. -/
structure UserId where
  name : String
  deriving DecidableEq, Inhabited

/-- The name of a group of workers. -/
structure GroupId where
  name : String
  deriving DecidableEq, Inhabited

namespace TaskId

/-- Reserved for the placeholder; the runtime never gives this number to a task. -/
def placeholder : TaskId := ⟨-1⟩

/-- Whether this is the reserved number. -/
def isPlaceholder (id : TaskId) : Bool := id = placeholder

/-- The number in decimal. -/
def text (id : TaskId) : String := toString id.val.toInt

instance : Ord TaskId := ⟨fun a b => compare a.val b.val⟩

instance : Std.TransOrd TaskId where
  eq_swap := Std.OrientedOrd.eq_swap (α := Int64)
  isLE_trans := Std.TransOrd.isLE_trans (α := Int64)

instance : Std.LawfulEqOrd TaskId where
  compare_self := Std.compare_self (α := Int64)
  eq_of_compare {a b} h := by
    cases a; cases b
    exact congrArg mk (Std.LawfulEqOrd.eq_of_compare (α := Int64) h)

end TaskId

namespace GroupId

instance : Ord GroupId := ⟨fun a b => compare a.name b.name⟩

instance : Std.TransOrd GroupId where
  eq_swap := Std.OrientedOrd.eq_swap (α := String)
  isLE_trans := Std.TransOrd.isLE_trans (α := String)

instance : Std.LawfulEqOrd GroupId where
  compare_self := Std.compare_self (α := String)
  eq_of_compare {a b} h := by
    cases a; cases b
    exact congrArg mk (Std.LawfulEqOrd.eq_of_compare (α := String) h)

end GroupId

end ChainPlanner
