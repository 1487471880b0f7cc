import ChainPlanner.Task

/-!
# ChainPlanner.Assembly.Order

The order in which the tasks that a worker already holds go into its chain: pinned tasks before
the others, in each group those with a known position before those without, known positions
ascending, and otherwise in the order of arrival.
-/

namespace ChainPlanner.Assembly

/-- A task on its way into a chain. -/
structure Slot where
  task : Task
  /-- The recorded position in the chain; negative when unknown. -/
  index : Int32
  pinned : Bool

namespace Slot

/-- Whether a slot that arrives goes in front of one that is there. -/
def goesBefore (new old : Slot) : Bool :=
  match new.pinned, old.pinned with
  | true, false => true
  | false, true => false
  | _, _ => 0 ≤ new.index && (old.index < 0 || new.index < old.index)

end Slot

/-- Put a slot in front of the first one it goes before, or at the end. -/
def insertInOrder (slot : Slot) : List Slot → List Slot
  | [] => [slot]
  | old :: rest =>
    if slot.goesBefore old then slot :: old :: rest else old :: insertInOrder slot rest

end ChainPlanner.Assembly
