import ChainPlanner.Range
import ChainPlanner.Record
import ChainPlanner.Text.Blank

/-!
# ChainPlanner.ParameterMap

Placements among the data of a task, under four names of their own.  Reading is lenient: a
position may be a number or a text, a flag a truth value or a text, and whatever cannot be read
stands for "unknown" or "no".  Only a missing worker makes the placement as a whole missing.
-/

namespace ChainPlanner

open ChainPlanner.Text

namespace PlanningParameters

/-- The name of the assigned worker. -/
def assignedUserKey : String := "planning_param_assigned_user"

/-- The name of the position. -/
def orderKey : String := "planning_param_order"

/-- The name of the flag for pinned tasks. -/
def pinnedKey : String := "planning_param_pinned"

/-- The name of the flag for published tasks. -/
def publishedKey : String := "planning_param_published"

/-- The placement as named data. -/
def toMap (p : PlanningParameters) : Payload :=
  [(assignedUserKey, .string p.assignedUser.name), (orderKey, .int p.index.toInt),
    (pinnedKey, .bool p.pinned), (publishedKey, .bool p.published)]

/-- A truth value, or a text that spells "true" in any case. -/
def flag : Option Json.Value → Bool
  | some (.bool b) => b
  | some (.string s) => s.toList.map Char.toLower = ['t', 'r', 'u', 'e']
  | _ => false

/-- A whole number, or a text that holds one between blanks. -/
def wholeNumber? : Option Json.Value → Option Int
  | some (.int n) => some n
  | some (.string s) => Decimal.readSigned? (trim s.toList)
  | _ => none

/-- A position; `-1` for one that cannot be read. -/
def position (v : Option Json.Value) : Int32 := ((wholeNumber? v).bind int32?).getD (-1)

/-- The placement in named data; none if no worker is named. -/
def ofMap? (map : Payload) : Option PlanningParameters :=
  match map.lookup assignedUserKey with
  | some (.string user) =>
    if user = "" then none
    else some {
      assignedUser := ⟨user⟩
      index := position (map.lookup orderKey)
      pinned := flag (map.lookup pinnedKey)
      published := flag (map.lookup publishedKey) }
  | _ => none

end PlanningParameters

end ChainPlanner
