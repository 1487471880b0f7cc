import ChainPlanner.Id
import ChainPlanner.Json.Value
import ChainPlanner.Minutes
import ChainPlanner.Priority
import ChainPlanner.Range

/-!
# ChainPlanner.Wire.Fields

Reading records from JSON.  A record is an object, or an array that holds the first fields in
order.  In an object a field may stand only once, and names that are not asked for are passed
over without being read.  Each reader below takes a tree and fails on any other shape.
-/

namespace ChainPlanner.Wire

open ChainPlanner.Json

/-- The fields of a record that are present, by name. -/
abbrev Fields := List (String × Tree)

/-- Read the members of an object one by one, each wanted name at most once. -/
def namedFields? (names : List String) (found : Fields) :
    List (StringLit × Tree) → Option Fields
  | [] => some found
  | (k, t) :: ms => do
    let name ← k.text?
    if name ∈ names then
      if (found.lookup name).isSome then none
      else namedFields? names (found ++ [(name, t)]) ms
    else namedFields? names found ms

/-- The fields of a record with the given names. -/
def fields? (names : List String) : Tree → Option Fields
  | .object ms => namedFields? names [] ms
  | .array ts => if ts.length ≤ names.length then some (names.zip ts) else none
  | _ => none

/-- A field that has to be there. -/
def Fields.required {α : Type} (fs : Fields) (name : String) (read : Tree → Option α) :
    Option α :=
  (fs.lookup name).bind read

/-- A field that may be missing. -/
def Fields.optional {α : Type} (fs : Fields) (name : String) (default : α)
    (read : Tree → Option α) : Option α :=
  match fs.lookup name with
  | none => some default
  | some t => read t

/-- A value, or `null` for none. -/
def nullable? {α : Type} (read : Tree → Option α) : Tree → Option (Option α)
  | .null => some none
  | t => (read t).map some

/-- A list of values. -/
def list? {α : Type} (read : Tree → Option α) : Tree → Option (List α)
  | .array ts => ts.mapM read
  | _ => none

/-- One of a set of names: a string, or an object with that one member and nothing under it. -/
def name? : Tree → Option String
  | .string s => s.text?
  | .object [(k, .null)] => k.text?
  | _ => none

/-- A signed word of 64 bits. -/
def word64? (t : Tree) : Option Int64 := t.int?.bind int64?

/-- A signed word of 32 bits. -/
def word32? (t : Tree) : Option Int32 := t.int?.bind int32?

/-- A time or a duration. -/
def minutes? (t : Tree) : Option Minutes := (t.int?.bind uint32?).map .mk

/-- The number of a task. -/
def taskId? (t : Tree) : Option TaskId := (word64? t).map .mk

/-- The name of a worker. -/
def userId? (t : Tree) : Option UserId := t.text?.map .mk

/-- The name of a group. -/
def groupId? (t : Tree) : Option GroupId := t.text?.map .mk

/-- A priority. -/
def priority? (t : Tree) : Option Priority := do
  let n ← t.int?
  (Priority.ofInt? n).toOption

/-- Named data, of which `room` levels may be nested, this one included. -/
def payload? (room : Nat) (t : Tree) : Option (List (String × Value)) :=
  match Value.ofTree? room t with
  | some (.object ms) => some ms
  | _ => none

/-! ## writing -/

/-- The number of a task. -/
def ofTaskId (id : TaskId) : Value := .int id.val.toInt

/-- A time or a duration. -/
def ofMinutes (m : Minutes) : Value := .int m.toNat

/-- A value, or `null` for none. -/
def ofNullable {α : Type} (write : α → Value) : Option α → Value
  | none => .null
  | some a => write a

/-- A member of an object, left out where there is no value. -/
def ofPresent {α : Type} (name : String) (write : α → Value) : Option α → List (String × Value)
  | none => []
  | some a => [(name, write a)]

end ChainPlanner.Wire
