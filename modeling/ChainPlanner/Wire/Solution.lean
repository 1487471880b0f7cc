import ChainPlanner.Mutation
import ChainPlanner.Solution.Basic
import ChainPlanner.Wire.Task

/-!
# ChainPlanner.Wire.Solution

The JSON forms of solutions and of changes to them.  A solution holds its workers and its tasks
under their ids, in stored order; the id of a task is written as a string of digits, and only
that spelling is read.  A change names its kind beside its fields.
-/

namespace ChainPlanner.Wire

open ChainPlanner.Json

/-! ## solutions -/

/-- A solution, keyed by id. -/
def ofSolution (s : Solution) : Value :=
  .object
    [("users", .object (s.users.entries.map fun e => (e.1.name, ofUser e.2))),
      ("tasks", .object (s.tasks.entries.map fun e => (e.1.text, ofTask e.2)))]

/-- The characters of a string literal in which nothing is escaped by number. -/
def plainChars? (s : StringLit) : Option (List Char) :=
  s.mapM fun
    | .plain c => some c
    | .code _ => none

/-- The number in a key: the key is spelled just as the number would be, without quotes. -/
def taskKey? (k : StringLit) : Option TaskId := do
  let cs ← plainChars? k
  let tokens ← tokens? cs
  match tokens with
  | [.number n] => if cs.any Mode.isSpace then none else ((n.int?).bind int64?).map .mk
  | _ => none

/-- Read an object whose members stand under ids. -/
def keyed? {κ α : Type} [DecidableEq κ] (key : StringLit → Option κ) (read : Tree → Option α) :
    Tree → Option (KeyedList κ α)
  | .object ms => do
    let entries ← ms.mapM fun m => do
      let k ← key m.1
      let a ← read m.2
      return (k, a)
    return .ofList entries
  | _ => none

/-- Read a solution. -/
def solution? (t : Tree) : Option Solution := do
  let fs ← fields? ["users", "tasks"] t
  return {
    users := ← fs.required "users" (keyed? (fun k => k.text?.map .mk) user?)
    tasks := ← fs.required "tasks" (keyed? taskKey? (task? .straight (Value.maxDepth - 2))) }

/-! ## changes -/

/-- A change. -/
def ofMutation : Mutation → Value
  | .add task => .object [("op", .string "add_task"), ("task", ofTask task)]
  | .assign task user =>
    .object [("op", .string "assign_task"), ("task", ofTask task), ("user", .string user.name)]
  | .remove task => .object [("op", .string "remove_task"), ("task_id", ofTaskId task)]
  | .release task => .object [("op", .string "release_task"), ("task_id", ofTaskId task)]

/-- The kind of a change, and what is left for its fields. -/
def tagged? : Tree → Option (String × Tree)
  | .object ms => do
    let isTag (m : StringLit × Tree) : Bool := m.1.text? = some "op"
    match ms.filter isTag with
    | [(_, .string kind)] => return (← kind.text?, .object (ms.filter fun m => !isTag m))
    | _ => none
  | .array (.string kind :: ts) => do return (← kind.text?, .array ts)
  | _ => none

/-- Read a change.  Its kind may come last, so all of it has to be readable as data first, and its
fields are read from what was held back. -/
def mutation? (t : Tree) : Option Mutation := do
  let _ ← Value.ofTree? Value.maxDepth t
  let (kind, rest) ← tagged? t
  let heldTask? := task? .held Value.maxDepth
  match kind with
  | "add_task" => do
    let fs ← fields? ["task"] rest
    return .add (← fs.required "task" heldTask?)
  | "assign_task" => do
    let fs ← fields? ["task", "user"] rest
    return .assign (← fs.required "task" heldTask?) (← fs.required "user" userId?)
  | "remove_task" => do
    let fs ← fields? ["task_id"] rest
    return .remove (← fs.required "task_id" taskId?)
  | "release_task" => do
    let fs ← fields? ["task_id"] rest
    return .release (← fs.required "task_id" taskId?)
  | _ => none

/-- Read a value from a text. -/
def decode? {α : Type} (read : Tree → Option α) (text : String) : Option α :=
  (Tree.parse? text).bind read

/-- The wire form of a solution as a text. -/
def renderSolution (s : Solution) : String := (ofSolution s).render

/-- The solution in a text. -/
def parseSolution? (text : String) : Option Solution := decode? solution? text

end ChainPlanner.Wire
