import ChainPlanner.Task
import ChainPlanner.Wire.Fields

/-!
# ChainPlanner.Wire.Task

The JSON forms of workers, tasks and what they are made of.  An owner is its text form.  An
anchor names its kind beside its id; what else may stand for the kind depends on how the anchor
is read.  Fields without a value are left out when written; when read they may be missing or
`null`.
-/

namespace ChainPlanner.Wire

open ChainPlanner.Json

/-! ## owners and anchors -/

/-- An owner, as its text form. -/
def ofOwner (o : OwnerRef) : Value := .string o.text

/-- Read an owner. -/
def owner? (t : Tree) : Option OwnerRef := t.text?.map OwnerRef.parse

/-- An anchor. -/
def ofAnchor : Anchor → Value
  | .user id => .object [("kind", .string "user"), ("id", .string id.name)]
  | .task id => .object [("kind", .string "task"), ("id", ofTaskId id)]

/-- The two kinds of anchors. -/
inductive AnchorKind where
  | user | task
  deriving DecidableEq

/-- The kind with a name. -/
def AnchorKind.ofName? : String → Option AnchorKind
  | "user" => some .user
  | "task" => some .task
  | _ => none

/-- The kind with a number. -/
def AnchorKind.ofNumber? : Int → Option AnchorKind
  | 0 => some .user
  | 1 => some .task
  | _ => none

/-- How the fields of a record are read: straight from the text, or from data that was held back
until the kind of the record was known. -/
inductive Reading where
  | straight | held
  deriving DecidableEq

/-- The kind in an anchor that names its fields: a name, or an object with that one member and
nothing under it.  In held data an empty object is nothing, too. -/
def namedKind? (reading : Reading) : Tree → Option AnchorKind
  | .string s => s.text?.bind AnchorKind.ofName?
  | .object [(k, .null)] => k.text?.bind AnchorKind.ofName?
  | .object [(k, .object [])] => if reading = .held then k.text?.bind AnchorKind.ofName? else none
  | _ => none

/-- The kind in an anchor that lists its fields: a name or, in held data, a number. -/
def listedKind? (reading : Reading) : Tree → Option AnchorKind
  | .string s => s.text?.bind AnchorKind.ofName?
  | .number n => if reading = .held then n.int?.bind AnchorKind.ofNumber? else none
  | _ => none

/-- Read an anchor. -/
def anchor? (reading : Reading) (t : Tree) : Option Anchor := do
  let fs ← fields? ["kind", "id"] t
  let kind? := if t.items?.isSome then listedKind? else namedKind?
  match ← fs.required "kind" (kind? reading) with
  | .user => (fs.required "id" userId?).map .user
  | .task => (fs.required "id" taskId?).map .task

/-! ## workers -/

/-- A worker. -/
def ofUser (u : User) : Value :=
  .object <|
    [("id", .string u.id.name), ("groups", .array (u.groups.toList.map fun g => .string g.name))] ++
      ofPresent "next" ofTaskId u.next

/-- Read a worker. -/
def user? (t : Tree) : Option User := do
  let fs ← fields? ["id", "groups", "next"] t
  return {
    id := ← fs.required "id" userId?
    groups := .ofList (← fs.optional "groups" [] (list? groupId?))
    next := ← fs.optional "next" none (nullable? taskId?) }

/-! ## tasks -/

/-- A task. -/
def ofTask (t : Task) : Value :=
  .object <|
    [("id", ofTaskId t.id), ("name", .string t.name), ("priority", .int t.priority.value),
      ("duration", ofMinutes t.duration), ("process_instance_id", .int t.processInstanceId.toInt),
      ("process_id", .string t.processId), ("container_id", .string t.containerId),
      ("potential_owners", .array (t.potentialOwners.map ofOwner)), ("pinned", .bool t.pinned),
      ("payload", .object t.payload)] ++
    ofPresent "previous" ofAnchor t.previous ++ ofPresent "next" ofTaskId t.next ++
    ofPresent "start_time" ofMinutes t.startTime ++ ofPresent "end_time" ofMinutes t.endTime

/-- The fields of a task in order. -/
def taskFields : List String :=
  ["id", "name", "priority", "duration", "process_instance_id", "process_id", "container_id",
    "potential_owners", "pinned", "payload", "previous", "next", "start_time", "end_time"]

/-- Read a task, of which `room` levels may be nested, this one included. -/
def task? (reading : Reading) (room : Nat) (t : Tree) : Option Task := do
  let fs ← fields? taskFields t
  return {
    id := ← fs.required "id" taskId?
    name := ← fs.required "name" Tree.text?
    priority := ← fs.required "priority" priority?
    duration := ← fs.required "duration" minutes?
    processInstanceId := ← fs.required "process_instance_id" word64?
    processId := ← fs.required "process_id" Tree.text?
    containerId := ← fs.required "container_id" Tree.text?
    potentialOwners := ← fs.optional "potential_owners" [] (list? owner?)
    pinned := ← fs.optional "pinned" false Tree.bool?
    payload := ← fs.optional "payload" [] (payload? (room - 1))
    previous := ← fs.optional "previous" none (nullable? (anchor? reading))
    next := ← fs.optional "next" none (nullable? taskId?)
    startTime := ← fs.optional "start_time" none (nullable? minutes?)
    endTime := ← fs.optional "end_time" none (nullable? minutes?) }

end ChainPlanner.Wire
