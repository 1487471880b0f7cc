import ChainPlanner.Json.Real
import ChainPlanner.Json.Tree
import ChainPlanner.Range

/-!
# ChainPlanner.Json.Value

JSON data: a tree with its numbers and strings read.  `ofTree?` reads a tree and `toTree` spells
data again.  Reading fails on a string that is no text, on a number beyond the doubles and on
data nested too deep; a repeated name in an object keeps its first place and its last value.
Whole numbers of 64 bits are exact; any other number becomes a double.

The members of an object stay in the order in which their names first came.  A reader that keeps
names sorted has the same members under the same names and lists them in another order, so a text
written from data agrees with one written by such a reader up to the order of members in objects.
Nothing else depends on that order: data is asked for by name, in `get?` and in the look-ups of a
`Payload`, and no decision of the planner compares data.
-/

namespace ChainPlanner.Json

/-- JSON data. -/
inductive Value where
  | null
  | bool (b : Bool)
  /-- A whole number. -/
  | int (n : Int)
  /-- Any other number. -/
  | real (d : Double)
  | string (s : String)
  | array (items : List Value)
  | object (members : List (String × Value))
  deriving Inhabited

namespace Value

/-! ## equality -/

mutual

/-- Whether two data are equal, item by item. -/
def decEq : (a b : Value) → Decidable (a = b)
  | null, null => isTrue rfl
  | bool a, bool b => decidable_of_iff (a = b) (by simp)
  | int a, int b => decidable_of_iff (a = b) (by simp)
  | real a, real b => decidable_of_iff (a = b) (by simp)
  | string a, string b => decidable_of_iff (a = b) (by simp)
  | array as, array bs =>
    have := decEqItems as bs
    decidable_of_iff (as = bs) (by simp)
  | object as, object bs =>
    have := decEqMembers as bs
    decidable_of_iff (as = bs) (by simp)
  | null, bool _ | null, int _ | null, real _ | null, string _ | null, array _ | null, object _
  | bool _, null | bool _, int _ | bool _, real _ | bool _, string _ | bool _, array _
  | bool _, object _
  | int _, null | int _, bool _ | int _, real _ | int _, string _ | int _, array _
  | int _, object _
  | real _, null | real _, bool _ | real _, int _ | real _, string _ | real _, array _
  | real _, object _
  | string _, null | string _, bool _ | string _, int _ | string _, real _ | string _, array _
  | string _, object _
  | array _, null | array _, bool _ | array _, int _ | array _, real _ | array _, string _
  | array _, object _
  | object _, null | object _, bool _ | object _, int _ | object _, real _ | object _, string _
  | object _, array _ => isFalse (by simp)

/-- Whether two lists of items are equal. -/
def decEqItems : (as bs : List Value) → Decidable (as = bs)
  | [], [] => isTrue rfl
  | [], _ :: _ => isFalse (by simp)
  | _ :: _, [] => isFalse (by simp)
  | a :: as, b :: bs =>
    have := decEq a b
    have := decEqItems as bs
    decidable_of_iff (a = b ∧ as = bs) (by simp)

/-- Whether two lists of members are equal. -/
def decEqMembers : (as bs : List (String × Value)) → Decidable (as = bs)
  | [], [] => isTrue rfl
  | [], _ :: _ => isFalse (by simp)
  | _ :: _, [] => isFalse (by simp)
  | (k, a) :: as, (l, b) :: bs =>
    have := decEq a b
    have := decEqMembers as bs
    decidable_of_iff (k = l ∧ a = b ∧ as = bs) (by simp [and_assoc])

end

instance : DecidableEq Value := decEq

/-! ## members of an object -/

/-- Put a member into an object: in its place if the name is there, else at the end. -/
def setMember (name : String) (v : Value) : List (String × Value) → List (String × Value)
  | [] => [(name, v)]
  | (k, w) :: ms => if k = name then (k, v) :: ms else (k, w) :: setMember name v ms

/-- Put members into an object, one after another. -/
def setMembers (ms : List (String × Value)) (more : List (String × Value)) :
    List (String × Value) :=
  more.foldl (fun ms m => setMember m.1 m.2 ms) ms

/-- The member of an object under a name. -/
def get? (name : String) : Value → Option Value
  | object ms => ms.lookup name
  | _ => none

/-! ## reading and spelling -/

/-- Whole numbers of 64 bits, signed or not. -/
def isWord (n : Int) : Bool := (int64? n).isSome || (uint64? n).isSome

/-- The number at a literal: whole if it has 64 bits, else the double if that is finite. -/
def ofNumber? (l : NumberLit) : Option Value :=
  match l.int? with
  | some n => if isWord n then some (int n) else l.double?.map real
  | none => l.double?.map real

mutual

/-- The data at a tree, of which `room` more levels may be nested. -/
def ofTree? (room : Nat) : Tree → Option Value
  | .null => some null
  | .bool b => some (bool b)
  | .number n => ofNumber? n
  | .string s => s.text?.map string
  | .array ts => if room = 0 then none else (ofItems? (room - 1) ts).map array
  | .object ms =>
    if room = 0 then none else (ofMembers? (room - 1) ms).map fun ms => object (setMembers [] ms)

/-- The data of an array's items. -/
def ofItems? (room : Nat) : List Tree → Option (List Value)
  | [] => some []
  | t :: ts => do
    let v ← ofTree? room t
    let vs ← ofItems? room ts
    some (v :: vs)

/-- The data of an object's members, repeated names included. -/
def ofMembers? (room : Nat) : List (StringLit × Tree) → Option (List (String × Value))
  | [] => some []
  | (k, t) :: ms => do
    let name ← k.text?
    let v ← ofTree? room t
    let rest ← ofMembers? room ms
    some ((name, v) :: rest)

end

/-- How many levels a text may nest. -/
def maxDepth : Nat := 127

/-- The data of a text. -/
def parse? (text : String) : Option Value := (Tree.parse? text).bind (ofTree? maxDepth)

mutual

/-- The spelling of data. -/
def toTree : Value → Tree
  | null => .null
  | bool b => .bool b
  | int n => .number (.ofInt n)
  | real d => .number (.ofDouble d)
  | string s => .string (.ofString s)
  | array vs => .array (itemTrees vs)
  | object ms => .object (memberTrees ms)

/-- The spelling of an array's items. -/
def itemTrees : List Value → List Tree
  | [] => []
  | v :: vs => toTree v :: itemTrees vs

/-- The spelling of an object's members. -/
def memberTrees : List (String × Value) → List (StringLit × Tree)
  | [] => []
  | (k, v) :: ms => (.ofString k, toTree v) :: memberTrees ms

end

/-- Data as a text without blanks. -/
def render (v : Value) : String := v.toTree.render

end Value

end ChainPlanner.Json
