import ChainPlanner.Json.Token

/-!
# ChainPlanner.Json.Tree

A JSON text as a tree whose numbers and strings are still spelled as they were written.  Some
readers need the spelling: a key that holds a number is one only if it is written in digits, and
a string that nobody reads may hold half of a surrogate pair.

The tree is built by a machine that takes one word at a time (`State.step`) and keeps the arrays
and objects that are still open on a stack.
-/

namespace ChainPlanner.Json

/-- A JSON text. -/
inductive Tree where
  | null
  | bool (b : Bool)
  | number (n : NumberLit)
  | string (s : StringLit)
  | array (items : List Tree)
  | object (members : List (StringLit × Tree))
  deriving Inhabited

/-- An array or object that is still open, with its members so far, latest first. -/
inductive Frame where
  | array (done : List Tree)
  | object (done : List (StringLit × Tree)) (key : StringLit)

/-- What may come next. -/
inductive State where
  /-- A value. -/
  | value (stack : List Frame)
  /-- The first item of an array, or its end. -/
  | firstItem (stack : List Frame)
  /-- The first key of an object, or its end. -/
  | firstKey (stack : List Frame)
  /-- A key, after a comma. -/
  | key (done : List (StringLit × Tree)) (stack : List Frame)
  /-- The colon after a key. -/
  | colon (done : List (StringLit × Tree)) (key : StringLit) (stack : List Frame)
  /-- A comma or the end of an array. -/
  | afterItem (done : List Tree) (stack : List Frame)
  /-- A comma or the end of an object. -/
  | afterMember (done : List (StringLit × Tree)) (stack : List Frame)
  /-- Nothing. -/
  | done (tree : Tree)

namespace State

/-- A value is complete: it goes to the innermost open array or object. -/
def complete (t : Tree) : List Frame → State
  | [] => done t
  | .array ts :: stack => afterItem (t :: ts) stack
  | .object ms name :: stack => afterMember ((name, t) :: ms) stack

/-- A word where a value is due. -/
def beginValue (stack : List Frame) : Token → Option State
  | .null => some (complete .null stack)
  | .bool b => some (complete (.bool b) stack)
  | .number n => some (complete (.number n) stack)
  | .string s => some (complete (.string s) stack)
  | .openArray => some (firstItem stack)
  | .openObject => some (firstKey stack)
  | _ => none

/-- The effect of a word. -/
def step (state : State) (token : Token) : Option State :=
  match state with
  | value stack => beginValue stack token
  | firstItem stack => match token with
    | .closeArray => some (complete (.array []) stack)
    | token => beginValue (.array [] :: stack) token
  | firstKey stack => match token with
    | .closeObject => some (complete (.object []) stack)
    | .string k => some (colon [] k stack)
    | _ => none
  | key ms stack => match token with
    | .string k => some (colon ms k stack)
    | _ => none
  | colon ms k stack => match token with
    | .colon => some (value (.object ms k :: stack))
    | _ => none
  | afterItem ts stack => match token with
    | .comma => some (value (.array ts :: stack))
    | .closeArray => some (complete (.array ts.reverse) stack)
    | _ => none
  | afterMember ms stack => match token with
    | .comma => some (key ms stack)
    | .closeObject => some (complete (.object ms.reverse) stack)
    | _ => none
  | done _ => none

/-- The tree, once it is complete. -/
def tree? : State → Option Tree
  | done t => some t
  | _ => none

end State

namespace Tree

/-- The tree of a sequence of words. -/
def ofTokens? (ts : List Token) : Option Tree :=
  (ts.foldlM State.step (.value [])).bind State.tree?

/-- The tree of a text. -/
def parse? (text : String) : Option Tree := (tokens? text.toList).bind ofTokens?

mutual

/-- The words of a tree. -/
def tokens : Tree → List Token
  | null => [.null]
  | bool b => [.bool b]
  | number n => [.number n]
  | string s => [.string s]
  | array [] => [.openArray, .closeArray]
  | array (t :: ts) => .openArray :: (tokens t ++ moreItems ts)
  | object [] => [.openObject, .closeObject]
  | object ((k, t) :: ms) => .openObject :: .string k :: .colon :: (tokens t ++ moreMembers ms)

/-- The words of an array after its first item. -/
def moreItems : List Tree → List Token
  | [] => [.closeArray]
  | t :: ts => .comma :: (tokens t ++ moreItems ts)

/-- The words of an object after its first member. -/
def moreMembers : List (StringLit × Tree) → List Token
  | [] => [.closeObject]
  | (k, t) :: ms => .comma :: .string k :: .colon :: (tokens t ++ moreMembers ms)

end

/-- The tree as a text without blanks. -/
def render (t : Tree) : String := String.ofList (t.tokens.flatMap Token.render)

/-- The whole number at a tree. -/
def int? : Tree → Option Int
  | number n => n.int?
  | _ => none

/-- The text at a tree. -/
def text? : Tree → Option String
  | string s => s.text?
  | _ => none

/-- The truth value at a tree. -/
def bool? : Tree → Option Bool
  | bool b => some b
  | _ => none

/-- The items of an array. -/
def items? : Tree → Option (List Tree)
  | array ts => some ts
  | _ => none

/-- The members of an object. -/
def members? : Tree → Option (List (StringLit × Tree))
  | object ms => some ms
  | _ => none

end Tree

end ChainPlanner.Json
