import ChainPlanner.Toml.Scalar

/-!
# ChainPlanner.Toml.Document

Documents of TOML 1.0.  A document is a list of statements — headers, headers of table arrays,
and assignments — that build one table.  A key is set once, a table has one header, and dotted
keys open only tables that dotted keys have made.  Tables that were only passed through on the
way to another are `implicit` until their own header comes.

A value may be nested in fewer than `maxNesting` arrays and inline tables, and a key may have
fewer than `maxNesting` parts.
-/

namespace ChainPlanner.Toml

open Reader

mutual

/-- What stands under a key. -/
inductive Node where
  | scalar (s : Scalar)
  | array (items : List Node)
  /-- A table written as a value, closed to later statements. -/
  | sealed (t : Table)
  | table (t : Table)
  /-- An array of tables, each opened by a header. -/
  | tables (ts : List Table)

/-- Nodes under keys. -/
inductive Table where
  | mk (implicit dotted : Bool) (members : List (String × Node))

end

namespace Table

/-- The keys and what stands under them. -/
def members : Table → List (String × Node)
  | mk _ _ ms => ms

/-- Whether no header and no dotted key has named the table itself. -/
def isImplicit : Table → Bool
  | mk i _ _ => i

/-- Whether the table was made by a dotted key. -/
def isDotted : Table → Bool
  | mk _ d _ => d

/-- A table opened by a header. -/
def fresh : Table := mk false false []

/-- What stands under a key. -/
def get? (t : Table) (key : String) : Option Node := t.members.lookup key

/-- Put a node under a key, in its place or at the end. -/
def set (t : Table) (key : String) (n : Node) : Table :=
  match t with
  | mk i d ms =>
    if (ms.lookup key).isSome then mk i d (ms.map fun m => if m.1 = key then (key, n) else m)
    else mk i d (ms ++ [(key, n)])

/-- Change the table at the end of a path, making the tables on the way that are missing. -/
def alter (dotted : Bool) (f : Table → Option Table) : List String → Table → Option Table
  | [], t => f t
  | key :: path, t => match t.get? key with
    | none => do return t.set key (.table (← alter dotted f path (mk true dotted [])))
    | some (.table child) =>
      if dotted && !child.isImplicit then none
      else do return t.set key (.table (← alter dotted f path child))
    | some (.tables ts) => match ts.getLast? with
      | none => none
      | some last => do
        return t.set key (.tables (ts.dropLast ++ [← alter dotted f path last]))
    | some _ => none

/-- Set the last part of a dotted key. -/
def assign (path : List String) (key : String) (n : Node) (t : Table) : Option Table :=
  alter true (fun t =>
    if t.isDotted = path.isEmpty then none
    else if (t.get? key).isSome then none
    else some (t.set key n)) path t

/-- Open a table by its header. -/
def openTable (path : List String) (key : String) (root : Table) : Option Table :=
  alter false (fun t =>
    match t.get? key with
    | none => some (t.set key (.table fresh))
    | some (.table child) =>
      if child.isImplicit && !child.isDotted then
        some (t.set key (.table (mk false false child.members)))
      else none
    | some _ => none) path root

/-- Open one more table of an array by its header. -/
def openItem (path : List String) (key : String) (root : Table) : Option Table :=
  alter false (fun t =>
    match t.get? key with
    | none => some (t.set key (.tables [fresh]))
    | some (.tables ts) => some (t.set key (.tables (ts ++ [fresh])))
    | some _ => none) path root

end Table

/-! ## keys -/

/-- The bound on nesting and on the parts of a key. -/
def maxNesting : Nat := 80

/-- The characters of a key without quotes. -/
def isBare (c : Char) : Bool := c.isAlphanum || c = '-' || c = '_'

/-- One part of a key. -/
def simpleKey : Reader String := do
  let cs ← basicString <|> literalString <|> (do
    let c ← satisfy isBare
    let cs ← run isBare
    pure (c :: cs))
  pure (String.ofList cs)

/-- A key: the parts before the last, and the last. -/
def key : Reader (List String × String) := do
  let parts ← separated (char '.') (spaces *> simpleKey <* spaces)
  match parts.getLast? with
  | none => failure
  | some last => if parts.length < maxNesting then pure (parts.dropLast, last) else failure

/-! ## values -/

/-- Items with commas between them and perhaps one after the last. -/
def arrayOf (item : Reader Node) : Reader Node := do
  char '['
  gaps
  let items ← maybe (separated (gaps *> char ',' *> gaps) item)
  gaps
  if items.isSome then
    let _ ← maybe (char ',')
    gaps
  char ']'
  pure (.array (items.getD []))

/-- Assignments on one line with commas between them. -/
def inlineTableOf (item : Reader Node) : Reader Node := do
  char '\x7b'
  let pairs ← maybe <| separated (char ',') (do
    let (path, last) ← key
    char '='
    spaces
    let n ← item
    spaces
    pure (path, last, n))
  spaces
  char '\x7d'
  let t ← StateT.lift <|
    (pairs.getD []).foldlM (fun t (p : List String × String × Node) => t.assign p.1 p.2.1 p.2.2)
      .fresh
  pure (.sealed t)

/-- A value, inside which arrays and inline tables may be nested fewer than `room` deep. -/
def value (room : Nat) : Reader Node :=
  match room with
  | 0 => failure
  | 1 => do pure (.scalar (← scalar))
  | room + 1 =>
    arrayOf (value room) <|> inlineTableOf (value room) <|> (do pure (.scalar (← scalar)))

/-! ## statements -/

/-- One statement of a document. -/
inductive Statement where
  | header (path : List String) (last : String)
  | itemHeader (path : List String) (last : String)
  | assignment (path : List String) (last : String) (n : Node)

/-- A header of a table. -/
def header : Reader Statement := do
  char '['
  let (path, last) ← key
  char ']'
  lineEnd
  pure (.header path last)

/-- A header of one table of an array. -/
def itemHeader : Reader Statement := do
  word ['[', '[']
  let (path, last) ← key
  word [']', ']']
  lineEnd
  pure (.itemHeader path last)

/-- A key and its value. -/
def assignment : Reader Statement := do
  let (path, last) ← key
  char '='
  spaces
  let n ← value maxNesting
  lineEnd
  pure (.assignment path last n)

/-- A line without a statement. -/
def blankLine : Reader Unit := newline <|> (comment *> (newline <|> finished))

/-- A line: a statement, or none. -/
def line : Reader (Option Statement) := do
  spaces
  (do blankLine; pure none) <|> (do pure (some (← itemHeader <|> header <|> assignment)))

/-- The statements of a text. -/
def statements? (cs : List Char) : Option (List Statement) :=
  whole? (do
    let _ ← maybe (char '\uFEFF')
    let lines ← many line
    spaces
    pure (lines.filterMap id)) cs

/-- A document that is being built: its table, and the path that assignments start from. -/
structure Draft where
  root : Table
  position : List String

/-- The effect of a statement. -/
def Draft.add (d : Draft) : Statement → Option Draft
  | .header path last => do
    return { root := ← d.root.openTable path last, position := path ++ [last] }
  | .itemHeader path last => do
    return { root := ← d.root.openItem path last, position := path ++ [last] }
  | .assignment path last n => do
    return { d with root := ← d.root.alter false (·.assign path last n) d.position }

/-- The table that a text describes. -/
def parse? (text : String) : Option Table := do
  let ss ← statements? text.toList
  let d ← ss.foldlM Draft.add ⟨.fresh, []⟩
  return d.root

end ChainPlanner.Toml
