/-!
# ChainPlanner.Toml.Reader

Readers of text: functions that take a piece off the front of a list of characters or fail.
`many` repeats a reader for as long as it makes progress, so it ends on any text.
-/

namespace ChainPlanner.Toml

/-- Takes a piece off the front of a text, or fails. -/
abbrev Reader (α : Type) : Type := StateT (List Char) Option α

namespace Reader

variable {α β : Type}

/-- One character of a class. -/
def satisfy (p : Char → Bool) : Reader Char
  | c :: cs => if p c then some (c, cs) else none
  | [] => none

/-- A given character. -/
def char (c : Char) : Reader Unit := do
  let _ ← satisfy (· = c)

/-- A given word. -/
def word : List Char → Reader Unit
  | [] => pure ()
  | c :: cs => do
    char c
    word cs

/-- The longest run of characters of a class. -/
def run (p : Char → Bool) : Reader (List Char) := fun cs => some (cs.takeWhile p, cs.dropWhile p)

/-- A piece, or nothing. -/
def maybe (r : Reader α) : Reader (Option α) := fun cs =>
  match r cs with
  | some (a, rest) => some (some a, rest)
  | none => some (none, cs)

/-- As many pieces as there are. -/
def many (r : Reader α) (cs : List Char) : Option (List α × List Char) :=
  match r cs with
  | none => some ([], cs)
  | some (a, rest) =>
    if rest.length < cs.length then (many r rest).map fun more => (a :: more.1, more.2)
    else some ([a], rest)
termination_by cs.length

/-- A given number of pieces. -/
def times (n : Nat) (r : Reader α) : Reader (List α) :=
  match n with
  | 0 => pure []
  | n + 1 => do
    let a ← r
    let more ← times n r
    pure (a :: more)

/-- One or more pieces with a separator between them. -/
def separated (separator : Reader β) (r : Reader α) : Reader (List α) := do
  let a ← r
  let more ← many (separator *> r)
  pure (a :: more)

/-- The end of the text. -/
def finished : Reader Unit
  | [] => some ((), [])
  | _ => none

/-- The piece that makes up a whole text. -/
def whole? (r : Reader α) (cs : List Char) : Option α :=
  match r cs with
  | some (a, []) => some a
  | _ => none

end Reader

end ChainPlanner.Toml
