import ChainPlanner.Json.Number
import ChainPlanner.Json.Token
import ChainPlanner.Range
import ChainPlanner.Toml.Reader

/-!
# ChainPlanner.Toml.Scalar

The undivided values of TOML 1.0 and their spellings: strings of four kinds, whole numbers in
four bases, floating-point numbers, truth values, dates and times.
-/

namespace ChainPlanner.Toml

open ChainPlanner.Json ChainPlanner.Text Reader

/-- An undivided value.  Of numbers with a fraction and of times only their kind is kept. -/
inductive Scalar where
  | string (s : String)
  | integer (n : Int)
  | boolean (b : Bool)
  | float
  | datetime
  deriving DecidableEq

/-! ## blanks -/

/-- Space and tab. -/
def isSpace (c : Char) : Bool := c = ' ' || c = '\t'

/-- What may stand in comments and single-line strings: no control but the tab. -/
def isPrintable (c : Char) : Bool := c = '\t' || (0x20 ≤ c.toNat && c.toNat ≠ 0x7F)

/-- Spaces and tabs. -/
def spaces : Reader Unit := do
  let _ ← run isSpace

/-- The end of a line. -/
def newline : Reader Unit := char '\n' <|> word ['\r', '\n']

/-- A comment, up to the end of its line. -/
def comment : Reader Unit := do
  char '#'
  let _ ← run isPrintable

/-- What may follow the last word of a line. -/
def lineEnd : Reader Unit := do
  spaces
  let _ ← maybe comment
  newline <|> finished

/-- Blanks between the items of an array. -/
def gaps : Reader Unit := do
  let _ ← many ((do let _ ← satisfy isSpace) <|> newline <|> (comment *> newline))

/-! ## strings -/

/-- The character of a given number. -/
def charOf? (n : Nat) : Option Char :=
  if n.isValidChar then some (Char.ofNat n) else none

/-- A number of hexadecimal digits. -/
def hexNumber (count : Nat) : Reader Nat := do
  let ds ← times count (do
    let c ← satisfy fun c => (Mode.hexValue? c).isSome
    pure ((Mode.hexValue? c).getD 0))
  pure (ds.foldl (fun n d => 16 * n + d) 0)

/-- What follows a backslash. -/
def escaped : Reader Char := do
  match ← satisfy fun _ => true with
  | 'b' => pure '\x08'
  | 't' => pure '\t'
  | 'n' => pure '\n'
  | 'f' => pure '\x0c'
  | 'r' => pure '\r'
  | '"' => pure '"'
  | '\\' => pure '\\'
  | 'u' => do
    let n ← hexNumber 4
    StateT.lift (charOf? n)
  | 'U' => do
    let n ← hexNumber 8
    StateT.lift (charOf? n)
  | _ => failure

/-- A character of a basic string that stands for itself. -/
def isBasic (c : Char) : Bool := isPrintable c && c ≠ '"' && c ≠ '\\'

/-- A character of a literal string. -/
def isLiteral (c : Char) : Bool := isPrintable c && c ≠ '\x27'

/-- A string in double quotes. -/
def basicString : Reader (List Char) := do
  char '"'
  let cs ← many (satisfy isBasic <|> (char '\\' *> escaped))
  char '"'
  pure cs

/-- A string in single quotes. -/
def literalString : Reader (List Char) := do
  char '\x27'
  let cs ← run isLiteral
  char '\x27'
  pure cs

/-- One or two quotes inside a string of several lines. -/
def fewQuotes (quote : Char) : Reader (List Char) := do
  let qs ← run (· = quote)
  if 1 ≤ qs.length && qs.length ≤ 2 then pure qs else failure

/-- The three quotes that end a string of several lines, behind up to two that belong to it. -/
def closingQuotes (quote : Char) : Reader (List Char) := do
  let qs ← run (· = quote)
  if 3 ≤ qs.length && qs.length ≤ 5 then pure (qs.drop 3) else failure

/-- A string of several lines, made of given pieces; a line end at its very start is dropped. -/
def longString (quote : Char) (piece : Reader (List Char)) : Reader (List Char) := do
  word [quote, quote, quote]
  let _ ← maybe newline
  let pieces ← many (piece <|> (newline *> pure ['\n']) <|> fewQuotes quote)
  let last ← closingQuotes quote
  pure (pieces.flatten ++ last)

/-- A backslash at the end of a line: it and all blanks behind it are dropped. -/
def lineContinuation : Reader (List Char) := do
  char '\\'
  spaces
  newline
  let _ ← many ((do let _ ← satisfy isSpace) <|> newline)
  pure []

/-- A string in three double quotes. -/
def longBasicString : Reader (List Char) :=
  longString '"' <|
    (do pure [← satisfy isBasic]) <|> lineContinuation <|> (do char '\\'; pure [← escaped])

/-- A string in three single quotes. -/
def longLiteralString : Reader (List Char) := longString '\x27' (do pure [← satisfy isLiteral])

/-- A string of any kind. -/
def anyString : Reader String := do
  let cs ← longBasicString <|> basicString <|> longLiteralString <|> literalString
  pure (String.ofList cs)

/-! ## numbers -/

/-- One or more digits, with single underscores allowed between them. -/
def digitRun (isDigit : Char → Bool) : Reader (List Char) := do
  let d ← satisfy isDigit
  let ds ← many (satisfy isDigit <|> (char '_' *> satisfy isDigit))
  pure (d :: ds)

/-- A sign; the answer is whether it is a minus. -/
def sign : Reader Bool := (char '-' *> pure true) <|> (char '+' *> pure false) <|> pure false

/-- Decimal digits without a needless zero in front. -/
def decimalDigits : Reader (List Char) :=
  (char '0' *> pure ['0']) <|> digitRun Char.isDigit

/-- A whole number that fits into 64 bits. -/
def fitting (n : Int) : Reader Scalar :=
  if (int64? n).isSome then pure (.integer n) else failure

/-- A number in a base that is named in front of its digits. -/
def basedInteger (mark : Char) (base : Nat) : Reader Scalar := do
  char '0'
  char mark
  let ds ← digitRun fun c => match Mode.hexValue? c with
    | some d => d < base
    | none => false
  fitting (ds.foldl (fun n c => base * n + (Mode.hexValue? c).getD 0) 0 : Nat)

/-- A decimal number. -/
def decimalInteger : Reader Scalar := do
  let negative ← sign
  let ds ← decimalDigits
  let n ← StateT.lift (Decimal.read? ds)
  fitting (if negative then -n else n)

/-- A whole number. -/
def integer : Reader Scalar :=
  basedInteger 'x' 16 <|> basedInteger 'o' 8 <|> basedInteger 'b' 2 <|> decimalInteger

/-- The digits behind a point. -/
def fractionDigits : Reader (List Char) := char '.' *> digitRun Char.isDigit

/-- The number behind the mark of an exponent. -/
def exponentPart : Reader Int := do
  let _ ← satisfy fun c => c = 'e' || c = 'E'
  let negative ← sign
  let n ← StateT.lift (Decimal.read? (← digitRun Char.isDigit))
  pure (if negative then -n else n)

/-- A number with a fraction or an exponent; one that is too large must be negative. -/
def decimalFloat : Reader Scalar := do
  let negative ← sign
  let n ← StateT.lift (Decimal.read? (← decimalDigits))
  let fraction ← maybe fractionDigits
  let exponent ← maybe exponentPart
  if fraction.isNone && exponent.isNone then failure
  if negative || NumberLit.isFinite ⟨negative, n, fraction.getD [], exponent⟩ then pure .float
  else failure

/-- Infinity or no number, with or without a sign. -/
def specialFloat : Reader Scalar := do
  let _ ← sign
  word ['i', 'n', 'f'] <|> word ['n', 'a', 'n']
  pure .float

/-! ## dates and times -/

/-- A number of a fixed count of digits. -/
def fixedNumber (count : Nat) : Reader Nat := do
  let ds ← times count (satisfy Char.isDigit)
  StateT.lift (Decimal.read? ds)

/-- A number of two digits within bounds. -/
def bounded (low high : Nat) : Reader Nat := do
  let n ← fixedNumber 2
  if low ≤ n && n ≤ high then pure n else failure

/-- Whether a year has a 29 February. -/
def isLeapYear (year : Nat) : Bool := year % 4 = 0 && (year % 100 ≠ 0 || year % 400 = 0)

/-- The number of days of a month. -/
def daysOf (year month : Nat) : Nat :=
  if month = 2 then if isLeapYear year then 29 else 28
  else if month = 4 || month = 6 || month = 9 || month = 11 then 30
  else 31

/-- A date. -/
def date : Reader Unit := do
  let year ← fixedNumber 4
  char '-'
  let month ← bounded 1 12
  char '-'
  let _ ← bounded 1 (daysOf year month)

/-- A time of day; a minute may have a sixty-first second. -/
def timeOfDay : Reader Unit := do
  let _ ← bounded 0 23
  char ':'
  let _ ← bounded 0 59
  char ':'
  let _ ← bounded 0 60
  let _ ← maybe (do
    char '.'
    let _ ← satisfy Char.isDigit
    let _ ← run Char.isDigit)

/-- How far a time is from that of Greenwich. -/
def timeOffset : Reader Unit :=
  (do let _ ← satisfy fun c => c = 'Z' || c = 'z') <|> (do
    let _ ← satisfy fun c => c = '+' || c = '-'
    let _ ← bounded 0 23
    char ':'
    let _ ← bounded 0 59)

/-- A date, a time of day, or both. -/
def datetime : Reader Scalar := do
  (do
    date
    let _ ← maybe (do
      let _ ← satisfy fun c => c = 'T' || c = 't' || c = ' '
      timeOfDay
      maybe timeOffset)) <|> timeOfDay
  pure .datetime

/-- A truth value. -/
def boolean : Reader Scalar :=
  (word ['t', 'r', 'u', 'e'] *> pure (.boolean true)) <|>
    (word ['f', 'a', 'l', 's', 'e'] *> pure (.boolean false))

/-- An undivided value. -/
def scalar : Reader Scalar :=
  (do pure (.string (← anyString))) <|> boolean <|> datetime <|> decimalFloat <|> specialFloat <|>
    integer

end ChainPlanner.Toml
