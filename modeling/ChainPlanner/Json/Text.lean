/-!
# ChainPlanner.Json.Text

String literals as JSON spells them.  An escape `\uXXXX` names a UTF-16 unit, and half of a
surrogate pair is no character, so a well-formed literal may still stand for no text: `text?`
reads it, and `ofString` spells any text (`text?_ofString`).
-/

namespace ChainPlanner.Json

/-- One position of a string literal. -/
inductive StringUnit where
  /-- A character, written as itself or by a two-character escape. -/
  | plain (c : Char)
  /-- An escape by the four hexadecimal digits of a UTF-16 unit. -/
  | code (unit : Nat)
  deriving DecidableEq

/-- What stands between the quotes. -/
abbrev StringLit := List StringUnit

namespace StringLit

/-- First halves of surrogate pairs. -/
def isHigh (unit : Nat) : Bool := 0xD800 ≤ unit && unit < 0xDC00

/-- Second halves of surrogate pairs. -/
def isLow (unit : Nat) : Bool := 0xDC00 ≤ unit && unit < 0xE000

/-- The characters that a literal stands for; none if half of a pair stands alone. -/
def chars? : StringLit → Option (List Char)
  | [] => some []
  | .plain c :: us => (chars? us).map (c :: ·)
  | .code h :: .code l :: us =>
    if isHigh h then
      if isLow l then
        (chars? us).map (Char.ofNat (0x10000 + (h - 0xD800) * 0x400 + (l - 0xDC00)) :: ·)
      else none
    else if isLow h then none
    else (chars? (.code l :: us)).map (Char.ofNat h :: ·)
  | .code h :: us =>
    if isHigh h || isLow h then none else (chars? us).map (Char.ofNat h :: ·)

/-- The text that a literal stands for. -/
def text? (s : StringLit) : Option String := (chars? s).map String.ofList

/-- Each character as itself. -/
def ofString (s : String) : StringLit := s.toList.map .plain

/-- Plain characters stand for themselves. -/
theorem chars?_map_plain (cs : List Char) : chars? (cs.map .plain) = some cs := by
  induction cs with
  | nil => rfl
  | cons c cs ih => simp [chars?, ih]

/-- A text is read back from its literal. -/
theorem text?_ofString (s : String) : (ofString s).text? = some s := by
  simp [text?, ofString, chars?_map_plain]

/-- A hexadecimal digit, in lower case. -/
def hexDigit (n : Nat) : Char := Nat.digitChar (n % 16)

/-- The escape of a UTF-16 unit. -/
def renderCode (n : Nat) : List Char :=
  ['\\', 'u', hexDigit (n / 4096), hexDigit (n / 256), hexDigit (n / 16), hexDigit n]

/-- A character inside quotes: a quote, a backslash and every control character are escaped, the
five common ones by a letter. -/
def renderChar (c : Char) : List Char :=
  if c = '"' then ['\\', '"']
  else if c = '\\' then ['\\', '\\']
  else if c.toNat = 0x08 then ['\\', 'b']
  else if c.toNat = 0x09 then ['\\', 't']
  else if c.toNat = 0x0A then ['\\', 'n']
  else if c.toNat = 0x0C then ['\\', 'f']
  else if c.toNat = 0x0D then ['\\', 'r']
  else if c.toNat < 0x20 then renderCode c.toNat
  else [c]

/-- One position of a literal. -/
def renderUnit : StringUnit → List Char
  | .plain c => renderChar c
  | .code n => renderCode n

/-- The characters of a literal, quotes included. -/
def render (s : StringLit) : List Char := '"' :: (s.flatMap renderUnit ++ ['"'])

end StringLit

end ChainPlanner.Json
