import ChainPlanner.Json.Number
import ChainPlanner.Json.Text

/-!
# ChainPlanner.Json.Token

The words of a JSON text and the automaton that finds them.  The automaton takes one character at
a time: `Mode` is what it has seen of the word it is in, `Mode.feed` the effect of the next
character, `Mode.finish` that of the end of the text.  A number ends where a character cannot
continue it, and that character begins the next word.
-/

namespace ChainPlanner.Json

open ChainPlanner.Text

/-- A word of a JSON text. -/
inductive Token where
  | openArray | closeArray | openObject | closeObject | comma | colon
  | null | bool (b : Bool) | number (n : NumberLit) | string (s : StringLit)
  deriving DecidableEq

namespace Token

/-- How a word is written. -/
def render : Token → List Char
  | openArray => ['[']
  | closeArray => [']']
  | openObject => ['\x7b']
  | closeObject => ['\x7d']
  | comma => [',']
  | colon => [':']
  | null => ['n', 'u', 'l', 'l']
  | bool true => ['t', 'r', 'u', 'e']
  | bool false => ['f', 'a', 'l', 's', 'e']
  | number n => n.render
  | string s => s.render

end Token

/-- What has been seen of the current word.  Lists of digits and of string positions hold the
latest first. -/
inductive Mode where
  /-- Between words. -/
  | idle
  /-- In a literal word: what is still to come. -/
  | word (token : Token) (rest : List Char)
  | string (units : StringLit)
  /-- After a backslash. -/
  | escape (units : StringLit)
  /-- After `\u` and fewer than four digits. -/
  | hex (units : StringLit) (count : Nat) (value : Nat)
  /-- After a minus. -/
  | minus
  /-- After a leading zero. -/
  | zero (negative : Bool)
  | whole (negative : Bool) (n : Nat)
  /-- After the point, before its first digit. -/
  | point (negative : Bool) (n : Nat)
  | fraction (negative : Bool) (n : Nat) (digits : List Char)
  /-- After the letter of an exponent. -/
  | exponentMark (negative : Bool) (n : Nat) (digits : List Char)
  /-- After the sign of an exponent. -/
  | exponentSign (negative : Bool) (n : Nat) (digits : List Char) (below : Bool)
  | exponent (negative : Bool) (n : Nat) (digits : List Char) (below : Bool) (e : Nat)

namespace Mode

/-- The blanks of JSON. -/
def isSpace (c : Char) : Bool := c = ' ' || c = '\t' || c = '\n' || c = '\r'

/-- A hexadecimal digit of either case. -/
def hexValue? (c : Char) : Option Nat :=
  if c.isDigit then some (c.toNat - '0'.toNat)
  else if 'a' ≤ c && c ≤ 'f' then some (c.toNat - 'a'.toNat + 10)
  else if 'A' ≤ c && c ≤ 'F' then some (c.toNat - 'A'.toNat + 10)
  else none

/-- The effect of a character between words: the words it completes, and the mode after it. -/
def start (c : Char) : Option (List Token × Mode) :=
  if isSpace c then some ([], idle)
  else match c with
    | '[' => some ([.openArray], idle)
    | ']' => some ([.closeArray], idle)
    | '\x7b' => some ([.openObject], idle)
    | '\x7d' => some ([.closeObject], idle)
    | ',' => some ([.comma], idle)
    | ':' => some ([.colon], idle)
    | 'n' => some ([], word .null ['u', 'l', 'l'])
    | 't' => some ([], word (.bool true) ['r', 'u', 'e'])
    | 'f' => some ([], word (.bool false) ['a', 'l', 's', 'e'])
    | '"' => some ([], string [])
    | '-' => some ([], minus)
    | '0' => some ([], zero false)
    | c => (Decimal.digitValue? c).map fun d => ([], whole false d)

/-- The number seen so far, in a mode where a number may end. -/
def number? : Mode → Option NumberLit
  | zero negative => some ⟨negative, 0, [], none⟩
  | whole negative n => some ⟨negative, n, [], none⟩
  | fraction negative n digits => some ⟨negative, n, digits.reverse, none⟩
  | exponent negative n digits below e =>
    some ⟨negative, n, digits.reverse, some (if below then -e else e)⟩
  | _ => none

/-- The mode in which a number goes on after a character, if it can. -/
def continue? (m : Mode) (c : Char) : Option Mode :=
  match m, Decimal.digitValue? c with
  | minus, some 0 => some (zero true)
  | minus, some d => some (whole true d)
  | whole negative n, some d => some (whole negative (10 * n + d))
  | point negative n, some _ => some (fraction negative n [c])
  | fraction negative n ds, some _ => some (fraction negative n (c :: ds))
  | exponentMark negative n ds, some d => some (exponent negative n ds false d)
  | exponentSign negative n ds below, some d => some (exponent negative n ds below d)
  | exponent negative n ds below e, some d => some (exponent negative n ds below (10 * e + d))
  | exponentMark negative n ds, none =>
    if c = '+' then some (exponentSign negative n ds false)
    else if c = '-' then some (exponentSign negative n ds true)
    else none
  | zero negative, none =>
    if c = '.' then some (point negative 0)
    else if c = 'e' || c = 'E' then some (exponentMark negative 0 [])
    else none
  | whole negative n, none =>
    if c = '.' then some (point negative n)
    else if c = 'e' || c = 'E' then some (exponentMark negative n [])
    else none
  | fraction negative n ds, none =>
    if c = 'e' || c = 'E' then some (exponentMark negative n ds) else none
  | _, _ => none

/-- The character that a two-character escape stands for. -/
def shortEscape? : Char → Option Char
  | '"' => some '"'
  | '\\' => some '\\'
  | '/' => some '/'
  | 'b' => some '\x08'
  | 'f' => some '\x0c'
  | 'n' => some '\n'
  | 'r' => some '\r'
  | 't' => some '\t'
  | _ => none

/-- The effect of a character: the words it completes, and the mode after it. -/
def feed (m : Mode) (c : Char) : Option (List Token × Mode) :=
  match m with
  | idle => start c
  | word token [x] => if c = x then some ([token], idle) else none
  | word token (x :: xs) => if c = x then some ([], word token xs) else none
  | word _ [] => none
  | string us =>
    if c = '"' then some ([.string us.reverse], idle)
    else if c = '\\' then some ([], escape us)
    else if c.toNat < 0x20 then none
    else some ([], string (.plain c :: us))
  | escape us =>
    if c = 'u' then some ([], hex us 0 0)
    else (shortEscape? c).map fun x => ([], string (.plain x :: us))
  | hex us count value => do
    let d ← hexValue? c
    if count = 3 then some ([], string (.code (16 * value + d) :: us))
    else some ([], hex us (count + 1) (16 * value + d))
  | m => match m.continue? c with
    | some next => some ([], next)
    | none => do
      let n ← m.number?
      let (tokens, next) ← start c
      some (.number n :: tokens, next)

/-- The effect of the end of the text. -/
def finish : Mode → Option (List Token)
  | idle => some []
  | m => m.number?.map fun n => [.number n]

end Mode

/-- The words of a text, from a given mode on. -/
def tokensFrom? : Mode → List Char → Option (List Token)
  | m, [] => m.finish
  | m, c :: cs => do
    let (tokens, next) ← m.feed c
    let rest ← tokensFrom? next cs
    some (tokens ++ rest)

/-- The words of a text. -/
def tokens? (cs : List Char) : Option (List Token) := tokensFrom? .idle cs

end ChainPlanner.Json
