import ChainPlanner.Text.Hidden

/-!
# ChainPlanner.Text.Quoted

A text between double quotes, as diagnostics show it: quotes and backslashes behind a backslash,
the common controls by a letter, every other hidden character by its number in hexadecimal.
-/

namespace ChainPlanner.Text

/-- A character inside quotes. -/
def quoteChar (c : Char) : List Char :=
  if c = '"' then ['\\', '"']
  else if c = '\\' then ['\\', '\\']
  else if c.toNat = 0 then ['\\', '0']
  else if c = '\t' then ['\\', 't']
  else if c = '\n' then ['\\', 'n']
  else if c = '\r' then ['\\', 'r']
  else if isHidden c then ['\\', 'u', '\x7b'] ++ Nat.toDigits 16 c.toNat ++ ['\x7d']
  else [c]

/-- A text between quotes. -/
def quote (s : String) : String := String.ofList ('"' :: (s.toList.flatMap quoteChar ++ ['"']))

end ChainPlanner.Text
