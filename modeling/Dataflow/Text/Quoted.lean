import Dataflow.Text.Visible
/-!
# Quoted texts

A text between double quotes as diagnostics show it: quotes, backslashes and the common controls
are escaped by a backslash, every other hidden character by its code point, all else is raw.
-/
set_option autoImplicit false

namespace Dataflow.Text

/-- The quoted spelling of one character. -/
def quoteChar (c : Char) : List Char :=
  if c = '"' then ['\\', '"']
  else if c = '\\' then ['\\', '\\']
  else if c = '\n' then ['\\', 'n']
  else if c = '\r' then ['\\', 'r']
  else if c = '\t' then ['\\', 't']
  else if c.toNat = 0 then ['\\', '0']
  else if isVisible c then [c]
  else ['\\', 'u', '{'] ++ Nat.toDigits 16 c.toNat ++ ['}']

/-- The text in double quotes. -/
def quoted (s : String) : String :=
  String.ofList ('"' :: s.toList.flatMap quoteChar ++ ['"'])

end Dataflow.Text
