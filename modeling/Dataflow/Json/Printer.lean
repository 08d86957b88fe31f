import Dataflow.Json.Value
import Dataflow.Number.Layout
/-!
# Writing JSON

Two spellings of a value: compact, without a space, and indented, with two spaces for each level.
A double is written with the shortest digits that read back and always with a fraction or a power
of ten, so that it is read back as a double; a double that is not finite is written `null`.
-/
set_option autoImplicit false

namespace Dataflow.Json

open Float.Model (UnpackedFloat)

/-! ## Numbers -/

/-- Doubles are positional from a hundred-thousandth up to ten to the 16th. -/
def floatLayout : Layout := ⟨-5, 15, true, .even⟩

def floatChars (x : Float) : List Char :=
  match x.toModel.unpack with
  | .notANumber => "null".toList
  | .infinity _ => "null".toList
  | .zero .positive => "0.0".toList
  | .zero .negative => "-0.0".toList
  | .finite s m e _ => floatLayout.finite (s == .negative) x.abs m e

def intChars (n : Int) : List Char :=
  (if n < 0 then ['-'] else []) ++ Digits.ofNat n.natAbs

def Number.chars : Number → List Char
  | .integer n => intChars n
  | .float x => floatChars x

def Number.text (n : Number) : String :=
  String.ofList n.chars

/-! ## Strings -/

def hexChar (n : Nat) : Char :=
  if n < 10 then Char.ofNat ('0'.toNat + n) else Char.ofNat ('a'.toNat + (n - 10))

def escapeChar (c : Char) : List Char :=
  match c with
  | '"' => ['\\', '"']
  | '\\' => ['\\', '\\']
  | '\x08' => ['\\', 'b']
  | '\x0c' => ['\\', 'f']
  | '\n' => ['\\', 'n']
  | '\r' => ['\\', 'r']
  | '\t' => ['\\', 't']
  | c =>
    if c.toNat < 0x20 then ['\\', 'u', '0', '0', hexChar (c.toNat / 16), hexChar (c.toNat % 16)]
    else [c]

def stringChars (s : String) : List Char :=
  '"' :: s.toList.flatMap escapeChar ++ ['"']

/-! ## Compact values -/

mutual

/-- The compact spelling of a value. -/
def Value.compactChars : Value → List Char
  | .null => "null".toList
  | .bool b => if b then "true".toList else "false".toList
  | .number n => n.chars
  | .string s => stringChars s
  | .array [] => ['[', ']']
  | .array (t :: rest) => '[' :: t.compactChars ++ compactItems rest ++ [']']
  | .object [] => ['{', '}']
  | .object ((k, t) :: rest) =>
    '{' :: stringChars k ++ ':' :: t.compactChars ++ compactMembers rest ++ ['}']

def compactItems : List Value → List Char
  | [] => []
  | t :: rest => ',' :: t.compactChars ++ compactItems rest

def compactMembers : List (String × Value) → List Char
  | [] => []
  | (k, t) :: rest => ',' :: stringChars k ++ ':' :: t.compactChars ++ compactMembers rest

end

def Value.compact (v : Value) : String :=
  String.ofList v.compactChars

/-! ## Indented values -/

def newLine (level : Nat) : List Char :=
  '\n' :: List.replicate (2 * level) ' '

mutual

/-- The indented spelling of a value at the given level; empty containers stay on one line. -/
def Value.indentedChars (level : Nat) : Value → List Char
  | .null => "null".toList
  | .bool b => if b then "true".toList else "false".toList
  | .number n => n.chars
  | .string s => stringChars s
  | .array [] => ['[', ']']
  | .array (t :: rest) =>
    '[' :: newLine (level + 1) ++ t.indentedChars (level + 1) ++ indentedItems (level + 1) rest
      ++ newLine level ++ [']']
  | .object [] => ['{', '}']
  | .object ((k, t) :: rest) =>
    '{' :: newLine (level + 1) ++ stringChars k ++ ':' :: ' ' :: t.indentedChars (level + 1)
      ++ indentedMembers (level + 1) rest ++ newLine level ++ ['}']

def indentedItems (level : Nat) : List Value → List Char
  | [] => []
  | t :: rest => ',' :: newLine level ++ t.indentedChars level ++ indentedItems level rest

def indentedMembers (level : Nat) : List (String × Value) → List Char
  | [] => []
  | (k, t) :: rest =>
    ',' :: newLine level ++ stringChars k ++ ':' :: ' ' :: t.indentedChars level
      ++ indentedMembers level rest

end

def Value.indented (v : Value) : String :=
  String.ofList (v.indentedChars 0)

end Dataflow.Json
