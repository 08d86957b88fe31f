import Dataflow.Number.Decimal
/-!
# JSON tokens

A JSON text cut into tokens. Only well-formedness is decided here: a number may be of any size
and a string may hold unpaired surrogates, because a part of a document that nobody reads may
hold either.
-/
set_option autoImplicit false

namespace Dataflow.Json

inductive Piece where
  /-- A character, written as itself or by a short escape. -/
  | char (c : Char)
  /-- The UTF-16 unit that an escape of four hexadecimal digits names. -/
  | unit (code : Nat)
deriving DecidableEq, Repr

structure Numeral where
  negative : Bool
  decimal : Decimal
  /-- True when neither a fraction nor a power of ten is written. -/
  whole : Bool
deriving DecidableEq, Repr

/-- The smallest parts of a JSON text that mean something by themselves. -/
inductive Token where
  | braceOpen
  | braceClose
  | bracketOpen
  | bracketClose
  | comma
  | colon
  | null
  | bool (b : Bool)
  | number (n : Numeral)
  | string (pieces : List Piece)
deriving DecidableEq, Repr

/-! ## Strings -/

def hexDigit? (c : Char) : Option Nat :=
  if c.isDigit then some (c.toNat - '0'.toNat)
  else if 'a' ≤ c ∧ c ≤ 'f' then some (c.toNat - 'a'.toNat + 10)
  else if 'A' ≤ c ∧ c ≤ 'F' then some (c.toNat - 'A'.toNat + 10)
  else none

def hexUnit? (a b c d : Char) : Option Nat :=
  match hexDigit? a, hexDigit? b, hexDigit? c, hexDigit? d with
  | some a, some b, some c, some d => some (a * 4096 + b * 256 + c * 16 + d)
  | _, _, _, _ => none

/-- The character that a backslash and `c` stand for. -/
def shortEscape? (c : Char) : Option Char :=
  match c with
  | '"' => some '"'
  | '\\' => some '\\'
  | '/' => some '/'
  | 'b' => some '\x08'
  | 'f' => some '\x0c'
  | 'n' => some '\n'
  | 'r' => some '\r'
  | 't' => some '\t'
  | _ => none

/-- The pieces of a string literal up to its closing quote, and what follows the quote. -/
def scanString : List Char → Option (List Piece × List Char)
  | [] => none
  | '"' :: rest => some ([], rest)
  | '\\' :: 'u' :: a :: b :: c :: d :: rest =>
    match hexUnit? a b c d with
    | some n => (scanString rest).map fun r => (.unit n :: r.1, r.2)
    | none => none
  | '\\' :: c :: rest =>
    match shortEscape? c with
    | some e => (scanString rest).map fun r => (.char e :: r.1, r.2)
    | none => none
  | c :: rest =>
    if c = '\\' ∨ c.toNat < 0x20 then none
    else (scanString rest).map fun r => (.char c :: r.1, r.2)

/-! ## Numbers -/

/-- The whole part of a number: digits without a leading zero, or a single zero. -/
def scanWhole? (s : List Char) : Option (List Char × List Char) :=
  match Digits.span s with
  | ([], _) => none
  | ('0' :: _ :: _, _) => none
  | (digits, rest) => some (digits, rest)

/-- The fraction digits at the front; `none` when no point stands there. A point without a digit
after it is an error. -/
def scanFraction? (s : List Char) : Option (Option (List Char) × List Char) :=
  match s with
  | '.' :: rest =>
    match Digits.span rest with
    | ([], _) => none
    | (digits, rest) => some (some digits, rest)
  | s => some (none, s)

/-- The number literal at the front, and what follows it. -/
def Numeral.scan (s : List Char) : Option (Numeral × List Char) :=
  let (negative, s) :=
    match s with
    | '-' :: rest => (true, rest)
    | s => (false, s)
  match scanWhole? s with
  | none => none
  | some (whole, s) =>
    match scanFraction? s with
    | none => none
    | some (fraction, afterFraction) =>
      match Digits.power? afterFraction with
      | none => none
      | some (power, rest) =>
        some (⟨negative, .ofParts whole (fraction.getD []) power,
          fraction.isNone && !Digits.hasPower afterFraction⟩, rest)

/-! ## Texts -/

/-- The four characters that may stand between tokens. -/
def isSpace (c : Char) : Bool :=
  c == ' ' || c == '\n' || c == '\t' || c == '\r'

/-- The first token of a text that does not start with a space, and what follows it. -/
def Token.scan (s : List Char) : Option (Token × List Char) :=
  match s with
  | '{' :: rest => some (.braceOpen, rest)
  | '}' :: rest => some (.braceClose, rest)
  | '[' :: rest => some (.bracketOpen, rest)
  | ']' :: rest => some (.bracketClose, rest)
  | ',' :: rest => some (.comma, rest)
  | ':' :: rest => some (.colon, rest)
  | '"' :: rest => (scanString rest).map fun r => (.string r.1, r.2)
  | 'n' :: 'u' :: 'l' :: 'l' :: rest => some (.null, rest)
  | 't' :: 'r' :: 'u' :: 'e' :: rest => some (.bool true, rest)
  | 'f' :: 'a' :: 'l' :: 's' :: 'e' :: rest => some (.bool false, rest)
  | s => (Numeral.scan s).map fun r => (.number r.1, r.2)

/-- The tokens of a text of at most `fuel` characters. -/
def scanAll : Nat → List Char → Option (List Token)
  | _, [] => some []
  | 0, _ :: _ => none
  | fuel + 1, c :: rest =>
    if isSpace c then scanAll fuel rest
    else
      match Token.scan (c :: rest) with
      | none => none
      | some (token, rest) => (scanAll fuel rest).map (token :: ·)

/-- The tokens of a text; `none` when some part of it is no token. -/
def tokens? (s : List Char) : Option (List Token) :=
  scanAll s.length s

end Dataflow.Json
