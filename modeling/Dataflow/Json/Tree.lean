import Dataflow.Json.Token
/-!
# JSON trees

The document that a JSON text spells, before anything in it is interpreted: members keep their
order and their repeats, strings keep their escapes, numbers their literals. A text is
well-formed when it has a tree (`Tree.ofText?`).
-/
set_option autoImplicit false

namespace Dataflow.Json

/-- A well-formed document or a part of one. -/
inductive Tree where
  | null
  | bool (b : Bool)
  | number (n : Numeral)
  | string (pieces : List Piece)
  | array (items : List Tree)
  | object (members : List (List Piece × Tree))
deriving Repr

namespace Tree

/-! The three readers below look at the front of a token list and return what follows. Each call
spends one unit of fuel, and at most two calls are made for a token. -/

mutual

def value? : Nat → List Token → Option (Tree × List Token)
  | 0, _ => none
  | fuel + 1, tokens =>
    match tokens with
    | .null :: rest => some (.null, rest)
    | .bool b :: rest => some (.bool b, rest)
    | .number n :: rest => some (.number n, rest)
    | .string s :: rest => some (.string s, rest)
    | .bracketOpen :: .bracketClose :: rest => some (.array [], rest)
    | .bracketOpen :: rest => (items? fuel rest).map fun r => (.array r.1, r.2)
    | .braceOpen :: .braceClose :: rest => some (.object [], rest)
    | .braceOpen :: rest => (members? fuel rest).map fun r => (.object r.1, r.2)
    | _ => none

/-- One or more values separated by commas, up to the closing bracket. -/
def items? : Nat → List Token → Option (List Tree × List Token)
  | 0, _ => none
  | fuel + 1, tokens =>
    match value? fuel tokens with
    | some (t, .comma :: rest) => (items? fuel rest).map fun r => (t :: r.1, r.2)
    | some (t, .bracketClose :: rest) => some ([t], rest)
    | _ => none

/-- One or more members separated by commas, up to the closing brace. -/
def members? : Nat → List Token → Option (List (List Piece × Tree) × List Token)
  | 0, _ => none
  | fuel + 1, tokens =>
    match tokens with
    | .string key :: .colon :: rest =>
      match value? fuel rest with
      | some (t, .comma :: rest) => (members? fuel rest).map fun r => ((key, t) :: r.1, r.2)
      | some (t, .braceClose :: rest) => some ([(key, t)], rest)
      | _ => none
    | _ => none

end

/-- The tree that a token list spells when it spells exactly one. -/
def ofTokens? (tokens : List Token) : Option Tree :=
  match value? (2 * tokens.length + 1) tokens with
  | some (t, []) => some t
  | _ => none

/-- The tree of a text; `none` when the text is not well-formed. -/
def ofText? (s : String) : Option Tree :=
  (tokens? s.toList).bind ofTokens?

end Tree

end Dataflow.Json
