import Dataflow.Command.Outcome
import Dataflow.Number.Text
/-!
# The generate command

Writes a stream as a device would send it: readings between two bounds, each on a line of its own,
with lines of noise among them. The same seed gives the same stream.
-/
set_option autoImplicit false

namespace Dataflow.Command

/-- The options of the generate command. -/
structure GenerateOptions where
  count : Nat := 100
  min : Nat := 0
  max : Nat := 1023
  /-- The probability of a line of noise before a reading. -/
  noise : Float := 0.0
deriving Repr

/-- A natural number that the whole text spells, with an optional plus sign, below `bound`. -/
def natOption? (bound : Nat) (s : String) : Option Nat :=
  let digits :=
    match s.toList with
    | '+' :: rest => rest
    | chars => chars
  if digits.isEmpty || !digits.all Char.isDigit then none
  else if Digits.value digits < bound then some (Digits.value digits)
  else none

/-- A natural number that the whole text spells, with an optional sign, below `bound`; minus zero
is zero. -/
def signedOption? (bound : Nat) (s : String) : Option Nat :=
  match s.toList with
  | '-' :: '+' :: _ => none
  | '-' :: rest => natOption? 1 (String.ofList rest)
  | _ => natOption? bound s

/-- The options from the texts given for them; `none` when a text is no value of its option. -/
def GenerateOptions.ofTexts? (count min max noise : Option String) : Option GenerateOptions :=
  let standard : GenerateOptions := {}
  match count.elim (some standard.count) (natOption? UInt64.size),
    min.elim (some standard.min) (signedOption? UInt32.size),
    max.elim (some standard.max) (signedOption? UInt32.size),
    noise.elim (some standard.noise) (fun s => Number.ofChars? s.toList) with
  | some count, some min, some max, some noise => some ⟨count, min, max, noise⟩
  | _, _, _, _ => none

/-- The lines that stand for noise. -/
def noiseLines : List String :=
  ["ok", "ERR", "#", "v="]

/-- The number of steps in which a probability is told apart: 53 bits. -/
def probabilitySteps : Nat := 0x20000000000000

/-- True with the given probability. -/
def flip (probability : Float) (gen : StdGen) : Bool × StdGen :=
  let (n, gen) := randNat gen 0 (probabilitySteps - 1)
  (Float.ofNat n < probability * Float.ofNat probabilitySteps, gen)

/-- The lines before and with one reading. -/
def GenerateOptions.reading (o : GenerateOptions) (gen : StdGen) : List String × StdGen :=
  let (noisy, gen) := if o.noise > 0.0 then flip o.noise gen else (false, gen)
  let (junk, gen) :=
    if noisy then
      let (i, gen) := randNat gen 0 (noiseLines.length - 1)
      ([noiseLines.getD i ""], gen)
    else ([], gen)
  let (n, gen) := randNat gen o.min o.max
  (junk ++ [Digits.text n], gen)

/-- The lines of a stream of `count` readings. -/
def GenerateOptions.lines (o : GenerateOptions) : Nat → StdGen → List String
  | 0, _ => []
  | count + 1, gen =>
    let (lines, gen) := o.reading gen
    lines ++ o.lines count gen

/-- The outcome of the command; what it saves is the stream. -/
def GenerateOptions.run (o : GenerateOptions) (gen : StdGen) : Outcome :=
  if o.max < o.min then
    { exitCode := 1
      stderr := "Error: --min (" ++ Digits.text o.min ++ ") cannot be greater than --max ("
        ++ Digits.text o.max ++ ")\n" }
  else if !(0.0 ≤ o.noise && o.noise ≤ 1.0) then
    { exitCode := 1
      stderr := "Error: --noise must be between 0 and 1, got " ++ Number.plainText o.noise ++ "\n" }
  else
    { stdout := ["Generating " ++ Digits.text o.count ++ " readings between " ++ Digits.text o.min
        ++ " and " ++ Digits.text o.max ++ "..."]
      saved := some (String.join ((o.lines o.count gen).map (· ++ "\r\n"))) }

end Dataflow.Command
