/-
Paths into a configuration: names after dots and places in brackets, as in
`codec.steps[2]`.
-/
import SeriesWire.Bytes
import SeriesWire.Text.Numeral

namespace SeriesWire

inductive ConfigStep
  | name (key : String)
  /-- A place in a list.  Negative ones count from its end. -/
  | place (n : Int)
  deriving DecidableEq, Repr

namespace ConfigPath

def isNameChar (c : Char) : Bool := c.isAlphanum || c == '_' || c == '-' || c == ' '

/-- The name in front, and what follows it. -/
def name? (cs : List Char) : Option (ConfigStep × List Char) :=
  match cs.span isNameChar with
  | ([], _) => none
  | (name, rest) => some (.name (String.ofList name), rest)

def dropSpace (cs : List Char) : List Char := cs.dropWhile fun c => c == ' ' || c == '\t'

/-- The place in front, which has 64 bits, and what follows its bracket. -/
def place? (cs : List Char) : Option (ConfigStep × List Char) :=
  let cs := dropSpace cs
  let (negative, cs) := match cs with
    | '-' :: rest => (true, rest)
    | _ => (false, cs)
  let (digits, rest) := cs.span Char.isDigit
  let n : Int := if negative then -(Numeral.ofDigits digits : Int) else Numeral.ofDigits digits
  match dropSpace rest with
  | ']' :: rest => if digits.isEmpty || !Bytes.FitsInt 8 n then none else some (.place n, rest)
  | _ => none

/-- Read at most `fuel` more steps. -/
def more? : Nat → List Char → Option (List ConfigStep)
  | _, [] => some []
  | 0, _ :: _ => none
  | fuel + 1, c :: rest => do
    let (step, rest) ← match c with
      | '.' => name? rest
      | '[' => place? rest
      | _ => none
    return step :: (← more? fuel rest)

/-- The path that a key spells.  Each step takes at least a dot or a bracket. -/
def ofKey? (key : String) : Option (List ConfigStep) := do
  let (step, rest) ← name? key.toList
  return step :: (← more? rest.length rest)

/-- The path of a key.  A key that spells none is a name as it stands. -/
def ofKey (key : String) : List ConfigStep := (ofKey? key).getD [.name key]

end ConfigPath
end SeriesWire
