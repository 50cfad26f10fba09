/-
Configuration values, the tree that a configuration file holds.  Values can be
laid over a tree: a table goes entry by entry into the table that stands there,
anything else replaces it.
-/
import SeriesWire.Binary
import SeriesWire.Config.Path
import SeriesWire.Decimal.Positional

namespace SeriesWire

inductive ConfigValue
  | null
  | bool (b : Bool)
  | int (n : Int)
  | real (x : Binary64)
  | text (s : String)
  | list (items : List ConfigValue)
  | table (entries : List (String × ConfigValue))
  deriving Inhabited

namespace ConfigValue

/-- A number as a configuration keeps it: one that is no 64-bit signed integer
becomes the nearest double. -/
def ofInt (n : Int) : ConfigValue :=
  if Bytes.FitsInt 8 n then int n else real (Binary64.ofInt n)

def lookup (key : String) : List (String × ConfigValue) → Option ConfigValue
  | [] => none
  | (k, v) :: rest => if k = key then some v else lookup key rest

def insert (key : String) (v : ConfigValue) :
    List (String × ConfigValue) → List (String × ConfigValue)
  | [] => [(key, v)]
  | (k, old) :: rest => if k = key then (k, v) :: rest else (k, old) :: insert key v rest

def entries : ConfigValue → List (String × ConfigValue)
  | table es => es
  | _ => []

def items : ConfigValue → List ConfigValue
  | list vs => vs
  | _ => []

/-- What stands under `key`, an empty table if nothing does. -/
def child (v : ConfigValue) (key : String) : ConfigValue :=
  (lookup key v.entries).getD (table [])

mutual

def merge (old : ConfigValue) : ConfigValue → ConfigValue
  | table es => mergeAll old es
  | v => v

/-- Lay the entries of a table over `old`, which becomes a table if it is none
and there are any. -/
def mergeAll (old : ConfigValue) : List (String × ConfigValue) → ConfigValue
  | [] => old
  | (key, v) :: rest => mergeAll (table (insert key (merge (old.child key) v) old.entries)) rest

end

def index (length : Nat) (n : Int) : Nat :=
  if n < 0 then length - n.natAbs else n.toNat

/-- Put `v` at index `i`, behind as many nulls as it takes to get there. -/
def putAt (i : Nat) (v : ConfigValue) (vs : List ConfigValue) : List ConfigValue :=
  vs.take i ++ List.replicate (i - vs.length) null ++ v :: vs.drop (i + 1)

/-- Lay `v` over what stands at the end of a path.  Whatever on the way is not
the table or list that the path asks for is replaced by one. -/
def set (v : ConfigValue) : List ConfigStep → ConfigValue → ConfigValue
  | [], old => merge old v
  | .name key :: path, old => table (insert key (set v path (old.child key)) old.entries)
  | .place n :: path, old =>
    let i := index old.items.length n
    list (putAt i (set v path (old.items.getD i null)) old.items)

def maxNumber : Nat := Bytes.space 8 - 1

/-- The number that a text stands for: a word that says yes or no, or decimal
digits. -/
def numberOfText? (s : String) : Option Nat :=
  let word := s.map Char.toLower
  if ["true", "on", "yes"].contains word then some 1
  else if ["false", "off", "no"].contains word then some 0
  else Numeral.ofText? maxNumber s

/-- A number that counts bytes.  Fractions are rounded, and what is out of range
goes to its nearer end. -/
def number? : ConfigValue → Option Nat
  | int n => if 0 ≤ n then some n.toNat else none
  | bool b => some b.toNat
  | text s => numberOfText? s
  | real x => x.toInt?.map fun n => min n.toNat maxNumber
  | _ => none

/-- A text, or the text of a number or truth value. -/
def text? : ConfigValue → Option String
  | text s => some s
  | int n => some (toString n)
  | bool b => some (toString b)
  | real x => some x.text
  | _ => none

/-- A value that holds the settings of a section, by name or in order. -/
def section? : ConfigValue → Option ConfigValue
  | table es => some (table es)
  | list vs => some (list vs)
  | _ => none

/-- The setting called `key`, which comes at index `i` where settings are given
in order. -/
def setting? (v : ConfigValue) (i : Nat) (key : String) : Option ConfigValue :=
  match v with
  | list vs => vs[i]?
  | v => lookup key v.entries

end ConfigValue
end SeriesWire
