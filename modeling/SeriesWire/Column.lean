/-
Column types.  A type fixes how wide a value is inside a row: numbers and
instants have a width of their own, `bpchar` is as wide as its column is
declared, and the variable types leave an offset in the row and keep their text
elsewhere.
-/

namespace SeriesWire

inductive ColumnType
  | int2 | int4 | int8 | float4 | float8 | timestamp | timestamptz | date | bpchar | varchar | text
  deriving DecidableEq, Repr, Inhabited

namespace ColumnType

def all : List ColumnType :=
  [int2, int4, int8, float4, float8, timestamp, timestamptz, date, bpchar, varchar, text]

def oid : ColumnType → UInt32
  | int8 => 20
  | int2 => 21
  | int4 => 23
  | text => 25
  | float4 => 700
  | float8 => 701
  | bpchar => 1042
  | varchar => 1043
  | date => 1082
  | timestamp => 1114
  | timestamptz => 1184

def ofOid? (n : UInt32) : Option ColumnType := all.find? (·.oid == n)

theorem ofOid?_oid (t : ColumnType) : ofOid? t.oid = some t := by
  cases t <;> decide

theorem oid_of_ofOid? {n : UInt32} {t : ColumnType} (h : ofOid? n = some t) : t.oid = n := by
  simpa using List.find?_some h

def name : ColumnType → String
  | int2 => "int2"
  | int4 => "int4"
  | int8 => "int8"
  | float4 => "float4"
  | float8 => "float8"
  | timestamp => "timestamp"
  | timestamptz => "timestamptz"
  | date => "date"
  | bpchar => "bpchar"
  | varchar => "varchar"
  | text => "text"

/-- The width of a value where the type alone decides it. -/
def fixedWidth? : ColumnType → Option Nat
  | int2 => some 2
  | int4 | float4 => some 4
  | int8 | float8 | timestamp | timestamptz | date => some 8
  | bpchar | varchar | text => none

def isVariable : ColumnType → Bool
  | varchar | text => true
  | _ => false

def isCharacter : ColumnType → Bool
  | bpchar | varchar | text => true
  | _ => false

theorem isCharacter_eq (t : ColumnType) : t.isCharacter = t.fixedWidth?.isNone := by
  cases t <;> rfl

theorem fixedWidth?_of_isVariable {t : ColumnType} (h : t.isVariable = true) :
    t.fixedWidth? = none := by
  cases t <;> first | rfl | cases h

theorem isVariable_of_fixedWidth? {t : ColumnType} {width : Nat} (h : t.fixedWidth? = some width) :
    t.isVariable = false := by
  cases t <;> first | rfl | cases h

def isTimestamp : ColumnType → Bool
  | timestamp | timestamptz => true
  | _ => false

/-- Whether rows of this type can be packed.  A `date` only ever comes back in
results. -/
def isEncodable : ColumnType → Bool
  | date => false
  | _ => true

def packable? (n : UInt32) : Option ColumnType := (ofOid? n).filter isEncodable

/-- Width of the offset that stands in a row for a variable value. -/
def offsetWidth : Nat := 8

/-- Width of a value's slot inside a data row. -/
def slotWidth (t : ColumnType) (storageLen : Nat) : Nat :=
  match t.fixedWidth? with
  | some w => w
  | none => if t.isVariable then offsetWidth else storageLen

theorem slotWidth_of_fixedWidth? {t : ColumnType} {width : Nat} (h : t.fixedWidth? = some width)
    (storageLen : Nat) : t.slotWidth storageLen = width := by
  rw [slotWidth, h]

/-- A type whose texts neither fill their slot nor stand elsewhere is a number. -/
theorem exists_fixedWidth? {t : ColumnType} (hb : t ≠ bpchar) (hv : t.isVariable = false) :
    ∃ width, t.fixedWidth? = some width := by
  cases t <;> first | exact ⟨_, rfl⟩ | exact absurd rfl hb | cases hv

end ColumnType

structure Column where
  type : ColumnType
  storageLen : UInt32
  deriving DecidableEq, Repr, Inhabited

namespace Column

def width (c : Column) : Nat := c.storageLen.toNat

/-- Width of the column's slot inside a data row. -/
def slotWidth (c : Column) : Nat := c.type.slotWidth c.width

end Column
end SeriesWire
