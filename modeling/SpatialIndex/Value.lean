import SpatialIndex.Entry
import SpatialIndex.Geometry.Basic

/-!
# Types and values

The values of columns and expressions.  A null belongs to every type.  Values of unlike types are
neither equal nor comparable, but whole numbers compare with doubles.
-/

namespace SpatialIndex

/-- The type of a column or of an expression. -/
inductive LogicalType
  /-- Truth values. -/
  | boolean
  /-- Whole numbers of 64 bits. -/
  | bigint
  /-- Double-precision numbers. -/
  | double
  /-- Texts. -/
  | varchar
  /-- Shapes in the plane. -/
  | geometry
deriving DecidableEq

namespace LogicalType

/-- All types in order. -/
def all : List LogicalType := [boolean, bigint, double, varchar, geometry]

/-- The name of a type in messages. -/
def text : LogicalType → String
  | boolean => "BOOLEAN"
  | bigint => "BIGINT"
  | double => "DOUBLE"
  | varchar => "VARCHAR"
  | geometry => "GEOMETRY"

/-- The name of a type in documents. -/
def documentName : LogicalType → String
  | boolean => "BOOLEAN"
  | bigint => "BIG_INT"
  | double => "DOUBLE"
  | varchar => "VARCHAR"
  | geometry => "GEOMETRY"

/-- The name of a type in descriptions of tables. -/
def recordText : LogicalType → String
  | boolean => "Boolean"
  | bigint => "BigInt"
  | double => "Double"
  | varchar => "Varchar"
  | geometry => "Geometry"

end LogicalType

/-- A value of a column or of an expression. -/
inductive Value
  /-- No value. -/
  | null
  /-- A truth value. -/
  | boolean (b : Bool)
  /-- A whole number. -/
  | bigint (n : Int64)
  /-- A double-precision number. -/
  | double (x : Double)
  /-- A text. -/
  | varchar (text : String)
  /-- A shape. -/
  | geometry (g : Geometry)

/-- The values of a row, column by column. -/
abbrev Row := List Value

namespace Value

/-- The value is missing. -/
def isNull : Value → Bool
  | null => true
  | _ => false

/-- The type of a value; a null by itself has none. -/
def type? : Value → Option LogicalType
  | null => none
  | boolean _ => some .boolean
  | bigint _ => some .bigint
  | double _ => some .double
  | varchar _ => some .varchar
  | geometry _ => some .geometry

/-- The shape of a value that is one. -/
def geometry? : Value → Option Geometry
  | geometry g => some g
  | _ => none

/-- The truth of a value that is a truth value. -/
def boolean? : Value → Option Bool
  | boolean b => some b
  | _ => none

/-- Two values of one type are the same, numbers and coordinates numerically. -/
def equiv : Value → Value → Bool
  | null, null => true
  | boolean a, boolean b => a == b
  | bigint a, bigint b => a == b
  | double a, double b => a.equiv b
  | varchar a, varchar b => a == b
  | geometry a, geometry b => a == b
  | _, _ => false

instance : BEq Value := ⟨equiv⟩

/-- A whole number as the nearest double. -/
def nearestDouble (n : Int64) : Double := .ofInt n.toInt

/-- The order of two values, if they have one.  A whole number compares with a double as the
double nearest to it. -/
def compare? : Value → Value → Option Ordering
  | boolean a, boolean b => some (compare a b)
  | bigint a, bigint b => some (compare a.toInt b.toInt)
  | double a, double b => a.compare? b
  | bigint a, double b => (nearestDouble a).compare? b
  | double a, bigint b => a.compare? (nearestDouble b)
  | varchar a, varchar b => some (compare a b)
  | _, _ => none

/-- The value as expressions and messages show it. -/
def text : Value → String
  | null => "NULL"
  | boolean b => toString b
  | bigint n => toString n.toInt
  | double x => x.plainText
  | varchar text => "'" ++ text ++ "'"
  | geometry g => g.text

end Value

end SpatialIndex
