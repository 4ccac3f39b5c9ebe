import SpatialIndex.Config.Basic
import SpatialIndex.Tree.Image
import SpatialIndex.Value

/-!
# Errors

An error is the cause of a failure.  Causes fall into categories, and the text of an error is the
opening of its category followed by the cause in words.
-/

namespace SpatialIndex

/-- The kinds of failure that a caller can tell apart. -/
inductive ErrorCategory
  /-- An index cannot be made from its definition. -/
  | definition
  /-- The key of a row has no box. -/
  | key
  /-- There is no such table. -/
  | tableNotFound
  /-- There is such a table already. -/
  | tableExists
  /-- There is no such index. -/
  | indexNotFound
  /-- There is such an index already. -/
  | indexExists
  /-- What was handed in is not acceptable. -/
  | input
  /-- An expression has no value. -/
  | evaluation
  /-- The configuration is refused. -/
  | configuration
  /-- Parts that belong together do not fit. -/
  | inconsistency
  /-- A file cannot be read or written. -/
  | file
  /-- A file is not the image of a tree. -/
  | image
  /-- The parts of an image cannot be read. -/
  | imageBody
deriving DecidableEq

/-- Why an operation failed. -/
inductive Error
  /-- An index has not exactly one key. -/
  | notOneKey
  /-- The key of an index is not a shape. -/
  | keyNotGeometry
  /-- The key of an index calls a function that is not a function of its arguments. -/
  | keyVolatile
  /-- The key of a row has no value. -/
  | keyFailed (row : RowId) (cause : Error)
  /-- The key of a row is a value of another type. -/
  | rowKeyNotGeometry (row : RowId) (type : LogicalType)
  /-- The box of the key of a row is not valid. -/
  | rowKeyNotFinite (row : RowId) (box : Box)
  /-- There is no table of this name. -/
  | tableNotFound (name : String)
  /-- There is a table of this name already. -/
  | tableExists (name : String)
  /-- There is no index of this name. -/
  | indexNotFound (name : String)
  /-- There is an index of this name already. -/
  | indexExists (name : String)
  /-- A row has not one value for each column. -/
  | rowWidth (expected found : Nat)
  /-- A row has no such column. -/
  | columnOutOfRange (column : Nat)
  /-- A table has no such column. -/
  | noColumn (table : String) (column : Nat)
  /-- Entries cannot be packed. -/
  | packing (fault : PackingFault)
  /-- A function refuses its arguments. -/
  | refused (reason : String)
  /-- A row has no value at a position that an expression reads. -/
  | positionOutOfRange (position width : Nat)
  /-- There is no function of this name. -/
  | unknownFunction (name : String)
  /-- Two values have no order. -/
  | incomparable (left right : Value)
  /-- What is to be negated is not a truth value. -/
  | negandNotBoolean (value : Value)
  /-- What is to be joined is not a truth value. -/
  | operandNotBoolean (value : Value)
  /-- What is to hold is not a truth value. -/
  | predicateNotBoolean (value : Value)
  /-- A spatial relation has not two arguments. -/
  | relationArity (count : Nat)
  /-- An argument of a spatial relation is not a shape. -/
  | relationNotGeometry
  /-- A function has no value for its arguments. -/
  | undefined (reason : String)
  /-- The configuration is refused. -/
  | configuration (fault : ConfigFault)
  /-- The structure of a tree is not sound. -/
  | unsound (violation : Violation)
  /-- The index of a scan no longer belongs to its table. -/
  | detachedIndex (index table : String)
  /-- A filter is on a column that its scan does not read. -/
  | filterNotScanned (column : Nat) (table : String)
  /-- A scan does not know the type of a column with a filter. -/
  | unknownColumn (column : Nat)
  /-- An operator has not one input. -/
  | notOneChild (operator : String) (count : Nat)
  /-- A product has not two inputs. -/
  | notTwoChildren
  /-- An expression reads a column that the input does not produce. -/
  | unboundColumn (table column : Nat)
  /-- A filter to be moved is on a column that its scan does not read. -/
  | filterNotFound (column : Nat) (table : String)
  /-- A filter to be moved is on a column of unknown type. -/
  | filterOutOfRange (column : Nat) (table : String)
  /-- A file cannot be read or written. -/
  | unavailableFile
  /-- A file is not the image of a tree. -/
  | image (fault : ImageFault)

namespace Error

/-- The category of a cause. -/
def category : Error → ErrorCategory
  | notOneKey | keyNotGeometry | keyVolatile => .definition
  | keyFailed .. | rowKeyNotGeometry .. | rowKeyNotFinite .. => .key
  | tableNotFound _ => .tableNotFound
  | tableExists _ => .tableExists
  | indexNotFound _ => .indexNotFound
  | indexExists _ => .indexExists
  | rowWidth .. | columnOutOfRange _ | noColumn .. | packing _ | refused _ => .input
  | positionOutOfRange .. | unknownFunction _ | incomparable .. | negandNotBoolean _
  | operandNotBoolean _ | predicateNotBoolean _ | relationArity _ | relationNotGeometry
  | undefined _ => .evaluation
  | configuration _ => .configuration
  | unsound _ | detachedIndex .. | filterNotScanned .. | unknownColumn _ | notOneChild ..
  | notTwoChildren | unboundColumn .. | filterNotFound .. | filterOutOfRange .. => .inconsistency
  | unavailableFile => .file
  | image .invalid => .image
  | image .unreadable => .imageBody

/-- The whole text of an error. -/
def message : Error → String
  | notOneKey =>
    "Invalid index definition: RTree indexes can only be created over a single column."
  | keyNotGeometry =>
    "Invalid index definition: RTree indexes can only be created over GEOMETRY columns."
  | keyVolatile =>
    "Invalid index definition: RTree index keys cannot contain expressions with side effects."
  | keyFailed row cause => keyMessage row cause.message
  | rowKeyNotGeometry row type =>
    keyMessage row s!"Index key must be {LogicalType.geometry.text}, got {type.text}"
  | rowKeyNotFinite row box => keyMessage row s!"Geometry has non-finite bounds {box.text}"
  | tableNotFound name => "Table not found: " ++ name
  | tableExists name => "Table already exists: " ++ name
  | indexNotFound name => "Index not found: " ++ name
  | indexExists name => "Index already exists: " ++ name
  | rowWidth expected found => input s!"Expected {expected} columns, got {found}"
  | columnOutOfRange column => input s!"Column {column} out of range"
  | noColumn table column => input s!"Table {table} has no column {column}"
  | packing fault => input fault.message
  | refused reason => input reason
  | positionOutOfRange position width =>
    evaluation s!"Column index {position} out of range for row of width {width}"
  | unknownFunction name => evaluation ("Unknown function: " ++ name)
  | incomparable left right => evaluation s!"Cannot compare {left.text} with {right.text}"
  | negandNotBoolean value => evaluation s!"NOT expects a BOOLEAN, got {value.text}"
  | operandNotBoolean value =>
    evaluation s!"Conjunction operands must be BOOLEAN, got {value.text}"
  | predicateNotBoolean value =>
    evaluation s!"Filter predicate must be BOOLEAN, got {value.text}"
  | relationArity count => evaluation s!"Expected 2 arguments, got {count}"
  | relationNotGeometry => evaluation "Spatial predicate arguments must be GEOMETRY"
  | undefined reason => evaluation reason
  | configuration fault => "Invalid configuration: " ++ fault.message
  | unsound violation => inconsistency violation.message
  | detachedIndex index table =>
    inconsistency s!"Index {index} is not attached to table {table} at scan time"
  | filterNotScanned column table =>
    inconsistency s!"Filter column {column} is not scanned from {table}"
  | unknownColumn column => inconsistency s!"Unknown column {column}"
  | notOneChild operator count => inconsistency s!"{operator} expects one child, found {count}"
  | notTwoChildren => inconsistency "Cross product needs exactly two children"
  | unboundColumn table column =>
    inconsistency s!"Column binding #[{table}.{column}] not produced by child operator"
  | filterNotFound column table =>
    inconsistency s!"Could not find column id {column} for filter on {table}"
  | filterOutOfRange column table =>
    inconsistency s!"Filter column {column} out of range for {table}"
  | unavailableFile => "I/O error"
  | image .invalid => "Invalid snapshot format"
  | image .unreadable => "Serialization error"
where
  /-- The text of a failure on the key of a row. -/
  keyMessage (row : RowId) (cause : String) : String :=
    s!"Failed to evaluate index key for row {row.toInt}: {cause}"
  /-- The text of a failure on what was handed in. -/
  input (cause : String) : String := "Invalid input: " ++ cause
  /-- The text of a failure of an expression. -/
  evaluation (cause : String) : String := "Evaluation error: " ++ cause
  /-- The text of a failure of parts that do not fit. -/
  inconsistency (cause : String) : String := "Internal error: " ++ cause

end Error

end SpatialIndex
