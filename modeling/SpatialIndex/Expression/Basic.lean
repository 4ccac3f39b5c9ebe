import SpatialIndex.Function

/-!
# Expressions

An expression reads a row either through column bindings, which name an output column of a plan
operator, or by position.  Replacing one way of reading by another never looks into what has been
put in.
-/

namespace SpatialIndex

/-- An output column of an operator. -/
structure ColumnBinding where
  /-- The number of the operator in its plan. -/
  table : Nat
  /-- The column. -/
  column : Nat
deriving DecidableEq

/-- The comparisons of two values. -/
inductive CompareOp
  /-- The values are equal. -/
  | equal
  /-- The values are not equal. -/
  | notEqual
  /-- The left value is less. -/
  | less
  /-- The left value is not greater. -/
  | lessOrEqual
  /-- The left value is greater. -/
  | greater
  /-- The left value is not less. -/
  | greaterOrEqual
deriving DecidableEq

namespace CompareOp

/-- All comparisons. -/
def all : List CompareOp := [equal, notEqual, less, lessOrEqual, greater, greaterOrEqual]

/-- The sign of a comparison. -/
def symbol : CompareOp → String
  | equal => "="
  | notEqual => "!="
  | less => "<"
  | lessOrEqual => "<="
  | greater => ">"
  | greaterOrEqual => ">="

/-- Whether a comparison holds of values in the given order. -/
def holds : CompareOp → Ordering → Bool
  | equal, order => order == .eq
  | notEqual, order => order != .eq
  | less, order => order == .lt
  | lessOrEqual, order => order != .gt
  | greater, order => order == .gt
  | greaterOrEqual, order => order != .lt

end CompareOp

/-- The ways to join truth values. -/
inductive ConjunctionOp
  /-- All hold. -/
  | and
  /-- Some holds. -/
  | or
deriving DecidableEq

/-- The word between the operands. -/
def ConjunctionOp.text : ConjunctionOp → String
  | and => "AND"
  | or => "OR"

/-- An expression over the columns of a row. -/
inductive Expression
  /-- An output column of an operator. -/
  | column (binding : ColumnBinding) (type : LogicalType)
  /-- A position of the row. -/
  | reference (position : Nat) (type : LogicalType)
  /-- A value. -/
  | constant (value : Value) (type : LogicalType)
  /-- The call of a function. -/
  | call (function : Signature) (arguments : List Expression)
  /-- The comparison of two values. -/
  | comparison (op : CompareOp) (left right : Expression)
  /-- Truth values joined. -/
  | conjunction (op : ConjunctionOp) (operands : List Expression)
  /-- The opposite of a truth value. -/
  | negation (operand : Expression)
  /-- The operand has no value. -/
  | isNull (operand : Expression)
  /-- The operand has a value. -/
  | isNotNull (operand : Expression)

namespace Expression

/-- A constant with the type of its value; a null counts as a whole number. -/
def ofValue (value : Value) : Expression := .constant value (value.type?.getD .bigint)

/-- The type of an expression. -/
def type : Expression → LogicalType
  | column _ type | reference _ type | constant _ type => type
  | call function _ => function.returnType
  | comparison .. | conjunction .. | negation _ | isNull _ | isNotNull _ => .boolean

/-- The expressions directly below, from left to right. -/
def children : Expression → List Expression
  | column .. | reference .. | constant .. => []
  | call _ arguments => arguments
  | comparison _ left right => [left, right]
  | conjunction _ operands => operands
  | negation operand | isNull operand | isNotNull operand => [operand]

/-- The expression with the expressions directly below replaced in turn by those of the list; one
that the list is too short for stays. -/
def withChildren (e : Expression) (es : List Expression) : Expression :=
  match e with
  | column binding type => .column binding type
  | reference position type => .reference position type
  | constant value type => .constant value type
  | call function arguments => .call function (arguments.mapIdx fun i a => es[i]?.getD a)
  | comparison op left right => .comparison op (es[0]?.getD left) (es[1]?.getD right)
  | conjunction op operands => .conjunction op (operands.mapIdx fun i a => es[i]?.getD a)
  | negation operand => .negation (es[0]?.getD operand)
  | isNull operand => .isNull (es[0]?.getD operand)
  | isNotNull operand => .isNotNull (es[0]?.getD operand)

mutual

/-- No function in the expression is volatile. -/
def isConsistent : Expression → Bool
  | column .. | reference .. | constant .. => true
  | call function arguments => !function.volatile && allConsistent arguments
  | comparison _ left right => left.isConsistent && right.isConsistent
  | conjunction _ operands => allConsistent operands
  | negation operand | isNull operand | isNotNull operand => operand.isConsistent

/-- No function in any of the expressions is volatile. -/
def allConsistent : List Expression → Bool
  | [] => true
  | e :: rest => e.isConsistent && allConsistent rest

end

mutual

/-- The expression reads no column and no function in it is volatile. -/
def isFoldable : Expression → Bool
  | column .. | reference .. => false
  | constant .. => true
  | call function arguments => !function.volatile && allFoldable arguments
  | comparison _ left right => left.isFoldable && right.isFoldable
  | conjunction _ operands => allFoldable operands
  | negation operand | isNull operand | isNotNull operand => operand.isFoldable

/-- Every one of the expressions is foldable. -/
def allFoldable : List Expression → Bool
  | [] => true
  | e :: rest => e.isFoldable && allFoldable rest

end

mutual

/-- The bindings that the expression reads, from left to right. -/
def columnBindings : Expression → List ColumnBinding
  | column binding _ => [binding]
  | reference .. | constant .. => []
  | call _ arguments => columnBindingsOfAll arguments
  | comparison _ left right => left.columnBindings ++ right.columnBindings
  | conjunction _ operands => columnBindingsOfAll operands
  | negation operand | isNull operand | isNotNull operand => operand.columnBindings

/-- The bindings that any of the expressions reads, from left to right. -/
def columnBindingsOfAll : List Expression → List ColumnBinding
  | [] => []
  | e :: rest => e.columnBindings ++ columnBindingsOfAll rest

end

mutual

/-- The expression with every column binding replaced, from left to right. -/
def mapColumns {m : Type → Type} [Monad m]
    (replace : ColumnBinding → LogicalType → m Expression) : Expression → m Expression
  | column binding type => replace binding type
  | reference position type => return .reference position type
  | constant value type => return .constant value type
  | call function arguments => return .call function (← mapColumnsOfAll replace arguments)
  | comparison op left right =>
    return .comparison op (← left.mapColumns replace) (← right.mapColumns replace)
  | conjunction op operands => return .conjunction op (← mapColumnsOfAll replace operands)
  | negation operand => return .negation (← operand.mapColumns replace)
  | isNull operand => return .isNull (← operand.mapColumns replace)
  | isNotNull operand => return .isNotNull (← operand.mapColumns replace)

/-- The expressions with every column binding replaced, from left to right. -/
def mapColumnsOfAll {m : Type → Type} [Monad m]
    (replace : ColumnBinding → LogicalType → m Expression) : List Expression → m (List Expression)
  | [] => return []
  | e :: rest => return (← e.mapColumns replace) :: (← mapColumnsOfAll replace rest)

end

mutual

/-- The expression with every reference to a position replaced. -/
def replaceReference (e : Expression) (position : Nat) (replacement : Expression) : Expression :=
  match e with
  | column binding type => .column binding type
  | reference current type =>
    if current = position then replacement else .reference current type
  | constant value type => .constant value type
  | call function arguments =>
    .call function (replaceReferenceInAll arguments position replacement)
  | comparison op left right =>
    .comparison op (left.replaceReference position replacement)
      (right.replaceReference position replacement)
  | conjunction op operands =>
    .conjunction op (replaceReferenceInAll operands position replacement)
  | negation operand => .negation (operand.replaceReference position replacement)
  | isNull operand => .isNull (operand.replaceReference position replacement)
  | isNotNull operand => .isNotNull (operand.replaceReference position replacement)

/-- The expressions with every reference to a position replaced. -/
def replaceReferenceInAll (es : List Expression) (position : Nat) (replacement : Expression) :
    List Expression :=
  match es with
  | [] => []
  | e :: rest =>
    e.replaceReference position replacement :: replaceReferenceInAll rest position replacement

end

mutual

/-- Two expressions are built alike and have the same constants, numbers numerically. -/
def equiv : Expression → Expression → Bool
  | column a s, column b t => a == b && s == t
  | reference a s, reference b t => a == b && s == t
  | constant a s, constant b t => a == b && s == t
  | call f as, call g bs => f == g && equivAll as bs
  | comparison o a b, comparison p c d => o == p && a.equiv c && b.equiv d
  | conjunction o as, conjunction p bs => o == p && equivAll as bs
  | negation a, negation b => a.equiv b
  | isNull a, isNull b => a.equiv b
  | isNotNull a, isNotNull b => a.equiv b
  | _, _ => false

/-- Two lists of expressions are the same place by place. -/
def equivAll : List Expression → List Expression → Bool
  | [], [] => true
  | a :: as, b :: bs => a.equiv b && equivAll as bs
  | _, _ => false

end

instance : BEq Expression := ⟨equiv⟩

mutual

/-- The expression as plans show it. -/
def text : Expression → String
  | column binding _ => s!"#[{binding.table}.{binding.column}]"
  | reference position _ => s!"#{position}"
  | constant value _ => value.text
  | call function arguments => function.name ++ "(" ++ ", ".intercalate (textOfAll arguments) ++ ")"
  | comparison op left right => "(" ++ left.text ++ " " ++ op.symbol ++ " " ++ right.text ++ ")"
  | conjunction op operands =>
    "(" ++ (" " ++ op.text ++ " ").intercalate (textOfAll operands) ++ ")"
  | negation operand => "(NOT " ++ operand.text ++ ")"
  | isNull operand => "(" ++ operand.text ++ " IS NULL)"
  | isNotNull operand => "(" ++ operand.text ++ " IS NOT NULL)"

/-- The expressions as plans show them. -/
def textOfAll : List Expression → List String
  | [] => []
  | e :: rest => e.text :: textOfAll rest

end

/-- The expression with each column binding replaced by its position among the given bindings, so
that it reads their row. -/
def bind (bindings : List ColumnBinding) (e : Expression) : Except Error Expression :=
  e.mapColumns fun binding type =>
    match bindings.idxOf? binding with
    | some position => .ok (.reference position type)
    | none => .error (.unboundColumn binding.table binding.column)

end Expression

end SpatialIndex
