import SpatialIndex.Expression.Basic

/-!
# Values of expressions

Truth values are joined with three values: null stands for an unknown truth value.  Operands are
evaluated from left to right up to the first that decides the outcome, so a later one may fail
unnoticed.
-/

namespace SpatialIndex

namespace ConjunctionOp

/-- The truth value that decides a conjunction by itself. -/
def deciding : ConjunctionOp → Bool
  | and => false
  | or => true

end ConjunctionOp

/-- The value at a position of a row. -/
def valueAt (row : Row) (position : Nat) : Except Error Value :=
  match row[position]? with
  | some value => .ok value
  | none => .error (.positionOutOfRange position row.length)

/-- The outcome of comparing two values; null if either is. -/
def compareValues (op : CompareOp) (left right : Value) : Except Error Value :=
  if left.isNull || right.isNull then .ok .null
  else
    match left.compare? right with
    | some order => .ok (.boolean (op.holds order))
    | none => .error (.incomparable left right)

/-- The opposite of a truth value; null for null. -/
def negateValue : Value → Except Error Value
  | .null => .ok .null
  | .boolean b => .ok (.boolean !b)
  | value => .error (.negandNotBoolean value)

namespace Expression

variable (registry : Registry) (row : Row)

mutual

/-- The value of an expression on a row.  A binding reads the column of its number. -/
def evaluate : Expression → Except Error Value
  | column binding _ => valueAt row binding.column
  | reference position _ => valueAt row position
  | constant value _ => .ok value
  | call function arguments => do
    let values ← evaluateAll arguments
    registry.invoke function.name values
  | comparison op left right => do
    let left ← evaluate left
    let right ← evaluate right
    compareValues op left right
  | conjunction op operands => evaluateConjunction op false operands
  | negation operand => do
    let value ← evaluate operand
    negateValue value
  | isNull operand => do
    let value ← evaluate operand
    return .boolean value.isNull
  | isNotNull operand => do
    let value ← evaluate operand
    return .boolean !value.isNull

/-- The values of expressions from left to right. -/
def evaluateAll : List Expression → Except Error (List Value)
  | [] => .ok []
  | e :: rest => do
    let value ← evaluate e
    let values ← evaluateAll rest
    return value :: values

/-- The joined truth value of operands, of which some before were null or not. -/
def evaluateConjunction (op : ConjunctionOp) (sawNull : Bool) :
    List Expression → Except Error Value
  | [] => .ok (if sawNull then .null else .boolean !op.deciding)
  | e :: rest => do
    match ← evaluate e with
    | .boolean b =>
      if b = op.deciding then return .boolean b
      evaluateConjunction op sawNull rest
    | .null => evaluateConjunction op true rest
    | value => throw (.operandNotBoolean value)

end

/-- Whether a row passes a predicate; null does not pass. -/
def passes (predicate : Expression) : Except Error Bool := do
  match ← predicate.evaluate registry row with
  | .boolean b => return b
  | .null => return false
  | value => throw (.predicateNotBoolean value)

/-- Whether a row passes all predicates, tried one after the other up to the first that it does
not pass. -/
def passesAll : List Expression → Except Error Bool
  | [] => .ok true
  | predicate :: rest => do
    if ← predicate.passes registry row then passesAll rest else return false

end Expression

end SpatialIndex
