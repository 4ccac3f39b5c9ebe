import SpatialIndex.Expression.Evaluate

/-!
# Filters on one column

A scan can carry filters, each on one column.  A filter that is an arbitrary expression reads its
column as position zero.
-/

namespace SpatialIndex

/-- A condition on the values of one column. -/
inductive TableFilter
  /-- The value compares with a constant. -/
  | comparison (op : CompareOp) (constant : Value)
  /-- The value is missing. -/
  | isNull
  /-- The value is not missing. -/
  | isNotNull
  /-- All of the conditions hold. -/
  | all (filters : List TableFilter)
  /-- An expression over position zero holds. -/
  | expression (predicate : Expression)

namespace TableFilter

/-- The filter is an arbitrary expression. -/
def isExpression : TableFilter → Bool
  | expression _ => true
  | _ => false

mutual

/-- The filter as a predicate over the given column. -/
def toExpression (column : Expression) : TableFilter → Expression
  | comparison op constant => .comparison op column (.ofValue constant)
  | isNull => .isNull column
  | isNotNull => .isNotNull column
  | all filters => .conjunction .and (toExpressions column filters)
  | expression predicate => predicate.replaceReference 0 column

/-- The filters as predicates over the given column. -/
def toExpressions (column : Expression) : List TableFilter → List Expression
  | [] => []
  | filter :: rest => filter.toExpression column :: toExpressions column rest

end

mutual

/-- Two filters are built alike and have the same constants. -/
def equiv : TableFilter → TableFilter → Bool
  | comparison o a, comparison p b => o == p && a == b
  | isNull, isNull => true
  | isNotNull, isNotNull => true
  | all as, all bs => equivAll as bs
  | expression a, expression b => a == b
  | _, _ => false

/-- Two lists of filters are the same place by place. -/
def equivAll : List TableFilter → List TableFilter → Bool
  | [], [] => true
  | a :: as, b :: bs => a.equiv b && equivAll as bs
  | _, _ => false

end

instance : BEq TableFilter := ⟨equiv⟩

mutual

/-- The filter as plans show it, without its column. -/
def text : TableFilter → String
  | comparison op constant => op.symbol ++ " " ++ constant.text
  | isNull => "IS NULL"
  | isNotNull => "IS NOT NULL"
  | all filters => " AND ".intercalate (textOfAll filters)
  | expression predicate => predicate.text

/-- The filters as plans show them. -/
def textOfAll : List TableFilter → List String
  | [] => []
  | filter :: rest => filter.text :: textOfAll rest

end

end TableFilter

end SpatialIndex
