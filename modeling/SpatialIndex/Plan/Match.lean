import SpatialIndex.Expression.Basic

/-!
# Predicates that an index can serve

A predicate can be served when it is the call of a spatial relation on two shapes, one of which is
the key of the index and the other of which can be evaluated without a row.
-/

namespace SpatialIndex

/-- A predicate that an index can serve. -/
structure RelationMatch where
  /-- The relation. -/
  relation : SpatialRelation
  /-- Which argument is the key, the first or the second. -/
  keyPosition : Nat
  /-- The other argument. -/
  constant : Expression

/-- The relation that a call decides, if it is a call of a relation on two shapes. -/
def SpatialRelation.ofSignature? (function : Signature) : Option SpatialRelation :=
  match ofName? function.name with
  | some relation =>
    if !function.volatile && function.returnType = .boolean &&
        function.arguments = [.geometry, .geometry] then some relation
    else none
  | none => none

/-- How an index with the given key can serve a predicate.  The key is looked for in the first
argument, then in the second. -/
def matchRelation? (key : Expression) : Expression → Option RelationMatch
  | .call function [left, right] =>
    match SpatialRelation.ofSignature? function with
    | some relation =>
      if left.type = .geometry ∧ right.type = .geometry then
        if left == key && right.isFoldable then some ⟨relation, 0, right⟩
        else if right == key && left.isFoldable then some ⟨relation, 1, left⟩
        else none
      else none
    | none => none
  | _ => none

end SpatialIndex
