import SpatialIndex.Plan.IndexAccess

/-!
# Planners

A planner applies its rules to a plan, each once, in order.
-/

namespace SpatialIndex

/-- The rules of planning. -/
inductive Rule
  /-- Turns sequential scans into index scans. -/
  | indexScan
deriving DecidableEq

/-- The name of a rule. -/
def Rule.name : Rule → String
  | indexScan => "rtree_index_scan"

/-- A planner with its rules. -/
structure Planner where
  /-- The settings it was made with. -/
  config : Config
  /-- Its rules in order. -/
  rules : List Rule

namespace Planner

/-- The planner for a catalog, with the rules that its settings enable. -/
def ofCatalog (c : Catalog) : Planner :=
  ⟨c.config, if c.config.enableIndexScan then [.indexScan] else []⟩

/-- The plan that the rules make of a plan, or the first failure. -/
def optimize (planner : Planner) (c : Catalog) (plan : Plan) : Except Error Plan :=
  planner.rules.foldlM (fun plan rule =>
    match rule with
    | .indexScan =>
      let (turned, outcome) := plan.useIndexes c c.functions
      outcome.map fun () => turned) plan

end Planner

end SpatialIndex
