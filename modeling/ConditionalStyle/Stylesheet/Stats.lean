import ConditionalStyle.Stylesheet.Walk

/-!
# Statistics of a stylesheet

What a stylesheet leaves to be decided when it is used: how many conditional blocks and branches,
how deeply they are nested, how many run-time values, and which conditions.

## Main definitions

* `Stats`: the statistics.
* `Stats.ofTree`: the statistics of a tree.
-/

namespace ConditionalStyle.Stylesheet

/-- The statistics of a tree. Conditions are listed once each, in the order they first occur. -/
structure Stats where
  conditionalBlocks : Nat
  conditionalRules : Nat
  maxConditionalDepth : Nat
  runtimeValues : Nat
  conditions : List String
deriving DecidableEq, Repr

namespace Stats

/-- Nothing counted. -/
def zero : Stats := ⟨0, 0, 0, 0, []⟩

/-- The state of counting: the counts so far and the number of blocks that are open. -/
structure Tally where
  stats : Stats
  depth : Nat
deriving DecidableEq, Repr

/-- Counting actions, which never fail. -/
abbrev Count (α : Type) := Visit Tally Empty α

/-- Counts a block and opens it. -/
def enterBlock (_ : Node) : Count Bool := do
  modify fun t =>
    { stats := { t.stats with
        conditionalBlocks := t.stats.conditionalBlocks + 1
        maxConditionalDepth := max t.stats.maxConditionalDepth (t.depth + 1) }
      depth := t.depth + 1 }
  return true

/-- Closes a block. -/
def leaveBlock (_ : Node) : Count Unit :=
  modify fun t => { t with depth := t.depth - 1 }

/-- Adds a condition, unless there is none or it is listed already. -/
def addCondition (conditions : List String) : Option String → List String
  | none => conditions
  | some c => if conditions.contains c then conditions else conditions ++ [c]

/-- The condition of a branch. -/
def conditionOf : Node → Option String
  | .conditionalRule _ c _ => c
  | _ => none

/-- Counts a branch and notes its condition. -/
def enterRule (n : Node) : Count Bool := do
  modify fun t =>
    { t with stats := { t.stats with
        conditionalRules := t.stats.conditionalRules + 1
        conditions := addCondition t.stats.conditions (conditionOf n) } }
  return true

/-- Counts a run-time value. -/
def enterValue (_ : Node) : Count Bool := do
  modify fun t =>
    { t with stats := { t.stats with runtimeValues := t.stats.runtimeValues + 1 } }
  return false

/-- The handlers of counting. -/
def handlers : Registry Tally Empty :=
  Registry.empty.registerAll [
    ⟨.conditionalBlock, some enterBlock, some leaveBlock⟩,
    ⟨.conditionalRule, some enterRule, none⟩,
    ⟨.runtime, some enterValue, none⟩,
    ⟨.dotPath, some enterValue, none⟩]

/-- The statistics of a tree. -/
def ofTree (n : Node) : Stats :=
  match (walk handlers n).run ⟨zero, 0⟩ with
  | .ok _ t => t.stats
  | .error e _ => nomatch e

end Stats

end ConditionalStyle.Stylesheet
