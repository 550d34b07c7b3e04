import ConditionalStyle.Stylesheet.Node

/-!
# Chains of branches

A conditional block is a chain of branches: one `@if`, any number of `@elseif`, and perhaps one
`@else` at the end. All but the last kind have a condition that is not empty; an `@else` has none.

## Main definitions

* `ChainError`: what can be wrong with a chain.
* `checkBranches`, `checkChain`: find the first fault of a chain.
* `checkBlock`: the same for the chain that a node has.
-/

namespace ConditionalStyle.Assembly

open Stylesheet

/-- What can be wrong with a chain. -/
inductive ChainError where
  | noBranches
  | startsWith (branch : Branch)
  | laterIf
  | elseNotLast
  | elseCondition
  | noCondition (branch : Branch)
  /-- A member of the chain is no branch but a node of this kind. -/
  | notBranch (kind : Node.Kind)
  /-- What is to be a block is a node of this kind, which has no branches. -/
  | notBlock (kind : Node.Kind)
deriving DecidableEq, Repr

/-- The wording of an error. -/
def ChainError.message : ChainError → String
  | .noBranches => "Conditional block has no rules"
  | .startsWith b => s!"Conditional block must start with @if, got @{b.keyword}"
  | .laterIf => "@if can only start a conditional block"
  | .elseNotLast => "@else must be the last rule of a conditional block"
  | .elseCondition => "@else cannot have a condition"
  | .noCondition b => s!"@{b.keyword} requires a runtime condition"
  | .notBranch k => missingField k "kind"
  | .notBlock k => missingField k "rules"

/-- Whether a condition is given and not empty. -/
def hasCondition : Option String → Bool
  | none => false
  | some c => !c.isEmpty

/-- Checks a branch: whether it is the first and whether it is the last of its chain is given. -/
def checkBranch (isFirst isLast : Bool) (branch : Branch) (condition : Option String) :
    Except ChainError Unit :=
  if isFirst && branch != .ifTrue then .error (.startsWith branch)
  else if !isFirst && branch == .ifTrue then .error .laterIf
  else if branch == .otherwise then
    if !isLast then .error .elseNotLast
    else if condition.isSome then .error .elseCondition
    else .ok ()
  else if hasCondition condition then .ok ()
  else .error (.noCondition branch)

/-- Checks branches one after the other; whether the first of them starts the chain is given. -/
def checkBranches (isFirst : Bool) : List Node → Except ChainError Unit
  | [] => .ok ()
  | .conditionalRule branch condition _ :: rest =>
    match checkBranch isFirst rest.isEmpty branch condition with
    | .error e => .error e
    | .ok () => checkBranches false rest
  | n :: _ => .error (.notBranch n.kind)

/-- Checks a chain of branches. -/
def checkChain : List Node → Except ChainError Unit
  | [] => .error .noBranches
  | n :: rest => checkBranches true (n :: rest)

/-- Checks the chain of a node. The rules of an at-rule are taken for one, too. -/
def checkBlock (n : Node) : Except ChainError Unit :=
  match n.rules? with
  | some rules => checkChain (rules.getD [])
  | none => .error (.notBlock n.kind)

end ConditionalStyle.Assembly
