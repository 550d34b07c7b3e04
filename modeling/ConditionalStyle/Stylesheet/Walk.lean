import ConditionalStyle.Stylesheet.Node

/-!
# Walking over a tree

A walk visits the nodes of a tree depth first. Handlers, registered for kinds of nodes, act on a
state when a node is entered and when it is left. A handler that fails ends the walk and keeps the
changes made so far.

## Main definitions

* `Visit`: actions on a state that may fail.
* `Handler`, `Registry`: what is done at nodes of which kind.
* `Registry.lookup?`: the handler of the narrowest kind.
* `walk`, `walkAll`: the walk over a tree and over a list of trees.

## Main statements

* `walk_eq_visit`: a walk is a visit of the root around a walk over its children.
-/

namespace ConditionalStyle.Stylesheet

/-- An action on a state of type `σ` that may fail with an error of type `ε`. A failure keeps the
state that it was reached with. -/
abbrev Visit (σ ε α : Type) := EStateM ε σ α

/-- What is done at the nodes of a kind. Entering says whether the children are to be visited. -/
structure Handler (σ ε : Type) where
  kind : Node.Kind
  enter : Option (Node → Visit σ ε Bool)
  leave : Option (Node → Visit σ ε Unit)

/-- Handlers, at most one for each kind. -/
structure Registry (σ ε : Type) where
  handlers : List (Handler σ ε)

namespace Registry

variable {σ ε : Type}

/-- No handlers. -/
def empty : Registry σ ε := ⟨[]⟩

/-- Adds a handler in place of the one that its kind had. -/
def register (r : Registry σ ε) (h : Handler σ ε) : Registry σ ε :=
  ⟨h :: r.handlers.filter (·.kind != h.kind)⟩

/-- Adds handlers one after the other. -/
def registerAll (r : Registry σ ε) (hs : List (Handler σ ε)) : Registry σ ε :=
  hs.foldl register r

/-- The handler registered for a kind itself. -/
def own? (r : Registry σ ε) (k : Node.Kind) : Option (Handler σ ε) :=
  r.handlers.find? (·.kind == k)

/-- The handler of the narrowest kind that a kind belongs to and that has one. -/
def lookup? (r : Registry σ ε) (k : Node.Kind) : Option (Handler σ ε) :=
  k.ancestry.findSome? r.own?

/-- What is done when a node is entered. Without a handler the children are visited. -/
def enter (r : Registry σ ε) (n : Node) : Visit σ ε Bool :=
  match (r.lookup? n.kind).bind (·.enter) with
  | some f => f n
  | none => pure true

/-- What is done when a node is left. -/
def leave (r : Registry σ ε) (n : Node) : Visit σ ε Unit :=
  match (r.lookup? n.kind).bind (·.leave) with
  | some f => f n
  | none => pure ()

/-- Enters a node, visits its children if they are to be visited, and leaves the node in any
case. -/
def visit (r : Registry σ ε) (n : Node) (children : Visit σ ε Unit) : Visit σ ε Unit := do
  let descend ← r.enter n
  if descend then children
  r.leave n

end Registry

variable {σ ε : Type}

mutual

/-- The walk over a tree. -/
def walk (r : Registry σ ε) : Node → Visit σ ε Unit
  | .stylesheet body => r.visit (.stylesheet body) (walkAll r body)
  | .ruleset ss ds => r.visit (.ruleset ss ds) (walkAll r ds)
  | .atRule n p (some rules) ds => r.visit (.atRule n p (some rules) ds) (walkAll r rules)
  | .atRule n p none (some ds) => r.visit (.atRule n p none (some ds)) (walkAll r ds)
  | .atRule n p none none => r.visit (.atRule n p none none) (pure ())
  | .declaration p vs i => r.visit (.declaration p vs i) (walkAll r vs)
  | .literal t => r.visit (.literal t) (pure ())
  | .operator t => r.visit (.operator t) (pure ())
  | .function n args => r.visit (.function n args) (walkAll r args)
  | .runtime e => r.visit (.runtime e) (pure ())
  | .dotPath p a b => r.visit (.dotPath p a b) (pure ())
  | .conditionalBlock bs => r.visit (.conditionalBlock bs) (walkAll r bs)
  | .conditionalRule b c body => r.visit (.conditionalRule b c body) (walkAll r body)
  | .blankValue => r.visit .blankValue (pure ())
  | .blank => r.visit .blank (pure ())

/-- The walk over trees in a row. -/
def walkAll (r : Registry σ ε) : List Node → Visit σ ε Unit
  | [] => pure ()
  | n :: ns => do
    walk r n
    walkAll r ns

end

/-- A walk is a visit of the root around a walk over its children. -/
theorem walk_eq_visit (r : Registry σ ε) (n : Node) :
    walk r n = r.visit n (walkAll r n.children) := by
  match n with
  | .atRule _ _ (some _) _ => rw [walk, Node.children]
  | .atRule _ _ none (some _) => rw [walk, Node.children]
  | .atRule _ _ none none => rw [walk, Node.children, walkAll]
  | .stylesheet _ | .ruleset .. | .declaration .. | .function .. | .conditionalBlock _
  | .conditionalRule .. => rw [walk, Node.children]
  | .literal _ | .operator _ | .runtime _ | .dotPath .. | .blankValue | .blank =>
    rw [walk, Node.children, walkAll]

end ConditionalStyle.Stylesheet
