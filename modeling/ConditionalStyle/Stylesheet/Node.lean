import ConditionalStyle.Text.Literal

/-!
# Stylesheet trees

A stylesheet is a tree of rules, declarations and value components. Two constructs are decided only
when the stylesheet is used: the branches of a conditional block, and values computed by an
expression. Every list of a tree may hold nodes of every kind; only trees read from a text are
known to be regular.

## Main definitions

* `Branch`: the kinds of branches.
* `Node`: the trees.
* `Node.Kind`: the kinds of nodes, and `Node.Kind.ancestry`, the kinds that a kind belongs to.
* `Node.children`: the nodes directly below a node.
* `dotPathExpression`: the expression that a path with its two affixes stands for.
* `Node.selectors?`, `Node.name?` and their like: the fields of a node, where it has them.
-/

namespace ConditionalStyle.Stylesheet

/-- The branches of a conditional block: `@if`, `@elseif` and `@else`. -/
inductive Branch where
  | ifTrue
  | elseIf
  | otherwise
deriving DecidableEq, Repr

/-- The keyword of a branch. -/
def Branch.keyword : Branch → String
  | .ifTrue => "if"
  | .elseIf => "elseif"
  | .otherwise => "else"

/-- A tree. An at-rule has a body of rules, a body of declarations, or none; where both are given
the rules count. The last two constructors are nodes without any content. -/
inductive Node where
  | stylesheet (body : List Node)
  | ruleset (selectors : List String) (declarations : List Node)
  | atRule (name params : String) (rules declarations : Option (List Node))
  | declaration (property : String) (values : List Node) (important : Bool)
  | literal (text : String)
  | operator (text : String)
  | function (name : String) (args : List Node)
  | runtime (expression : String)
  | dotPath (path : String) (after before : Option String)
  | conditionalBlock (branches : List Node)
  | conditionalRule (branch : Branch) (condition : Option String) (body : List Node)
  | blankValue
  | blank
deriving Repr

/-- The kinds of nodes. -/
inductive Node.Kind where
  | stylesheet
  | ruleset
  | atRule
  | declaration
  | literal
  | operator
  | function
  | runtime
  | dotPath
  | conditionalBlock
  | conditionalRule
  | blankValue
  | blank
deriving DecidableEq, Repr

namespace Node.Kind

/-- The name of a kind in messages. -/
def typeName : Node.Kind → String
  | .stylesheet => "StylesheetNode"
  | .ruleset => "RulesetNode"
  | .atRule => "AtRuleNode"
  | .declaration => "DeclarationNode"
  | .literal => "LiteralValue"
  | .operator => "OperatorValue"
  | .function => "FunctionValue"
  | .runtime => "RuntimeExpressionValue"
  | .dotPath => "DotPathValue"
  | .conditionalBlock => "ConditionalBlockNode"
  | .conditionalRule => "ConditionalRuleNode"
  | .blankValue => "ValueNode"
  | .blank => "StyleNode"

/-- Whether nodes of the kind are components of a value. -/
def isValue : Node.Kind → Bool
  | .literal | .operator | .function | .runtime | .dotPath | .blankValue => true
  | _ => false

/-- The kinds that a kind belongs to, the narrowest first: itself, then the kind of all values if it
is one of them, then the kind of all nodes. -/
def ancestry (k : Node.Kind) : List Node.Kind :=
  match k with
  | .blank => [.blank]
  | .blankValue => [.blankValue, .blank]
  | k => if k.isValue then [k, .blankValue, .blank] else [k, .blank]

end Node.Kind

namespace Node

/-- The kind of a node. -/
def kind : Node → Node.Kind
  | .stylesheet .. => .stylesheet
  | .ruleset .. => .ruleset
  | .atRule .. => .atRule
  | .declaration .. => .declaration
  | .literal .. => .literal
  | .operator .. => .operator
  | .function .. => .function
  | .runtime .. => .runtime
  | .dotPath .. => .dotPath
  | .conditionalBlock .. => .conditionalBlock
  | .conditionalRule .. => .conditionalRule
  | .blankValue => .blankValue
  | .blank => .blank

/-- The nodes directly below a node, in order. -/
def children : Node → List Node
  | .stylesheet body => body
  | .ruleset _ declarations => declarations
  | .atRule _ _ (some rules) _ => rules
  | .atRule _ _ none (some declarations) => declarations
  | .atRule _ _ none none => []
  | .declaration _ values _ => values
  | .function _ args => args
  | .conditionalBlock branches => branches
  | .conditionalRule _ _ body => body
  | .literal _ | .operator _ | .runtime _ | .dotPath .. | .blankValue | .blank => []

/-- Whether a node separates value components. -/
def isOperator : Node → Bool
  | .operator _ => true
  | _ => false

end Node

/-- A quoted affix, unless it is absent or empty. -/
def affix : Option String → List String
  | none => []
  | some s => if s.isEmpty then [] else [Text.quote s]

/-- The sum of the text before a path, the path itself, and the text after it. -/
def dotPathExpression (path : String) (after before : Option String) : String :=
  " + ".intercalate (affix before ++ path :: affix after)

/-! ### Fields

Whoever handles a node asks it for its fields by their names. A name may be that of fields of several
kinds of nodes.
-/

namespace Node

/-- The field `selectors`. -/
def selectors? : Node → Option (List String)
  | .ruleset selectors _ => some selectors
  | _ => none

/-- The field `name`. -/
def name? : Node → Option String
  | .atRule name _ _ _ | .function name _ => some name
  | _ => none

/-- The field `params`. -/
def params? : Node → Option String
  | .atRule _ params _ _ => some params
  | _ => none

/-- The field `rules`, which may be left open. -/
def rules? : Node → Option (Option (List Node))
  | .atRule _ _ rules _ => some rules
  | .conditionalBlock branches => some (some branches)
  | _ => none

/-- The field `declarations`, which may be left open. -/
def declarations? : Node → Option (Option (List Node))
  | .ruleset _ declarations => some (some declarations)
  | .atRule _ _ _ declarations => some declarations
  | _ => none

/-- The field `property`. -/
def property? : Node → Option String
  | .declaration property _ _ => some property
  | _ => none

/-- The field `important`. -/
def important? : Node → Option Bool
  | .declaration _ _ important => some important
  | _ => none

/-- The field `text`. -/
def text? : Node → Option String
  | .literal text | .operator text => some text
  | _ => none

/-- The field `expression`. -/
def expression? : Node → Option String
  | .runtime expression => some expression
  | .dotPath path after before => some (dotPathExpression path after before)
  | _ => none

/-- The fields `kind` and `condition`. -/
def branch? : Node → Option (Branch × Option String)
  | .conditionalRule branch condition _ => some (branch, condition)
  | _ => none

end Node

/-- The wording of the error for a node that is asked for a field it does not have. -/
def missingField (kind : Node.Kind) (field : String) : String :=
  s!"'{kind.typeName}' object has no attribute '{field}'"

end ConditionalStyle.Stylesheet
