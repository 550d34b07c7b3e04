import ConditionalStyle.Stylesheet.Walk

/-!
# Compact printing

A plain stylesheet is printed without the blanks that it can do without. Printing is a walk whose
state is a printer: the text printed so far and two stacks that say which separator comes next.

## Main definitions

* `Printer`: the state.
* `PrintError`: why a tree cannot be printed.
* `Printer.handlers`: what is printed for which node.
* `printTree`: the text of a tree.
-/

namespace ConditionalStyle.Stylesheet

/-- The state of a printer. `firstDeclarations` says for each open body, the innermost first,
whether no declaration has been printed in it yet; `previousValues` holds for each open list of
value components the component printed last. -/
structure Printer where
  buffer : String
  firstDeclarations : List Bool
  previousValues : List (Option Node)

/-- Why a tree cannot be printed. -/
inductive PrintError where
  /-- A body or a list of components is closed or continued that was not opened. -/
  | nothingOpen
  /-- A value component without a plain form. -/
  | unprintable (kind : Node.Kind)
  /-- A conditional block or one of its branches. -/
  | conditional
  /-- A node without the field that a handler asks for. -/
  | noField (kind : Node.Kind) (field : String)
deriving DecidableEq, Repr

/-- The wording of an error. -/
def PrintError.message : PrintError → String
  | .nothingOpen => "list index out of range"
  | .unprintable k => s!"{k.typeName} cannot be printed as plain CSS"
  | .conditional => "Conditional blocks must be compiled with ExpressionCompiler"
  | .noField k field => missingField k field

namespace Printer

/-- A printer that has printed nothing. -/
def start : Printer := ⟨"", [], []⟩

/-- Printing actions. -/
abbrev Print (α : Type) := Visit Printer PrintError α

/-- Prints a text. -/
def put (text : String) : Print Unit :=
  modify fun p => { p with buffer := p.buffer ++ text }

/-- Takes the text printed so far out of the printer. -/
def flush : Print String :=
  modifyGet fun p => (p.buffer, { p with buffer := "" })

/-- Makes the printer as new. -/
def reset : Print Unit :=
  set start

/-- The field of a node, which may be of a kind that does not have it. -/
def field {α : Type} (name : String) (get? : Node → Option α) (n : Node) : Print α :=
  match get? n with
  | some a => pure a
  | none => throw (.noField n.kind name)

/-! ### Value components -/

/-- Whether two components in a row need a space between them: both exist and neither is an
operator. -/
def needsSpace (previous : Option Node) (n : Node) : Bool :=
  match previous with
  | none => false
  | some p => !p.isOperator && !n.isOperator

/-- Prints the separator before a component. -/
def beginValue (n : Node) : Print Unit := do
  match (← get).previousValues with
  | [] => throw .nothingOpen
  | previous :: _ => if needsSpace previous n then put " "

/-- Notes a component as the last one printed. -/
def endValue (n : Node) : Print Unit := do
  match (← get).previousValues with
  | [] => throw .nothingOpen
  | _ :: outer => modify fun p => { p with previousValues := some n :: outer }

/-- Opens a list of components. -/
def openValues : Print Unit :=
  modify fun p => { p with previousValues := none :: p.previousValues }

/-- Closes a list of components. -/
def closeValues : Print Unit := do
  match (← get).previousValues with
  | [] => throw .nothingOpen
  | _ :: outer => modify fun p => { p with previousValues := outer }

/-! ### Bodies -/

/-- Opens a body. -/
def openBody : Print Unit := do
  put "\x7b"
  modify fun p => { p with firstDeclarations := true :: p.firstDeclarations }

/-- Closes a body. -/
def closeBody : Print Unit := do
  match (← get).firstDeclarations with
  | [] => throw .nothingOpen
  | _ :: outer => modify fun p => { p with firstDeclarations := outer }
  put "\x7d"

/-- Prints the separator before a declaration. -/
def beginDeclaration : Print Unit := do
  match (← get).firstDeclarations with
  | [] => throw .nothingOpen
  | true :: outer => modify fun p => { p with firstDeclarations := false :: outer }
  | false :: _ => put ";"

/-! ### Handlers

A handler may be called on any node. On a node of another kind than the one it is made for it does
what it can until it asks for a field that the node does not have.
-/

/-- Goes on with the children. -/
def enterTree (_ : Node) : Print Bool :=
  return true

/-- Prints selectors and opens a body. -/
def enterRuleset (n : Node) : Print Bool := do
  put (",".intercalate (← field "selectors" Node.selectors? n))
  openBody
  return true

/-- Closes a body. -/
def leaveRuleset (_ : Node) : Print Unit :=
  closeBody

/-- Prints the head of an at-rule, and opens a body if it has one. -/
def enterAtRule (n : Node) : Print Bool := do
  put ("@" ++ (← field "name" Node.name? n))
  let params ← field "params" Node.params? n
  if !params.isEmpty then put (" " ++ params)
  let rules ← field "rules" Node.rules? n
  let declarations ← field "declarations" Node.declarations? n
  if rules.isNone && declarations.isNone then
    put ";"
    return false
  else
    openBody
    return true

/-- Closes the body of an at-rule that has one. Declarations are looked for only where no rules
are. -/
def leaveAtRule (n : Node) : Print Unit := do
  if (← field "rules" Node.rules? n).isSome then closeBody
  else if (← field "declarations" Node.declarations? n).isSome then closeBody

/-- Prints a property and opens a list of components. -/
def enterDeclaration (n : Node) : Print Bool := do
  beginDeclaration
  put ((← field "property" Node.property? n) ++ ":")
  openValues
  return true

/-- Closes the list of components of a declaration. -/
def leaveDeclaration (n : Node) : Print Unit := do
  closeValues
  if ← field "important" Node.important? n then put "!important"

/-- Prints a component that is a text. -/
def enterText (n : Node) : Print Bool := do
  beginValue n
  put (← field "text" Node.text? n)
  endValue n
  return false

/-- Prints the name of a function and opens its arguments. -/
def enterFunction (n : Node) : Print Bool := do
  beginValue n
  put ((← field "name" Node.name? n) ++ "(")
  openValues
  return true

/-- Closes the arguments of a function. -/
def leaveFunction (n : Node) : Print Unit := do
  closeValues
  put ")"
  endValue n

/-- Refuses a component without a plain form. -/
def refuseValue (n : Node) : Print Bool :=
  throw (.unprintable n.kind)

/-- Refuses a block or a branch. -/
def refuseConditional (_ : Node) : Print Bool :=
  throw .conditional

/-- The handlers of a printer. Value components without a handler of their own are refused. -/
def handlers : Registry Printer PrintError :=
  Registry.empty.registerAll [
    ⟨.stylesheet, some enterTree, none⟩,
    ⟨.ruleset, some enterRuleset, some leaveRuleset⟩,
    ⟨.atRule, some enterAtRule, some leaveAtRule⟩,
    ⟨.declaration, some enterDeclaration, some leaveDeclaration⟩,
    ⟨.literal, some enterText, none⟩,
    ⟨.operator, some enterText, none⟩,
    ⟨.function, some enterFunction, some leaveFunction⟩,
    ⟨.blankValue, some refuseValue, none⟩,
    ⟨.conditionalBlock, some refuseConditional, none⟩,
    ⟨.conditionalRule, some refuseConditional, none⟩]

/-- Prints a tree from the start. -/
def print (n : Node) : Print String := do
  reset
  walk handlers n
  flush

end Printer

/-- The compact text of a tree. -/
def printTree (n : Node) : Except PrintError String :=
  match (Printer.print n).run .start with
  | .ok text _ => .ok text
  | .error e _ => .error e

end ConditionalStyle.Stylesheet
