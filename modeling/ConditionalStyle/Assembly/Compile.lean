import ConditionalStyle.Assembly.Chain
import ConditionalStyle.Assembly.Fragment
import ConditionalStyle.Settings.Options
import ConditionalStyle.Stylesheet.Compact
import ConditionalStyle.Stylesheet.Parser

/-!
# Compiling a stylesheet

A stylesheet is compiled by a walk that prints its plain parts and appends fragments: the printed
text becomes a literal whenever a branch or a run-time value comes up. Every conditional block is a
group of its own, and a group is also broken when its chain of `+` has reached the limit.

The walk appends fragments without looking back; which of them are kept is settled by `prune`.

## Main definitions

* `Session`: the state of a compiler.
* `CompileError`: why a tree cannot be compiled.
* `Session.handlers`: what is done at which node.
* `Session.compile`, `compileTree`: the expression of a tree.
-/

namespace ConditionalStyle.Assembly

open Stylesheet

/-- The state of a compiler: all fragments appended so far, newest first; for each open block, the
innermost first, whether its `@else` has been seen; how many sums the current chain has; and the
printer of the plain parts. -/
structure Session where
  appended : List Fragment
  elseSeen : List Bool
  concatenations : Nat
  printer : Printer

/-- Why a tree cannot be compiled. -/
inductive CompileError where
  | chain (error : ChainError)
  | print (error : PrintError)
  /-- A branch that belongs to no open block. -/
  | outsideBlock
  /-- Blocks that were entered and never left. -/
  | leftOpen (blocks : Nat)
  /-- A condition that was never given. -/
  | missingText
  /-- A node of this kind, which has no expression, where a run-time value is to be. -/
  | notRuntime (kind : Node.Kind)
deriving DecidableEq, Repr

/-- The wording of an error. -/
def CompileError.message : CompileError → String
  | .chain e => e.message
  | .print e => e.message
  | .outsideBlock => "Conditional rule visited outside of a conditional block"
  | .leftOpen n => s!"{n} conditional block(s) left open"
  | .missingText => "expected str instance, NoneType found"
  | .notRuntime k => missingField k "expression"

namespace Session

/-- A compiler that has done nothing. -/
def start : Session := ⟨[], [], 0, .start⟩

/-- Compiling actions. -/
abbrev Compile (α : Type) := Visit Session CompileError α

/-- The fragments kept so far, newest first. -/
def kept (s : Session) : List Fragment :=
  prune s.appended

/-- The text of the fragments kept so far. -/
def text? (s : Session) : Option String :=
  joinText? s.kept

/-- The number of group breaks kept so far. -/
def groupBreaks (s : Session) : Nat :=
  count .groupBreak s.kept

/-- A printing action as a compiling one. -/
def onPrinter {α : Type} (action : Printer.Print α) : Compile α := fun s =>
  match action s.printer with
  | .ok a p => .ok a { s with printer := p }
  | .error e p => .error (.print e) { s with printer := p }

/-- Appends a fragment. -/
def append (f : Fragment) : Compile Unit :=
  modify fun s => { s with appended := f :: s.appended }

/-- Starts a new chain. -/
def startChain : Compile Unit :=
  modify fun s => { s with concatenations := 0 }

/-- Appends what has been printed as a literal. -/
def flush : Compile Unit := do
  let text ← onPrinter Printer.flush
  append (.literal (Text.quote text))

/-- Appends the sum of the chain so far and what follows: within the group as long as the limit is
not reached, else by breaking the group. -/
def appendSum (limit : Nat) : Compile Unit := do
  let n := (← get).concatenations
  if limit ≤ n then
    append (.fixed .groupBreak)
    startChain
  else
    append (.fixed .plus)
    modify fun s => { s with concatenations := n + 1 }

/-! ### Handlers -/

/-- Opens the expression. -/
def enterTree (_ : Node) : Compile Bool := do
  append (.fixed .opening)
  return true

/-- Closes the expression. -/
def leaveTree (_ : Node) : Compile Unit := do
  flush
  append (.fixed .closing)

/-- Checks the chain of a block and begins its group. -/
def enterBlock (n : Node) : Compile Bool := do
  match checkBlock n with
  | .error e => throw (.chain e)
  | .ok () =>
    flush
    append (.fixed .groupBreak)
    modify fun s => { s with elseSeen := false :: s.elseSeen, concatenations := 0 }
    return true

/-- Ends the group of a block. A block without `@else` stands for nothing when no condition
holds. -/
def leaveBlock (_ : Node) : Compile Unit := do
  match (← get).elseSeen with
  | [] => throw .outsideBlock
  | seen :: outer =>
    modify fun s => { s with elseSeen := outer }
    if !seen then append (.literal (Text.quote ""))
    append (.fixed .groupBreak)
    startChain

/-- Opens a branch, after its condition if it is not the `@else`. -/
def enterRule (n : Node) : Compile Bool := do
  match n.branch? with
  | none => throw (.chain (.notBranch n.kind))
  | some (branch, condition) =>
    match (← get).elseSeen with
    | [] => throw .outsideBlock
    | _ :: outer =>
      if branch = .otherwise then
        modify fun s => { s with elseSeen := true :: outer }
        append (.fixed .opening)
      else
        append (.fixed .opening)
        append (.raw condition)
        append (.fixed .question)
        startChain
      return true

/-- Closes a branch. -/
def leaveRule (n : Node) : Compile Unit := do
  flush
  append (.fixed .closing)
  match n.branch? with
  | none => throw (.chain (.notBranch n.kind))
  | some (branch, _) => if branch ≠ .otherwise then append (.fixed .colon)

/-- Takes the expression of a run-time value over as a term of the chain. -/
def enterValue (limit : Nat) (n : Node) : Compile Bool := do
  onPrinter (Printer.beginValue n)
  match n.expression? with
  | none => throw (.notRuntime n.kind)
  | some expression =>
    flush
    appendSum limit
    append (.raw (some ("(" ++ expression ++ ")")))
    appendSum limit
    onPrinter (Printer.endValue n)
    return false

/-- A handler of the printer as one of the compiler. -/
def liftHandler (h : Handler Printer PrintError) : Handler Session CompileError :=
  ⟨h.kind, h.enter.map fun f n => onPrinter (f n), h.leave.map fun f n => onPrinter (f n)⟩

/-- The handlers of a compiler: those of the printer, but for the whole, for blocks and branches, and
for run-time values. -/
def handlers (limit : Nat) : Registry Session CompileError :=
  Registry.registerAll ⟨Printer.handlers.handlers.map liftHandler⟩ [
    ⟨.stylesheet, some enterTree, some leaveTree⟩,
    ⟨.conditionalBlock, some enterBlock, some leaveBlock⟩,
    ⟨.conditionalRule, some enterRule, some leaveRule⟩,
    ⟨.runtime, some (enterValue limit), none⟩,
    ⟨.dotPath, some (enterValue limit), none⟩]

/-- Compiles a tree from the start. -/
def compile (limit : Nat) (n : Node) : Compile String := do
  set start
  walk (handlers limit) n
  let s ← get
  match s.elseSeen with
  | [] =>
    match s.text? with
    | some text => return text
    | none => throw .missingText
  | open_ => throw (.leftOpen open_.length)

end Session

/-- A compiled tree: its expression and the number of group breaks in it. -/
structure Compiled where
  expression : String
  groupBreaks : Nat
deriving DecidableEq, Repr

/-- The expression of a tree. -/
def compileTree (options : Settings.Options) (n : Node) : Except CompileError Compiled :=
  match (Session.compile options.concatLimit n).run .start with
  | .ok text s => .ok ⟨text, s.groupBreaks⟩
  | .error e _ => .error e

end ConditionalStyle.Assembly
