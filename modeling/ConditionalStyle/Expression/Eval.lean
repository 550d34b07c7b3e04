import ConditionalStyle.Expression.Host
import ConditionalStyle.Expression.Parser

/-!
# Evaluating expressions

An expression has a value in a namespace. Evaluation goes from left to right and logs all that it
asks of the host; an error keeps what was asked before it.

## Main definitions

* `Namespace`, `EvalError`.
* `Eval`: computations that ask the host and may fail.
* `toText`, `sum`: a value as texts absorb it, and the sum of two values.
* `eval`: the value of a tree.
* `evaluate`, `render`: the value of a text, and the text of that value.
-/

namespace ConditionalStyle.Expression

/-- The values of names, as the entries of a dictionary, and the host that they come from. -/
structure Namespace where
  entries : List (Value × Value)
  host : Host

/-- Why an expression has no value. Parts of the expression are named by their trees. -/
inductive EvalError where
  | unknownName (name : String)
  | noMember (target : Tree) (name : String)
  | notCallable (callee : Tree)
  | notBoolean (operator type : String) (operand : Tree)
  | unknownOperator (symbol : String)
  | cannotAdd (left right : String)
  /-- An integer too large for a double was added to a double. -/
  | tooLarge
  /-- An integer with too many digits was to be written. -/
  | tooLong
  /-- A chain without operands, which no text has. -/
  | emptyChain
  /-- The host raised an exception. -/
  | raised (exception : Exception)

/-- The wording of an error. -/
def EvalError.message : EvalError → String
  | .unknownName n => s!"Unknown name '{n}'"
  | .noMember t n => s!"'{t.text}' has no member '{n}'"
  | .notCallable t => s!"'{t.text}' is not callable"
  | .notBoolean op type t => s!"Operand of '{op}' must be boolean, got {type}: {t.text}"
  | .unknownOperator s => s!"Unknown operator '{s}'"
  | .cannotAdd l r => s!"Cannot add {l} and {r}"
  | .tooLarge => "int too large to convert to float"
  | .tooLong => Decimal.tooLongMessage Decimal.maxDigits none
  | .emptyChain => "list index out of range"
  | .raised x => x.message

/-- Computations that ask the host and may fail. The state is the log of what was asked. -/
abbrev Eval := EStateM EvalError (List Query)

/-- Asks the host and logs the query, whatever comes of it. -/
def ask (host : Host) (query : Query) : Eval query.Answer := fun log =>
  match host.answer log query with
  | .ok a => .ok a (log ++ [query])
  | .error x => .error (.raised x) (log ++ [query])

/-- The value of a number literal. -/
def Number.value : Number → Value
  | .int n => .int n
  | .float x => .float x

/-- A value as texts absorb it: texts as they are, booleans and null in the spelling of the
language, numbers in decimal. The host is asked for anything else. -/
def toText (host : Host) : Value → Eval String
  | .text s => pure s
  | .bool b => pure (if b then "true" else "false")
  | .null => pure "null"
  | .int n => if Decimal.isWritable n then pure (toString n) else throw .tooLong
  | .float x => pure (Decimal.render x)
  | v => ask host (.text v)

/-- The sum of an integer and a double, the integer rounded to a double first. -/
def addMixed (n : Int) (x : Float) (intFirst : Bool) : Eval Value :=
  match Decimal.ofInt? n with
  | some y => pure (.float (if intFirst then y + x else x + y))
  | none => throw .tooLarge

/-- The sum of two values: texts absorb what they are added to, numbers are added, and nothing else
can be added. -/
def sum (host : Host) (a b : Value) : Eval Value :=
  match a, b with
  | .text s, v => do return .text (s ++ (← toText host v))
  | v, .text s => do return .text ((← toText host v) ++ s)
  | .int m, .int n => pure (.int (m + n))
  | .int n, .float x => addMixed n x true
  | .float x, .int n => addMixed n x false
  | .float x, .float y => pure (.float (x + y))
  | a, b => throw (.cannotAdd a.typeName b.typeName)

/-- The truth value of an operand, which must be a boolean. -/
def truth (operator : String) (operand : Tree) : Value → Eval Bool
  | .bool b => pure b
  | v => throw (.notBoolean operator v.typeName operand)

/-- Whether a value is compared without the host: null, booleans, numbers and texts. -/
def isPlain : Value → Bool
  | .null | .bool _ | .int _ | .float _ | .text _ => true
  | _ => false

/-- Whether two values are equal or, negated, unequal. -/
def compare (host : Host) (negated : Bool) (a b : Value) : Eval Value :=
  if isPlain a && isPlain b then pure (.bool (a.samePlain b != negated))
  else ask host (.compare negated a b)

/-- The member of a name: the value of a key of a dictionary, or what the host knows of the name. -/
def member? (host : Host) (v : Value) (name : String) : Eval (Option Value) :=
  match v with
  | .dict entries => pure (Value.lookup? entries name)
  | v => ask host (.member v name)

mutual

/-- The value of a tree. The two logical operators and the conditional evaluate only the operands
they need. -/
def eval (names : Namespace) : Tree → Eval Value
  | .string s => pure (.text s)
  | .number n => pure n.value
  | .boolean b => pure (.bool b)
  | .null => pure .null
  | .name n =>
    match Value.lookup? names.entries n with
    | some v => pure v
    | none => throw (.unknownName n)
  | .member t n => do
    let v ← eval names t
    match ← member? names.host v n with
    | some w => pure w
    | none => throw (.noMember t n)
  | .call c args => do
    let f ← eval names c
    if names.host.canCall f then
      let vs ← evalAll names args
      ask names.host (.call f vs)
    else throw (.notCallable c)
  | .not t => do
    let b ← truth "!" t (← eval names t)
    return .bool (!b)
  | .binary .and l r => do
    let a ← truth "&&" l (← eval names l)
    if a then return .bool (← truth "&&" r (← eval names r)) else return .bool false
  | .binary .or l r => do
    let a ← truth "||" l (← eval names l)
    if a then return .bool true else return .bool (← truth "||" r (← eval names r))
  | .binary .equal l r => do
    let a ← eval names l
    let b ← eval names r
    compare names.host false a b
  | .binary .unequal l r => do
    let a ← eval names l
    let b ← eval names r
    compare names.host true a b
  | .binary (.unknown s) _ _ => throw (.unknownOperator s)
  | .concat [] => throw .emptyChain
  | .concat (t :: ts) => do
    let v ← eval names t
    evalChain names v ts
  | .conditional c y n => do
    let b ← truth "?:" c (← eval names c)
    if b then eval names y else eval names n

/-- The values of arguments. -/
def evalAll (names : Namespace) : List Tree → Eval (List Value)
  | [] => pure []
  | t :: ts => do
    let v ← eval names t
    let vs ← evalAll names ts
    return v :: vs

/-- Adds the values of further operands to a value, from left to right. -/
def evalChain (names : Namespace) (acc : Value) : List Tree → Eval Value
  | [] => pure acc
  | t :: ts => do
    let v ← eval names t
    let s ← sum names.host acc v
    evalChain names s ts

end

/-- The value of a tree, as texts absorb it. -/
def evalText (names : Namespace) (t : Tree) : Eval String := do
  toText names.host (← eval names t)

/-- Why a text has no value: it is no expression, or its evaluation failed. -/
inductive Failure where
  | malformed (error : ParseError)
  | failed (error : EvalError)

/-- The wording of a failure. -/
def Failure.message : Failure → String
  | .malformed e => e.message
  | .failed e => e.message

/-- What evaluation came to, and what it asked of the host. -/
structure Outcome (α : Type) where
  log : List Query
  result : Except Failure α

/-- Runs a computation from an empty log. -/
def Outcome.of {α : Type} (x : Eval α) : Outcome α :=
  match x.run [] with
  | .ok a log => ⟨log, .ok a⟩
  | .error e log => ⟨log, .error (.failed e)⟩

/-- What a computation on the tree of a text comes to. -/
def Outcome.ofText {α : Type} (source : String) (f : Tree → Eval α) : Outcome α :=
  match parse source with
  | .error e => ⟨[], .error (.malformed e)⟩
  | .ok t => .of (f t)

/-- The value of a text. -/
def evaluate (source : String) (names : Namespace) : Outcome Value :=
  .ofText source (eval names)

/-- The text of the value of a text. -/
def render (source : String) (names : Namespace) : Outcome String :=
  .ofText source (evalText names)

end ConditionalStyle.Expression
