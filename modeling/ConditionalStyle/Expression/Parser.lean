import ConditionalStyle.Decimal.Reading
import ConditionalStyle.Expression.Token
import ConditionalStyle.Expression.Tree

/-!
# Reading expressions

The grammar, from the loosest to the tightest construct:

* a conditional `a ? b : c` groups to the right, its middle part being any expression;
* `||`, then `&&`, then `==` and `!=` group to the left;
* a chain of `+` is one node;
* `!` negates what follows;
* members and calls follow a literal, a name or an expression in parentheses.

Each reading function returns the tokens that are left, fewer than it was given; this is what ends
the recursion.

## Main definitions

* `SyntaxError`: what can be wrong with an expression, and where.
* `ParseError`: why a text is not read.
* `Parser.conditional`: the tree at the start of a list of tokens.
* `parse`: the tree of a text.
-/

namespace ConditionalStyle.Expression

open Text

/-- What can be wrong with an expression. -/
inductive SyntaxError.Cause where
  | scan (error : ScanError)
  | empty
  | unexpectedToken (text : String)
  | unexpectedEnd
  | expectedColon
  | expectedMember
  | expectedArgumentEnd
  | expectedGroupEnd
  | literal (error : LiteralError)
deriving DecidableEq, Repr

/-- The wording of a cause. -/
def SyntaxError.Cause.message : SyntaxError.Cause → String
  | .scan e => e.message
  | .empty => "Empty expression"
  | .unexpectedToken t => s!"Unexpected token '{t}'"
  | .unexpectedEnd => "Unexpected end of expression"
  | .expectedColon => "Expected ':' in conditional expression"
  | .expectedMember => "Expected member name after '.'"
  | .expectedArgumentEnd => "Expected ',' or ')' in argument list"
  | .expectedGroupEnd => "Expected ')' after grouped expression"
  | .literal e => e.message

/-- A fault of an expression and the index of the character where it was found. -/
structure SyntaxError where
  cause : SyntaxError.Cause
  position : Nat
deriving DecidableEq, Repr

/-- The wording of an error. -/
def SyntaxError.message (e : SyntaxError) : String :=
  s!"Parse error at position {e.position}: {e.cause.message}"

/-- Why a text is not read: it is no expression, or it has an integer that is too long. -/
inductive ParseError where
  | malformed (error : SyntaxError)
  | tooLong (limit digits : Nat)
deriving DecidableEq, Repr

/-- The wording of an error. -/
def ParseError.message : ParseError → String
  | .malformed e => e.message
  | .tooLong limit digits => Decimal.tooLongMessage limit (some digits)

/-- The number that a number token spells. A point makes it a double. -/
def Number.ofText (s : String) : Number :=
  let whole := s.toList.takeWhile (· != '.')
  match s.toList.dropWhile (· != '.') with
  | [] => .int (digitsValue whole)
  | _ :: fraction =>
    .float (Decimal.ofScientific false (digitsValue (whole ++ fraction)) (-(fraction.length : Int)))

/-- Whether a number token spells an integer of more digits than a limit. Doubles have none. -/
def Number.isTooLong (limit : Nat) (s : String) : Bool :=
  !s.toList.contains '.' && limit < s.length

namespace Parser

/-- What reading depends on besides the tokens: the position of the end of the text, and how many
digits an integer may have. -/
structure Bounds where
  finish : Nat
  digits : Nat

/-- The error of a cause at a position. -/
def fault (cause : SyntaxError.Cause) (position : Nat) : ParseError :=
  .malformed ⟨cause, position⟩

/-- Fewer tokens than the given ones. -/
abbrev Shorter (ts : List Token) := { rest : List Token // rest.length < ts.length }

/-- At most as many tokens as the given ones. -/
abbrev Within (ts : List Token) := { rest : List Token // rest.length ≤ ts.length }

/-- What a reading function gives: a tree, or several, and the tokens left. -/
abbrev Reading (α : Type) (ts : List Token) := Except ParseError (α × Shorter ts)

/-- The same for a function that may take no token. -/
abbrev Continuing (α : Type) (ts : List Token) := Except ParseError (α × Within ts)

/-- The position of the next token, or of the end. -/
def position (bounds : Bounds) : List Token → Nat
  | [] => bounds.finish
  | t :: _ => t.position

/-- Takes the given operator, if it comes next. -/
def operator? (symbol : String) : (ts : List Token) → Option (Shorter ts)
  | [] => none
  | t :: rest => if t.isOperator symbol then some ⟨rest, Nat.lt_succ_self _⟩ else none

/-- The binary operators that group to the left, by level: the higher the looser. The third level
is the loosest. -/
def levelSymbols : Nat → List Operator
  | 1 => [.equal, .unequal]
  | 2 => [.and]
  | 3 => [.or]
  | _ => []

/-- Takes an operator of a level, if one comes next. -/
def levelOperator? (level : Nat) : (ts : List Token) → Option (Operator × Shorter ts)
  | [] => none
  | t :: rest =>
    ((levelSymbols level).find? fun op => t.isOperator op.symbol).map
      (·, ⟨rest, Nat.lt_succ_self _⟩)

/-- A chain of one operand is that operand. -/
def chain (first : Tree) : List Tree → Tree
  | [] => first
  | rest => .concat (first :: rest)

/-- The literal or name that a single token is, if it is one. -/
def atom (bounds : Bounds) (t : Token) : Except ParseError Tree :=
  match t.kind with
  | .string =>
    match unescape (String.ofList (t.text.toList.drop 1).dropLast) with
    | .ok s => .ok (.string s)
    | .error e => .error (fault (.literal e) t.position)
  | .number =>
    if Number.isTooLong bounds.digits t.text then .error (.tooLong bounds.digits t.text.length)
    else .ok (.number (Number.ofText t.text))
  | .keyword => .ok (if t.text == "null" then .null else .boolean (t.text == "true"))
  | .name => .ok (.name t.text)
  | .operator | .finish => .error (fault (.unexpectedToken t.text) t.position)

mutual

/-- A conditional, or a binary expression alone. -/
def conditional (bounds : Bounds) (ts : List Token) : Reading Tree ts :=
  match binary bounds 3 ts with
  | .error e => .error e
  | .ok (test, ⟨r, hr⟩) =>
    match operator? "?" r with
    | none => .ok (test, ⟨r, hr⟩)
    | some ⟨r₁, h₁⟩ =>
      match conditional bounds r₁ with
      | .error e => .error e
      | .ok (yes, ⟨r₂, h₂⟩) =>
        match operator? ":" r₂ with
        | none => .error (fault .expectedColon (position bounds r₂))
        | some ⟨r₃, h₃⟩ =>
          match conditional bounds r₃ with
          | .error e => .error e
          | .ok (no, ⟨r₄, h₄⟩) => .ok (.conditional test yes no, ⟨r₄, by omega⟩)
termination_by 11 * ts.length + 9

/-- Operands of the next tighter level, joined to the left by operators of this level. Level zero
is that of chains. -/
def binary (bounds : Bounds) (level : Nat) (ts : List Token) : Reading Tree ts :=
  match level with
  | 0 =>
    match unary bounds ts with
    | .error e => .error e
    | .ok (first, ⟨r, hr⟩) =>
      match summands bounds r with
      | .error e => .error e
      | .ok (rest, ⟨r₁, h₁⟩) => .ok (chain first rest, ⟨r₁, by omega⟩)
  | level + 1 =>
    match binary bounds level ts with
    | .error e => .error e
    | .ok (left, ⟨r, hr⟩) =>
      match binaryRest bounds level left r with
      | .error e => .error e
      | .ok (t, ⟨r₁, h₁⟩) => .ok (t, ⟨r₁, by omega⟩)
termination_by 11 * ts.length + level + 3

/-- What follows the first operand of a level: operators of the level above `level` and operands
of `level`. -/
def binaryRest (bounds : Bounds) (level : Nat) (left : Tree) (ts : List Token) :
    Continuing Tree ts :=
  match levelOperator? (level + 1) ts with
  | none => .ok (left, ⟨ts, Nat.le_refl _⟩)
  | some (op, ⟨r, hr⟩) =>
    match binary bounds level r with
    | .error e => .error e
    | .ok (right, ⟨r₁, h₁⟩) =>
      match binaryRest bounds level (.binary op left right) r₁ with
      | .error e => .error e
      | .ok (t, ⟨r₂, h₂⟩) => .ok (t, ⟨r₂, by omega⟩)
termination_by 11 * ts.length + level

/-- The operands of a chain after its first. -/
def summands (bounds : Bounds) (ts : List Token) : Continuing (List Tree) ts :=
  match operator? "+" ts with
  | none => .ok ([], ⟨ts, Nat.le_refl _⟩)
  | some ⟨r, hr⟩ =>
    match unary bounds r with
    | .error e => .error e
    | .ok (t, ⟨r₁, h₁⟩) =>
      match summands bounds r₁ with
      | .error e => .error e
      | .ok (rest, ⟨r₂, h₂⟩) => .ok (t :: rest, ⟨r₂, by omega⟩)
termination_by 11 * ts.length

/-- A negation, or a primary with its members and calls. -/
def unary (bounds : Bounds) (ts : List Token) : Reading Tree ts :=
  match operator? "!" ts with
  | some ⟨r, hr⟩ =>
    match unary bounds r with
    | .error e => .error e
    | .ok (t, ⟨r₁, h₁⟩) => .ok (.not t, ⟨r₁, by omega⟩)
  | none =>
    match primary bounds ts with
    | .error e => .error e
    | .ok (t, ⟨r, hr⟩) =>
      match postfixes bounds t r with
      | .error e => .error e
      | .ok (t, ⟨r₁, h₁⟩) => .ok (t, ⟨r₁, by omega⟩)
termination_by 11 * ts.length + 2

/-- The members and calls that follow a tree. -/
def postfixes (bounds : Bounds) (t : Tree) (ts : List Token) : Continuing Tree ts :=
  match operator? "." ts with
  | some ⟨[], _⟩ => .error (fault .expectedMember bounds.finish)
  | some ⟨n :: r, hr⟩ =>
    have h₀ : r.length < ts.length := Nat.lt_of_succ_lt hr
    if n.kind == .name then
      match postfixes bounds (.member t n.text) r with
      | .error e => .error e
      | .ok (t, ⟨r₁, h₁⟩) => .ok (t, ⟨r₁, by omega⟩)
    else .error (fault .expectedMember n.position)
  | none =>
    match operator? "(" ts with
    | none => .ok (t, ⟨ts, Nat.le_refl _⟩)
    | some ⟨r, hr⟩ =>
      match operator? ")" r with
      | some ⟨r₁, h₁⟩ =>
        match postfixes bounds (.call t []) r₁ with
        | .error e => .error e
        | .ok (t, ⟨r₂, h₂⟩) => .ok (t, ⟨r₂, by omega⟩)
      | none =>
        match arguments bounds r with
        | .error e => .error e
        | .ok (args, ⟨r₁, h₁⟩) =>
          match postfixes bounds (.call t args) r₁ with
          | .error e => .error e
          | .ok (t, ⟨r₂, h₂⟩) => .ok (t, ⟨r₂, by omega⟩)
termination_by 11 * ts.length

/-- One argument or more, and the parenthesis that ends them. -/
def arguments (bounds : Bounds) (ts : List Token) : Reading (List Tree) ts :=
  match conditional bounds ts with
  | .error e => .error e
  | .ok (t, ⟨r, hr⟩) =>
    match operator? ")" r with
    | some ⟨r₁, h₁⟩ => .ok ([t], ⟨r₁, by omega⟩)
    | none =>
      match operator? "," r with
      | none => .error (fault .expectedArgumentEnd (position bounds r))
      | some ⟨r₁, h₁⟩ =>
        match arguments bounds r₁ with
        | .error e => .error e
        | .ok (rest, ⟨r₂, h₂⟩) => .ok (t :: rest, ⟨r₂, by omega⟩)
termination_by 11 * ts.length + 10

/-- An expression in parentheses, a literal or a name. -/
def primary (bounds : Bounds) (ts : List Token) : Reading Tree ts :=
  match operator? "(" ts with
  | some ⟨r, hr⟩ =>
    match conditional bounds r with
    | .error e => .error e
    | .ok (t, ⟨r₁, h₁⟩) =>
      match operator? ")" r₁ with
      | none => .error (fault .expectedGroupEnd (position bounds r₁))
      | some ⟨r₂, h₂⟩ => .ok (t, ⟨r₂, by omega⟩)
  | none =>
    match ts with
    | [] => .error (fault .unexpectedEnd bounds.finish)
    | t :: r =>
      match atom bounds t with
      | .error e => .error e
      | .ok tree => .ok (tree, ⟨r, Nat.lt_succ_self _⟩)
termination_by 11 * ts.length + 1

end

/-- The tree that all of the tokens form. -/
def whole (bounds : Bounds) (ts : List Token) : Except ParseError Tree :=
  match ts with
  | [] => .error (fault .empty 0)
  | t :: r =>
    match conditional bounds (t :: r) with
    | .error e => .error e
    | .ok (tree, ⟨[], _⟩) => .ok tree
    | .ok (_, ⟨u :: _, _⟩) => .error (fault (.unexpectedToken u.text) u.position)

end Parser

/-- The tree of an expression's text. A character that starts no token is reported at the start. -/
def parse (source : String) : Except ParseError Tree :=
  match scan source with
  | .error e => .error (.malformed ⟨.scan e, 0⟩)
  | .ok s => Parser.whole ⟨s.finish.position, Decimal.maxDigits⟩ s.tokens

end ConditionalStyle.Expression
