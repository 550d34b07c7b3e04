import ConditionalStyle.Decimal.Shortest
import ConditionalStyle.Text.Literal

/-!
# Expression trees

Expressions are built from string, number, boolean and null literals, names, members, calls,
negation, the four binary operators, chains of `+` and conditionals.

## Main definitions

* `Number`, `Operator`, `Tree`.
* `Tree.text`: the fully parenthesised text of a tree.
-/

namespace ConditionalStyle.Expression

/-- A number literal's value: an integer of any size or a double. -/
inductive Number where
  | int (value : Int)
  | float (value : Float)
deriving Repr

/-- The decimal text of a number. -/
def Number.text : Number → String
  | .int n => toString n
  | .float x => Decimal.render x

/-- The binary operators. Trees that are not read from a text may hold symbols without a meaning. -/
inductive Operator where
  | and
  | or
  | equal
  | unequal
  | unknown (symbol : String)
deriving DecidableEq, Repr

/-- The symbol of an operator. -/
def Operator.symbol : Operator → String
  | .and => "&&"
  | .or => "||"
  | .equal => "=="
  | .unequal => "!="
  | .unknown s => s

/-- The operator of a symbol. -/
def Operator.ofSymbol (s : String) : Operator :=
  if s == "&&" then .and
  else if s == "||" then .or
  else if s == "==" then .equal
  else if s == "!=" then .unequal
  else .unknown s

/-- An expression. A chain of `+` is one node with all its operands. -/
inductive Tree where
  | string (value : String)
  | number (value : Number)
  | boolean (value : Bool)
  | null
  | name (name : String)
  | member (target : Tree) (name : String)
  | call (callee : Tree) (args : List Tree)
  | not (operand : Tree)
  | binary (operator : Operator) (left right : Tree)
  | concat (operands : List Tree)
  | conditional (test yes no : Tree)
deriving Repr

namespace Tree

mutual

/-- The text of a tree. Binary operations, chains and conditionals stand in parentheses. -/
def text : Tree → String
  | .string s => Text.quote s
  | .number n => n.text
  | .boolean b => if b then "true" else "false"
  | .null => "null"
  | .name n => n
  | .member t n => t.text ++ "." ++ n
  | .call c args => c.text ++ "(" ++ ", ".intercalate (texts args) ++ ")"
  | .not t => "!" ++ t.text
  | .binary op l r => "(" ++ l.text ++ " " ++ op.symbol ++ " " ++ r.text ++ ")"
  | .concat ts => "(" ++ " + ".intercalate (texts ts) ++ ")"
  | .conditional c y n => "(" ++ c.text ++ " ? " ++ y.text ++ " : " ++ n.text ++ ")"

/-- The texts of a list of trees. -/
def texts : List Tree → List String
  | [] => []
  | t :: ts => t.text :: texts ts

end

end Tree

end ConditionalStyle.Expression
