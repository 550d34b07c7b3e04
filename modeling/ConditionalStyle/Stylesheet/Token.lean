import ConditionalStyle.Text.Display

/-!
# Tokens of a stylesheet

A token is a piece of the source with its kind and its place. Comments are no tokens.

## Main definitions

* `Mark`: a place in the source by line and column.
* `Token.Kind`, `Token`.
* `SyntaxError`: what can be wrong with a source text, and where.
-/

namespace ConditionalStyle.Stylesheet

open Text

/-- A line and a column, both counted from one. -/
structure Mark where
  line : Nat
  column : Nat
deriving DecidableEq, Repr

namespace Mark

/-- The place of the first character. -/
def start : Mark := ⟨1, 1⟩

/-- The place after a character. Only a line feed ends a line. -/
def step (m : Mark) (c : Char) : Mark :=
  if c == '\n' then ⟨m.line + 1, 1⟩ else ⟨m.line, m.column + 1⟩

/-- The place after a text. -/
def advance (m : Mark) (cs : List Char) : Mark :=
  cs.foldl step m

end Mark

/-- The kinds of tokens. A function token is a name with the parenthesis that opens its arguments;
the token `finish` stands after the end of the source. -/
inductive Token.Kind where
  | blank
  | url
  | string
  | atKeyword
  | function
  | symbol
  | word
  | finish
deriving DecidableEq, Repr

/-- The name of a kind. -/
def Token.Kind.label : Token.Kind → String
  | .blank => "WHITESPACE"
  | .url => "URL"
  | .string => "STRING"
  | .atKeyword => "AT_KEYWORD"
  | .function => "FUNCTION"
  | .symbol => "SYMBOL"
  | .word => "WORD"
  | .finish => "EOF"

/-- A piece of the source: its kind, its text, the index of its first character and its place. -/
structure Token where
  kind : Token.Kind
  text : String
  position : Nat
  mark : Mark
deriving DecidableEq, Repr

namespace Token

/-- Whether the token is the given symbol. -/
def isSymbol (t : Token) (c : Char) : Bool :=
  t.kind == .symbol && t.text == String.singleton c

/-- How a message names a token. -/
def found (t : Token) : String :=
  if t.kind == .finish then "end of input" else s!"'{t.text}'"

/-- A token with its kind, text and place on one line. -/
def describe (t : Token) : String :=
  s!"Token({t.kind.label}, {display t.text}, {t.mark.line}:{t.mark.column})"

end Token

/-- What can be wrong with a stylesheet's source. Tokens that a message names are given by their
`Token.found` text, functions by their token's text with its parenthesis. -/
inductive SyntaxError.Cause where
  | unexpectedCharacter (c : Char)
  | unterminatedComment
  | unclosedBody
  | strayBranch (keyword : String)
  | expectedSymbol (symbol : Char) (found : String)
  | expectedCondition
  | unexpectedInAtRule (found name : String)
  | unexpectedInSelector (found : String)
  | emptySelector
  | keywordInDeclarations (keyword : String)
  | expectedProperty (found : String)
  | expectedValue (property : String)
  | unfinishedValue
  | expectedImportant
  | valueAfterImportant
  | unexpectedInValue (found : String)
  | importantInFunction
  | expectedString (function : String)
  | argumentCount (function : String) (least most given : Nat)
deriving DecidableEq, Repr

/-- The wording of a cause. -/
def SyntaxError.Cause.message : SyntaxError.Cause → String
  | .unexpectedCharacter c => s!"Unexpected character {display (String.singleton c)}"
  | .unterminatedComment => "Unterminated comment"
  | .unclosedBody => "Unexpected end of input, expected '\x7d'"
  | .strayBranch keyword => s!"'@{keyword}' without preceding '@if'"
  | .expectedSymbol symbol found => s!"Expected '{symbol}', got {found}"
  | .expectedCondition => "Expected runtime condition eval(\"...\")"
  | .unexpectedInAtRule found name => s!"Unexpected {found} in '@{name}' rule"
  | .unexpectedInSelector found => s!"Unexpected {found} in selector"
  | .emptySelector => "Empty selector"
  | .keywordInDeclarations keyword => s!"'{keyword}' is not allowed inside a declaration block"
  | .expectedProperty found => s!"Expected property name, got {found}"
  | .expectedValue property => s!"Expected value for property '{property}'"
  | .unfinishedValue => "Unexpected end of input in value"
  | .expectedImportant => "Expected 'important' after '!'"
  | .valueAfterImportant => "Unexpected value after '!important'"
  | .unexpectedInValue found => s!"Unexpected {found} in value"
  | .importantInFunction => "'!important' is not allowed inside a function"
  | .expectedString function => s!"Expected string argument for '{function})'"
  | .argumentCount function least most given =>
    s!"'{function})' expects {least}..{most} arguments, got {given}"

/-- A fault of a source text and its place. -/
structure SyntaxError where
  cause : SyntaxError.Cause
  mark : Mark
deriving DecidableEq, Repr

/-- The wording of an error. -/
def SyntaxError.message (e : SyntaxError) : String :=
  s!"{e.cause.message} at {e.mark.line}:{e.mark.column}"

end ConditionalStyle.Stylesheet
