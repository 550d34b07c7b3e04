import ConditionalStyle.Text.Blank
import ConditionalStyle.Text.Digit
import ConditionalStyle.Text.Scan
import ConditionalStyle.Text.Word

/-!
# Tokens of an expression

An expression is cut into strings, numbers, names, keywords and operators. Blanks separate tokens
and are dropped.

## Main definitions

* `Token.Kind`, `Token`.
* `lexeme?`: the lexeme at the start of a text.
* `scan`: the tokens of a text.
-/

namespace ConditionalStyle.Expression

open Text

/-- The kinds of tokens. The token `finish` stands after the end of the text. -/
inductive Token.Kind where
  | string
  | number
  | operator
  | name
  | keyword
  | finish
deriving DecidableEq, Repr

/-- The name of a kind. -/
def Token.Kind.label : Token.Kind → String
  | .string => "STRING"
  | .number => "NUMBER"
  | .operator => "OPERATOR"
  | .name => "IDENTIFIER"
  | .keyword => "KEYWORD"
  | .finish => "EOF"

/-- A piece of the text with its kind and the index of its first character. A string keeps its
quotes. -/
structure Token where
  kind : Token.Kind
  text : String
  position : Nat
deriving DecidableEq, Repr

/-- A token with its kind, text and position on one line. -/
def Token.describe (t : Token) : String :=
  s!"Token({t.kind.label}, '{t.text}', pos={t.position})"

/-- Whether the token is the given operator. -/
def Token.isOperator (t : Token) (operator : String) : Bool :=
  t.kind == .operator && t.text == operator

/-! ### Lexemes -/

/-- The words that are no names. -/
def keywords : List String := ["true", "false", "null"]

/-- The length of a run of blanks, which must not be empty. -/
def blanksLength? (cs : List Char) : Option Nat :=
  match runLength isBlank cs with
  | 0 => none
  | n + 1 => some (n + 1)

/-- The length of a number: digits, then perhaps a point and more digits. -/
def numberLength? (cs : List Char) : Option Nat :=
  match runLength isDigit cs with
  | 0 => none
  | whole + 1 =>
    match cs.drop (whole + 1) with
    | '.' :: rest =>
      match runLength isDigit rest with
      | 0 => some (whole + 1)
      | fraction + 1 => some (whole + 1 + 1 + (fraction + 1))
    | _ => some (whole + 1)

/-- The operators of two characters. -/
def pairOperators : List (Char × Char) :=
  [('=', '='), ('!', '='), ('&', '&'), ('|', '|')]

/-- The operators of one character. -/
def singleOperators : List Char :=
  ['+', '?', ':', '!', '.', ',', '(', ')']

/-- The length of an operator; two characters are tried first. -/
def operatorLength? : List Char → Option Nat
  | [] => none
  | [c] => if singleOperators.contains c then some 1 else none
  | c :: d :: _ =>
    if pairOperators.contains (c, d) then some 2
    else if singleOperators.contains c then some 1
    else none

/-- What a name starts with. -/
def isNameStart (c : Char) : Bool :=
  isAsciiLetter c || c == '_' || c == '$'

/-- What a name goes on with. -/
def isNamePart (c : Char) : Bool :=
  isWord c || c == '$'

/-- The length of a name or keyword. -/
def nameLength? : List Char → Option Nat
  | [] => none
  | c :: rest => if isNameStart c then some (1 + runLength isNamePart rest) else none

/-- A piece of the text: blanks, or a token of some kind. Names and keywords are one class of
lexeme. -/
inductive Lexeme where
  | blanks
  | string
  | number
  | operator
  | name
deriving DecidableEq, Repr

/-- The lexeme at the start of a text and its length. -/
def lexeme? (cs : List Char) : Option (Lexeme × Nat) :=
  (blanksLength? cs).map (Lexeme.blanks, ·)
  <|> (quotedLength? '"' false cs).map (Lexeme.string, ·)
  <|> (numberLength? cs).map (Lexeme.number, ·)
  <|> (operatorLength? cs).map (Lexeme.operator, ·)
  <|> (nameLength? cs).map (Lexeme.name, ·)

/-- The kind of token that a lexeme with the given text becomes, if it becomes one. -/
def Lexeme.kind? (l : Lexeme) (text : String) : Option Token.Kind :=
  match l with
  | .blanks => none
  | .string => some .string
  | .number => some .number
  | .operator => some .operator
  | .name => some (if keywords.contains text then .keyword else .name)

/-! ### Every lexeme has a character -/

theorem pos_of_blanksLength? {cs : List Char} {n : Nat} (h : blanksLength? cs = some n) :
    0 < n := by
  simp only [blanksLength?] at h
  split at h
  · simp at h
  · simp only [Option.some.injEq] at h
    omega

theorem pos_of_numberLength? {cs : List Char} {n : Nat} (h : numberLength? cs = some n) :
    0 < n := by
  simp only [numberLength?] at h
  repeat' split at h
  all_goals simp only [Option.some.injEq, reduceCtorEq] at h
  all_goals omega

theorem pos_of_operatorLength? {cs : List Char} {n : Nat} (h : operatorLength? cs = some n) :
    0 < n := by
  unfold operatorLength? at h
  repeat' split at h
  all_goals simp only [Option.some.injEq, reduceCtorEq] at h
  all_goals omega

theorem pos_of_nameLength? {cs : List Char} {n : Nat} (h : nameLength? cs = some n) : 0 < n := by
  unfold nameLength? at h
  repeat' split at h
  all_goals simp only [Option.some.injEq, reduceCtorEq] at h
  all_goals omega

theorem pos_of_lexeme? {cs : List Char} {l : Lexeme} {n : Nat} (h : lexeme? cs = some (l, n)) :
    0 < n := by
  simp only [lexeme?, Option.orElse_eq_orElse, Option.orElse_eq_or, Option.or_eq_some_iff,
    Option.map_eq_some_iff, Prod.mk.injEq] at h
  rcases h with ⟨_, h, _, rfl⟩ | ⟨_, h⟩
  · exact pos_of_blanksLength? h
  rcases h with ⟨_, h, _, rfl⟩ | ⟨_, h⟩
  · exact pos_of_quotedLength? h
  rcases h with ⟨_, h, _, rfl⟩ | ⟨_, h⟩
  · exact pos_of_numberLength? h
  rcases h with ⟨_, h, _, rfl⟩ | ⟨_, _, h, _, rfl⟩
  · exact pos_of_operatorLength? h
  · exact pos_of_nameLength? h

/-! ### The scan -/

/-- A character that starts no lexeme, and its index. -/
structure ScanError where
  character : Char
  position : Nat
deriving DecidableEq, Repr

/-- The wording of an error. -/
def ScanError.message (e : ScanError) : String :=
  s!"Unexpected character '{e.character}' at position {e.position}"

/-- The tokens of a text and the token that stands after its end. -/
structure Scanned where
  tokens : List Token
  finish : Token
deriving DecidableEq, Repr

/-- All tokens, the one after the end included. -/
def Scanned.all (s : Scanned) : List Token :=
  s.tokens ++ [s.finish]

/-- Puts a lexeme in front of what has been scanned after it. -/
def Scanned.prepend (l : Lexeme) (text : String) (position : Nat) (s : Scanned) : Scanned :=
  match l.kind? text with
  | none => s
  | some kind => { s with tokens := ⟨kind, text, position⟩ :: s.tokens }

/-- Scans a text whose first character has the given index. -/
def scanFrom (position : Nat) (cs : List Char) : Except ScanError Scanned :=
  match cs with
  | [] => .ok ⟨[], ⟨.finish, "", position⟩⟩
  | c :: rest =>
    match _h : lexeme? (c :: rest) with
    | none => .error ⟨c, position⟩
    | some (l, n) =>
      let text := (c :: rest).take n
      (scanFrom (position + text.length) ((c :: rest).drop n)).map
        (Scanned.prepend l (String.ofList text) position)
termination_by cs.length
decreasing_by
  have := pos_of_lexeme? _h
  simp only [List.length_drop, List.length_cons]
  omega

/-- The tokens of an expression's text. -/
def scan (source : String) : Except ScanError Scanned :=
  scanFrom 0 source.toList

end ConditionalStyle.Expression
