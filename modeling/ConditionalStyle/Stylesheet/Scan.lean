import ConditionalStyle.Stylesheet.Token
import ConditionalStyle.Text.Blank
import ConditionalStyle.Text.Scan
import ConditionalStyle.Text.Word

/-!
# Scanning a stylesheet

The source is cut into lexemes from left to right. At each place the first class with a lexeme
there wins, in this order: comment, blanks, `url(…)` without quotes, string, at-keyword, function,
symbol, word.

## Main definitions

* one length function for each class, such as `commentLength?` and `urlLength?`.
* `Lexeme`, `lexeme?`: the lexeme at the start of a text.
* `scan`: the tokens of a text.
-/

namespace ConditionalStyle.Stylesheet

open Text

/-- How many characters stand before the first `*/`. -/
def beforeCommentEnd? : List Char → Option Nat
  | [] => none
  | [_] => none
  | c :: d :: rest =>
    if c == '*' && d == '/' then some 0 else (beforeCommentEnd? (d :: rest)).map (· + 1)

/-- Whether a text starts like a comment. -/
def opensComment : List Char → Bool
  | '/' :: '*' :: _ => true
  | _ => false

/-- The length of a comment, which ends with the first `*/` after its first two characters. -/
def commentLength? (cs : List Char) : Option Nat :=
  if opensComment cs then (beforeCommentEnd? (cs.drop 2)).map (· + 4) else none

/-- The length of a run of a class, which must not be empty. -/
def runLength? (p : Char → Bool) (cs : List Char) : Option Nat :=
  match runLength p cs with
  | 0 => none
  | n + 1 => some (n + 1)

/-- What the address of an unquoted `url(…)` is made of. -/
def isAddress (c : Char) : Bool :=
  !(c == ')' || c == '"' || c == '\'' || isBlank c)

/-- The length of `url(`, blanks, an address, blanks and `)`. -/
def urlLength? : List Char → Option Nat
  | 'u' :: 'r' :: 'l' :: '(' :: rest =>
    let before := runLength isBlank rest
    let rest := rest.drop before
    let address := runLength isAddress rest
    let rest := rest.drop address
    let after := runLength isBlank rest
    match rest.drop after with
    | ')' :: _ => some (4 + before + address + after + 1)
    | _ => none
  | _ => none

/-- What a name goes on with. -/
def isNamePart (c : Char) : Bool :=
  isWord c || c == '-'

/-- What the name of a function starts with, a dash before it apart. -/
def isNameStart (c : Char) : Bool :=
  isAsciiLetter c || c == '_'

/-- The length of an `@` with a name. The name may start with a dash. -/
def atKeywordLength? : List Char → Option Nat
  | '@' :: c :: rest =>
    if isNameStart c || c == '-' then some (2 + runLength isNamePart rest) else none
  | _ => none

/-- The length of a name followed by `(`. -/
def plainFunctionLength? : List Char → Option Nat
  | [] => none
  | c :: rest =>
    if isNameStart c then
      let name := runLength isNamePart rest
      match rest.drop name with
      | '(' :: _ => some (1 + name + 1)
      | _ => none
    else none

/-- The length of a name, perhaps after one dash, followed by `(`. -/
def functionLength? : List Char → Option Nat
  | '-' :: rest => (plainFunctionLength? rest).map (· + 1)
  | cs => plainFunctionLength? cs

/-- The characters that are tokens by themselves. -/
def symbols : List Char :=
  ['{', '}', '(', ')', ';', ':', ',', '/', '!']

/-- The length of a symbol. -/
def symbolLength? : List Char → Option Nat
  | [] => none
  | c :: _ => if symbols.contains c then some 1 else none

/-- What words are made of: anything but blanks, symbols and quotes. -/
def isWordPart (c : Char) : Bool :=
  !(isBlank c || symbols.contains c || c == '"' || c == '\'')

/-- A piece of the source: a comment, or what becomes a token of some kind. -/
inductive Lexeme where
  | comment
  | token (kind : Token.Kind)
deriving DecidableEq, Repr

/-- The lexeme at the start of a text and its length. -/
def lexeme? (cs : List Char) : Option (Lexeme × Nat) :=
  (commentLength? cs).map (Lexeme.comment, ·)
  <|> (runLength? isBlank cs).map (Lexeme.token .blank, ·)
  <|> (urlLength? cs).map (Lexeme.token .url, ·)
  <|> (quotedLength? '"' true cs).map (Lexeme.token .string, ·)
  <|> (quotedLength? '\'' true cs).map (Lexeme.token .string, ·)
  <|> (atKeywordLength? cs).map (Lexeme.token .atKeyword, ·)
  <|> (functionLength? cs).map (Lexeme.token .function, ·)
  <|> (symbolLength? cs).map (Lexeme.token .symbol, ·)
  <|> (runLength? isWordPart cs).map (Lexeme.token .word, ·)

/-! ### Every lexeme has a character -/

theorem pos_of_commentLength? {cs : List Char} {n : Nat} (h : commentLength? cs = some n) :
    0 < n := by
  simp only [commentLength?] at h
  split at h
  · obtain ⟨m, _, rfl⟩ := Option.map_eq_some_iff.1 h
    exact Nat.succ_pos _
  · simp at h

theorem pos_of_runLength? {p : Char → Bool} {cs : List Char} {n : Nat}
    (h : runLength? p cs = some n) : 0 < n := by
  simp only [runLength?] at h
  split at h
  · simp at h
  · simp only [Option.some.injEq] at h
    omega

theorem pos_of_urlLength? {cs : List Char} {n : Nat} (h : urlLength? cs = some n) : 0 < n := by
  unfold urlLength? at h
  split at h
  · dsimp only at h
    split at h
    · simp only [Option.some.injEq] at h
      omega
    · simp at h
  · simp at h

theorem pos_of_atKeywordLength? {cs : List Char} {n : Nat} (h : atKeywordLength? cs = some n) :
    0 < n := by
  unfold atKeywordLength? at h
  split at h
  · split at h
    · simp only [Option.some.injEq] at h
      omega
    · simp at h
  · simp at h

theorem pos_of_plainFunctionLength? {cs : List Char} {n : Nat}
    (h : plainFunctionLength? cs = some n) : 0 < n := by
  unfold plainFunctionLength? at h
  split at h
  · simp at h
  · split at h
    · dsimp only at h
      split at h
      · simp only [Option.some.injEq] at h
        omega
      · simp at h
    · simp at h

theorem pos_of_functionLength? {cs : List Char} {n : Nat} (h : functionLength? cs = some n) :
    0 < n := by
  unfold functionLength? at h
  split at h
  · obtain ⟨m, _, rfl⟩ := Option.map_eq_some_iff.1 h
    exact Nat.succ_pos _
  · exact pos_of_plainFunctionLength? h

theorem pos_of_symbolLength? {cs : List Char} {n : Nat} (h : symbolLength? cs = some n) :
    0 < n := by
  unfold symbolLength? at h
  split at h
  · simp at h
  · split at h
    · simp only [Option.some.injEq] at h
      omega
    · simp at h

theorem pos_of_lexeme? {cs : List Char} {l : Lexeme} {n : Nat} (h : lexeme? cs = some (l, n)) :
    0 < n := by
  simp only [lexeme?, Option.orElse_eq_orElse, Option.orElse_eq_or, Option.or_eq_some_iff,
    Option.map_eq_some_iff, Prod.mk.injEq] at h
  rcases h with ⟨_, h, _, rfl⟩ | ⟨_, h⟩
  · exact pos_of_commentLength? h
  rcases h with ⟨_, h, _, rfl⟩ | ⟨_, h⟩
  · exact pos_of_runLength? h
  rcases h with ⟨_, h, _, rfl⟩ | ⟨_, h⟩
  · exact pos_of_urlLength? h
  rcases h with ⟨_, h, _, rfl⟩ | ⟨_, h⟩
  · exact pos_of_quotedLength? h
  rcases h with ⟨_, h, _, rfl⟩ | ⟨_, h⟩
  · exact pos_of_quotedLength? h
  rcases h with ⟨_, h, _, rfl⟩ | ⟨_, h⟩
  · exact pos_of_atKeywordLength? h
  rcases h with ⟨_, h, _, rfl⟩ | ⟨_, h⟩
  · exact pos_of_functionLength? h
  rcases h with ⟨_, h, _, rfl⟩ | ⟨_, _, h, _, rfl⟩
  · exact pos_of_symbolLength? h
  · exact pos_of_runLength? h

/-! ### The scan -/

/-- The tokens of a source and the token that stands after its end. -/
structure Scanned where
  tokens : List Token
  finish : Token
deriving DecidableEq, Repr

/-- All tokens, the one after the end included. -/
def Scanned.all (s : Scanned) : List Token :=
  s.tokens ++ [s.finish]

/-- Puts a lexeme in front of what has been scanned after it. -/
def Scanned.prepend (l : Lexeme) (text : List Char) (position : Nat) (mark : Mark) (s : Scanned) :
    Scanned :=
  match l with
  | .comment => s
  | .token kind => { s with tokens := ⟨kind, String.ofList text, position, mark⟩ :: s.tokens }

/-- Scans a text whose first character has the given index and place. A place without a lexeme is
an error, and so is a slash that should have opened a comment. -/
def scanFrom (position : Nat) (mark : Mark) (cs : List Char) : Except SyntaxError Scanned :=
  match cs with
  | [] => .ok ⟨[], ⟨.finish, "", position, mark⟩⟩
  | c :: rest =>
    match _h : lexeme? (c :: rest) with
    | none => .error ⟨.unexpectedCharacter c, mark⟩
    | some (l, n) =>
      if l == .token .symbol && opensComment (c :: rest) then .error ⟨.unterminatedComment, mark⟩
      else
        let text := (c :: rest).take n
        (scanFrom (position + text.length) (mark.advance text) ((c :: rest).drop n)).map
          (Scanned.prepend l text position mark)
termination_by cs.length
decreasing_by
  have := pos_of_lexeme? _h
  simp only [List.length_drop, List.length_cons]
  omega

/-- The tokens of a source text. -/
def scan (source : String) : Except SyntaxError Scanned :=
  scanFrom 0 .start source.toList

end ConditionalStyle.Stylesheet
