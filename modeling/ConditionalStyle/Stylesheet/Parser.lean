import ConditionalStyle.Stylesheet.Node
import ConditionalStyle.Stylesheet.Scan

/-!
# Reading stylesheets

A stylesheet is a list of rules: conditional blocks, at-rules and rulesets. Reading goes from left
to right and stops at the first fault. The token after the end of the source is passed along for
the faults found there.

Each reading function returns the tokens that are left, and knows that they are fewer; this is what
ends the recursion.

## Main definitions

* `unquote`: the text inside a string token.
* `Parser.values`: the components of a value.
* `Parser.rules`: a list of rules.
* `parse`: the tree of a source text.
-/

namespace ConditionalStyle.Stylesheet

open Text

/-- Drops the backslashes that escape a character. -/
def dropBackslashes : List Char → List Char
  | [] => []
  | [c] => [c]
  | c :: d :: rest => if c == '\\' then d :: dropBackslashes rest else c :: dropBackslashes (d :: rest)

/-- The text inside a string: without its quotes, and with every escaped character standing for
itself. -/
def unquote (s : String) : String :=
  String.ofList (dropBackslashes (s.toList.drop 1).dropLast)

/-- A text with its ASCII letters in lower case. -/
def lowerCase (s : String) : String :=
  String.ofList (s.toList.map Char.toLower)

/-- The text of tokens in a row, every run of blanks made one space and none left at the ends. -/
def joinTokens (ts : List Token) : String :=
  strip (String.join (ts.map fun t => if t.kind == .blank then " " else t.text))

/-- The at-rules whose body is a list of declarations. -/
def declarationRules : List String :=
  ["font-face", "page", "viewport", "counter-style"]

namespace Parser

/-- Fewer tokens than the given ones. -/
abbrev Shorter (ts : List Token) := { rest : List Token // rest.length < ts.length }

/-- At most as many tokens as the given ones. -/
abbrev Within (ts : List Token) := { rest : List Token // rest.length ≤ ts.length }

/-- What a reading function gives: something read and the tokens left. -/
abbrev Reading (α : Type) (ts : List Token) := Except SyntaxError (α × Shorter ts)

/-- The same for a function that may take no token. -/
abbrev Continuing (α : Type) (ts : List Token) := Except SyntaxError (α × Within ts)

/-- The next token; after the last one, the token that stands after the end. -/
def current (finish : Token) : List Token → Token
  | [] => finish
  | t :: _ => t

/-- A fault at a token. -/
def fault {α : Type} (cause : SyntaxError.Cause) (t : Token) : Except SyntaxError α :=
  .error ⟨cause, t.mark⟩

/-- The tokens after the blanks. -/
def skipBlanks (ts : List Token) : List Token :=
  ts.dropWhile (·.kind == .blank)

theorem length_skipBlanks_le (ts : List Token) : (skipBlanks ts).length ≤ ts.length :=
  (List.dropWhile_sublist _).length_le

/-- Takes the given symbol, which must come next. -/
def symbol (finish : Token) (c : Char) : (ts : List Token) → Except SyntaxError (Shorter ts)
  | [] => fault (.expectedSymbol c finish.found) finish
  | t :: rest =>
    if t.isSymbol c then .ok ⟨rest, Nat.lt_succ_self _⟩
    else fault (.expectedSymbol c t.found) t

/-- Takes the given symbol after any blanks. -/
def symbolAfterBlanks (finish : Token) (c : Char) (ts : List Token) :
    Except SyntaxError (Shorter ts) :=
  match symbol finish c (skipBlanks ts) with
  | .error e => .error e
  | .ok ⟨r, hr⟩ => .ok ⟨r, Nat.lt_of_lt_of_le hr (length_skipBlanks_le ts)⟩

/-! ### Arguments that are strings -/

/-- One string or more, separated by commas, and the parenthesis that ends them. -/
def strings (finish function : Token) (ts : List Token) : Reading (List String) ts :=
  match h : skipBlanks ts with
  | [] => fault (.expectedString function.text) finish
  | t :: r =>
    have hr : r.length < ts.length := by
      have := length_skipBlanks_le ts
      rw [h, List.length_cons] at this
      omega
    if t.kind == .string then
      match h₁ : skipBlanks r with
      | [] => fault (.expectedSymbol ',' finish.found) finish
      | u :: r₁ =>
        have h₂ : r₁.length < r.length := by
          have := length_skipBlanks_le r
          rw [h₁, List.length_cons] at this
          omega
        if u.isSymbol ')' then .ok ([unquote t.text], ⟨r₁, by omega⟩)
        else if u.isSymbol ',' then
          match strings finish function r₁ with
          | .error e => .error e
          | .ok (rest, ⟨r₂, h₃⟩) => .ok (unquote t.text :: rest, ⟨r₂, by omega⟩)
        else fault (.expectedSymbol ',' u.found) u
    else fault (.expectedString function.text) t
termination_by ts.length

/-- The strings that a function takes, of which there must be at least `least` and at most `most`.
They are counted when all of them have been read. -/
def stringArguments (finish function : Token) (least most : Nat) (ts : List Token) :
    Reading (List String) ts :=
  match strings finish function ts with
  | .error e => .error e
  | .ok (args, r) =>
    if least ≤ args.length && args.length ≤ most then .ok (args, r)
    else fault (.argumentCount function.text least most args.length) function

/-! ### Values -/

/-- The name of a function token, without its parenthesis. -/
def functionName (t : Token) : String :=
  String.ofList t.text.toList.dropLast

/-- Whether a token is the word that makes a declaration important. -/
def isImportant (t : Token) : Bool :=
  t.kind == .word && lowerCase t.text == "important"

/-- The component that a path and its two affixes form, given in the order path, text after it,
text before it. -/
def dotPath (args : List String) : Node :=
  .dotPath (args.headD "") args[1]? args[2]?

mutual

/-- The components of a value up to one of the closing symbols, which is not taken, and whether the
value is important. `important` says whether that has been said already; after it no component may
follow. -/
def values (finish : Token) (closing : List Char) (important : Bool) (ts : List Token) :
    Continuing (List Node × Bool) ts :=
  match h : skipBlanks ts with
  | [] => fault .unfinishedValue finish
  | t :: r =>
    have hr : r.length < ts.length := by
      have := length_skipBlanks_le ts
      rw [h, List.length_cons] at this
      omega
    if closing.any t.isSymbol then
      .ok (([], important), ⟨t :: r, by simp only [List.length_cons]; omega⟩)
    else if t.isSymbol '!' then
      match h₁ : skipBlanks r with
      | [] => fault .expectedImportant finish
      | u :: r₁ =>
        have h₂ : r₁.length < r.length := by
          have := length_skipBlanks_le r
          rw [h₁, List.length_cons] at this
          omega
        if isImportant u then
          match values finish closing true r₁ with
          | .error e => .error e
          | .ok (read, ⟨r₂, h₃⟩) => .ok (read, ⟨r₂, by omega⟩)
        else fault .expectedImportant u
    else if important then fault .valueAfterImportant t
    else if t.isSymbol ',' || t.isSymbol '/' then
      match values finish closing false r with
      | .error e => .error e
      | .ok ((rest, flag), ⟨r₁, h₁⟩) =>
        .ok ((.operator t.text :: rest, flag), ⟨r₁, by omega⟩)
    else if t.kind == .word || t.kind == .string || t.kind == .url then
      match values finish closing false r with
      | .error e => .error e
      | .ok ((rest, flag), ⟨r₁, h₁⟩) => .ok ((.literal t.text :: rest, flag), ⟨r₁, by omega⟩)
    else if t.kind == .function then
      match functionValue finish t r with
      | .error e => .error e
      | .ok (v, ⟨r₁, h₁⟩) =>
        match values finish closing false r₁ with
        | .error e => .error e
        | .ok ((rest, flag), ⟨r₂, h₂⟩) => .ok ((v :: rest, flag), ⟨r₂, by omega⟩)
    else fault (.unexpectedInValue t.found) t
termination_by 2 * ts.length

/-- The component that a function token starts. The two functions that read run-time values take
strings only. -/
def functionValue (finish function : Token) (ts : List Token) : Reading Node ts :=
  if functionName function == "eval" then
    match stringArguments finish function 1 1 ts with
    | .error e => .error e
    | .ok (args, r) => .ok (.runtime (args.headD ""), r)
  else if functionName function == "value" then
    match stringArguments finish function 1 3 ts with
    | .error e => .error e
    | .ok (args, r) => .ok (dotPath args, r)
  else
    match values finish [')'] false ts with
    | .error e => .error e
    | .ok ((args, important), ⟨r, hr⟩) =>
      if important then fault .importantInFunction function
      else
        match symbol finish ')' r with
        | .error e => .error e
        | .ok ⟨r₁, h₁⟩ => .ok (.function (functionName function) args, ⟨r₁, by omega⟩)
termination_by 2 * ts.length + 1

end

/-! ### Declarations -/

/-- A declaration, whose first token is given. -/
def declaration (finish name : Token) (ts : List Token) : Reading Node ts :=
  if name.kind == .word then
    match symbolAfterBlanks finish ':' ts with
    | .error e => .error e
    | .ok ⟨r, hr⟩ =>
      match values finish ['}', ';'] false r with
      | .error e => .error e
      | .ok ((vs, important), ⟨r₁, h₁⟩) =>
        if vs.isEmpty then fault (.expectedValue name.text) name
        else .ok (.declaration name.text vs important, ⟨r₁, by omega⟩)
  else fault (.expectedProperty name.found) name

/-- Declarations up to and with the brace that ends them. -/
def declarations (finish : Token) (ts : List Token) : Reading (List Node) ts :=
  match h : skipBlanks ts with
  | [] => fault (.expectedProperty finish.found) finish
  | t :: r =>
    have hr : r.length < ts.length := by
      have := length_skipBlanks_le ts
      rw [h, List.length_cons] at this
      omega
    if t.isSymbol '}' then .ok ([], ⟨r, hr⟩)
    else if t.isSymbol ';' then
      match declarations finish r with
      | .error e => .error e
      | .ok (rest, ⟨r₁, h₁⟩) => .ok (rest, ⟨r₁, by omega⟩)
    else if t.kind == .atKeyword then fault (.keywordInDeclarations t.text) t
    else
      match declaration finish t r with
      | .error e => .error e
      | .ok (d, ⟨r₁, h₁⟩) =>
        match declarations finish r₁ with
        | .error e => .error e
        | .ok (rest, ⟨r₂, h₂⟩) => .ok (d :: rest, ⟨r₂, by omega⟩)
termination_by ts.length

/-- Declarations between braces. -/
def declarationBlock (finish : Token) (ts : List Token) : Reading (List Node) ts :=
  match symbol finish '{' ts with
  | .error e => .error e
  | .ok ⟨r, hr⟩ =>
    match declarations finish r with
    | .error e => .error e
    | .ok (ds, ⟨r₁, h₁⟩) => .ok (ds, ⟨r₁, by omega⟩)

/-! ### Rulesets -/

/-- How a token changes the depth of parentheses. -/
def depthStep (t : Token) : Int :=
  if t.kind == .function || t.isSymbol '(' then 1
  else if t.isSymbol ')' then -1
  else 0

/-- The tokens of the selector that is being read, those of the selectors after it, and the tokens
from the opening brace on. Commas outside of parentheses separate selectors. -/
def selectors (finish : Token) (depth : Int) :
    (ts : List Token) → Continuing (List Token × List (List Token)) ts
  | [] => fault (.unexpectedInSelector finish.found) finish
  | t :: r =>
    if depth == 0 && t.isSymbol '{' then .ok (([], []), ⟨t :: r, Nat.le_refl _⟩)
    else if t.isSymbol ';' || t.isSymbol '}' then fault (.unexpectedInSelector t.found) t
    else
      match selectors finish (depth + depthStep t) r with
      | .error e => .error e
      | .ok ((first, others), ⟨r₁, h₁⟩) =>
        if depth + depthStep t == 0 && t.isSymbol ',' then
          .ok (([], first :: others), ⟨r₁, Nat.le_succ_of_le h₁⟩)
        else .ok ((t :: first, others), ⟨r₁, Nat.le_succ_of_le h₁⟩)

/-- A ruleset. No selector may be empty. -/
def ruleset (finish : Token) (ts : List Token) : Reading Node ts :=
  match selectors finish 0 ts with
  | .error e => .error e
  | .ok ((first, others), ⟨r, hr⟩) =>
    let texts := (first :: others).map joinTokens
    if texts.any String.isEmpty then fault .emptySelector (current finish ts)
    else
      match declarationBlock finish r with
      | .error e => .error e
      | .ok (ds, ⟨r₁, h₁⟩) => .ok (.ruleset texts ds, ⟨r₁, by omega⟩)

/-! ### Conditions -/

/-- Counts negations, with blanks after each, and gives whether their number is odd. -/
def negations (negated : Bool) (ts : List Token) : Bool × Within ts :=
  match ts with
  | [] => (negated, ⟨[], Nat.le_refl _⟩)
  | t :: r =>
    if t.isSymbol '!' then
      have := length_skipBlanks_le r
      match negations (!negated) (skipBlanks r) with
      | (odd, ⟨r₁, h₁⟩) => (odd, ⟨r₁, by simp only [List.length_cons]; omega⟩)
    else (negated, ⟨t :: r, Nat.le_refl _⟩)
termination_by ts.length
decreasing_by
  simp only [List.length_cons]
  omega

/-- The text of a condition: that of its expression, in parentheses after `!` if it is negated. -/
def condition (finish : Token) (ts : List Token) : Reading String ts :=
  have h₀ := length_skipBlanks_le ts
  match negations false (skipBlanks ts) with
  | (_, ⟨[], _⟩) => fault .expectedCondition finish
  | (negated, ⟨t :: r, hr⟩) =>
    have h₁ : r.length < ts.length := Nat.lt_of_lt_of_le (Nat.lt_of_succ_le hr) h₀
    if t.kind == .function && functionName t == "eval" then
      match stringArguments finish t 1 1 r with
      | .error e => .error e
      | .ok (args, ⟨r₁, h₂⟩) =>
        let expression := args.headD ""
        have h₃ := length_skipBlanks_le r₁
        .ok (if negated then "!(" ++ expression ++ ")" else expression,
          ⟨skipBlanks r₁, by omega⟩)
    else fault .expectedCondition t

/-- The condition of a branch, in parentheses; the last branch has none. -/
def branchCondition (finish : Token) (branch : Branch) (ts : List Token) :
    Continuing (Option String) ts :=
  if branch == .otherwise then .ok (none, ⟨ts, Nat.le_refl _⟩)
  else
    match symbolAfterBlanks finish '(' ts with
    | .error e => .error e
    | .ok ⟨r, hr⟩ =>
      match condition finish r with
      | .error e => .error e
      | .ok (c, ⟨r₁, h₁⟩) =>
        match symbol finish ')' r₁ with
        | .error e => .error e
        | .ok ⟨r₂, h₂⟩ => .ok (some c, ⟨r₂, by omega⟩)

/-! ### Rules -/

/-- The name of an at-keyword, in the case it is written in. -/
def atName (t : Token) : String :=
  String.ofList (t.text.toList.drop 1)

/-- The tokens before the semicolon or the brace that ends the parameters of an at-rule, and the
tokens from there on. -/
def parameters (ts : List Token) : List Token × Within ts :=
  let ends := fun (t : Token) => t.isSymbol ';' || t.isSymbol '{' || t.isSymbol '}'
  (ts.takeWhile (!ends ·), ⟨ts.dropWhile (!ends ·), (List.dropWhile_sublist _).length_le⟩)

mutual

/-- Rules up to the end of the source or, if `nested`, up to the closing brace, which is not
taken. Semicolons between rules are skipped. -/
def rules (finish : Token) (nested : Bool) (ts : List Token) : Continuing (List Node) ts :=
  match h : skipBlanks ts with
  | [] => if nested then fault .unclosedBody finish else .ok ([], ⟨[], Nat.zero_le _⟩)
  | t :: r =>
    have hr : r.length < ts.length := by
      have := length_skipBlanks_le ts
      rw [h, List.length_cons] at this
      omega
    if nested && t.isSymbol '}' then .ok ([], ⟨t :: r, by simp only [List.length_cons]; omega⟩)
    else if t.isSymbol ';' then
      match rules finish nested r with
      | .error e => .error e
      | .ok (rest, ⟨r₁, h₁⟩) => .ok (rest, ⟨r₁, by omega⟩)
    else
      match rule finish t r with
      | .error e => .error e
      | .ok (n, ⟨r₁, h₁⟩) =>
        match rules finish nested r₁ with
        | .error e => .error e
        | .ok (rest, ⟨r₂, h₂⟩) => .ok (n :: rest, ⟨r₂, by omega⟩)
termination_by 4 * ts.length + 3

/-- A rule, whose first token is given. -/
def rule (finish t : Token) (ts : List Token) : Continuing Node ts :=
  if t.kind == .atKeyword then
    let name := lowerCase (atName t)
    if name == "if" then
      match branch finish .ifTrue ts with
      | .error e => .error e
      | .ok (b, ⟨r, hr⟩) =>
        match branches finish r with
        | .error e => .error e
        | .ok (bs, ⟨r₁, h₁⟩) => .ok (.conditionalBlock (b :: bs), ⟨r₁, by omega⟩)
    else if name == "elseif" || name == "else" then fault (.strayBranch name) t
    else atRule finish t ts
  else
    match ruleset finish (t :: ts) with
    | .error e => .error e
    | .ok (n, ⟨r, hr⟩) => .ok (n, ⟨r, Nat.le_of_lt_succ hr⟩)
termination_by 4 * ts.length + 2

/-- The branches of a conditional block after its first. An `@else` is the last. -/
def branches (finish : Token) (ts : List Token) : Continuing (List Node) ts :=
  match h : skipBlanks ts with
  | [] => .ok ([], ⟨[], Nat.zero_le _⟩)
  | t :: r =>
    have hr : r.length < ts.length := by
      have := length_skipBlanks_le ts
      rw [h, List.length_cons] at this
      omega
    if t.kind == .atKeyword && lowerCase (atName t) == "elseif" then
      match branch finish .elseIf r with
      | .error e => .error e
      | .ok (b, ⟨r₁, h₁⟩) =>
        match branches finish r₁ with
        | .error e => .error e
        | .ok (bs, ⟨r₂, h₂⟩) => .ok (b :: bs, ⟨r₂, by omega⟩)
    else if t.kind == .atKeyword && lowerCase (atName t) == "else" then
      match branch finish .otherwise r with
      | .error e => .error e
      | .ok (b, ⟨r₁, h₁⟩) => .ok ([b], ⟨r₁, by omega⟩)
    else .ok ([], ⟨t :: r, by simp only [List.length_cons]; omega⟩)
termination_by 4 * ts.length

/-- A branch after its keyword: its condition and its body. -/
def branch (finish : Token) (kind : Branch) (ts : List Token) : Reading Node ts :=
  match branchCondition finish kind ts with
  | .error e => .error e
  | .ok (c, ⟨r, hr⟩) =>
    match symbolAfterBlanks finish '{' r with
    | .error e => .error e
    | .ok ⟨r₁, h₁⟩ =>
      match rules finish true r₁ with
      | .error e => .error e
      | .ok (body, ⟨r₂, h₂⟩) =>
        match symbol finish '}' r₂ with
        | .error e => .error e
        | .ok ⟨r₃, h₃⟩ => .ok (.conditionalRule kind c body, ⟨r₃, by omega⟩)
termination_by 4 * ts.length

/-- An at-rule after its keyword: parameters, then a semicolon or a body. -/
def atRule (finish keyword : Token) (ts : List Token) : Continuing Node ts :=
  let name := atName keyword
  match parameters ts with
  | (_, ⟨[], _⟩) => fault (.unexpectedInAtRule finish.found name) finish
  | (params, ⟨t :: r, hr⟩) =>
    have h₀ : r.length < ts.length := Nat.lt_of_succ_le hr
    if t.isSymbol ';' then .ok (.atRule name (joinTokens params) none none, ⟨r, by omega⟩)
    else if t.isSymbol '}' then fault (.unexpectedInAtRule t.found name) t
    else if declarationRules.contains (lowerCase name) then
      match declarations finish r with
      | .error e => .error e
      | .ok (ds, ⟨r₁, h₁⟩) =>
        .ok (.atRule name (joinTokens params) none (some ds), ⟨r₁, by omega⟩)
    else
      match rules finish true r with
      | .error e => .error e
      | .ok (body, ⟨r₁, h₁⟩) =>
        match symbol finish '}' r₁ with
        | .error e => .error e
        | .ok ⟨r₂, h₂⟩ => .ok (.atRule name (joinTokens params) (some body) none, ⟨r₂, by omega⟩)
termination_by 4 * ts.length + 1

end

end Parser

/-- The tree of a source text. -/
def parse (source : String) : Except SyntaxError Node :=
  match scan source with
  | .error e => .error e
  | .ok s =>
    match Parser.rules s.finish false s.tokens with
    | .error e => .error e
    | .ok (body, _) => .ok (.stylesheet body)

end ConditionalStyle.Stylesheet
