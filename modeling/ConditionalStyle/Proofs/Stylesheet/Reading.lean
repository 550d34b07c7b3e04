import ConditionalStyle.Proofs.Reading
import ConditionalStyle.Stylesheet.Parser

/-!
# The functions that read a stylesheet, without their bounds

Each function that reads a part of a stylesheet gets an equation in which the bounds on what is left
are forgotten.

## Main definitions

* `Parser.after`: the tokens after a symbol that must come next.

## Main statements

* one equation `Parser.plain_…` for each reading function.
* `parse_of_ok`, `parse_of_error`: what is read of a source.
-/

namespace ConditionalStyle.Stylesheet.Parser

variable (finish : Token)

/-- The tokens after the given symbol, which must come next. -/
def after (c : Char) : List Token → Except SyntaxError (List Token)
  | [] => fault (.expectedSymbol c finish.found) finish
  | t :: rest => if t.isSymbol c then .ok rest else fault (.expectedSymbol c t.found) t

theorem symbol_map (c : Char) (ts : List Token) :
    (symbol finish c ts).map Subtype.val = after finish c ts := by
  cases ts with
  | nil => rfl
  | cons t rest =>
    simp only [symbol, after]
    split <;> rfl

theorem after_of_error {c : Char} {ts : List Token} {e : SyntaxError}
    (h : symbol finish c ts = .error e) : after finish c ts = .error e := by
  rw [← symbol_map, h]
  rfl

theorem after_of_ok {c : Char} {ts : List Token} {r : Shorter ts}
    (h : symbol finish c ts = .ok r) : after finish c ts = .ok r.1 := by
  rw [← symbol_map, h]
  rfl

theorem symbolAfterBlanks_map (c : Char) (ts : List Token) :
    (symbolAfterBlanks finish c ts).map Subtype.val = after finish c (skipBlanks ts) := by
  rw [symbolAfterBlanks]
  rcases h : symbol finish c (skipBlanks ts) with e | ⟨r, hr⟩
  · rw [after_of_error finish h]
    rfl
  · rw [after_of_ok finish h]
    rfl

theorem afterBlanks_of_error {c : Char} {ts : List Token} {e : SyntaxError}
    (h : symbolAfterBlanks finish c ts = .error e) :
    after finish c (skipBlanks ts) = .error e := by
  rw [← symbolAfterBlanks_map, h]
  rfl

theorem afterBlanks_of_ok {c : Char} {ts : List Token} {r : Shorter ts}
    (h : symbolAfterBlanks finish c ts = .ok r) : after finish c (skipBlanks ts) = .ok r.1 := by
  rw [← symbolAfterBlanks_map, h]
  rfl

theorem skipBlanks_suffix (ts : List Token) : skipBlanks ts <:+ ts :=
  List.dropWhile_suffix _

theorem suffix_of_skipBlanks {t : Token} {ts r : List Token} (h : skipBlanks ts = t :: r) :
    t :: r <:+ ts :=
  h ▸ skipBlanks_suffix ts

theorem length_lt_of_skipBlanks {t : Token} {ts r : List Token} (h : skipBlanks ts = t :: r) :
    r.length < ts.length :=
  (suffix_of_skipBlanks h).length_le

theorem kind_of_skipBlanks {t : Token} {ts r : List Token} (h : skipBlanks ts = t :: r) :
    t.kind ≠ .blank := by
  have hhead := List.head?_dropWhile_not (fun t : Token => t.kind == .blank) ts
  rw [← skipBlanks, h] at hhead
  simpa using hhead

variable {finish} in
theorem eq_cons_of_after {c : Char} {ts r : List Token} (h : after finish c ts = .ok r) :
    ∃ t, ts = t :: r ∧ t.isSymbol c = true := by
  rcases ts with _ | ⟨t, rest⟩
  · cases h
  · simp only [after] at h
    split at h
    · next ht =>
      cases h
      exact ⟨t, rfl, ht⟩
    · cases h

variable {finish} in
theorem suffix_of_after {c : Char} {ts r : List Token} (h : after finish c ts = .ok r) :
    r <:+ ts := by
  obtain ⟨t, rfl, -⟩ := eq_cons_of_after h
  exact List.suffix_cons t r

/-! ### Values -/

theorem plain_strings (function : Token) (ts : List Token) :
    plain (strings finish function ts) =
      match skipBlanks ts with
      | [] => fault (.expectedString function.text) finish
      | t :: r =>
        if t.kind == .string then
          match skipBlanks r with
          | [] => fault (.expectedSymbol ',' finish.found) finish
          | u :: r₁ =>
            if u.isSymbol ')' then .ok ([unquote t.text], r₁)
            else if u.isSymbol ',' then
              (plain (strings finish function r₁)).bind fun (rest, r₂) =>
                .ok (unquote t.text :: rest, r₂)
            else fault (.expectedSymbol ',' u.found) u
        else fault (.expectedString function.text) t := by
  rw [strings]
  split
  · next h =>
    rw [h]
    rfl
  next t r h =>
  conv => rhs; rw [h]
  dsimp only
  split
  · split
    · next h₁ =>
      rw [h₁]
      rfl
    next u r₁ h₁ =>
    conv => rhs; rw [h₁]
    dsimp only
    split
    · rfl
    split
    · rcases strings finish function r₁ with e | ⟨rest, r₂, h₂⟩ <;> rfl
    · rfl
  · rfl

theorem plain_stringArguments (function : Token) (least most : Nat) (ts : List Token) :
    plain (stringArguments finish function least most ts) =
      (plain (strings finish function ts)).bind fun (args, r) =>
        if least ≤ args.length && args.length ≤ most then .ok (args, r)
        else fault (.argumentCount function.text least most args.length) function := by
  rw [stringArguments]
  rcases strings finish function ts with e | ⟨args, r, hr⟩
  · rfl
  dsimp only [plain_ok, Except.bind]
  split <;> rfl

theorem plain_values (closing : List Char) (important : Bool) (ts : List Token) :
    plain (values finish closing important ts) =
      match skipBlanks ts with
      | [] => fault .unfinishedValue finish
      | t :: r =>
        if closing.any t.isSymbol then .ok (([], important), t :: r)
        else if t.isSymbol '!' then
          match skipBlanks r with
          | [] => fault .expectedImportant finish
          | u :: r₁ =>
            if isImportant u then plain (values finish closing true r₁)
            else fault .expectedImportant u
        else if important then fault .valueAfterImportant t
        else if t.isSymbol ',' || t.isSymbol '/' then
          (plain (values finish closing false r)).bind fun ((rest, flag), r₁) =>
            .ok ((.operator t.text :: rest, flag), r₁)
        else if t.kind == .word || t.kind == .string || t.kind == .url then
          (plain (values finish closing false r)).bind fun ((rest, flag), r₁) =>
            .ok ((.literal t.text :: rest, flag), r₁)
        else if t.kind == .function then
          (plain (functionValue finish t r)).bind fun (v, r₁) =>
            (plain (values finish closing false r₁)).bind fun ((rest, flag), r₂) =>
              .ok ((v :: rest, flag), r₂)
        else fault (.unexpectedInValue t.found) t := by
  -- both sides branch alike, and in each branch only the bound is dropped
  rw [values]
  split
  · next h =>
    rw [h]
    rfl
  next t r h =>
  conv => rhs; rw [h]
  dsimp only
  split
  · rfl
  split
  · split
    · next h₁ =>
      rw [h₁]
      rfl
    next u r₁ h₁ =>
    conv => rhs; rw [h₁]
    dsimp only
    split
    · rcases values finish closing true r₁ with e | ⟨read, r₂, h₂⟩ <;> rfl
    · rfl
  split
  · rfl
  split
  · rcases values finish closing false r with e | ⟨⟨rest, flag⟩, r₁, h₁⟩ <;> rfl
  split
  · rcases values finish closing false r with e | ⟨⟨rest, flag⟩, r₁, h₁⟩ <;> rfl
  split
  · rcases functionValue finish t r with e | ⟨v, r₁, h₁⟩
    · rfl
    dsimp only [plain_ok, Except.bind]
    rcases values finish closing false r₁ with e | ⟨⟨rest, flag⟩, r₂, h₂⟩ <;> rfl
  · rfl

theorem plain_functionValue (function : Token) (ts : List Token) :
    plain (functionValue finish function ts) =
      if functionName function == "eval" then
        (plain (stringArguments finish function 1 1 ts)).bind fun (args, r) =>
          .ok (.runtime (args.headD ""), r)
      else if functionName function == "value" then
        (plain (stringArguments finish function 1 3 ts)).bind fun (args, r) =>
          .ok (dotPath args, r)
      else (plain (values finish [')'] false ts)).bind fun ((args, important), r) =>
        if important then fault .importantInFunction function
        else (after finish ')' r).bind fun r₁ =>
          .ok (.function (functionName function) args, r₁) := by
  rw [functionValue]
  split
  · rcases stringArguments finish function 1 1 ts with e | ⟨args, r, hr⟩ <;> rfl
  split
  · rcases stringArguments finish function 1 3 ts with e | ⟨args, r, hr⟩ <;> rfl
  rcases values finish [')'] false ts with e | ⟨⟨args, important⟩, r, hr⟩
  · rfl
  dsimp only [plain_ok, Except.bind]
  split
  · rfl
  rcases h : symbol finish ')' r with e | ⟨r₁, h₁⟩
  · rw [after_of_error finish h]
    rfl
  · rw [after_of_ok finish h]
    rfl

/-! ### Declarations and rulesets -/

theorem plain_declaration (name : Token) (ts : List Token) :
    plain (declaration finish name ts) =
      if name.kind == .word then
        (after finish ':' (skipBlanks ts)).bind fun r =>
          (plain (values finish ['}', ';'] false r)).bind fun ((vs, important), r₁) =>
            if vs.isEmpty then fault (.expectedValue name.text) name
            else .ok (.declaration name.text vs important, r₁)
      else fault (.expectedProperty name.found) name := by
  rw [declaration]
  split
  · rcases h : symbolAfterBlanks finish ':' ts with e | ⟨r, hr⟩
    · rw [afterBlanks_of_error finish h]
      rfl
    rw [afterBlanks_of_ok finish h]
    dsimp only [Except.bind]
    rcases values finish ['}', ';'] false r with e | ⟨⟨vs, important⟩, r₁, h₁⟩
    · rfl
    dsimp only [plain_ok]
    split <;> rfl
  · rfl

theorem plain_declarations (ts : List Token) :
    plain (declarations finish ts) =
      match skipBlanks ts with
      | [] => fault (.expectedProperty finish.found) finish
      | t :: r =>
        if t.isSymbol '}' then .ok ([], r)
        else if t.isSymbol ';' then plain (declarations finish r)
        else if t.kind == .atKeyword then fault (.keywordInDeclarations t.text) t
        else (plain (declaration finish t r)).bind fun (d, r₁) =>
          (plain (declarations finish r₁)).bind fun (rest, r₂) => .ok (d :: rest, r₂) := by
  rw [declarations]
  split
  · next h =>
    rw [h]
    rfl
  next t r h =>
  conv => rhs; rw [h]
  dsimp only
  split
  · rfl
  split
  · rcases declarations finish r with e | ⟨rest, r₁, h₁⟩ <;> rfl
  split
  · rfl
  rcases declaration finish t r with e | ⟨d, r₁, h₁⟩
  · rfl
  dsimp only [plain_ok, Except.bind]
  rcases declarations finish r₁ with e | ⟨rest, r₂, h₂⟩ <;> rfl

theorem plain_declarationBlock (ts : List Token) :
    plain (declarationBlock finish ts) =
      (after finish '{' ts).bind fun r => plain (declarations finish r) := by
  rw [declarationBlock]
  rcases h : symbol finish '{' ts with e | ⟨r, hr⟩
  · rw [after_of_error finish h]
    rfl
  rw [after_of_ok finish h]
  dsimp only [Except.bind]
  rcases declarations finish r with e | ⟨ds, r₁, h₁⟩ <;> rfl

theorem plain_selectors (depth : Int) (t : Token) (r : List Token) :
    plain (selectors finish depth (t :: r)) =
      if depth == 0 && t.isSymbol '{' then .ok (([], []), t :: r)
      else if t.isSymbol ';' || t.isSymbol '}' then fault (.unexpectedInSelector t.found) t
      else (plain (selectors finish (depth + depthStep t) r)).bind fun ((first, others), r₁) =>
        if depth + depthStep t == 0 && t.isSymbol ',' then .ok (([], first :: others), r₁)
        else .ok ((t :: first, others), r₁) := by
  rw [selectors]
  split
  · rfl
  split
  · rfl
  rcases selectors finish (depth + depthStep t) r with e | ⟨⟨first, others⟩, r₁, h₁⟩
  · rfl
  dsimp only [plain_ok, Except.bind]
  split <;> rfl

theorem plain_ruleset (ts : List Token) :
    plain (ruleset finish ts) = (plain (selectors finish 0 ts)).bind fun ((first, others), r) =>
      if ((first :: others).map joinTokens).any String.isEmpty then
        fault .emptySelector (current finish ts)
      else (plain (declarationBlock finish r)).bind fun (ds, r₁) =>
        .ok (.ruleset ((first :: others).map joinTokens) ds, r₁) := by
  rw [ruleset]
  rcases selectors finish 0 ts with e | ⟨⟨first, others⟩, r, hr⟩
  · rfl
  dsimp only [plain_ok, Except.bind]
  split
  · rfl
  rcases declarationBlock finish r with e | ⟨ds, r₁, h₁⟩ <;> rfl

/-! ### Conditions -/

theorem plain_condition (ts : List Token) :
    plain (condition finish ts) =
      match (negations false (skipBlanks ts)).2.1 with
      | [] => fault .expectedCondition finish
      | t :: r =>
        if t.kind == .function && functionName t == "eval" then
          (plain (stringArguments finish t 1 1 r)).bind fun (args, r₁) =>
            .ok (if (negations false (skipBlanks ts)).1 then "!(" ++ args.headD "" ++ ")"
              else args.headD "", skipBlanks r₁)
        else fault .expectedCondition t := by
  rw [condition]
  rcases negations false (skipBlanks ts) with ⟨negated, _ | ⟨t, r⟩, hr⟩
  · rfl
  dsimp only
  split
  · rcases stringArguments finish t 1 1 r with e | ⟨args, r₁, h₁⟩ <;> rfl
  · rfl

theorem plain_branchCondition (kind : Branch) (ts : List Token) :
    plain (branchCondition finish kind ts) =
      if kind == .otherwise then .ok (none, ts)
      else (after finish '(' (skipBlanks ts)).bind fun r =>
        (plain (condition finish r)).bind fun (c, r₁) =>
          (after finish ')' r₁).bind fun r₂ => .ok (some c, r₂) := by
  rw [branchCondition]
  split
  · rfl
  rcases h : symbolAfterBlanks finish '(' ts with e | ⟨r, hr⟩
  · rw [afterBlanks_of_error finish h]
    rfl
  rw [afterBlanks_of_ok finish h]
  dsimp only [Except.bind]
  rcases condition finish r with e | ⟨c, r₁, h₁⟩
  · rfl
  dsimp only [plain_ok]
  rcases h' : symbol finish ')' r₁ with e | ⟨r₂, h₂⟩
  · rw [after_of_error finish h']
    rfl
  · rw [after_of_ok finish h']
    rfl

/-! ### Rules -/

theorem plain_rules (nested : Bool) (ts : List Token) :
    plain (rules finish nested ts) =
      match skipBlanks ts with
      | [] => if nested then fault .unclosedBody finish else .ok ([], [])
      | t :: r =>
        if nested && t.isSymbol '}' then .ok ([], t :: r)
        else if t.isSymbol ';' then plain (rules finish nested r)
        else (plain (rule finish t r)).bind fun (n, r₁) =>
          (plain (rules finish nested r₁)).bind fun (rest, r₂) => .ok (n :: rest, r₂) := by
  rw [rules]
  split
  · next h =>
    rw [h]
    dsimp only
    split <;> rfl
  next t r h =>
  conv => rhs; rw [h]
  dsimp only
  split
  · rfl
  split
  · rcases rules finish nested r with e | ⟨rest, r₁, h₁⟩ <;> rfl
  rcases rule finish t r with e | ⟨n, r₁, h₁⟩
  · rfl
  dsimp only [plain_ok, Except.bind]
  rcases rules finish nested r₁ with e | ⟨rest, r₂, h₂⟩ <;> rfl

theorem plain_rule (t : Token) (ts : List Token) :
    plain (rule finish t ts) =
      if t.kind == .atKeyword then
        if lowerCase (atName t) == "if" then
          (plain (branch finish .ifTrue ts)).bind fun (b, r) =>
            (plain (branches finish r)).bind fun (bs, r₁) => .ok (.conditionalBlock (b :: bs), r₁)
        else if lowerCase (atName t) == "elseif" || lowerCase (atName t) == "else" then
          fault (.strayBranch (lowerCase (atName t))) t
        else plain (atRule finish t ts)
      else plain (ruleset finish (t :: ts)) := by
  rw [rule]
  split
  · dsimp only
    split
    · rcases branch finish .ifTrue ts with e | ⟨b, r, hr⟩
      · rfl
      dsimp only [plain_ok, Except.bind]
      rcases branches finish r with e | ⟨bs, r₁, h₁⟩ <;> rfl
    split <;> rfl
  · rcases ruleset finish (t :: ts) with e | ⟨n, r, hr⟩ <;> rfl

theorem plain_branches (ts : List Token) :
    plain (branches finish ts) =
      match skipBlanks ts with
      | [] => .ok ([], [])
      | t :: r =>
        if t.kind == .atKeyword && lowerCase (atName t) == "elseif" then
          (plain (branch finish .elseIf r)).bind fun (b, r₁) =>
            (plain (branches finish r₁)).bind fun (bs, r₂) => .ok (b :: bs, r₂)
        else if t.kind == .atKeyword && lowerCase (atName t) == "else" then
          (plain (branch finish .otherwise r)).bind fun (b, r₁) => .ok ([b], r₁)
        else .ok ([], t :: r) := by
  rw [branches]
  split
  · next h =>
    rw [h]
    rfl
  next t r h =>
  conv => rhs; rw [h]
  dsimp only
  split
  · rcases branch finish .elseIf r with e | ⟨b, r₁, h₁⟩
    · rfl
    dsimp only [plain_ok, Except.bind]
    rcases branches finish r₁ with e | ⟨bs, r₂, h₂⟩ <;> rfl
  split
  · rcases branch finish .otherwise r with e | ⟨b, r₁, h₁⟩ <;> rfl
  · rfl

theorem plain_branch (kind : Branch) (ts : List Token) :
    plain (branch finish kind ts) =
      (plain (branchCondition finish kind ts)).bind fun (c, r) =>
        (after finish '{' (skipBlanks r)).bind fun r₁ =>
          (plain (rules finish true r₁)).bind fun (body, r₂) =>
            (after finish '}' r₂).bind fun r₃ => .ok (.conditionalRule kind c body, r₃) := by
  rw [branch]
  rcases branchCondition finish kind ts with e | ⟨c, r, hr⟩
  · rfl
  dsimp only [plain_ok, Except.bind]
  rcases h : symbolAfterBlanks finish '{' r with e | ⟨r₁, h₁⟩
  · rw [afterBlanks_of_error finish h]
    rfl
  rw [afterBlanks_of_ok finish h]
  dsimp only
  rcases rules finish true r₁ with e | ⟨body, r₂, h₂⟩
  · rfl
  dsimp only [plain_ok]
  rcases h' : symbol finish '}' r₂ with e | ⟨r₃, h₃⟩
  · rw [after_of_error finish h']
    rfl
  · rw [after_of_ok finish h']
    rfl

theorem plain_atRule (keyword : Token) (ts : List Token) :
    plain (atRule finish keyword ts) =
      match (parameters ts).2.1 with
      | [] => fault (.unexpectedInAtRule finish.found (atName keyword)) finish
      | t :: r =>
        if t.isSymbol ';' then
          .ok (.atRule (atName keyword) (joinTokens (parameters ts).1) none none, r)
        else if t.isSymbol '}' then fault (.unexpectedInAtRule t.found (atName keyword)) t
        else if declarationRules.contains (lowerCase (atName keyword)) then
          (plain (declarations finish r)).bind fun (ds, r₁) =>
            .ok (.atRule (atName keyword) (joinTokens (parameters ts).1) none (some ds), r₁)
        else (plain (rules finish true r)).bind fun (body, r₁) =>
          (after finish '}' r₁).bind fun r₂ =>
            .ok (.atRule (atName keyword) (joinTokens (parameters ts).1) (some body) none, r₂) := by
  rw [atRule]
  rcases parameters ts with ⟨params, _ | ⟨t, r⟩, hr⟩
  · rfl
  dsimp only
  split
  · rfl
  split
  · rfl
  split
  · rcases declarations finish r with e | ⟨ds, r₁, h₁⟩ <;> rfl
  rcases rules finish true r with e | ⟨body, r₁, h₁⟩
  · rfl
  dsimp only [plain_ok, Except.bind]
  rcases h : symbol finish '}' r₁ with e | ⟨r₂, h₂⟩
  · rw [after_of_error finish h]
    rfl
  · rw [after_of_ok finish h]
    rfl

end ConditionalStyle.Stylesheet.Parser

namespace ConditionalStyle.Stylesheet

open Stylesheet.Parser

/-! ### Sources -/

theorem parse_of_error {source : String} {e : SyntaxError} (h : scan source = .error e) :
    parse source = .error e := by
  rw [parse, h]

theorem parse_of_ok {source : String} {s : Scanned} (h : scan source = .ok s) :
    parse source = (plain (rules s.finish false s.tokens)).map fun read => .stylesheet read.1 := by
  rw [parse, h]
  dsimp only
  rcases rules s.finish false s.tokens with e | ⟨body, r⟩ <;> rfl

end ConditionalStyle.Stylesheet
