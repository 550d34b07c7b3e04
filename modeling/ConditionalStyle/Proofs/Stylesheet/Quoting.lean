import ConditionalStyle.Proofs.Stylesheet.Rereading

/-!
# Texts between quotes

Every text can be written as a string: a backslash goes before each backslash, each line feed and
each quote of the kind that encloses it. Such a string is scanned as one token in front of whatever
follows, and what is read from it is the text. So the expressions of a stylesheet can be any texts.

## Main definitions

* `shielded`, `quoted`: a text between quotes.
* `argumentTerminals`: the terminals of quoted arguments.

## Main statements

* `unquote_quoted`, `lexed_quoted`: a quoted text is one string, from which the text is read.
* `readsValues_eval`, `readsValues_value`: values with quoted arguments.
* `condition_of_bangs`: conditions with any number of exclamation marks.
* `parse_quoted`: the three places of a stylesheet that take an expression.
-/

namespace ConditionalStyle.Stylesheet

open Text Stylesheet.Parser

/-! ### Quoted texts -/

/-- A text with a backslash before each backslash, each line feed and each of the given quotes. -/
def shielded (mark : Char) (cs : List Char) : List Char :=
  cs.flatMap fun c => if c == '\\' || c == mark || c == '\n' then ['\\', c] else [c]

/-- A text between two of the given quotes. -/
def quoted (mark : Char) (s : String) : String :=
  String.ofList (mark :: (shielded mark s.toList ++ [mark]))

/-- The quotes of stylesheets. -/
def IsQuote (mark : Char) : Prop :=
  mark = '"' ∨ mark = '\''

variable {mark : Char}

theorem shielded_cons_of_shielded {c : Char} (h : c = '\\' ∨ c = mark ∨ c = '\n')
    (cs : List Char) : shielded mark (c :: cs) = '\\' :: c :: shielded mark cs := by
  rw [shielded, List.flatMap_cons, if_pos (by simpa [or_assoc] using h)]
  rfl

theorem shielded_cons_of_plain {c : Char} (h : ¬(c = '\\' ∨ c = mark ∨ c = '\n'))
    (cs : List Char) : shielded mark (c :: cs) = c :: shielded mark cs := by
  rw [shielded, List.flatMap_cons, if_neg (by simpa [or_assoc] using h)]
  rfl

theorem quotedBody_shielded (mark : Char) (cs : List Char) :
    QuotedBody mark true (shielded mark cs) := by
  induction cs with
  | nil => exact .nil
  | cons c cs ih =>
    by_cases h : c = '\\' ∨ c = mark ∨ c = '\n'
    · rw [shielded_cons_of_shielded h]
      exact .escaped (.inr rfl) ih
    · rw [shielded_cons_of_plain h]
      simp only [not_or] at h
      exact .plain h.2.1 h.1 h.2.2 ih

theorem dropBackslashes_escaped (c : Char) (cs : List Char) :
    dropBackslashes ('\\' :: c :: cs) = c :: dropBackslashes cs := by
  rw [dropBackslashes, if_pos (by decide)]

theorem dropBackslashes_cons {c : Char} (h : c ≠ '\\') (cs : List Char) :
    dropBackslashes (c :: cs) = c :: dropBackslashes cs := by
  cases cs with
  | nil => rfl
  | cons d cs => rw [dropBackslashes, if_neg (by simpa using h)]

theorem dropBackslashes_shielded (mark : Char) (cs : List Char) :
    dropBackslashes (shielded mark cs) = cs := by
  induction cs with
  | nil => rfl
  | cons c cs ih =>
    by_cases h : c = '\\' ∨ c = mark ∨ c = '\n'
    · rw [shielded_cons_of_shielded h, dropBackslashes_escaped, ih]
    · rw [shielded_cons_of_plain h, dropBackslashes_cons fun hc => h (.inl hc), ih]

theorem toList_quoted (mark : Char) (s : String) :
    (quoted mark s).toList = mark :: (shielded mark s.toList ++ [mark]) := by
  rw [quoted, String.toList_ofList]

theorem unquote_quoted (mark : Char) (s : String) : unquote (quoted mark s) = s := by
  rw [unquote, toList_quoted, List.drop_succ_cons, List.drop_zero, List.dropLast_concat,
    dropBackslashes_shielded, String.ofList_toList]

example : quoted '"' "a\"'\\\n" = "\"a\\\"'\\\\\\\n\"" := by decide

theorem IsQuote.ne_backslash (h : IsQuote mark) : mark ≠ '\\' := by
  rcases h with rfl | rfl <;> decide

/-- A quoted text is one string, whatever follows it. -/
theorem fits_quoted (h : IsQuote mark) (s : String) (b : List Char) :
    Terminal.Fits ⟨.string, quoted mark s⟩ b := by
  refine Terminal.fits_string_iff.2 ⟨mark, by simpa [IsQuote] using h, ?_⟩
  rw [toList_quoted, quotedLength?, if_pos (beq_self_eq_true mark),
    (quotedBody_shielded mark s.toList).quotedRest? h.ne_backslash]
  simp

theorem lexed_quoted (h : IsQuote mark) (s : String) {b : List Char} {ts : List Terminal}
    (hs : Lexed b ts) : Lexed ((quoted mark s).toList ++ b) (⟨.string, quoted mark s⟩ :: ts) :=
  (fits_quoted h s b).lexed hs

/-! ### Arguments -/

/-- The terminals of quoted arguments with commas between them. -/
def argumentTerminals (mark : Char) (args : List String) : List Terminal :=
  commaSeparated (args.map fun s => [⟨.string, quoted mark s⟩])

/-- Quoted arguments with commas between them. -/
def argumentText (mark : Char) (args : List String) : String :=
  ",".intercalate (args.map (quoted mark))

theorem lexed_arguments (h : IsQuote mark) (s : String) (args : List String) {b : List Char}
    {ts : List Terminal} (hs : Lexed b ts) :
    Lexed ((argumentText mark (s :: args)).toList ++ b)
      (argumentTerminals mark (s :: args) ++ ts) := by
  induction args generalizing s with
  | nil => simpa [argumentText, argumentTerminals, commaSeparated] using lexed_quoted h s hs
  | cons s' args ih =>
    have hrest := lexed_quoted h s (lexed_symbol (c := ',') (by decide) (by simp) (ih s'))
    rw [argumentText] at hrest ⊢
    rw [argumentTerminals] at hrest ⊢
    simpa [commaSeparated_cons, String.intercalate_cons_cons] using hrest

/-- A quoted text is one argument, and the symbol behind it says whether there are more. -/
theorem strings_of_quoted {s : String} {t u : Token} {c : Char}
    (ht : t.terminal = ⟨.string, quoted mark s⟩) (hu : u.terminal = .symbol c)
    (finish function : Token) (r : List Token) :
    plain (strings finish function (t :: u :: r)) =
      if c == ')' then .ok ([s], r)
      else if c == ',' then
        (plain (strings finish function r)).bind fun (rest, r₁) => .ok (s :: rest, r₁)
      else fault (.expectedSymbol ',' u.found) u := by
  rw [plain_strings, skipBlanks_of_terminal ht (by simp)]
  dsimp only
  rw [Token.kind_eq ht, if_pos (by simp), skipBlanks_of_terminal hu (by simp)]
  dsimp only
  rw [Token.isSymbol_eq hu, Token.isSymbol_eq hu, Terminal.isSymbol_symbol,
    Terminal.isSymbol_symbol, Token.text_eq ht, unquote_quoted]

/-- The texts of quoted arguments are read up to the parenthesis. -/
theorem strings_of_arguments (s : String) (args : List String) {ts : List Token}
    (hts : ts.map Token.terminal = argumentTerminals mark (s :: args) ++ [.symbol ')'])
    (finish function : Token) (r : List Token) :
    plain (strings finish function (ts ++ r)) = .ok (s :: args, r) := by
  induction args generalizing s ts with
  | nil =>
    obtain ⟨t, rest, rfl, ht, hrest⟩ := List.map_eq_cons_iff.1 hts
    obtain ⟨u, rfl, hu⟩ := List.map_eq_singleton_iff.1 hrest
    rw [List.cons_append, List.singleton_append, strings_of_quoted ht hu,
      if_pos (by decide)]
  | cons s' args ih =>
    obtain ⟨t, rest, rfl, ht, hrest⟩ := List.map_eq_cons_iff.1 hts
    obtain ⟨u, us, rfl, hu, hus⟩ := List.map_eq_cons_iff.1 hrest
    rw [List.cons_append, List.cons_append, strings_of_quoted ht hu, if_neg (by decide),
      if_pos (by decide), ih s' hus]
    rfl

theorem stringArguments_of_arguments {least most : Nat} {s : String} {args : List String}
    (hleast : least ≤ args.length + 1) (hmost : args.length + 1 ≤ most) {ts : List Token}
    (hts : ts.map Token.terminal = argumentTerminals mark (s :: args) ++ [.symbol ')'])
    (finish function : Token) (r : List Token) :
    plain (stringArguments finish function least most (ts ++ r)) = .ok (s :: args, r) := by
  rw [plain_stringArguments, strings_of_arguments s args hts]
  simp [Except.bind, hleast, hmost]

theorem readsValues_eval (mark : Char) (s : String) :
    ReadsValues (⟨.function, "eval" ++ "("⟩ :: (argumentTerminals mark [s] ++ [.symbol ')']))
      [.runtime s] := by
  refine readsValues_of_functionValue fun t hname us hus finish r => ?_
  rw [plain_functionValue, hname, if_pos (by decide),
    stringArguments_of_arguments (by simp) (by simp) hus]
  rfl

theorem readsValues_value (mark : Char) (path after before : String) :
    ReadsValues (⟨.function, "value" ++ "("⟩ ::
        (argumentTerminals mark [path, after, before] ++ [.symbol ')']))
      [.dotPath path (some after) (some before)] := by
  refine readsValues_of_functionValue fun t hname us hus finish r => ?_
  rw [plain_functionValue, hname, if_neg (by decide), if_pos (by decide),
    stringArguments_of_arguments (by simp) (by simp) hus]
  rfl

theorem isPlainName_eval : IsPlainName "eval" :=
  ⟨'e', ['v', 'a', 'l'], by decide, by decide, List.all_eq_true.1 (by decide)⟩

theorem isPlainName_value : IsPlainName "value" :=
  ⟨'v', ['a', 'l', 'u', 'e'], by decide, by decide, List.all_eq_true.1 (by decide)⟩

theorem isPlainName_if : IsPlainName "if" :=
  ⟨'i', ['f'], by decide, by decide, List.all_eq_true.1 (by decide)⟩

/-- A call with quoted arguments. -/
theorem lexed_call (h : IsQuote mark) {name : String} (hname : IsPlainName name)
    (hurl : name ≠ "url") (s : String) (args : List String) {b : List Char} {ts : List Terminal}
    (hs : Lexed b ts) :
    Lexed (name.toList ++ '(' :: ((argumentText mark (s :: args)).toList ++ ')' :: b))
      (⟨.function, name ++ "("⟩ :: (argumentTerminals mark (s :: args) ++ .symbol ')' :: ts)) :=
  lexed_function hname hurl <| lexed_arguments h s args <| lexed_symbol (by decide) (by simp) hs

/-- A stylesheet whose one value is a call with quoted arguments. -/
theorem parse_call (h : IsQuote mark) {name : String} (hname : IsPlainName name)
    (hurl : name ≠ "url") {s : String} {args : List String} {v : Node}
    (hv : ReadsValues (⟨.function, name ++ "("⟩ ::
      (argumentTerminals mark (s :: args) ++ [.symbol ')'])) [v]) :
    parse (".a\x7bw:" ++ name ++ "(" ++ argumentText mark (s :: args) ++ ")\x7d") =
      .ok (.stylesheet [.ruleset [".a"] [.declaration "w" [v] false]]) := by
  have hselector : IsPlainWord ".a" := ⟨by decide, List.all_eq_true.1 (by decide)⟩
  have hproperty : IsPlainWord "w" := ⟨by decide, List.all_eq_true.1 (by decide)⟩
  have hheads : ∀ ys ∈ [[⟨.word, ".a"⟩]], IsHead ys ∧ ys ≠ [] ∧ IsSelector 0 ys := by
    rw [List.forall_mem_singleton]
    have hhead : IsHead (phraseTerminals [".a"]) := isHead_phrase (by simpa using hselector)
    exact ⟨hhead, List.cons_ne_nil _ _, isSelector_phrase [".a"]⟩
  have hdeclaration := readsDeclarations_cons "w" false hv (List.cons_ne_nil v [])
    readsDeclarations_nil (.inl rfl)
  have hreads := readsRules_ruleset (by simp) hheads hdeclaration
  have hheadText : headText [⟨.word, ".a"⟩] = ".a" := headText_phrase [".a"]
  rw [List.map_singleton, hheadText] at hreads
  refine parse_of_lexed ?_ hreads
  have htext := lexed_word hselector (delimited_cons (by decide) _) <|
    lexed_symbol (c := '{') (by decide) (by simp) <|
    lexed_word hproperty (delimited_cons (by decide) _) <|
    lexed_symbol (c := ':') (by decide) (by simp) <|
    lexed_call h hname hurl s args <| lexed_symbol (c := '}') (by decide) (by simp) Lexed.nil
  simpa [commaSeparated, importance] using htext

/-! ### Conditions -/

theorem skipBlanks_of_bangs {n : Nat} {ts : List Token}
    (hts : ts.map Token.terminal = List.replicate n (.symbol '!')) {t : Token} {x : Terminal}
    (ht : t.terminal = x) (hx : x.kind ≠ .blank) (r : List Token) :
    skipBlanks (ts ++ t :: r) = ts ++ t :: r := by
  rcases ts with _ | ⟨u, us⟩
  · exact skipBlanks_of_terminal ht hx r
  · have hu : u.terminal ∈ List.replicate n (Terminal.symbol '!') := by
      rw [← hts]
      exact List.mem_cons_self
    exact skipBlanks_of_terminal (List.eq_of_mem_replicate hu) (by simp) _

/-- Each exclamation mark turns the negation over. -/
theorem negations_of_bangs {n : Nat} {ts : List Token}
    (hts : ts.map Token.terminal = List.replicate n (.symbol '!')) {t : Token} {x : Terminal}
    (ht : t.terminal = x) (hx : x.kind ≠ .blank) (hbang : x.isSymbol '!' = false)
    (negated : Bool) (r : List Token) :
    (negations negated (ts ++ t :: r)).1 = (negated ^^ decide (n % 2 = 1)) ∧
      (negations negated (ts ++ t :: r)).2.1 = t :: r := by
  induction n generalizing ts negated with
  | zero =>
    rw [List.map_eq_nil_iff.1 hts, List.nil_append, negations, Token.isSymbol_eq ht, hbang]
    simp
  | succ n ih =>
    obtain ⟨u, us, rfl, hu, hus⟩ := List.map_eq_cons_iff.1 hts
    have hparity : decide ((n + 1) % 2 = 1) = !decide (n % 2 = 1) := by
      rw [← decide_not, decide_eq_decide]
      omega
    -- one mark is taken off and the flag turned, so the induction is for both flags
    rw [List.cons_append, negations, Token.isSymbol_eq hu, if_pos (by simp)]
    dsimp only
    rw [skipBlanks_of_bangs hus ht hx, (ih hus (!negated)).1, hparity]
    exact ⟨by simp, (ih hus (!negated)).2⟩

/-- The terminals of a quoted condition behind exclamation marks. -/
def conditionTerminals (mark : Char) (n : Nat) (s : String) : List Terminal :=
  List.replicate n (.symbol '!') ++
    ⟨.function, "eval" ++ "("⟩ :: (argumentTerminals mark [s] ++ [.symbol ')'])

/-- A condition behind exclamation marks: two of them cancel. -/
def conditionText (n : Nat) (s : String) : String :=
  if n % 2 = 0 then s else "!(" ++ s ++ ")"

theorem condition_of_bangs {n : Nat} {s : String} {ts : List Token}
    (hts : ts.map Token.terminal = conditionTerminals mark n s) (finish : Token)
    (r : List Token) :
    plain (condition finish (ts ++ r)) = .ok (conditionText n s, skipBlanks r) := by
  obtain ⟨bangs, rest, rfl, hbangs, hrest⟩ := List.map_eq_append_iff.1 hts
  obtain ⟨t, us, rfl, ht, hus⟩ := List.map_eq_cons_iff.1 hrest
  obtain ⟨hodd, htail⟩ := negations_of_bangs hbangs ht (by simp)
    (Terminal.isSymbol_eq_false (by simp) _) false (us ++ r)
  rw [List.append_assoc, List.cons_append, plain_condition,
    skipBlanks_of_bangs hbangs ht (by simp), htail]
  dsimp only
  rw [Token.kind_eq ht, functionName_of_terminal ht, if_pos (by simp),
    stringArguments_of_arguments (by simp) (by simp) hus, hodd]
  rcases Nat.mod_two_eq_zero_or_one n with h | h <;> simp [Except.bind, conditionText, h]

theorem lexed_condition (h : IsQuote mark) (n : Nat) (s : String) {b : List Char}
    {ts : List Terminal} (hs : Lexed b ts) :
    Lexed (List.replicate n '!' ++
        ("eval".toList ++ '(' :: ((argumentText mark [s]).toList ++ ')' :: b)))
      (conditionTerminals mark n s ++ ts) := by
  induction n with
  | zero => simpa [conditionTerminals] using lexed_call h isPlainName_eval (by decide) s [] hs
  | succ n ih => exact lexed_symbol (by decide) (by simp) ih

/-- A branch with an empty body at the end of a stylesheet. Before other tokens the block could go
on, so no more is said here than for the end. -/
theorem rules_of_condition (mark : Char) {n : Nat} {s : String} {ts : List Token}
    (hts : ts.map Token.terminal = ⟨.atKeyword, "@" ++ "if"⟩ :: .space :: .symbol '(' ::
      (conditionTerminals mark n s ++ [.symbol ')', .space, .symbol '{', .symbol '}']))
    (finish : Token) :
    plain (rules finish false ts) =
      .ok ([.conditionalBlock [.conditionalRule .ifTrue (some (conditionText n s)) []]], []) := by
  obtain ⟨keyword, ts, rfl, hkeyword, hts⟩ := List.map_eq_cons_iff.1 hts
  obtain ⟨space, ts, rfl, hspace, hts⟩ := List.map_eq_cons_iff.1 hts
  obtain ⟨opening, ts, rfl, hopening, hts⟩ := List.map_eq_cons_iff.1 hts
  obtain ⟨inner, ts, rfl, hinner, hts⟩ := List.map_eq_append_iff.1 hts
  obtain ⟨closing, ts, rfl, hclosing, hts⟩ := List.map_eq_cons_iff.1 hts
  obtain ⟨space', ts, rfl, hspace', hts⟩ := List.map_eq_cons_iff.1 hts
  obtain ⟨brace, ts, rfl, hbrace, hts⟩ := List.map_eq_cons_iff.1 hts
  obtain ⟨close, rfl, hclose⟩ := List.map_eq_singleton_iff.1 hts
  have hcondition : plain (branchCondition finish .ifTrue
      (space :: opening :: (inner ++ [closing, space', brace, close]))) =
        .ok (some (conditionText n s), [space', brace, close]) := by
    rw [plain_branchCondition, if_neg (by decide), skipBlanks_of_blank (Token.kind_eq hspace),
      skipBlanks_of_terminal hopening (by simp)]
    refine bind_eq_ok_iff.2 ⟨_, after_of_terminal hopening finish _, ?_⟩
    refine bind_eq_ok_iff.2 ⟨_, condition_of_bangs hinner finish _, ?_⟩
    rw [skipBlanks_of_terminal hclosing (by simp)]
    exact bind_eq_ok_iff.2 ⟨_, after_of_terminal hclosing finish _, rfl⟩
  have hbranch : plain (branch finish .ifTrue
      (space :: opening :: (inner ++ [closing, space', brace, close]))) =
        .ok (.conditionalRule .ifTrue (some (conditionText n s)) [], []) := by
    rw [plain_branch]
    refine bind_eq_ok_iff.2 ⟨_, hcondition, ?_⟩
    dsimp only
    rw [skipBlanks_of_blank (Token.kind_eq hspace'), skipBlanks_of_terminal hbrace (by simp)]
    refine bind_eq_ok_iff.2 ⟨_, after_of_terminal hbrace finish _, ?_⟩
    refine bind_eq_ok_iff.2 ⟨_, rules_of_closing hclose finish [], ?_⟩
    exact bind_eq_ok_iff.2 ⟨_, after_of_terminal hclose finish _, rfl⟩
  have hname : lowerCase (atName keyword) = "if" := by
    rw [atName, Token.text_eq hkeyword]
    decide
  have hbranches : plain (branches finish []) = .ok ([], []) := by
    rw [plain_branches]
    rfl
  rw [plain_rules, skipBlanks_of_terminal hkeyword (by simp)]
  simp [Token.isSymbol_eq hkeyword, Terminal.isSymbol, plain_rule, Token.kind_eq hkeyword, hname,
    hbranch, hbranches, rules_nil, Except.bind]

theorem parse_condition (h : IsQuote mark) (n : Nat) (s : String) :
    parse ("@if (" ++ String.ofList (List.replicate n '!') ++ "eval(" ++ argumentText mark [s] ++
        ")) {}") =
      .ok (.stylesheet
        [.conditionalBlock [.conditionalRule .ifTrue (some (conditionText n s)) []]]) := by
  refine parse_of_rules ?_ fun ts hts finish => rules_of_condition mark hts finish
  have htext := lexed_atKeyword isPlainName_if (delimited_cons (by decide) _) <|
    lexed_space (ends_cons (by decide)) <| lexed_symbol (c := '(') (by decide) (by simp) <|
    lexed_condition h n s <| lexed_symbol (c := ')') (by decide) (by simp) <|
    lexed_space (ends_cons (by decide)) <| lexed_symbol (c := '{') (by decide) (by simp) <|
    lexed_symbol (c := '}') (by decide) (by simp) Lexed.nil
  simpa using htext

/-! ### Expressions of a stylesheet -/

/-- Every text can be the expression of a value, each of the three texts of a path, and the
condition of a branch behind any number of exclamation marks. -/
theorem parse_quoted (mark : Char) (h : mark = '"' ∨ mark = '\'') (e f g : String) (n : Nat) :
    parse (".a\x7bw:eval(" ++ quoted mark e ++ ")\x7d") =
        .ok (.stylesheet [.ruleset [".a"] [.declaration "w" [.runtime e] false]]) ∧
      parse (".a\x7bw:value(" ++ quoted mark e ++ "," ++ quoted mark f ++ "," ++ quoted mark g ++
          ")\x7d") =
        .ok (.stylesheet [.ruleset [".a"]
          [.declaration "w" [.dotPath e (some f) (some g)] false]]) ∧
      parse ("@if (" ++ String.ofList (List.replicate n '!') ++ "eval(" ++ quoted mark e ++
          ")) {}") =
        .ok (.stylesheet [.conditionalBlock [.conditionalRule .ifTrue
          (some (if n % 2 = 0 then e else "!(" ++ e ++ ")")) []]]) := by
  refine ⟨?_, ?_, ?_⟩
  · have hparse := parse_call h isPlainName_eval (by decide) (readsValues_eval mark e)
    rwa [argumentText, List.map_singleton, String.intercalate_singleton] at hparse
  · rw [← parse_call h isPlainName_value (by decide) (readsValues_value mark e f g)]
    exact congrArg parse (String.toList_inj.1 (by simp [argumentText]))
  · have hparse := parse_condition h n e
    rwa [argumentText, List.map_singleton, String.intercalate_singleton] at hparse

/-- Quotes, backslashes, line feeds and what ends a comment, behind three exclamation marks. -/
theorem parse_quoted_awkward :
    parse ("@if (!!!eval(" ++ quoted '\'' "'\\\n*/\"" ++ ")) {}") =
      .ok (.stylesheet [.conditionalBlock
        [.conditionalRule .ifTrue (some "!('\\\n*/\")") []]]) :=
  (parse_quoted '\'' (.inr rfl) "'\\\n*/\"" "" "" 3).2.2

end ConditionalStyle.Stylesheet
