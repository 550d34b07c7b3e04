import ConditionalStyle.Proofs.Stylesheet.Heads

/-!
# Reading what has been spelled

For each part of a plain stylesheet there are terminals that spell it: reading them gives the part
back, whatever follows. What is read does not depend on the places of the tokens.

## Main definitions

* `ReadsValues`, `ReadsDeclarations`, `ReadsRules`: terminals that spell a part.

## Main statements

* one lemma for each way to put parts together, such as `readsValues_function` and
  `readsRules_ruleset`.
* `parse_of_lexed`: a text whose terminals spell rules is read as the stylesheet of these rules.
-/

namespace ConditionalStyle.Stylesheet

open Text Stylesheet.Parser

/-! ### Values -/

/-- The symbols that may close a value. -/
def closers : List Char :=
  [')', '}', ';']

/-- Terminals that spell components of a value: reading them in front of other tokens puts the
components in front of what is read from those. -/
def ReadsValues (xs : List Terminal) (vs : List Node) : Prop :=
  ∀ ts : List Token, ts.map Token.terminal = xs → ∀ (finish : Token) (closing : List Char),
    closing ⊆ closers → ∀ r, plain (values finish closing false (ts ++ r)) =
      (plain (values finish closing false r)).bind fun ((rest, flag), r₁) =>
        .ok ((vs ++ rest, flag), r₁)

theorem readsValues_nil : ReadsValues [] [] := by
  intro ts hts finish closing _ r
  rw [List.map_eq_nil_iff.1 hts, List.nil_append]
  cases plain (values finish closing false r) <;> rfl

theorem readsValues_append {xs ys : List Terminal} {vs ws : List Node} (h : ReadsValues xs vs)
    (h' : ReadsValues ys ws) : ReadsValues (xs ++ ys) (vs ++ ws) := by
  intro ts hts finish closing hclosing r
  obtain ⟨ts₁, ts₂, rfl, h₁, h₂⟩ := List.map_eq_append_iff.1 hts
  rw [List.append_assoc, h ts₁ h₁ finish closing hclosing, h' ts₂ h₂ finish closing hclosing]
  rcases plain (values finish closing false r) with e | ⟨⟨rest, flag⟩, r₁⟩
  · rfl
  · simp only [Except.bind, List.append_assoc]

theorem readsValues_space : ReadsValues [.space] [] := by
  intro ts hts finish closing _ r
  obtain ⟨t, rfl, ht⟩ := List.map_eq_singleton_iff.1 hts
  have hkind : t.kind = .blank := Token.kind_eq ht
  have hskip : plain (values finish closing false (t :: r)) =
      plain (values finish closing false r) := by
    rw [plain_values, plain_values, skipBlanks_of_blank hkind]
  rw [List.singleton_append, hskip]
  cases plain (values finish closing false r) <;> rfl

/-- A token that closes no value. -/
theorem closing_any_eq_false {t : Token} {x : Terminal} (ht : t.terminal = x) {closing : List Char}
    (hclosing : closing ⊆ closers) (hx : ∀ c ∈ closers, x.isSymbol c = false) :
    closing.any t.isSymbol = false := by
  rw [List.any_eq_false]
  intro c hc
  rw [Token.isSymbol_eq ht, hx c (hclosing hc)]
  exact Bool.false_ne_true

theorem readsValues_operator {c : Char} (hc : c = ',' ∨ c = '/') :
    ReadsValues [.symbol c] [.operator (String.singleton c)] := by
  intro ts hts finish closing hclosing r
  obtain ⟨t, rfl, ht⟩ := List.map_eq_singleton_iff.1 hts
  have hclose : closing.any t.isSymbol = false :=
    closing_any_eq_false ht hclosing (by rcases hc with rfl | rfl <;> simp [closers])
  have hbang : t.isSymbol '!' = false := by
    rcases hc with rfl | rfl <;> simp [Token.isSymbol_eq ht]
  have hoperator : (t.isSymbol ',' || t.isSymbol '/') = true := by
    rcases hc with rfl | rfl <;> simp [Token.isSymbol_eq ht]
  rw [List.singleton_append, plain_values, skipBlanks_of_terminal ht (by simp)]
  dsimp only
  rw [hclose, hbang, hoperator, Token.text_eq ht]
  rfl

/-- The kinds of terminals that are components by themselves. -/
def Token.Kind.isLiteral (kind : Token.Kind) : Bool :=
  kind == .word || kind == .string || kind == .url

theorem readsValues_literal {x : Terminal} (hx : x.kind.isLiteral = true) :
    ReadsValues [x] [.literal x.text] := by
  intro ts hts finish closing hclosing r
  obtain ⟨t, rfl, ht⟩ := List.map_eq_singleton_iff.1 hts
  have hliteral : (t.kind == .word || t.kind == .string || t.kind == .url) = true := by
    rwa [Token.kind_eq ht]
  have hother : x.kind ≠ .symbol ∧ x.kind ≠ .blank := by
    constructor <;> intro hkind <;> rw [hkind] at hx <;> cases hx
  have hsymbol := Token.isSymbol_eq_false ht hother.1
  have hclose : closing.any t.isSymbol = false := by simp [hsymbol]
  rw [List.singleton_append, plain_values, skipBlanks_of_terminal ht hother.2]
  dsimp only
  rw [hclose, hsymbol, hsymbol, hsymbol, hliteral, Token.text_eq ht]
  rfl

/-- A symbol that closes a value ends the components. -/
theorem values_of_closing {t : Token} {c : Char} (ht : t.terminal = .symbol c)
    {closing : List Char} (hc : c ∈ closing) (finish : Token) (important : Bool) (r : List Token) :
    plain (values finish closing important (t :: r)) = .ok (([], important), t :: r) := by
  have hclose : closing.any t.isSymbol = true :=
    List.any_eq_true.2 ⟨c, hc, by simp [Token.isSymbol_eq ht]⟩
  rw [plain_values, skipBlanks_of_terminal ht (by simp)]
  dsimp only
  rw [hclose, if_pos rfl]

theorem functionName_of_terminal {t : Token} {name : String}
    (ht : t.terminal = ⟨.function, name ++ "("⟩) : functionName t = name := by
  rw [functionName, Token.text_eq ht]
  exact String.toList_inj.1 (by simp)

/-- A component that a function token starts, if all that belongs to it is read. -/
theorem readsValues_of_functionValue {name : String} {xs : List Terminal} {v : Node}
    (h : ∀ t : Token, functionName t = name → ∀ us : List Token, us.map Token.terminal = xs →
      ∀ (finish : Token) (r : List Token), plain (functionValue finish t (us ++ r)) = .ok (v, r)) :
    ReadsValues (⟨.function, name ++ "("⟩ :: xs) [v] := by
  intro ts hts finish closing hclosing r
  obtain ⟨t, us, rfl, ht, hus⟩ := List.map_eq_cons_iff.1 hts
  have hkind : t.kind = .function := Token.kind_eq ht
  have hsymbol := Token.isSymbol_eq_false ht (by simp)
  have hclose : closing.any t.isSymbol = false := by simp [hsymbol]
  rw [List.cons_append, plain_values, skipBlanks_of_terminal ht (by simp)]
  dsimp only
  rw [hclose, hsymbol, hsymbol, hsymbol, hkind,
    h t (functionName_of_terminal ht) us hus finish r]
  rfl

theorem readsValues_function {name : String} (hname : name ∉ ["eval", "value"])
    {xs : List Terminal} {args : List Node} (h : ReadsValues xs args) :
    ReadsValues (⟨.function, name ++ "("⟩ :: (xs ++ [.symbol ')'])) [.function name args] := by
  refine readsValues_of_functionValue fun t hfunctionName inner hinner finish r => ?_
  obtain ⟨us, last, rfl, hus, hlast⟩ := List.map_eq_append_iff.1 hinner
  obtain ⟨u, rfl, hu⟩ := List.map_eq_singleton_iff.1 hlast
  simp only [List.mem_cons, List.not_mem_nil, or_false, not_or] at hname
  rw [List.append_assoc, List.singleton_append, plain_functionValue, hfunctionName,
    if_neg (by simpa using hname.1), if_neg (by simpa using hname.2),
    h us hus finish [')'] (by decide), values_of_closing hu (by decide)]
  simp [Except.bind, after_of_terminal hu]

/-! ### Declarations -/

/-- The terminals that make a declaration important. -/
def importance (important : Bool) : List Terminal :=
  if important then [.symbol '!', ⟨.word, "important"⟩] else []

theorem values_of_importance {important : Bool} {ts : List Token}
    (hts : ts.map Token.terminal = importance important) {t : Token} {c : Char}
    (ht : t.terminal = .symbol c) (hc : c ∈ ['}', ';']) (finish : Token) (r : List Token) :
    plain (values finish ['}', ';'] false (ts ++ t :: r)) = .ok (([], important), t :: r) := by
  cases important with
  | false =>
    rw [List.map_eq_nil_iff.1 hts, List.nil_append]
    exact values_of_closing ht hc finish false r
  | true =>
    obtain ⟨bang, rest, rfl, hbang, hrest⟩ := List.map_eq_cons_iff.1 hts
    obtain ⟨word, rfl, hword⟩ := List.map_eq_singleton_iff.1 hrest
    have hclose : ['}', ';'].any bang.isSymbol = false := by simp [Token.isSymbol_eq hbang]
    have himportant : isImportant word = true := by
      rw [isImportant, Token.kind_eq hword, Token.text_eq hword]
      decide
    rw [List.cons_append, List.singleton_append, plain_values,
      skipBlanks_of_terminal hbang (by simp)]
    dsimp only
    rw [hclose, if_neg Bool.false_ne_true, Token.isSymbol_eq hbang,
      if_pos (by simp), skipBlanks_of_terminal hword (by simp)]
    dsimp only
    rw [himportant, if_pos rfl, values_of_closing ht hc]

/-- Terminals that spell the declarations of a body. -/
def ReadsDeclarations (xs : List Terminal) (ds : List Node) : Prop :=
  ∀ ts : List Token, ts.map Token.terminal = xs → ∀ (finish t : Token), t.terminal = .symbol '}' →
    ∀ r, plain (declarations finish (ts ++ t :: r)) = .ok (ds, r)

theorem readsDeclarations_nil : ReadsDeclarations [] [] := by
  intro ts hts finish t ht r
  rw [List.map_eq_nil_iff.1 hts, List.nil_append, plain_declarations,
    skipBlanks_of_terminal ht (by simp)]
  dsimp only
  rw [Token.isSymbol_eq ht, if_pos (by simp)]

theorem readsDeclarations_semicolon {xs : List Terminal} {ds : List Node}
    (h : ReadsDeclarations xs ds) : ReadsDeclarations (.symbol ';' :: xs) ds := by
  intro ts hts finish t ht r
  obtain ⟨u, us, rfl, hu, hus⟩ := List.map_eq_cons_iff.1 hts
  rw [List.cons_append, plain_declarations, skipBlanks_of_terminal hu (by simp)]
  dsimp only
  rw [Token.isSymbol_eq hu, Token.isSymbol_eq hu, if_neg (by simp), if_pos (by simp)]
  exact h us hus finish t ht r

/-- A declaration ends where the next one is separated from it, or with the body. -/
theorem readsDeclarations_cons (property : String) {vs : List Node} (important : Bool)
    {xs ys : List Terminal} {ds : List Node} (hvs : ReadsValues xs vs) (hne : vs ≠ [])
    (hds : ReadsDeclarations ys ds) (hys : ys = [] ∨ ∃ zs, ys = .symbol ';' :: zs) :
    ReadsDeclarations (⟨.word, property⟩ :: .symbol ':' :: (xs ++ (importance important ++ ys)))
      (.declaration property vs important :: ds) := by
  intro ts hts finish t ht r
  obtain ⟨word, ts, rfl, hword, hts⟩ := List.map_eq_cons_iff.1 hts
  obtain ⟨colon, ts, rfl, hcolon, hts⟩ := List.map_eq_cons_iff.1 hts
  obtain ⟨value, ts, rfl, hvalue, hts⟩ := List.map_eq_append_iff.1 hts
  obtain ⟨flag, others, rfl, hflag, hothers⟩ := List.map_eq_append_iff.1 hts
  -- what follows the values closes them: a semicolon, or the brace after the last declaration
  have hnext : ∃ u r', others ++ t :: r = u :: r' ∧ ∃ c ∈ ['}', ';'], u.terminal = .symbol c := by
    rcases hys with rfl | ⟨zs, rfl⟩
    · rw [List.map_eq_nil_iff.1 hothers]
      exact ⟨t, r, rfl, '}', by simp, ht⟩
    · obtain ⟨u, us, rfl, hu, -⟩ := List.map_eq_cons_iff.1 hothers
      exact ⟨u, us ++ t :: r, rfl, ';', by simp, hu⟩
  obtain ⟨u, r', hr', c, hc, hu⟩ := hnext
  have hkind : word.kind = .word := Token.kind_eq hword
  have hsymbol := Token.isSymbol_eq_false hword (by simp)
  have hvalues : plain (values finish ['}', ';'] false (value ++ (flag ++ u :: r'))) =
      .ok ((vs, important), u :: r') := by
    rw [hvs value hvalue finish ['}', ';'] (by decide), values_of_importance hflag hu hc]
    simp [Except.bind]
  have hdeclaration : plain (declaration finish word (colon :: (value ++ (flag ++ u :: r')))) =
      .ok (.declaration property vs important, u :: r') := by
    rw [plain_declaration, hkind, skipBlanks_of_terminal hcolon (by simp), after,
      Token.isSymbol_eq hcolon, Token.text_eq hword]
    simp [Except.bind, hvalues, hne]
  have hrest := hds others hothers finish t ht r
  rw [hr'] at hrest
  rw [List.cons_append, List.cons_append, List.append_assoc, List.append_assoc, hr',
    plain_declarations, skipBlanks_of_terminal hword (by simp)]
  dsimp only
  rw [hsymbol, hsymbol, hkind, hdeclaration]
  simp [Except.bind, hrest]

/-! ### Selectors -/

/-- Terminals of heads with commas between them. -/
def commaSeparated : List (List Terminal) → List Terminal
  | [] => []
  | [xs] => xs
  | xs :: xss => xs ++ .symbol ',' :: commaSeparated xss

theorem commaSeparated_cons (xs ys : List Terminal) (xss : List (List Terminal)) :
    commaSeparated (xs :: ys :: xss) = xs ++ .symbol ',' :: commaSeparated (ys :: xss) := rfl

/-- The text of the tokens of a head. -/
theorem joinTokens_of_terminals {ts : List Token} {xs : List Terminal} (h : IsHead xs)
    (hts : ts.map Token.terminal = xs) : joinTokens ts = headText xs := by
  have htidied : (ts.map Token.terminal).map Terminal.tidied = [] ++ (xs ++ []) := by
    rw [hts, h.map_tidied, List.nil_append, List.append_nil]
  exact joinTokens_of_isTrimmed htidied (by simp) h.isTrimmed (by simp)

/-- Selectors are read up to the brace. -/
theorem selectors_of_heads {xss : List (List Terminal)} (hne : xss ≠ [])
    (h : ∀ xs ∈ xss, IsHead xs ∧ IsSelector 0 xs) {ts : List Token}
    (hts : ts.map Token.terminal = commaSeparated xss) {t : Token}
    (ht : t.terminal = .symbol '{') (finish : Token) (r : List Token) :
    ∃ first others, plain (selectors finish 0 (ts ++ t :: r)) = .ok ((first, others), t :: r) ∧
      (first :: others).map joinTokens = xss.map headText := by
  induction xss generalizing ts with
  | nil => exact absurd rfl hne
  | cons xs xss ih =>
    obtain ⟨⟨hhead, hselector⟩, hxss⟩ := List.forall_mem_cons.1 h
    rcases xss with _ | ⟨ys, xss⟩
    · have hts : ts.map Token.terminal = xs := hts
      refine ⟨ts, [], ?_, ?_⟩
      · rw [selectors_of_isSelector (hts ▸ hselector), plain_selectors, Token.isSymbol_eq ht]
        simp [Except.bind]
      · simp [joinTokens_of_terminals hhead hts]
    · rw [commaSeparated_cons] at hts
      obtain ⟨ts, tail, rfl, hxs, htail⟩ := List.map_eq_append_iff.1 hts
      obtain ⟨comma, us, rfl, hcomma, hus⟩ := List.map_eq_cons_iff.1 htail
      obtain ⟨first, others, hselectors, hjoin⟩ := ih (List.cons_ne_nil ys xss) hxss hus
      refine ⟨ts, first :: others, ?_, ?_⟩
      · have hdepth : depthStep comma = 0 := by
          rw [Token.depthStep_eq hcomma]
          decide
        rw [List.append_assoc, selectors_of_isSelector (hxs ▸ hselector), List.cons_append,
          plain_selectors, hdepth, Int.add_zero, hselectors]
        simp [Token.isSymbol_eq hcomma, Except.bind]
      · rw [List.map_cons, hjoin, joinTokens_of_terminals hhead hxs, ← List.map_cons]

/-! ### Rules -/

/-- Terminals that spell rules: reading them in front of other tokens puts the rules in front of
what is read from those. -/
def ReadsRules (xs : List Terminal) (rs : List Node) : Prop :=
  ∀ ts : List Token, ts.map Token.terminal = xs →
    ∀ (finish : Token) (nested : Bool) (r : List Token),
      plain (rules finish nested (ts ++ r)) =
        (plain (rules finish nested r)).bind fun (rest, r₁) => .ok (rs ++ rest, r₁)

theorem rules_nil (finish : Token) : plain (rules finish false []) = .ok ([], []) := by
  rw [plain_rules]
  rfl

/-- A body of rules goes on up to its brace. -/
theorem rules_of_closing {t : Token} (ht : t.terminal = .symbol '}') (finish : Token)
    (r : List Token) : plain (rules finish true (t :: r)) = .ok ([], t :: r) := by
  rw [plain_rules, skipBlanks_of_terminal ht (by simp)]
  dsimp only
  rw [Token.isSymbol_eq ht, if_pos (by simp)]

theorem readsRules_nil : ReadsRules [] [] := by
  intro ts hts finish nested r
  rw [List.map_eq_nil_iff.1 hts, List.nil_append]
  cases plain (rules finish nested r) <;> rfl

theorem readsRules_append {xs ys : List Terminal} {rs ss : List Node} (h : ReadsRules xs rs)
    (h' : ReadsRules ys ss) : ReadsRules (xs ++ ys) (rs ++ ss) := by
  intro ts hts finish nested r
  obtain ⟨ts₁, ts₂, rfl, h₁, h₂⟩ := List.map_eq_append_iff.1 hts
  rw [List.append_assoc, h ts₁ h₁ finish nested, h' ts₂ h₂ finish nested]
  rcases plain (rules finish nested r) with e | ⟨rest, r₁⟩
  · rfl
  · simp only [Except.bind, List.append_assoc]

/-- A rule whose first terminal is not blank and ends nothing. -/
theorem readsRules_of_rule {x : Terminal} {xs : List Terminal} {n : Node} (hx : x.kind ≠ .blank)
    (hsemicolon : x.isSymbol ';' = false) (hclose : x.isSymbol '}' = false)
    (h : ∀ (t : Token) (ts : List Token), t.terminal = x → ts.map Token.terminal = xs →
      ∀ (finish : Token) (r : List Token), plain (rule finish t (ts ++ r)) = .ok (n, r)) :
    ReadsRules (x :: xs) [n] := by
  intro ts hts finish nested r
  obtain ⟨t, ts, rfl, ht, hts⟩ := List.map_eq_cons_iff.1 hts
  rw [List.cons_append, plain_rules, skipBlanks_of_terminal ht hx]
  dsimp only
  rw [Token.isSymbol_eq ht, Token.isSymbol_eq ht, hsemicolon, hclose, h t ts ht hts finish r,
    Bool.and_false, if_neg Bool.false_ne_true]
  rfl

/-- The tokens of a body between braces and of what stands before it. -/
theorem exists_of_braces {ts : List Token} {xs ys : List Terminal}
    (h : ts.map Token.terminal = xs ++ .symbol '{' :: (ys ++ [.symbol '}'])) :
    ∃ us brace body close, ts = us ++ brace :: (body ++ [close]) ∧
      us.map Token.terminal = xs ∧ brace.terminal = .symbol '{' ∧
      body.map Token.terminal = ys ∧ close.terminal = .symbol '}' := by
  obtain ⟨us, tail, rfl, hus, htail⟩ := List.map_eq_append_iff.1 h
  obtain ⟨brace, inner, rfl, hbrace, hinner⟩ := List.map_eq_cons_iff.1 htail
  obtain ⟨body, last, rfl, hbody, hlast⟩ := List.map_eq_append_iff.1 hinner
  obtain ⟨close, rfl, hclose⟩ := List.map_eq_singleton_iff.1 hlast
  exact ⟨us, brace, body, close, rfl, hus, hbrace, hbody, hclose⟩

theorem head_commaSeparated {x : Terminal} (xs : List Terminal) (xss : List (List Terminal)) :
    ∃ ys, commaSeparated ((x :: xs) :: xss) = x :: ys := by
  rcases xss with _ | ⟨ys, xss⟩ <;> exact ⟨_, rfl⟩

/-- A ruleset starts with no at-keyword. -/
theorem readsRules_ruleset {x : Terminal} {xs : List Terminal} {xss : List (List Terminal)}
    (hx : x.kind ≠ .atKeyword)
    (h : ∀ ys ∈ (x :: xs) :: xss, IsHead ys ∧ ys ≠ [] ∧ IsSelector 0 ys) {body : List Terminal}
    {ds : List Node} (hds : ReadsDeclarations body ds) :
    ReadsRules (commaSeparated ((x :: xs) :: xss) ++ .symbol '{' :: (body ++ [.symbol '}']))
      [.ruleset (((x :: xs) :: xss).map headText) ds] := by
  obtain ⟨hhead, -, -, hsemicolon, hclose, -⟩ := h _ List.mem_cons_self
  obtain ⟨ys, hys⟩ := head_commaSeparated (x := x) xs xss
  rw [hys, List.cons_append]
  refine readsRules_of_rule (hhead.first x rfl) hsemicolon hclose fun t ts ht hts finish r => ?_
  obtain ⟨us, brace, tokens, close, rfl, hus, hbrace, htokens, hclose⟩ := exists_of_braces hts
  have hterminals : (t :: us).map Token.terminal = commaSeparated ((x :: xs) :: xss) := by
    rw [List.map_cons, ht, hus, hys]
  obtain ⟨first, others, hselectors, hjoin⟩ := selectors_of_heads (List.cons_ne_nil _ _)
    (fun ys hys => ⟨(h ys hys).1, (h ys hys).2.2⟩) hterminals hbrace finish (tokens ++ close :: r)
  have hempty : (((x :: xs) :: xss).map headText).any String.isEmpty = false := by
    rw [List.any_eq_false]
    rintro s hs
    obtain ⟨ys, hys, rfl⟩ := List.mem_map.1 hs
    simpa using headText_ne_empty (h ys hys).1 (h ys hys).2.1
  have hblock :
      plain (declarationBlock finish (brace :: (tokens ++ close :: r))) = .ok (ds, r) := by
    rw [plain_declarationBlock, after_of_terminal hbrace]
    exact hds tokens htokens finish close hclose r
  have hruleset : plain (ruleset finish (t :: us ++ brace :: (tokens ++ close :: r))) =
      .ok (.ruleset (((x :: xs) :: xss).map headText) ds, r) := by
    rw [plain_ruleset, hselectors]
    dsimp only [Except.bind]
    rw [hjoin, hempty, if_neg Bool.false_ne_true, hblock]
  have hkind : t.kind ≠ .atKeyword := by rwa [Token.kind_eq ht]
  rw [plain_rule, if_neg (by simpa using hkind), List.append_assoc, List.cons_append,
    List.append_assoc, List.singleton_append]
  exact hruleset

/-! ### At-rules -/

/-- Terminals that are read as the parameters of an at-rule: none of them ends it. -/
def IsParams (xs : List Terminal) : Prop :=
  IsHead xs ∧
    ∀ x ∈ xs, x.isSymbol ';' = false ∧ x.isSymbol '{' = false ∧ x.isSymbol '}' = false

/-- The terminals of parameters, with a space before them if there are any. -/
def afterKeyword : List Terminal → List Terminal
  | [] => []
  | xs => .space :: xs

/-- Parameters are read without the space before them. -/
theorem joinTokens_of_params {ts : List Token} {xs : List Terminal} (h : IsHead xs)
    (hts : ts.map Token.terminal = afterKeyword xs) : joinTokens ts = headText xs := by
  rcases xs with _ | ⟨x, xs⟩
  · exact joinTokens_of_terminals h hts
  · have hts : ts.map Token.terminal = .space :: x :: xs := hts
    have htidied : (ts.map Token.terminal).map Terminal.tidied = [.space] ++ (x :: xs ++ []) := by
      rw [hts, List.map_cons, h.map_tidied, List.append_nil]
      rfl
    exact joinTokens_of_isTrimmed htidied (by simp) h.isTrimmed (by simp)

theorem parameters_of_isParams {ts : List Token} {xs : List Terminal} (h : IsParams xs)
    (hts : ts.map Token.terminal = afterKeyword xs) {u : Token} {c : Char}
    (hu : u.terminal = .symbol c) (hc : c ∈ [';', '{', '}']) (r : List Token) :
    (parameters (ts ++ u :: r)).1 = ts ∧ (parameters (ts ++ u :: r)).2.1 = u :: r := by
  let goesOn (t : Token) : Bool := !(t.isSymbol ';' || t.isSymbol '{' || t.isSymbol '}')
  have hparams : ∀ t ∈ ts, goesOn t = true := by
    intro t ht
    have hmem : t.terminal ∈ afterKeyword xs := hts ▸ List.mem_map_of_mem ht
    have hsymbol : t.terminal.isSymbol ';' = false ∧ t.terminal.isSymbol '{' = false ∧
        t.terminal.isSymbol '}' = false := by
      rcases xs with _ | ⟨x, xs⟩
      · cases hmem
      · rcases List.mem_cons.1 hmem with hspace | hmem
        · rw [hspace]
          decide
        · exact h.2 _ hmem
    simp [goesOn, Token.isSymbol_eq rfl, hsymbol]
  have hends : ¬goesOn u = true := by
    simp only [List.mem_cons, List.not_mem_nil, or_false] at hc
    rcases hc with rfl | rfl | rfl <;> simp [goesOn, Token.isSymbol_eq hu]
  constructor
  · change (ts ++ u :: r).takeWhile goesOn = ts
    rw [List.takeWhile_append_of_pos hparams, List.takeWhile_cons_of_neg hends, List.append_nil]
  · change (ts ++ u :: r).dropWhile goesOn = u :: r
    rw [List.dropWhile_append_of_pos hparams, List.dropWhile_cons_of_neg hends]

/-- An at-rule after its parameters: a semicolon ends it, a brace opens its body. -/
theorem rule_of_atKeyword {name : String} (hname : lowerCase name ∉ ["if", "elseif", "else"])
    {xs : List Terminal} (hxs : IsParams xs) {t : Token}
    (ht : t.terminal = ⟨.atKeyword, "@" ++ name⟩) {ps : List Token}
    (hps : ps.map Token.terminal = afterKeyword xs) {u : Token} {c : Char}
    (hu : u.terminal = .symbol c) (hc : c = ';' ∨ c = '{') (finish : Token) (r : List Token) :
    plain (rule finish t (ps ++ u :: r)) =
      if c == ';' then .ok (.atRule name (headText xs) none none, r)
      else if declarationRules.contains (lowerCase name) then
        (plain (declarations finish r)).bind fun (ds, r₁) =>
          .ok (.atRule name (headText xs) none (some ds), r₁)
      else (plain (rules finish true r)).bind fun (body, r₁) =>
        (after finish '}' r₁).bind fun r₂ =>
          .ok (.atRule name (headText xs) (some body) none, r₂) := by
  have hatName : atName t = name := by
    rw [atName, Token.text_eq ht]
    exact String.toList_inj.1 (by simp)
  obtain ⟨hparams, hrest⟩ := parameters_of_isParams hxs hps hu
    (by rcases hc with rfl | rfl <;> simp) r
  simp only [List.mem_cons, List.not_mem_nil, or_false, not_or] at hname
  rw [plain_rule, Token.kind_eq ht, hatName, plain_atRule, hatName, hparams, hrest,
    joinTokens_of_params hxs.1 hps]
  rcases hc with rfl | rfl <;> simp [hname, Token.isSymbol_eq hu]

/-- An at-rule whose tokens are read as one. -/
theorem readsRules_of_atKeyword {name : String} {xs : List Terminal} {n : Node}
    (h : ∀ (t : Token) (ts : List Token), t.terminal = ⟨.atKeyword, "@" ++ name⟩ →
      ts.map Token.terminal = xs →
      ∀ (finish : Token) (r : List Token), plain (rule finish t (ts ++ r)) = .ok (n, r)) :
    ReadsRules (⟨.atKeyword, "@" ++ name⟩ :: xs) [n] :=
  readsRules_of_rule (by simp) (Terminal.isSymbol_eq_false (by simp) _)
    (Terminal.isSymbol_eq_false (by simp) _) h

theorem readsRules_statement {name : String} (hname : lowerCase name ∉ ["if", "elseif", "else"])
    {xs : List Terminal} (hxs : IsParams xs) :
    ReadsRules (⟨.atKeyword, "@" ++ name⟩ :: (afterKeyword xs ++ [.symbol ';']))
      [.atRule name (headText xs) none none] := by
  refine readsRules_of_atKeyword fun t ts ht hts finish r => ?_
  obtain ⟨ps, last, rfl, hps, hlast⟩ := List.map_eq_append_iff.1 hts
  obtain ⟨u, rfl, hu⟩ := List.map_eq_singleton_iff.1 hlast
  rw [List.append_assoc, List.singleton_append, rule_of_atKeyword hname hxs ht hps hu (.inl rfl)]
  rfl

theorem readsRules_descriptors {name : String} (hname : lowerCase name ∉ ["if", "elseif", "else"])
    (hbody : declarationRules.contains (lowerCase name) = true) {xs : List Terminal}
    (hxs : IsParams xs) {body : List Terminal} {ds : List Node}
    (hds : ReadsDeclarations body ds) :
    ReadsRules (⟨.atKeyword, "@" ++ name⟩ ::
        (afterKeyword xs ++ .symbol '{' :: (body ++ [.symbol '}'])))
      [.atRule name (headText xs) none (some ds)] := by
  refine readsRules_of_atKeyword fun t ts ht hts finish r => ?_
  obtain ⟨ps, brace, tokens, close, rfl, hps, hbrace, htokens, hclose⟩ := exists_of_braces hts
  rw [List.append_assoc, List.cons_append, List.append_assoc, List.singleton_append,
    rule_of_atKeyword hname hxs ht hps hbrace (.inr rfl), if_neg (by decide), if_pos hbody,
    hds tokens htokens finish close hclose r]
  rfl

theorem readsRules_group {name : String} (hname : lowerCase name ∉ ["if", "elseif", "else"])
    (hbody : declarationRules.contains (lowerCase name) = false) {xs : List Terminal}
    (hxs : IsParams xs) {body : List Terminal} {rs : List Node} (hrs : ReadsRules body rs) :
    ReadsRules (⟨.atKeyword, "@" ++ name⟩ ::
        (afterKeyword xs ++ .symbol '{' :: (body ++ [.symbol '}'])))
      [.atRule name (headText xs) (some rs) none] := by
  refine readsRules_of_atKeyword fun t ts ht hts finish r => ?_
  obtain ⟨ps, brace, tokens, close, rfl, hps, hbrace, htokens, hclose⟩ := exists_of_braces hts
  rw [List.append_assoc, List.cons_append, List.append_assoc, List.singleton_append,
    rule_of_atKeyword hname hxs ht hps hbrace (.inr rfl), if_neg (by decide), hbody,
    if_neg Bool.false_ne_true, hrs tokens htokens finish true, rules_of_closing hclose]
  simp [Except.bind, after_of_terminal hclose]

/-! ### Stylesheets -/

/-- A text is read as the stylesheet of the rules that its tokens are read as. -/
theorem parse_of_rules {text : String} {xs : List Terminal} {rs : List Node}
    (hlexed : Lexed text.toList xs)
    (h : ∀ ts : List Token, ts.map Token.terminal = xs →
      ∀ finish, plain (rules finish false ts) = .ok (rs, [])) :
    parse text = .ok (.stylesheet rs) := by
  obtain ⟨s, hscan, hterminals⟩ := hlexed.scanFrom 0 .start
  rw [parse_of_ok hscan, h s.tokens hterminals s.finish]
  rfl

/-- A text whose terminals spell rules is read as the stylesheet of these rules. -/
theorem parse_of_lexed {text : String} {xs : List Terminal} {rs : List Node}
    (hlexed : Lexed text.toList xs) (hreads : ReadsRules xs rs) :
    parse text = .ok (.stylesheet rs) := by
  refine parse_of_rules hlexed fun ts hts finish => ?_
  have hall := hreads ts hts finish false []
  rw [List.append_nil, rules_nil] at hall
  simpa [Except.bind] using hall

end ConditionalStyle.Stylesheet
