import ConditionalStyle.Proofs.Stylesheet.Places

/-!
# Where a stylesheet is faulted

Reading a stylesheet comes to an end on every source: with a tree that is read from all of its
tokens, or with a fault. A fault that is found after the source has been cut into tokens is one
token's: it has the place of that token, and its cause says something that holds of it.

Each reading function is followed once, to see that it leaves the last of the tokens or blames one
of them.

## Main definitions

* `Token.Explains`: what a cause says of the token that it is found at.
* `Parser.Blames`: faults of one of the tokens.

## Main statements

* `Parser.values_located`, `Parser.rules_located`: what the two recursions preserve.
* `parse_located`: how reading a source can end.
-/

namespace ConditionalStyle.Stylesheet

open ConditionalStyle.Stylesheet.Parser

/-- What a cause says of the token that it is found at. The scan finds its faults at no token. -/
def Token.Explains (t : Token) : SyntaxError.Cause → Prop
  | .unexpectedCharacter _ | .unterminatedComment => False
  | .unclosedBody | .unfinishedValue => t.kind = .finish
  | .strayBranch keyword =>
    t.kind = .atKeyword ∧ lowerCase (atName t) = keyword ∧ keyword ∈ ["elseif", "else"]
  | .expectedSymbol c found => t.isSymbol c = false ∧ found = t.found
  | .expectedCondition => ¬(t.kind = .function ∧ functionName t = "eval")
  | .unexpectedInAtRule found _ =>
    (t.kind = .finish ∨ t.isSymbol '}' = true) ∧ found = t.found
  | .unexpectedInSelector found =>
    (t.kind = .finish ∨ t.isSymbol ';' = true ∨ t.isSymbol '}' = true) ∧ found = t.found
  | .emptySelector => t.kind ≠ .atKeyword
  | .keywordInDeclarations keyword => t.kind = .atKeyword ∧ keyword = t.text
  | .expectedProperty found => t.kind ≠ .word ∧ found = t.found
  | .expectedValue property => t.kind = .word ∧ property = t.text
  | .expectedImportant => isImportant t = false
  | .valueAfterImportant => t.isSymbol '!' = false
  | .unexpectedInValue found =>
    t.kind ∉ [Token.Kind.word, .string, .url, .function] ∧ found = t.found
  | .importantInFunction => t.kind = .function
  | .expectedString _ => t.kind ≠ .string
  | .argumentCount function least most given =>
    t.kind = .function ∧ function = t.text ∧ ¬(least ≤ given ∧ given ≤ most)

theorem Token.isSymbol_of_finish {t : Token} (h : t.kind = .finish) (c : Char) :
    t.isSymbol c = false := by
  simp [Token.isSymbol, h]

namespace Parser

variable {α : Type} {finish t : Token} {all ts r : List Token} {cause : SyntaxError.Cause}

/-! ### Blame -/

/-- A fault of one of the tokens or of the token after the end. -/
def Blames (finish : Token) (all : List Token) (e : SyntaxError) : Prop :=
  ∃ t ∈ all ++ [finish], t.Explains e.cause ∧ e.mark = t.mark

theorem located_finish (h : finish.Explains cause) :
    Located (· <:+ all) (Blames finish all)
      (fault cause finish : Except SyntaxError (α × List Token)) :=
  .error ⟨finish, List.mem_append_right _ (List.mem_singleton_self _), h, rfl⟩

theorem located_head (ht : t :: r <:+ all) (h : t.Explains cause) :
    Located (· <:+ all) (Blames finish all) (fault cause t : Except SyntaxError (α × List Token)) :=
  .error ⟨t, List.mem_append_left _ (ht.subset List.mem_cons_self), h, rfl⟩

/-- Taking a symbol that must come next. -/
theorem after_located {c : Char} {f : List Token → Except SyntaxError (α × List Token)}
    (hfinish : finish.kind = .finish) (hts : ts <:+ all)
    (hf : ∀ r, after finish c ts = .ok r → r <:+ all →
      Located (· <:+ all) (Blames finish all) (f r)) :
    Located (· <:+ all) (Blames finish all) ((after finish c ts).bind f) := by
  rcases ts with _ | ⟨t, r⟩
  · exact located_finish ⟨Token.isSymbol_of_finish hfinish c, rfl⟩
  · rw [after] at hf ⊢
    split
    · next ht =>
      rw [if_pos ht] at hf
      exact hf r rfl (rest_suffix hts)
    · next ht => exact located_head hts ⟨Bool.eq_false_iff.2 ht, rfl⟩

/-! ### Values -/

theorem strings_located (hfinish : finish.kind = .finish) (function : Token) {ts : List Token}
    (hts : ts <:+ all) :
    Located (· <:+ all) (Blames finish all) (plain (strings finish function ts)) := by
  rw [plain_strings]
  rcases hs : skipBlanks ts with _ | ⟨t, r⟩
  · exact located_finish (by simp [Token.Explains, hfinish])
  have hsuffix := (suffix_of_skipBlanks hs).trans hts
  dsimp only
  split
  · rcases hs₁ : skipBlanks r with _ | ⟨u, r₁⟩
    · exact located_finish ⟨Token.isSymbol_of_finish hfinish ',', rfl⟩
    have hsuffix₁ := (suffix_of_skipBlanks hs₁).trans (rest_suffix hsuffix)
    have hlt : r₁.length < ts.length :=
      Nat.lt_trans (length_lt_of_skipBlanks hs₁) (length_lt_of_skipBlanks hs)
    dsimp only
    split
    · exact .ok (rest_suffix hsuffix₁)
    split
    · exact (strings_located hfinish function (rest_suffix hsuffix₁)).bind fun _ _ _ hr => .ok hr
    · next _ hu => exact located_head hsuffix₁ ⟨Bool.eq_false_iff.2 hu, rfl⟩
  · next ht => exact located_head hsuffix (by simpa [Token.Explains] using ht)
termination_by ts.length

theorem stringArguments_located (hfinish : finish.kind = .finish) {function : Token}
    (hfunction : function.kind = .function) (least most : Nat) (hts : function :: ts <:+ all) :
    Located (· <:+ all) (Blames finish all)
      (plain (stringArguments finish function least most ts)) := by
  rw [plain_stringArguments]
  refine (strings_located hfinish function (rest_suffix hts)).bind ?_
  intro args r _ hr
  dsimp only
  split
  · exact .ok hr
  · next hcount => exact located_head hts ⟨hfunction, rfl, by simpa using hcount⟩

mutual

theorem values_located (hfinish : finish.kind = .finish) (closing : List Char) (important : Bool)
    {ts : List Token} (hts : ts <:+ all) :
    Located (· <:+ all) (Blames finish all) (plain (values finish closing important ts)) := by
  rw [plain_values]
  rcases hs : skipBlanks ts with _ | ⟨t, r⟩
  · exact located_finish hfinish
  have hsuffix := (suffix_of_skipBlanks hs).trans hts
  have hrest := rest_suffix hsuffix
  have hlt := length_lt_of_skipBlanks hs
  dsimp only
  split
  · exact .ok hsuffix
  split
  · rcases hs₁ : skipBlanks r with _ | ⟨u, r₁⟩
    · exact located_finish (by simp [Token.Explains, isImportant, hfinish])
    have hsuffix₁ := (suffix_of_skipBlanks hs₁).trans hrest
    have hlt₁ := length_lt_of_skipBlanks hs₁
    dsimp only
    split
    · exact values_located hfinish closing true (rest_suffix hsuffix₁)
    · next hu => exact located_head hsuffix₁ (Bool.eq_false_iff.2 hu)
  next hbang =>
  split
  · exact located_head hsuffix (Bool.eq_false_iff.2 hbang)
  split
  · exact (values_located hfinish closing false hrest).bind fun _ _ _ hr => .ok hr
  split
  · exact (values_located hfinish closing false hrest).bind fun _ _ _ hr => .ok hr
  next hliteral =>
  split
  · next hfunction =>
    refine (functionValue_located hfinish (eq_of_beq hfunction) hsuffix).bind ?_
    intro v r₁ hv hr₁
    have hlt₁ : r₁.length < r.length := property_of_plain hv
    exact (values_located hfinish closing false hr₁).bind fun _ _ _ hr => .ok hr
  · next hfunction => exact located_head hsuffix ⟨by simp_all, rfl⟩
termination_by (ts.length, 0)

theorem functionValue_located (hfinish : finish.kind = .finish) {function : Token}
    (hfunction : function.kind = .function) {ts : List Token} (hts : function :: ts <:+ all) :
    Located (· <:+ all) (Blames finish all) (plain (functionValue finish function ts)) := by
  rw [plain_functionValue]
  split
  · exact (stringArguments_located hfinish hfunction 1 1 hts).bind fun _ _ _ hr => .ok hr
  split
  · exact (stringArguments_located hfinish hfunction 1 3 hts).bind fun _ _ _ hr => .ok hr
  refine (values_located hfinish [')'] false (rest_suffix hts)).bind ?_
  rintro ⟨args, important⟩ r - hr
  dsimp only
  split
  · exact located_head hts hfunction
  · exact after_located hfinish hr fun _ _ hr₁ => .ok hr₁
termination_by (ts.length, 1)

end

/-! ### Declarations and rulesets -/

theorem declaration_located (hfinish : finish.kind = .finish) {name : Token}
    (hts : name :: ts <:+ all) :
    Located (· <:+ all) (Blames finish all) (plain (declaration finish name ts)) := by
  rw [plain_declaration]
  split
  · next hname =>
    refine after_located hfinish ((skipBlanks_suffix ts).trans (rest_suffix hts)) ?_
    intro r _ hr
    refine (values_located hfinish _ false hr).bind ?_
    rintro ⟨vs, important⟩ r₁ - hr₁
    dsimp only
    split
    · exact located_head hts ⟨eq_of_beq hname, rfl⟩
    · exact .ok hr₁
  · next hname => exact located_head hts ⟨fun hkind => hname (beq_iff_eq.2 hkind), rfl⟩

theorem declarations_located (hfinish : finish.kind = .finish) {ts : List Token}
    (hts : ts <:+ all) :
    Located (· <:+ all) (Blames finish all) (plain (declarations finish ts)) := by
  rw [plain_declarations]
  rcases hs : skipBlanks ts with _ | ⟨t, r⟩
  · exact located_finish ⟨by simp [hfinish], rfl⟩
  have hsuffix := (suffix_of_skipBlanks hs).trans hts
  have hlt := length_lt_of_skipBlanks hs
  dsimp only
  split
  · exact .ok (rest_suffix hsuffix)
  split
  · exact declarations_located hfinish (rest_suffix hsuffix)
  split
  · next hkind => exact located_head hsuffix ⟨eq_of_beq hkind, rfl⟩
  refine (declaration_located hfinish hsuffix).bind ?_
  intro d r₁ hd hr₁
  have hlt₁ : r₁.length < r.length := property_of_plain hd
  exact (declarations_located hfinish hr₁).bind fun _ _ _ hr => .ok hr
termination_by ts.length

theorem selectors_located (hfinish : finish.kind = .finish) (depth : Int) (hts : ts <:+ all) :
    Located (· <:+ all) (Blames finish all) (plain (selectors finish depth ts)) := by
  induction ts generalizing depth with
  | nil => exact located_finish ⟨.inl hfinish, rfl⟩
  | cons t r ih =>
    rw [plain_selectors]
    split
    · exact .ok hts
    split
    · next ht => exact located_head hts ⟨.inr (Bool.or_eq_true_iff.1 ht), rfl⟩
    refine (ih (depth + depthStep t) (rest_suffix hts)).bind ?_
    rintro ⟨first, others⟩ r₁ - hr₁
    dsimp only
    split
    · exact .ok hr₁
    · exact .ok hr₁

theorem ruleset_located (hfinish : finish.kind = .finish) (ht : t.kind ≠ .atKeyword)
    (hts : t :: ts <:+ all) :
    Located (· <:+ all) (Blames finish all) (plain (ruleset finish (t :: ts))) := by
  rw [plain_ruleset]
  refine (selectors_located hfinish 0 hts).bind ?_
  rintro ⟨first, others⟩ r - hr
  dsimp only
  split
  · exact located_head hts ht
  · rw [plain_declarationBlock]
    refine Located.bind (after_located hfinish hr ?_) fun _ _ _ hr₁ => .ok hr₁
    intro r₁ _ hr₁
    exact declarations_located hfinish hr₁

/-! ### Conditions -/

theorem negations_suffix (negated : Bool) (ts : List Token) :
    (negations negated ts).2.1 <:+ ts := by
  fun_induction negations negated ts with
  | case1 => exact List.suffix_refl _
  | case2 negated t r _ _ odd r₁ h₁ heq ih =>
    rw [heq] at ih
    exact (ih.trans (skipBlanks_suffix r)).trans (List.suffix_cons t r)
  | case3 => exact List.suffix_refl _

theorem condition_located (hfinish : finish.kind = .finish) (hts : ts <:+ all) :
    Located (· <:+ all) (Blames finish all) (plain (condition finish ts)) := by
  have hsuffix := (negations_suffix false (skipBlanks ts)).trans ((skipBlanks_suffix ts).trans hts)
  rw [plain_condition]
  rcases hs : (negations false (skipBlanks ts)).2.1 with _ | ⟨t, r⟩
  · exact located_finish (by simp [Token.Explains, hfinish])
  rw [hs] at hsuffix
  dsimp only
  split
  · next ht =>
    rw [Bool.and_eq_true, beq_iff_eq] at ht
    refine (stringArguments_located hfinish ht.1 1 1 hsuffix).bind ?_
    intro args r₁ _ hr₁
    exact .ok ((skipBlanks_suffix r₁).trans hr₁)
  · next ht => exact located_head hsuffix (by simpa [Token.Explains] using ht)

theorem branchCondition_located (hfinish : finish.kind = .finish) (kind : Branch)
    (hts : ts <:+ all) :
    Located (· <:+ all) (Blames finish all) (plain (branchCondition finish kind ts)) := by
  rw [plain_branchCondition]
  split
  · exact .ok hts
  refine after_located hfinish ((skipBlanks_suffix ts).trans hts) ?_
  intro r _ hr
  refine (condition_located hfinish hr).bind ?_
  intro c r₁ _ hr₁
  exact after_located hfinish hr₁ fun _ _ hr₂ => .ok hr₂

/-! ### Rules -/

mutual

theorem rules_located (hfinish : finish.kind = .finish) (nested : Bool) {ts : List Token}
    (hts : ts <:+ all) :
    Located (· <:+ all) (Blames finish all) (plain (rules finish nested ts)) := by
  rw [plain_rules]
  rcases hs : skipBlanks ts with _ | ⟨t, r⟩
  · dsimp only
    split
    · exact located_finish hfinish
    · exact .ok List.nil_suffix
  have hsuffix := (suffix_of_skipBlanks hs).trans hts
  have hlt := length_lt_of_skipBlanks hs
  dsimp only
  split
  · exact .ok hsuffix
  split
  · exact rules_located hfinish nested (rest_suffix hsuffix)
  refine (rule_located hfinish hsuffix).bind ?_
  intro n r₁ hn hr₁
  have hlt₁ : r₁.length ≤ r.length := property_of_plain hn
  exact (rules_located hfinish nested hr₁).bind fun _ _ _ hr => .ok hr
termination_by (ts.length, 3)

theorem rule_located (hfinish : finish.kind = .finish) {t : Token} {ts : List Token}
    (hts : t :: ts <:+ all) :
    Located (· <:+ all) (Blames finish all) (plain (rule finish t ts)) := by
  rw [plain_rule]
  split
  · next hkind =>
    split
    · refine (branch_located hfinish .ifTrue (rest_suffix hts)).bind ?_
      intro b r hb hr
      have hlt : r.length < ts.length := property_of_plain hb
      exact (branches_located hfinish hr).bind fun _ _ _ hr => .ok hr
    split
    · next hname => exact located_head hts ⟨eq_of_beq hkind, rfl, by simpa using hname⟩
    · exact atRule_located hfinish t (rest_suffix hts)
  · next hkind => exact ruleset_located hfinish (fun h => hkind (beq_iff_eq.2 h)) hts
termination_by (ts.length, 2)

theorem branches_located (hfinish : finish.kind = .finish) {ts : List Token} (hts : ts <:+ all) :
    Located (· <:+ all) (Blames finish all) (plain (branches finish ts)) := by
  rw [plain_branches]
  rcases hs : skipBlanks ts with _ | ⟨t, r⟩
  · exact .ok List.nil_suffix
  have hsuffix := (suffix_of_skipBlanks hs).trans hts
  have hlt := length_lt_of_skipBlanks hs
  dsimp only
  split
  · refine (branch_located hfinish .elseIf (rest_suffix hsuffix)).bind ?_
    intro b r₁ hb hr₁
    have hlt₁ : r₁.length < r.length := property_of_plain hb
    exact (branches_located hfinish hr₁).bind fun _ _ _ hr => .ok hr
  split
  · exact (branch_located hfinish .otherwise (rest_suffix hsuffix)).bind fun _ _ _ hr => .ok hr
  · exact .ok hsuffix
termination_by (ts.length, 0)

theorem branch_located (hfinish : finish.kind = .finish) (kind : Branch) {ts : List Token}
    (hts : ts <:+ all) :
    Located (· <:+ all) (Blames finish all) (plain (branch finish kind ts)) := by
  rw [plain_branch]
  refine (branchCondition_located hfinish kind hts).bind ?_
  intro c r hc hr
  have hle : r.length ≤ ts.length := property_of_plain hc
  refine after_located hfinish ((skipBlanks_suffix r).trans hr) ?_
  intro r₁ hbrace hr₁
  have hlt : r₁.length < r.length := by
    obtain ⟨t, ht, -⟩ := eq_cons_of_after hbrace
    exact length_lt_of_skipBlanks ht
  refine (rules_located hfinish true hr₁).bind ?_
  intro body r₂ _ hr₂
  exact after_located hfinish hr₂ fun _ _ hr₃ => .ok hr₃
termination_by (ts.length, 0)

theorem atRule_located (hfinish : finish.kind = .finish) (keyword : Token) {ts : List Token}
    (hts : ts <:+ all) :
    Located (· <:+ all) (Blames finish all) (plain (atRule finish keyword ts)) := by
  have hparameters : (parameters ts).2.1 <:+ ts := List.dropWhile_suffix _
  rw [plain_atRule]
  rcases hs : (parameters ts).2.1 with _ | ⟨t, r⟩
  · exact located_finish ⟨.inl hfinish, rfl⟩
  rw [hs] at hparameters
  have hsuffix := hparameters.trans hts
  have hlt : r.length < ts.length := hparameters.length_le
  dsimp only
  split
  · exact .ok (rest_suffix hsuffix)
  split
  · next ht => exact located_head hsuffix ⟨.inr ht, rfl⟩
  split
  · exact (declarations_located hfinish (rest_suffix hsuffix)).bind fun _ _ _ hr => .ok hr
  refine (rules_located hfinish true (rest_suffix hsuffix)).bind ?_
  intro body r₁ _ hr₁
  exact after_located hfinish hr₁ fun _ _ hr₂ => .ok hr₂
termination_by (ts.length, 1)

end

/-- Rules that are not nested go on to the end of the source. -/
theorem eq_nil_of_rules {ts r : List Token} {body : List Node}
    (h : plain (rules finish false ts) = .ok (body, r)) : r = [] := by
  rw [plain_rules] at h
  rcases hs : skipBlanks ts with _ | ⟨t, r₀⟩
  · rw [hs] at h
    cases h
    rfl
  have hlt := length_lt_of_skipBlanks hs
  rw [hs] at h
  dsimp only at h
  rw [Bool.false_and, if_neg Bool.false_ne_true] at h
  split at h
  · exact eq_nil_of_rules h
  obtain ⟨⟨n, r₁⟩, hn, h⟩ := bind_eq_ok_iff.1 h
  obtain ⟨⟨rest, r₂⟩, hrest, hok⟩ := bind_eq_ok_iff.1 h
  have hlt₁ : r₁.length ≤ r₀.length := property_of_plain hn
  cases hok
  exact eq_nil_of_rules hrest
termination_by ts.length

end Parser

/-- Reading a source ends with the fault of the scan, with a tree that is read from all tokens, or
with a fault that has the place of a token and says something of it. -/
theorem parse_located (source : String) :
    (∃ e, scan source = .error e ∧ parse source = .error e) ∨
      ∃ s, scan source = .ok s ∧
        ((∃ body, plain (rules s.finish false s.tokens) = .ok (body, []) ∧
            parse source = .ok (.stylesheet body)) ∨
          ∃ t ∈ s.all, ∃ cause, t.Explains cause ∧ t.mark = markAt source.toList t.position ∧
            parse source = .error ⟨cause, t.mark⟩) := by
  rcases h : scan source with e | s
  · exact .inl ⟨e, rfl, parse_of_error h⟩
  refine .inr ⟨s, rfl, ?_⟩
  have haccounts := accounts_of_scan h
  have hfinish : s.finish.kind = .finish := by rw [haccounts.finish]
  have hlocated := rules_located hfinish false (List.suffix_refl s.tokens)
  rw [parse_of_ok h]
  rcases hread : plain (rules s.finish false s.tokens) with ⟨cause, mark⟩ | ⟨body, r⟩
  · rw [hread] at hlocated
    obtain ⟨t, ht, hcause, rfl⟩ : Blames s.finish s.tokens ⟨cause, mark⟩ := by
      cases hlocated with
      | error he => exact he
    exact .inr ⟨t, ht, cause, hcause, haccounts.mark t ht, rfl⟩
  · rw [eq_nil_of_rules hread]
    exact .inl ⟨body, rfl, rfl⟩

end ConditionalStyle.Stylesheet
