import ConditionalStyle.Proofs.Stylesheet.Reading

/-!
# Regular trees

Every list of a tree may hold nodes of every kind. A tree that was read from a text is regular:
values stand in declarations and functions, declarations in rulesets and at-rules, and the branches
of a conditional block form a chain of one `@if`, any number of `@elseif` and perhaps one `@else`.

## Main definitions

* `AreValues`, `AreDeclarations`, `AreRules`, `AreAlternatives`: the regular lists of nodes.
* `Occurs`: being a node of a tree.
* `Throughout`: trees all of whose nodes satisfy a predicate.

## Main statements

* `regular_of_parse`: a tree that was read is regular.
-/

namespace ConditionalStyle.Stylesheet

mutual

/-- A component of a value. -/
inductive IsValue : Node → Prop
  | literal (text : String) : IsValue (.literal text)
  | operator {text : String} (h : text = "," ∨ text = "/") : IsValue (.operator text)
  | function (name : String) {args : List Node} (h : AreValues args) : IsValue (.function name args)
  | runtime (expression : String) : IsValue (.runtime expression)
  | dotPath (path : String) (after before : Option String) : IsValue (.dotPath path after before)

/-- Components of a value in a row. -/
inductive AreValues : List Node → Prop
  | nil : AreValues []
  | cons {v : Node} {vs : List Node} (h : IsValue v) (hs : AreValues vs) : AreValues (v :: vs)

end

/-- Declarations in a row. -/
inductive AreDeclarations : List Node → Prop
  | nil : AreDeclarations []
  | cons (property : String) {vs : List Node} (important : Bool) {ds : List Node}
      (h : AreValues vs) (hs : AreDeclarations ds) :
      AreDeclarations (.declaration property vs important :: ds)

mutual

/-- A rule: a ruleset, an at-rule of one of three forms, or a conditional block. -/
inductive IsRule : Node → Prop
  | ruleset (selectors : List String) {ds : List Node} (h : AreDeclarations ds) :
      IsRule (.ruleset selectors ds)
  | statement (name params : String) : IsRule (.atRule name params none none)
  | descriptors (name params : String) {ds : List Node} (h : AreDeclarations ds) :
      IsRule (.atRule name params none (some ds))
  | group (name params : String) {rs : List Node} (h : AreRules rs) :
      IsRule (.atRule name params (some rs) none)
  | block (condition : String) {body rest : List Node} (h : AreRules body)
      (hs : AreAlternatives rest) :
      IsRule (.conditionalBlock (.conditionalRule .ifTrue (some condition) body :: rest))

/-- Rules in a row. -/
inductive AreRules : List Node → Prop
  | nil : AreRules []
  | cons {r : Node} {rs : List Node} (h : IsRule r) (hs : AreRules rs) : AreRules (r :: rs)

/-- The branches of a block after its first. -/
inductive AreAlternatives : List Node → Prop
  | nil : AreAlternatives []
  | otherwise {body : List Node} (h : AreRules body) :
      AreAlternatives [.conditionalRule .otherwise none body]
  | elseIf (condition : String) {body rest : List Node} (h : AreRules body)
      (hs : AreAlternatives rest) :
      AreAlternatives (.conditionalRule .elseIf (some condition) body :: rest)

end

/-- The nodes of a tree, the root included. -/
inductive Occurs (m : Node) : Node → Prop
  | here : Occurs m m
  | inside {n c : Node} (hc : c ∈ n.children) (h : Occurs m c) : Occurs m n

theorem Occurs.trans {m k n : Node} (h : Occurs m k) (h' : Occurs k n) : Occurs m n := by
  induction h' with
  | here => exact h
  | inside hc _ ih => exact .inside hc ih

/-- Trees all of whose nodes satisfy a predicate. -/
def Throughout (p : Node → Prop) (n : Node) : Prop :=
  ∀ m, Occurs m n → p m

theorem throughout_iff {p : Node → Prop} {n : Node} :
    Throughout p n ↔ p n ∧ ∀ c ∈ n.children, Throughout p c := by
  constructor
  · intro h
    exact ⟨h n .here, fun c hc m hm => h m (.inside hc hm)⟩
  · rintro ⟨hn, hchildren⟩ m hm
    cases hm with
    | here => exact hn
    | inside hc hm => exact hchildren _ hc m hm

theorem Token.text_of_isSymbol {t : Token} {c : Char} (h : t.isSymbol c = true) :
    t.text = String.singleton c := by
  simp only [Token.isSymbol, Bool.and_eq_true, beq_iff_eq] at h
  exact h.2

namespace Parser

variable {finish : Token}

mutual

theorem values_regular {closing : List Char} {important flag : Bool} {ts r : List Token}
    {vs : List Node} (h : plain (values finish closing important ts) = .ok ((vs, flag), r)) :
    AreValues vs := by
  rw [plain_values] at h
  rcases hs : skipBlanks ts with _ | ⟨t, r₀⟩
  · rw [hs] at h
    cases h
  have hlt := length_lt_of_skipBlanks hs
  rw [hs] at h
  dsimp only at h
  split at h
  · cases h
    exact .nil
  split at h
  · -- after an exclamation mark
    rcases hs₁ : skipBlanks r₀ with _ | ⟨u, r₁⟩
    · rw [hs₁] at h
      cases h
    have hlt₁ := length_lt_of_skipBlanks hs₁
    rw [hs₁] at h
    dsimp only at h
    split at h
    · exact values_regular h
    · cases h
  split at h
  · cases h
  split at h
  · next hsymbol =>
    obtain ⟨⟨⟨rest, flag'⟩, r₁⟩, hrest, hok⟩ := bind_eq_ok_iff.1 h
    cases hok
    have htext : t.text = "," ∨ t.text = "/" :=
      (Bool.or_eq_true_iff.1 hsymbol).imp Token.text_of_isSymbol Token.text_of_isSymbol
    exact .cons (.operator htext) (values_regular hrest)
  split at h
  · obtain ⟨⟨⟨rest, flag'⟩, r₁⟩, hrest, hok⟩ := bind_eq_ok_iff.1 h
    cases hok
    exact .cons (.literal _) (values_regular hrest)
  split at h
  · -- what follows a function is shorter still
    obtain ⟨⟨v, r₁⟩, hv, h⟩ := bind_eq_ok_iff.1 h
    obtain ⟨⟨⟨rest, flag'⟩, r₂⟩, hrest, hok⟩ := bind_eq_ok_iff.1 h
    cases hok
    have hlt₁ : r₁.length < r₀.length := property_of_plain hv
    exact .cons (functionValue_regular hv) (values_regular hrest)
  · cases h
termination_by (ts.length, 0)

theorem functionValue_regular {function : Token} {ts r : List Token} {v : Node}
    (h : plain (functionValue finish function ts) = .ok (v, r)) : IsValue v := by
  rw [plain_functionValue] at h
  split at h
  · obtain ⟨⟨args, r₁⟩, -, hok⟩ := bind_eq_ok_iff.1 h
    cases hok
    exact .runtime _
  split at h
  · obtain ⟨⟨args, r₁⟩, -, hok⟩ := bind_eq_ok_iff.1 h
    cases hok
    exact .dotPath _ _ _
  · obtain ⟨⟨⟨args, important⟩, r₁⟩, hargs, h⟩ := bind_eq_ok_iff.1 h
    dsimp only at h
    split at h
    · cases h
    · obtain ⟨r₂, -, hok⟩ := bind_eq_ok_iff.1 h
      cases hok
      exact .function _ (values_regular hargs)
termination_by (ts.length, 1)

end

theorem declarations_regular {ts r : List Token} {ds : List Node}
    (h : plain (declarations finish ts) = .ok (ds, r)) : AreDeclarations ds := by
  rw [plain_declarations] at h
  rcases hs : skipBlanks ts with _ | ⟨t, r₀⟩
  · rw [hs] at h
    cases h
  have hlt := length_lt_of_skipBlanks hs
  rw [hs] at h
  dsimp only at h
  split at h
  · cases h
    exact .nil
  split at h
  · exact declarations_regular h
  split at h
  · cases h
  obtain ⟨⟨d, r₁⟩, hd, h⟩ := bind_eq_ok_iff.1 h
  obtain ⟨⟨rest, r₂⟩, hrest, hok⟩ := bind_eq_ok_iff.1 h
  cases hok
  have hlt₁ : r₁.length < r₀.length := property_of_plain hd
  rw [plain_declaration] at hd
  split at hd
  · obtain ⟨r₃, -, hd⟩ := bind_eq_ok_iff.1 hd
    obtain ⟨⟨⟨vs, important⟩, r₄⟩, hvs, hd⟩ := bind_eq_ok_iff.1 hd
    dsimp only at hd
    split at hd
    · cases hd
    · cases hd
      exact .cons _ _ (values_regular hvs) (declarations_regular hrest)
  · cases hd
termination_by ts.length

theorem ruleset_regular {ts r : List Token} {n : Node}
    (h : plain (ruleset finish ts) = .ok (n, r)) : IsRule n := by
  rw [plain_ruleset] at h
  obtain ⟨⟨⟨first, others⟩, r₁⟩, -, h⟩ := bind_eq_ok_iff.1 h
  dsimp only at h
  split at h
  · cases h
  obtain ⟨⟨ds, r₂⟩, hds, hok⟩ := bind_eq_ok_iff.1 h
  cases hok
  rw [plain_declarationBlock] at hds
  obtain ⟨r₃, -, hds⟩ := bind_eq_ok_iff.1 hds
  exact .ruleset _ (declarations_regular hds)

/-- An `@else` has no condition, and the other branches have one. -/
theorem branchCondition_isSome {kind : Branch} {ts r : List Token} {c : Option String}
    (h : plain (branchCondition finish kind ts) = .ok (c, r)) :
    (kind = .otherwise ∧ c = none) ∨ (kind ≠ .otherwise ∧ ∃ text, c = some text) := by
  rw [branchCondition] at h
  split at h
  · next hkind =>
    cases h
    exact .inl ⟨eq_of_beq hkind, rfl⟩
  · next hkind =>
    refine .inr ⟨fun heq => hkind (beq_iff_eq.2 heq), ?_⟩
    repeat' split at h
    all_goals cases h
    exact ⟨_, rfl⟩

mutual

theorem rules_regular {nested : Bool} {ts r : List Token} {body : List Node}
    (h : plain (rules finish nested ts) = .ok (body, r)) : AreRules body := by
  rw [plain_rules] at h
  rcases hs : skipBlanks ts with _ | ⟨t, r₀⟩
  · rw [hs] at h
    dsimp only at h
    split at h
    · cases h
    · cases h
      exact .nil
  have hlt := length_lt_of_skipBlanks hs
  rw [hs] at h
  dsimp only at h
  split at h
  · cases h
    exact .nil
  split at h
  · exact rules_regular h
  obtain ⟨⟨n, r₁⟩, hn, h⟩ := bind_eq_ok_iff.1 h
  obtain ⟨⟨rest, r₂⟩, hrest, hok⟩ := bind_eq_ok_iff.1 h
  cases hok
  have hle : r₁.length ≤ r₀.length := property_of_plain hn
  exact .cons (rule_regular hn) (rules_regular hrest)
termination_by (ts.length, 3)

theorem rule_regular {t : Token} {ts r : List Token} {n : Node}
    (h : plain (rule finish t ts) = .ok (n, r)) : IsRule n := by
  rw [plain_rule] at h
  split at h
  · split at h
    · -- an `@if` takes along the branches that follow it
      obtain ⟨⟨b, r₁⟩, hb, h⟩ := bind_eq_ok_iff.1 h
      obtain ⟨⟨bs, r₂⟩, hbs, hok⟩ := bind_eq_ok_iff.1 h
      cases hok
      have hlt : r₁.length < ts.length := property_of_plain hb
      obtain ⟨c, body, rfl, hbody, hc⟩ := branch_regular hb
      rcases hc with ⟨hkind, -⟩ | ⟨-, text, rfl⟩
      · cases hkind
      · exact .block text hbody (branches_regular hbs)
    split at h
    · cases h
    · exact atRule_regular h
  · exact ruleset_regular h
termination_by (ts.length, 2)

theorem branches_regular {ts r : List Token} {bs : List Node}
    (h : plain (branches finish ts) = .ok (bs, r)) : AreAlternatives bs := by
  rw [plain_branches] at h
  rcases hs : skipBlanks ts with _ | ⟨t, r₀⟩
  · rw [hs] at h
    cases h
    exact .nil
  have hlt := length_lt_of_skipBlanks hs
  rw [hs] at h
  dsimp only at h
  split at h
  · obtain ⟨⟨b, r₁⟩, hb, h⟩ := bind_eq_ok_iff.1 h
    obtain ⟨⟨rest, r₂⟩, hrest, hok⟩ := bind_eq_ok_iff.1 h
    cases hok
    have hlt₁ : r₁.length < r₀.length := property_of_plain hb
    obtain ⟨c, body, rfl, hbody, hc⟩ := branch_regular hb
    rcases hc with ⟨hkind, -⟩ | ⟨-, text, rfl⟩
    · cases hkind
    · exact .elseIf text hbody (branches_regular hrest)
  split at h
  · obtain ⟨⟨b, r₁⟩, hb, hok⟩ := bind_eq_ok_iff.1 h
    cases hok
    obtain ⟨c, body, rfl, hbody, hc⟩ := branch_regular hb
    rcases hc with ⟨-, rfl⟩ | ⟨hkind, -⟩
    · exact .otherwise hbody
    · exact absurd rfl hkind
  · cases h
    exact .nil
termination_by (ts.length, 0)

theorem branch_regular {kind : Branch} {ts r : List Token} {n : Node}
    (h : plain (branch finish kind ts) = .ok (n, r)) :
    ∃ c body, n = .conditionalRule kind c body ∧ AreRules body ∧
      ((kind = .otherwise ∧ c = none) ∨ (kind ≠ .otherwise ∧ ∃ text, c = some text)) := by
  rw [plain_branch] at h
  obtain ⟨⟨c, r₁⟩, hc, h⟩ := bind_eq_ok_iff.1 h
  obtain ⟨r₂, hbrace, h⟩ := bind_eq_ok_iff.1 h
  obtain ⟨⟨body, r₃⟩, hbody, h⟩ := bind_eq_ok_iff.1 h
  obtain ⟨r₄, -, hok⟩ := bind_eq_ok_iff.1 h
  cases hok
  have hle : r₁.length ≤ ts.length := property_of_plain hc
  obtain ⟨t, hskip, -⟩ := eq_cons_of_after hbrace
  have hlt := length_lt_of_skipBlanks hskip
  exact ⟨c, body, rfl, rules_regular hbody, branchCondition_isSome hc⟩
termination_by (ts.length, 0)

theorem atRule_regular {keyword : Token} {ts r : List Token} {n : Node}
    (h : plain (atRule finish keyword ts) = .ok (n, r)) : IsRule n := by
  rw [plain_atRule] at h
  rcases hp : (parameters ts).2.1 with _ | ⟨t, r₀⟩
  · rw [hp] at h
    cases h
  have hlt : r₀.length < ts.length := by
    have := (parameters ts).2.2
    rw [hp, List.length_cons] at this
    omega
  rw [hp] at h
  dsimp only at h
  split at h
  · cases h
    exact .statement _ _
  split at h
  · cases h
  split at h
  · obtain ⟨⟨ds, r₁⟩, hds, hok⟩ := bind_eq_ok_iff.1 h
    cases hok
    exact .descriptors _ _ (declarations_regular hds)
  · obtain ⟨⟨body, r₁⟩, hbody, h⟩ := bind_eq_ok_iff.1 h
    obtain ⟨r₂, -, hok⟩ := bind_eq_ok_iff.1 h
    cases hok
    exact .group _ _ (rules_regular hbody)
termination_by (ts.length, 1)

end

end Parser

/-- A tree that was read from a text is regular. -/
theorem regular_of_parse {source : String} {tree : Node} (h : parse source = .ok tree) :
    ∃ body, tree = .stylesheet body ∧ AreRules body := by
  rw [parse] at h
  split at h
  · cases h
  · next s hs =>
    rcases hr : Parser.rules s.finish false s.tokens with e | ⟨body, r⟩
    · rw [hr] at h
      cases h
    · rw [hr] at h
      cases h
      exact ⟨body, rfl, Parser.rules_regular (r := r.1) (congrArg plain hr)⟩

end ConditionalStyle.Stylesheet
