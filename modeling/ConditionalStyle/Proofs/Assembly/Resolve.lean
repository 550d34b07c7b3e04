import ConditionalStyle.Proofs.Assembly.Meaning
import ConditionalStyle.Proofs.Assembly.Printing
import ConditionalStyle.Proofs.Expression.Path

/-!
# Resolving a stylesheet

In a namespace, a stylesheet with run-time parts resolves to a plain one. The parts are evaluated in
the order in which they stand: a block is replaced by the body of its first branch whose condition
holds, and a run-time value by the text of its value. Resolving may fail like an evaluation, and it
logs all that it asks of the host.

The text of the resolved stylesheet is what the outline of the stylesheet means, with the same
questions to the host and the same failures.

## Main definitions

* `Resolve`: computations that ask the host and may fail.
* `resolveValue`, `resolveRules`, `resolve`: resolving parts of a stylesheet, and all of it.
* `Legible`: nodes whose conditions and expressions can be read.
* `Agrees`: a resolving computation and an evaluation with the same log and the same failures.

## Main statements

* `agrees_rules`: the text of resolved rules is what their outline means.
-/

namespace ConditionalStyle.Assembly

open Expression Stylesheet

/-- Computations that ask the host and may fail, also because a text is no expression. -/
abbrev Resolve := EStateM Failure (List Query)

/-- Reads an expression and evaluates something of it. -/
def reading {α : Type} (source : String) (next : Tree → Eval α) : Resolve α :=
  match Expression.parse source with
  | .error e => throw (.malformed e)
  | .ok t => (next t).adaptExcept .failed

section Definitions

variable (names : Namespace)

/-- The text of the value of an expression. -/
def textOf (source : String) : Resolve String :=
  reading source (evalText names)

/-- Whether a condition holds. -/
def holds (condition : String) : Resolve Bool :=
  reading condition fun t => do truth "?:" t (← eval names t)

mutual

/-- Resolves a component of a value. -/
def resolveValue : Node → Resolve Node
  | .function name args => do
    let args ← resolveValues args
    return .function name args
  | .runtime expression => do
    let text ← textOf names expression
    return .literal text
  | .dotPath path after before => do
    let text ← textOf names path
    return .literal (before.getD "" ++ text ++ after.getD "")
  | v => pure v

/-- Resolves components of a value. -/
def resolveValues : List Node → Resolve (List Node)
  | [] => pure []
  | v :: vs => do
    let v ← resolveValue v
    let vs ← resolveValues vs
    return v :: vs

end

/-- Resolves a declaration. -/
def resolveDeclaration : Node → Resolve Node
  | .declaration property vs important => do
    let vs ← resolveValues names vs
    return .declaration property vs important
  | d => pure d

mutual

/-- Resolves a rule. A block resolves to any number of rules. -/
def resolveRule : Node → Resolve (List Node)
  | .ruleset selectors ds => do
    let ds ← ds.mapM (resolveDeclaration names)
    return [.ruleset selectors ds]
  | .atRule name params none (some ds) => do
    let ds ← ds.mapM (resolveDeclaration names)
    return [.atRule name params none (some ds)]
  | .atRule name params (some rs) ds => do
    let rs ← resolveRules rs
    return [.atRule name params (some rs) ds]
  | .conditionalBlock bs => resolveBranches bs
  | r => pure [r]

/-- Resolves rules. -/
def resolveRules : List Node → Resolve (List Node)
  | [] => pure []
  | r :: rs => do
    let first ← resolveRule r
    let rest ← resolveRules rs
    return first ++ rest

/-- The rules of the first branch whose condition holds, resolved. No condition is looked at after
one that holds. -/
def resolveBranches : List Node → Resolve (List Node)
  | .conditionalRule .otherwise _ body :: _ => resolveRules body
  | .conditionalRule _ (some condition) body :: rest => do
    if ← holds names condition then resolveRules body else resolveBranches rest
  | _ => pure []

end

/-- Resolves a stylesheet. -/
def resolve : Node → Resolve Node
  | .stylesheet body => do
    let body ← resolveRules names body
    return .stylesheet body
  | n => pure n

end Definitions

/-- A node whose condition or expression can be read. -/
def Legible : Node → Prop
  | .conditionalRule _ (some condition) _ => Accepted condition
  | .runtime expression => Accepted expression
  | .dotPath path _ _ => IsPath path
  | _ => True

/-! ### Agreement -/

/-- The resolving computation `x` and the evaluation `y` ask the same of the host and fail alike,
and where they succeed their results are related. -/
def Agrees {α β : Type} (R : α → β → Prop) (x : Resolve α) (y : Eval β) : Prop :=
  ∀ log, (∃ a b log', x log = .ok a log' ∧ y log = .ok b log' ∧ R a b) ∨
    ∃ e log', x log = .error (.failed e) log' ∧ y log = .error e log'

namespace Agrees

variable {α β γ δ : Type} {R : α → β → Prop} {S : γ → δ → Prop} {x : Resolve α} {y : Eval β}

theorem pure {a : α} {b : β} (h : R a b) : Agrees R (pure a) (pure b) :=
  fun log => .inl ⟨a, b, log, rfl, rfl, h⟩

theorem bind {f : α → Resolve γ} {g : β → Eval δ} (h : Agrees R x y)
    (hnext : ∀ a b, R a b → Agrees S (f a) (g b)) : Agrees S (x >>= f) (y >>= g) := by
  intro log
  rcases h log with ⟨a, b, log', hx, hy, hR⟩ | ⟨e, log', hx, hy⟩
  · rw [bind_of_ok hx, bind_of_ok hy]
    exact hnext a b hR log'
  · rw [bind_of_error hx, bind_of_error hy]
    exact .inr ⟨e, log', rfl, rfl⟩

theorem map {f : α → γ} {g : β → δ} (h : Agrees R x y) (hmap : ∀ a b, R a b → S (f a) (g b)) :
    Agrees S (x >>= fun a => Pure.pure (f a)) (g <$> y) := by
  rw [map_eq_pure_bind]
  exact h.bind fun a b hR => .pure (hmap a b hR)

/-- The outcome of the evaluation may be looked at differently. -/
theorem mapRight {S : α → δ → Prop} {g : β → δ} (h : Agrees R x y)
    (hmap : ∀ a b, R a b → S a (g b)) : Agrees S x (g <$> y) := by
  have hboth := h.map (f := id) hmap
  simpa only [id_eq, bind_pure] using hboth

/-- Two computations one after the other. -/
theorem followed {R : α → String → Prop} {S : γ → String → Prop} {T : δ → String → Prop}
    {x' : Resolve γ} {y y' : Eval String} {f : α → γ → δ} (h : Agrees R x y) (h' : Agrees S x' y')
    (hboth : ∀ a c s t, R a s → S c t → T (f a c) (s ++ t)) :
    Agrees T (x >>= fun a => x' >>= fun c => Pure.pure (f a c)) (followed y y') :=
  h.bind fun a s hR => h'.bind fun c t hS => .pure (hboth a c s t hR hS)

end Agrees

theorem agrees_reading {α : Type} {source : String} (h : Accepted source) (next : Tree → Eval α) :
    Agrees Eq (reading source next) (next (treeOf source)) := by
  have hreading : reading source next = (next (treeOf source)).adaptExcept .failed := by
    rw [reading, h.parse_eq]
  intro log
  rw [hreading, EStateM.adaptExcept]
  cases next (treeOf source) log with
  | ok a log' => exact .inl ⟨a, a, log', rfl, rfl, rfl⟩
  | error e log' => exact .inr ⟨e, log', rfl, rfl⟩

/-! ### The texts around a computation -/

section Outlines

variable (names : Namespace)

theorem outlineMeaning_of_textual {ps : List Piece} (h : Textual ps) :
    outlineMeaning names ps = pure (plainText ps) := by
  induction ps with
  | nil => rw [outlineMeaning, plainText]
  | cons p ps ih =>
    obtain ⟨⟨s, rfl⟩, hps⟩ := List.forall_mem_cons.1 h
    rw [outlineMeaning, ih hps, pure_followed_pure, plainText]

/-- An outline that starts and ends with text. -/
theorem outlineMeaning_framed {ps qs rs : List Piece} (hps : Textual ps) (hrs : Textual rs) :
    outlineMeaning names (ps ++ qs ++ rs) =
      (fun s => plainText ps ++ s ++ plainText rs) <$> outlineMeaning names qs := by
  rw [outlineMeaning_append, outlineMeaning_append, outlineMeaning_of_textual names hps,
    outlineMeaning_of_textual names hrs]
  simp only [followed, pure_bind, bind_assoc, map_eq_pure_bind]

theorem outlineMeaning_splice (e : String) :
    outlineMeaning names [.splice e] = evalText names (treeOf e) := by
  rw [outlineMeaning, outlineMeaning, followed_pure_empty]

/-- The hole of a path stands for the text of the path between its affixes. -/
theorem outlineMeaning_dotPath {path : String} (h : IsPath path) (after before : Option String) :
    Accepted path ∧ outlineMeaning names [.splice (dotPathExpression path after before)] =
      (fun s => before.getD "" ++ s ++ after.getD "") <$> evalText names (treeOf path) := by
  obtain ⟨first, rest, hnames, rfl⟩ := h
  have hpath := parse_path hnames
  have haffixed := parse_dotPathExpression hnames after before
  refine ⟨⟨_, hpath⟩, ?_⟩
  rw [outlineMeaning_splice, treeOf, treeOf, hpath, haffixed, evalText_affixedTree]

end Outlines

/-! ### Values -/

theorem spaceOutline_congr {p p' : Option Node} {v v' : Node}
    (hp : p'.map Node.isOperator = p.map Node.isOperator) (hv : v'.isOperator = v.isOperator) :
    spaceOutline p' v' = spaceOutline p v := by
  have hspace : Printer.needsSpace p' v' = Printer.needsSpace p v := by
    cases p <;> cases p' <;> simp_all [Printer.needsSpace]
  rw [spaceOutline, spaceOutline, hspace]

/-- A plain component that has a text and separates like the component `v`. -/
structure SpellsValue (v v' : Node) (s : String) : Prop where
  value : IsValue v'
  plain : Throughout IsPlain v'
  separates : v'.isOperator = v.isOperator
  text : plainText (valueOutline v') = s

/-- Plain components that have a text, whatever component they come after, as long as it separates
like `previous`. -/
structure SpellsValues (previous : Option Node) (vs : List Node) (s : String) : Prop where
  values : AreValues vs
  plain : ∀ v ∈ vs, Throughout IsPlain v
  text : ∀ p : Option Node, p.map Node.isOperator = previous.map Node.isOperator →
    plainText (valuesOutline p vs) = s

theorem plain_of_children {n : Node} (h : IsPlain n)
    (hchildren : ∀ c ∈ n.children, Throughout IsPlain c) :
    Throughout IsPlain n :=
  throughout_iff.2 ⟨h, hchildren⟩

theorem spellsValue_literal {v : Node} (h : v.isOperator = false) (s : String) :
    SpellsValue v (.literal s) s where
  value := .literal s
  plain := plain_of_children (by simp [IsPlain, Node.kind]) (by simp [Node.children])
  separates := h.symm
  text := by simp [valueOutline]

theorem spellsValue_function (name : String) (args : List Node) {args' : List Node} {s : String}
    (h : SpellsValues none args' s) :
    SpellsValue (.function name args) (.function name args') (name ++ "(" ++ s ++ ")") where
  value := .function name h.values
  plain := plain_of_children (by simp [IsPlain, Node.kind]) h.plain
  separates := rfl
  text := by simp [valueOutline, h.text none rfl, String.append_assoc]

theorem spellsValues_cons {previous : Option Node} {v v' : Node} {vs' : List Node} {s t : String}
    (hv : SpellsValue v v' s) (hvs : SpellsValues (some v) vs' t) :
    SpellsValues previous (v' :: vs') (plainText (spaceOutline previous v) ++ (s ++ t)) where
  values := .cons hv.value hvs.values
  plain := List.forall_mem_cons.2 ⟨hv.plain, hvs.plain⟩
  text p hp := by
    have hrest := hvs.text (some v') (by rw [Option.map_some, Option.map_some, hv.separates])
    rw [valuesOutline, plainText_append, plainText_append, hv.text, hrest,
      spaceOutline_congr hp hv.separates, String.append_assoc]

section Values

variable (names : Namespace)

mutual

theorem agrees_value {v : Node} (h : IsValue v) (hlegible : Throughout Legible v) :
    Agrees (SpellsValue v) (resolveValue names v) (outlineMeaning names (valueOutline v)) := by
  obtain ⟨hv, hchildren⟩ := throughout_iff.1 hlegible
  match h with
  | .literal text =>
    rw [resolveValue, outlineMeaning_of_textual names (by simp [valueOutline])]
    · exact .pure ⟨.literal text, plain_of_children (by simp [IsPlain, Node.kind])
        (by simp [Node.children]), rfl, rfl⟩
    all_goals simp
  | .operator htext =>
    rw [resolveValue, outlineMeaning_of_textual names (by simp [valueOutline])]
    · exact .pure ⟨.operator htext, plain_of_children (by simp [IsPlain, Node.kind])
        (by simp [Node.children]), rfl, rfl⟩
    all_goals simp
  | @IsValue.function name args hargs =>
    have houtline : valueOutline (.function name args) =
        [.text (name ++ "(")] ++ valuesOutline none args ++ [.text ")"] := by
      rw [valueOutline, List.singleton_append, List.cons_append]
    rw [resolveValue, houtline, outlineMeaning_framed names (by simp) (by simp)]
    refine (agrees_values hargs hchildren none).map fun args' s hs => ?_
    simpa using spellsValue_function name args hs
  | .runtime e =>
    rw [resolveValue, valueOutline, outlineMeaning_splice, ← id_map (evalText _ _)]
    refine (agrees_reading hv _).map ?_
    rintro s _ rfl
    exact spellsValue_literal rfl s
  | .dotPath path after before =>
    obtain ⟨haccepted, hmeaning⟩ := outlineMeaning_dotPath names hv after before
    rw [resolveValue, valueOutline, hmeaning]
    refine (agrees_reading haccepted _).map ?_
    rintro s _ rfl
    exact spellsValue_literal rfl _

theorem agrees_values {vs : List Node} (h : AreValues vs)
    (hlegible : ∀ v ∈ vs, Throughout Legible v) (previous : Option Node) :
    Agrees (SpellsValues previous) (resolveValues names vs)
      (outlineMeaning names (valuesOutline previous vs)) := by
  match h with
  | .nil =>
    rw [resolveValues, valuesOutline, outlineMeaning]
    exact .pure ⟨.nil, by simp, fun p _ => by rw [valuesOutline, plainText]⟩
  | @AreValues.cons v rest hv hrest =>
    obtain ⟨hlegible, hlegible'⟩ := List.forall_mem_cons.1 hlegible
    have hmeaning : outlineMeaning names (valuesOutline previous (v :: rest)) =
        (fun s => plainText (spaceOutline previous v) ++ s) <$>
          followed (outlineMeaning names (valueOutline v))
            (outlineMeaning names (valuesOutline (some v) rest)) := by
      rw [valuesOutline, List.append_assoc, outlineMeaning_append, outlineMeaning_append,
        outlineMeaning_of_textual names (textual_spaceOutline previous v)]
      simp only [followed, pure_bind, map_eq_pure_bind, bind_assoc]
    rw [resolveValues, hmeaning]
    have hvalues := agrees_values hrest hlegible' (some v)
    refine Agrees.mapRight ((agrees_value hv hlegible).followed hvalues
      (T := fun vs' s => SpellsValues previous vs' (plainText (spaceOutline previous v) ++ s)) ?_)
      fun _ _ h => h
    intro v' vs' s t hs ht
    exact spellsValues_cons hs ht

end

end Values

/-! ### Declarations and rules -/

/-- Plain declarations that have a text. -/
structure SpellsDeclarations (first : Bool) (ds : List Node) (s : String) : Prop where
  declarations : AreDeclarations ds
  plain : ∀ d ∈ ds, Throughout IsPlain d
  text : plainText (declarationsOutline first ds) = s

/-- Plain rules that have a text. -/
structure SpellsRules (rs : List Node) (s : String) : Prop where
  rules : AreRules rs
  plain : ∀ r ∈ rs, Throughout IsPlain r
  text : plainText (rulesOutline rs) = s

theorem spellsRules_singleton {r : Node} {s : String} (h : IsRule r) (hr : IsPlain r)
    (hchildren : ∀ c ∈ r.children, Throughout IsPlain c) (htext : plainText (ruleOutline r) = s) :
    SpellsRules [r] s where
  rules := .cons h .nil
  plain := List.forall_mem_singleton.2 (plain_of_children hr hchildren)
  text := by rw [rulesOutline, rulesOutline, List.append_nil, htext]

theorem areRules_append {rs rs' : List Node} (h : AreRules rs) (h' : AreRules rs') :
    AreRules (rs ++ rs') := by
  induction rs with
  | nil => exact h'
  | cons r rs ih =>
    cases h with
    | cons hr hrs => exact .cons hr (ih hrs)

theorem rulesOutline_append (rs rs' : List Node) :
    rulesOutline (rs ++ rs') = rulesOutline rs ++ rulesOutline rs' := by
  induction rs with
  | nil => rw [List.nil_append, rulesOutline, List.nil_append]
  | cons r rs ih => rw [List.cons_append, rulesOutline, rulesOutline, ih, List.append_assoc]

theorem spellsRules_append {rs rs' : List Node} {s t : String} (h : SpellsRules rs s)
    (h' : SpellsRules rs' t) : SpellsRules (rs ++ rs') (s ++ t) where
  rules := areRules_append h.rules h'.rules
  plain := List.forall_mem_append.2 ⟨h.plain, h'.plain⟩
  text := by rw [rulesOutline_append, plainText_append, h.text, h'.text]

section Rules

variable (names : Namespace)

theorem agrees_declarations {ds : List Node} (h : AreDeclarations ds)
    (hlegible : ∀ d ∈ ds, Throughout Legible d) (first : Bool) :
    Agrees (SpellsDeclarations first) (ds.mapM (resolveDeclaration names))
      (outlineMeaning names (declarationsOutline first ds)) := by
  induction h generalizing first with
  | nil =>
    rw [List.mapM_nil, outlineMeaning_of_textual names (by simp [declarationsOutline])]
    exact .pure ⟨.nil, by simp, rfl⟩
  | cons property important hvs hds ih =>
    next vs ds =>
    obtain ⟨hlegible, hlegible'⟩ := List.forall_mem_cons.1 hlegible
    let before : List Piece := (if first then [] else [.text ";"]) ++ [.text (property ++ ":")]
    let after : List Piece := if important then [.text "!important"] else []
    have hbefore : Textual before := by cases first <;> simp [before]
    have hafter : Textual after := by cases important <;> simp [after]
    have houtline (vs' ds' : List Node) : declarationsOutline first
        (.declaration property vs' important :: ds') =
          before ++ valuesOutline none vs' ++ after ++ declarationsOutline false ds' := by
      simp [declarationsOutline, before, after]
    rw [List.mapM_cons, houtline, outlineMeaning_append, outlineMeaning_framed names hbefore hafter]
    -- the declaration that is resolved first, with the text around its value
    have hdeclaration := (agrees_values names hvs (throughout_iff.1 hlegible).2 none).map
      (f := fun vs' => Node.declaration property vs' important)
      (g := fun s => plainText before ++ s ++ plainText after)
      (S := fun d s => ∃ vs' t, d = .declaration property vs' important ∧
        SpellsValues none vs' t ∧ s = plainText before ++ t ++ plainText after)
      fun vs' t ht => ⟨vs', t, rfl, ht, rfl⟩
    refine hdeclaration.followed (ih hlegible' false) ?_
    rintro _ ds' _ t ⟨vs', s, rfl, hvs', rfl⟩ hds'
    refine ⟨.cons property important hvs'.values hds'.declarations, ?_, ?_⟩
    · exact List.forall_mem_cons.2
        ⟨plain_of_children (by simp [IsPlain, Node.kind]) hvs'.plain, hds'.plain⟩
    · simp only [houtline, plainText_append, hvs'.text none rfl, hds'.text]

/-- A body in braces, with text before it. -/
theorem outlineMeaning_body {ps : List Piece} (h : Textual ps) (qs : List Piece) :
    outlineMeaning names (ps ++ bodyOutline qs) =
      (fun s => plainText (ps ++ bodyOutline [.text s])) <$> outlineMeaning names qs := by
  have houtline : ps ++ bodyOutline qs = (ps ++ [.text "\x7b"]) ++ qs ++ [.text "\x7d"] := by
    simp [bodyOutline]
  rw [houtline, outlineMeaning_framed names (by simpa using h) (by simp)]
  simp [bodyOutline, String.append_assoc]

/-- A branch with a condition and what follows it in its block. -/
theorem agrees_branch {b : Branch} (hb : b ≠ .otherwise) {c : String} {body rest : List Node}
    (hc : Accepted c)
    (hbody : Agrees SpellsRules (resolveRules names body)
      (outlineMeaning names (rulesOutline body)))
    (hrest : Agrees SpellsRules (resolveBranches names rest)
      (branchesMeaning names (chainOutline rest))) :
    Agrees SpellsRules (resolveBranches names (.conditionalRule b (some c) body :: rest))
      (branchesMeaning names (chainOutline (.conditionalRule b (some c) body :: rest))) := by
  have hresolve : resolveBranches names (.conditionalRule b (some c) body :: rest) =
      holds names c >>= fun yes =>
        if yes then resolveRules names body else resolveBranches names rest := by
    rw [resolveBranches]
    exact hb
  rw [hresolve, chainOutline_branch hb, branchesMeaning]
  refine (agrees_reading hc _).bind ?_
  rintro yes _ rfl
  cases yes with
  | true => exact hbody
  | false => exact hrest

mutual

theorem agrees_rule {r : Node} (h : IsRule r) (hlegible : Throughout Legible r) :
    Agrees SpellsRules (resolveRule names r) (outlineMeaning names (ruleOutline r)) := by
  obtain ⟨hr, hchildren⟩ := throughout_iff.1 hlegible
  match h with
  | @IsRule.ruleset selectors ds hds =>
    have houtline (ds' : List Node) : ruleOutline (.ruleset selectors ds') =
        [.text (",".intercalate selectors)] ++ bodyOutline (declarationsOutline true ds') := by
      rw [ruleOutline, List.singleton_append]
    rw [resolveRule, houtline, outlineMeaning_body names (by simp)]
    refine (agrees_declarations names hds hchildren true).map fun ds' s hds' => ?_
    refine spellsRules_singleton (.ruleset selectors hds'.declarations)
      (by simp [IsPlain, Node.kind]) hds'.plain ?_
    simp [houtline, bodyOutline, hds'.text]
  | .statement name params =>
    have htextual : Textual (ruleOutline (.atRule name params none none)) := by
      simp [ruleOutline, textual_atRuleOutline]
    rw [resolveRule, outlineMeaning_of_textual names htextual]
    · exact .pure (spellsRules_singleton (.statement name params) (by simp [IsPlain, Node.kind])
        (by simp [Node.children]) rfl)
    all_goals simp
  | .descriptors name params hds =>
    rw [resolveRule, ruleOutline, outlineMeaning_body names (textual_atRuleOutline name params)]
    refine (agrees_declarations names hds hchildren true).map fun ds' s hds' => ?_
    refine spellsRules_singleton (.descriptors name params hds'.declarations)
      (by simp [IsPlain, Node.kind]) hds'.plain ?_
    simp [ruleOutline, bodyOutline, hds'.text]
  | .group name params hrs =>
    rw [resolveRule, ruleOutline, outlineMeaning_body names (textual_atRuleOutline name params)]
    refine (agrees_rules hrs hchildren).map fun rs' s hrs' => ?_
    refine spellsRules_singleton (.group name params hrs'.rules) (by simp [IsPlain, Node.kind])
      hrs'.plain ?_
    simp [ruleOutline, bodyOutline, hrs'.text]
  | .block c hbody hrest =>
    rw [resolveRule, ruleOutline, outlineMeaning, outlineMeaning, followed_pure_empty]
    obtain ⟨hfirst, hothers⟩ := List.forall_mem_cons.1 hchildren
    obtain ⟨hc, hrules⟩ := throughout_iff.1 hfirst
    exact agrees_branch names (by decide) hc (agrees_rules hbody hrules)
      (agrees_alternatives hrest hothers)

/-- The text of resolved rules is what their outline means. -/
theorem agrees_rules {rs : List Node} (h : AreRules rs)
    (hlegible : ∀ r ∈ rs, Throughout Legible r) :
    Agrees SpellsRules (resolveRules names rs) (outlineMeaning names (rulesOutline rs)) := by
  match h with
  | .nil =>
    rw [resolveRules, rulesOutline, outlineMeaning]
    exact .pure ⟨.nil, by simp, by rw [rulesOutline, plainText]⟩
  | .cons hr hrs =>
    obtain ⟨hlegible, hlegible'⟩ := List.forall_mem_cons.1 hlegible
    rw [resolveRules, rulesOutline, outlineMeaning_append]
    exact (agrees_rule hr hlegible).followed (agrees_rules hrs hlegible')
      fun _ _ _ _ => spellsRules_append

theorem agrees_alternatives {bs : List Node} (h : AreAlternatives bs)
    (hlegible : ∀ b ∈ bs, Throughout Legible b) :
    Agrees SpellsRules (resolveBranches names bs) (branchesMeaning names (chainOutline bs)) := by
  match h with
  | .nil =>
    rw [resolveBranches, chainOutline, branchesMeaning]
    · exact .pure ⟨.nil, by simp, by rw [rulesOutline, plainText]⟩
    all_goals simp
  | .otherwise hbody =>
    obtain ⟨hlegible, -⟩ := List.forall_mem_cons.1 hlegible
    rw [resolveBranches, chainOutline, branchesMeaning]
    exact agrees_rules hbody (throughout_iff.1 hlegible).2
  | .elseIf c hbody hrest =>
    obtain ⟨hlegible, hlegible'⟩ := List.forall_mem_cons.1 hlegible
    obtain ⟨hc, hrules⟩ := throughout_iff.1 hlegible
    exact agrees_branch names (by decide) hc (agrees_rules hbody hrules)
      (agrees_alternatives hrest hlegible')

end

end Rules

end ConditionalStyle.Assembly
