import ConditionalStyle.Proofs.Assembly.Preservation
import ConditionalStyle.Proofs.Stylesheet.Stats

/-!
# Statistics and fragments

What a stylesheet leaves to be decided is marked in its tree, in its outline, in the layout of the
outline and in the fragments that are kept: by the conditions of branches and by the expressions of
values. The marks are the same everywhere and in the same order, so the statistics of a tree can be
read off the fragments.

## Main definitions

* `Mark`: a condition or the expression of a value.
* `treeMarks`, `outlineMarks`, `layoutMarks`: the marks of trees, outlines and layouts.
* `conditionTexts`: the texts of fragments that are conditions.
* `Marked`: fragments with given marks.

## Main statements

* `outlined_rules`: the marks of regular rules are those of their outline.
* `layoutMarks_layout`, `layoutMarks_prunedGroups`: a layout keeps the marks, and so does pruning.
* `marked_fragments`: the marks of a layout are those of its fragments.
* `stats_of_compile`: the statistics of a compiled stylesheet.
-/

namespace ConditionalStyle.Assembly

open Stylesheet

/-! ### Marks of trees -/

/-- What is decided when a stylesheet is used. -/
inductive Mark where
  | condition (text : String)
  | splice (expression : String)

namespace Mark

/-- The text of a condition. -/
def condition? : Mark → Option String
  | .condition c => some c
  | .splice _ => none

/-- Whether a mark is the expression of a value. -/
def isSplice : Mark → Bool
  | .condition _ => false
  | .splice _ => true

theorem length_eq_count (ms : List Mark) :
    ms.length = (ms.filterMap condition?).length + ms.countP isSplice := by
  induction ms with
  | nil => rfl
  | cons m ms ih =>
    cases m with
    | condition c =>
      rw [List.filterMap_cons_some (rfl : condition? (.condition c) = some c),
        List.countP_cons_of_neg (by simp [isSplice]),
        List.length_cons, List.length_cons, ih, Nat.add_right_comm]
    | splice e =>
      rw [List.filterMap_cons_none rfl, List.countP_cons_of_pos rfl, List.length_cons, ih,
        Nat.add_assoc]

end Mark

/-- The mark of a node. -/
def nodeMark : Node → Option Mark
  | .conditionalRule _ (some c) _ => some (.condition c)
  | .runtime e => some (.splice e)
  | .dotPath path after before => some (.splice (dotPathExpression path after before))
  | _ => none

/-- The marks of trees in a row. -/
def treeMarks (ns : List Node) : List Mark :=
  (ns.flatMap Node.nodes).filterMap nodeMark

theorem treeMarks_append (ns ms : List Node) :
    treeMarks (ns ++ ms) = treeMarks ns ++ treeMarks ms := by
  simp [treeMarks]

theorem treeMarks_singleton (n : Node) :
    treeMarks [n] = (nodeMark n).toList ++ treeMarks n.children := by
  rw [treeMarks, List.flatMap_singleton, Node.nodes_eq, treeMarks]
  cases h : nodeMark n <;> simp [h]

theorem nodeMark_bind_condition? (n : Node) :
    (nodeMark n).bind Mark.condition? = Stats.conditionOf n := by
  match n with
  | .conditionalRule _ (some _) _ | .conditionalRule _ none _ | .stylesheet _ | .ruleset ..
  | .atRule .. | .declaration .. | .literal _ | .operator _ | .function .. | .runtime _
  | .dotPath .. | .conditionalBlock _ | .blankValue | .blank => rfl

theorem nodeMark_isSplice (n : Node) :
    ((nodeMark n).map Mark.isSplice).getD false = n.isRuntimeValue := by
  match n with
  | .conditionalRule _ (some _) _ | .conditionalRule _ none _ | .stylesheet _ | .ruleset ..
  | .atRule .. | .declaration .. | .literal _ | .operator _ | .function .. | .runtime _
  | .dotPath .. | .conditionalBlock _ | .blankValue | .blank => rfl

theorem conditions_treeMarks (ns : List Node) :
    (treeMarks ns).filterMap Mark.condition? =
      (ns.flatMap Node.nodes).filterMap Stats.conditionOf := by
  rw [treeMarks, List.filterMap_filterMap]
  simp only [nodeMark_bind_condition?]

theorem countP_treeMarks (ns : List Node) :
    (treeMarks ns).countP Mark.isSplice = (ns.flatMap Node.nodes).countP Node.isRuntimeValue := by
  rw [treeMarks, List.countP_filterMap]
  simp only [nodeMark_isSplice]

/-! ### Marks of outlines -/

mutual

/-- The marks of a piece. -/
def pieceMarks : Piece → List Mark
  | .text _ => []
  | .splice e => [.splice e]
  | .block chain => chainMarks chain

/-- The marks of an outline. -/
def outlineMarks : List Piece → List Mark
  | [] => []
  | p :: ps => pieceMarks p ++ outlineMarks ps

/-- The marks of branches. -/
def chainMarks : Chain Piece → List Mark
  | .nothing => []
  | .otherwise body => outlineMarks body
  | .branch condition body rest => .condition condition :: (outlineMarks body ++ chainMarks rest)

end

theorem outlineMarks_append (ps qs : List Piece) :
    outlineMarks (ps ++ qs) = outlineMarks ps ++ outlineMarks qs := by
  induction ps with
  | nil => simp [outlineMarks]
  | cons p ps ih => simp [outlineMarks, ih]

theorem outlineMarks_of_textual {ps : List Piece} (h : Textual ps) : outlineMarks ps = [] := by
  induction ps with
  | nil => rw [outlineMarks]
  | cons p ps ih =>
    obtain ⟨⟨s, rfl⟩, hps⟩ := List.forall_mem_cons.1 h
    rw [outlineMarks, pieceMarks, ih hps, List.nil_append]

theorem outlineMarks_bodyOutline (ps : List Piece) :
    outlineMarks (bodyOutline ps) = outlineMarks ps := by
  simp [bodyOutline, outlineMarks, outlineMarks_append, pieceMarks]

/-- A node that has a condition if it is a branch, unless it is an `@else`. -/
def IsProper (n : Node) : Prop :=
  n.isBranch.toNat = n.isOtherwise.toNat + (Stats.conditionOf n).isSome.toNat

theorem countP_isBranch {ns : List Node} (h : ∀ n ∈ ns, IsProper n) :
    ns.countP Node.isBranch =
      ns.countP Node.isOtherwise + (ns.filterMap Stats.conditionOf).length := by
  induction ns with
  | nil => rfl
  | cons n ns ih =>
    obtain ⟨hn, hns⟩ := List.forall_mem_cons.1 h
    rw [IsProper] at hn
    rw [List.countP_cons, List.countP_cons, ih hns, List.filterMap_cons]
    cases hc : Stats.conditionOf n <;> cases ho : n.isOtherwise <;> cases hb : n.isBranch <;>
      simp [hc, ho, hb] at hn ⊢ <;> omega

/-- Trees with proper nodes and an outline with their marks. -/
structure Outlined (ns : List Node) (ps : List Piece) : Prop where
  marks : outlineMarks ps = treeMarks ns
  proper : ∀ n ∈ ns.flatMap Node.nodes, IsProper n

theorem outlined_nil : Outlined [] [] :=
  ⟨rfl, by simp⟩

theorem Outlined.append {ns ms : List Node} {ps qs : List Piece} (h : Outlined ns ps)
    (h' : Outlined ms qs) : Outlined (ns ++ ms) (ps ++ qs) where
  marks := by rw [outlineMarks_append, treeMarks_append, h.marks, h'.marks]
  proper := by
    rw [List.flatMap_append]
    exact List.forall_mem_append.2 ⟨h.proper, h'.proper⟩

/-- A node from its children. The outline may have more texts than theirs. -/
theorem Outlined.node {n : Node} {ns : List Node} {ps qs : List Piece} (h : Outlined ns ps)
    (hchildren : n.children = ns) (hn : IsProper n)
    (hqs : outlineMarks qs = (nodeMark n).toList ++ outlineMarks ps) : Outlined [n] qs where
  marks := by rw [treeMarks_singleton, hqs, h.marks, hchildren]
  proper := by
    rw [List.flatMap_singleton, Node.nodes_eq, hchildren]
    exact List.forall_mem_cons.2 ⟨hn, h.proper⟩

/-! ### Regular trees -/

mutual

theorem outlined_value {v : Node} (h : IsValue v) : Outlined [v] (valueOutline v) := by
  match h with
  | .literal _ | .operator _ | .runtime _ | .dotPath _ _ _ => exact outlined_nil.node rfl rfl rfl
  | .function name hargs =>
    refine (outlined_values hargs none).node rfl rfl ?_
    simp [valueOutline, outlineMarks, outlineMarks_append, pieceMarks, nodeMark]

theorem outlined_values {vs : List Node} (h : AreValues vs) (previous : Option Node) :
    Outlined vs (valuesOutline previous vs) := by
  match h with
  | .nil =>
    rw [valuesOutline]
    exact outlined_nil
  | @AreValues.cons v vs hv hvs =>
    have hspace : Outlined [] (spaceOutline previous v) :=
      ⟨outlineMarks_of_textual (textual_spaceOutline previous v), by simp⟩
    rw [valuesOutline]
    exact (hspace.append (outlined_value hv)).append (outlined_values hvs (some v))

end

theorem outlined_declarations {ds : List Node} (h : AreDeclarations ds) (first : Bool) :
    Outlined ds (declarationsOutline first ds) := by
  induction h generalizing first with
  | nil =>
    simp only [declarationsOutline]
    exact outlined_nil
  | @cons property vs important ds hvs hds ih =>
    have hdeclaration : Outlined [.declaration property vs important]
        ((if first then [] else [.text ";"]) ++ .text (property ++ ":") ::
          (valuesOutline none vs ++ if important then [.text "!important"] else [])) := by
      refine (outlined_values hvs none).node rfl rfl ?_
      cases first <;> cases important <;>
        simp [outlineMarks, outlineMarks_append, pieceMarks, nodeMark]
    simpa [declarationsOutline] using hdeclaration.append (ih false)

theorem outlineMarks_atRule (name params : String) (body : List Piece) :
    outlineMarks (atRuleOutline name params ++ bodyOutline body) = outlineMarks body := by
  rw [outlineMarks_append, outlineMarks_of_textual (textual_atRuleOutline name params),
    outlineMarks_bodyOutline, List.nil_append]

mutual

theorem outlined_rule {r : Node} (h : IsRule r) : Outlined [r] (ruleOutline r) := by
  match h with
  | .ruleset selectors hds =>
    refine (outlined_declarations hds true).node rfl rfl ?_
    rw [ruleOutline, outlineMarks, outlineMarks_bodyOutline]
    rfl
  | .statement name params =>
    refine outlined_nil.node rfl rfl ?_
    exact outlineMarks_of_textual (by simp [ruleOutline, textual_atRuleOutline])
  | .descriptors name params hds =>
    refine (outlined_declarations hds true).node rfl rfl ?_
    rw [ruleOutline, outlineMarks_atRule]
    rfl
  | .group name params hrs =>
    refine (outlined_rules hrs).node rfl rfl ?_
    rw [ruleOutline, outlineMarks_atRule]
    rfl
  | @IsRule.block condition body rest hbody hrest =>
    have hbranch : Outlined [.conditionalRule .ifTrue (some condition) body]
        (.block (.branch condition (rulesOutline body) .nothing) :: []) := by
      refine (outlined_rules hbody).node rfl rfl ?_
      simp [outlineMarks, pieceMarks, chainMarks, nodeMark]
    refine (hbranch.append (outlined_alternatives hrest)).node rfl rfl ?_
    rw [ruleOutline, chainOutline_branch (by decide)]
    simp [outlineMarks, pieceMarks, chainMarks, nodeMark]

/-- Regular rules have proper nodes, and their outline has their marks. -/
theorem outlined_rules {rs : List Node} (h : AreRules rs) : Outlined rs (rulesOutline rs) := by
  match h with
  | .nil =>
    rw [rulesOutline]
    exact outlined_nil
  | .cons hr hrs =>
    rw [rulesOutline]
    exact (outlined_rule hr).append (outlined_rules hrs)

theorem outlined_alternatives {bs : List Node} (h : AreAlternatives bs) :
    Outlined bs [.block (chainOutline bs)] := by
  match h with
  | .nil => exact ⟨rfl, by simp⟩
  | @AreAlternatives.otherwise body hbody =>
    refine (outlined_rules hbody).node rfl rfl ?_
    simp [chainOutline, outlineMarks, pieceMarks, chainMarks, nodeMark]
  | @AreAlternatives.elseIf condition body rest hbody hrest =>
    have hbranch : Outlined [.conditionalRule .elseIf (some condition) body]
        (.block (.branch condition (rulesOutline body) .nothing) :: []) := by
      refine (outlined_rules hbody).node rfl rfl ?_
      simp [outlineMarks, pieceMarks, chainMarks, nodeMark]
    have hboth := hbranch.append (outlined_alternatives hrest)
    refine ⟨?_, hboth.proper⟩
    rw [chainOutline_branch (by decide)]
    refine Eq.trans ?_ hboth.marks
    simp [outlineMarks, pieceMarks, chainMarks]

end

theorem outlined_tree {body : List Node} (h : AreRules body) :
    Outlined [.stylesheet body] (rulesOutline body) :=
  (outlined_rules h).node rfl rfl rfl

/-! ### Marks of layouts -/

/-- The marks of a term. -/
def Term.marks : Term → List Mark
  | .literal _ => []
  | .splice e => [.splice e]

mutual

/-- The marks of a group. -/
def groupMarks : Group → List Mark
  | .sum first rest => (first :: rest).flatMap Term.marks
  | .choice chain => choiceMarks chain

/-- The marks of a layout. -/
def layoutMarks : List Group → List Mark
  | [] => []
  | g :: gs => groupMarks g ++ layoutMarks gs

/-- The marks of the branches of a layout. -/
def choiceMarks : Chain Group → List Mark
  | .nothing => []
  | .otherwise body => layoutMarks body
  | .branch condition body rest => .condition condition :: (layoutMarks body ++ choiceMarks rest)

end

theorem layoutMarks_attach (separator : Part) (t : Term) (gs : List Group) :
    layoutMarks (attach separator t gs) = t.marks ++ layoutMarks gs := by
  unfold attach
  split
  · split <;> simp [layoutMarks, groupMarks]
  · simp [layoutMarks, groupMarks]

mutual

/-- A layout has the marks of its outline. -/
theorem layoutMarks_layout (limit : Nat) (pending : String) (count : Nat) (ps : List Piece) :
    layoutMarks (layout limit pending count ps) = outlineMarks ps := by
  match ps with
  | [] => simp [layout, layoutMarks, groupMarks, outlineMarks, Term.marks]
  | .text s :: ps =>
    rw [layout, layoutMarks_layout, outlineMarks, pieceMarks, List.nil_append]
  | .splice e :: ps =>
    rw [layout, layoutMarks_attach, layoutMarks_attach, layoutMarks_layout, outlineMarks,
      pieceMarks]
    rfl
  | .block chain :: ps =>
    rw [layout, layoutMarks, layoutMarks, groupMarks, layoutMarks_layout, groupMarks,
      choiceMarks_chainLayout, outlineMarks, pieceMarks]
    rfl

theorem choiceMarks_chainLayout (limit : Nat) (count : Nat) (c : Chain Piece) :
    choiceMarks (chainLayout limit count c) = chainMarks c := by
  match c with
  | .nothing => rw [chainLayout, choiceMarks, chainMarks]
  | .otherwise body => rw [chainLayout, choiceMarks, chainMarks, layoutMarks_layout]
  | .branch condition body rest =>
    rw [chainLayout, choiceMarks, chainMarks, layoutMarks_layout, choiceMarks_chainLayout]

end

theorem layoutMarks_orBlank (gs : List Group) : layoutMarks (orBlank gs) = layoutMarks gs := by
  cases gs with
  | nil => simp [orBlank, layoutMarks, groupMarks, Term.marks]
  | cons g gs => rfl

mutual

theorem groupMarks_prunedGroup (g : Group) : groupMarks (prunedGroup g) = groupMarks g := by
  match g with
  | .sum first rest => rw [prunedGroup]
  | .choice chain => rw [prunedGroup, groupMarks, groupMarks, choiceMarks_prunedChain]

/-- Blank groups have no marks. -/
theorem layoutMarks_prunedGroups (gs : List Group) :
    layoutMarks (prunedGroups gs) = layoutMarks gs := by
  match gs with
  | [] => rw [prunedGroups]
  | g :: gs =>
    by_cases hblank : g.IsBlank
    · rw [prunedGroups_of_blank hblank, layoutMarks_prunedGroups gs, hblank]
      simp [layoutMarks, groupMarks, Term.marks]
    · rw [prunedGroups_of_not_blank hblank, layoutMarks, layoutMarks, groupMarks_prunedGroup,
        layoutMarks_prunedGroups gs]

theorem choiceMarks_prunedChain (c : Chain Group) :
    choiceMarks (prunedChain c) = choiceMarks c := by
  match c with
  | .nothing => rw [prunedChain]
  | .otherwise body =>
    rw [prunedChain, choiceMarks, choiceMarks, layoutMarks_orBlank, layoutMarks_prunedGroups]
  | .branch condition body rest =>
    rw [prunedChain, choiceMarks, choiceMarks, layoutMarks_orBlank, layoutMarks_prunedGroups,
      choiceMarks_prunedChain]

end

/-! ### Marks of fragments -/

/-- The texts that are taken over right before a question mark, in the order of reading. -/
def conditionTexts (fs : List Fragment) : List (Option String) :=
  ((fs.zip fs.tail).filter fun pair => pair.1.part == .raw && pair.2.part == .question).map
    (·.1.text)

theorem conditionTexts_cons_cons (f g : Fragment) (fs : List Fragment) :
    conditionTexts (f :: g :: fs) =
      (if f.part == .raw && g.part == .question then [f.text] else []) ++
        conditionTexts (g :: fs) := by
  rw [conditionTexts, List.tail_cons, List.zip_cons_cons, List.filter_cons, conditionTexts,
    List.tail_cons]
  split <;> rfl

/-- Fragments that do not start with a question mark. -/
def Unasked (fs : List Fragment) : Prop :=
  ∀ f, fs.head? = some f → f.part ≠ .question

theorem conditionTexts_append {fs gs : List Fragment} (h : Unasked gs) :
    conditionTexts (fs ++ gs) = conditionTexts fs ++ conditionTexts gs := by
  induction fs with
  | nil => rfl
  | cons f fs ih =>
    cases fs with
    | nil =>
      cases gs with
      | nil => rfl
      | cons g gs =>
        have hg : (g.part == .question) = false := by simpa using h g rfl
        rw [List.singleton_append, conditionTexts_cons_cons, hg, Bool.and_false]
        rfl
    | cons f' fs =>
      rw [List.cons_append, List.cons_append, conditionTexts_cons_cons, ← List.cons_append, ih,
        conditionTexts_cons_cons, List.append_assoc]

/-- Fragments with given marks. -/
structure Marked (fs : List Fragment) (ms : List Mark) : Prop where
  unasked : Unasked fs
  questions : count .question fs = (ms.filterMap Mark.condition?).length
  raws : count .raw fs = ms.length
  conditions : conditionTexts fs = (ms.filterMap Mark.condition?).map some

theorem marked_nil : Marked [] [] :=
  ⟨by simp [Unasked], rfl, rfl, rfl⟩

theorem Marked.append {fs gs : List Fragment} {ms ns : List Mark} (h : Marked fs ms)
    (h' : Marked gs ns) : Marked (fs ++ gs) (ms ++ ns) where
  unasked := by
    cases fs with
    | nil => exact h'.unasked
    | cons f fs => exact h.unasked
  questions := by
    rw [count, List.countP_append, List.filterMap_append, List.length_append, ← h.questions,
      ← h'.questions]
    rfl
  raws := by
    rw [count, List.countP_append, List.length_append, ← h.raws, ← h'.raws]
    rfl
  conditions := by
    rw [conditionTexts_append h'.unasked, h.conditions, h'.conditions, List.filterMap_append,
      List.map_append]

theorem marked_fixed {p : Part} (h : p ∈ [Part.opening, .closing, .colon, .groupBreak, .plus]) :
    Marked [.fixed p] [] := by
  simp only [List.mem_cons, List.not_mem_nil, or_false] at h
  rcases h with rfl | rfl | rfl | rfl | rfl <;>
    exact ⟨by simp [Unasked, Fragment.fixed], rfl, rfl, rfl⟩

theorem marked_term (t : Term) : Marked [t.fragment] t.marks := by
  cases t with
  | literal s =>
    have hpart : (Term.literal s).fragment.part = .empty ∨
        (Term.literal s).fragment.part = .literal := by
      simp only [Term.fragment, Fragment.literal]
      split
      · exact .inl rfl
      · exact .inr rfl
    refine ⟨?_, ?_, ?_, rfl⟩
    · rcases hpart with h | h <;> simp [Unasked, h]
    · rcases hpart with h | h <;> simp [count, h, Term.marks]
    · rcases hpart with h | h <;> simp [count, h, Term.marks]
  | splice e => exact ⟨by simp [Unasked, Term.fragment, Fragment.raw], rfl, rfl, rfl⟩

theorem marked_condition (condition : String) :
    Marked [.fixed .opening, .raw (some condition), .fixed .question] [.condition condition] :=
  ⟨by simp [Unasked, Fragment.fixed], rfl, rfl, rfl⟩

theorem marked_termFragments (ts : List Term) :
    Marked (termFragments ts) (ts.flatMap Term.marks) := by
  induction ts with
  | nil => exact marked_nil
  | cons t ts ih => exact (marked_fixed (by simp)).append ((marked_term t).append ih)

mutual

theorem marked_groupFragments (g : Group) : Marked (groupFragments g) (groupMarks g) := by
  match g with
  | .sum first rest =>
    rw [groupFragments, groupMarks]
    exact (marked_term first).append (marked_termFragments rest)
  | .choice chain =>
    rw [groupFragments, groupMarks]
    exact marked_chainFragments chain

/-- The fragments of a layout have its marks. -/
theorem marked_fragments (gs : List Group) : Marked (fragments gs) (layoutMarks gs) := by
  match gs with
  | [] =>
    rw [fragments, layoutMarks]
    exact marked_nil
  | [g] =>
    rw [fragments, layoutMarks, layoutMarks, List.append_nil]
    exact marked_groupFragments g
  | g :: h :: gs =>
    rw [fragments_cons, layoutMarks]
    exact (marked_groupFragments g).append
      ((marked_fixed (by simp)).append (marked_fragments (h :: gs)))

theorem marked_chainFragments (c : Chain Group) : Marked (chainFragments c) (choiceMarks c) := by
  match c with
  | .nothing =>
    rw [chainFragments, choiceMarks]
    exact marked_term (.literal "")
  | .otherwise body =>
    have hbody := (marked_fragments body).append (marked_fixed (p := .closing) (by simp))
    rw [List.append_nil] at hbody
    rw [chainFragments, choiceMarks]
    exact (marked_fixed (by simp)).append hbody
  | .branch condition body rest =>
    have hrest := (marked_fixed (p := .closing) (by simp)).append
      ((marked_fixed (p := .colon) (by simp)).append (marked_chainFragments rest))
    rw [chainFragments, choiceMarks]
    exact (marked_condition condition).append ((marked_fragments body).append hrest)

end

/-! ### Compiled stylesheets -/

/-- The fragments that are kept for a stylesheet have the marks of its tree. -/
theorem marked_tree (limit : Nat) {body : List Node} (h : AreRules body) :
    Marked (prune (treeFragments limit body)).reverse (treeMarks [.stylesheet body]) := by
  have hbody := (marked_fragments (treeLayout limit body)).append
    (marked_fixed (p := .closing) (by simp))
  have hmarks : layoutMarks (treeLayout limit body) = treeMarks [.stylesheet body] := by
    rw [treeLayout, prunedBody, layoutMarks_orBlank, layoutMarks_prunedGroups, layoutMarks_layout,
      (outlined_tree h).marks]
  rw [List.append_nil, hmarks] at hbody
  rw [prune_treeFragments limit h]
  exact (marked_fixed (by simp)).append hbody

theorem eraseDups_map_some (cs : List String) :
    (cs.map some).eraseDups = cs.eraseDups.map some := by
  match cs with
  | [] => rfl
  | c :: cs =>
    rw [List.map_cons, List.eraseDups_cons, List.eraseDups_cons, List.map_cons, List.filter_map,
      eraseDups_map_some]
    rfl
termination_by cs.length
decreasing_by exact Nat.lt_succ_of_le (List.length_filter_le _ _)

/-- Of a stylesheet that was read from a text and compiled, the statistics are those of the
fragments that are kept. Each question mark stands for a branch that is no `@else`; every other text
that is taken over stands for a run-time value; and the conditions are the texts before question
marks, each where it first occurs. Blocks are counted as nodes, and their greatest depth is the
greatest number of blocks on a path from the root. -/
theorem stats_of_compile {source : String} {tree : Node} (h : parse source = .ok tree) {limit : Nat}
    {s s' : Session} {text : String} (hcompile : Session.compile limit tree s = .ok text s') :
    count .question s'.kept + tree.nodes.countP Node.isOtherwise =
        (Stats.ofTree tree).conditionalRules ∧
      count .raw s'.kept = count .question s'.kept + (Stats.ofTree tree).runtimeValues ∧
      (conditionTexts s'.kept.reverse).eraseDups = (Stats.ofTree tree).conditions.map some ∧
      (Stats.ofTree tree).conditionalBlocks = tree.nodes.countP Node.isBlock ∧
      IsGreatest {k | ∃ path, tree.IsPath path ∧ path.countP Node.isBlock = k}
        (Stats.ofTree tree).maxConditionalDepth := by
  obtain ⟨body, rfl, hbody⟩ := regular_of_parse h
  by_cases hgood : Conditioned (.stylesheet body)
  · rw [compile_of_conditioned limit hbody hgood] at hcompile
    cases hcompile
    have hmarked := marked_tree limit hbody
    have hraws := hmarked.raws
    rw [Mark.length_eq_count, ← hmarked.questions, countP_treeMarks,
      List.flatMap_singleton] at hraws
    have hquestions := hmarked.questions
    have hconditions := hmarked.conditions
    rw [conditions_treeMarks, List.flatMap_singleton] at hquestions hconditions
    have hbranches := countP_isBranch (outlined_tree hbody).proper
    rw [List.flatMap_singleton, ← hquestions] at hbranches
    simp only [count, List.countP_reverse] at hraws hbranches
    rw [Stats.stats_ofTree]
    refine ⟨?_, hraws, ?_, rfl, Node.isGreatest_blockDepth _⟩
    · exact (Nat.add_comm _ _).trans hbranches.symm
    · exact (congrArg List.eraseDups hconditions).trans (eraseDups_map_some _)
  · obtain ⟨b, t, herror⟩ := compile_of_not_conditioned limit hbody hgood s
    rw [herror] at hcompile
    cases hcompile

/-- A block inside a block with the same condition, and a number. -/
def nestedThenNumber : Node :=
  .stylesheet [.conditionalBlock [.conditionalRule .ifTrue (some "a")
      [.conditionalBlock [.conditionalRule .ifTrue (some "a") []]]],
    .ruleset [".c"] [.declaration "d" [.runtime "n"] false]]

/-- The two branches have the same condition, which is listed once; the third text that is taken
over is the number. -/
theorem stats_of_compile_nestedThenNumber :
    parse "@if(eval(\"a\"))\x7b@if(eval(\"a\"))\x7b\x7d\x7d.c\x7bd:eval(\"n\")\x7d" =
        .ok nestedThenNumber ∧
      Stats.ofTree nestedThenNumber = ⟨2, 2, 2, 1, ["a"]⟩ ∧
      ∃ s', Session.compile 1 nestedThenNumber .start =
          .ok "((a) ? ((a) ? (\"\") : \"\") : \"\") + (\".c\x7bd:\" + (n)) + (\"\x7d\")" s' ∧
        count .question s'.kept = 2 ∧ count .raw s'.kept = 3 ∧
        (conditionTexts s'.kept.reverse).eraseDups = [some "a"] ∧
        IsGreatest {k | ∃ path, nestedThenNumber.IsPath path ∧ path.countP Node.isBlock = k} 2 := by
  have hparse : parse "@if(eval(\"a\"))\x7b@if(eval(\"a\"))\x7b\x7d\x7d.c\x7bd:eval(\"n\")\x7d" =
      .ok nestedThenNumber := by with_unfolding_all rfl
  have hstats : Stats.ofTree nestedThenNumber = ⟨2, 2, 2, 1, ["a"]⟩ := by decide +kernel
  have hotherwise : nestedThenNumber.nodes.countP Node.isOtherwise = 0 := rfl
  have htree : (compileTree ⟨1, by decide⟩ nestedThenNumber).toOption =
      some ⟨"((a) ? ((a) ? (\"\") : \"\") : \"\") + (\".c\x7bd:\" + (n)) + (\"\x7d\")", 2⟩ := by
    decide +kernel
  obtain ⟨s', hcompile, -⟩ := compile_of_compileTree htree
  obtain ⟨hquestions, hraws, hconditions, -, hdepth⟩ := stats_of_compile hparse hcompile
  rw [hstats] at hquestions hraws hconditions hdepth
  rw [hotherwise] at hquestions
  have hcount : count .question s'.kept = 2 := hquestions
  rw [hcount] at hraws
  exact ⟨hparse, hstats, s', hcompile, hcount, hraws, hconditions, hdepth⟩

end ConditionalStyle.Assembly
