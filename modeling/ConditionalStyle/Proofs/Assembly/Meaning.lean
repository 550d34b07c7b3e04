import ConditionalStyle.Proofs.Assembly.Derivation
import ConditionalStyle.Proofs.Assembly.Pruning
import ConditionalStyle.Proofs.Expression.Sum

/-!
# What outlines and layouts mean

An outline means a text: its own texts, the texts of the values of its holes, and for a block the
meaning of the branch that is chosen, all in order. The expression of its layout has that text as
its value, and no number is ever added to a number on the way: every sum has a text among its first
two operands.

## Main definitions

* `outlineMeaning`, `groupsMeaning`: the texts that outlines and layouts mean.

## Main statements

* `groupsMeaning_layout`: a layout means what its outline means.
* `eval_prunedBody`: the tree of a pruned layout has the meaning of the layout as its value.
-/

namespace ConditionalStyle.Assembly

open Expression

variable (names : Namespace)

/-- Whether a condition holds. -/
def decided (condition : String) : Eval Bool := do
  truth "?:" (treeOf condition) (← eval names (treeOf condition))

/-- One text after the other. -/
def followed (x y : Eval String) : Eval String := do
  let s ← x
  let t ← y
  return s ++ t

mutual

/-- What an outline means. -/
def outlineMeaning : List Piece → Eval String
  | [] => pure ""
  | .text s :: ps => followed (pure s) (outlineMeaning ps)
  | .splice e :: ps => followed (evalText names (treeOf e)) (outlineMeaning ps)
  | .block chain :: ps => followed (branchesMeaning chain) (outlineMeaning ps)

/-- What the branches of a block mean. -/
def branchesMeaning : Chain Piece → Eval String
  | .nothing => pure ""
  | .otherwise body => outlineMeaning body
  | .branch condition body rest => do
    if ← decided names condition then outlineMeaning body else branchesMeaning rest

end

mutual

/-- What a group means. -/
def groupMeaning : Group → Eval String
  | .sum first rest => texts names ((first :: rest).map Term.tree)
  | .choice chain => chainMeaning chain

/-- What groups mean. -/
def groupsMeaning : List Group → Eval String
  | [] => pure ""
  | g :: gs => followed (groupMeaning g) (groupsMeaning gs)

/-- What a chain means. -/
def chainMeaning : Chain Group → Eval String
  | .nothing => pure ""
  | .otherwise body => groupsMeaning body
  | .branch condition body rest => do
    if ← decided names condition then groupsMeaning body else chainMeaning rest

end

/-! ### Texts in a row -/

@[simp] theorem pure_empty_followed (x : Eval String) : followed (pure "") x = x := by
  simp only [followed, pure_bind, String.empty_append, bind_pure]

@[simp] theorem followed_pure_empty (x : Eval String) : followed x (pure "") = x := by
  simp only [followed, pure_bind, String.append_empty, bind_pure]

theorem followed_assoc (x y z : Eval String) :
    followed (followed x y) z = followed x (followed y z) := by
  simp only [followed, bind_assoc, pure_bind, String.append_assoc]

theorem pure_followed_pure (s t : String) : followed (pure s) (pure t) = pure (s ++ t) := by
  simp only [followed, pure_bind]

theorem texts_cons (t : Tree) (ts : List Tree) :
    texts names (t :: ts) = followed (evalText names t) (texts names ts) := by
  rw [texts, followed]

theorem outlineMeaning_append (ps qs : List Piece) :
    outlineMeaning names (ps ++ qs) =
      followed (outlineMeaning names ps) (outlineMeaning names qs) := by
  induction ps with
  | nil => simp only [List.nil_append, outlineMeaning, pure_empty_followed]
  | cons p ps ih =>
    cases p <;> simp only [List.cons_append, outlineMeaning, ih, followed_assoc]

/-! ### The meaning of a layout -/

/-- Breaking a group does not change the meaning. -/
theorem groupsMeaning_attach (separator : Part) (t : Term) (gs : List Group) :
    groupsMeaning names (attach separator t gs) =
      followed (evalText names t.tree) (groupsMeaning names gs) := by
  have hsingle : groupMeaning names (.sum t []) = evalText names t.tree := by
    rw [groupMeaning, List.map_cons, List.map_nil, texts_cons, texts, followed_pure_empty]
  unfold attach
  split
  · split
    · simp only [groupsMeaning, groupMeaning, List.map_cons, texts_cons, followed_assoc]
    · rw [groupsMeaning, hsingle]
  · rw [groupsMeaning, hsingle]

theorem evalText_string (s : String) : evalText names (.string s) = pure s := by
  simp only [evalText, eval, pure_bind, toText_text]

mutual

/-- A layout means the text that has been printed already, and then what its outline means. -/
theorem groupsMeaning_layout (limit : Nat) (pending : String) (count : Nat) (ps : List Piece) :
    groupsMeaning names (layout limit pending count ps) =
      followed (pure pending) (outlineMeaning names ps) := by
  have hliteral : groupMeaning names (.sum (.literal pending) []) = pure pending := by
    rw [groupMeaning, List.map_cons, List.map_nil, texts_cons, texts, followed_pure_empty,
      Term.tree, evalText_string]
  match ps with
  | [] => rw [layout, groupsMeaning, groupsMeaning, hliteral, outlineMeaning]
  | .text s :: ps =>
    rw [layout, groupsMeaning_layout, outlineMeaning, ← followed_assoc, pure_followed_pure]
  | .splice e :: ps =>
    rw [layout, groupsMeaning_attach, groupsMeaning_attach, groupsMeaning_layout,
      pure_empty_followed, Term.tree, evalText_string, outlineMeaning]
    rfl
  | .block chain :: ps =>
    rw [layout, groupsMeaning, groupsMeaning, hliteral, groupsMeaning_layout, pure_empty_followed,
      groupMeaning, chainMeaning_chainLayout, outlineMeaning]

theorem chainMeaning_chainLayout (limit count : Nat) (c : Chain Piece) :
    chainMeaning names (chainLayout limit count c) = branchesMeaning names c := by
  match c with
  | .nothing => rw [chainLayout, chainMeaning, branchesMeaning]
  | .otherwise body =>
    rw [chainLayout, chainMeaning, branchesMeaning, groupsMeaning_layout, pure_empty_followed]
  | .branch condition body rest =>
    rw [chainLayout, chainMeaning, branchesMeaning, groupsMeaning_layout, pure_empty_followed,
      chainMeaning_chainLayout]

end

/-! ### The value of a pruned layout -/

/-- A sum whose first operand is a text is the text of its operands. -/
theorem eval_sumTree_of_text {e : Tree} {x : Eval String} (h : eval names e = Value.text <$> x)
    (es : List Tree) :
    eval names (sumTree (e :: es)) = Value.text <$> texts names (e :: es) :=
  eval_chain_of_text names h es

/-- A group that is no lone expression is a text. -/
theorem eval_sum {first : Term} {rest : List Term} (h : Spaced (first :: rest))
    (hlone : ∀ e, first = .splice e → rest ≠ []) :
    eval names (groupTree (.sum first rest)) =
      Value.text <$> groupMeaning names (.sum first rest) := by
  rw [groupTree, groupMeaning, List.map_cons]
  -- two numbers would be added, so one of the first two operands has to be a text
  match first, rest with
  | .literal s, rest => exact eval_chain_string names s (rest.map Term.tree)
  | .splice e, [] => exact absurd rfl (hlone e rfl)
  | .splice e, .literal s :: rest => exact eval_chain_second names _ s (rest.map Term.tree)
  | .splice e, .splice e' :: rest => exact h.elim

theorem evalText_sum {first : Term} {rest : List Term} (h : Spaced (first :: rest)) :
    evalText names (groupTree (.sum first rest)) =
      groupMeaning names (.sum first rest) := by
  by_cases hlone : ∃ e, first = .splice e ∧ rest = []
  · obtain ⟨e, rfl, rfl⟩ := hlone
    rw [groupMeaning, groupTree, List.map_cons, List.map_nil, texts_cons, texts,
      followed_pure_empty]
    rfl
  · exact evalText_of_text names
      (eval_sum names h fun e hfirst hrest => hlone ⟨e, hfirst, hrest⟩)

/-- A choice between texts is a text. -/
theorem eval_choice (condition : String) {yes no : Tree} {x y : Eval String}
    (hyes : eval names yes = Value.text <$> x) (hno : eval names no = Value.text <$> y) :
    eval names (.conditional (treeOf condition) yes no) =
      Value.text <$> (do if ← decided names condition then x else y) := by
  rw [eval, hyes, hno, decided]
  simp only [map_eq_pure_bind, bind_assoc]
  refine bind_congr fun v => bind_congr fun b => ?_
  cases b <;> rfl

theorem groupMeaning_of_blank {g : Group} (h : g.IsBlank) : groupMeaning names g = pure "" := by
  rw [h, groupMeaning, List.map_cons, List.map_nil, texts_cons, texts, followed_pure_empty,
    Term.tree, evalText_string]

theorem spaced_of_tidy {first : Term} {rest : List Term} (h : TidyGroup (.sum first rest)) :
    Spaced (first :: rest) := by
  rw [TidyGroup] at h
  rcases h with hblank | ⟨-, hspaced⟩
  · cases hblank
    trivial
  · exact hspaced

mutual

theorem evalText_prunedGroup {g : Group} (h : TidyGroup g) :
    evalText names (groupTree (prunedGroup g)) = groupMeaning names g := by
  match g with
  | .sum first rest =>
    rw [prunedGroup]
    exact evalText_sum names (spaced_of_tidy h)
  | .choice chain =>
    rw [TidyGroup] at h
    rw [prunedGroup, groupTree, evalText_of_text names (eval_prunedChain h.2), groupMeaning]

/-- The groups that are not blank add up to the meaning of all. -/
theorem texts_prunedGroups {gs : List Group} (h : TidyGroups gs) :
    texts names (groupTrees (prunedGroups gs)) = groupsMeaning names gs := by
  match gs with
  | [] => rw [prunedGroups, groupTrees, texts, groupsMeaning]
  | g :: gs =>
    rw [TidyGroups] at h
    rw [groupsMeaning]
    by_cases hblank : g.IsBlank
    · rw [prunedGroups_of_blank hblank, texts_prunedGroups h.2, groupMeaning_of_blank names hblank,
        pure_empty_followed]
    · rw [prunedGroups_of_not_blank hblank, groupTrees, texts_cons, texts_prunedGroups h.2,
        evalText_prunedGroup h.1]

/-- A group that is left after pruning is a text, unless it starts with an expression. -/
theorem eval_of_mem_prunedGroups {gs : List Group} (h : TidyGroups gs) :
    ∀ g ∈ prunedGroups gs, (∀ e rest, g ≠ .sum (.splice e) rest) →
      ∃ x, eval names (groupTree g) = Value.text <$> x := by
  match gs with
  | [] => simp [prunedGroups]
  | .sum first rest :: gs =>
    rw [TidyGroups] at h
    by_cases hblank : (Group.sum first rest).IsBlank
    · rw [prunedGroups_of_blank hblank]
      exact eval_of_mem_prunedGroups h.2
    · rw [prunedGroups_of_not_blank hblank, prunedGroup, List.forall_mem_cons]
      refine ⟨fun hne => ?_, eval_of_mem_prunedGroups h.2⟩
      exact ⟨_, eval_sum names (spaced_of_tidy h.1) fun e hfirst =>
        absurd (by rw [hfirst]) (hne e rest)⟩
  | .choice chain :: gs =>
    rw [TidyGroups, TidyGroup] at h
    have hblank : ¬(Group.choice chain).IsBlank := by simp [Group.IsBlank]
    rw [prunedGroups_of_not_blank hblank, prunedGroup, List.forall_mem_cons, groupTree]
    exact ⟨fun _ => ⟨_, eval_prunedChain h.1.2⟩, eval_of_mem_prunedGroups h.2⟩

/-- The tree of a pruned body has the meaning of the body as its value. -/
theorem eval_prunedBody {gs : List Group} (h : TidyGroups gs) (hleads : Leads gs) :
    eval names (sumTree (groupTrees (prunedBody gs))) = Value.text <$> groupsMeaning names gs := by
  have htexts := texts_prunedGroups h
  have heval := eval_of_mem_prunedGroups h
  rw [prunedBody]
  rcases hpruned : prunedGroups gs with _ | ⟨g, rest⟩
  · rw [hpruned, groupTrees, texts] at htexts
    rw [← htexts, orBlank, map_pure]
    rfl
  · -- the first group that is left does not start with an expression and so is a text
    rw [hpruned, groupTrees] at htexts
    rw [hpruned] at heval
    obtain ⟨x, hx⟩ := heval g List.mem_cons_self fun e rest' hg =>
      hleads e rest' rest (by rw [hpruned, hg])
    rw [orBlank, groupTrees, eval_sumTree_of_text names hx, htexts]
    exact List.cons_ne_nil g rest

theorem eval_prunedChain {c : Chain Group} (h : TidyChain c) :
    eval names (chainTree (prunedChain c)) = Value.text <$> chainMeaning names c := by
  match c with
  | .nothing =>
    rw [prunedChain, chainTree, chainMeaning, map_pure, eval]
  | .otherwise body =>
    rw [TidyChain] at h
    have hbody := eval_prunedBody h.2.2 h.2.1
    rw [prunedBody] at hbody
    rw [prunedChain, chainTree, chainMeaning, hbody]
  | .branch condition body rest =>
    rw [TidyChain] at h
    have hbody := eval_prunedBody h.2.2.1 h.2.1
    rw [prunedBody] at hbody
    rw [prunedChain, chainTree, chainMeaning]
    exact eval_choice names condition hbody (eval_prunedChain h.2.2.2)

end

end ConditionalStyle.Assembly
