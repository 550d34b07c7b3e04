import ConditionalStyle.Proofs.Stylesheet.Walk
import ConditionalStyle.Stylesheet.Stats
import Mathlib.Data.List.Induction
import Mathlib.Order.Bounds.Basic

/-!
# What the statistics count

The statistics of a tree are collected on a walk, with a counter of open blocks. They are counts
over the list of all nodes, and the greatest depth that the counter reaches is the greatest number
of blocks on a path from the root.

## Main definitions

* `Node.fold`, `Node.nodes`: recursion over a tree, and its nodes in order.
* `Node.IsPath`: paths from the root.
* `Tally.after`: a tally after given nodes.

## Main statements

* `walk_tally`: counting on a walk is counting over the nodes.
* `isGreatest_blockDepth`: the depth of nested blocks.
* `stats_ofTree`: the statistics of a tree.
-/

namespace ConditionalStyle.Stylesheet

namespace Node

/-! ### Nodes in order -/

section Fold

variable {α : Type} (f : Node → List α → α)

mutual

/-- What becomes of a tree when each node is put together from what became of its children. -/
def fold : Node → α
  | .stylesheet body => f (.stylesheet body) (foldAll body)
  | .ruleset ss ds => f (.ruleset ss ds) (foldAll ds)
  | .atRule n p (some rules) ds => f (.atRule n p (some rules) ds) (foldAll rules)
  | .atRule n p none (some ds) => f (.atRule n p none (some ds)) (foldAll ds)
  | .atRule n p none none => f (.atRule n p none none) []
  | .declaration p vs i => f (.declaration p vs i) (foldAll vs)
  | .literal t => f (.literal t) []
  | .operator t => f (.operator t) []
  | .function n args => f (.function n args) (foldAll args)
  | .runtime e => f (.runtime e) []
  | .dotPath p a b => f (.dotPath p a b) []
  | .conditionalBlock bs => f (.conditionalBlock bs) (foldAll bs)
  | .conditionalRule b c body => f (.conditionalRule b c body) (foldAll body)
  | .blankValue => f .blankValue []
  | .blank => f .blank []

/-- What becomes of trees in a row. -/
def foldAll : List Node → List α
  | [] => []
  | n :: ns => fold n :: foldAll ns

end

theorem foldAll_eq_map (ns : List Node) : foldAll f ns = ns.map (fold f) := by
  induction ns with
  | nil => rfl
  | cons n ns ih => rw [foldAll, ih, List.map_cons]

theorem fold_eq (n : Node) : fold f n = f n (n.children.map (fold f)) := by
  rw [← foldAll_eq_map]
  match n with
  | .atRule _ _ (some _) _ | .atRule _ _ none (some _) | .atRule _ _ none none | .stylesheet _
  | .ruleset .. | .declaration .. | .function .. | .conditionalBlock _ | .conditionalRule ..
  | .literal _ | .operator _ | .runtime _ | .dotPath .. | .blankValue | .blank => rfl

end Fold

/-- The nodes of a tree, each before its children. -/
def nodes : Node → List Node :=
  fold fun n below => n :: below.flatten

theorem nodes_eq (n : Node) : n.nodes = n :: n.children.flatMap nodes :=
  fold_eq _ n

/-- Whether a node is a conditional block. -/
def isBlock (n : Node) : Bool :=
  n.kind == .conditionalBlock

/-- Whether a node is a branch of a block. -/
def isBranch (n : Node) : Bool :=
  n.kind == .conditionalRule

/-- Whether a node is an `@else`. -/
def isOtherwise : Node → Bool
  | .conditionalRule .otherwise _ _ => true
  | _ => false

/-- Whether a node is a run-time value. -/
def isRuntimeValue (n : Node) : Bool :=
  n.kind == .runtime || n.kind == .dotPath

/-! ### Nested blocks -/

/-- Paths from the root of a tree to one of its nodes. -/
inductive IsPath : Node → List Node → Prop
  | root (n : Node) : IsPath n [n]
  | down {n c : Node} {path : List Node} (hc : c ∈ n.children) (h : IsPath c path) :
      IsPath n (n :: path)

/-- How deeply the blocks of a tree are nested. -/
def blockDepth : Node → Nat :=
  fold fun n below => n.isBlock.toNat + below.foldr max 0

/-- How deeply blocks are nested in trees in a row. -/
def blockDepthAll (ns : List Node) : Nat :=
  (ns.map blockDepth).foldr max 0

theorem blockDepth_eq (n : Node) : n.blockDepth = n.isBlock.toNat + blockDepthAll n.children :=
  fold_eq _ n

theorem blockDepthAll_cons (n : Node) (ns : List Node) :
    blockDepthAll (n :: ns) = max n.blockDepth (blockDepthAll ns) :=
  rfl

theorem blockDepth_le_blockDepthAll {n : Node} {ns : List Node} (h : n ∈ ns) :
    n.blockDepth ≤ blockDepthAll ns := by
  induction h with
  | head ns => exact Nat.le_max_left _ _
  | tail m _ ih => exact ih.trans (Nat.le_max_right _ _)

/-- Trees in a row are as deep as one of them, or not deep at all. -/
theorem blockDepthAll_cases (ns : List Node) :
    blockDepthAll ns = 0 ∨ ∃ n ∈ ns, blockDepthAll ns = n.blockDepth := by
  induction ns with
  | nil => exact .inl rfl
  | cons m ns ih =>
    rw [blockDepthAll_cons]
    rcases Nat.le_total (blockDepthAll ns) m.blockDepth with hle | hle
    · exact .inr ⟨m, List.mem_cons_self, Nat.max_eq_left hle⟩
    · rw [Nat.max_eq_right hle]
      rcases ih with h | ⟨n, hn, h⟩
      · exact .inl h
      · exact .inr ⟨n, List.mem_cons_of_mem m hn, h⟩

theorem countP_isBlock_le {n : Node} {path : List Node} (h : IsPath n path) :
    path.countP isBlock ≤ n.blockDepth := by
  induction h with
  | root n =>
    rw [blockDepth_eq, List.countP_singleton]
    cases n.isBlock <;> simp
  | @down n c path hc _ ih =>
    have hle := blockDepth_le_blockDepthAll hc
    rw [blockDepth_eq, List.countP_cons]
    cases n.isBlock <;> simp <;> omega

theorem exists_path_blockDepth (n : Node) :
    ∃ path, IsPath n path ∧ path.countP isBlock = n.blockDepth := by
  induction n using Node.induction_children with
  | h n ih =>
    rw [blockDepth_eq]
    rcases blockDepthAll_cases n.children with h | ⟨c, hc, h⟩
    · refine ⟨[n], .root n, ?_⟩
      rw [h, List.countP_singleton]
      cases n.isBlock <;> rfl
    · obtain ⟨path, hpath, hcount⟩ := ih c hc
      refine ⟨n :: path, .down hc hpath, ?_⟩
      rw [h, ← hcount, List.countP_cons]
      cases n.isBlock <;> simp [Nat.add_comm]

/-- The depth of a tree is the greatest number of blocks on a path. -/
theorem isGreatest_blockDepth (n : Node) :
    IsGreatest {k | ∃ path, IsPath n path ∧ path.countP isBlock = k} n.blockDepth := by
  refine ⟨exists_path_blockDepth n, ?_⟩
  rintro k ⟨path, hpath, rfl⟩
  exact countP_isBlock_le hpath

end Node

/-! ### Counting on a walk -/

namespace Stats

open Node

/-- A tally after nodes among which blocks are nested to a given depth. -/
def Tally.after (t : Tally) (ns : List Node) (depth : Nat) : Tally where
  stats :=
    { conditionalBlocks := t.stats.conditionalBlocks + ns.countP isBlock
      conditionalRules := t.stats.conditionalRules + ns.countP isBranch
      maxConditionalDepth := max t.stats.maxConditionalDepth (t.depth + depth)
      runtimeValues := t.stats.runtimeValues + ns.countP isRuntimeValue
      conditions := (ns.filterMap conditionOf).foldl (fun cs c => addCondition cs (some c))
        t.stats.conditions }
  depth := t.depth

/-- Blocks are open only to a depth that has been noted. -/
def Tally.IsNoted (t : Tally) : Prop :=
  t.depth ≤ t.stats.maxConditionalDepth

variable {t : Tally}

theorem Tally.IsNoted.after (h : t.IsNoted) (ns : List Node) (depth : Nat) :
    (t.after ns depth).IsNoted :=
  h.trans (Nat.le_max_left _ _)

theorem Tally.after_nil (h : t.IsNoted) : t.after [] 0 = t := by
  simp only [after, List.countP_nil, Nat.add_zero, Nat.max_eq_left h, List.filterMap_nil,
    List.foldl_nil]

theorem Tally.after_after (t : Tally) (ns ms : List Node) (d e : Nat) :
    (t.after ns d).after ms e = t.after (ns ++ ms) (max d e) := by
  simp only [after, List.countP_append, List.filterMap_append, List.foldl_append, Nat.add_assoc,
    Nat.max_assoc, Nat.add_max_add_left]

theorem walkAll_tally {ns : List Node} (hns : ∀ n ∈ ns, ∀ t : Tally, t.IsNoted →
      walk handlers n t = .ok () (t.after n.nodes n.blockDepth)) (h : t.IsNoted) :
    walkAll handlers ns t = .ok () (t.after (ns.flatMap nodes) (blockDepthAll ns)) := by
  induction ns generalizing t with
  | nil =>
    rw [walkAll]
    exact congrArg (EStateM.Result.ok ()) (Tally.after_nil h).symm
  | cons n ns ih =>
    obtain ⟨hn, hns⟩ := List.forall_mem_cons.1 hns
    rw [walkAll, bind_of_ok (hn t h), ih hns (h.after _ _), Tally.after_after, List.flatMap_cons,
      blockDepthAll_cons]

/-- A node at which nothing is counted. -/
theorem visit_uncounted {n : Node} (henter : handlers.enter n t = .ok true t)
    (hleave : ∀ t : Tally, handlers.leave n t = .ok () t)
    (hkind : n.isBlock = false ∧ n.isBranch = false ∧ n.isRuntimeValue = false)
    (hcondition : conditionOf n = none) {ns : List Node} {d : Nat} {children : Count Unit}
    (hchildren : children t = .ok () (t.after ns d)) :
    handlers.visit n children t = .ok () (t.after (n :: ns) (n.isBlock.toNat + d)) := by
  obtain ⟨hblock, hbranch, hvalue⟩ := hkind
  rw [visit_of_true henter, bind_of_ok hchildren, hleave]
  simp [Tally.after, hblock, hbranch, hvalue, hcondition]

/-- A run-time value, which has no children. -/
theorem visit_value {n : Node} {children : Count Unit} (hvalue : n.isRuntimeValue = true)
    (hchildren : n.children = []) (henter : handlers.enter n t = enterValue n t)
    (hleave : ∀ t : Tally, handlers.leave n t = .ok () t) (h : t.IsNoted) :
    handlers.visit n children t = .ok () (t.after (n :: n.children.flatMap nodes)
      (n.isBlock.toNat + blockDepthAll n.children)) := by
  have hkind : n.isBlock = false ∧ n.isBranch = false ∧ conditionOf n = none := by
    cases n <;> cases hvalue <;> exact ⟨rfl, rfl, rfl⟩
  obtain ⟨hblock, hbranch, hcondition⟩ := hkind
  have hmax : max t.stats.maxConditionalDepth t.depth = t.stats.maxConditionalDepth :=
    Nat.max_eq_left h
  have hentered : handlers.enter n t = .ok false { t with stats := { t.stats with
      runtimeValues := t.stats.runtimeValues + 1 } } := henter
  rw [visit_of_false hentered, hleave, hchildren]
  simp [Tally.after, blockDepthAll, hblock, hbranch, hvalue, hcondition, hmax]

/-- Counting on a walk is counting over the nodes. -/
theorem walk_tally (n : Node) : ∀ t : Tally, t.IsNoted →
    walk handlers n t = .ok () (t.after n.nodes n.blockDepth) := by
  induction n using Node.induction_children with
  | h n ih =>
    intro t h
    rw [walk_eq_visit, nodes_eq, blockDepth_eq]
    cases n with
    | conditionalBlock bs =>
      let entered : Tally :=
        ⟨{ t.stats with
            conditionalBlocks := t.stats.conditionalBlocks + 1
            maxConditionalDepth := max t.stats.maxConditionalDepth (t.depth + 1) }, t.depth + 1⟩
      have henter : handlers.enter (.conditionalBlock bs) t = .ok true entered := rfl
      have hnoted : entered.IsNoted := Nat.le_max_right _ _
      have hleave (t' : Tally) : handlers.leave (.conditionalBlock bs) t' =
        .ok () { t' with depth := t'.depth - 1 } := rfl
      have hblock : isBlock (.conditionalBlock bs) = true := rfl
      have hbranch : isBranch (.conditionalBlock bs) = false := rfl
      have hvalue : isRuntimeValue (.conditionalBlock bs) = false := rfl
      have hcondition : conditionOf (.conditionalBlock bs) = none := rfl
      rw [visit_of_true henter, bind_of_ok (walkAll_tally ih hnoted), hleave]
      simp [entered, Tally.after, hblock, hbranch, hvalue, hcondition, Nat.add_assoc,
        Nat.add_comm 1]
    | conditionalRule b c body =>
      let entered : Tally :=
        { t with stats := { t.stats with
            conditionalRules := t.stats.conditionalRules + 1
            conditions := addCondition t.stats.conditions c } }
      have henter : handlers.enter (.conditionalRule b c body) t = .ok true entered := rfl
      have hleave (t' : Tally) : handlers.leave (.conditionalRule b c body) t' = .ok () t' := rfl
      have hblock : isBlock (.conditionalRule b c body) = false := rfl
      have hbranch : isBranch (.conditionalRule b c body) = true := rfl
      have hvalue : isRuntimeValue (.conditionalRule b c body) = false := rfl
      have hcondition : conditionOf (.conditionalRule b c body) = c := rfl
      rw [visit_of_true henter, bind_of_ok (walkAll_tally ih (t := entered) h), hleave]
      cases c with
      | none =>
        simp [entered, Tally.after, hblock, hbranch, hvalue, hcondition, addCondition,
          Nat.add_assoc, Nat.add_comm 1]
      | some c =>
        simp [entered, Tally.after, hblock, hbranch, hvalue, hcondition, Nat.add_assoc,
          Nat.add_comm 1]
    | runtime e => exact visit_value rfl rfl rfl (fun _ => rfl) h
    | dotPath p a b => exact visit_value rfl rfl rfl (fun _ => rfl) h
    | stylesheet | ruleset | atRule | declaration | literal | operator | function | blankValue
    | blank =>
      exact visit_uncounted rfl (fun _ => rfl) ⟨rfl, rfl, rfl⟩ rfl (walkAll_tally ih h)

/-! ### The statistics of a tree -/

/-- Adding conditions one after the other lists each where it first occurs. -/
theorem foldl_addCondition (cs : List String) :
    cs.foldl (fun cs c => addCondition cs (some c)) [] = cs.eraseDups := by
  induction cs using List.reverseRecOn with
  | nil => rfl
  | append_singleton cs c ih =>
    rw [List.foldl_append, ih, List.eraseDups_append, List.foldl_cons, List.foldl_nil, addCondition]
    by_cases hc : c ∈ cs
    · simp [List.removeAll, hc]
    · simp [List.removeAll, hc, List.eraseDups_cons]

/-- The statistics of a tree are counts over its nodes. -/
theorem stats_ofTree (n : Node) :
    ofTree n =
      { conditionalBlocks := n.nodes.countP isBlock
        conditionalRules := n.nodes.countP isBranch
        maxConditionalDepth := n.blockDepth
        runtimeValues := n.nodes.countP isRuntimeValue
        conditions := (n.nodes.filterMap conditionOf).eraseDups } := by
  have hwalk :
      (walk handlers n).run ⟨zero, 0⟩ = .ok () (Tally.after ⟨zero, 0⟩ n.nodes n.blockDepth) :=
    walk_tally n ⟨zero, 0⟩ (Nat.le_refl 0)
  rw [ofTree, hwalk, ← foldl_addCondition]
  simp only [Tally.after, zero, Nat.zero_add, Nat.zero_max]

end Stats

end ConditionalStyle.Stylesheet
