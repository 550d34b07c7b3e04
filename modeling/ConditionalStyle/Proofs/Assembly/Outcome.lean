import ConditionalStyle.Proofs.Assembly.Walk
import Mathlib.Tactic.Push

/-!
# What becomes of a stylesheet that was read

A stylesheet that was read from a text is compiled unless one of its conditions is empty. A session
that has compiled it is left with empty stacks and nothing printed.

## Main definitions

* `treeFragments`, `treeText`: the fragments of a stylesheet and its text.

## Main statements

* `compile_parsed`: the two outcomes of compiling a stylesheet that was read.
-/

namespace ConditionalStyle.Assembly

open Stylesheet

/-! ### The text of fragments -/

theorem mem_of_mem_keep {f g : Fragment} {kept : List Fragment} (h : g ∈ keep f kept) :
    g = f ∨ g ∈ kept := by
  rw [keep.eq_def] at h
  repeat' split at h
  all_goals simp only [List.mem_cons] at h ⊢
  all_goals grind

theorem mem_of_mem_prune {f : Fragment} {fs : List Fragment} (h : f ∈ prune fs) : f ∈ fs := by
  induction fs with
  | nil => exact h
  | cons g fs ih =>
    rcases mem_of_mem_keep h with rfl | h
    · exact List.mem_cons_self
    · exact List.mem_cons_of_mem g (ih h)

/-- Fragments that all have a text have one together. -/
theorem joinText?_of_written {fs : List Fragment} (h : ∀ f ∈ fs, f.text.isSome) :
    joinText? fs = some (String.join (fs.reverse.map fun f => f.text.getD "")) := by
  have hmap (gs : List Fragment) (hgs : ∀ f ∈ gs, f.text.isSome) :
      gs.mapM Fragment.text = some (gs.map fun f => f.text.getD "") := by
    induction gs with
    | nil => rfl
    | cons g gs ih =>
      obtain ⟨hg, hrest⟩ := List.forall_mem_cons.1 hgs
      obtain ⟨t, ht⟩ := Option.isSome_iff_exists.1 hg
      simp [List.mapM_cons, ht, ih hrest]
  rw [joinText?, hmap _ fun f hf => h f (List.mem_reverse.1 hf)]
  rfl

/-! ### The two outcomes -/

/-- The fragments of a stylesheet, newest first. -/
def treeFragments (limit : Nat) (body : List Node) : List Fragment :=
  .fixed .closing :: ((fragments (layout limit "" 0 (rulesOutline body))).reverse ++
    [.fixed .opening])

theorem written_treeFragments (limit : Nat) (body : List Node) :
    ∀ f ∈ treeFragments limit body, f.text.isSome := by
  simp only [treeFragments, List.forall_mem_cons, List.forall_mem_append]
  exact ⟨rfl, fun f hf => written_fragments _ f (List.mem_reverse.1 hf), rfl, by simp⟩

/-- The text of a stylesheet is that of its fragments, without those that are pruned. -/
def treeText (limit : Nat) (body : List Node) : String :=
  String.join ((prune (treeFragments limit body)).reverse.map fun f => f.text.getD "")

/-- A regular stylesheet without empty conditions is compiled, and all that is left in the session
are its fragments. -/
theorem compile_of_conditioned (limit : Nat) {body : List Node} (h : AreRules body)
    (hgood : Conditioned (.stylesheet body)) (s : Session) :
    Session.compile limit (.stylesheet body) s =
      .ok (treeText limit body)
        ⟨treeFragments limit body, [], countAfter limit 0 (rulesOutline body), .start⟩ := by
  let last : Session :=
    ⟨treeFragments limit body, [], countAfter limit 0 (rulesOutline body), .start⟩
  have hwalk : walk (Session.handlers limit) (.stylesheet body) Session.start = .ok () last :=
    (walks_tree limit h).1 hgood
  have htext : last.text? = some (treeText limit body) :=
    joinText?_of_written fun f hf => written_treeFragments limit body f (mem_of_mem_prune hf)
  rw [Session.compile, bind_of_ok (rfl : (set Session.start : Session.Compile PUnit) s = _),
    bind_of_ok hwalk, bind_of_ok (rfl : (get : Session.Compile Session) last = _)]
  simp only [htext]
  rfl

theorem compile_of_not_conditioned (limit : Nat) {body : List Node} (h : AreRules body)
    (hbad : ¬Conditioned (.stylesheet body)) (s : Session) :
    ∃ b s', Session.compile limit (.stylesheet body) s = .error (.chain (.noCondition b)) s' := by
  obtain ⟨b, s', hwalk⟩ := (walks_tree limit h).2 hbad
  refine ⟨b, s', ?_⟩
  rw [Session.compile, bind_of_ok (rfl : (set Session.start : Session.Compile PUnit) s = _),
    bind_of_error hwalk]

theorem not_conditioned_iff {n : Node} :
    ¬Conditioned n ↔ ∃ b body, b ≠ .otherwise ∧ Occurs (.conditionalRule b (some "") body) n := by
  rw [Conditioned]
  push Not
  exact exists_congr fun b => exists_congr fun body => and_comm

/-- A stylesheet that was read is refused by the compiler exactly when the condition of one of its
`@if` or `@elseif` branches is empty, and then for that reason. Otherwise its text is returned, and
the session is left with no block open, no stack of the printer in use and nothing printed. -/
theorem compile_parsed {source : String} {tree : Node} (h : parse source = .ok tree) (limit : Nat)
    (s : Session) :
    ((∃ b body, b ≠ .otherwise ∧ Occurs (.conditionalRule b (some "") body) tree) →
      ∃ b s', Session.compile limit tree s = .error (.chain (.noCondition b)) s') ∧
    ((¬∃ b body, b ≠ .otherwise ∧ Occurs (.conditionalRule b (some "") body) tree) →
      ∃ body s', tree = .stylesheet body ∧
        Session.compile limit tree s = .ok (treeText limit body) s' ∧ s'.elseSeen = [] ∧
        s'.printer = .start) := by
  obtain ⟨body, rfl, hbody⟩ := regular_of_parse h
  rw [← not_conditioned_iff, not_not]
  constructor
  · intro hbad
    exact compile_of_not_conditioned limit hbody hbad s
  · intro hgood
    exact ⟨body, _, rfl, compile_of_conditioned limit hbody hgood s, rfl, rfl⟩

/-- The second branch of `@if(eval("a")){.b{c:d}}@elseif(eval("")){}` has an empty condition. -/
theorem compile_parsed_empty_condition :
    parse "@if(eval(\"a\")){.b{c:d}}@elseif(eval(\"\")){}" =
      .ok (.stylesheet [.conditionalBlock [
        .conditionalRule .ifTrue (some "a")
          [.ruleset [".b"] [.declaration "c" [.literal "d"] false]],
        .conditionalRule .elseIf (some "") []]]) ∧
    ∃ b s', Session.compile 1 (.stylesheet [.conditionalBlock [
        .conditionalRule .ifTrue (some "a")
          [.ruleset [".b"] [.declaration "c" [.literal "d"] false]],
        .conditionalRule .elseIf (some "") []]]) .start = .error (.chain (.noCondition b)) s' := by
  have hparse : parse "@if(eval(\"a\")){.b{c:d}}@elseif(eval(\"\")){}" =
      .ok (.stylesheet [.conditionalBlock [
        .conditionalRule .ifTrue (some "a")
          [.ruleset [".b"] [.declaration "c" [.literal "d"] false]],
        .conditionalRule .elseIf (some "") []]]) := by with_unfolding_all rfl
  refine ⟨hparse, (compile_parsed hparse 1 .start).1 ⟨.elseIf, [], by decide, ?_⟩⟩
  exact .inside (List.mem_singleton.2 rfl) (.inside (by simp [Node.children]) .here)

end ConditionalStyle.Assembly
