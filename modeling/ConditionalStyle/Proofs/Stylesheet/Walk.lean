import ConditionalStyle.Proofs.Reading
import ConditionalStyle.Stylesheet.Walk

/-!
# Walks step by step

A walk is taken apart into the actions at its nodes. What is proved of a node from its children
holds of every tree, since children are smaller.

## Main statements

* `visit_of_true`, `visit_of_false`: a node whose children are visited, and one whose are not.
* `Node.induction_children`: from the children to the node.
-/

namespace ConditionalStyle.Stylesheet

/-- A node whose children are not visited. -/
theorem visit_of_false {σ ε : Type} {r : Registry σ ε} {n : Node} {children : Visit σ ε Unit}
    {s s₁ : σ} (henter : r.enter n s = .ok false s₁) : r.visit n children s = r.leave n s₁ := by
  rw [Registry.visit, bind_of_ok henter]
  rfl

theorem visit_of_true {σ ε : Type} {r : Registry σ ε} {n : Node} {children : Visit σ ε Unit}
    {s s₁ : σ} (henter : r.enter n s = .ok true s₁) :
    r.visit n children s = (children >>= fun _ => r.leave n) s₁ := by
  rw [Registry.visit, bind_of_ok henter]
  rfl

theorem sizeOf_lt_of_mem_children {n c : Node} (h : c ∈ n.children) : sizeOf c < sizeOf n := by
  have hmem := List.sizeOf_lt_of_mem h
  match n with
  | .atRule _ _ (some _) _ | .atRule _ _ none (some _) | .stylesheet _ | .ruleset .. |
    .declaration .. | .function .. | .conditionalBlock _ | .conditionalRule .. =>
    simp only [Node.children] at hmem
    simp
    omega
  | .atRule _ _ none none | .literal _ | .operator _ | .runtime _ | .dotPath .. | .blankValue |
    .blank => simp [Node.children] at h

/-- What passes from the children of a node to the node holds of every tree. -/
theorem Node.induction_children {p : Node → Prop} (h : ∀ n, (∀ c ∈ n.children, p c) → p n)
    (n : Node) : p n := by
  refine h n fun c hc => ?_
  have hlt := sizeOf_lt_of_mem_children hc
  exact induction_children h c
termination_by sizeOf n

end ConditionalStyle.Stylesheet
