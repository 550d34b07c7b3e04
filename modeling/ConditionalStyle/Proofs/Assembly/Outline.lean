import ConditionalStyle.Proofs.Stylesheet.Regular
import ConditionalStyle.Stylesheet.Compact

/-!
# Outlines

The outline of a regular tree is its compact text with holes: where a run-time value stands, the
outline has the expression of the value, and where a conditional block stands, the outlines of its
branches. The outline of a plain tree is only text.

## Main definitions

* `Chain`: branches with their conditions, whatever their bodies are made of.
* `Piece`: the pieces of an outline.
* `valuesOutline`, `declarationsOutline`, `rulesOutline`: the outlines of regular lists.
* `Padded`: no hole stands next to another hole or to a block.

## Main statements

* `padded_rulesOutline`: outlines of rules are padded.
-/

namespace ConditionalStyle.Assembly

open Stylesheet

/-- Branches that are tried in order, with bodies made of `α`. Where no condition holds, the last
body counts, or nothing. -/
inductive Chain (α : Type) where
  | nothing
  | otherwise (body : List α)
  | branch (condition : String) (body : List α) (rest : Chain α)

/-- A piece of an outline. -/
inductive Piece where
  | text (s : String)
  | splice (expression : String)
  | block (chain : Chain Piece)

/-! ### The outlines of trees -/

/-- The space before a component, if it needs one. -/
def spaceOutline (previous : Option Node) (v : Node) : List Piece :=
  if Printer.needsSpace previous v then [.text " "] else []

mutual

/-- A component of a value. -/
def valueOutline : Node → List Piece
  | .literal text => [.text text]
  | .operator text => [.text text]
  | .function name args => .text (name ++ "(") :: (valuesOutline none args ++ [.text ")"])
  | .runtime expression => [.splice expression]
  | .dotPath path after before => [.splice (dotPathExpression path after before)]
  | _ => []

/-- Components of a value, after the given one. -/
def valuesOutline (previous : Option Node) : List Node → List Piece
  | [] => []
  | v :: vs => spaceOutline previous v ++ valueOutline v ++ valuesOutline (some v) vs

end

/-- Declarations; whether they start their body is given. -/
def declarationsOutline (first : Bool) : List Node → List Piece
  | .declaration property vs important :: ds =>
    (if first then [] else [.text ";"]) ++ .text (property ++ ":") ::
      (valuesOutline none vs ++ ((if important then [.text "!important"] else []) ++
        declarationsOutline false ds))
  | _ => []

/-- The start of an at-rule. -/
def atRuleOutline (name params : String) : List Piece :=
  .text ("@" ++ name) :: if params.isEmpty then [] else [.text (" " ++ params)]

/-- Pieces between braces. -/
def bodyOutline (body : List Piece) : List Piece :=
  .text "\x7b" :: (body ++ [.text "\x7d"])

mutual

/-- A rule. -/
def ruleOutline : Node → List Piece
  | .ruleset selectors ds =>
    .text (",".intercalate selectors) :: bodyOutline (declarationsOutline true ds)
  | .atRule name params none none => atRuleOutline name params ++ [.text ";"]
  | .atRule name params none (some ds) =>
    atRuleOutline name params ++ bodyOutline (declarationsOutline true ds)
  | .atRule name params (some rs) _ => atRuleOutline name params ++ bodyOutline (rulesOutline rs)
  | .conditionalBlock bs => [.block (chainOutline bs)]
  | _ => []

/-- Rules in a row. -/
def rulesOutline : List Node → List Piece
  | [] => []
  | r :: rs => ruleOutline r ++ rulesOutline rs

/-- The branches of a block. -/
def chainOutline : List Node → Chain Piece
  | .conditionalRule .otherwise _ body :: _ => .otherwise (rulesOutline body)
  | .conditionalRule _ condition body :: rest =>
    .branch (condition.getD "") (rulesOutline body) (chainOutline rest)
  | _ => .nothing

end

theorem chainOutline_branch {b : Branch} (hb : b ≠ .otherwise) (condition : String)
    (body rest : List Node) :
    chainOutline (.conditionalRule b (some condition) body :: rest) =
      .branch condition (rulesOutline body) (chainOutline rest) := by
  rw [chainOutline]
  · rfl
  · exact hb

/-! ### Padding -/

/-- What stands right before a piece, empty texts apart: a text, a hole, or neither at the start of
a body and after a block. -/
inductive Gap where
  | clear
  | text
  | hole
deriving DecidableEq

/-- Whether a chain has a condition. -/
def Chain.IsBranch {α : Type} : Chain α → Prop
  | .branch .. => True
  | _ => False

mutual

/-- Pieces in which every hole has text on both sides. -/
def Padded (gap : Gap) : List Piece → Prop
  | [] => gap ≠ .hole
  | .text s :: ps => Padded (if s = "" then gap else .text) ps
  | .splice _ :: ps => gap = .text ∧ Padded .hole ps
  | .block chain :: ps => gap ≠ .hole ∧ chain.IsBranch ∧ PaddedChain chain ∧ Padded .clear ps

/-- Branches whose bodies are padded. -/
def PaddedChain : Chain Piece → Prop
  | .nothing => True
  | .otherwise body => Padded .clear body
  | .branch _ body rest => Padded .clear body ∧ PaddedChain rest

end

theorem padded_nil {gap : Gap} (h : gap ≠ .hole) : Padded gap [] := by
  rw [Padded]
  exact h

theorem padded_text {gap : Gap} {s : String} {ps : List Piece} (hs : s ≠ "")
    (h : Padded .text ps) : Padded gap (.text s :: ps) := by
  rw [Padded, if_neg hs]
  exact h

/-- Where the next component can stand: after text, or after a hole that is no operator. -/
def Ready (previous : Option Node) (gap : Gap) : Prop :=
  gap = .text ∨ (gap = .hole ∧ ∃ v, previous = some v ∧ v.isOperator = false)

mutual

theorem padded_valueOutline {v : Node} {gap : Gap} {ps : List Piece} (h : IsValue v)
    (hgap : gap = .text ∨ (gap = .hole ∧ v.isOperator = true))
    (hps : ∀ gap', Ready (some v) gap' → Padded gap' ps) :
    Padded gap (valueOutline v ++ ps) := by
  match h with
  | .literal text =>
    have hgap : gap = .text := hgap.resolve_right fun h => Bool.false_ne_true h.2
    rw [valueOutline, List.singleton_append, Padded, hgap, ite_self]
    exact hps .text (.inl rfl)
  | .operator htext =>
    rw [valueOutline, List.singleton_append]
    refine padded_text ?_ (hps .text (.inl rfl))
    rcases htext with rfl | rfl <;> decide
  | .function name hargs =>
    rw [valueOutline, List.cons_append, List.append_assoc]
    refine padded_text (by simp) (padded_valuesOutline hargs (.inl rfl) fun gap' _ => ?_)
    exact padded_text (by decide) (hps .text (.inl rfl))
  | .runtime _ | .dotPath _ _ _ =>
    have hgap : gap = .text := hgap.resolve_right fun h => Bool.false_ne_true h.2
    rw [valueOutline, List.singleton_append, Padded]
    exact ⟨hgap, hps .hole (.inr ⟨rfl, _, rfl, rfl⟩)⟩

theorem padded_valuesOutline {vs : List Node} {previous : Option Node} {gap : Gap}
    {ps : List Piece} (h : AreValues vs) (hgap : Ready previous gap)
    (hps : ∀ gap', gap' ≠ .clear → Padded gap' ps) :
    Padded gap (valuesOutline previous vs ++ ps) := by
  match h with
  | .nil =>
    rw [valuesOutline]
    refine hps gap ?_
    rcases hgap with rfl | ⟨rfl, -⟩ <;> simp
  | @AreValues.cons v rest hv hvs =>
    rw [valuesOutline, List.append_assoc, List.append_assoc]
    have hrest (gap' : Gap) (hgap' : Ready (some v) gap') :
        Padded gap' (valuesOutline (some v) rest ++ ps) :=
      padded_valuesOutline hvs hgap' hps
    rw [spaceOutline]
    split
    · exact padded_text (by decide) (padded_valueOutline hv (.inl rfl) hrest)
    · next hspace =>
      refine padded_valueOutline hv ?_ hrest
      rcases hgap with rfl | ⟨rfl, w, rfl, hw⟩
      · exact .inl rfl
      · -- after a hole only an operator does without a space
        refine .inr ⟨rfl, ?_⟩
        simpa [Printer.needsSpace, hw] using hspace

end

theorem padded_declarationsOutline {first : Bool} {ds : List Node} {ps : List Piece}
    (h : AreDeclarations ds) (hps : Padded .text ps) :
    ∀ gap, Padded gap (declarationsOutline first ds ++ .text "\x7d" :: ps) := by
  induction h generalizing first with
  | nil =>
    intro gap
    exact padded_text (by decide) hps
  | cons property important hvs hds ih =>
    next vs ds =>
    intro gap
    -- what follows the components of the value starts with a text
    have hrest (gap' : Gap) : Padded gap' ((if important then [.text "!important"] else []) ++
        declarationsOutline false ds ++ .text "\x7d" :: ps) := by
      rw [List.append_assoc]
      split
      · exact padded_text (by decide) (ih .text)
      · exact ih gap'
    have hdeclaration (gap' : Gap) : Padded gap' (.text (property ++ ":") ::
        (valuesOutline none vs ++ ((if important then [.text "!important"] else []) ++
          declarationsOutline false ds ++ .text "\x7d" :: ps))) :=
      padded_text (by simp) (padded_valuesOutline hvs (.inl rfl) fun gap'' _ => hrest gap'')
    rw [declarationsOutline]
    simp only [List.append_assoc, List.cons_append] at hdeclaration ⊢
    split
    · exact hdeclaration gap
    · exact padded_text (by decide) (hdeclaration .text)

theorem padded_bodyOutline {gap : Gap} {body ps : List Piece}
    (h : Padded .text (body ++ .text "\x7d" :: ps)) : Padded gap (bodyOutline body ++ ps) := by
  rw [bodyOutline, List.cons_append, List.append_assoc]
  exact padded_text (by decide) h

theorem padded_atRuleOutline {name params : String} {gap : Gap} {ps : List Piece}
    (h : Padded .text ps) : Padded gap (atRuleOutline name params ++ ps) := by
  rw [atRuleOutline, List.cons_append]
  refine padded_text (by simp) ?_
  split
  · exact h
  · exact padded_text (by simp) h

mutual

theorem padded_ruleOutline {r : Node} {gap : Gap} {ps : List Piece} (h : IsRule r)
    (hgap : gap ≠ .hole) (hps : ∀ gap', gap' ≠ .hole → Padded gap' ps) :
    Padded gap (ruleOutline r ++ ps) := by
  match h with
  | .ruleset selectors hds =>
    rw [ruleOutline, List.cons_append, Padded]
    exact padded_bodyOutline (padded_declarationsOutline hds (hps .text (by decide)) .text)
  | .statement name params =>
    rw [ruleOutline, List.append_assoc]
    exact padded_atRuleOutline (padded_text (by decide) (hps .text (by decide)))
  | .descriptors name params hds =>
    rw [ruleOutline, List.append_assoc]
    exact padded_atRuleOutline
      (padded_bodyOutline (padded_declarationsOutline hds (hps .text (by decide)) .text))
  | .group name params hrs =>
    rw [ruleOutline, List.append_assoc]
    refine padded_atRuleOutline (padded_bodyOutline
      (padded_rulesOutline hrs (by decide) fun gap' _ => ?_))
    exact padded_text (by decide) (hps .text (by decide))
  | @IsRule.block condition body rest hbody hrest =>
    have hpadded : Padded .clear (rulesOutline body ++ []) :=
      padded_rulesOutline hbody (by decide) fun _ => padded_nil
    rw [List.append_nil] at hpadded
    rw [ruleOutline, List.singleton_append, chainOutline_branch (by decide), Padded, PaddedChain]
    exact ⟨hgap, trivial, ⟨hpadded, padded_chainOutline hrest⟩, hps .clear (by decide)⟩

theorem padded_rulesOutline {rs : List Node} {gap : Gap} {ps : List Piece} (h : AreRules rs)
    (hgap : gap ≠ .hole) (hps : ∀ gap', gap' ≠ .hole → Padded gap' ps) :
    Padded gap (rulesOutline rs ++ ps) := by
  match h with
  | .nil =>
    rw [rulesOutline]
    exact hps gap hgap
  | .cons hr hrs =>
    rw [rulesOutline, List.append_assoc]
    exact padded_ruleOutline hr hgap fun gap' hgap' => padded_rulesOutline hrs hgap' hps

theorem padded_chainOutline {bs : List Node} (h : AreAlternatives bs) :
    PaddedChain (chainOutline bs) := by
  match h with
  | .nil =>
    rw [chainOutline, PaddedChain]
    all_goals simp
  | @AreAlternatives.otherwise body hbody =>
    have hpadded : Padded .clear (rulesOutline body ++ []) :=
      padded_rulesOutline hbody (by decide) fun _ => padded_nil
    rw [List.append_nil] at hpadded
    rw [chainOutline, PaddedChain]
    exact hpadded
  | @AreAlternatives.elseIf condition body rest hbody hrest =>
    have hpadded : Padded .clear (rulesOutline body ++ []) :=
      padded_rulesOutline hbody (by decide) fun _ => padded_nil
    rw [List.append_nil] at hpadded
    rw [chainOutline_branch (by decide), PaddedChain]
    exact ⟨hpadded, padded_chainOutline hrest⟩

end

end ConditionalStyle.Assembly
