import ConditionalStyle.Proofs.Assembly.Walk

/-!
# Printing plain trees

A tree without blocks and run-time values is printed as its outline says: the texts of the outline,
put together. On the nodes of such a tree a compiler only prints, so its walk is that of a printer,
and what is known about the one is known about the other.

## Main definitions

* `IsPlain`: nodes that are printed as they are.
* `Textual`, `plainText`: outlines that are only text, and their texts.

## Main statements

* `walk_of_plain`: on plain trees a compiler walks like a printer.
* `printTree_of_plain`: the text of a plain stylesheet.
-/

namespace ConditionalStyle.Assembly

open Stylesheet

/-- A node that is printed as it is. -/
def IsPlain (n : Node) : Prop :=
  n.kind ∈ [Node.Kind.ruleset, .atRule, .declaration, .literal, .operator, .function]

instance : DecidablePred IsPlain := fun _ => inferInstanceAs (Decidable (_ ∈ _))

/-! ### Compilers that only print -/

section Simulation

variable (limit : Nat)

/-- At a plain node a compiler does what a printer does. -/
theorem handlers_of_plain {n : Node} (h : IsPlain n) :
    (Session.handlers limit).enter n = Session.onPrinter (Printer.handlers.enter n) ∧
      (Session.handlers limit).leave n = Session.onPrinter (Printer.handlers.leave n) := by
  cases n with
  | ruleset | atRule | declaration | literal | operator | function => exact ⟨rfl, rfl⟩
  | stylesheet | runtime | dotPath | conditionalBlock | conditionalRule | blankValue | blank =>
    simp [IsPlain, Node.kind] at h

theorem visit_onPrinter {n : Node} (h : IsPlain n) {children : Printer.Print Unit} :
    (Session.handlers limit).visit n (Session.onPrinter children) =
      Session.onPrinter (Printer.handlers.visit n children) := by
  obtain ⟨henter, hleave⟩ := handlers_of_plain limit h
  rw [Registry.visit, Registry.visit, Session.onPrinter_bind, henter, hleave]
  refine bind_congr fun descend => ?_
  cases descend with
  | false => rfl
  | true => exact (Session.onPrinter_bind children fun _ => Printer.handlers.leave n).symm

theorem walkAll_onPrinter {ns : List Node} (h : ∀ n ∈ ns,
    walk (Session.handlers limit) n = Session.onPrinter (walk Printer.handlers n)) :
    walkAll (Session.handlers limit) ns = Session.onPrinter (walkAll Printer.handlers ns) := by
  induction ns with
  | nil => rfl
  | cons n ns ih =>
    obtain ⟨hn, hns⟩ := List.forall_mem_cons.1 h
    rw [walkAll, walkAll, Session.onPrinter_bind, hn, ih hns]

/-- On plain trees a compiler walks like a printer. -/
theorem walk_of_plain {n : Node} (h : Throughout IsPlain n) :
    walk (Session.handlers limit) n = Session.onPrinter (walk Printer.handlers n) := by
  obtain ⟨hn, hchildren⟩ := throughout_iff.1 h
  rw [walk_eq_visit, walk_eq_visit,
    walkAll_onPrinter limit fun c hc => walk_of_plain (hchildren c hc),
    visit_onPrinter limit hn]
termination_by sizeOf n
decreasing_by exact sizeOf_lt_of_mem_children hc

end Simulation

/-! ### Outlines of plain trees -/

/-- An outline that is only text. -/
def Textual (ps : List Piece) : Prop :=
  ∀ p ∈ ps, ∃ s, p = .text s

/-- The texts of an outline, put together. -/
def plainText : List Piece → String
  | [] => ""
  | .text s :: ps => s ++ plainText ps
  | _ :: ps => plainText ps

@[simp] theorem plainText_nil : plainText [] = "" := rfl

@[simp] theorem plainText_text (s : String) (ps : List Piece) :
    plainText (.text s :: ps) = s ++ plainText ps := rfl

@[simp] theorem plainText_append (ps qs : List Piece) :
    plainText (ps ++ qs) = plainText ps ++ plainText qs := by
  induction ps with
  | nil => exact String.empty_append.symm
  | cons p ps ih => cases p <;> simp only [List.cons_append, plainText, ih, String.append_assoc]

@[simp] theorem textual_nil : Textual [] := by
  simp [Textual]

@[simp] theorem textual_cons {s : String} {ps : List Piece} :
    Textual (.text s :: ps) ↔ Textual ps := by
  simp [Textual]

@[simp] theorem textual_append {ps qs : List Piece} :
    Textual (ps ++ qs) ↔ Textual ps ∧ Textual qs :=
  List.forall_mem_append

/-- Feeding texts to a draft only prints them. -/
theorem Draft.feedAll_of_textual (limit : Nat) {ps : List Piece} (h : Textual ps) (d : Draft) :
    d.feedAll limit ps = { d with pending := d.pending ++ plainText ps } := by
  induction ps generalizing d with
  | nil => rw [feedAll_nil, plainText, String.append_empty]
  | cons p ps ih =>
    obtain ⟨⟨s, rfl⟩, hps⟩ := List.forall_mem_cons.1 h
    rw [feedAll_cons, ih hps, feed, plainText, String.append_assoc]

theorem textual_spaceOutline (previous : Option Node) (v : Node) :
    Textual (spaceOutline previous v) := by
  rw [spaceOutline]
  split <;> simp

theorem textual_atRuleOutline (name params : String) : Textual (atRuleOutline name params) := by
  rw [atRuleOutline, textual_cons]
  split <;> simp

theorem textual_bodyOutline {ps : List Piece} (h : Textual ps) : Textual (bodyOutline ps) := by
  simpa [bodyOutline] using h

mutual

theorem textual_value {v : Node} (h : IsValue v) (hplain : Throughout IsPlain v) :
    Textual (valueOutline v) := by
  obtain ⟨hv, hchildren⟩ := throughout_iff.1 hplain
  match h with
  | .literal _ | .operator _ => simp [valueOutline]
  | .function name hargs =>
    have := textual_values hargs hchildren none
    simpa [valueOutline] using this
  | .runtime _ | .dotPath _ _ _ => simp [IsPlain, Node.kind] at hv

theorem textual_values {vs : List Node} (h : AreValues vs)
    (hplain : ∀ v ∈ vs, Throughout IsPlain v) (previous : Option Node) :
    Textual (valuesOutline previous vs) := by
  match h with
  | .nil => simp [valuesOutline]
  | .cons hv hvs =>
    obtain ⟨hplain, hplain'⟩ := List.forall_mem_cons.1 hplain
    rw [valuesOutline, textual_append, textual_append]
    exact ⟨⟨textual_spaceOutline _ _, textual_value hv hplain⟩, textual_values hvs hplain' _⟩

end

theorem textual_declarations {ds : List Node} (h : AreDeclarations ds)
    (hplain : ∀ d ∈ ds, Throughout IsPlain d) (first : Bool) :
    Textual (declarationsOutline first ds) := by
  induction h generalizing first with
  | nil => simp [declarationsOutline]
  | cons property important hvs hds ih =>
    obtain ⟨hplain, hplain'⟩ := List.forall_mem_cons.1 hplain
    have hvalues := textual_values hvs (throughout_iff.1 hplain).2 none
    simp only [declarationsOutline, textual_append, textual_cons]
    refine ⟨?_, hvalues, ?_, ih hplain' false⟩
    · cases first <;> simp
    · cases important <;> simp

mutual

theorem textual_rule {r : Node} (h : IsRule r) (hplain : Throughout IsPlain r) :
    Textual (ruleOutline r) := by
  obtain ⟨hr, hchildren⟩ := throughout_iff.1 hplain
  match h with
  | .ruleset selectors hds =>
    rw [ruleOutline, textual_cons]
    exact textual_bodyOutline (textual_declarations hds hchildren true)
  | .statement name params => simp [ruleOutline, textual_atRuleOutline]
  | .descriptors name params hds =>
    rw [ruleOutline, textual_append]
    exact ⟨textual_atRuleOutline _ _, textual_bodyOutline (textual_declarations hds hchildren true)⟩
  | .group name params hrs =>
    rw [ruleOutline, textual_append]
    exact ⟨textual_atRuleOutline _ _, textual_bodyOutline (textual_rules hrs hchildren)⟩
  | .block _ _ _ => simp [IsPlain, Node.kind] at hr

/-- The outline of plain rules is only text. -/
theorem textual_rules {rs : List Node} (h : AreRules rs)
    (hplain : ∀ r ∈ rs, Throughout IsPlain r) : Textual (rulesOutline rs) := by
  match h with
  | .nil => simp [rulesOutline]
  | .cons hr hrs =>
    obtain ⟨hplain, hplain'⟩ := List.forall_mem_cons.1 hplain
    rw [rulesOutline, textual_append]
    exact ⟨textual_rule hr hplain, textual_rules hrs hplain'⟩

end

/-! ### Printed texts -/

theorem conditioned_of_plain {n : Node} (h : Throughout IsPlain n) : Conditioned n := by
  intro b body hoccurs
  have hplain := h _ hoccurs
  simp [IsPlain, Node.kind] at hplain

theorem Session.ok_of_onPrinter {α : Type} {x : Printer.Print α} {a : α} {s s' : Session}
    (h : onPrinter x s = .ok a s') : x s.printer = .ok a s'.printer := by
  rw [onPrinter] at h
  cases hx : x s.printer with
  | ok b p =>
    rw [hx] at h
    cases h
    rfl
  | error e p =>
    rw [hx] at h
    cases h

/-- A plain stylesheet is printed as the texts of its outline. -/
theorem printTree_of_plain {rs : List Node} (h : AreRules rs)
    (hplain : ∀ r ∈ rs, Throughout IsPlain r) :
    printTree (.stylesheet rs) = .ok (plainText (rulesOutline rs)) := by
  let d : Draft := ⟨[], "", 0⟩
  have hcompiler : walkAll (Session.handlers 0) rs (d.session [] [] []) = _ :=
    (walks_rules 0 h d [] []).1 fun r hr => conditioned_of_plain (hplain r hr)
  rw [Draft.feedAll_of_textual 0 (textual_rules h hplain), String.empty_append,
    walkAll_onPrinter 0 fun r hr => walk_of_plain 0 (hplain r hr)] at hcompiler
  have hprinter : walkAll Printer.handlers rs Printer.start =
      .ok () ⟨plainText (rulesOutline rs), [], []⟩ := Session.ok_of_onPrinter hcompiler
  have hwalk : walk Printer.handlers (.stylesheet rs) Printer.start =
      .ok () ⟨plainText (rulesOutline rs), [], []⟩ := by
    have henter : Printer.handlers.enter (.stylesheet rs) Printer.start = .ok true .start := rfl
    rw [walk, visit_of_true henter, bind_of_ok hprinter]
    rfl
  have hprint : Printer.print (.stylesheet rs) Printer.start =
      .ok (plainText (rulesOutline rs)) .start := by
    rw [Printer.print, bind_of_ok (rfl : Printer.reset Printer.start = .ok () Printer.start),
      bind_of_ok hwalk]
    rfl
  rw [printTree, EStateM.run, hprint]

end ConditionalStyle.Assembly
