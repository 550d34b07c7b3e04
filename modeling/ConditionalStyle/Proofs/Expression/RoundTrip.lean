import ConditionalStyle.Proofs.Expression.Spelling

/-!
# Reading the text of a tree

A string literal is read as the text that it was written for, whatever follows it. Binary
operations, chains and conditionals are written in parentheses and are read back as they are. A
negation is written without them, so a member or a call of a negation is read as the negation of
that member or call: these are the only nodes that do not come back.

## Main definitions

* `Tree.settled`: the tree that the text of a tree is read as.

## Main statements

* `scan_quote_append`: a string literal is the first token of every text that starts with it.
* `parse_text`: the text of a tree is read as the settled tree.
* `parse_text_eq_ok_iff`: the trees that come back.
-/

namespace ConditionalStyle.Expression

open Text
open ConditionalStyle.Expression.Tree

/-- A string literal is the first lexeme of every text that starts with it, it becomes the first
token whatever is found after it, and alone it is read as the text that it was written for. -/
theorem scan_quote_append (t s : String) :
    lexeme? (quote t ++ s).toList = some (.string, (quote t).length) ∧
      scan (quote t ++ s) = (scanFrom (quote t).length s.toList).map
        (fun rest => { rest with tokens := ⟨.string, quote t, 0⟩ :: rest.tokens }) ∧
      parse (quote t) = .ok (.string t) := by
  have hlexeme := lexeme?_quote t s.toList
  refine ⟨?_, ?_, ?_⟩
  · rw [String.toList_append, hlexeme, String.length_toList]
  · rw [scan, String.toList_append, scanFrom_of_lexeme? 0 hlexeme, List.take_left, List.drop_left,
      String.ofList_toList, Nat.zero_add, String.length_toList]
    rfl
  · exact parse_eq_ok_iff_reads.2
      ⟨_, (solid_quote t).lexed, .ofOr (.or_of_primary (derives_quote t)), by simp⟩

/-! ### The tree that is read -/

namespace Tree

/-- Applies a function below the negations that a tree starts with. -/
def underNegations (f : Tree → Tree) : Tree → Tree
  | .not t => .not (underNegations f t)
  | t => f t

mutual

/-- The tree that the text of a tree is read as: a member or a call of a negation goes below it. -/
def settled : Tree → Tree
  | .string s => .string s
  | .number n => .number n
  | .boolean b => .boolean b
  | .null => .null
  | .name n => .name n
  | .member t n => underNegations (.member · n) t.settled
  | .call c args => underNegations (.call · (settledAll args)) c.settled
  | .not t => .not t.settled
  | .binary op l r => .binary op l.settled r.settled
  | .concat ts => .concat (settledAll ts)
  | .conditional c y n => .conditional c.settled y.settled n.settled

/-- The trees that a list of texts is read as. -/
def settledAll : List Tree → List Tree
  | [] => []
  | t :: ts => t.settled :: settledAll ts

end

theorem underNegations_of_ne {f : Tree → Tree} {e : Tree} (h : ∀ t, e ≠ .not t) :
    underNegations f e = f e := by
  cases e with
  | not t => exact absurd rfl (h t)
  | _ => rfl

end Tree

/-- Terminals that derive negations of a tree that is none. -/
inductive Negated : List Terminal → Tree → Prop
  | access {ts e} (h : Derives .access ts e) (hne : ∀ t, e ≠ .not t) : Negated ts e
  | not {ts e} (h : Negated ts e) : Negated (.operator "!" :: ts) (.not e)

theorem Negated.unary {ts : List Terminal} {e : Tree} (h : Negated ts e) : Derives .unary ts e := by
  induction h with
  | access h _ => exact .ofAccess h
  | not _ ih => exact .not ih

theorem Negated.additive {ts : List Terminal} {e : Tree} (h : Negated ts e) :
    Derives .additive ts e :=
  .ofUnary h.unary

theorem Negated.equality {ts : List Terminal} {e : Tree} (h : Negated ts e) :
    Derives .equality ts e :=
  .ofAdditive h.additive

theorem Negated.and {ts : List Terminal} {e : Tree} (h : Negated ts e) : Derives .and ts e :=
  .ofEquality h.equality

theorem Negated.or {ts : List Terminal} {e : Tree} (h : Negated ts e) : Derives .or ts e :=
  .ofAnd h.and

theorem Negated.conditional {ts : List Terminal} {e : Tree} (h : Negated ts e) :
    Derives .conditional ts e :=
  .ofOr h.or

/-- What is written after a negation belongs to its operand. -/
theorem Negated.append {ts us : List Terminal} {e : Tree} {f : Tree → Tree} (h : Negated ts e)
    (hf : ∀ {ts e}, Derives .access ts e → Derives .access (ts ++ us) (f e))
    (hne : ∀ e t, f e ≠ .not t) : Negated (ts ++ us) (underNegations f e) := by
  induction h with
  | access h hnot =>
    rw [underNegations_of_ne hnot]
    exact .access (hf h) (hne _)
  | not _ ih => exact .not ih

theorem negated_atom {t : Terminal} {e : Tree} (h : Derives .primary [t] e)
    (hne : ∀ t, e ≠ .not t) : Negated [t] e :=
  .access (.ofPrimary h) hne

theorem negated_group {ts : List Terminal} {e : Tree} (h : Derives .conditional ts e)
    (hne : ∀ t, e ≠ .not t) : Negated (.operator "(" :: (ts ++ [.operator ")"])) e :=
  .access (.ofPrimary (.group h)) hne

theorem derives_binary {op : Operator} (hop : ∀ s, op ≠ .unknown s) {ts us : List Terminal}
    {l r : Tree} (hl : Negated ts l) (hr : Negated us r) :
    Derives .conditional (ts ++ .operator op.symbol :: us) (.binary op l r) := by
  cases op with
  | and => exact .ofOr (.ofAnd (.and hl.and hr.equality))
  | or => exact .ofOr (.or hl.or hr.and)
  | equal => exact .ofOr (.ofAnd (.ofEquality (.equal hl.equality hr.additive)))
  | unequal => exact .ofOr (.ofAnd (.ofEquality (.unequal hl.equality hr.additive)))
  | unknown s => exact absurd rfl (hop s)

/-- Terminals with a separator between them, for any list of trees that is put together from its
first tree, the separator and the rest. -/
theorem derives_intercalate {R : List Terminal → List Tree → Prop} {x : Terminal}
    (hsingle : ∀ {ts e}, Negated ts e → R ts [e])
    (hcons : ∀ {ts us e es}, Negated ts e → R us es → R (ts ++ x :: us) (e :: es))
    {ts : List Terminal} {e : Tree} {tss : List (List Terminal)} {es : List Tree}
    (h : List.Forall₂ Negated (ts :: tss) (e :: es)) :
    R ([x].intercalate (ts :: tss)) (e :: es) := by
  induction tss generalizing ts e es with
  | nil =>
    rcases h with _ | ⟨h, ⟨⟩⟩
    rw [List.intercalate_singleton]
    exact hsingle h
  | cons us tss ih =>
    rcases h with _ | ⟨h, _ | ⟨hsecond, hrest⟩⟩
    rw [List.intercalate_cons_cons, List.append_assoc]
    exact hcons h (ih (.cons hsecond hrest))

mutual

/-- The terminals of a tree derive the settled tree. -/
theorem negated_terminals : (e : Tree) → Throughout IsSpellable e → Negated e.terminals e.settled
  | .string s, _ => negated_atom (derives_quote s) (by simp [settled])
  | .number n, h => by
    obtain ⟨k, rfl, -⟩ := (throughout_iff.1 h).1
    have hnumber := Derives.number (Number.int k).text
    rw [ofText_intText] at hnumber
    exact negated_atom hnumber (by simp [settled])
  | .boolean true, _ => negated_atom .yes (by simp [settled])
  | .boolean false, _ => negated_atom .no (by simp [settled])
  | .null, _ => negated_atom .null (by simp [settled])
  | .name n, _ => negated_atom (.name n) (by simp [settled])
  | .member t n, h =>
    (negated_terminals t ((throughout_iff.1 h).2 t (by simp [children]))).append
      (fun h => h.member n) (by simp)
  | .call c args, h => by
    obtain ⟨-, hchildren⟩ := throughout_iff.1 h
    have hc := negated_terminals c (hchildren c (by simp [children]))
    have hargs := negated_terminalLists args fun t ht => hchildren t (by simp [children, ht])
    refine hc.append (fun hcallee => ?_) (by simp)
    rcases args with _ | ⟨e, es⟩
    · exact hcallee.call
    · exact hcallee.callWith (derives_intercalate (fun h => .single h.conditional)
        (fun h hs => .comma h.conditional hs) hargs)
  | .not t, h => .not (negated_terminals t ((throughout_iff.1 h).2 t (by simp [children])))
  | .binary op l r, h => by
    obtain ⟨hop, hchildren⟩ := throughout_iff.1 h
    have hl := negated_terminals l (hchildren l (by simp [children]))
    have hr := negated_terminals r (hchildren r (by simp [children]))
    exact negated_group (derives_binary hop hl hr) (by simp [settled])
  | .concat ts, h => by
    obtain ⟨hlength, hchildren⟩ := throughout_iff.1 h
    have hts := negated_terminalLists ts hchildren
    rcases ts with _ | ⟨e₁, _ | ⟨e₂, es⟩⟩
    · cases hlength
    · exact absurd hlength (by simp [IsSpellable])
    · have hsum := derives_intercalate (R := DerivesSum) (fun h => .single h.unary)
        (fun h hs => .plus h.unary hs) hts
      exact negated_group (.conditional_of_additive (.sum hsum)) (by simp [settled])
  | .conditional c y n, h => by
    obtain ⟨-, hchildren⟩ := throughout_iff.1 h
    have hc := negated_terminals c (hchildren c (by simp [children]))
    have hy := negated_terminals y (hchildren y (by simp [children]))
    have hn := negated_terminals n (hchildren n (by simp [children]))
    exact negated_group (.choice hc.or hy.conditional hn.conditional) (by simp [settled])

theorem negated_terminalLists : (es : List Tree) → (∀ e ∈ es, Throughout IsSpellable e) →
    List.Forall₂ Negated (terminalLists es) (settledAll es)
  | [], _ => .nil
  | e :: es, h => .cons (negated_terminals e (h e (by simp)))
    (negated_terminalLists es fun t ht => h t (by simp [ht]))

end

/-- The text of a tree is read as the settled tree. -/
theorem parse_text {e : Tree} (h : Throughout IsSpellable e) : parse e.text = .ok e.settled := by
  have hlexed := spells_text e h follows_nil .nil
  rw [List.append_nil, List.append_nil] at hlexed
  exact parse_eq_ok_iff_reads.2 ⟨_, hlexed, (negated_terminals e h).conditional,
    allFit_terminals e h⟩

/-! ### The trees that come back -/

namespace Tree

/-- Being no member and no call of a negation. -/
def SparesNegation : Tree → Prop
  | .member (.not _) _ | .call (.not _) _ => False
  | _ => True

theorem sparesNegation_underNegations {f : Tree → Tree}
    (hf : ∀ e, (∀ t, e ≠ .not t) → Throughout SparesNegation e → Throughout SparesNegation (f e)) :
    (e : Tree) → Throughout SparesNegation e → Throughout SparesNegation (underNegations f e)
  | .not t, h => by
    have ht := sparesNegation_underNegations hf t ((throughout_iff.1 h).2 t (by simp [children]))
    rw [underNegations]
    exact throughout_iff.2 ⟨trivial, by simpa [children] using ht⟩
  | .string _, h | .number _, h | .boolean _, h | .null, h | .name _, h | .member _ _, h
  | .call _ _, h | .binary _ _ _, h | .concat _, h | .conditional _ _ _, h => hf _ (by simp) h

mutual

/-- A settled tree has no member and no call of a negation. -/
theorem sparesNegation_settled : (e : Tree) → Throughout SparesNegation e.settled
  | .string _ | .number _ | .boolean _ | .null | .name _ =>
    throughout_iff.2 ⟨trivial, by simp [children, settled]⟩
  | .member t n => by
    refine sparesNegation_underNegations (fun e hne he => ?_) _ (sparesNegation_settled t)
    refine throughout_iff.2 ⟨?_, by simpa [children] using he⟩
    cases e with
    | not t => exact absurd rfl (hne t)
    | _ => trivial
  | .call c args => by
    refine sparesNegation_underNegations (fun e hne he => ?_) _ (sparesNegation_settled c)
    refine throughout_iff.2 ⟨?_, List.forall_mem_cons.2 ⟨he, sparesNegation_settledAll args⟩⟩
    cases e with
    | not t => exact absurd rfl (hne t)
    | _ => trivial
  | .not t => throughout_iff.2
      ⟨trivial, by simpa [children, settled] using sparesNegation_settled t⟩
  | .binary _ l r => throughout_iff.2
    ⟨trivial, by simp [children, settled, sparesNegation_settled l, sparesNegation_settled r]⟩
  | .concat ts => throughout_iff.2 ⟨trivial, sparesNegation_settledAll ts⟩
  | .conditional c y n => throughout_iff.2
    ⟨trivial, by simp [children, settled, sparesNegation_settled c, sparesNegation_settled y,
      sparesNegation_settled n]⟩

theorem sparesNegation_settledAll : (es : List Tree) →
    ∀ e ∈ settledAll es, Throughout SparesNegation e
  | [] => by simp [settledAll]
  | e :: es => List.forall_mem_cons.2 ⟨sparesNegation_settled e, sparesNegation_settledAll es⟩

end

mutual

/-- A tree without such members and calls is settled. -/
theorem settled_eq_self : (e : Tree) → Throughout SparesNegation e → e.settled = e
  | .string _, _ | .number _, _ | .boolean _, _ | .null, _ | .name _, _ => rfl
  | .member t n, h => by
    obtain ⟨hnode, hchildren⟩ := throughout_iff.1 h
    rw [settled, settled_eq_self t (hchildren t (by simp [children])), underNegations_of_ne]
    rintro u rfl
    exact hnode
  | .call c args, h => by
    obtain ⟨hnode, hchildren⟩ := throughout_iff.1 h
    rw [settled, settled_eq_self c (hchildren c (by simp [children])),
      settledAll_eq_self args fun t ht => hchildren t (by simp [children, ht]),
      underNegations_of_ne]
    rintro u rfl
    exact hnode
  | .not t, h => by
    rw [settled, settled_eq_self t ((throughout_iff.1 h).2 t (by simp [children]))]
  | .binary op l r, h => by
    obtain ⟨-, hchildren⟩ := throughout_iff.1 h
    rw [settled, settled_eq_self l (hchildren l (by simp [children])),
      settled_eq_self r (hchildren r (by simp [children]))]
  | .concat ts, h => by rw [settled, settledAll_eq_self ts (throughout_iff.1 h).2]
  | .conditional c y n, h => by
    obtain ⟨-, hchildren⟩ := throughout_iff.1 h
    rw [settled, settled_eq_self c (hchildren c (by simp [children])),
      settled_eq_self y (hchildren y (by simp [children])),
      settled_eq_self n (hchildren n (by simp [children]))]

theorem settledAll_eq_self : (es : List Tree) → (∀ e ∈ es, Throughout SparesNegation e) →
    settledAll es = es
  | [], _ => rfl
  | e :: es, h => by
    rw [settledAll, settled_eq_self e (h e (by simp)),
      settledAll_eq_self es fun t ht => h t (by simp [ht])]

end

theorem throughout_sparesNegation_iff {e : Tree} :
    Throughout SparesNegation e ↔
      (¬ ∃ t n, Occurs (.member (.not t) n) e) ∧ ¬ ∃ t args, Occurs (.call (.not t) args) e := by
  constructor
  · intro h
    exact ⟨fun ⟨t, n, hoccurs⟩ => h _ hoccurs, fun ⟨t, args, hoccurs⟩ => h _ hoccurs⟩
  · rintro ⟨hmember, hcall⟩ t ht
    rcases t with _ | _ | _ | _ | _ | ⟨t, n⟩ | ⟨c, args⟩ | _ | _ | _ | _ <;> try trivial
    · cases t with
      | not t => exact hmember ⟨t, n, ht⟩
      | _ => trivial
    · cases c with
      | not t => exact hcall ⟨t, args, ht⟩
      | _ => trivial

end Tree

/-- The text of a tree that was read, and that holds no double, is read as the same tree exactly
when the tree has neither a member nor a call of a negation. -/
theorem parse_text_eq_ok_iff {source : String} {e : Tree} (h : parse source = .ok e)
    (hfloat : ∀ x, ¬ Occurs (.number (.float x)) e) :
    parse e.text = .ok e ↔
      (¬ ∃ t n, Occurs (.member (.not t) n) e) ∧ ¬ ∃ t args, Occurs (.call (.not t) args) e := by
  rw [parse_text (spellable_of_parse h hfloat), Except.ok.injEq, ← throughout_sparesNegation_iff]
  constructor
  · intro hsettled
    exact hsettled ▸ sparesNegation_settled e
  · exact settled_eq_self e

/-- In `!a.b + (!c)(1)` the first operand would come back and the second does not: the text says
`!c(1)`. -/
theorem parse_text_eq_ok_iff_calledNegation :
    parse "!a.b + (!c)(1)" = .ok (.concat [.not (.member (.name "a") "b"),
        .call (.not (.name "c")) [.number (.int 1)]]) ∧
      ¬ parse (Tree.text (.concat [.not (.member (.name "a") "b"),
          .call (.not (.name "c")) [.number (.int 1)]])) =
        .ok (.concat [.not (.member (.name "a") "b"),
          .call (.not (.name "c")) [.number (.int 1)]]) := by
  have hparse : parse "!a.b + (!c)(1)" = .ok (.concat [.not (.member (.name "a") "b"),
      .call (.not (.name "c")) [.number (.int 1)]]) := by with_unfolding_all rfl
  have hfloat (x : Float) : ¬ Occurs (.number (.float x)) (.concat
      [.not (.member (.name "a") "b"), .call (.not (.name "c")) [.number (.int 1)]]) := by
    intro h
    rcases h with _ | ⟨hc, h⟩
    simp only [children, List.mem_cons, List.not_mem_nil, or_false] at hc
    rcases hc with rfl | rfl
    · rcases h with _ | ⟨hc, h⟩
      cases List.mem_singleton.1 hc
      rcases h with _ | ⟨hc, h⟩
      cases List.mem_singleton.1 hc
      rcases h with _ | ⟨⟨⟩, -⟩
    · rcases h with _ | ⟨hc, h⟩
      simp only [children, List.mem_cons, List.not_mem_nil, or_false] at hc
      rcases hc with rfl | rfl
      · rcases h with _ | ⟨hc, h⟩
        cases List.mem_singleton.1 hc
        rcases h with _ | ⟨⟨⟩, -⟩
      · rcases h with _ | ⟨⟨⟩, -⟩
  refine ⟨hparse, fun h => ?_⟩
  exact ((parse_text_eq_ok_iff hparse hfloat).1 h).2
    ⟨_, _, .inside (List.mem_cons_of_mem _ List.mem_cons_self) .here⟩

end ConditionalStyle.Expression
