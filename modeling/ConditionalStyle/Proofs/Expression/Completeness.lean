import ConditionalStyle.Proofs.Expression.Positions

/-!
# What is derived is read

Whatever a nonterminal derives, its reading function reads with the same tree, up to a token that
could not have continued the derivation. For the nonterminals whose rules recur on the left this is
not what an induction can prove: there the statement is that reading the derived tokens leaves the
function in the loop that goes on with their tree.

Reading is a function, so at most one tree is derived from given terminals.

## Main definitions

* `Parser.continuations`: the operators that continue a derivation.
* `Parser.start`, `Parser.goOn`: the function of a nonterminal and its loop.
* `Parser.Completes`: what is proved of each derivation.

## Main statements

* `Derives.completes`: the induction over derivations.
* `whole_of_derives`, `Derives.unique`.
* `parse_eq_ok_iff_derives`: reading is derivation, and derivations determine trees.
-/

namespace ConditionalStyle.Expression

namespace Parser

/-! ### Operators that come next -/

theorem after?_of_terminal {t : Token} {symbol : String} (ht : t.terminal = .operator symbol)
    (r : List Token) : after? symbol (t :: r) = some r := by
  simp only [after?, Token.isOperator_iff.2 ht, ↓reduceIte]

theorem after?_of_terminal_ne {t : Token} {symbol : String} (ht : t.terminal ≠ .operator symbol)
    (r : List Token) : after? symbol (t :: r) = none := by
  have h : t.isOperator symbol = false := by
    rw [← Bool.not_eq_true, Token.isOperator_iff]
    exact ht
  simp only [after?, h, Bool.false_eq_true, ↓reduceIte]

theorem after?_of_other {t : Token} {symbol other : String} (ht : t.terminal = .operator other)
    (hne : other ≠ symbol) (r : List Token) : after? symbol (t :: r) = none := by
  refine after?_of_terminal_ne ?_ r
  rw [ht]
  exact fun h => hne (congrArg Terminal.text h)

/-- None of the operators comes next. -/
def Stops (symbols : List String) (r : List Token) : Prop :=
  ∀ s ∈ symbols, after? s r = none

theorem stops_nil (symbols : List String) : Stops symbols [] :=
  fun _ _ => rfl

theorem stops_of_terminal {t : Token} {other : String} (ht : t.terminal = .operator other)
    {symbols : List String} (h : other ∉ symbols) (r : List Token) : Stops symbols (t :: r) := by
  intro s hs
  exact after?_of_other ht (fun heq => h (heq ▸ hs)) r

theorem Stops.mono {symbols symbols' : List String} {r : List Token} (h : Stops symbols r)
    (hsub : symbols' ⊆ symbols) : Stops symbols' r :=
  fun s hs => h s (hsub hs)

theorem afterLevel?_of_terminal {level : Nat} {t : Token} {op : Operator}
    (hop : op ∈ levelSymbols level) (ht : t.terminal = .operator op.symbol) (r : List Token) :
    afterLevel? level (t :: r) = some (op, r) := by
  have key (op' : Operator) : t.isOperator op'.symbol = decide (op.symbol = op'.symbol) := by
    rw [Bool.eq_iff_iff, Token.isOperator_iff, ht, decide_eq_true_iff]
    simp only [Terminal.operator, Terminal.mk.injEq, true_and]
  simp only [afterLevel?, key]
  rcases level with _ | _ | _ | _ | level
  · cases hop
  · simp only [levelSymbols, List.mem_cons, List.not_mem_nil, or_false] at hop
    rcases hop with rfl | rfl <;> rfl
  · obtain rfl := List.mem_singleton.1 hop
    rfl
  · obtain rfl := List.mem_singleton.1 hop
    rfl
  · cases hop

theorem afterLevel?_of_stops {level : Nat} {r : List Token}
    (h : Stops ((levelSymbols level).map Operator.symbol) r) : afterLevel? level r = none := by
  cases r with
  | nil => rfl
  | cons t r =>
    simp only [afterLevel?, Option.map_eq_none_iff, List.find?_eq_none]
    intro op hop ht
    have hnone := h op.symbol (List.mem_map_of_mem hop)
    rw [after?_of_terminal (Token.isOperator_iff.1 ht)] at hnone
    cases hnone

/-! ### The functions and the loops of nonterminals -/

/-- The operators that continue what a nonterminal derives. -/
def continuations : Nonterminal → List String
  | .primary => []
  | .access | .unary => [".", "("]
  | .additive => [".", "(", "+"]
  | .equality => [".", "(", "+", "==", "!="]
  | .and => [".", "(", "+", "==", "!=", "&&"]
  | .or => [".", "(", "+", "==", "!=", "&&", "||"]
  | .conditional => [".", "(", "+", "==", "!=", "&&", "||", "?"]

/-- The operators that continue an operand of what a nonterminal derives, where its rules recur on
the left; else those that continue the whole. -/
def operandContinuations : Nonterminal → List String
  | .or => continuations .and
  | .and => continuations .equality
  | .equality => continuations .additive
  | .access => continuations .primary
  | n => continuations n

variable (bounds : Bounds)

/-- The function that reads a nonterminal. -/
def start (n : Nonterminal) (ts : List Token) : Except ParseError (Tree × List Token) :=
  match n with
  | .conditional => plain (conditional bounds ts)
  | .or => plain (binary bounds 3 ts)
  | .and => plain (binary bounds 2 ts)
  | .equality => plain (binary bounds 1 ts)
  | .additive => plain (binary bounds 0 ts)
  | .unary => plain (unary bounds ts)
  | .access => access bounds ts
  | .primary => plain (primary bounds ts)

/-- The loop that goes on with a tree that has been read. -/
def goOn (n : Nonterminal) (e : Tree) (ts : List Token) : Except ParseError (Tree × List Token) :=
  match n with
  | .or => plain (binaryRest bounds 2 e ts)
  | .and => plain (binaryRest bounds 1 e ts)
  | .equality => plain (binaryRest bounds 0 e ts)
  | .access => plain (postfixes bounds e ts)
  | .conditional | .additive | .unary | .primary => .ok (e, ts)

/-- Reading tokens with the given terminals, no operator after them continuing their last operand,
comes to the loop with the given tree. -/
def Completes (n : Nonterminal) (w : List Terminal) (e : Tree) : Prop :=
  ∀ us : List Token, us.map Token.terminal = w → ∀ r, Stops (operandContinuations n) r →
    start bounds n (us ++ r) = goOn bounds n e r

variable {bounds}

/-- The loop ends where no operator continues. -/
theorem goOn_of_stops {n : Nonterminal} {r : List Token} (h : Stops (continuations n) r)
    (e : Tree) : goOn bounds n e r = .ok (e, r) := by
  cases n with
  | conditional | additive | unary | primary => rfl
  | or | and | equality =>
    rw [goOn, plain_binaryRest, afterLevel?_of_stops (h.mono (by decide))]
  | access =>
    rw [goOn, plain_postfixes, h "." (by decide), h "(" (by decide)]

theorem operandContinuations_subset (n : Nonterminal) :
    operandContinuations n ⊆ continuations n := by
  cases n <;> decide

theorem Completes.start_eq {n : Nonterminal} {w : List Terminal} {e : Tree}
    (h : Completes bounds n w e) {us : List Token} (hus : us.map Token.terminal = w)
    {r : List Token} (hr : Stops (continuations n) r) : start bounds n (us ++ r) = .ok (e, r) := by
  rw [h us hus r (hr.mono (operandContinuations_subset n)), goOn_of_stops hr]

/-! ### One step for each rule -/

/-- Terminals that are cut in two at an operator belong to tokens that are. -/
theorem exists_of_map_eq_append_cons {us : List Token} {ts vs : List Terminal} {x : Terminal}
    (h : us.map Token.terminal = ts ++ x :: vs) :
    ∃ as t bs, us = as ++ t :: bs ∧ as.map Token.terminal = ts ∧ t.terminal = x ∧
      bs.map Token.terminal = vs := by
  obtain ⟨as, bs, rfl, ha, hb⟩ := List.map_eq_append_iff.1 h
  obtain ⟨t, bs, rfl, ht, hb⟩ := List.map_eq_cons_iff.1 hb
  exact ⟨as, t, bs, rfl, ha, ht, hb⟩

namespace Completes

variable {ts us vs : List Terminal} {e e₁ e₂ e₃ : Tree}

theorem ofOr (h : Completes bounds .or ts e) : Completes bounds .conditional ts e := by
  intro as has r hr
  have htest : plain (binary bounds 3 (as ++ r)) = .ok (e, r) :=
    h.start_eq has (hr.mono (by decide))
  rw [start, plain_conditional, htest]
  dsimp only [Except.bind]
  rw [hr "?" (by decide)]
  rfl

theorem choice (h₁ : Completes bounds .or ts e₁) (h₂ : Completes bounds .conditional us e₂)
    (h₃ : Completes bounds .conditional vs e₃) :
    Completes bounds .conditional (ts ++ .operator "?" :: (us ++ .operator ":" :: vs))
      (.conditional e₁ e₂ e₃) := by
  intro as has r hr
  obtain ⟨as, t, bs, rfl, ha, ht, hb⟩ := exists_of_map_eq_append_cons has
  obtain ⟨bs, u, cs, rfl, hb, hu, hc⟩ := exists_of_map_eq_append_cons hb
  have htest : plain (binary bounds 3 (as ++ t :: (bs ++ u :: (cs ++ r)))) =
      .ok (e₁, t :: (bs ++ u :: (cs ++ r))) :=
    h₁.start_eq ha (stops_of_terminal ht (by decide) _)
  have hyes : plain (conditional bounds (bs ++ u :: (cs ++ r))) = .ok (e₂, u :: (cs ++ r)) :=
    h₂.start_eq hb (stops_of_terminal hu (by decide) _)
  have hno : plain (conditional bounds (cs ++ r)) = .ok (e₃, r) := h₃.start_eq hc hr
  have happ : as ++ t :: (bs ++ u :: cs) ++ r = as ++ t :: (bs ++ u :: (cs ++ r)) := by simp
  rw [start, plain_conditional, happ, htest]
  dsimp only [Except.bind]
  rw [after?_of_terminal ht]
  dsimp only
  rw [hyes]
  dsimp only
  rw [after?_of_terminal hu]
  dsimp only
  rw [hno]
  rfl

theorem start_nonterminal {level : Nat} (hl : level ≤ 3) (ts : List Token) :
    start bounds (nonterminal level) ts = plain (binary bounds level ts) := by
  match level with
  | 0 | 1 | 2 | 3 => rfl

theorem goOn_nonterminal {level : Nat} (hl : level < 3) (e : Tree) (ts : List Token) :
    goOn bounds (nonterminal (level + 1)) e ts = plain (binaryRest bounds level e ts) := by
  match level with
  | 0 | 1 | 2 => rfl

theorem operandContinuations_nonterminal {level : Nat} (hl : level < 3) :
    operandContinuations (nonterminal (level + 1)) = continuations (nonterminal level) := by
  match level with
  | 0 | 1 | 2 => rfl

/-- An operand of a level is read by the level below, and the loop is entered with it. -/
theorem operand (level : Nat) (hl : level < 3) (h : Completes bounds (nonterminal level) ts e) :
    Completes bounds (nonterminal (level + 1)) ts e := by
  intro as has r hr
  rw [operandContinuations_nonterminal hl] at hr
  have hread := h.start_eq has hr
  rw [start_nonterminal (by omega)] at hread
  rw [start_nonterminal hl, goOn_nonterminal hl, plain_binary_succ, hread]
  rfl

/-- An operator of a level, in the loop with the left operand, is one turn of the loop. -/
theorem operation (level : Nat) (op : Operator) (hl : level < 3)
    (hop : op ∈ levelSymbols (level + 1))
    (hnot : op.symbol ∉ continuations (nonterminal level))
    (h₁ : Completes bounds (nonterminal (level + 1)) ts e₁)
    (h₂ : Completes bounds (nonterminal level) us e₂) :
    Completes bounds (nonterminal (level + 1)) (ts ++ .operator op.symbol :: us)
      (.binary op e₁ e₂) := by
  intro as has r hr
  obtain ⟨as, t, bs, rfl, ha, ht, hb⟩ := exists_of_map_eq_append_cons has
  rw [operandContinuations_nonterminal hl] at hr
  have hright := h₂.start_eq hb hr
  rw [start_nonterminal (by omega)] at hright
  have hleft := h₁ as ha (t :: (bs ++ r)) (by
    rw [operandContinuations_nonterminal hl]
    exact stops_of_terminal ht hnot _)
  rw [List.append_assoc, List.cons_append, hleft, goOn_nonterminal hl, goOn_nonterminal hl,
    plain_binaryRest, afterLevel?_of_terminal hop ht]
  dsimp only
  rw [hright]
  rfl

end Completes

/-- The same for the operands of a sum, which are read by two functions. -/
def CompletesSum (bounds : Bounds) (w : List Terminal) (es : List Tree) : Prop :=
  ∀ us : List Token, us.map Token.terminal = w → ∀ r, Stops (continuations .additive) r →
    ∃ e rest r', es = e :: rest ∧ plain (unary bounds (us ++ r)) = .ok (e, r') ∧
      plain (summands bounds r') = .ok (rest, r)

/-- The same for the arguments of a call and the parenthesis after them. -/
def CompletesArguments (bounds : Bounds) (w : List Terminal) (es : List Tree) : Prop :=
  ∀ us : List Token, us.map Token.terminal = w → ∀ t r, t.terminal = .operator ")" →
    plain (arguments bounds (us ++ t :: r)) = .ok (es, r)

section Sums

variable {ts us : List Terminal} {e : Tree} {es : List Tree}

theorem CompletesSum.single (h : Completes bounds .unary ts e) : CompletesSum bounds ts [e] := by
  intro as has r hr
  have hread : plain (unary bounds (as ++ r)) = .ok (e, r) := h.start_eq has (hr.mono (by decide))
  refine ⟨e, [], r, rfl, hread, ?_⟩
  rw [plain_summands, hr "+" (by decide)]

theorem CompletesSum.plus (h : Completes bounds .unary ts e) (hs : CompletesSum bounds us es) :
    CompletesSum bounds (ts ++ .operator "+" :: us) (e :: es) := by
  intro as has r hr
  obtain ⟨as, t, bs, rfl, ha, ht, hb⟩ := exists_of_map_eq_append_cons has
  obtain ⟨e', rest, r', rfl, hunary, hsummands⟩ := hs bs hb r hr
  have hread : plain (unary bounds (as ++ t :: (bs ++ r))) = .ok (e, t :: (bs ++ r)) :=
    h.start_eq ha (stops_of_terminal ht (by decide) _)
  refine ⟨e, e' :: rest, t :: (bs ++ r), rfl, by rwa [List.append_assoc], ?_⟩
  rw [plain_summands, after?_of_terminal ht]
  dsimp only
  rw [hunary]
  dsimp only [Except.bind]
  rw [hsummands]

theorem Completes.sum (h : CompletesSum bounds ts (e :: es)) :
    Completes bounds .additive ts (chain e es) := by
  intro as has r hr
  obtain ⟨e', rest, r', heq, hunary, hsummands⟩ := h as has r hr
  cases heq
  rw [start, plain_binary_zero, hunary]
  dsimp only [Except.bind]
  rw [hsummands]
  rfl

end Sums

section Calls

variable {ts us : List Terminal} {e : Tree} {es : List Tree}

theorem CompletesArguments.single (h : Completes bounds .conditional ts e) :
    CompletesArguments bounds ts [e] := by
  intro as has t r ht
  have hread : plain (conditional bounds (as ++ t :: r)) = .ok (e, t :: r) :=
    h.start_eq has (stops_of_terminal ht (by decide) _)
  rw [plain_arguments, hread]
  dsimp only [Except.bind]
  rw [after?_of_terminal ht]

theorem CompletesArguments.comma (h : Completes bounds .conditional ts e)
    (hs : CompletesArguments bounds us es) :
    CompletesArguments bounds (ts ++ .operator "," :: us) (e :: es) := by
  intro as has t r ht
  obtain ⟨as, u, bs, rfl, ha, hu, hb⟩ := exists_of_map_eq_append_cons has
  have hread : plain (conditional bounds (as ++ u :: (bs ++ t :: r))) =
      .ok (e, u :: (bs ++ t :: r)) :=
    h.start_eq ha (stops_of_terminal hu (by decide) _)
  rw [plain_arguments, List.append_assoc, List.cons_append, hread]
  dsimp only [Except.bind]
  rw [after?_of_other hu (by decide), after?_of_terminal hu]
  dsimp only
  rw [hs bs hb t r ht]

namespace Completes

theorem ofPrimary (h : Completes bounds .primary ts e) : Completes bounds .access ts e := by
  intro as has r hr
  have hread : plain (primary bounds (as ++ r)) = .ok (e, r) := h.start_eq has hr
  rw [start, access, hread]
  rfl

theorem member (h : Completes bounds .access ts e) (name : String) :
    Completes bounds .access (ts ++ [.operator ".", ⟨.name, name⟩]) (.member e name) := by
  intro as has r hr
  obtain ⟨as, t, bs, rfl, ha, ht, hb⟩ := exists_of_map_eq_append_cons has
  obtain ⟨n, bs, rfl, hn, hb⟩ := List.map_eq_cons_iff.1 hb
  cases List.map_eq_nil_iff.1 hb
  obtain ⟨hkind, htext⟩ : n.kind = .name ∧ n.text = name := by
    simpa only [Token.terminal, Terminal.mk.injEq] using hn
  rw [List.append_assoc, h as ha _ (fun s hs => by cases hs), goOn, goOn]
  rw [plain_postfixes, List.cons_append, after?_of_terminal ht]
  dsimp only [List.cons_append, List.nil_append]
  rw [hkind, htext]
  rfl

theorem call (h : Completes bounds .access ts e) :
    Completes bounds .access (ts ++ [.operator "(", .operator ")"]) (.call e []) := by
  intro as has r hr
  obtain ⟨as, t, bs, rfl, ha, ht, hb⟩ := exists_of_map_eq_append_cons has
  obtain ⟨u, bs, rfl, hu, hb⟩ := List.map_eq_cons_iff.1 hb
  cases List.map_eq_nil_iff.1 hb
  rw [List.append_assoc, h as ha _ (fun s hs => by cases hs), goOn, goOn]
  rw [plain_postfixes, List.cons_append, after?_of_other ht (by decide), after?_of_terminal ht]
  dsimp only [List.cons_append, List.nil_append]
  rw [after?_of_terminal hu]

theorem callWith (h : Completes bounds .access ts e) (hs : CompletesArguments bounds us es)
    (hhead : ∃ t vs, us = t :: vs ∧ t ≠ .operator ")") :
    Completes bounds .access (ts ++ .operator "(" :: (us ++ [.operator ")"])) (.call e es) := by
  intro as has r hr
  obtain ⟨as, t, cs, rfl, ha, ht, hcs⟩ := exists_of_map_eq_append_cons has
  obtain ⟨bs, u, cs, rfl, hb, hu, hc⟩ := exists_of_map_eq_append_cons hcs
  cases List.map_eq_nil_iff.1 hc
  obtain ⟨x, vs, rfl, hx⟩ := hhead
  obtain ⟨b, bs, rfl, rfl, hbs⟩ := List.map_eq_cons_iff.1 hb
  have happ : as ++ t :: (b :: bs ++ [u]) ++ r = as ++ t :: b :: (bs ++ u :: r) := by simp
  rw [happ, h as ha _ (fun s hs => by cases hs), goOn, goOn]
  rw [plain_postfixes, after?_of_other ht (by decide), after?_of_terminal ht]
  dsimp only
  rw [after?_of_terminal_ne hx]
  dsimp only
  rw [show plain (arguments bounds (b :: (bs ++ u :: r))) = .ok (es, r) from
    hs (b :: bs) hb u r hu]
  rfl

end Completes

end Calls

namespace Completes

variable {ts : List Terminal} {e : Tree}

theorem ofAccess (h : Completes bounds .access ts e)
    (hhead : ∃ t us, ts = t :: us ∧ t ≠ .operator "!") : Completes bounds .unary ts e := by
  intro as has r hr
  obtain ⟨x, us, rfl, hx⟩ := hhead
  obtain ⟨a, as, rfl, rfl, hbs⟩ := List.map_eq_cons_iff.1 has
  have hread := h.start_eq has hr
  rw [start, plain_unary, List.cons_append, after?_of_terminal_ne hx]
  exact hread

theorem not (h : Completes bounds .unary ts e) :
    Completes bounds .unary (.operator "!" :: ts) (.not e) := by
  intro as has r hr
  obtain ⟨t, as, rfl, ht, hbs⟩ := List.map_eq_cons_iff.1 has
  have hread : plain (unary bounds (as ++ r)) = .ok (e, r) := h.start_eq hbs hr
  rw [start, plain_unary, List.cons_append, after?_of_terminal ht]
  dsimp only
  rw [hread]
  rfl

theorem group (h : Completes bounds .conditional ts e) :
    Completes bounds .primary (.operator "(" :: (ts ++ [.operator ")"])) e := by
  intro as has r hr
  obtain ⟨t, as, rfl, ht, hbs⟩ := List.map_eq_cons_iff.1 has
  obtain ⟨bs, u, cs, rfl, hb, hu, hc⟩ := exists_of_map_eq_append_cons hbs
  cases List.map_eq_nil_iff.1 hc
  have hread : plain (conditional bounds (bs ++ u :: r)) = .ok (e, u :: r) :=
    h.start_eq hb (stops_of_terminal hu (by decide) _)
  have happ : t :: (bs ++ [u]) ++ r = t :: (bs ++ u :: r) := by simp
  rw [start, plain_primary, happ, after?_of_terminal ht]
  dsimp only
  rw [hread]
  dsimp only [Except.bind]
  rw [after?_of_terminal hu]
  rfl

/-- A single token that is no operator is read as the atom it is. -/
theorem atom {x : Terminal} (hx : x.kind ≠ .operator)
    (h : ∀ t : Token, t.terminal = x → Parser.atom bounds t = .ok e) :
    Completes bounds .primary [x] e := by
  intro as has r hr
  obtain ⟨t, as, rfl, ht, hbs⟩ := List.map_eq_cons_iff.1 has
  cases List.map_eq_nil_iff.1 hbs
  have hne : t.terminal ≠ .operator "(" := by
    rw [ht]
    rintro rfl
    exact hx rfl
  rw [start, plain_primary, List.cons_append, after?_of_terminal_ne hne]
  dsimp only [List.nil_append]
  rw [h t ht]
  rfl

end Completes

end Parser

open Expression.Parser

variable {bounds : Bounds}

/-! ### The induction over derivations -/

mutual

theorem Derives.completes {n : Nonterminal} {w : List Terminal} {e : Tree} :
    Derives n w e → AllFit bounds.digits w → Completes bounds n w e
  | .ofOr h, hw => (h.completes hw).ofOr
  | .choice htest hyes hno, hw =>
    (htest.completes hw.before).choice (hyes.completes hw.after.before)
      (hno.completes hw.after.after)
  | .ofAnd h, hw => .operand 2 (by decide) (h.completes hw)
  | .ofEquality h, hw => .operand 1 (by decide) (h.completes hw)
  | .ofAdditive h, hw => .operand 0 (by decide) (h.completes hw)
  | .or hl hr, hw =>
    .operation 2 .or (by decide) (by decide) (by decide) (hl.completes hw.before)
      (hr.completes hw.after)
  | .and hl hr, hw =>
    .operation 1 .and (by decide) (by decide) (by decide) (hl.completes hw.before)
      (hr.completes hw.after)
  | .equal hl hr, hw =>
    .operation 0 .equal (by decide) (by decide) (by decide) (hl.completes hw.before)
      (hr.completes hw.after)
  | .unequal hl hr, hw =>
    .operation 0 .unequal (by decide) (by decide) (by decide) (hl.completes hw.before)
      (hr.completes hw.after)
  | .ofUnary h, hw => Completes.sum (.single (h.completes hw))
  | .sum h, hw => Completes.sum (h.completes hw)
  | .ofAccess h, hw => (h.completes hw).ofAccess (by
      -- no access starts with `!`, so it is not taken for a negation
      obtain ⟨t, us, rfl, ht⟩ := h.head
      exact ⟨t, us, rfl, ht.2 (.inl rfl)⟩)
  | .not h, hw => (h.completes hw.tail).not
  | .ofPrimary h, hw => (h.completes hw).ofPrimary
  | .member h name, hw => (h.completes hw.before).member name
  | .call h, hw => (h.completes hw.before).call
  | .callWith h hs, hw => (h.completes hw.before).callWith (hs.completes hw.after.before) (by
      -- no argument starts with `)`, so the call is not taken for one without arguments
      obtain ⟨t, us, rfl, ht⟩ := hs.head
      exact ⟨t, us, rfl, ht.1⟩)
  | .string hk h, _ => Completes.atom (by simp [hk]) (by
      rintro t rfl
      simp only [Token.terminal_kind] at hk
      simp only [Parser.atom, hk]
      rw [show Text.unescape (String.ofList (t.text.toList.drop 1).dropLast) = .ok _ from h])
  | .number _, hw => Completes.atom (by simp) (by
      rintro ⟨kind, _, position⟩ ht
      cases ht
      have hshort : Number.isTooLong bounds.digits _ = false := hw.head rfl
      rw [Parser.atom]
      dsimp only
      rw [hshort]
      rfl)
  | .yes, _ | .no, _ | .null, _ | .name _, _ => Completes.atom (by simp) (by
      rintro ⟨kind, _, position⟩ ht
      cases ht
      rfl)
  | .group h, hw => (h.completes hw.tail.before).group

theorem DerivesSum.completes {w : List Terminal} {es : List Tree} :
    DerivesSum w es → AllFit bounds.digits w → CompletesSum bounds w es
  | .single h, hw => .single (h.completes hw)
  | .plus h hs, hw => .plus (h.completes hw.before) (hs.completes hw.after)

theorem DerivesArguments.completes {w : List Terminal} {es : List Tree} :
    DerivesArguments w es → AllFit bounds.digits w → CompletesArguments bounds w es
  | .single h, hw => .single (h.completes hw)
  | .comma h hs, hw => .comma (h.completes hw.before) (hs.completes hw.after)

end

/-- Tokens that are derived as a whole, and within the limit, are read as a whole. -/
theorem whole_of_derives (bounds : Bounds) {ts : List Token} {e : Tree}
    (h : Derives .conditional (ts.map Token.terminal) e)
    (hfit : AllFit bounds.digits (ts.map Token.terminal)) : whole bounds ts = .ok e := by
  have hread : plain (conditional bounds (ts ++ [])) = .ok (e, []) :=
    (h.completes hfit).start_eq rfl (stops_nil _)
  rw [List.append_nil] at hread
  obtain ⟨x, us, hts, -⟩ := h.head
  obtain ⟨t, r, rfl, -, -⟩ := List.map_eq_cons_iff.1 hts
  rw [whole_eq]
  dsimp only
  rw [hread]
  rfl

/-- Given terminals are within some limit. -/
theorem exists_allFit (w : List Terminal) : ∃ limit, AllFit limit w := by
  induction w with
  | nil => exact ⟨0, allFit_nil⟩
  | cons t w ih =>
    obtain ⟨limit, hw⟩ := ih
    refine ⟨max limit t.text.length, allFit_cons.2 ⟨?_, fun u hu hk => ?_⟩⟩
    · intro _
      simp only [Number.isTooLong, Bool.and_eq_false_iff, decide_eq_false_iff_not]
      exact .inr (Nat.not_lt.2 (Nat.le_max_right _ _))
    · have hu := hw u hu hk
      simp only [Number.isTooLong, Bool.and_eq_false_iff, decide_eq_false_iff_not] at hu ⊢
      exact hu.imp_right (by omega)

/-- At most one tree is derived from given terminals. -/
theorem Derives.unique {w : List Terminal} {e₁ e₂ : Tree} (h₁ : Derives .conditional w e₁)
    (h₂ : Derives .conditional w e₂) : e₁ = e₂ := by
  -- with a limit that they are within, any tokens with these terminals are read as both trees
  obtain ⟨limit, hfit⟩ := exists_allFit w
  obtain ⟨ts, rfl⟩ : ∃ ts : List Token, ts.map Token.terminal = w :=
    ⟨w.map fun x => ⟨x.kind, x.text, 0⟩, by simp [Function.comp_def, Token.terminal]⟩
  have h := (whole_of_derives ⟨0, limit⟩ h₁ hfit).symm.trans (whole_of_derives ⟨0, limit⟩ h₂ hfit)
  cases h
  rfl

/-- The tokens of a text are read as a tree exactly when they derive it and none of them is an
integer of too many digits. -/
theorem parse_eq_ok_iff_of_scan {source : String} {s : Scanned} (hs : scan source = .ok s)
    {e : Tree} : parse source = .ok e ↔ Derives .conditional (s.tokens.map Token.terminal) e ∧
      AllFit Decimal.maxDigits (s.tokens.map Token.terminal) := by
  rw [parse, hs]
  constructor
  · intro h
    refine ⟨derives_of_whole (keywordsOnly_of_scan hs) h, ?_⟩
    exact List.forall_mem_map.2 (fits_of_whole h)
  · rintro ⟨hderives, hfit⟩
    exact whole_of_derives _ hderives hfit

/-- A single integer of too many digits is not read. -/
theorem whole_of_tooLong (bounds : Bounds) {text : String}
    (h : Number.isTooLong bounds.digits text = true) (position : Nat) :
    whole bounds [⟨.number, text, position⟩] = .error (.tooLong bounds.digits text.length) := by
  have hafter (symbol : String) : after? symbol [⟨.number, text, position⟩] = none := rfl
  have hprimary : plain (primary bounds [⟨.number, text, position⟩]) =
      .error (.tooLong bounds.digits text.length) := by
    rw [plain_primary, hafter]
    dsimp only
    rw [Parser.atom]
    dsimp only
    rw [if_pos h]
    rfl
  have hunary : plain (unary bounds [⟨.number, text, position⟩]) =
      .error (.tooLong bounds.digits text.length) := by
    rw [plain_unary, hafter]
    dsimp only
    rw [access, hprimary]
    rfl
  rw [whole_eq]
  dsimp only
  rw [plain_conditional, plain_binary_succ, plain_binary_succ, plain_binary_succ, plain_binary_zero,
    hunary]
  rfl

/-- For a text that can be scanned, reading it gives a tree exactly when its tokens derive that tree
and none of them is an integer of too many digits; and no terminals derive two trees. -/
theorem parse_eq_ok_iff_derives {source : String} {s : Scanned} (hs : scan source = .ok s) :
    (∀ e, parse source = .ok e ↔ Derives .conditional (s.tokens.map Token.terminal) e ∧
      AllFit Decimal.maxDigits (s.tokens.map Token.terminal)) ∧
      ∀ w e₁ e₂, Derives .conditional w e₁ → Derives .conditional w e₂ → e₁ = e₂ :=
  ⟨fun _ => parse_eq_ok_iff_of_scan hs, fun _ _ _ => Derives.unique⟩

/-- The tokens of `!a.f(b)+"x"?c:d` derive a conditional whose test is a sum of two operands. -/
theorem derives_conditional_of_sum :
    scan "!a.f(b)+\"x\"?c:d" = .ok ⟨[⟨.operator, "!", 0⟩, ⟨.name, "a", 1⟩, ⟨.operator, ".", 2⟩,
      ⟨.name, "f", 3⟩, ⟨.operator, "(", 4⟩, ⟨.name, "b", 5⟩, ⟨.operator, ")", 6⟩,
      ⟨.operator, "+", 7⟩, ⟨.string, "\"x\"", 8⟩, ⟨.operator, "?", 11⟩, ⟨.name, "c", 12⟩,
      ⟨.operator, ":", 13⟩, ⟨.name, "d", 14⟩], ⟨.finish, "", 15⟩⟩ ∧
    Derives .conditional [.operator "!", ⟨.name, "a"⟩, .operator ".", ⟨.name, "f"⟩, .operator "(",
      ⟨.name, "b"⟩, .operator ")", .operator "+", ⟨.string, "\"x\""⟩, .operator "?", ⟨.name, "c"⟩,
      .operator ":", ⟨.name, "d"⟩]
      (.conditional (.concat [.not (.call (.member (.name "a") "f") [.name "b"]), .string "x"])
        (.name "c") (.name "d")) := by
  have hs : scan "!a.f(b)+\"x\"?c:d" = .ok ⟨[⟨.operator, "!", 0⟩, ⟨.name, "a", 1⟩,
      ⟨.operator, ".", 2⟩, ⟨.name, "f", 3⟩, ⟨.operator, "(", 4⟩, ⟨.name, "b", 5⟩,
      ⟨.operator, ")", 6⟩, ⟨.operator, "+", 7⟩, ⟨.string, "\"x\"", 8⟩, ⟨.operator, "?", 11⟩,
      ⟨.name, "c", 12⟩, ⟨.operator, ":", 13⟩, ⟨.name, "d", 14⟩], ⟨.finish, "", 15⟩⟩ := by
    with_unfolding_all rfl
  exact ⟨hs, (((parse_eq_ok_iff_derives hs).1 _).1 (by with_unfolding_all rfl)).1⟩

/-- An integer of one digit more than can be read. -/
def longInteger : String :=
  String.ofList (List.replicate (Decimal.maxDigits + 1) '1')

/-- An integer of too many digits is an expression of the grammar and is not read. -/
theorem parse_longInteger :
    scan longInteger = .ok ⟨[⟨.number, longInteger, 0⟩], ⟨.finish, "", Decimal.maxDigits + 1⟩⟩ ∧
      Derives .conditional [⟨.number, longInteger⟩] (.number (Number.ofText longInteger)) ∧
      parse longInteger = .error (.tooLong Decimal.maxDigits (Decimal.maxDigits + 1)) := by
  rw [longInteger, parse]
  -- the limit is a large number, which is not to be computed with
  generalize Decimal.maxDigits = limit
  have hscan := scan_replicate_one limit
  have hlength : (String.ofList (List.replicate (limit + 1) '1')).length = limit + 1 := by simp
  have hlong : Number.isTooLong limit (String.ofList (List.replicate (limit + 1) '1')) = true := by
    rw [Number.isTooLong, hlength, String.toList_ofList]
    simp
  refine ⟨hscan, .ofOr (.or_of_primary (.number _)), ?_⟩
  rw [hscan]
  dsimp only
  rw [whole_of_tooLong ⟨limit + 1, limit⟩ hlong, hlength]

end ConditionalStyle.Expression
