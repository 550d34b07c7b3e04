import ConditionalStyle.Proofs.Expression.Reading
import ConditionalStyle.Proofs.Expression.Scanning

/-!
# What is read is derived

Each reading function takes a prefix of its tokens whose terminals its nonterminal derives, with
the tree that it returns. The two functions that continue a tree already read extend the
derivation of that tree to the right.

The tokens are assumed to be such that every keyword is one of the three of the language, as it is
for the tokens of a text (`keywordsOnly_of_scan`).

## Main statements

* `Parser.conditional_sound`, and its companions for the other functions.
* `derives_of_whole`: a list of tokens that is read as a whole is derived as a whole.
-/

namespace ConditionalStyle.Expression

namespace Parser

/-! ### Operators -/

theorem eq_cons_of_after? {symbol : String} {ts r : List Token} (h : after? symbol ts = some r) :
    ∃ t, ts = t :: r ∧ t.terminal = .operator symbol := by
  cases ts with
  | nil => cases h
  | cons t rest =>
    simp only [after?] at h
    split at h
    · next ht =>
      cases h
      exact ⟨t, rfl, Token.isOperator_iff.1 ht⟩
    · cases h

/-- The nonterminal of a level of binary operators; level zero is that of sums. -/
def nonterminal : Nat → Nonterminal
  | 0 => .additive
  | 1 => .equality
  | 2 => .and
  | _ => .or

theorem derives_operand {level : Nat} (hl : level < 3) {ts : List Terminal} {e : Tree}
    (h : Derives (nonterminal level) ts e) : Derives (nonterminal (level + 1)) ts e := by
  match level with
  | 0 => exact .ofAdditive h
  | 1 => exact .ofEquality h
  | 2 => exact .ofAnd h

theorem derives_operation {level : Nat} (hl : level < 3) {op : Operator}
    (ho : op ∈ levelSymbols (level + 1)) {ts us : List Terminal} {l r : Tree}
    (h : Derives (nonterminal (level + 1)) ts l) (h' : Derives (nonterminal level) us r) :
    Derives (nonterminal (level + 1)) (ts ++ .operator op.symbol :: us) (.binary op l r) := by
  match level with
  | 0 =>
    simp only [levelSymbols, List.mem_cons, List.not_mem_nil, or_false] at ho
    rcases ho with rfl | rfl
    · exact .equal h h'
    · exact .unequal h h'
  | 1 =>
    cases List.mem_singleton.1 ho
    exact .and h h'
  | 2 =>
    cases List.mem_singleton.1 ho
    exact .or h h'

theorem eq_cons_of_afterLevel? {level : Nat} {ts r : List Token} {op : Operator}
    (h : afterLevel? level ts = some (op, r)) :
    ∃ t, ts = t :: r ∧ t.terminal = .operator op.symbol ∧ op ∈ levelSymbols level := by
  cases ts with
  | nil => cases h
  | cons t rest =>
    obtain ⟨op', hf, heq⟩ := Option.map_eq_some_iff.1 h
    cases heq
    have ht : t.isOperator op.symbol = true := by simpa using List.find?_some hf
    exact ⟨t, rfl, Token.isOperator_iff.1 ht, List.mem_of_find?_eq_some hf⟩

/-! ### Atoms -/

theorem derives_of_atom {bounds : Bounds} {t : Token} {e : Tree}
    (hk : t.kind = .keyword → t.text ∈ keywords) (h : atom bounds t = .ok e) :
    Derives .primary [t.terminal] e := by
  obtain ⟨kind, text, position⟩ := t
  cases kind with
  | string =>
    simp only [atom] at h
    split at h
    · next s hs =>
      cases h
      exact .string rfl hs
    · cases h
  | number =>
    simp only [atom] at h
    split at h
    · cases h
    · cases h
      exact .number text
  | keyword =>
    have hmem := hk rfl
    simp only [keywords, List.mem_cons, List.not_mem_nil, or_false] at hmem
    rcases hmem with rfl | rfl | rfl
    · cases h
      exact .yes
    · cases h
      exact .no
    · cases h
      exact .null
  | name =>
    cases h
    exact .name text
  | operator | finish => cases h

/-! ### The reading functions -/

/-- A nonterminal derives, with the given tree, what the tokens have before the given rest. -/
def Taken (n : Nonterminal) (ts : List Token) (e : Tree) (r : List Token) : Prop :=
  ∃ us, ts = us ++ r ∧ Derives n (us.map Token.terminal) e

/-- The same for tokens that go on with a derivation whenever some tokens before them have one. -/
def TakenAfter (n : Nonterminal) (left : Tree) (ts : List Token) (e : Tree) (r : List Token) :
    Prop :=
  ∃ us, ts = us ++ r ∧ ∀ {vs}, Derives n vs left → Derives n (vs ++ us.map Token.terminal) e

variable {bounds : Bounds}

-- As for the functions themselves, the measure is the number of tokens, and then the level: a level
-- may hand all its tokens to a tighter one.
mutual

theorem conditional_sound {ts r : List Token} {e : Tree} (hts : KeywordsOnly ts)
    (h : plain (conditional bounds ts) = .ok (e, r)) : Taken .conditional ts e r := by
  rw [plain_conditional, bind_eq_ok_iff] at h
  obtain ⟨⟨test, r₀⟩, h₀, h⟩ := h
  have hlt := property_of_plain h₀
  obtain ⟨us, rfl, hd⟩ := binary_sound (Nat.le_refl 3) hts h₀
  cases hq : after? "?" r₀ with
  | none =>
    simp only [hq] at h
    cases h
    exact ⟨us, rfl, .ofOr hd⟩
  | some r₁ =>
    simp only [hq, bind_eq_ok_iff] at h
    obtain ⟨⟨yes, r₂⟩, h₁, h⟩ := h
    obtain ⟨t, rfl, ht⟩ := eq_cons_of_after? hq
    have hlt₁ := property_of_plain h₁
    simp only [List.length_append, List.length_cons] at hlt
    obtain ⟨vs, rfl, hd₁⟩ := conditional_sound (hts.suffix ⟨us ++ [t], by simp⟩) h₁
    cases hc : after? ":" r₂ with
    | none =>
      simp only [hc] at h
      cases h
    | some r₃ =>
      simp only [hc, bind_eq_ok_iff] at h
      obtain ⟨⟨no, r₄⟩, h₂, h⟩ := h
      cases h
      obtain ⟨u, rfl, hu⟩ := eq_cons_of_after? hc
      simp only [List.length_append, List.length_cons] at hlt hlt₁
      obtain ⟨ws, rfl, hd₂⟩ := conditional_sound (hts.suffix ⟨us ++ t :: vs ++ [u], by simp⟩) h₂
      refine ⟨us ++ t :: (vs ++ u :: ws), by simp, ?_⟩
      simpa [ht, hu] using Derives.choice hd hd₁ hd₂
termination_by (ts.length, 9)

theorem binary_sound {level : Nat} (hl : level ≤ 3) {ts r : List Token} {e : Tree}
    (hts : KeywordsOnly ts) (h : plain (binary bounds level ts) = .ok (e, r)) :
    Taken (nonterminal level) ts e r := by
  match level with
  | 0 =>
    rw [plain_binary_zero, bind_eq_ok_iff] at h
    obtain ⟨⟨first, r₀⟩, h₀, h⟩ := h
    obtain ⟨⟨rest, r₁⟩, h₁, h⟩ := bind_eq_ok_iff.1 h
    cases h
    have hlt := property_of_plain h₀
    obtain ⟨us, rfl, hd⟩ := unary_sound hts h₀
    obtain ⟨vs, rfl, hs⟩ := summands_sound (hts.suffix ⟨us, rfl⟩) h₁
    refine ⟨us ++ vs, by simp, ?_⟩
    rw [List.map_append]
    exact (hs hd).1
  | level + 1 =>
    rw [plain_binary_succ, bind_eq_ok_iff] at h
    obtain ⟨⟨left, r₀⟩, h₀, h⟩ := h
    have hlt := property_of_plain h₀
    obtain ⟨us, rfl, hd⟩ := binary_sound (by omega) hts h₀
    obtain ⟨vs, rfl, hs⟩ := binaryRest_sound hl (hts.suffix ⟨us, rfl⟩) h
    refine ⟨us ++ vs, by simp, ?_⟩
    rw [List.map_append]
    exact hs (derives_operand hl hd)
termination_by (ts.length, level + 3)

theorem binaryRest_sound {level : Nat} (hl : level < 3) {left : Tree} {ts r : List Token} {e : Tree}
    (hts : KeywordsOnly ts) (h : plain (binaryRest bounds level left ts) = .ok (e, r)) :
    TakenAfter (nonterminal (level + 1)) left ts e r := by
  rw [plain_binaryRest] at h
  cases ho : afterLevel? (level + 1) ts with
  | none =>
    simp only [ho] at h
    cases h
    exact ⟨[], rfl, fun hd => by simpa using hd⟩
  | some x =>
    obtain ⟨op, r₀⟩ := x
    simp only [ho, bind_eq_ok_iff] at h
    obtain ⟨⟨right, r₁⟩, h₁, h⟩ := h
    obtain ⟨t, rfl, ht, hop⟩ := eq_cons_of_afterLevel? ho
    have hlt := property_of_plain h₁
    obtain ⟨us, rfl, hd⟩ := binary_sound (by omega) (hts.suffix ⟨[t], by simp⟩) h₁
    obtain ⟨vs, rfl, hs⟩ := binaryRest_sound hl (hts.suffix ⟨t :: us, by simp⟩) h
    refine ⟨t :: (us ++ vs), by simp, fun {ws} hw => ?_⟩
    simpa [ht] using hs (derives_operation hl hop hw hd)
termination_by (ts.length, 0)

theorem summands_sound {ts r : List Token} {es : List Tree} (hts : KeywordsOnly ts)
    (h : plain (summands bounds ts) = .ok (es, r)) :
    ∃ us, ts = us ++ r ∧ ∀ {vs e}, Derives .unary vs e →
      Derives .additive (vs ++ us.map Token.terminal) (chain e es) ∧
      DerivesSum (vs ++ us.map Token.terminal) (e :: es) := by
  rw [plain_summands] at h
  cases hp : after? "+" ts with
  | none =>
    simp only [hp] at h
    cases h
    refine ⟨[], rfl, fun hd => ?_⟩
    rw [List.map_nil, List.append_nil]
    exact ⟨.ofUnary hd, .single hd⟩
  | some r₀ =>
    simp only [hp, bind_eq_ok_iff] at h
    obtain ⟨⟨e, r₁⟩, h₁, ⟨rest, r₂⟩, h₂, h⟩ := h
    cases h
    obtain ⟨t, rfl, ht⟩ := eq_cons_of_after? hp
    have hlt := property_of_plain h₁
    obtain ⟨us, rfl, hd⟩ := unary_sound (hts.suffix ⟨[t], by simp⟩) h₁
    obtain ⟨vs, rfl, hs⟩ := summands_sound (hts.suffix ⟨t :: us, by simp⟩) h₂
    refine ⟨t :: (us ++ vs), by simp, fun {ws e'} hw => ?_⟩
    have hsum := DerivesSum.plus hw (hs hd).2
    rw [List.map_cons, List.map_append, ht]
    exact ⟨.sum hsum, hsum⟩
termination_by (ts.length, 0)

theorem unary_sound {ts r : List Token} {e : Tree} (hts : KeywordsOnly ts)
    (h : plain (unary bounds ts) = .ok (e, r)) : Taken .unary ts e r := by
  rw [plain_unary] at h
  cases hn : after? "!" ts with
  | some r₀ =>
    simp only [hn, bind_eq_ok_iff] at h
    obtain ⟨⟨t, r₁⟩, h₁, h⟩ := h
    cases h
    obtain ⟨u, rfl, hu⟩ := eq_cons_of_after? hn
    obtain ⟨us, rfl, hd⟩ := unary_sound (hts.suffix ⟨[u], by simp⟩) h₁
    refine ⟨u :: us, rfl, ?_⟩
    rw [List.map_cons, hu]
    exact .not hd
  | none =>
    simp only [hn, access, bind_eq_ok_iff] at h
    obtain ⟨⟨t, r₀⟩, h₀, h⟩ := h
    have hlt := property_of_plain h₀
    obtain ⟨us, rfl, hd⟩ := primary_sound hts h₀
    obtain ⟨vs, rfl, hs⟩ := postfixes_sound (hts.suffix ⟨us, rfl⟩) h
    refine ⟨us ++ vs, by simp, ?_⟩
    rw [List.map_append]
    exact .ofAccess (hs (.ofPrimary hd))
termination_by (ts.length, 2)

theorem postfixes_sound {left : Tree} {ts r : List Token} {e : Tree} (hts : KeywordsOnly ts)
    (h : plain (postfixes bounds left ts) = .ok (e, r)) : TakenAfter .access left ts e r := by
  rw [plain_postfixes] at h
  cases hdot : after? "." ts with
  | some r₀ =>
    obtain ⟨t, rfl, ht⟩ := eq_cons_of_after? hdot
    cases r₀ with
    | nil =>
      simp only [hdot] at h
      cases h
    | cons n r₁ =>
      simp only [hdot] at h
      split at h
      · next hn =>
        obtain ⟨us, rfl, hs⟩ := postfixes_sound (hts.suffix ⟨[t, n], by simp⟩) h
        refine ⟨t :: n :: us, rfl, fun {vs} hv => ?_⟩
        have hname : n.terminal = ⟨.name, n.text⟩ := by
          rw [Token.terminal, eq_of_beq hn]
        simpa [ht, hname] using hs (.member hv n.text)
      · cases h
  | none =>
    cases hopen : after? "(" ts with
    | none =>
      simp only [hdot, hopen] at h
      cases h
      exact ⟨[], rfl, fun hd => by simpa using hd⟩
    | some r₀ =>
      obtain ⟨t, rfl, ht⟩ := eq_cons_of_after? hopen
      cases hclose : after? ")" r₀ with
      | some r₁ =>
        simp only [hdot, hopen, hclose] at h
        obtain ⟨u, rfl, hu⟩ := eq_cons_of_after? hclose
        obtain ⟨us, rfl, hs⟩ := postfixes_sound (hts.suffix ⟨[t, u], by simp⟩) h
        refine ⟨t :: u :: us, rfl, fun {vs} hv => ?_⟩
        simpa [ht, hu] using hs (.call hv)
      | none =>
        simp only [hdot, hopen, hclose, bind_eq_ok_iff] at h
        obtain ⟨⟨args, r₁⟩, h₁, h⟩ := h
        have hlt := property_of_plain h₁
        obtain ⟨us, u, rfl, hu, ha⟩ := arguments_sound (hts.suffix ⟨[t], by simp⟩) h₁
        obtain ⟨vs, rfl, hs⟩ := postfixes_sound (hts.suffix ⟨t :: us ++ [u], by simp⟩) h
        refine ⟨t :: (us ++ u :: vs), by simp, fun {ws} hw => ?_⟩
        simpa [ht, hu] using hs (.callWith hw ha)
termination_by (ts.length, 0)

theorem arguments_sound {ts r : List Token} {es : List Tree} (hts : KeywordsOnly ts)
    (h : plain (arguments bounds ts) = .ok (es, r)) :
    ∃ us u, ts = us ++ u :: r ∧ u.terminal = .operator ")" ∧
      DerivesArguments (us.map Token.terminal) es := by
  rw [plain_arguments, bind_eq_ok_iff] at h
  obtain ⟨⟨e, r₀⟩, h₀, h⟩ := h
  have hlt := property_of_plain h₀
  obtain ⟨us, rfl, hd⟩ := conditional_sound hts h₀
  cases hclose : after? ")" r₀ with
  | some r₁ =>
    simp only [hclose] at h
    cases h
    obtain ⟨u, rfl, hu⟩ := eq_cons_of_after? hclose
    exact ⟨us, u, rfl, hu, .single hd⟩
  | none =>
    cases hcomma : after? "," r₀ with
    | none =>
      simp only [hclose, hcomma] at h
      cases h
    | some r₁ =>
      simp only [hclose, hcomma, bind_eq_ok_iff] at h
      obtain ⟨⟨rest, r₂⟩, h₁, h⟩ := h
      cases h
      obtain ⟨t, rfl, ht⟩ := eq_cons_of_after? hcomma
      simp only [List.length_append, List.length_cons] at hlt
      obtain ⟨vs, u, rfl, hu, ha⟩ := arguments_sound (hts.suffix ⟨us ++ [t], by simp⟩) h₁
      refine ⟨us ++ t :: vs, u, by simp, hu, ?_⟩
      rw [List.map_append, List.map_cons, ht]
      exact .comma hd ha
termination_by (ts.length, 10)

theorem primary_sound {ts r : List Token} {e : Tree} (hts : KeywordsOnly ts)
    (h : plain (primary bounds ts) = .ok (e, r)) : Taken .primary ts e r := by
  rw [plain_primary] at h
  cases hopen : after? "(" ts with
  | some r₀ =>
    simp only [hopen, bind_eq_ok_iff] at h
    obtain ⟨⟨t, r₁⟩, h₁, h⟩ := h
    obtain ⟨u, rfl, hu⟩ := eq_cons_of_after? hopen
    obtain ⟨us, rfl, hd⟩ := conditional_sound (hts.suffix ⟨[u], by simp⟩) h₁
    cases hclose : after? ")" r₁ with
    | none =>
      simp only [hclose] at h
      cases h
    | some r₂ =>
      simp only [hclose] at h
      cases h
      obtain ⟨v, rfl, hv⟩ := eq_cons_of_after? hclose
      refine ⟨u :: (us ++ [v]), by simp, ?_⟩
      simpa [hu, hv] using Derives.group hd
  | none =>
    cases ts with
    | nil =>
      simp only [hopen] at h
      cases h
    | cons t rest =>
      simp only [hopen, bind_eq_ok_iff] at h
      obtain ⟨tree, hatom, h⟩ := h
      cases h
      exact ⟨[t], rfl, derives_of_atom (hts t List.mem_cons_self) hatom⟩
termination_by (ts.length, 1)

end

end Parser

/-- Tokens that are read as a whole are derived as a whole. -/
theorem derives_of_whole {bounds : Parser.Bounds} {ts : List Token} {e : Tree}
    (hts : KeywordsOnly ts) (h : Parser.whole bounds ts = .ok e) :
    Derives .conditional (ts.map Token.terminal) e := by
  rw [Parser.whole_eq] at h
  cases ts with
  | nil => cases h
  | cons t r =>
    obtain ⟨⟨tree, rest⟩, h₀, h⟩ := bind_eq_ok_iff.1 h
    cases rest with
    | nil =>
      cases h
      obtain ⟨us, hus, hd⟩ := Parser.conditional_sound hts h₀
      rwa [hus, List.append_nil]
    | cons u us => cases h

end ConditionalStyle.Expression
