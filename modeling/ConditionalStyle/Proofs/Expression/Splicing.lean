import ConditionalStyle.Proofs.Expression.Completeness
import ConditionalStyle.Proofs.Text.Lexeme
import ConditionalStyle.Proofs.Text.Literal

/-!
# Texts that can be put next to each other

Two texts put next to each other may have other terminals than they have apart: a name goes on, a
number gets a fraction. A text is *solid* if this cannot happen to it at its end, whatever follows.
Blanks, string literals and most operators are solid, and so is every text in parentheses.

## Main definitions

* `Solid`: texts whose terminals do not depend on what follows.
* `Reads`: texts with a tree.

## Main statements

* `Lexed.append`: a parenthesis ends the terminals before it.
* `solid_group`, `solid_quote`: parentheses and string literals.
* `parse_eq_ok_iff_reads`: reading a text by its terminals.
-/

namespace ConditionalStyle.Expression

open Text

variable {a b : List Char} {ts us : List Terminal}

/-! ### Parentheses end lexemes -/

/-- A text that is empty or starts with a parenthesis. -/
def Bracketed (b : List Char) : Prop :=
  ∀ c, b.head? = some c → c = '(' ∨ c = ')'

theorem bracketed_cons {c : Char} (hc : c = '(' ∨ c = ')') (b : List Char) :
    Bracketed (c :: b) := by
  intro d hd
  cases hd
  exact hc

theorem Bracketed.ends {p : Char → Bool} (hb : Bracketed b) (hopen : p '(' = false)
    (hclose : p ')' = false) : Ends p b := by
  intro c hc
  rcases hb c hc with rfl | rfl
  · exact hopen
  · exact hclose

theorem blanksLength?_append (hb : Bracketed b) : blanksLength? (a ++ b) = blanksLength? a := by
  rw [blanksLength?, blanksLength?, runLength_append (hb.ends rfl rfl)]

theorem numberLength?_append (hb : Bracketed b) : numberLength? (a ++ b) = numberLength? a := by
  have hdigit : Ends isDigit b := hb.ends rfl rfl
  rw [numberLength?, numberLength?, runLength_append hdigit]
  rcases hrun : runLength isDigit a with _ | whole
  · rfl
  have hle : whole + 1 ≤ a.length := hrun ▸ runLength_le isDigit a
  dsimp only
  rw [List.drop_append_of_le_length hle]
  rcases a.drop (whole + 1) with _ | ⟨c, rest⟩
  · -- what follows the digits is `b`, which starts with no point
    rcases b with _ | ⟨c, b⟩
    · rfl
    · rcases hb c rfl with rfl | rfl <;> rfl
  · by_cases hc : c = '.'
    · subst hc
      simp only [List.cons_append, runLength_append hdigit]
    · simp only [List.cons_append]
      split
      · next h => exact absurd (List.cons.inj h).1 hc
      · split
        · next h => exact absurd (List.cons.inj h).1 hc
        · rfl

theorem operatorLength?_append (ha : a ≠ []) (hb : Bracketed b) :
    operatorLength? (a ++ b) = operatorLength? a := by
  rcases a with _ | ⟨c, _ | ⟨d, a⟩⟩
  · exact absurd rfl ha
  · rcases b with _ | ⟨d, b⟩
    · rfl
    · have hpair : pairOperators.contains (c, d) = false := by
        rcases hb d rfl with rfl | rfl <;> simp [pairOperators]
      simp only [List.singleton_append, operatorLength?, hpair, Bool.false_eq_true, ↓reduceIte]
  · rfl

theorem nameLength?_append (ha : a ≠ []) (hb : Bracketed b) :
    nameLength? (a ++ b) = nameLength? a := by
  rcases a with _ | ⟨c, a⟩
  · exact absurd rfl ha
  · simp only [List.cons_append, nameLength?, runLength_append (hb.ends (p := isNamePart) rfl rfl)]

/-- A text that starts with a quote has a lexeme only if a string ends in it. -/
theorem lexeme?_of_unclosed (h : quotedLength? '"' false ('"' :: a) = none) :
    lexeme? ('"' :: a) = none := by
  have hoperator : operatorLength? ('"' :: a) = none := by
    rcases a with _ | ⟨d, a⟩
    · rfl
    · simp [operatorLength?, pairOperators, singleOperators]
  simp only [lexeme?, h, hoperator]
  rfl

/-- A parenthesis ends the lexeme before it. -/
theorem lexeme?_append {x : Lexeme × Nat} (h : lexeme? a = some x) (hb : Bracketed b) :
    lexeme? (a ++ b) = some x := by
  rcases a with _ | ⟨c, a⟩
  · rw [lexeme?_nil] at h
    cases h
  have hquoted : quotedLength? '"' false (c :: a ++ b) = quotedLength? '"' false (c :: a) := by
    by_cases hc : c = '"'
    · subst hc
      rcases hq : quotedLength? '"' false ('"' :: a) with _ | n
      · rw [lexeme?_of_unclosed hq] at h
        cases h
      · exact quotedLength?_append hq b
    · rw [List.cons_append, quotedLength?_of_ne hc, quotedLength?_of_ne hc]
  rw [lexeme?, blanksLength?_append hb, hquoted, numberLength?_append hb,
    operatorLength?_append (List.cons_ne_nil c a) hb, nameLength?_append (List.cons_ne_nil c a) hb]
  exact h

/-! ### A lexeme lies within its text -/

theorem blanksLength?_le {n : Nat} (h : blanksLength? a = some n) : n ≤ a.length := by
  have hle := runLength_le isBlank a
  rw [blanksLength?] at h
  split at h
  · cases h
  · cases h
    omega

theorem numberLength?_le {n : Nat} (h : numberLength? a = some n) : n ≤ a.length := by
  have hle := runLength_le isDigit a
  rw [numberLength?] at h
  rcases hrun : runLength isDigit a with _ | whole
  · rw [hrun] at h
    cases h
  rw [hrun] at h hle
  dsimp only at h
  split at h
  · next rest hrest =>
    have hlength := congrArg List.length hrest
    have hfraction := runLength_le isDigit rest
    rw [List.length_drop, List.length_cons] at hlength
    split at h
    · cases h
      exact hle
    · cases h
      omega
  · cases h
    exact hle

theorem operatorLength?_le {n : Nat} (h : operatorLength? a = some n) : n ≤ a.length := by
  rw [operatorLength?.eq_def] at h
  repeat' split at h
  all_goals cases h
  all_goals simp

theorem nameLength?_le {n : Nat} (h : nameLength? a = some n) : n ≤ a.length := by
  rcases a with _ | ⟨c, a⟩
  · cases h
  have hle := runLength_le isNamePart a
  rw [nameLength?] at h
  split at h
  · cases h
    simp only [List.length_cons]
    omega
  · cases h

theorem lexeme?_le {l : Lexeme} {n : Nat} (h : lexeme? a = some (l, n)) : n ≤ a.length := by
  simp only [lexeme?, Option.orElse_eq_orElse, Option.orElse_eq_or, Option.or_eq_some_iff,
    Option.map_eq_some_iff, Prod.mk.injEq] at h
  rcases h with ⟨_, h, _, rfl⟩ | ⟨_, h⟩
  · exact blanksLength?_le h
  rcases h with ⟨_, h, _, rfl⟩ | ⟨_, h⟩
  · exact quotedLength?_le h
  rcases h with ⟨_, h, _, rfl⟩ | ⟨_, h⟩
  · exact numberLength?_le h
  rcases h with ⟨_, h, _, rfl⟩ | ⟨_, _, h, _, rfl⟩
  · exact operatorLength?_le h
  · exact nameLength?_le h

/-- A parenthesis ends the terminals before it. -/
theorem Lexed.append (ha : Lexed a ts) (hb : Bracketed b) (h : Lexed b us) :
    Lexed (a ++ b) (ts ++ us) := by
  induction ha with
  | nil => exact h
  | step hl hs ih =>
    next a l n ts =>
    have hle := lexeme?_le hl
    rw [List.append_assoc, ← List.take_append_of_le_length hle]
    refine .step (lexeme?_append hl hb) ?_
    rw [List.drop_append_of_le_length hle]
    exact ih

/-! ### Solid texts -/

/-- A text whose terminals do not depend on what follows. -/
def Solid (a : List Char) (ts : List Terminal) : Prop :=
  ∀ ⦃b us⦄, Lexed b us → Lexed (a ++ b) (ts ++ us)

theorem Solid.append (ha : Solid a ts) (hb : Solid b us) : Solid (a ++ b) (ts ++ us) := by
  intro c vs hc
  rw [List.append_assoc, List.append_assoc]
  exact ha (hb hc)

theorem Solid.lexed (h : Solid a ts) : Lexed a ts := by
  simpa using h .nil

theorem solid_of_lexeme? {l : Lexeme} (h : ∀ b, lexeme? (a ++ b) = some (l, a.length)) :
    Solid a (l.terminals a) := by
  intro b us hb
  have hrest : Lexed ((a ++ b).drop a.length) us := by rwa [List.drop_left]
  have hstep := Lexed.step (h b) hrest
  rwa [List.take_left] at hstep

/-- An operator of one character that starts none of two. -/
theorem lexeme?_operator {c : Char} (hc : c ∈ ['+', '?', ':', '.', ',', '(', ')'])
    (b : List Char) : lexeme? (c :: b) = some (.operator, 1) := by
  simp only [List.mem_cons, List.not_mem_nil, or_false] at hc
  rcases b with _ | ⟨d, b⟩
  · rcases hc with rfl | rfl | rfl | rfl | rfl | rfl | rfl <;> rfl
  · have hpair : pairOperators.contains (c, d) = false := by
      rcases hc with rfl | rfl | rfl | rfl | rfl | rfl | rfl <;> simp [pairOperators]
    have hoperator : operatorLength? (c :: d :: b) = some 1 := by
      rw [operatorLength?, hpair, if_neg Bool.false_ne_true, if_pos]
      rcases hc with rfl | rfl | rfl | rfl | rfl | rfl | rfl <;> rfl
    rw [lexeme?, hoperator]
    rcases hc with rfl | rfl | rfl | rfl | rfl | rfl | rfl <;> rfl

theorem solid_operator {c : Char} (hc : c ∈ ['+', '?', ':', '.', ',', '(', ')']) :
    Solid [c] [.operator (String.ofList [c])] :=
  solid_of_lexeme? (l := .operator) (lexeme?_operator hc)

theorem lexeme?_blank (b : List Char) :
    lexeme? (' ' :: b) = some (.blanks, runLength isBlank b + 1) := by
  have hrun : runLength isBlank (' ' :: b) = runLength isBlank b + 1 := rfl
  rw [lexeme?, blanksLength?, hrun]
  rfl

/-- A space is solid even before other blanks, which it only makes one more. -/
theorem solid_space : Solid [' '] [] := by
  intro b us hb
  have hstep (vs) (hs : Lexed (b.drop (runLength isBlank b)) vs) : Lexed (' ' :: b) vs :=
    .step (lexeme?_blank b) hs
  rcases hb with _ | @⟨_, l, n, vs, hl, hs⟩
  · exact hstep [] .nil
  · rcases hrun : runLength isBlank b with _ | m
    · rw [hrun] at hstep
      exact hstep _ (.step hl hs)
    · -- the blanks of `b` are its first lexeme and have no terminal
      have hblanks : lexeme? b = some (.blanks, m + 1) := by
        rw [lexeme?, blanksLength?, hrun]
        rfl
      rw [hl] at hblanks
      cases hblanks
      rw [hrun] at hstep
      exact hstep vs hs

theorem lexeme?_quote (s : String) (b : List Char) :
    lexeme? ((quote s).toList ++ b) = some (.string, (quote s).toList.length) := by
  have hquoted := quotedLength?_quote s b
  rw [quote_toList, List.cons_append] at hquoted ⊢
  rw [lexeme?, hquoted]
  rfl

theorem solid_quote (s : String) : Solid (quote s).toList [⟨.string, quote s⟩] := by
  have h := solid_of_lexeme? (l := .string) (lexeme?_quote s)
  rwa [Lexeme.terminals, String.ofList_toList] at h

theorem solid_plus : Solid " + ".toList [.operator "+"] :=
  solid_space.append ((solid_operator (c := '+') (by simp)).append solid_space)

/-- A text in parentheses. -/
theorem solid_group (h : Lexed a ts) :
    Solid ('(' :: (a ++ [')'])) (.operator "(" :: (ts ++ [.operator ")"])) := by
  intro b us hb
  have hclose := solid_operator (c := ')') (by simp) hb
  have hopen := solid_operator (c := '(') (by simp)
    (h.append (bracketed_cons (.inr rfl) b) hclose)
  simpa using hopen

/-! ### Texts with a tree -/

/-- A string literal is read as the text that it was written for. -/
theorem derives_quote (s : String) : Derives .primary [⟨.string, quote s⟩] (.string s) := by
  refine .string rfl ?_
  have hbody : Terminal.body ⟨.string, quote s⟩ = escape s := by
    simp only [Terminal.body, quote_toList, List.drop_succ_cons, List.drop_zero,
      List.dropLast_concat, escape]
  rw [hbody, unescape_escape]

/-- Operands of a sum form a chain, whether there are several or one. -/
theorem DerivesSum.additive {e : Tree} {es : List Tree} (h : DerivesSum ts (e :: es)) :
    Derives .additive ts (Parser.chain e es) := by
  rcases es with _ | ⟨e', es⟩
  · cases h with
    | single h => exact .ofUnary h
    | plus _ hs => cases hs
  · exact .sum h

/-- A text whose terminals derive a tree, with no integer of too many digits among them. -/
def Reads (cs : List Char) (e : Tree) : Prop :=
  ∃ ts, Lexed cs ts ∧ Derives .conditional ts e ∧ AllFit Decimal.maxDigits ts

/-- Reading a text is deriving its terminals. -/
theorem parse_eq_ok_iff_reads {source : String} {e : Tree} :
    parse source = .ok e ↔ Reads source.toList e := by
  constructor
  · intro h
    rcases hs : scan source with _ | s
    · rw [parse, hs] at h
      cases h
    · exact ⟨_, lexed_of_scan hs, (parse_eq_ok_iff_of_scan hs).1 h⟩
  · rintro ⟨ts, hlexed, hderives⟩
    obtain ⟨s, hs, rfl⟩ := hlexed.scanFrom 0
    exact (parse_eq_ok_iff_of_scan hs).2 hderives

end ConditionalStyle.Expression
