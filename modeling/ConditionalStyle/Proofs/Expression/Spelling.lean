import ConditionalStyle.Proofs.Decimal.Length
import ConditionalStyle.Proofs.Expression.Path
import Mathlib.Data.List.Forall2
import Mathlib.Data.List.TakeWhile

/-!
# The text of a tree

The text of a tree has the terminals of its nodes in order, if what follows it goes on with neither
a name nor a number. This needs little of the tree, and a tree that was read always has it: a name
is a name, an integer is not negative and not too long, an operator is known and a chain has two
operands.

## Main definitions

* `Tree.Occurs`, `Tree.Throughout`: the nodes of a tree.
* `Tree.IsSpellable`: what is needed of a node.
* `Tree.terminals`: the terminals of the text of a tree.

## Main statements

* `spellableOrFloat_of_parse`, `spellable_of_parse`: trees that were read.
* `ofText_intText`: integers come back from their text.
* `spells_text`: the terminals of a text.
-/

namespace ConditionalStyle.Expression

open Text

/-! ### Nodes -/

namespace Tree

/-- The trees that a tree is put together from. -/
def children : Tree → List Tree
  | .string _ | .number _ | .boolean _ | .null | .name _ => []
  | .member t _ | .not t => [t]
  | .call c args => c :: args
  | .binary _ l r => [l, r]
  | .concat ts => ts
  | .conditional c y n => [c, y, n]

/-- Being a node of a tree. -/
inductive Occurs (t : Tree) : Tree → Prop
  | here : Occurs t t
  | inside {e c : Tree} (hc : c ∈ e.children) (h : Occurs t c) : Occurs t e

/-- Trees all of whose nodes satisfy a predicate. -/
def Throughout (p : Tree → Prop) (e : Tree) : Prop :=
  ∀ t, Occurs t e → p t

theorem throughout_iff {p : Tree → Prop} {e : Tree} :
    Throughout p e ↔ p e ∧ ∀ c ∈ e.children, Throughout p c := by
  constructor
  · intro h
    exact ⟨h e .here, fun c hc t ht => h t (.inside hc ht)⟩
  · rintro ⟨he, hchildren⟩ t ht
    cases ht with
    | here => exact he
    | inside hc ht => exact hchildren _ hc t ht

/-! ### What is read can be written -/

/-- What a node must satisfy so that its text has the terminals of its parts: names are names, an
integer is not negative and not too long, an operator is known and a chain has two operands. -/
def IsSpellable : Tree → Prop
  | .number n => ∃ k : Nat, n = .int k ∧ Decimal.isWritable k = true
  | .name n | .member _ n => IsIdentifier n
  | .binary op _ _ => ∀ s, op ≠ .unknown s
  | .concat ts => 2 ≤ ts.length
  | _ => True

/-- The same, where nothing is asked of a double. -/
def IsSpellableOrFloat (t : Tree) : Prop :=
  t.IsSpellable ∨ ∃ x, t = .number (.float x)

end Tree

open ConditionalStyle.Expression.Tree

theorem isIdentifier_of_lexeme? {cs : List Char} {n : Nat} (h : lexeme? cs = some (.name, n))
    (hk : String.ofList (cs.take n) ∉ keywords) : IsIdentifier (String.ofList (cs.take n)) := by
  have hname : nameLength? cs = some n := by
    simp only [lexeme?, Option.orElse_eq_orElse, Option.orElse_eq_or, Option.or_eq_some_iff,
      Option.map_eq_some_iff, Prod.mk.injEq, reduceCtorEq, false_and, and_false, exists_false,
      false_or] at h
    obtain ⟨-, -, -, -, m, hm, -, rfl⟩ := h
    exact hm
  rcases cs with _ | ⟨c, cs⟩
  · cases hname
  rw [nameLength?] at hname
  split at hname
  · next hc =>
    cases hname
    refine ⟨⟨c, cs.takeWhile isNamePart, ?_, hc, fun d hd => List.mem_takeWhile_imp hd⟩, hk⟩
    rw [String.toList_ofList, Nat.add_comm, List.take_succ_cons, runLength,
      List.prefix_iff_eq_take.1 (List.takeWhile_prefix isNamePart)]
    simp
  · cases hname

/-- The names among the terminals of a text are names. -/
theorem Lexed.isIdentifier {cs : List Char} {ts : List Terminal} (h : Lexed cs ts) {t : Terminal}
    (ht : t ∈ ts) (hk : t.kind = .name) : IsIdentifier t.text := by
  induction h with
  | nil => cases ht
  | @step cs l n ts hl _ ih =>
    rcases List.mem_append.1 ht with ht | ht
    · simp only [Lexeme.terminals, Option.mem_toList, Option.map_eq_some_iff] at ht
      obtain ⟨kind, hkind, rfl⟩ := ht
      dsimp only at hk ⊢
      subst hk
      cases l with
      | name =>
        simp only [Lexeme.kind?, Option.some.injEq] at hkind
        split at hkind
        · cases hkind
        · next hmem => exact isIdentifier_of_lexeme? hl (by simpa using hmem)
      | blanks | string | number | operator => cases hkind
    · exact ih ht

theorem isSpellableOrFloat_ofText {s : String}
    (h : Number.isTooLong Decimal.maxDigits s = false) :
    IsSpellableOrFloat (.number (.ofText s)) := by
  rw [Number.ofText]
  split
  · next hpoint =>
    have hnone : s.toList.contains '.' = false := by
      rw [List.dropWhile_eq_nil_iff] at hpoint
      rw [← Bool.not_eq_true, List.contains_iff_mem]
      exact fun hmem => absurd (hpoint '.' hmem) (by decide)
    rw [Number.isTooLong, hnone, Bool.not_false, Bool.true_and, decide_eq_false_iff_not,
      Nat.not_lt, ← String.length_toList] at h
    exact .inl ⟨_, rfl, Decimal.isWritable_digitsValue
      (Nat.le_trans (List.takeWhile_sublist _).length_le h)⟩
  · exact .inr ⟨_, rfl⟩

/-- A terminal as the texts that are read have it: a name is a name, and an integer is not too
long. -/
structure Terminal.IsSpelled (t : Terminal) : Prop where
  name : t.kind = .name → IsIdentifier t.text
  fits : t.Fits Decimal.maxDigits

mutual

/-- A tree that is derived from such terminals can be written. -/
theorem Derives.spellable {n : Nonterminal} {ts : List Terminal} {e : Tree} :
    Derives n ts e → (∀ t ∈ ts, t.IsSpelled) →
      Throughout IsSpellableOrFloat e
  | .ofOr h, hts | .ofAnd h, hts | .ofEquality h, hts | .ofAdditive h, hts | .ofUnary h, hts
  | .ofAccess h, hts | .ofPrimary h, hts => h.spellable hts
  | .choice h₁ h₂ h₃, hts => by
    have hc := h₁.spellable fun t ht => hts t (by simp [ht])
    have hy := h₂.spellable fun t ht => hts t (by simp [ht])
    have hn := h₃.spellable fun t ht => hts t (by simp [ht])
    exact throughout_iff.2 ⟨.inl trivial, by simp [children, hc, hy, hn]⟩
  | .or h₁ h₂, hts | .and h₁ h₂, hts | .equal h₁ h₂, hts | .unequal h₁ h₂, hts => by
    have hl := h₁.spellable fun t ht => hts t (by simp [ht])
    have hr := h₂.spellable fun t ht => hts t (by simp [ht])
    exact throughout_iff.2 ⟨.inl (by simp [IsSpellable]), by simp [children, hl, hr]⟩
  | .sum h, hts => throughout_iff.2 ⟨.inl (by simp [IsSpellable]), h.spellable hts⟩
  | .not h, hts => by
    have ht := h.spellable fun t ht => hts t (by simp [ht])
    exact throughout_iff.2 ⟨.inl trivial, by simp [children, ht]⟩
  | .member h m, hts => by
    have ht := h.spellable fun t ht => hts t (by simp [ht])
    exact throughout_iff.2 ⟨.inl ((hts ⟨.name, m⟩ (by simp)).name rfl), by simp [children, ht]⟩
  | .call h, hts => by
    have hc := h.spellable fun t ht => hts t (by simp [ht])
    exact throughout_iff.2 ⟨.inl trivial, by simp [children, hc]⟩
  | .callWith h hs, hts => by
    have hc := h.spellable fun t ht => hts t (by simp [ht])
    have hargs := hs.spellable fun t ht => hts t (by simp [ht])
    exact throughout_iff.2 ⟨.inl trivial, List.forall_mem_cons.2 ⟨hc, hargs⟩⟩
  | .string _ _, _ | .yes, _ | .no, _ | .null, _ =>
    throughout_iff.2 ⟨.inl trivial, by simp [children]⟩
  | .number text, hts =>
    throughout_iff.2 ⟨isSpellableOrFloat_ofText ((hts ⟨.number, text⟩ (by simp)).fits rfl),
      by simp [children]⟩
  | .name text, hts =>
    throughout_iff.2 ⟨.inl ((hts ⟨.name, text⟩ (by simp)).name rfl), by simp [children]⟩
  | .group h, hts => h.spellable fun t ht => hts t (by simp [ht])

theorem DerivesSum.spellable {ts : List Terminal} {es : List Tree} :
    DerivesSum ts es → (∀ t ∈ ts, t.IsSpelled) →
      ∀ e ∈ es, Throughout IsSpellableOrFloat e
  | .single h, hts => List.forall_mem_singleton.2 (h.spellable hts)
  | .plus h hs, hts => List.forall_mem_cons.2
    ⟨h.spellable fun t ht => hts t (by simp [ht]), hs.spellable fun t ht => hts t (by simp [ht])⟩

theorem DerivesArguments.spellable {ts : List Terminal} {es : List Tree} :
    DerivesArguments ts es → (∀ t ∈ ts, t.IsSpelled) →
      ∀ e ∈ es, Throughout IsSpellableOrFloat e
  | .single h, hts => List.forall_mem_singleton.2 (h.spellable hts)
  | .comma h hs, hts => List.forall_mem_cons.2
    ⟨h.spellable fun t ht => hts t (by simp [ht]), hs.spellable fun t ht => hts t (by simp [ht])⟩

end

theorem spellableOrFloat_of_parse {source : String} {e : Tree} (h : parse source = .ok e) :
    Throughout IsSpellableOrFloat e := by
  obtain ⟨ts, hlexed, hderives, hfit⟩ := parse_eq_ok_iff_reads.1 h
  exact hderives.spellable fun u hu => ⟨hlexed.isIdentifier hu, hfit u hu⟩

/-- A tree that was read and holds no double can be written. -/
theorem spellable_of_parse {source : String} {e : Tree} (h : parse source = .ok e)
    (hfloat : ∀ x, ¬ Occurs (.number (.float x)) e) : Throughout IsSpellable e := by
  intro t ht
  rcases spellableOrFloat_of_parse h t ht with hspell | ⟨x, rfl⟩
  · exact hspell
  · exact absurd ht (hfloat x)

/-! ### The terminals of a text -/

namespace Tree

mutual

/-- The terminals of the text of a tree. -/
def terminals : Tree → List Terminal
  | .string s => [⟨.string, quote s⟩]
  | .number n => [⟨.number, n.text⟩]
  | .boolean b => [⟨.keyword, if b then "true" else "false"⟩]
  | .null => [⟨.keyword, "null"⟩]
  | .name n => [⟨.name, n⟩]
  | .member t n => t.terminals ++ [.operator ".", ⟨.name, n⟩]
  | .call c args => c.terminals ++
      .operator "(" :: ([.operator ","].intercalate (terminalLists args) ++ [.operator ")"])
  | .not t => .operator "!" :: t.terminals
  | .binary op l r =>
    .operator "(" :: (l.terminals ++ .operator op.symbol :: r.terminals ++ [.operator ")"])
  | .concat ts =>
    .operator "(" :: ([.operator "+"].intercalate (terminalLists ts) ++ [.operator ")"])
  | .conditional c y n =>
    .operator "(" :: (c.terminals ++ .operator "?" :: (y.terminals ++ .operator ":" :: n.terminals)
      ++ [.operator ")"])

/-- The terminals of the texts of a list of trees. -/
def terminalLists : List Tree → List (List Terminal)
  | [] => []
  | t :: ts => t.terminals :: terminalLists ts

end

end Tree

/-- A text after which a name or a number ends. -/
structure Follows (b : List Char) : Prop where
  name : Ends isNamePart b
  digit : Ends isDigit b
  fraction : ∀ rest, b = '.' :: rest → Ends isDigit rest

theorem follows_nil : Follows [] :=
  ⟨ends_nil _, ends_nil _, fun _ h => nomatch h⟩

theorem follows_cons {c : Char} (hc : c ∈ [' ', '(', ')', ',']) (b : List Char) :
    Follows (c :: b) := by
  simp only [List.mem_cons, List.not_mem_nil, or_false] at hc
  rcases hc with rfl | rfl | rfl | rfl <;>
    exact ⟨ends_cons (by decide), ends_cons (by decide), fun _ h => nomatch h⟩

theorem follows_member {s : String} (h : IsIdentifier s) (b : List Char) :
    Follows ('.' :: (s.toList ++ b)) := by
  obtain ⟨c, cs, hcs, hc, -⟩ := h.spelled
  have hdigit := of_ascii (p := fun c => !isNameStart c || !isDigit c) (by decide +kernel)
    (lt_of_isNameStart hc)
  simp only [hc, Bool.not_true, Bool.false_or, Bool.not_eq_true'] at hdigit
  refine ⟨ends_cons (by decide), ends_cons (by decide), fun rest hrest => ?_⟩
  cases hrest
  rw [hcs]
  exact ends_cons hdigit

/-- A text with the given terminals, wherever it is followed by something that ends it. -/
def Spells (s : String) (ts : List Terminal) : Prop :=
  ∀ ⦃b us⦄, Follows b → Lexed b us → Lexed (s.toList ++ b) (ts ++ us)

/-! ### Integers -/

theorem digit?_of_isDigit {c : Char} (h : c.isDigit = true) :
    digit? c = some (c.toNat - '0'.toNat) := by
  have hrange : 48 ≤ c.toNat ∧ c.toNat ≤ 57 := by
    simpa [Char.isDigit, UInt32.le_iff_toNat_le] using h
  have hmod : (c.toNat - 48) % 10 = c.toNat - 48 := Nat.mod_eq_of_lt (by omega)
  simp [digit?, digitRanges, hrange, hmod]

theorem digitsValue_toDigits (k : Nat) : digitsValue (Nat.toDigits 10 k) = k := by
  have hdigit : ∀ c ∈ Nat.toDigits 10 k, c.isDigit = true :=
    fun c hc => Nat.isDigit_of_mem_toDigits (by omega) (by omega) hc
  rw [digitsValue, List.foldl_ext _ _ 0 fun n c hc => by rw [digit?_of_isDigit (hdigit c hc)]]
  exact Nat.ofDigitChars_eq_foldl.symm.trans Nat.ofDigitChars_ten_toDigits

theorem intText_toList (k : Nat) : (Number.int k).text.toList = Nat.toDigits 10 k := by
  have htext : (Number.int k).text = toString k := rfl
  rw [htext, Nat.toString_eq_ofList_toDigits, String.toList_ofList]

/-- Integers come back from their decimal text. -/
theorem ofText_intText (k : Nat) : Number.ofText (Number.int k).text = .int k := by
  have hpoint : ∀ c ∈ Nat.toDigits 10 k, (c != '.') = true := by
    intro c hc
    have hdigit := Nat.isDigit_of_mem_toDigits (by omega) (by omega) hc
    rw [bne_iff_ne]
    rintro rfl
    cases hdigit
  rw [Number.ofText, intText_toList, List.takeWhile_eq_self_iff.2 hpoint,
    List.dropWhile_eq_nil_iff.2 hpoint]
  simp [digitsValue_toDigits]

/-- The text of an integer that is not too long can be read. -/
theorem fits_intText {k : Nat} (h : Decimal.isWritable k = true) :
    Terminal.Fits Decimal.maxDigits ⟨.number, (Number.int k).text⟩ := by
  intro _
  have hlength : (Number.int k).text.length = Decimal.digitCount k := by
    rw [← String.length_toList, intText_toList, Decimal.digitCount]
  have hle : Decimal.digitCount k ≤ Decimal.maxDigits := of_decide_eq_true h
  rw [Number.isTooLong, hlength, decide_eq_false (Nat.not_lt.2 hle), Bool.and_false]

theorem lexeme?_intText (k : Nat) {b : List Char} (hb : Follows b) :
    lexeme? ((Number.int k).text.toList ++ b) =
      some (.number, (Number.int k).text.toList.length) := by
  rw [intText_toList]
  have hdigits : ∀ c ∈ Nat.toDigits 10 k, c.isDigit = true :=
    fun c hc => Nat.isDigit_of_mem_toDigits (by omega) (by omega) hc
  rcases hcs : Nat.toDigits 10 k with _ | ⟨c, cs⟩
  · exact absurd hcs Nat.toDigits_ne_nil
  rw [hcs] at hdigits
  have hall : ∀ d ∈ c :: cs, isDigit d = true := fun d hd => by
    rw [isDigit, digit?_of_isDigit (hdigits d hd)]
    rfl
  have hrun : runLength isDigit (c :: cs ++ b) = cs.length + 1 :=
    runLength_append_of_all hall hb.digit
  have hnumber : numberLength? (c :: cs ++ b) = some (cs.length + 1) := by
    have hdrop : (c :: cs ++ b).drop (cs.length + 1) = b := List.drop_left
    rw [numberLength?, hrun]
    dsimp only
    rw [hdrop]
    split
    · next rest => rw [runLength_of_ends (hb.fraction rest rfl)]
    · rfl
  have hc := of_ascii (p := fun c => !c.isDigit || (!isBlank c && c != '"')) (by decide +kernel)
    (c := c) (by
      have hle : c.toNat ≤ 57 := by
        have hc := hdigits c List.mem_cons_self
        simp only [Char.isDigit, Bool.and_eq_true, decide_eq_true_eq, UInt32.le_iff_toNat_le] at hc
        exact hc.2
      omega)
  simp only [hdigits c List.mem_cons_self, Bool.not_true, Bool.false_or, Bool.and_eq_true,
    Bool.not_eq_true', bne_iff_ne] at hc
  have hblanks : blanksLength? (c :: cs ++ b) = none := by
    rw [blanksLength?, List.cons_append, runLength_of_ends (ends_cons hc.1)]
  rw [lexeme?, hblanks, hnumber, List.cons_append, quotedLength?_of_ne hc.2]
  rfl

/-! ### The text of a tree and its terminals -/

theorem spells_intText (k : Nat) :
    Spells (Number.int k).text [⟨.number, (Number.int k).text⟩] :=
  fun _ _ hb hs => lexed_of_lexeme? (lexeme?_intText k hb) hs

theorem spells_keyword {s : String} (h : s ∈ keywords) : Spells s [⟨.keyword, s⟩] := by
  intro b us hb hs
  have hword :
      ∃ c cs, s.toList = c :: cs ∧ isNameStart c = true ∧ ∀ d ∈ cs, isNamePart d = true := by
    simp only [keywords, List.mem_cons, List.not_mem_nil, or_false] at h
    rcases h with rfl | rfl | rfl <;>
      exact ⟨_, _, rfl, by decide, List.all_eq_true.1 (by decide)⟩
  have hstep := lexed_of_lexeme? (lexeme?_word hword hb.name) hs
  rwa [Lexeme.kind?, if_pos (List.contains_iff_mem.2 h)] at hstep

theorem solid_pairOperator {c d : Char} (h : (c, d) ∈ pairOperators) :
    Solid [c, d] [.operator (String.ofList [c, d])] := by
  refine solid_of_lexeme? (l := .operator) fun b => ?_
  have hoperator : operatorLength? (c :: d :: b) = some 2 := by
    rw [operatorLength?, if_pos (List.contains_iff_mem.2 h)]
  simp only [pairOperators, List.mem_cons, List.not_mem_nil, or_false, Prod.mk.injEq] at h
  rw [List.cons_append, List.singleton_append, lexeme?, hoperator]
  rcases h with ⟨rfl, rfl⟩ | ⟨rfl, rfl⟩ | ⟨rfl, rfl⟩ | ⟨rfl, rfl⟩ <;> rfl

/-- An operator between two spaces. -/
theorem solid_spaced {op : List Char} {x : Terminal} (h : Solid op [x]) :
    Solid (' ' :: (op ++ [' '])) [x] :=
  solid_space.append (h.append solid_space)

theorem solid_symbol {op : Operator} (h : ∀ s, op ≠ .unknown s) :
    Solid op.symbol.toList [.operator op.symbol] := by
  cases op with
  | and | or | equal | unequal => exact solid_pairOperator (by decide)
  | unknown s => exact absurd rfl (h s)

theorem lexed_not {b : List Char} {us : List Terminal} (hb : b.head? ≠ some '=')
    (h : Lexed b us) : Lexed ('!' :: b) (.operator "!" :: us) := by
  have hlexeme : lexeme? ("!".toList ++ b) = some (.operator, 1) := by
    rcases b with _ | ⟨d, b⟩
    · rfl
    · have hd : d ≠ '=' := fun hd => hb (by rw [hd]; rfl)
      have hoperator : operatorLength? ('!' :: d :: b) = some 1 := by
        rw [operatorLength?, if_neg (by simp [pairOperators, hd]), if_pos (by decide)]
      have happend : "!".toList ++ d :: b = '!' :: d :: b := rfl
      rw [happend, lexeme?, hoperator]
      rfl
  exact lexed_of_lexeme? (s := "!") hlexeme h

/-- Texts with a solid separator between them. -/
theorem spells_intercalate (separator : String) {x : Terminal} (h : Solid separator.toList [x])
    (hfollows : ∀ b, Follows (separator.toList ++ b)) {ss : List String}
    {tss : List (List Terminal)} (hs : List.Forall₂ Spells ss tss) :
    Spells (separator.intercalate ss) ([x].intercalate tss) := by
  induction hs with
  | nil => exact fun _ _ _ hb => hb
  | cons hfirst hrest ih =>
    next s ts ss tss =>
    rcases hrest with _ | ⟨hsecond, hrest⟩
    · rw [String.intercalate_singleton, List.intercalate_singleton]
      exact hfirst
    · intro b us hb hus
      rw [String.intercalate_cons_cons, List.intercalate_cons_cons, String.toList_append,
        String.toList_append]
      simp only [List.append_assoc]
      exact hfirst (hfollows _) (h (ih hb hus))

theorem head_text : (e : Tree) → Throughout IsSpellable e →
    ∃ c cs, e.text.toList = c :: cs ∧ c ≠ '='
  | .string s, _ => ⟨_, _, quote_toList s, by decide⟩
  | .number n, h => by
    obtain ⟨k, rfl, -⟩ := (throughout_iff.1 h).1
    rcases hcs : Nat.toDigits 10 k with _ | ⟨c, cs⟩
    · exact absurd hcs Nat.toDigits_ne_nil
    · refine ⟨c, cs, (intText_toList k).trans hcs, ?_⟩
      rintro rfl
      have hdigit := Nat.isDigit_of_mem_toDigits (b := 10) (n := k) (c := '=') (by omega) (by omega)
        (by simp [hcs])
      cases hdigit
  | .boolean true, _ | .boolean false, _ | .null, _ => ⟨_, _, rfl, by decide⟩
  | .name n, h => by
    obtain ⟨c, cs, hcs, hc, -⟩ := ((throughout_iff.1 h).1 : IsIdentifier n).spelled
    refine ⟨c, cs, hcs, ?_⟩
    rintro rfl
    cases hc
  | .member t n, h => by
    obtain ⟨c, cs, hcs, hc⟩ := head_text t ((throughout_iff.1 h).2 t (by simp [children]))
    exact ⟨c, _, by rw [text, String.toList_append, String.toList_append, hcs]; rfl, hc⟩
  | .call f args, h => by
    obtain ⟨c, cs, hcs, hc⟩ := head_text f ((throughout_iff.1 h).2 f (by simp [children]))
    exact ⟨c, _, by simp only [text, String.toList_append, hcs]; rfl, hc⟩
  | .not _, _ => ⟨'!', _, by rw [text, String.toList_append]; rfl, by decide⟩
  | .binary _ _ _, _ | .concat _, _ | .conditional _ _ _, _ =>
    ⟨'(', _, by simp only [text, String.toList_append, List.append_assoc]; rfl, by decide⟩

mutual

/-- The text of a tree has the terminals of the tree. -/
theorem spells_text : (e : Tree) → Throughout IsSpellable e → Spells e.text e.terminals
  | .string s, _ => fun _ _ _ hs => solid_quote s hs
  | .number n, h => by
    obtain ⟨k, rfl, -⟩ := (throughout_iff.1 h).1
    exact spells_intText k
  | .boolean true, _ | .boolean false, _ | .null, _ => spells_keyword (by decide)
  | .name n, h => fun _ _ hb hs => lexed_identifier (throughout_iff.1 h).1 hb.name hs
  | .member t n, h => by
    obtain ⟨hn, hchildren⟩ := throughout_iff.1 h
    have ht := spells_text t (hchildren t (by simp [children]))
    intro b us hb hs
    have hpoint := solid_operator (c := '.') (by simp) (lexed_identifier hn hb.name hs)
    simpa [text, terminals] using ht (follows_member hn b) hpoint
  | .call c args, h => by
    obtain ⟨-, hchildren⟩ := throughout_iff.1 h
    have hc := spells_text c (hchildren c (by simp [children]))
    have hargs := spells_intercalate ", "
      ((solid_operator (c := ',') (by simp)).append solid_space)
      (fun b => follows_cons (c := ',') (by simp) _)
      (spells_texts args fun t ht => hchildren t (by simp [children, ht]))
    intro b us _ hs
    have hclose := hargs (follows_cons (by simp) b) (solid_operator (c := ')') (by simp) hs)
    have hopen := solid_operator (c := '(') (by simp) hclose
    simpa [text, terminals] using hc (follows_cons (by simp) _) hopen
  | .not t, h => by
    have hoperand := (throughout_iff.1 h).2 t (by simp [children])
    have ht := spells_text t hoperand
    intro b us hb hs
    obtain ⟨c, cs, hcs, hne⟩ := head_text t hoperand
    have hnot := lexed_not (by simpa [hcs] using hne) (ht hb hs)
    simpa [text, terminals] using hnot
  | .binary op l r, h => by
    obtain ⟨hop, hchildren⟩ := throughout_iff.1 h
    have hl := spells_text l (hchildren l (by simp [children]))
    have hr := spells_text r (hchildren r (by simp [children]))
    have hright := solid_spaced (solid_symbol hop) (hr follows_nil .nil)
    have hbody := solid_group (hl (follows_cons (by simp) _) hright)
    intro b us _ hs
    simpa [text, terminals] using hbody hs
  | .concat ts, h => by
    have hts := spells_intercalate " + " solid_plus
      (fun b => follows_cons (c := ' ') (by simp) _) (spells_texts ts (throughout_iff.1 h).2)
    have hbody := solid_group (hts follows_nil .nil)
    intro b us _ hs
    simpa [text, terminals] using hbody hs
  | .conditional c y n, h => by
    obtain ⟨-, hchildren⟩ := throughout_iff.1 h
    have hc := spells_text c (hchildren c (by simp [children]))
    have hy := spells_text y (hchildren y (by simp [children]))
    have hn := spells_text n (hchildren n (by simp [children]))
    have hno := solid_spaced (solid_operator (c := ':') (by simp)) (hn follows_nil .nil)
    have hyes := solid_spaced (solid_operator (c := '?') (by simp))
      (hy (follows_cons (by simp) _) hno)
    have hbody := solid_group (hc (follows_cons (by simp) _) hyes)
    intro b us _ hs
    simpa [text, terminals] using hbody hs

theorem spells_texts : (es : List Tree) → (∀ e ∈ es, Throughout IsSpellable e) →
    List.Forall₂ Spells (Tree.texts es) (terminalLists es)
  | [], _ => .nil
  | e :: es, h =>
    .cons (spells_text e (h e (by simp))) (spells_texts es fun t ht => h t (by simp [ht]))

end

mutual

/-- The terminals of a tree are within the limit on digits. -/
theorem allFit_terminals : (e : Tree) → Throughout IsSpellable e →
    AllFit Decimal.maxDigits e.terminals
  | .string _, _ | .name _, _ => by simp [terminals]
  | .boolean _, _ | .null, _ => by simp [terminals, Terminal.fits_of_kind]
  | .number n, h => by
    obtain ⟨k, rfl, hk⟩ := (throughout_iff.1 h).1
    simp [terminals, fits_intText hk]
  | .member t n, h => by
    simp [terminals, allFit_terminals t ((throughout_iff.1 h).2 t (by simp [children]))]
  | .call c args, h => by
    obtain ⟨-, hchildren⟩ := throughout_iff.1 h
    have hc := allFit_terminals c (hchildren c (by simp [children]))
    have hargs := allFit_terminalLists "," args fun t ht => hchildren t (by simp [children, ht])
    simp [terminals, hc, hargs]
  | .not t, h => by
    simp [terminals, allFit_terminals t ((throughout_iff.1 h).2 t (by simp [children]))]
  | .binary op l r, h => by
    obtain ⟨-, hchildren⟩ := throughout_iff.1 h
    have hl := allFit_terminals l (hchildren l (by simp [children]))
    have hr := allFit_terminals r (hchildren r (by simp [children]))
    simp [terminals, hl, hr]
  | .concat ts, h => by
    simp [terminals, allFit_terminalLists "+" ts (throughout_iff.1 h).2]
  | .conditional c y n, h => by
    obtain ⟨-, hchildren⟩ := throughout_iff.1 h
    have hc := allFit_terminals c (hchildren c (by simp [children]))
    have hy := allFit_terminals y (hchildren y (by simp [children]))
    have hn := allFit_terminals n (hchildren n (by simp [children]))
    simp [terminals, hc, hy, hn]

theorem allFit_terminalLists (separator : String) : (es : List Tree) →
    (∀ e ∈ es, Throughout IsSpellable e) →
    AllFit Decimal.maxDigits ([.operator separator].intercalate (terminalLists es))
  | [], _ => by simp [terminalLists]
  | [e], h => by simp [terminalLists, allFit_terminals e (h e (by simp))]
  | e :: e' :: es, h => by
    have hrest := allFit_terminalLists separator (e' :: es) fun t ht => h t (by simp [ht])
    rw [terminalLists, terminalLists, List.intercalate_cons_cons]
    rw [terminalLists] at hrest
    simp [allFit_terminals e (h e (by simp)), hrest]

end

end ConditionalStyle.Expression
