import ConditionalStyle.Expression.Parser

/-!
# The grammar of expressions

The grammar is stated on terminals, the tokens without their positions, and says nothing about how
a text is read. A derivation determines a tree; the nodes of the tree are those of the grammar
except that parentheses leave none and a sum of several operands leaves a single one.

The rules, from the loosest to the tightest:

* `conditional → or | or "?" conditional ":" conditional`
* `or → and | or "||" and`
* `and → equality | and "&&" equality`
* `equality → additive | equality "==" additive | equality "!=" additive`
* `additive → unary ("+" unary)*`
* `unary → access | "!" unary`
* `access → primary | access "." NAME | access "(" (conditional ("," conditional)*)? ")"`
* `primary → STRING | NUMBER | "true" | "false" | "null" | NAME | "(" conditional ")"`

## Main definitions

* `Terminal`, `Nonterminal`: the symbols of the grammar.
* `Terminal.Fits`, `AllFit`: terminals within a limit on the digits of integers, which the grammar
  itself does not have.
* `Derives`: the terminals that a nonterminal derives, with their tree.
* `DerivesSum`, `DerivesArguments`: the same for operands of a sum and for arguments of a call.
-/

namespace ConditionalStyle.Expression

open Text

/-- A token without its position. -/
structure Terminal where
  kind : Token.Kind
  text : String
deriving DecidableEq, Repr

namespace Terminal

/-- The terminal of an operator. -/
def operator (symbol : String) : Terminal := ⟨.operator, symbol⟩

/-- The text between the quotes of a string. -/
def body (t : Terminal) : String := String.ofList (t.text.toList.drop 1).dropLast

/-- A terminal that is no integer of more digits than a limit. -/
def Fits (limit : Nat) (t : Terminal) : Prop :=
  t.kind = .number → Number.isTooLong limit t.text = false

theorem fits_of_kind {limit : Nat} {t : Terminal} (h : t.kind ≠ .number) : t.Fits limit :=
  fun hk => absurd hk h

@[simp] theorem fits_operator (limit : Nat) (symbol : String) : (operator symbol).Fits limit :=
  fits_of_kind (by simp [operator])

@[simp] theorem fits_name (limit : Nat) (name : String) : Fits limit ⟨.name, name⟩ :=
  fits_of_kind (by simp)

@[simp] theorem fits_string (limit : Nat) (text : String) : Fits limit ⟨.string, text⟩ :=
  fits_of_kind (by simp)

end Terminal

/-- Terminals that are all within a limit. -/
def AllFit (limit : Nat) (ts : List Terminal) : Prop :=
  ∀ t ∈ ts, t.Fits limit

section AllFit

variable {limit : Nat} {t : Terminal} {ts us : List Terminal}

@[simp] theorem allFit_nil : AllFit limit [] :=
  List.forall_mem_nil _

@[simp] theorem allFit_cons : AllFit limit (t :: ts) ↔ t.Fits limit ∧ AllFit limit ts :=
  List.forall_mem_cons

@[simp] theorem allFit_append : AllFit limit (ts ++ us) ↔ AllFit limit ts ∧ AllFit limit us :=
  List.forall_mem_append

theorem AllFit.head (h : AllFit limit (t :: ts)) : t.Fits limit :=
  (allFit_cons.1 h).1

theorem AllFit.tail (h : AllFit limit (t :: ts)) : AllFit limit ts :=
  (allFit_cons.1 h).2

theorem AllFit.before (h : AllFit limit (ts ++ us)) : AllFit limit ts :=
  (allFit_append.1 h).1

theorem AllFit.after (h : AllFit limit (ts ++ t :: us)) : AllFit limit us :=
  (allFit_append.1 h).2.tail

end AllFit

/-- A token without its position. -/
def Token.terminal (t : Token) : Terminal := ⟨t.kind, t.text⟩

@[simp] theorem Token.terminal_kind (t : Token) : t.terminal.kind = t.kind := rfl

@[simp] theorem Token.terminal_text (t : Token) : t.terminal.text = t.text := rfl

/-- A token is an operator exactly when its terminal is the one of that operator. -/
theorem Token.isOperator_iff {t : Token} {symbol : String} :
    t.isOperator symbol = true ↔ t.terminal = .operator symbol := by
  simp only [Token.isOperator, Token.terminal, Terminal.operator, Bool.and_eq_true, beq_iff_eq,
    Terminal.mk.injEq]

/-- The levels of the grammar, from the loosest to the tightest. -/
inductive Nonterminal where
  | conditional
  | or
  | and
  | equality
  | additive
  | unary
  | access
  | primary
deriving DecidableEq, Repr

mutual

/-- The terminals that a nonterminal derives, and the tree of the derivation. -/
inductive Derives : Nonterminal → List Terminal → Tree → Prop
  | ofOr {ts e} (h : Derives .or ts e) : Derives .conditional ts e
  | choice {ts us vs test yes no} (htest : Derives .or ts test)
      (hyes : Derives .conditional us yes) (hno : Derives .conditional vs no) :
      Derives .conditional (ts ++ .operator "?" :: (us ++ .operator ":" :: vs))
        (.conditional test yes no)
  | ofAnd {ts e} (h : Derives .and ts e) : Derives .or ts e
  | or {ts us l r} (hl : Derives .or ts l) (hr : Derives .and us r) :
      Derives .or (ts ++ .operator "||" :: us) (.binary .or l r)
  | ofEquality {ts e} (h : Derives .equality ts e) : Derives .and ts e
  | and {ts us l r} (hl : Derives .and ts l) (hr : Derives .equality us r) :
      Derives .and (ts ++ .operator "&&" :: us) (.binary .and l r)
  | ofAdditive {ts e} (h : Derives .additive ts e) : Derives .equality ts e
  | equal {ts us l r} (hl : Derives .equality ts l) (hr : Derives .additive us r) :
      Derives .equality (ts ++ .operator "==" :: us) (.binary .equal l r)
  | unequal {ts us l r} (hl : Derives .equality ts l) (hr : Derives .additive us r) :
      Derives .equality (ts ++ .operator "!=" :: us) (.binary .unequal l r)
  | ofUnary {ts e} (h : Derives .unary ts e) : Derives .additive ts e
  | sum {ts e₁ e₂ es} (h : DerivesSum ts (e₁ :: e₂ :: es)) :
      Derives .additive ts (.concat (e₁ :: e₂ :: es))
  | ofAccess {ts e} (h : Derives .access ts e) : Derives .unary ts e
  | not {ts e} (h : Derives .unary ts e) : Derives .unary (.operator "!" :: ts) (.not e)
  | ofPrimary {ts e} (h : Derives .primary ts e) : Derives .access ts e
  | member {ts e} (h : Derives .access ts e) (name : String) :
      Derives .access (ts ++ [.operator ".", ⟨.name, name⟩]) (.member e name)
  | call {ts e} (h : Derives .access ts e) :
      Derives .access (ts ++ [.operator "(", .operator ")"]) (.call e [])
  | callWith {ts us e es} (h : Derives .access ts e) (hs : DerivesArguments us es) :
      Derives .access (ts ++ .operator "(" :: (us ++ [.operator ")"])) (.call e es)
  | string {t s} (hk : t.kind = .string) (h : unescape t.body = .ok s) :
      Derives .primary [t] (.string s)
  | number (text : String) : Derives .primary [⟨.number, text⟩] (.number (.ofText text))
  | yes : Derives .primary [⟨.keyword, "true"⟩] (.boolean true)
  | no : Derives .primary [⟨.keyword, "false"⟩] (.boolean false)
  | null : Derives .primary [⟨.keyword, "null"⟩] .null
  | name (text : String) : Derives .primary [⟨.name, text⟩] (.name text)
  | group {ts e} (h : Derives .conditional ts e) :
      Derives .primary (.operator "(" :: (ts ++ [.operator ")"])) e

/-- The operands of a sum, one or more. -/
inductive DerivesSum : List Terminal → List Tree → Prop
  | single {ts e} (h : Derives .unary ts e) : DerivesSum ts [e]
  | plus {ts us e es} (h : Derives .unary ts e) (hs : DerivesSum us es) :
      DerivesSum (ts ++ .operator "+" :: us) (e :: es)

/-- The arguments of a call, one or more. -/
inductive DerivesArguments : List Terminal → List Tree → Prop
  | single {ts e} (h : Derives .conditional ts e) : DerivesArguments ts [e]
  | comma {ts us e es} (h : Derives .conditional ts e) (hs : DerivesArguments us es) :
      DerivesArguments (ts ++ .operator "," :: us) (e :: es)

end

namespace Derives

variable {ts : List Terminal} {e : Tree}

/-- What is additive is an expression. -/
theorem conditional_of_additive (h : Derives .additive ts e) : Derives .conditional ts e :=
  .ofOr (.ofAnd (.ofEquality (.ofAdditive h)))

/-- What is primary is unary. -/
theorem unary_of_primary (h : Derives .primary ts e) : Derives .unary ts e :=
  .ofAccess (.ofPrimary h)

/-- What is primary is the operand of any operator. -/
theorem or_of_primary (h : Derives .primary ts e) : Derives .or ts e :=
  .ofAnd (.ofEquality (.ofAdditive (.ofUnary (unary_of_primary h))))

end Derives

/-! ### First terminals -/

/-- What a derivation can start with: no closing parenthesis and, if it is tighter than a negation,
no exclamation mark. -/
def Nonterminal.Starts (n : Nonterminal) (t : Terminal) : Prop :=
  t ≠ .operator ")" ∧ (n = .access ∨ n = .primary → t ≠ .operator "!")

theorem Nonterminal.starts_of_kind {n : Nonterminal} {t : Terminal} (h : t.kind ≠ .operator) :
    n.Starts t := by
  refine ⟨?_, fun _ => ?_⟩
  · rintro rfl
    exact h rfl
  · rintro rfl
    exact h rfl

mutual

theorem Derives.head {n : Nonterminal} {ts : List Terminal} {e : Tree} :
    Derives n ts e → ∃ t us, ts = t :: us ∧ n.Starts t
  | .ofOr h | .ofAnd h | .ofEquality h | .ofAdditive h | .ofUnary h | .ofAccess h => by
    obtain ⟨t, us, rfl, ht⟩ := h.head
    exact ⟨t, us, rfl, ht.1, by simp⟩
  | .choice h _ _ | .or h _ | .and h _ | .equal h _ | .unequal h _ => by
    obtain ⟨t, us, rfl, ht⟩ := h.head
    exact ⟨t, _, rfl, ht.1, by simp⟩
  | .sum h => by
    obtain ⟨t, us, rfl, ht⟩ := h.head
    exact ⟨t, us, rfl, ht.1, by simp⟩
  | .not _ => ⟨_, _, rfl, by simp [Terminal.operator], by simp⟩
  | .ofPrimary h => by
    obtain ⟨t, us, rfl, ht⟩ := h.head
    exact ⟨t, us, rfl, ht.1, fun _ => ht.2 (.inr rfl)⟩
  | .member h _ | .call h | .callWith h _ => by
    obtain ⟨t, us, rfl, ht⟩ := h.head
    exact ⟨t, _, rfl, ht⟩
  | .string hk _ => ⟨_, _, rfl, Nonterminal.starts_of_kind (by simp [hk])⟩
  | .number _ | .yes | .no | .null | .name _ =>
    ⟨_, _, rfl, Nonterminal.starts_of_kind (by simp)⟩
  | .group _ => ⟨_, _, rfl, by simp [Terminal.operator], by simp [Terminal.operator]⟩

theorem DerivesSum.head {ts : List Terminal} {es : List Tree} :
    DerivesSum ts es → ∃ t us, ts = t :: us ∧ Nonterminal.unary.Starts t
  | .single h => h.head
  | .plus h _ => by
    obtain ⟨t, us, rfl, ht⟩ := h.head
    exact ⟨t, _, rfl, ht⟩

end

theorem DerivesArguments.head {ts : List Terminal} {es : List Tree} (h : DerivesArguments ts es) :
    ∃ t us, ts = t :: us ∧ Nonterminal.conditional.Starts t := by
  cases h with
  | single h => exact h.head
  | comma h _ =>
    obtain ⟨t, us, rfl, ht⟩ := h.head
    exact ⟨t, _, rfl, ht⟩

end ConditionalStyle.Expression
