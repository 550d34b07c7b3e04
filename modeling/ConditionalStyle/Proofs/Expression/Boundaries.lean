import ConditionalStyle.Proofs.Expression.Positions
import ConditionalStyle.Proofs.Expression.Splicing

/-!
# Parentheses as boundaries

A text that is put between parentheses keeps its tokens, and so do the texts before and after the
parentheses. Each of the three texts has to be one that can be scanned, but none has to be an
expression: parentheses and operators in them need not match. Tokens only move by the length of what
stands before them.

Scanning goes from left to right. So what is after a text matters where the text ends, and a
parenthesis ends every lexeme; what is before a text matters for the positions alone.

## Main definitions

* `Token.shift`, `Scanned.shift`: tokens of a text that stands further to the right.
* `Scanned.after`: tokens in front of what has been scanned.

## Main statements

* `scanFrom_shift`: scanning at a later position.
* `scanFrom_append`: scanning a text and what follows it from a parenthesis on.
* `scan_spliced`: scanning a text between parentheses, with texts on both sides.
-/

namespace ConditionalStyle.Expression

/-- A token of a text that stands `k` characters further to the right. -/
def Token.shift (k : Nat) (t : Token) : Token :=
  { t with position := k + t.position }

namespace Scanned

/-- All tokens of a text that stands `k` characters further to the right. -/
def shift (k : Nat) (s : Scanned) : Scanned :=
  ⟨s.tokens.map (Token.shift k), s.finish.shift k⟩

/-- Tokens in front of those scanned after them. -/
def after (ts : List Token) (s : Scanned) : Scanned :=
  { s with tokens := ts ++ s.tokens }

variable (l : Lexeme) (text : String) (position : Nat)

theorem shift_prepend (k : Nat) (s : Scanned) :
    (s.prepend l text position).shift k = (s.shift k).prepend l text (k + position) := by
  rw [prepend, prepend]
  cases l.kind? text <;> rfl

theorem prepend_after (s r : Scanned) :
    (r.after s.tokens).prepend l text position = r.after (s.prepend l text position).tokens := by
  rw [prepend, prepend]
  cases l.kind? text <;> rfl

theorem map_after_after (x : Except ScanError Scanned) (ts us : List Token) :
    (x.map (after us)).map (after ts) = x.map (after (ts ++ us)) := by
  cases x with
  | error e => rfl
  | ok s => simp only [Except.map, after, List.append_assoc]

end Scanned

variable {position : Nat} {a b cs : List Char} {s : Scanned}

/-- The position of a text has no influence on its tokens but for their positions. -/
theorem scanFrom_shift (k : Nat) (h : scanFrom position cs = .ok s) :
    scanFrom (k + position) cs = .ok (s.shift k) := by
  refine scanFrom_induction ?_ ?_ h
  · intro position
    rw [scanFrom]
    rfl
  · intro position cs l n s hl ih
    rw [scanFrom_of_lexeme? _ hl, Nat.add_assoc, ih, Scanned.shift_prepend]
    rfl

/-- What follows a text from a parenthesis on has no influence on the tokens of the text. -/
theorem scanFrom_append (h : scanFrom position a = .ok s) (hb : Bracketed b) :
    scanFrom position (a ++ b) =
      (scanFrom (position + a.length) b).map (Scanned.after s.tokens) := by
  refine scanFrom_induction ?_ ?_ h
  · intro position
    cases hscan : scanFrom (position + [].length) b with
    | error e => exact hscan
    | ok r => exact hscan
  · intro position a l n s hl ih
    -- the first lexeme is the same with `b` and without, and `b` follows the rest of the text
    have hle : n ≤ a.length := lexeme?_le hl
    have hlength : position + (a.take n).length + (a.drop n).length = position + a.length := by
      rw [Nat.add_assoc, ← List.length_append, List.take_append_drop]
    rw [scanFrom_of_lexeme? position (lexeme?_append hl hb), List.take_append_of_le_length hle,
      List.drop_append_of_le_length hle, ih, hlength]
    cases scanFrom (position + a.length) b with
    | error e => rfl
    | ok r => exact congrArg Except.ok (Scanned.prepend_after l _ position s r)

theorem scanFrom_parenthesis (position : Nat) {c : Char} (hc : c = '(' ∨ c = ')')
    (b : List Char) :
    scanFrom position (c :: b) = (scanFrom (position + 1) b).map
      (Scanned.after [⟨.operator, String.singleton c, position⟩]) := by
  have hl : lexeme? (c :: b) = some (.operator, 1) := by
    refine lexeme?_operator ?_ b
    rcases hc with rfl | rfl <;> simp
  rw [scanFrom_of_lexeme? position hl]
  rfl

/-- A text between parentheses, with anything after them. -/
theorem scanFrom_group (h : scanFrom 0 cs = .ok s) (position : Nat) (b : List Char) :
    scanFrom position ('(' :: (cs ++ ')' :: b)) =
      (scanFrom (position + 1 + cs.length + 1) b).map (Scanned.after
        (⟨.operator, "(", position⟩ :: (s.tokens.map (Token.shift (position + 1)) ++
          [⟨.operator, ")", position + 1 + cs.length⟩]))) := by
  have hclose : Bracketed (')' :: b) := bracketed_cons (.inr rfl) b
  have hinner : scanFrom (position + 1) cs = .ok (s.shift (position + 1)) :=
    scanFrom_shift (position + 1) h
  rw [scanFrom_parenthesis position (.inl rfl), scanFrom_append hinner hclose,
    scanFrom_parenthesis _ (.inr rfl), Scanned.map_after_after, Scanned.map_after_after]
  rfl

/-- Nothing of a text leaks out through the parentheses around it. Put a text between parentheses
and between two other texts: if the three can be scanned alone, the whole can be scanned, and its
tokens are those of the first text, an opening parenthesis, those of the second, a closing
parenthesis, and those of the third, each moved by the length of what stands before its text. -/
theorem scan_spliced {a e b : String} {sa se sb : Scanned} (ha : scan a = .ok sa)
    (he : scan e = .ok se) (hb : scan b = .ok sb) :
    scan (a ++ "(" ++ e ++ ")" ++ b) = .ok
      ⟨sa.tokens ++ ⟨.operator, "(", a.length⟩ ::
          (se.tokens.map (Token.shift (a.length + 1)) ++
            ⟨.operator, ")", a.length + 1 + e.length⟩ ::
              sb.tokens.map (Token.shift (a.length + 1 + e.length + 1))),
        ⟨.finish, "", a.length + 1 + e.length + 1 + b.length⟩⟩ := by
  have htext : (a ++ "(" ++ e ++ ")" ++ b).toList =
      a.toList ++ '(' :: (e.toList ++ ')' :: b.toList) := by simp
  have hopen : Bracketed ('(' :: (e.toList ++ ')' :: b.toList)) := bracketed_cons (.inl rfl) _
  have hlast := scanFrom_shift (a.length + 1 + e.length + 1) hb
  have hfinish : (sb.shift (a.length + 1 + e.length + 1)).finish =
      ⟨.finish, "", a.length + 1 + e.length + 1 + b.length⟩ := by
    rw [finish_of_scanFrom hlast, Nat.add_zero, String.length_toList]
  rw [Nat.add_zero] at hlast
  rw [scan, htext, scanFrom_append ha hopen, scanFrom_group he, String.length_toList,
    String.length_toList, Nat.zero_add, hlast, ← hfinish]
  simp only [Except.map, Scanned.after, Scanned.shift, List.cons_append, List.append_assoc,
    List.nil_append]

/-- Texts that end and begin in the middle of something: before the parentheses a number and a
point, between them an open parenthesis after a string that holds a closing one, and after them a
digit. -/
theorem scan_spliced_unbalanced :
    scan "x?1." = .ok ⟨[⟨.name, "x", 0⟩, ⟨.operator, "?", 1⟩, ⟨.number, "1", 2⟩,
      ⟨.operator, ".", 3⟩], ⟨.finish, "", 4⟩⟩ ∧
    scan "\")\"(b " = .ok ⟨[⟨.string, "\")\"", 0⟩, ⟨.operator, "(", 3⟩, ⟨.name, "b", 4⟩],
      ⟨.finish, "", 6⟩⟩ ∧
    scan "2==c" = .ok ⟨[⟨.number, "2", 0⟩, ⟨.operator, "==", 1⟩, ⟨.name, "c", 3⟩],
      ⟨.finish, "", 4⟩⟩ ∧
    scan ("x?1." ++ "(" ++ "\")\"(b " ++ ")" ++ "2==c") = .ok ⟨[⟨.name, "x", 0⟩,
      ⟨.operator, "?", 1⟩, ⟨.number, "1", 2⟩, ⟨.operator, ".", 3⟩, ⟨.operator, "(", 4⟩,
      ⟨.string, "\")\"", 5⟩, ⟨.operator, "(", 8⟩, ⟨.name, "b", 9⟩, ⟨.operator, ")", 11⟩,
      ⟨.number, "2", 12⟩, ⟨.operator, "==", 13⟩, ⟨.name, "c", 15⟩], ⟨.finish, "", 16⟩⟩ := by
  have ha : scan "x?1." = .ok ⟨[⟨.name, "x", 0⟩, ⟨.operator, "?", 1⟩, ⟨.number, "1", 2⟩,
      ⟨.operator, ".", 3⟩], ⟨.finish, "", 4⟩⟩ := by with_unfolding_all rfl
  have he : scan "\")\"(b " = .ok ⟨[⟨.string, "\")\"", 0⟩, ⟨.operator, "(", 3⟩,
      ⟨.name, "b", 4⟩], ⟨.finish, "", 6⟩⟩ := by with_unfolding_all rfl
  have hb : scan "2==c" = .ok ⟨[⟨.number, "2", 0⟩, ⟨.operator, "==", 1⟩, ⟨.name, "c", 3⟩],
      ⟨.finish, "", 4⟩⟩ := by with_unfolding_all rfl
  exact ⟨ha, he, hb, scan_spliced ha he hb⟩

end ConditionalStyle.Expression
