import ConditionalStyle.Expression.Eval

/-!
# Sums of texts

A sum that has come to a text stays one: every further operand only adds its own text. So a sum
that starts with a text, or has one as its second operand, is the text of its operands in order.

## Main definitions

* `texts`: the texts of operands, put together in order.

## Main statements

* `evalText_of_text`: the text of an expression whose value is a text.
* `evalChain_text`: what a text becomes when operands are added to it.
* `eval_chain_of_text`, `eval_chain_string`, `eval_chain_second`: sums that meet a text among their
  first two operands.
-/

namespace ConditionalStyle.Expression

variable (names : Namespace)

theorem toText_text (host : Host) (s : String) : toText host (.text s) = pure s := rfl

theorem sum_text_left (host : Host) (s : String) (v : Value) :
    sum host (.text s) v = toText host v >>= fun r => pure (.text (s ++ r)) := rfl

theorem sum_text_right (host : Host) (v : Value) (s : String) :
    sum host v (.text s) = toText host v >>= fun r => pure (.text (r ++ s)) := by
  cases v <;> rfl

/-- An expression whose value is a text has that text. -/
theorem evalText_of_text {e : Tree} {x : Eval String} (h : eval names e = Value.text <$> x) :
    evalText names e = x := by
  simp only [evalText, h, map_eq_pure_bind, bind_assoc, pure_bind, toText_text, bind_pure]

theorem eval_chain (e : Tree) (es : List Tree) :
    eval names (Parser.chain e es) = eval names e >>= fun v => evalChain names v es := by
  rcases es with _ | ⟨e', es⟩
  · simp only [Parser.chain, evalChain, bind_pure]
  · simp only [Parser.chain, eval]

theorem evalChain_append (v : Value) (es es' : List Tree) :
    evalChain names v (es ++ es') = evalChain names v es >>= fun w => evalChain names w es' := by
  induction es generalizing v with
  | nil => simp only [List.nil_append, evalChain, pure_bind]
  | cons e es ih => simp only [List.cons_append, evalChain, ih, bind_assoc]

/-- The texts of operands, put together in order. -/
def texts : List Tree → Eval String
  | [] => pure ""
  | t :: ts => do
    let s ← evalText names t
    let r ← texts ts
    return s ++ r

/-- Operands added to a text only add their texts. -/
theorem evalChain_text (s : String) (ts : List Tree) :
    evalChain names (.text s) ts = (fun r => .text (s ++ r)) <$> texts names ts := by
  induction ts generalizing s with
  | nil => simp only [evalChain, texts, map_pure, String.append_empty]
  | cons t ts ih =>
    simp only [evalChain, texts, evalText, sum_text_left, pure_bind, ih, map_eq_pure_bind,
      bind_assoc, String.append_assoc]

/-- A sum whose first operand is a text is a text. -/
theorem eval_chain_of_text {e : Tree} {x : Eval String} (h : eval names e = Value.text <$> x)
    (es : List Tree) :
    eval names (Parser.chain e es) = Value.text <$> texts names (e :: es) := by
  rw [eval_chain, texts, evalText_of_text names h, h]
  simp only [map_eq_pure_bind, bind_assoc, pure_bind, evalChain_text]

/-- A sum that starts with a string literal is a text. -/
theorem eval_chain_string (s : String) (es : List Tree) :
    eval names (Parser.chain (.string s) es) = Value.text <$> texts names (.string s :: es) := by
  have hstring : eval names (.string s) = Value.text <$> pure s := by rw [eval, map_pure]
  exact eval_chain_of_text names hstring es

/-- A sum whose second operand is a text is a text. -/
theorem eval_chain_second (e : Tree) (s : String) (es : List Tree) :
    eval names (Parser.chain e (.string s :: es)) =
      Value.text <$> texts names (e :: .string s :: es) := by
  rw [eval_chain]
  simp only [texts, evalText, evalChain, eval, pure_bind, sum_text_right, evalChain_text,
    toText_text, map_eq_pure_bind, String.append_assoc, bind_assoc]

end ConditionalStyle.Expression
