import ConditionalStyle.Proofs.Decimal.Range
import ConditionalStyle.Proofs.Expression.Positions
import ConditionalStyle.Proofs.Expression.RoundTrip
import ConditionalStyle.Proofs.Expression.Sum

/-!
# How expressions fail

A text that is no expression has a fault at a position in it, or else an integer of too many digits.
An expression that was read has a value in every namespace, or evaluating it ends in one of five
errors: a name or a member that is not there, a call of something that cannot be called, an operand
that is no boolean, and a sum that has no meaning. There are three other ways to fail: to add a
double and an integer that is too large for one, to add a text and an integer of too many digits,
and an exception that the host raises. Since a method of a text is the host's, too, no function
needs to be named for the last of these.

An operator without a meaning and a chain without operands are errors as well, but no tree that was
read holds either.

## Main definitions

* `EvalError.IsExpected`: the five errors.
* `Adds`: two values that are added while a tree is evaluated.
* `MayFail`: how the evaluation of a tree may fail.
* `Eval.FailsOnly`: computations that fail in given ways only.

## Main statements

* `sum_eq_error`: the sums that fail.
* `eval_failsOnly`: the trees that were read.
* `parse_eval_outcomes`: how reading and evaluating can end.
* `evaluate_joining`: an exception of the host where nothing is named.
-/

namespace ConditionalStyle.Expression

open ConditionalStyle.Expression.Tree

/-- Errors that a text which was read can end in by itself, whatever its namespace. -/
def EvalError.IsExpected : EvalError → Prop
  | .unknownName _ | .noMember .. | .notCallable _ | .notBoolean .. | .cannotAdd .. => True
  | .unknownOperator _ | .tooLarge | .tooLong | .emptyChain | .raised _ => False

/-- An integer that is too large for a double, next to a double. -/
def TooLarge (a b : Value) : Prop :=
  ∃ n x, Decimal.leastTooLarge ≤ n.natAbs ∧
    (a = .int n ∧ b = .float x ∨ a = .float x ∧ b = .int n)

/-- An integer that has too many digits, next to a text. -/
def TooLong (a b : Value) : Prop :=
  ∃ n s, Decimal.isWritable n = false ∧
    (a = .int n ∧ b = .text s ∨ a = .text s ∧ b = .int n)

/-- While a tree is evaluated two values are added: the sum of the first operands of a chain in it,
and the value of the next operand. The log is that of all that was asked up to then. -/
def Adds (names : Namespace) (root : Tree) (log : List Query) (a b : Value) : Prop :=
  ∃ first before operand others, Occurs (.concat (first :: before ++ operand :: others)) root ∧
    ∃ log₀ log₁, eval names (.concat (first :: before)) log₀ = .ok a log₁ ∧
      eval names operand log₁ = .ok b log

/-- The last thing that was asked of a host made it raise an exception. -/
def Raises (host : Host) (log : List Query) (x : Exception) : Prop :=
  ∃ earlier query, log = earlier ++ [query] ∧ host.answer earlier query = .error x

/-- How the evaluation of a tree may fail, with the log at its end. -/
inductive MayFail (names : Namespace) (root : Tree) (log : List Query) : EvalError → Prop
  | expected {e : EvalError} (h : e.IsExpected) : MayFail names root log e
  | tooLarge {a b : Value} (h : Adds names root log a b) (hlarge : TooLarge a b) :
    MayFail names root log .tooLarge
  | tooLong {a b : Value} (h : Adds names root log a b) (hlong : TooLong a b) :
    MayFail names root log .tooLong
  | raised {x : Exception} (h : Raises names.host log x) : MayFail names root log (.raised x)

/-! ### Sums -/

variable {host : Host} {log log' : List Query} {e : EvalError} {a b v : Value}

theorem ask_eq_error {query : Query} (h : ask host query log = .error e log') :
    ∃ x, e = .raised x ∧ Raises host log' x := by
  rw [ask] at h
  rcases hanswer : host.answer log query with x | answer
  · rw [hanswer] at h
    cases h
    exact ⟨x, rfl, log, query, rfl, hanswer⟩
  · rw [hanswer] at h
    cases h

/-- A value has no text if it is an integer of too many digits, or if the host raises an exception
when it is asked for the text. -/
theorem toText_eq_error (h : toText host v log = .error e log') :
    (e = .tooLong ∧ log' = log ∧ ∃ n, v = .int n ∧ Decimal.isWritable n = false) ∨
      ∃ x, e = .raised x ∧ Raises host log' x := by
  cases v with
  | null | bool _ | float _ | text _ => cases h
  | int n =>
    have hint : toText host (.int n) =
        if Decimal.isWritable n = true then pure (toString n) else throw .tooLong := rfl
    rw [hint] at h
    by_cases hn : Decimal.isWritable n = true
    · rw [if_pos hn] at h
      cases h
    · rw [if_neg hn] at h
      cases h
      exact .inl ⟨rfl, rfl, n, rfl, Bool.eq_false_iff.2 hn⟩
  | list _ | dict _ | object _ _ | foreign _ _ _ => exact .inr (ask_eq_error h)

theorem addMixed_eq_error {n : Int} {x : Float} {intFirst : Bool}
    (h : addMixed n x intFirst log = .error e log') :
    e = .tooLarge ∧ log' = log ∧ Decimal.leastTooLarge ≤ n.natAbs := by
  rw [addMixed] at h
  rcases hn : Decimal.ofInt? n with _ | y
  · rw [hn] at h
    cases h
    exact ⟨rfl, rfl, (Decimal.ofInt?_eq_none_iff n).1 hn⟩
  · rw [hn] at h
    cases h

/-- The sums that fail. -/
theorem sum_eq_error (h : sum host a b log = .error e log') :
    e.IsExpected ∨ e = .tooLarge ∧ log' = log ∧ TooLarge a b ∨
      e = .tooLong ∧ log' = log ∧ TooLong a b ∨ ∃ x, e = .raised x ∧ Raises host log' x := by
  unfold sum at h
  split at h
  · next s =>
    rcases error_of_bind h with h | ⟨_, _, -, h⟩
    · rcases toText_eq_error h with ⟨he, hlog, n, rfl, hn⟩ | hraised
      · exact .inr (.inr (.inl ⟨he, hlog, n, s, hn, .inr ⟨rfl, rfl⟩⟩))
      · exact .inr (.inr (.inr hraised))
    · cases h
  · next s _ =>
    rcases error_of_bind h with h | ⟨_, _, -, h⟩
    · rcases toText_eq_error h with ⟨he, hlog, n, rfl, hn⟩ | hraised
      · exact .inr (.inr (.inl ⟨he, hlog, n, s, hn, .inl ⟨rfl, rfl⟩⟩))
      · exact .inr (.inr (.inr hraised))
    · cases h
  · cases h
  · obtain ⟨he, hlog, hn⟩ := addMixed_eq_error h
    exact .inr (.inl ⟨he, hlog, _, _, hn, .inl ⟨rfl, rfl⟩⟩)
  · obtain ⟨he, hlog, hn⟩ := addMixed_eq_error h
    exact .inr (.inl ⟨he, hlog, _, _, hn, .inr ⟨rfl, rfl⟩⟩)
  · cases h
  · cases h
    exact .inl trivial

/-! ### Computations that fail in given ways -/

section FailsOnly

variable {α β : Type} {kind : List Query → EvalError → Prop}

/-- A computation that fails in the given ways only. -/
def Eval.FailsOnly (kind : List Query → EvalError → Prop) (x : Eval α) : Prop :=
  ∀ log e log', x log = .error e log' → kind log' e

theorem failsOnly_pure (a : α) : Eval.FailsOnly kind (pure a) := by
  intro log e log' h
  cases h

theorem failsOnly_throw {e : EvalError} (he : ∀ log, kind log e) :
    Eval.FailsOnly kind (throw e : Eval α) := by
  intro log e' log' h
  cases h
  exact he log

theorem Eval.FailsOnly.bind {x : Eval α} {f : α → Eval β} (hx : Eval.FailsOnly kind x)
    (hf : ∀ a, Eval.FailsOnly kind (f a)) : Eval.FailsOnly kind (x >>= f) := by
  intro log e log' h
  rcases error_of_bind h with h | ⟨a, log₁, -, h⟩
  · exact hx log e log' h
  · exact hf a log₁ e log' h

end FailsOnly

variable {names : Namespace} {root : Tree}

theorem failsOnly_throw_isExpected {α : Type} {e : EvalError} (he : e.IsExpected) :
    Eval.FailsOnly (MayFail names root) (throw e : Eval α) :=
  failsOnly_throw fun _ => .expected he

theorem ask_failsOnly (query : Query) :
    Eval.FailsOnly (MayFail names root) (ask names.host query) := by
  intro log e log' h
  obtain ⟨x, rfl, hraises⟩ := ask_eq_error h
  exact .raised hraises

theorem truth_failsOnly (operator : String) (operand : Tree) (v : Value) :
    Eval.FailsOnly (MayFail names root) (truth operator operand v) := by
  cases v with
  | bool b => exact failsOnly_pure b
  | _ => exact failsOnly_throw_isExpected trivial

theorem compare_failsOnly (negated : Bool) (a b : Value) :
    Eval.FailsOnly (MayFail names root) (compare names.host negated a b) := by
  rw [compare]
  by_cases hplain : (isPlain a && isPlain b) = true
  · rw [if_pos hplain]
    exact failsOnly_pure _
  · rw [if_neg hplain]
    exact ask_failsOnly _

theorem member?_failsOnly (v : Value) (name : String) :
    Eval.FailsOnly (MayFail names root) (member? names.host v name) := by
  cases v with
  | dict entries => exact failsOnly_pure _
  | _ => exact ask_failsOnly _

/-! ### Evaluation -/

theorem Tree.Occurs.child {t c : Tree} (h : Occurs t root) (hc : c ∈ t.children) :
    Occurs c root := by
  induction h with
  | here => exact .inside hc .here
  | inside hmem _ ih => exact .inside hmem ih

/-- The sum of the operands of a chain up to some place. -/
theorem eval_concat_append (names : Namespace) (first : Tree) (before others : List Tree) :
    eval names (.concat (first :: before ++ others)) =
      eval names (.concat (first :: before)) >>= fun v => evalChain names v others := by
  simp only [List.cons_append, eval, evalChain_append, bind_assoc]

-- The recursion follows that of `eval`. A chain needs more than its operands: what is added to the
-- next operand is the sum of those before it.
mutual

theorem eval_failsOnly (hroot : Throughout IsSpellableOrFloat root) :
    (t : Tree) → Occurs t root → Eval.FailsOnly (MayFail names root) (eval names t)
  | .string s, _ => failsOnly_pure _
  | .number n, _ => failsOnly_pure _
  | .boolean b, _ => failsOnly_pure _
  | .null, _ => failsOnly_pure _
  | .name n, _ => by
    rw [eval]
    split
    · exact failsOnly_pure _
    · exact failsOnly_throw_isExpected trivial
  | .member t n, h => by
    rw [eval]
    refine (eval_failsOnly hroot t (h.child (by simp [children]))).bind fun v => ?_
    refine (member?_failsOnly v n).bind fun found => ?_
    split
    · exact failsOnly_pure _
    · exact failsOnly_throw_isExpected trivial
  | .call c args, h => by
    rw [eval]
    refine (eval_failsOnly hroot c (h.child (by simp [children]))).bind fun f => ?_
    split
    · refine (evalAll_failsOnly hroot args fun a ha => h.child (by simp [children, ha])).bind ?_
      exact fun vs => ask_failsOnly _
    · exact failsOnly_throw_isExpected trivial
  | .not t, h => by
    rw [eval]
    refine (eval_failsOnly hroot t (h.child (by simp [children]))).bind fun v => ?_
    exact (truth_failsOnly _ _ v).bind fun b => failsOnly_pure _
  | .binary .and l r, h => by
    have hr := eval_failsOnly hroot r (h.child (by simp [children]))
    rw [eval]
    refine (eval_failsOnly hroot l (h.child (by simp [children]))).bind fun v => ?_
    refine (truth_failsOnly _ _ v).bind fun a => ?_
    split
    · exact hr.bind fun w => (truth_failsOnly _ _ w).bind fun b => failsOnly_pure _
    · exact failsOnly_pure _
  | .binary .or l r, h => by
    have hr := eval_failsOnly hroot r (h.child (by simp [children]))
    rw [eval]
    refine (eval_failsOnly hroot l (h.child (by simp [children]))).bind fun v => ?_
    refine (truth_failsOnly _ _ v).bind fun a => ?_
    split
    · exact failsOnly_pure _
    · exact hr.bind fun w => (truth_failsOnly _ _ w).bind fun b => failsOnly_pure _
  | .binary .equal l r, h => by
    have hr := eval_failsOnly hroot r (h.child (by simp [children]))
    rw [eval]
    refine (eval_failsOnly hroot l (h.child (by simp [children]))).bind fun v => ?_
    exact hr.bind fun w => compare_failsOnly _ v w
  | .binary .unequal l r, h => by
    have hr := eval_failsOnly hroot r (h.child (by simp [children]))
    rw [eval]
    refine (eval_failsOnly hroot l (h.child (by simp [children]))).bind fun v => ?_
    exact hr.bind fun w => compare_failsOnly _ v w
  | .binary (.unknown s) l r, h => by
    rcases hroot _ h with hknown | ⟨x, hx⟩
    · exact absurd rfl (hknown s)
    · cases hx
  | .concat [], h => by
    rcases hroot _ h with hlength | ⟨x, hx⟩
    · cases hlength
    · cases hx
  | .concat (t :: ts), h => by
    intro log e log' he
    rw [eval] at he
    rcases error_of_bind he with he | ⟨v, log₁, hv, he⟩
    · exact eval_failsOnly hroot t (h.child (by simp [children])) _ _ _ he
    · have hfirst : eval names (.concat [t]) log = .ok v log₁ := by
        rw [eval, bind_of_ok hv]
        rfl
      exact evalChain_mayFail hroot ts t [] h hfirst he
  | .conditional c y n, h => by
    have hy := eval_failsOnly hroot y (h.child (by simp [children]))
    have hn := eval_failsOnly hroot n (h.child (by simp [children]))
    rw [eval]
    refine (eval_failsOnly hroot c (h.child (by simp [children]))).bind fun v => ?_
    refine (truth_failsOnly _ _ v).bind fun b => ?_
    split
    · exact hy
    · exact hn

theorem evalAll_failsOnly (hroot : Throughout IsSpellableOrFloat root) :
    (ts : List Tree) → (∀ t ∈ ts, Occurs t root) →
      Eval.FailsOnly (MayFail names root) (evalAll names ts)
  | [], _ => failsOnly_pure _
  | t :: ts, h => by
    obtain ⟨ht, hts⟩ := List.forall_mem_cons.1 h
    have hrest := evalAll_failsOnly hroot ts hts
    rw [evalAll]
    exact (eval_failsOnly hroot t ht).bind fun v => hrest.bind fun vs => failsOnly_pure _

theorem evalChain_mayFail (hroot : Throughout IsSpellableOrFloat root) :
    (ts : List Tree) → (first : Tree) → (before : List Tree) →
      Occurs (.concat (first :: before ++ ts)) root →
      ∀ {acc : Value} {e : EvalError} {log₀ log log' : List Query},
      eval names (.concat (first :: before)) log₀ = .ok acc log →
      evalChain names acc ts log = .error e log' → MayFail names root log' e
  | [], _, _, _, _, _, _, _, _, _, he => by cases he
  | t :: ts, first, before, h, acc, e, log₀, log, log', hacc, he => by
    rw [evalChain] at he
    rcases error_of_bind he with he | ⟨v, log₁, hv, he⟩
    · exact eval_failsOnly hroot t (h.child (by simp [children])) _ _ _ he
    rcases error_of_bind he with he | ⟨s, log₂, hs, he⟩
    · have hadds : Adds names root log₁ acc v := ⟨first, before, t, ts, h, log₀, log, hacc, hv⟩
      rcases sum_eq_error he with hexpected | ⟨rfl, rfl, hlarge⟩ | ⟨rfl, rfl, hlong⟩ |
        ⟨x, rfl, hraises⟩
      · exact .expected hexpected
      · exact .tooLarge hadds hlarge
      · exact .tooLong hadds hlong
      · exact .raised hraises
    · have hlonger := congrFun (eval_concat_append names first before [t]) log₀
      rw [bind_of_ok hacc, evalChain, bind_of_ok hv, bind_of_ok hs] at hlonger
      exact evalChain_mayFail hroot ts first (before ++ [t]) (by simpa using h) hlonger he

end

/-- A text has a fault at one of its positions, or an integer of too many digits, or it is an
expression. Evaluating that, in any namespace and after anything that was asked of its host, gives a
value or an expected error, unless a double and an integer that is too large for one are added, or a
text and an integer of too many digits, or the host raises an exception. -/
theorem parse_eval_outcomes (source : String) :
    (∃ cause position, parse source = .error (.malformed ⟨cause, position⟩) ∧
      position ≤ source.length) ∨
    (∃ s, scan source = .ok s ∧ ∃ t ∈ s.tokens, ¬t.terminal.Fits Decimal.maxDigits ∧
      parse source = .error (.tooLong Decimal.maxDigits t.text.length)) ∨
    ∃ t, parse source = .ok t ∧ ∀ names log,
      (∃ v log', eval names t log = .ok v log') ∨
        ∃ e log', eval names t log = .error e log' ∧ MayFail names t log' e := by
  rcases h : parse source with e | t
  · rcases error_of_parse h with ⟨cause, position, rfl, hposition⟩ | ⟨s, hs, t, ht, hlong, rfl⟩
    · exact .inl ⟨cause, position, rfl, hposition⟩
    · exact .inr (.inl ⟨s, hs, t, ht, hlong, rfl⟩)
  refine .inr (.inr ⟨t, rfl, fun names log => ?_⟩)
  rcases heval : eval names t log with ⟨v, log'⟩ | ⟨e, log'⟩
  · exact .inl ⟨v, log', rfl⟩
  · have hfails := eval_failsOnly (spellableOrFloat_of_parse h) t .here log e log' heval
    exact .inr ⟨e, log', rfl, hfails⟩

/-- A host whose texts have a method `join`, which wants a list. -/
def Host.joining : Host where
  isCallable identity := identity == 0
  answer
    | _, .member (.text _) "join" => .ok (some (.object 0 "builtin_function_or_method"))
    | _, .call (.object 0 _) [.int _] => .error ⟨"TypeError", "can only join an iterable"⟩
    | log, query => bare.answer log query

/-- No name is needed to make the host raise an exception. -/
theorem evaluate_joining :
    evaluate "\"a\".join(1)" ⟨[], .joining⟩ =
      ⟨[.member (.text "a") "join",
          .call (.object 0 "builtin_function_or_method") [.int 1]],
        .error (.failed (.raised ⟨"TypeError", "can only join an iterable"⟩))⟩ := by
  have hparse : parse "\"a\".join(1)" =
      .ok (.call (.member (.string "a") "join") [.number (.int 1)]) := by
    refine parse_text (e := .call (.member (.string "a") "join") [.number (.int 1)]) ?_
    have hjoin : IsIdentifier "join" :=
      ⟨⟨'j', ['o', 'i', 'n'], by decide, by decide, List.all_eq_true.1 (by decide)⟩, by decide⟩
    have htext : Throughout IsSpellable (.string "a") :=
      throughout_iff.2 ⟨trivial, by simp [children]⟩
    have hmember : Throughout IsSpellable (.member (.string "a") "join") :=
      throughout_iff.2 ⟨hjoin, by simp [children, htext]⟩
    have hone : Throughout IsSpellable (.number (.int 1)) :=
      throughout_iff.2 ⟨⟨1, rfl, by decide +kernel⟩, by simp [children]⟩
    exact throughout_iff.2 ⟨trivial, by simp [children, hmember, hone]⟩
  rw [evaluate, Outcome.ofText, hparse]
  rfl

end ConditionalStyle.Expression
