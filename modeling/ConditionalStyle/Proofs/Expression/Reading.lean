import ConditionalStyle.Proofs.Expression.Grammar
import ConditionalStyle.Proofs.Reading

/-!
# The reading functions without their bounds

Each function that reads an expression gets an equation in which the bounds on what is left are
forgotten.

## Main definitions

* `Parser.after?`, `Parser.afterLevel?`: the tokens after an operator that comes next.

## Main statements

* one equation `Parser.plain_…` for each reading function.
-/

namespace ConditionalStyle.Expression.Parser

/-! ### Operators that come next -/

/-- The tokens after the given operator, if it comes next. -/
def after? (symbol : String) : List Token → Option (List Token)
  | [] => none
  | t :: rest => if t.isOperator symbol then some rest else none

/-- The tokens after an operator of a level, if one comes next. -/
def afterLevel? (level : Nat) : List Token → Option (Operator × List Token)
  | [] => none
  | t :: rest => ((levelSymbols level).find? fun op => t.isOperator op.symbol).map (·, rest)

theorem operator?_map (symbol : String) (ts : List Token) :
    (operator? symbol ts).map Subtype.val = after? symbol ts := by
  cases ts with
  | nil => rfl
  | cons t rest =>
    simp only [operator?, after?]
    split <;> rfl

theorem levelOperator?_map (level : Nat) (ts : List Token) :
    (levelOperator? level ts).map (fun x => (x.1, x.2.1)) = afterLevel? level ts := by
  cases ts with
  | nil => rfl
  | cons t rest =>
    simp only [levelOperator?, afterLevel?, Option.map_map]
    rfl

theorem after?_of_none {symbol : String} {ts : List Token} (h : operator? symbol ts = none) :
    after? symbol ts = none := by
  rw [← operator?_map, h, Option.map_none]

theorem after?_of_some {symbol : String} {ts : List Token} {r : Shorter ts}
    (h : operator? symbol ts = some r) : after? symbol ts = some r.1 := by
  rw [← operator?_map, h, Option.map_some]

theorem afterLevel?_of_none {level : Nat} {ts : List Token} (h : levelOperator? level ts = none) :
    afterLevel? level ts = none := by
  rw [← levelOperator?_map, h, Option.map_none]

theorem afterLevel?_of_some {level : Nat} {ts : List Token} {op : Operator} {r : Shorter ts}
    (h : levelOperator? level ts = some (op, r)) : afterLevel? level ts = some (op, r.1) := by
  rw [← levelOperator?_map, h, Option.map_some]

/-! ### One equation for each function -/

variable (bounds : Bounds)

theorem plain_conditional (ts : List Token) :
    plain (conditional bounds ts) = (plain (binary bounds 3 ts)).bind fun (test, r) =>
      match after? "?" r with
      | none => .ok (test, r)
      | some r₁ => (plain (conditional bounds r₁)).bind fun (yes, r₂) =>
        match after? ":" r₂ with
        | none => .error (fault .expectedColon (position bounds r₂))
        | some r₃ => (plain (conditional bounds r₃)).bind fun (no, r₄) =>
          .ok (.conditional test yes no, r₄) := by
  rw [conditional]
  rcases binary bounds 3 ts with e | ⟨test, r, hr⟩
  · rfl
  dsimp only [plain_ok, Except.bind]
  rcases h : operator? "?" r with _ | ⟨r₁, h₁⟩
  · rw [after?_of_none h]
    rfl
  rw [after?_of_some h]
  dsimp only
  rcases conditional bounds r₁ with e | ⟨yes, r₂, h₂⟩
  · rfl
  dsimp only [plain_ok]
  rcases h' : operator? ":" r₂ with _ | ⟨r₃, h₃⟩
  · rw [after?_of_none h']
    rfl
  rw [after?_of_some h']
  dsimp only
  rcases conditional bounds r₃ with e | ⟨no, r₄, h₄⟩ <;> rfl

theorem plain_binary_zero (ts : List Token) :
    plain (binary bounds 0 ts) = (plain (unary bounds ts)).bind fun (first, r) =>
      (plain (summands bounds r)).bind fun (rest, r₁) => .ok (chain first rest, r₁) := by
  rw [binary]
  rcases unary bounds ts with e | ⟨first, r, hr⟩
  · rfl
  dsimp only [plain_ok, Except.bind]
  rcases summands bounds r with e | ⟨rest, r₁, h₁⟩ <;> rfl

theorem plain_binary_succ (level : Nat) (ts : List Token) :
    plain (binary bounds (level + 1) ts) = (plain (binary bounds level ts)).bind fun (left, r) =>
      plain (binaryRest bounds level left r) := by
  rw [binary]
  rcases binary bounds level ts with e | ⟨left, r, hr⟩
  · rfl
  dsimp only [plain_ok, Except.bind]
  rcases binaryRest bounds level left r with e | ⟨t, r₁, h₁⟩ <;> rfl

theorem plain_binaryRest (level : Nat) (left : Tree) (ts : List Token) :
    plain (binaryRest bounds level left ts) =
      match afterLevel? (level + 1) ts with
      | none => .ok (left, ts)
      | some (op, r) => (plain (binary bounds level r)).bind fun (right, r₁) =>
        plain (binaryRest bounds level (.binary op left right) r₁) := by
  rw [binaryRest]
  rcases h : levelOperator? (level + 1) ts with _ | ⟨op, r, hr⟩
  · rw [afterLevel?_of_none h]
    rfl
  rw [afterLevel?_of_some h]
  dsimp only
  rcases binary bounds level r with e | ⟨right, r₁, h₁⟩
  · rfl
  dsimp only [plain_ok, Except.bind]
  rcases binaryRest bounds level (.binary op left right) r₁ with e | ⟨t, r₂, h₂⟩ <;> rfl

theorem plain_summands (ts : List Token) :
    plain (summands bounds ts) =
      match after? "+" ts with
      | none => .ok ([], ts)
      | some r => (plain (unary bounds r)).bind fun (t, r₁) =>
        (plain (summands bounds r₁)).bind fun (rest, r₂) => .ok (t :: rest, r₂) := by
  rw [summands]
  rcases h : operator? "+" ts with _ | ⟨r, hr⟩
  · rw [after?_of_none h]
    rfl
  rw [after?_of_some h]
  dsimp only
  rcases unary bounds r with e | ⟨t, r₁, h₁⟩
  · rfl
  dsimp only [plain_ok, Except.bind]
  rcases summands bounds r₁ with e | ⟨rest, r₂, h₂⟩ <;> rfl

/-- A primary expression with the members and calls that follow it. -/
def access (ts : List Token) : Except ParseError (Tree × List Token) :=
  (plain (primary bounds ts)).bind fun (t, r) => plain (postfixes bounds t r)

theorem plain_unary (ts : List Token) :
    plain (unary bounds ts) =
      match after? "!" ts with
      | some r => (plain (unary bounds r)).bind fun (t, r₁) => .ok (.not t, r₁)
      | none => access bounds ts := by
  rw [unary, access]
  rcases h : operator? "!" ts with _ | ⟨r, hr⟩
  · rw [after?_of_none h]
    dsimp only
    rcases primary bounds ts with e | ⟨t, r, hr⟩
    · rfl
    dsimp only [plain_ok, Except.bind]
    rcases postfixes bounds t r with e | ⟨t, r₁, h₁⟩ <;> rfl
  rw [after?_of_some h]
  dsimp only
  rcases unary bounds r with e | ⟨t, r₁, h₁⟩ <;> rfl

theorem plain_postfixes (t : Tree) (ts : List Token) :
    plain (postfixes bounds t ts) =
      match after? "." ts with
      | some [] => .error (fault .expectedMember bounds.finish)
      | some (n :: r) =>
        if n.kind == .name then plain (postfixes bounds (.member t n.text) r)
        else .error (fault .expectedMember n.position)
      | none =>
        match after? "(" ts with
        | none => .ok (t, ts)
        | some r =>
          match after? ")" r with
          | some r₁ => plain (postfixes bounds (.call t []) r₁)
          | none => (plain (arguments bounds r)).bind fun (args, r₁) =>
            plain (postfixes bounds (.call t args) r₁) := by
  rw [postfixes]
  rcases h : operator? "." ts with _ | ⟨_ | ⟨n, r⟩, hr⟩
  · rw [after?_of_none h]
    dsimp only
    rcases h' : operator? "(" ts with _ | ⟨r, hr⟩
    · rw [after?_of_none h']
      rfl
    rw [after?_of_some h']
    dsimp only
    rcases h'' : operator? ")" r with _ | ⟨r₁, h₁⟩
    · rw [after?_of_none h'']
      dsimp only
      rcases arguments bounds r with e | ⟨args, r₁, h₁⟩
      · rfl
      dsimp only [plain_ok, Except.bind]
      rcases postfixes bounds (.call t args) r₁ with e | ⟨t, r₂, h₂⟩ <;> rfl
    rw [after?_of_some h'']
    dsimp only
    rcases postfixes bounds (.call t []) r₁ with e | ⟨t, r₂, h₂⟩ <;> rfl
  · rw [after?_of_some h]
    rfl
  · rw [after?_of_some h]
    dsimp only
    split
    · rcases postfixes bounds (.member t n.text) r with e | ⟨t, r₁, h₁⟩ <;> rfl
    · rfl

theorem plain_arguments (ts : List Token) :
    plain (arguments bounds ts) = (plain (conditional bounds ts)).bind fun (t, r) =>
      match after? ")" r with
      | some r₁ => .ok ([t], r₁)
      | none =>
        match after? "," r with
        | none => .error (fault .expectedArgumentEnd (position bounds r))
        | some r₁ => (plain (arguments bounds r₁)).bind fun (rest, r₂) => .ok (t :: rest, r₂) := by
  rw [arguments]
  rcases conditional bounds ts with e | ⟨t, r, hr⟩
  · rfl
  dsimp only [plain_ok, Except.bind]
  rcases h : operator? ")" r with _ | ⟨r₁, h₁⟩
  · rw [after?_of_none h]
    dsimp only
    rcases h' : operator? "," r with _ | ⟨r₁, h₁⟩
    · rw [after?_of_none h']
      rfl
    rw [after?_of_some h']
    dsimp only
    rcases arguments bounds r₁ with e | ⟨rest, r₂, h₂⟩ <;> rfl
  · rw [after?_of_some h]
    rfl

theorem plain_primary (ts : List Token) :
    plain (primary bounds ts) =
      match after? "(" ts with
      | some r => (plain (conditional bounds r)).bind fun (t, r₁) =>
        match after? ")" r₁ with
        | none => .error (fault .expectedGroupEnd (position bounds r₁))
        | some r₂ => .ok (t, r₂)
      | none =>
        match ts with
        | [] => .error (fault .unexpectedEnd bounds.finish)
        | t :: r => (atom bounds t).bind fun tree => .ok (tree, r) := by
  rw [primary.eq_def]
  rcases h : operator? "(" ts with _ | ⟨r, hr⟩
  · rw [after?_of_none h]
    dsimp only
    cases ts with
    | nil => rfl
    | cons t r =>
      dsimp only
      rcases atom bounds t with e | tree <;> rfl
  rw [after?_of_some h]
  dsimp only
  rcases conditional bounds r with e | ⟨t, r₁, h₁⟩
  · rfl
  dsimp only [plain_ok, Except.bind]
  rcases h' : operator? ")" r₁ with _ | ⟨r₂, h₂⟩
  · rw [after?_of_none h']
    rfl
  · rw [after?_of_some h']
    rfl

theorem whole_eq (ts : List Token) :
    whole bounds ts =
      match ts with
      | [] => .error (fault .empty 0)
      | t :: r => (plain (conditional bounds (t :: r))).bind fun (tree, rest) =>
        match rest with
        | [] => .ok tree
        | u :: _ => .error (fault (.unexpectedToken u.text) u.position) := by
  cases ts with
  | nil => rfl
  | cons t r =>
    simp only [whole]
    rcases conditional bounds (t :: r) with e | ⟨tree, _ | ⟨u, v⟩, h⟩ <;> rfl

end ConditionalStyle.Expression.Parser
