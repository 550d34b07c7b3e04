import ConditionalStyle.Proofs.Expression.Sum

/-!
# Regrouping a sum

Operands of a sum may be put in groups, so that the sum becomes a sum of sums. This may change its
value: `"a" + 1 + 2` is `a12`, and `"a" + (1 + 2)` is `a3`. It changes nothing if the first operand
is a string literal and if every later group of several operands has a string literal among its
first two. Then each group comes to a text before two of its operands could be added as numbers,
and both sums are the texts of all operands in order.

## Main definitions

* `joined`: the expression of a group.
* `MeetsText`: groups that have a string literal early enough.

## Main statements

* `texts_map_joined`: groups have the texts of their operands.
* `eval_regrouped`: the sum of the groups and the sum of all operands are the same.
-/

namespace ConditionalStyle.Expression

variable (names : Namespace)

/-- The expression of a group: a lone operand, or else the sum of the operands. -/
def joined : List Tree → Tree
  | [t] => t
  | ts => .concat ts

/-- A group of one operand, or with a string literal among its first two. -/
def MeetsText (g : List Tree) : Prop :=
  g.length = 1 ∨ ∃ s, .string s ∈ g.take 2

theorem joined_cons (t : Tree) (ts : List Tree) : joined (t :: ts) = Parser.chain t ts := by
  cases ts <;> rfl

theorem eval_concat_cons (t : Tree) (ts : List Tree) :
    eval names (.concat (t :: ts)) = eval names (Parser.chain t ts) := by
  rw [eval_chain, eval]

theorem texts_singleton (t : Tree) : texts names [t] = evalText names t := by
  simp only [texts, pure_bind, String.append_empty, bind_pure]

theorem texts_append (ts us : List Tree) :
    texts names (ts ++ us) = (do return (← texts names ts) ++ (← texts names us)) := by
  induction ts with
  | nil => simp only [List.nil_append, texts, pure_bind, String.empty_append, bind_pure]
  | cons t ts ih =>
    simp only [List.cons_append, texts, ih, bind_assoc, pure_bind, String.append_assoc]

/-- A group that meets a text has, taken as one operand, the texts of its operands. -/
theorem texts_joined {g : List Tree} (h : MeetsText g) :
    texts names [joined g] = texts names g := by
  rcases g with _ | ⟨t, _ | ⟨u, rest⟩⟩
  · simp [MeetsText] at h
  · rfl
  · have htext : eval names (joined (t :: u :: rest)) =
        Value.text <$> texts names (t :: u :: rest) := by
      rw [joined_cons]
      obtain hlone | ⟨s, hs⟩ := h
      · simp at hlone
      · simp only [List.take_succ_cons, List.take_zero, List.mem_cons, List.not_mem_nil,
          or_false] at hs
        rcases hs with rfl | rfl
        · exact eval_chain_string names s (u :: rest)
        · exact eval_chain_second names t s rest
    rw [texts_singleton, evalText_of_text names htext]

theorem texts_map_joined {gs : List (List Tree)} (h : ∀ g ∈ gs, MeetsText g) :
    texts names (gs.map joined) = texts names gs.flatten := by
  induction gs with
  | nil => rfl
  | cons g gs ih =>
    obtain ⟨hg, hgs⟩ := List.forall_mem_cons.1 h
    rw [List.map_cons, List.flatten_cons, ← List.singleton_append, texts_append, texts_append,
      texts_joined names hg, ih hgs]

/-- Regrouping changes nothing if the first group starts with a string literal and every later one
is a lone operand or has a string literal among its first two. The two sums are the same
computation: whatever the host, and whatever it was asked before, they come to the same value or
fail with the same error, after asking the same of the host in the same order. -/
theorem eval_regrouped (first : List Tree) (later : List (List Tree))
    (hfirst : ∃ s, first.head? = some (.string s)) (hlater : ∀ g ∈ later, MeetsText g) :
    eval names (.concat ((first :: later).map joined)) =
      eval names (.concat (first :: later).flatten) := by
  obtain ⟨s, hs⟩ := hfirst
  obtain ⟨rest, rfl⟩ := List.head?_eq_some_iff.1 hs
  have hgroups : ∀ g ∈ (.string s :: rest) :: later, MeetsText g :=
    List.forall_mem_cons.2 ⟨.inr ⟨s, List.mem_cons_self⟩, hlater⟩
  have hstart : eval names (joined (.string s :: rest)) =
      Value.text <$> texts names (.string s :: rest) := by
    rw [joined_cons, eval_chain_string]
  calc eval names (.concat (((.string s :: rest) :: later).map joined))
      = Value.text <$> texts names (((.string s :: rest) :: later).map joined) := by
        rw [List.map_cons, eval_concat_cons, eval_chain_of_text names hstart]
    _ = Value.text <$> texts names ((.string s :: rest) :: later).flatten := by
        rw [texts_map_joined names hgroups]
    _ = eval names (.concat ((.string s :: rest) :: later).flatten) := by
        rw [List.flatten_cons, List.cons_append, eval_concat_cons, eval_chain_string]

-- Without a string literal among its first two operands a group may add numbers.
example :
    eval ⟨[], .bare⟩ (.concat [.string "a", .concat [.number (.int 1), .number (.int 2)]]) [] =
      .ok (.text "a3") [] ∧
    eval ⟨[], .bare⟩ (.concat [.string "a", .number (.int 1), .number (.int 2)]) [] =
      .ok (.text "a12") [] :=
  ⟨rfl, rfl⟩

/-- A host with a single thing to call, which answers how much was asked before. -/
def Host.counting : Host where
  isCallable identity := identity == 0
  answer log
    | .call .. => .ok (Value.int log.length)
    | query => bare.answer log query

/-- A lone name between two groups, the last of which has its string literal between two calls. They
are made in their order, so that they have different results. -/
theorem eval_regrouped_callFirst :
    MeetsText [.name "n"] ∧
    MeetsText [.call (.name "f") [], .string "b", .call (.name "f") [], .null] ∧
    eval ⟨[(.text "n", .int 2), (.text "f", .object 0 "function")], .counting⟩
        (.concat [.concat [.string "a", .number (.int 1)], .name "n",
          .concat [.call (.name "f") [], .string "b", .call (.name "f") [], .null]]) [] =
      .ok (.text "a120b1null")
        [.call (.object 0 "function") [], .call (.object 0 "function") []] ∧
    eval ⟨[(.text "n", .int 2), (.text "f", .object 0 "function")], .counting⟩
        (.concat [.string "a", .number (.int 1), .name "n", .call (.name "f") [], .string "b",
          .call (.name "f") [], .null]) [] =
      .ok (.text "a120b1null")
        [.call (.object 0 "function") [], .call (.object 0 "function") []] := by
  have hname : MeetsText [.name "n"] := .inl rfl
  have hcall : MeetsText [.call (.name "f") [], .string "b", .call (.name "f") [], .null] :=
    .inr ⟨"b", by simp⟩
  have hsame := eval_regrouped
    ⟨[(.text "n", .int 2), (.text "f", .object 0 "function")], .counting⟩
    [.string "a", .number (.int 1)]
    [[.name "n"], [.call (.name "f") [], .string "b", .call (.name "f") [], .null]] ⟨"a", rfl⟩
    (by simp [hname, hcall])
  exact ⟨hname, hcall, (congrFun hsame []).trans rfl, rfl⟩

end ConditionalStyle.Expression
