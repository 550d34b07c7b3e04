import ConditionalStyle.Proofs.Expression.Soundness

/-!
# Where an expression is faulted

A fault of an expression has the position of one of its tokens, of its end or of its start. So it is
never past the end of the text. The only other error is that of an integer with too many digits; the
tokens that are read without an error have none.

## Main definitions

* `Parser.Passed`: the tokens that are left when those before them have been read.
* `Parser.Blames`: faults of one of the tokens or of the end, and integers that are too long.

## Main statements

* `finish_of_scanFrom`, `position_le_of_scanFrom`: the positions of tokens.
* `Parser.conditional_located`, and its companions for the other functions.
* `fits_of_whole`: no integer of an expression that is read is too long.
* `error_of_parse`: the positions of faults, and the texts with an integer that is too long.
-/

namespace ConditionalStyle.Expression

/-! ### Tokens -/

theorem Scanned.finish_prepend (l : Lexeme) (text : String) (position : Nat) (s : Scanned) :
    (s.prepend l text position).finish = s.finish := by
  rw [prepend]
  cases l.kind? text <;> rfl

/-- The last token stands at the end of the text. -/
theorem finish_of_scanFrom {position : Nat} {cs : List Char} {s : Scanned}
    (h : scanFrom position cs = .ok s) : s.finish = ⟨.finish, "", position + cs.length⟩ := by
  refine scanFrom_induction (fun _ => rfl) ?_ h
  intro position cs l n s hl ih
  rw [Scanned.finish_prepend, ih, Nat.add_assoc, ← List.length_append, List.take_append_drop]

theorem position_le_of_scanFrom {position : Nat} {cs : List Char} {s : Scanned}
    (h : scanFrom position cs = .ok s) :
    s.finish.position = position + cs.length ∧
      ∀ t ∈ s.tokens, t.position ≤ position + cs.length := by
  refine ⟨by rw [finish_of_scanFrom h], scanFrom_induction (by simp) ?_ h⟩
  intro position cs l n s hl ih
  rw [Nat.add_assoc, ← List.length_append, List.take_append_drop] at ih
  rw [Scanned.prepend]
  split
  · exact ih
  · exact List.forall_mem_cons.2 ⟨Nat.le_add_right _ _, ih⟩

namespace Parser

variable {α : Type} {bounds : Bounds} {limit : Nat} {t : Token} {all ts r : List Token}
  {cause : SyntaxError.Cause}

/-! ### Tokens that are left -/

/-- The tokens that are left of all when those before them, which are within the limit, have been
read. -/
def Passed (limit : Nat) (all ts : List Token) : Prop :=
  ∃ us, all = us ++ ts ∧ ∀ t ∈ us, t.terminal.Fits limit

namespace Passed

theorem refl (limit : Nat) (all : List Token) : Passed limit all all :=
  ⟨[], rfl, by simp⟩

/-- One more token has been read. -/
theorem tail (h : Passed limit all (t :: r)) (ht : t.terminal.Fits limit) : Passed limit all r := by
  obtain ⟨us, rfl, hus⟩ := h
  refine ⟨us ++ [t], by simp, ?_⟩
  simpa [or_imp, forall_and] using ⟨hus, ht⟩

theorem head_mem (h : Passed limit all (t :: r)) : t ∈ all := by
  obtain ⟨us, rfl, -⟩ := h
  simp

theorem next {symbol : String} (h : Passed limit all ts) (hafter : after? symbol ts = some r) :
    Passed limit all r := by
  obtain ⟨t, rfl, ht⟩ := eq_cons_of_after? hafter
  exact h.tail (by simp [ht])

theorem nextLevel {level : Nat} {op : Operator} (h : Passed limit all ts)
    (hafter : afterLevel? level ts = some (op, r)) : Passed limit all r := by
  obtain ⟨t, rfl, ht, -⟩ := eq_cons_of_afterLevel? hafter
  exact h.tail (by simp [ht])

end Passed

theorem length_of_after? {symbol : String} (h : after? symbol ts = some r) :
    r.length < ts.length := by
  obtain ⟨t, rfl, -⟩ := eq_cons_of_after? h
  exact Nat.lt_succ_self _

theorem length_of_afterLevel? {level : Nat} {op : Operator}
    (h : afterLevel? level ts = some (op, r)) : r.length < ts.length := by
  obtain ⟨t, rfl, -⟩ := eq_cons_of_afterLevel? h
  exact Nat.lt_succ_self _

/-! ### Blame -/

/-- An error of one of the tokens or of the end. -/
inductive Blames (bounds : Bounds) (all : List Token) : ParseError → Prop
  | finish (cause : SyntaxError.Cause) : Blames bounds all (fault cause bounds.finish)
  | token (cause : SyntaxError.Cause) {t : Token} (ht : t ∈ all) :
      Blames bounds all (fault cause t.position)
  | integer {t : Token} (ht : t ∈ all) (hlong : ¬t.terminal.Fits bounds.digits) :
      Blames bounds all (.tooLong bounds.digits t.text.length)

/-- What reading some of the tokens comes to: the tokens before those that are left are within the
limit, or there is somebody to blame. -/
abbrev Reads (bounds : Bounds) (all : List Token) (x : Except ParseError (α × List Token)) : Prop :=
  Located (Passed bounds.digits all) (Blames bounds all) x

theorem reads_head (cause : SyntaxError.Cause) (ht : Passed bounds.digits all (t :: r)) :
    Reads bounds all (.error (fault cause t.position) : Except ParseError (α × List Token)) :=
  .error (.token cause ht.head_mem)

theorem reads_next (cause : SyntaxError.Cause) (hts : Passed bounds.digits all ts) :
    Reads bounds all
      (.error (fault cause (position bounds ts)) : Except ParseError (α × List Token)) := by
  cases ts with
  | nil => exact .error (.finish cause)
  | cons t r => exact reads_head cause hts

theorem atom_reads (hts : Passed bounds.digits all (t :: r)) :
    Reads bounds all ((atom bounds t).bind fun tree => .ok (tree, r)) := by
  obtain ⟨kind, text, position⟩ := t
  cases kind with
  | string =>
    rw [atom]
    dsimp only
    split
    · exact .ok (hts.tail (Terminal.fits_of_kind (by simp)))
    · exact reads_head _ hts
  | number =>
    rw [atom]
    dsimp only
    split
    · next hlong =>
      refine .error (.integer hts.head_mem fun hfits => ?_)
      have hshort : Number.isTooLong bounds.digits text = false := hfits rfl
      rw [hshort] at hlong
      cases hlong
    · next hshort => exact .ok (hts.tail fun _ => Bool.eq_false_iff.2 hshort)
  | keyword | name => exact .ok (hts.tail (Terminal.fits_of_kind (by simp)))
  | operator | finish => exact reads_head _ hts

/-! ### The reading functions -/

-- As for the functions themselves, the measure is the number of tokens, and then the level.
mutual

theorem conditional_reads (bounds : Bounds) {ts : List Token} (hts : Passed bounds.digits all ts) :
    Reads bounds all (plain (conditional bounds ts)) := by
  rw [plain_conditional]
  refine (binary_reads bounds 3 hts).bind ?_
  intro test r h hr
  have hlt : r.length < ts.length := property_of_plain h
  dsimp only
  rcases hq : after? "?" r with _ | r₁
  · exact .ok hr
  have hlt₁ := length_of_after? hq
  refine (conditional_reads bounds (hr.next hq)).bind ?_
  intro yes r₂ h₂ hr₂
  have hlt₂ : r₂.length < r₁.length := property_of_plain h₂
  dsimp only
  rcases hc : after? ":" r₂ with _ | r₃
  · exact reads_next _ hr₂
  have hlt₃ := length_of_after? hc
  exact (conditional_reads bounds (hr₂.next hc)).bind fun _ _ _ hr => .ok hr
termination_by (ts.length, 9)

theorem binary_reads (bounds : Bounds) (level : Nat) {ts : List Token}
    (hts : Passed bounds.digits all ts) :
    Reads bounds all (plain (binary bounds level ts)) := by
  match level with
  | 0 =>
    rw [plain_binary_zero]
    refine (unary_reads bounds hts).bind ?_
    intro first r h hr
    have hlt : r.length < ts.length := property_of_plain h
    exact (summands_reads bounds hr).bind fun _ _ _ hr => .ok hr
  | level + 1 =>
    rw [plain_binary_succ]
    refine (binary_reads bounds level hts).bind ?_
    intro left r h hr
    have hlt : r.length < ts.length := property_of_plain h
    exact binaryRest_reads bounds level left hr
termination_by (ts.length, level + 3)

theorem binaryRest_reads (bounds : Bounds) (level : Nat) (left : Tree) {ts : List Token}
    (hts : Passed bounds.digits all ts) :
    Reads bounds all (plain (binaryRest bounds level left ts)) := by
  rw [plain_binaryRest]
  rcases ho : afterLevel? (level + 1) ts with _ | ⟨op, r⟩
  · exact .ok hts
  have hlt := length_of_afterLevel? ho
  refine (binary_reads bounds level (hts.nextLevel ho)).bind ?_
  intro right r₁ h₁ hr₁
  have hlt₁ : r₁.length < r.length := property_of_plain h₁
  exact binaryRest_reads bounds level (.binary op left right) hr₁
termination_by (ts.length, 0)

theorem summands_reads (bounds : Bounds) {ts : List Token} (hts : Passed bounds.digits all ts) :
    Reads bounds all (plain (summands bounds ts)) := by
  rw [plain_summands]
  rcases hp : after? "+" ts with _ | r
  · exact .ok hts
  have hlt := length_of_after? hp
  refine (unary_reads bounds (hts.next hp)).bind ?_
  intro t r₁ h₁ hr₁
  have hlt₁ : r₁.length < r.length := property_of_plain h₁
  exact (summands_reads bounds hr₁).bind fun _ _ _ hr => .ok hr
termination_by (ts.length, 0)

theorem unary_reads (bounds : Bounds) {ts : List Token} (hts : Passed bounds.digits all ts) :
    Reads bounds all (plain (unary bounds ts)) := by
  rw [plain_unary]
  rcases hn : after? "!" ts with _ | r
  · refine (primary_reads bounds hts).bind ?_
    intro t r h hr
    have hlt : r.length < ts.length := property_of_plain h
    exact postfixes_reads bounds t hr
  · have hlt := length_of_after? hn
    exact (unary_reads bounds (hts.next hn)).bind fun _ _ _ hr => .ok hr
termination_by (ts.length, 2)

theorem postfixes_reads (bounds : Bounds) (tree : Tree) {ts : List Token}
    (hts : Passed bounds.digits all ts) :
    Reads bounds all (plain (postfixes bounds tree ts)) := by
  rw [plain_postfixes]
  rcases hd : after? "." ts with _ | _ | ⟨n, r⟩
  · dsimp only
    rcases hp : after? "(" ts with _ | r
    · exact .ok hts
    have hlt := length_of_after? hp
    dsimp only
    rcases hc : after? ")" r with _ | r₁
    · refine (arguments_reads bounds (hts.next hp)).bind ?_
      intro args r₁ h₁ hr₁
      have hlt₁ : r₁.length < r.length := property_of_plain h₁
      exact postfixes_reads bounds (.call tree args) hr₁
    · have hlt₁ := length_of_after? hc
      exact postfixes_reads bounds (.call tree []) ((hts.next hp).next hc)
  · exact .error (.finish _)
  · have hlt : r.length < ts.length := Nat.lt_of_succ_lt (length_of_after? hd)
    have hpassed := hts.next hd
    dsimp only
    split
    · next hname =>
      have hkind : n.kind = .name := eq_of_beq hname
      exact postfixes_reads bounds (.member tree n.text)
        (hpassed.tail (Terminal.fits_of_kind (by simp [hkind])))
    · exact reads_head _ hpassed
termination_by (ts.length, 0)

theorem arguments_reads (bounds : Bounds) {ts : List Token} (hts : Passed bounds.digits all ts) :
    Reads bounds all (plain (arguments bounds ts)) := by
  rw [plain_arguments]
  refine (conditional_reads bounds hts).bind ?_
  intro t r h hr
  have hlt : r.length < ts.length := property_of_plain h
  dsimp only
  rcases hp : after? ")" r with _ | r₁
  · dsimp only
    rcases hc : after? "," r with _ | r₁
    · exact reads_next _ hr
    · have hlt₁ := length_of_after? hc
      exact (arguments_reads bounds (hr.next hc)).bind fun _ _ _ hr => .ok hr
  · exact .ok (hr.next hp)
termination_by (ts.length, 10)

theorem primary_reads (bounds : Bounds) {ts : List Token} (hts : Passed bounds.digits all ts) :
    Reads bounds all (plain (primary bounds ts)) := by
  rw [plain_primary]
  rcases hp : after? "(" ts with _ | r
  · dsimp only
    rcases ts with _ | ⟨t, r⟩
    · exact .error (.finish _)
    · exact atom_reads hts
  · have hlt := length_of_after? hp
    refine (conditional_reads bounds (hts.next hp)).bind ?_
    intro t r₁ h₁ hr₁
    dsimp only
    rcases hc : after? ")" r₁ with _ | r₂
    · exact reads_next _ hr₁
    · exact .ok (hr₁.next hc)
termination_by (ts.length, 1)

end

/-- Tokens that are read as a whole are within the limit. -/
theorem fits_of_whole {tree : Tree} (h : whole bounds ts = .ok tree) :
    ∀ t ∈ ts, t.terminal.Fits bounds.digits := by
  rw [whole_eq] at h
  rcases ts with _ | ⟨t, r⟩
  · cases h
  have hreads := conditional_reads bounds (.refl bounds.digits (t :: r))
  dsimp only at h
  rcases hread : plain (conditional bounds (t :: r)) with e | ⟨tree, _ | ⟨u, rest⟩⟩
  · rw [hread] at h
    cases h
  · rw [hread] at hreads
    cases hreads with
    | ok hr =>
      obtain ⟨us, hus, hfits⟩ := hr
      rwa [hus, List.append_nil]
  · rw [hread] at h
    cases h

/-- A fault of the whole text may be at its start, too. -/
theorem error_of_whole {e : ParseError} (h : whole bounds ts = .error e) :
    (∃ cause, e = fault cause 0) ∨ Blames bounds ts e := by
  rw [whole_eq] at h
  rcases ts with _ | ⟨t, r⟩
  · cases h
    exact .inl ⟨_, rfl⟩
  right
  have hreads := conditional_reads bounds (.refl bounds.digits (t :: r))
  dsimp only at h
  rcases hread : plain (conditional bounds (t :: r)) with e' | ⟨tree, _ | ⟨u, rest⟩⟩
  · rw [hread] at h hreads
    cases h
    cases hreads with
    | error he => exact he
  · rw [hread] at h
    cases h
  · rw [hread] at h hreads
    cases h
    cases hreads with
    | ok hr => exact .token _ hr.head_mem

end Parser

/-- A text that is not read is faulted at a position within it, or has an integer that is too
long. -/
theorem error_of_parse {source : String} {e : ParseError} (h : parse source = .error e) :
    (∃ cause position, e = .malformed ⟨cause, position⟩ ∧ position ≤ source.length) ∨
      ∃ s, scan source = .ok s ∧ ∃ t ∈ s.tokens, ¬t.terminal.Fits Decimal.maxDigits ∧
        e = .tooLong Decimal.maxDigits t.text.length := by
  rw [parse] at h
  rcases hscan : scan source with e' | s
  · rw [hscan] at h
    cases h
    exact .inl ⟨_, _, rfl, Nat.zero_le _⟩
  · rw [hscan] at h
    obtain ⟨hfinish, htokens⟩ := position_le_of_scanFrom hscan
    rw [Nat.zero_add, String.length_toList] at hfinish htokens
    rcases Parser.error_of_whole h with ⟨cause, rfl⟩ | hblames
    · exact .inl ⟨cause, 0, rfl, Nat.zero_le _⟩
    cases hblames with
    | finish cause => exact .inl ⟨cause, _, rfl, Nat.le_of_eq hfinish⟩
    | token cause ht => exact .inl ⟨cause, _, rfl, htokens _ ht⟩
    | integer ht hlong => exact .inr ⟨s, rfl, _, ht, hlong, rfl⟩

end ConditionalStyle.Expression
