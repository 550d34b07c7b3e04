import ConditionalStyle.Text.Scan

/-!
# Lexemes and what follows them

A run of a class ends where a character of another class follows, and a quoted string ends with its
closing quote whatever follows. So the length of either does not change when the text goes on.

## Main statements

* `runLength_append`, `runLength_append_of_all`: runs of a class in a text that goes on.
* `runLength_append_eq_iff`: when a text is the run that a longer one starts with.
* `quotedRest?_eq_some_iff`: where a quoted string ends.
* `quotedLength?_append`, `quotedLength?_take`: a quoted string in a text that goes on.
-/

namespace ConditionalStyle.Text

variable {p : Char → Bool} {a b : List Char}

/-! ### Runs -/

/-- A text that does not start with a character of the class. -/
def Ends (p : Char → Bool) (b : List Char) : Prop :=
  ∀ c, b.head? = some c → p c = false

theorem ends_nil (p : Char → Bool) : Ends p [] := by
  intro c hc
  cases hc

theorem ends_cons {c : Char} {b : List Char} (h : p c = false) : Ends p (c :: b) := by
  rintro d hd
  cases hd
  exact h

theorem Ends.congr {b' : List Char} (h : Ends p b) (hhead : b.head? = b'.head?) : Ends p b' := by
  rwa [Ends, ← hhead]

theorem Ends.takeWhile_eq_nil (h : Ends p b) : b.takeWhile p = [] := by
  cases b with
  | nil => rfl
  | cons c b => rw [List.takeWhile_cons_of_neg (by simp [h c rfl])]

theorem runLength_le (p : Char → Bool) (a : List Char) : runLength p a ≤ a.length :=
  (List.takeWhile_prefix p).length_le

theorem takeWhile_append_of_ends (h : Ends p b) : (a ++ b).takeWhile p = a.takeWhile p := by
  rw [List.takeWhile_append]
  split
  · next hlen =>
    have hall : a.takeWhile p = a := (List.takeWhile_prefix p).eq_of_length hlen
    rw [h.takeWhile_eq_nil, List.append_nil, hall]
  · rfl

theorem runLength_append (h : Ends p b) : runLength p (a ++ b) = runLength p a := by
  rw [runLength, takeWhile_append_of_ends h, runLength]

theorem runLength_append_of_all (ha : ∀ c ∈ a, p c = true) (h : Ends p b) :
    runLength p (a ++ b) = a.length := by
  rw [runLength, List.takeWhile_append_of_pos ha, h.takeWhile_eq_nil, List.append_nil]

theorem runLength_of_ends (h : Ends p b) : runLength p b = 0 := by
  rw [runLength, h.takeWhile_eq_nil, List.length_nil]

theorem takeWhile_append_drop (p : Char → Bool) (a : List Char) :
    a.takeWhile p ++ a.drop (runLength p a) = a := by
  have htake : a.take (runLength p a) = a.takeWhile p :=
    (List.prefix_iff_eq_take.1 (List.takeWhile_prefix p)).symm
  rw [← htake, List.take_append_drop]

/-- A text is the run that a longer one starts with if it is of the class and what follows is
not. -/
theorem runLength_append_eq_iff :
    runLength p (a ++ b) = a.length ↔ (∀ c ∈ a, p c = true) ∧ Ends p b := by
  constructor
  · intro h
    have ha : (a ++ b).takeWhile p = a :=
      (List.prefix_of_prefix_length_le (List.takeWhile_prefix p) (List.prefix_append a b)
        (Nat.le_of_eq h)).eq_of_length h
    have hall : ∀ c ∈ a, p c = true := List.all_eq_true.1 (ha ▸ List.all_takeWhile)
    refine ⟨hall, fun c hc => ?_⟩
    rw [List.takeWhile_append_of_pos hall, List.append_right_eq_self] at ha
    rw [← Bool.not_eq_true]
    intro hp
    obtain ⟨r, rfl⟩ := List.head?_eq_some_iff.1 hc
    rw [List.takeWhile_cons_of_pos hp] at ha
    cases ha
  · rintro ⟨ha, hb⟩
    exact runLength_append_of_all ha hb

theorem ends_drop (p : Char → Bool) (a : List Char) : Ends p (a.drop (runLength p a)) := by
  have h : runLength p (a.takeWhile p ++ a.drop (runLength p a)) = (a.takeWhile p).length := by
    rw [takeWhile_append_drop, runLength]
  exact (runLength_append_eq_iff.1 h).2

/-! ### Quoted strings -/

variable {mark : Char} {continued : Bool}

theorem quotedRest?_mark (mark : Char) (continued : Bool) (b : List Char) :
    quotedRest? mark continued (mark :: b) = some 1 := by
  cases b with
  | nil => simp [quotedRest?]
  | cons d b => simp [quotedRest?]

theorem quotedRest?_cons {c : Char} (hm : c ≠ mark) (hb : c ≠ '\\') (hn : c ≠ '\n')
    (b : List Char) :
    quotedRest? mark continued (c :: b) = (quotedRest? mark continued b).map (· + 1) := by
  cases b with
  | nil => simp [quotedRest?, hm]
  | cons d b => simp [quotedRest?, hm, hb, hn]

theorem quotedRest?_escaped {d : Char} (hm : mark ≠ '\\') (hd : d ≠ '\n' ∨ continued = true)
    (b : List Char) :
    quotedRest? mark continued ('\\' :: d :: b) = (quotedRest? mark continued b).map (· + 2) := by
  rcases hd with hd | hd <;> simp [quotedRest?, hm.symm, hd]

/-- What stands between two quotes: no quote and no line feed, except after a backslash, and there a
line feed only if `continued`. -/
inductive QuotedBody (mark : Char) (continued : Bool) : List Char → Prop
  | nil : QuotedBody mark continued []
  | plain {c : Char} {cs : List Char} (hm : c ≠ mark) (hb : c ≠ '\\') (hn : c ≠ '\n')
      (h : QuotedBody mark continued cs) : QuotedBody mark continued (c :: cs)
  | escaped {c : Char} {cs : List Char} (hc : c ≠ '\n' ∨ continued = true)
      (h : QuotedBody mark continued cs) : QuotedBody mark continued ('\\' :: c :: cs)

theorem QuotedBody.quotedRest? (hm : mark ≠ '\\') (h : QuotedBody mark continued a) :
    Text.quotedRest? mark continued (a ++ mark :: b) = some (a.length + 1) := by
  induction h with
  | nil => exact quotedRest?_mark mark continued b
  | plain hc hb hn _ ih => rw [List.cons_append, quotedRest?_cons hc hb hn, ih]; rfl
  | escaped hc _ ih =>
    rw [List.cons_append, List.cons_append, quotedRest?_escaped hm hc, ih]
    rfl

/-- The search for a closing quote finds the first one that no backslash stands before. -/
theorem quotedRest?_eq_some_iff {n : Nat} (hm : mark ≠ '\\') :
    quotedRest? mark continued a = some n ↔
      ∃ body rest, a = body ++ mark :: rest ∧ QuotedBody mark continued body ∧
        n = body.length + 1 := by
  constructor
  · intro h
    fun_induction quotedRest? mark continued a generalizing n with
    | case1 => cases h
    | case2 c hc =>
      cases h
      exact ⟨[], [], by rw [eq_of_beq hc]; rfl, .nil, rfl⟩
    | case3 => cases h
    | case4 c d rest hc =>
      cases h
      exact ⟨[], d :: rest, by rw [eq_of_beq hc]; rfl, .nil, rfl⟩
    | case5 => cases h
    | case6 c d rest hc hb hd ih =>
      obtain ⟨m, hm, rfl⟩ := Option.map_eq_some_iff.1 h
      obtain ⟨body, rest, rfl, hbody, rfl⟩ := ih hm
      have hfeed : d ≠ '\n' ∨ continued = true := by
        simpa [Decidable.or_iff_not_imp_left] using hd
      rw [eq_of_beq hb]
      exact ⟨'\\' :: d :: body, rest, rfl, .escaped hfeed hbody, rfl⟩
    | case7 => cases h
    | case8 c d rest hc hb hn ih =>
      obtain ⟨m, hm, rfl⟩ := Option.map_eq_some_iff.1 h
      obtain ⟨body, rest', heq, hbody, rfl⟩ := ih hm
      exact ⟨c :: body, rest', by rw [heq]; rfl,
        .plain (by simpa using hc) (by simpa using hb) (by simpa using hn) hbody, rfl⟩
  · rintro ⟨body, rest, rfl, hbody, rfl⟩
    exact hbody.quotedRest? hm

theorem quotedRest?_le {n : Nat} (h : quotedRest? mark continued a = some n) : n ≤ a.length := by
  fun_induction quotedRest? mark continued a generalizing n with
  | case1 => cases h
  | case2 => cases h; exact Nat.le_refl _
  | case3 => cases h
  | case4 => cases h; simp
  | case5 => cases h
  | case6 c d rest _ _ _ ih =>
    obtain ⟨m, hm, rfl⟩ := Option.map_eq_some_iff.1 h
    have := ih hm
    simp only [List.length_cons]
    omega
  | case7 => cases h
  | case8 c d rest _ _ _ ih =>
    obtain ⟨m, hm, rfl⟩ := Option.map_eq_some_iff.1 h
    have := ih hm
    simp only [List.length_cons] at this ⊢
    omega

theorem quotedRest?_append {n : Nat} (h : quotedRest? mark continued a = some n) (b : List Char) :
    quotedRest? mark continued (a ++ b) = some n := by
  fun_induction quotedRest? mark continued a generalizing n with
  | case1 => cases h
  | case2 c hc =>
    rw [← h, eq_of_beq hc]
    exact quotedRest?_mark mark continued b
  | case3 => cases h
  | case4 c d rest hc =>
    rw [← h, eq_of_beq hc]
    exact quotedRest?_mark mark continued _
  | case5 => cases h
  | case6 c d rest hc hb hd ih =>
    obtain ⟨m, hm, rfl⟩ := Option.map_eq_some_iff.1 h
    simp [quotedRest?, hc, hb, hd, ih hm]
  | case7 => cases h
  | case8 c d rest hc hb hn ih =>
    obtain ⟨m, hm, rfl⟩ := Option.map_eq_some_iff.1 h
    simpa [quotedRest?, hc, hb, hn] using ih hm

theorem quotedLength?_le {n : Nat} (h : quotedLength? mark continued a = some n) :
    n ≤ a.length := by
  cases a with
  | nil => cases h
  | cons c a =>
    simp only [quotedLength?] at h
    split at h
    · obtain ⟨m, hm, rfl⟩ := Option.map_eq_some_iff.1 h
      have := quotedRest?_le hm
      simp only [List.length_cons]
      omega
    · cases h

/-- A string ends with its closing quote, whatever follows. -/
theorem quotedLength?_append {n : Nat} (h : quotedLength? mark continued a = some n)
    (b : List Char) : quotedLength? mark continued (a ++ b) = some n := by
  cases a with
  | nil => cases h
  | cons c a =>
    simp only [quotedLength?, List.cons_append] at h ⊢
    split at h
    · next hc =>
      obtain ⟨m, hm, rfl⟩ := Option.map_eq_some_iff.1 h
      simp only [hc, ↓reduceIte, quotedRest?_append hm b, Option.map_some]
    · cases h

/-- What a string is found by ends with its closing quote. -/
theorem quotedRest?_take {n : Nat} (h : quotedRest? mark continued a = some n) :
    quotedRest? mark continued (a.take n) = some n ∧ (a.take n).getLast? = some mark := by
  fun_induction quotedRest? mark continued a generalizing n with
  | case1 => cases h
  | case2 c hc =>
    cases h
    simp [quotedRest?, eq_of_beq hc]
  | case3 => cases h
  | case4 c d rest hc =>
    cases h
    simp [quotedRest?, eq_of_beq hc]
  | case5 => cases h
  | case6 c d rest hc hb hd ih =>
    obtain ⟨m, hm, rfl⟩ := Option.map_eq_some_iff.1 h
    obtain ⟨hrest, hlast⟩ := ih hm
    constructor
    · simp [quotedRest?, hc, hb, hd, hrest]
    · simp [List.getLast?_cons, hlast]
  | case7 => cases h
  | case8 c d rest hc hb hn ih =>
    obtain ⟨m, hm, rfl⟩ := Option.map_eq_some_iff.1 h
    obtain ⟨hrest, hlast⟩ := ih hm
    cases m with
    | zero => cases hrest
    | succ m =>
      rw [List.take_succ_cons] at hrest hlast ⊢
      constructor
      · simpa [quotedRest?, hc, hb, hn] using hrest
      · rw [List.take_succ_cons, List.getLast?_cons_cons, hlast]

theorem quotedLength?_take {n : Nat} (h : quotedLength? mark continued a = some n) :
    quotedLength? mark continued (a.take n) = some n ∧
      (a.take n).head? = some mark ∧ (a.take n).getLast? = some mark := by
  cases a with
  | nil => cases h
  | cons c a =>
    simp only [quotedLength?] at h
    split at h
    · next hc =>
      obtain ⟨m, hm, rfl⟩ := Option.map_eq_some_iff.1 h
      obtain ⟨hrest, hlast⟩ := quotedRest?_take hm
      simp [quotedLength?, hrest, eq_of_beq hc, List.getLast?_cons, hlast]
    · cases h

theorem quotedLength?_of_ne {c : Char} (h : c ≠ mark) (b : List Char) :
    quotedLength? mark continued (c :: b) = none := by
  simp [quotedLength?, h]

end ConditionalStyle.Text
