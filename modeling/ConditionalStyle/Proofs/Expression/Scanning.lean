import ConditionalStyle.Proofs.Expression.Grammar

/-!
# Scanning without positions

The terminals of a text do not depend on where the text stands. The relation `Lexed` says which
terminals a text has, one lexeme after the other; it agrees with the scan from any position.

## Main definitions

* `Lexed`: the terminals of a text.
* `KeywordsOnly`: every keyword is one of the language.

## Main statements

* `scanFrom_induction`: induction over the lexemes of a scan.
* `lexed_of_scanFrom`, `Lexed.scanFrom`: the relation and the scan agree.
* `keywordsOnly_of_scan`: keywords of a text are those of the language.
-/

namespace ConditionalStyle.Expression

/-- The terminal that a lexeme with the given characters becomes, if it becomes one. -/
def Lexeme.terminals (l : Lexeme) (text : List Char) : List Terminal :=
  ((l.kind? (String.ofList text)).map (⟨·, String.ofList text⟩)).toList

/-- The terminals of a text: cut off the first lexeme and go on with the rest. -/
inductive Lexed : List Char → List Terminal → Prop
  | nil : Lexed [] []
  | step {cs l n ts} (h : lexeme? cs = some (l, n)) (hs : Lexed (cs.drop n) ts) :
      Lexed cs (l.terminals (cs.take n) ++ ts)

theorem lexeme?_nil : lexeme? [] = none := rfl

/-! ### The scan and the relation -/

theorem Scanned.prepend_terminals (l : Lexeme) (text : List Char) (position : Nat) (s : Scanned) :
    (s.prepend l (String.ofList text) position).tokens.map Token.terminal =
      l.terminals text ++ s.tokens.map Token.terminal := by
  rw [Scanned.prepend, Lexeme.terminals]
  cases l.kind? (String.ofList text) <;> rfl

/-- A scan takes the first lexeme and goes on after it. -/
theorem scanFrom_of_lexeme? {cs : List Char} {l : Lexeme} {n : Nat} (position : Nat)
    (h : lexeme? cs = some (l, n)) :
    scanFrom position cs = (scanFrom (position + (cs.take n).length) (cs.drop n)).map
      (Scanned.prepend l (String.ofList (cs.take n)) position) := by
  cases cs with
  | nil => rw [lexeme?_nil] at h; cases h
  | cons c rest =>
    rw [scanFrom]
    split
    · next h' => rw [h] at h'; cases h'
    · next l' n' h' =>
      rw [h] at h'
      cases h'
      rfl

/-- Ones in a row are a single number. -/
theorem scan_replicate_one (n : Nat) :
    scan (String.ofList (List.replicate (n + 1) '1')) =
      .ok ⟨[⟨.number, String.ofList (List.replicate (n + 1) '1'), 0⟩], ⟨.finish, "", n + 1⟩⟩ := by
  have hrun : Text.runLength Text.isDigit (List.replicate (n + 1) '1') = n + 1 := by
    rw [Text.runLength, List.takeWhile_replicate, if_pos (by rfl), List.length_replicate]
  have hnumber : numberLength? (List.replicate (n + 1) '1') = some (n + 1) := by
    rw [numberLength?, hrun]
    simp
  have hlexeme : lexeme? (List.replicate (n + 1) '1') = some (.number, n + 1) := by
    rw [lexeme?, hnumber]
    rfl
  have hdrop : (List.replicate (n + 1) '1').drop (n + 1) = [] := by simp
  have htake : (List.replicate (n + 1) '1').take (n + 1) = List.replicate (n + 1) '1' := by simp
  rw [scan, String.toList_ofList, scanFrom_of_lexeme? 0 hlexeme, hdrop, htake,
    List.length_replicate, Nat.zero_add, scanFrom]
  rfl

/-- Successful scans are built from the end of a text, one lexeme at a time. -/
@[elab_as_elim]
theorem scanFrom_induction {motive : Nat → List Char → Scanned → Prop}
    (nil : ∀ position, motive position [] ⟨[], ⟨.finish, "", position⟩⟩)
    (step : ∀ {position cs l n s}, lexeme? cs = some (l, n) →
      motive (position + (cs.take n).length) (cs.drop n) s →
      motive position cs (s.prepend l (String.ofList (cs.take n)) position))
    {position : Nat} {cs : List Char} {s : Scanned} (h : scanFrom position cs = .ok s) :
    motive position cs s := by
  induction position, cs using scanFrom.induct generalizing s with
  | case1 position =>
    rw [scanFrom] at h
    cases h
    exact nil position
  | case2 position c rest hl =>
    rw [scanFrom] at h
    split at h
    · cases h
    · next h' => rw [hl] at h'; cases h'
  | case3 position c rest l n hl text =>
    next ih =>
    rw [scanFrom_of_lexeme? position hl] at h
    cases hs : scanFrom (position + text.length) ((c :: rest).drop n) with
    | error e => rw [hs] at h; cases h
    | ok s' =>
      rw [hs] at h
      cases h
      exact step hl (ih hs)

theorem lexed_of_scanFrom {position : Nat} {cs : List Char} {s : Scanned}
    (h : scanFrom position cs = .ok s) : Lexed cs (s.tokens.map Token.terminal) := by
  refine scanFrom_induction (fun _ => .nil) ?_ h
  intro position cs l n s hl ih
  rw [Scanned.prepend_terminals]
  exact .step hl ih

theorem Lexed.scanFrom {cs : List Char} {ts : List Terminal} (h : Lexed cs ts) (position : Nat) :
    ∃ s, scanFrom position cs = .ok s ∧ s.tokens.map Token.terminal = ts := by
  induction h generalizing position with
  | nil =>
    rw [Expression.scanFrom]
    exact ⟨_, rfl, rfl⟩
  | step hl hs ih =>
    next cs l n ts =>
    obtain ⟨s, hscan, rfl⟩ := ih (position + (cs.take n).length)
    refine ⟨_, ?_, Scanned.prepend_terminals l _ position s⟩
    rw [scanFrom_of_lexeme? position hl, hscan]
    rfl

theorem lexed_of_scan {source : String} {s : Scanned} (h : scan source = .ok s) :
    Lexed source.toList (s.tokens.map Token.terminal) :=
  lexed_of_scanFrom h

/-! ### Keywords -/

/-- Every keyword among the tokens is one of the language. -/
def KeywordsOnly (ts : List Token) : Prop :=
  ∀ t ∈ ts, t.kind = .keyword → t.text ∈ keywords

theorem KeywordsOnly.suffix {ts r : List Token} (h : KeywordsOnly ts) (hr : r <:+ ts) :
    KeywordsOnly r :=
  fun t ht => h t (hr.mem ht)

theorem Lexeme.mem_keywords {l : Lexeme} {text : List Char} {t : Terminal}
    (ht : t ∈ l.terminals text) (hk : t.kind = .keyword) : t.text ∈ keywords := by
  simp only [Lexeme.terminals, Option.mem_toList, Option.map_eq_some_iff] at ht
  obtain ⟨kind, hkind, rfl⟩ := ht
  dsimp only at hk ⊢
  subst hk
  cases l with
  | name =>
    simp only [Lexeme.kind?, Option.some.injEq] at hkind
    split at hkind
    · next hmem => exact List.contains_iff_mem.1 hmem
    · cases hkind
  | blanks | string | number | operator => cases hkind

theorem Lexed.mem_keywords {cs : List Char} {ts : List Terminal} (h : Lexed cs ts) {t : Terminal}
    (ht : t ∈ ts) (hk : t.kind = .keyword) : t.text ∈ keywords := by
  induction h with
  | nil => cases ht
  | step _ _ ih =>
    rcases List.mem_append.1 ht with ht | ht
    · exact Lexeme.mem_keywords ht hk
    · exact ih ht

/-- Keywords of a text are those of the language. -/
theorem keywordsOnly_of_scan {source : String} {s : Scanned} (h : scan source = .ok s) :
    KeywordsOnly s.tokens :=
  fun t ht hk => (lexed_of_scan h).mem_keywords (List.mem_map_of_mem ht : t.terminal ∈ _) hk

end ConditionalStyle.Expression
