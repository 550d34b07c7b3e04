import ConditionalStyle.Proofs.Stylesheet.Spelling

/-!
# Terminals and what may follow them

Whether a text is scanned as a terminal depends on the text itself and, for most kinds, on one
character after it: a run goes on as long as it can, a word is the name of a function if a
parenthesis follows, and a slash opens a comment if a star follows. Only an opened address looks
further ahead.

## Main definitions

* `Terminal.Fits`: terminals that are scanned in front of a text.
* `Terminal.Stops`: what may follow a terminal.
* `Scans`: terminals in a row that are scanned in front of a text.

## Main statements

* `Terminal.fits_iff`: a terminal that fits at the end fits in front of whatever may follow it.
* `Terminal.Fits.isTrimmed`: only blank terminals start or end with a blank.
* `Scans.lexed`, `Lexed.scans`: the terminals of a text are scanned in front of each other.
-/

namespace ConditionalStyle.Stylesheet

open Text

variable {cs : List Char} {n : Nat}

/-! ### Classes of characters -/

theorem isWord_of_isBlank {c : Char} (h : isBlank c = true) : isWord c = false := by
  have hall : (blankRanges.all fun r => (List.range' r.1 (r.2 + 1 - r.1)).all
      fun n => !isWord (Char.ofNat n)) = true := by decide +kernel
  obtain ⟨r, hr, hc⟩ := List.any_eq_true.1 h
  simp only [Bool.and_eq_true, decide_eq_true_eq] at hc
  have hrange : c.toNat ∈ List.range' r.1 (r.2 + 1 - r.1) := by
    rw [List.mem_range'_1]
    omega
  have hword := List.all_eq_true.1 (List.all_eq_true.1 hall r hr) c.toNat hrange
  rwa [Char.ofNat_toNat, Bool.not_eq_true'] at hword

theorem isWordPart_iff {c : Char} :
    isWordPart c = true ↔ isBlank c = false ∧ c ∉ symbols ∧ c ≠ '"' ∧ c ≠ '\'' := by
  simp [isWordPart, and_assoc]

theorem isWordPart_of_isNamePart {c : Char} (h : isNamePart c = true) : isWordPart c = true := by
  have hsigns : (symbols ++ ['"', '\'']).all (fun d => !isNamePart d) = true := by decide
  have hsign (hmem : c ∈ symbols ++ ['"', '\'']) : False := by
    simpa [h] using List.all_eq_true.1 hsigns c hmem
  refine isWordPart_iff.2 ⟨?_, fun hc => hsign (by simp [hc]), fun hc => hsign (by simp [hc]),
    fun hc => hsign (by simp [hc])⟩
  rw [← Bool.not_eq_true]
  intro hblank
  have hdash : c ≠ '-' := by
    rintro rfl
    exact absurd hblank (by decide)
  simp [isNamePart, isWord_of_isBlank hblank, hdash] at h

theorem lt_of_isNameStart {c : Char} (h : isNameStart c = true) : c.toNat < 128 := by
  simp only [isNameStart, Bool.or_eq_true, beq_iff_eq] at h
  rcases h with h | rfl
  · exact lt_of_isAsciiLetter h
  · decide

/-- The classes of the first character of a name, or of the dash before it. -/
theorem classes_of_nameStart {c : Char} (h : isNameStart c = true ∨ c = '-') :
    isNamePart c = true ∧ isBlank c = false ∧ c ∉ ['/', '"', '\'', '@'] := by
  have hascii : c.toNat < 128 := by
    rcases h with h | rfl
    · exact lt_of_isNameStart h
    · decide
  have hclass := of_ascii (p := fun c => !(isNameStart c || c == '-') || (isNamePart c &&
    !isBlank c && !(['/', '"', '\'', '@'].contains c))) (by decide +kernel) hascii
  rcases h with h | h <;> simpa [h, and_assoc] using hclass

/-! ### The classes of lexemes -/

theorem runLength?_eq_some_iff {p : Char → Bool} :
    runLength? p cs = some n ↔ runLength p cs = n ∧ 0 < n := by
  rw [runLength?]
  split
  · next h =>
    simp only [reduceCtorEq, h, false_iff]
    omega
  · next m h =>
    simp only [Option.some.injEq, h]
    omega

theorem exists_cons_of_runLength? {p : Char → Bool} (h : runLength? p cs = some n) :
    ∃ c r, cs = c :: r ∧ p c = true := by
  rcases cs with _ | ⟨c, r⟩
  · cases h
  · refine ⟨c, r, rfl, ?_⟩
    rw [← Bool.not_eq_false]
    intro hc
    rw [runLength?_of_ends (ends_cons hc)] at h
    cases h

theorem runLength?_append_iff {p : Char → Bool} {a b : List Char} :
    runLength? p (a ++ b) = some a.length ↔ a ≠ [] ∧ (∀ c ∈ a, p c = true) ∧ Ends p b := by
  rw [runLength?_eq_some_iff, runLength_append_eq_iff, List.length_pos_iff, and_comm]

theorem urlLength?_of_ne {c : Char} (h : c ≠ 'u') (cs : List Char) :
    urlLength? (c :: cs) = none := by
  unfold urlLength?
  split
  · next heq => exact absurd (List.cons.inj heq).1 h
  · rfl

theorem plainFunctionLength?_eq_some_iff :
    plainFunctionLength? cs = some n ↔ ∃ c name rest, cs = c :: (name ++ '(' :: rest) ∧
      isNameStart c = true ∧ (∀ d ∈ name, isNamePart d = true) ∧ n = name.length + 2 := by
  constructor
  · intro h
    rcases cs with _ | ⟨c, r⟩
    · cases h
    rw [plainFunctionLength?] at h
    split at h
    · next hc =>
      dsimp only at h
      split at h
      · next rest hrest =>
        refine ⟨c, r.takeWhile isNamePart, rest, ?_, hc, List.all_eq_true.1 List.all_takeWhile, ?_⟩
        · rw [← hrest, takeWhile_append_drop]
        · rw [← Option.some.inj h, runLength, Nat.add_comm 1]
      · cases h
    · cases h
  · rintro ⟨c, name, rest, rfl, hc, hname, rfl⟩
    have hrun : runLength isNamePart (name ++ '(' :: rest) = name.length :=
      runLength_append_of_all hname (ends_cons (by decide))
    rw [plainFunctionLength?, if_pos hc]
    dsimp only
    rw [hrun, List.drop_left, Nat.add_comm 1]
    rfl

/-- The name of a function, perhaps after one dash. -/
def IsFunctionName (cs : List Char) : Prop :=
  ∃ dash c name, cs = dash ++ c :: name ∧ (dash = [] ∨ dash = ['-']) ∧ isNameStart c = true ∧
    ∀ d ∈ name, isNamePart d = true

theorem functionLength?_eq_some_iff : functionLength? cs = some n ↔
    ∃ name rest, IsFunctionName name ∧ cs = name ++ '(' :: rest ∧ n = name.length + 1 := by
  constructor
  · intro h
    unfold functionLength? at h
    split at h
    · next r =>
      obtain ⟨m, hm, rfl⟩ := Option.map_eq_some_iff.1 h
      obtain ⟨c, name, rest, rfl, hc, hname, rfl⟩ := plainFunctionLength?_eq_some_iff.1 hm
      exact ⟨'-' :: c :: name, rest, ⟨['-'], c, name, rfl, .inr rfl, hc, hname⟩, rfl, rfl⟩
    · obtain ⟨c, name, rest, rfl, hc, hname, rfl⟩ := plainFunctionLength?_eq_some_iff.1 h
      exact ⟨c :: name, rest, ⟨[], c, name, rfl, .inl rfl, hc, hname⟩, rfl, rfl⟩
  · rintro ⟨_, rest, ⟨dash, c, name, rfl, hdash, hc, hname⟩, rfl, rfl⟩
    have hplain : plainFunctionLength? (c :: (name ++ '(' :: rest)) = some (name.length + 2) :=
      plainFunctionLength?_eq_some_iff.2 ⟨c, name, rest, rfl, hc, hname, rfl⟩
    rcases hdash with rfl | rfl
    · have hc' : c ≠ '-' := by
        rintro rfl
        exact absurd hc (by decide)
      simpa [functionLength?, hc'] using hplain
    · simp [functionLength?, hplain]

theorem IsFunctionName.isWordPart {name : List Char} (h : IsFunctionName name) :
    ∀ c ∈ name, isWordPart c = true := by
  obtain ⟨dash, c, cs, rfl, hdash, hc, hcs⟩ := h
  have hpart : ∀ d ∈ c :: cs, isNamePart d = true :=
    List.forall_mem_cons.2 ⟨(classes_of_nameStart (.inl hc)).1, hcs⟩
  intro d hd
  rcases List.mem_append.1 hd with hd | hd
  · rcases hdash with rfl | rfl
    · cases hd
    · rw [List.mem_singleton.1 hd]
      decide
  · exact isWordPart_of_isNamePart (hpart d hd)

theorem exists_cons_of_functionLength? (h : functionLength? cs = some n) :
    ∃ c r, cs = c :: r ∧ (isNameStart c = true ∨ c = '-') := by
  obtain ⟨_, rest, ⟨dash, c, name, rfl, hdash, hc, -⟩, rfl, -⟩ := functionLength?_eq_some_iff.1 h
  rcases hdash with rfl | rfl
  · exact ⟨c, _, rfl, .inl hc⟩
  · exact ⟨'-', _, rfl, .inr rfl⟩

/-- A word is the name of a function only in front of a parenthesis. -/
theorem functionLength?_append_eq_none_iff {a b : List Char} (ha : ∀ c ∈ a, isWordPart c = true)
    (hb : Ends isWordPart b) :
    functionLength? (a ++ b) = none ↔ (b.head? = some '(' → ¬IsFunctionName a) := by
  constructor
  · intro hnone hhead hname
    obtain ⟨rest, rfl⟩ := List.head?_eq_some_iff.1 hhead
    have hsome : functionLength? (a ++ '(' :: rest) = some (a.length + 1) :=
      functionLength?_eq_some_iff.2 ⟨a, rest, hname, rfl, rfl⟩
    rw [hnone] at hsome
    cases hsome
  · intro h
    rcases hlength : functionLength? (a ++ b) with _ | n
    · rfl
    obtain ⟨name, rest, hname, heq, -⟩ := functionLength?_eq_some_iff.1 hlength
    -- both the name and the word are the run of word characters that the text starts with
    have hrun : a = name := by
      have hends : Ends isWordPart ('(' :: rest) := ends_cons (by decide)
      have htake := congrArg (List.takeWhile isWordPart) heq
      rwa [List.takeWhile_append_of_pos ha, List.takeWhile_append_of_pos hname.isWordPart,
        hb.takeWhile_eq_nil, hends.takeWhile_eq_nil, List.append_nil, List.append_nil] at htake
    rw [hrun] at heq h
    rw [List.append_cancel_left heq] at h
    exact absurd hname (h rfl)

/-- An address is found between blanks, and ends with the first parenthesis. -/
theorem urlLength?_eq_some_iff : urlLength? cs = some n ↔ ∃ before address after rest,
    cs = 'u' :: 'r' :: 'l' :: '(' :: (before ++ (address ++ (after ++ ')' :: rest))) ∧
      (∀ c ∈ before, isBlank c = true) ∧ (∀ c ∈ address, isAddress c = true) ∧
      (∀ c ∈ after, isBlank c = true) ∧ (address = [] → after = []) ∧
      n = before.length + address.length + after.length + 5 := by
  constructor
  · intro h
    unfold urlLength? at h
    split at h
    case h_2 => cases h
    next r =>
    dsimp only at h
    have hsplit := takeWhile_append_drop isBlank r
    have hends := ends_drop isBlank r
    generalize r.drop (runLength isBlank r) = r₁ at h hsplit hends
    have hsplit₁ := takeWhile_append_drop isAddress r₁
    generalize hr₂ : r₁.drop (runLength isAddress r₁) = r₂ at h hsplit₁
    have hsplit₂ := takeWhile_append_drop isBlank r₂
    split at h
    case h_2 => cases h
    next rest hr₃ =>
    rw [hr₃] at hsplit₂
    refine ⟨_, _, _, rest, by rw [hsplit₂, hsplit₁, hsplit], List.all_eq_true.1 List.all_takeWhile,
      List.all_eq_true.1 List.all_takeWhile, List.all_eq_true.1 List.all_takeWhile, ?_, ?_⟩
    · -- without an address, the blanks before it have been taken already
      intro haddress
      rw [haddress, List.nil_append] at hsplit₁
      rw [hsplit₁]
      exact hends.takeWhile_eq_nil
    · rw [← Option.some.inj h]
      simp only [runLength]
      omega
  · rintro ⟨before, address, after, rest, rfl, hbefore, haddress, hafter, hempty, rfl⟩
    have hends : Ends isBlank (address ++ (after ++ ')' :: rest)) := by
      rcases address with _ | ⟨c, address⟩
      · rw [hempty rfl]
        exact ends_cons (by decide)
      · have hc := haddress c List.mem_cons_self
        simp only [isAddress, Bool.not_eq_true', Bool.or_eq_false_iff] at hc
        exact ends_cons hc.2
    have hends₁ : Ends isAddress (after ++ ')' :: rest) := by
      rcases after with _ | ⟨c, after⟩
      · exact ends_cons (by decide)
      · exact ends_cons (by simp [isAddress, hafter c List.mem_cons_self])
    have hends₂ : Ends isBlank (')' :: rest) := ends_cons (by decide)
    simp only [urlLength?, runLength_append_of_all hbefore hends, List.drop_left,
      runLength_append_of_all haddress hends₁, runLength_append_of_all hafter hends₂,
      Option.some.injEq]
    omega

/-- The length of a name after its `@`. -/
theorem atKeywordLength?_append_iff {a b : List Char} :
    atKeywordLength? (a ++ b) = some a.length ↔ ∃ c name, a = '@' :: c :: name ∧
      (isNameStart c || c == '-') = true ∧ (∀ d ∈ name, isNamePart d = true) ∧
      Ends isNamePart b := by
  constructor
  · intro h
    unfold atKeywordLength? at h
    split at h
    case h_2 => cases h
    next c r heq =>
    split at h
    case isFalse => cases h
    next hc =>
    have hlength := Option.some.inj h
    rcases a with _ | ⟨x, _ | ⟨c', name⟩⟩
    · simp at hlength
    · simp only [List.length_singleton] at hlength
      omega
    · simp only [List.cons_append, List.cons.injEq] at heq
      obtain ⟨rfl, rfl, rfl⟩ := heq
      have hrun : runLength isNamePart (name ++ b) = name.length := by
        simp only [List.length_cons] at hlength
        omega
      obtain ⟨hname, hends⟩ := runLength_append_eq_iff.1 hrun
      exact ⟨c', name, rfl, hc, hname, hends⟩
  · rintro ⟨c, name, rfl, hc, hname, hends⟩
    simp only [List.cons_append, atKeywordLength?, if_pos hc, runLength_append_of_all hname hends,
      List.length_cons, Option.some.injEq]
    omega

/-- A word that starts with an `@` goes on with no name, whatever follows it. -/
theorem atKeywordLength?_append_eq_none_iff {a b : List Char} (ha : a ≠ [])
    (hb : Ends isWordPart b) : atKeywordLength? (a ++ b) = none ↔ atKeywordLength? a = none := by
  rcases a with _ | ⟨x, _ | ⟨c, a⟩⟩
  · exact absurd rfl ha
  · have hnone : atKeywordLength? [x] = none := by
      unfold atKeywordLength?
      split
      · next heq => cases heq
      · rfl
    have hnone' : atKeywordLength? (x :: b) = none := by
      unfold atKeywordLength?
      split
      · next c r heq =>
        have hc : isWordPart c = false := hb c (by rw [(List.cons.inj heq).2]; rfl)
        have hstart : (isNameStart c || c == '-') = false := by
          rw [← Bool.not_eq_true]
          intro hstart
          have hpart := (classes_of_nameStart (by simpa using hstart)).1
          rw [isWordPart_of_isNamePart hpart] at hc
          cases hc
        rw [hstart, if_neg Bool.false_ne_true]
      · rfl
    exact iff_of_true hnone' hnone
  · by_cases hx : x = '@'
    · subst hx
      simp [atKeywordLength?]
    · exact iff_of_true (atKeywordLength?_of_ne hx _) (atKeywordLength?_of_ne hx _)

theorem opensComment_cons_eq_false_iff {c : Char} {b : List Char} :
    opensComment (c :: b) = false ↔ (c = '/' → b.head? ≠ some '*') := by
  constructor
  · rintro h rfl hhead
    obtain ⟨r, rfl⟩ := List.head?_eq_some_iff.1 hhead
    cases h
  · intro h
    unfold opensComment
    split
    · next heq =>
      obtain ⟨hc, hb⟩ := List.cons.inj heq
      exact absurd (by rw [hb]; rfl) (h hc)
    · rfl

/-! ### The lexeme at the start of a text

What starts like a lexeme of one class mostly does not start like one of another class, so that
few of the classes tried before stand in its way. -/

/-- A character that starts no comment, no blanks and no string. -/
theorem earlier_eq_none {c : Char} (hblank : isBlank c = false) (hc : c ∉ ['/', '"', '\''])
    (cs : List Char) :
    commentLength? (c :: cs) = none ∧ runLength? isBlank (c :: cs) = none ∧
      quotedLength? '"' true (c :: cs) = none ∧ quotedLength? '\'' true (c :: cs) = none := by
  simp only [List.mem_cons, List.not_mem_nil, or_false, not_or] at hc
  exact ⟨commentLength?_of_ne hc.1 _, runLength?_of_ends (ends_cons hblank),
    quotedLength?_of_ne hc.2.1 _, quotedLength?_of_ne hc.2.2 _⟩

theorem lexeme?_eq_blank_iff :
    lexeme? cs = some (.token .blank, n) ↔ runLength? isBlank cs = some n := by
  have hclasses : lexeme? cs = some (.token .blank, n) ↔
      commentLength? cs = none ∧ runLength? isBlank cs = some n := by
    simp [lexeme?, Option.or_eq_some_iff]
  rw [hclasses, and_iff_right_iff_imp]
  intro h
  obtain ⟨c, r, rfl, hc⟩ := exists_cons_of_runLength? h
  refine commentLength?_of_ne ?_ _
  rintro rfl
  exact absurd hc (by decide)

theorem lexeme?_eq_url_iff :
    lexeme? cs = some (.token .url, n) ↔ urlLength? cs = some n := by
  have hclasses : lexeme? cs = some (.token .url, n) ↔
      commentLength? cs = none ∧ runLength? isBlank cs = none ∧ urlLength? cs = some n := by
    simp [lexeme?, Option.or_eq_some_iff]
  rw [hclasses]
  refine ⟨fun h => h.2.2, fun h => ?_⟩
  obtain ⟨before, address, after, rest, rfl, -⟩ := urlLength?_eq_some_iff.1 h
  obtain ⟨hcomment, hblank, -⟩ := earlier_eq_none (c := 'u') (by decide) (by decide) _
  exact ⟨hcomment, hblank, h⟩

theorem lexeme?_eq_string_iff : lexeme? cs = some (.token .string, n) ↔
    quotedLength? '"' true cs = some n ∨ quotedLength? '\'' true cs = some n := by
  have hclasses : lexeme? cs = some (.token .string, n) ↔
      commentLength? cs = none ∧ runLength? isBlank cs = none ∧ urlLength? cs = none ∧
        (quotedLength? '"' true cs = some n ∨
          quotedLength? '"' true cs = none ∧ quotedLength? '\'' true cs = some n) := by
    simp [lexeme?, Option.or_eq_some_iff]
  rw [hclasses]
  refine ⟨fun h => h.2.2.2.imp_right And.right, fun h => ?_⟩
  have hfirst {mark : Char} (hmark : quotedLength? mark true cs = some n) :
      ∃ r, cs = mark :: r := by
    rcases cs with _ | ⟨c, r⟩
    · cases hmark
    · by_cases hc : c = mark
      · exact ⟨r, by rw [hc]⟩
      · rw [quotedLength?_of_ne hc] at hmark
        cases hmark
  rcases h with h | h
  · obtain ⟨r, rfl⟩ := hfirst h
    exact ⟨commentLength?_of_ne (by decide) _, runLength?_of_ends (ends_cons (by decide)),
      urlLength?_of_ne (by decide) _, .inl h⟩
  · obtain ⟨r, rfl⟩ := hfirst h
    exact ⟨commentLength?_of_ne (by decide) _, runLength?_of_ends (ends_cons (by decide)),
      urlLength?_of_ne (by decide) _, .inr ⟨quotedLength?_of_ne (by decide) _, h⟩⟩

theorem lexeme?_eq_atKeyword_iff :
    lexeme? cs = some (.token .atKeyword, n) ↔ atKeywordLength? cs = some n := by
  have hclasses : lexeme? cs = some (.token .atKeyword, n) ↔
      commentLength? cs = none ∧ runLength? isBlank cs = none ∧ urlLength? cs = none ∧
        quotedLength? '"' true cs = none ∧ quotedLength? '\'' true cs = none ∧
        atKeywordLength? cs = some n := by
    simp [lexeme?, Option.or_eq_some_iff]
  rw [hclasses]
  refine ⟨fun h => h.2.2.2.2.2, fun h => ?_⟩
  obtain ⟨r, rfl⟩ : ∃ r, cs = '@' :: r := by
    rcases cs with _ | ⟨c, r⟩
    · cases h
    · by_cases hc : c = '@'
      · exact ⟨r, by rw [hc]⟩
      · rw [atKeywordLength?_of_ne hc] at h
        cases h
  obtain ⟨hcomment, hblank, hquote, hquote'⟩ :=
    earlier_eq_none (c := '@') (by decide) (by decide) r
  exact ⟨hcomment, hblank, urlLength?_of_ne (by decide) _, hquote, hquote', h⟩

theorem lexeme?_eq_function_iff : lexeme? cs = some (.token .function, n) ↔
    urlLength? cs = none ∧ functionLength? cs = some n := by
  have hclasses : lexeme? cs = some (.token .function, n) ↔
      commentLength? cs = none ∧ runLength? isBlank cs = none ∧ urlLength? cs = none ∧
        quotedLength? '"' true cs = none ∧ quotedLength? '\'' true cs = none ∧
        atKeywordLength? cs = none ∧ functionLength? cs = some n := by
    simp [lexeme?, Option.or_eq_some_iff]
  rw [hclasses]
  refine ⟨fun h => ⟨h.2.2.1, h.2.2.2.2.2.2⟩, fun h => ?_⟩
  obtain ⟨c, r, rfl, hc⟩ := exists_cons_of_functionLength? h.2
  obtain ⟨-, hblank, hother⟩ := classes_of_nameStart hc
  simp only [List.mem_cons, List.not_mem_nil, or_false, not_or] at hother
  obtain ⟨hslash, hquote, hquote', hat⟩ := hother
  obtain ⟨hcomment, hblanks, hstring, hstring'⟩ :=
    earlier_eq_none hblank (by simp [hslash, hquote, hquote']) r
  exact ⟨hcomment, hblanks, h.1, hstring, hstring', atKeywordLength?_of_ne hat _, h.2⟩

theorem lexeme?_eq_symbol_iff (h : opensComment cs = false) :
    lexeme? cs = some (.token .symbol, n) ↔ symbolLength? cs = some n := by
  have hcomment : commentLength? cs = none := by
    rw [commentLength?, h, if_neg Bool.false_ne_true]
  have hclasses : lexeme? cs = some (.token .symbol, n) ↔
      runLength? isBlank cs = none ∧ urlLength? cs = none ∧
        quotedLength? '"' true cs = none ∧ quotedLength? '\'' true cs = none ∧
        atKeywordLength? cs = none ∧ functionLength? cs = none ∧ symbolLength? cs = some n := by
    simp [lexeme?, Option.or_eq_some_iff, hcomment]
  rw [hclasses]
  refine ⟨fun h => h.2.2.2.2.2.2, fun h => ?_⟩
  rcases cs with _ | ⟨c, r⟩
  · cases h
  have hc : c ∈ symbols := by
    rw [symbolLength?] at h
    split at h
    · next hc => simpa using hc
    · cases h
  have hstarts : (isBlank c = false ∧ c ≠ 'u' ∧ c ≠ '"' ∧ c ≠ '\'' ∧ c ≠ '@') ∧
      ¬(isNameStart c = true ∨ c = '-') := by
    have hall : (symbols.all fun c => !isBlank c && c != 'u' && c != '"' && c != '\'' &&
      c != '@' && !(isNameStart c || c == '-')) = true := by decide
    simpa [and_assoc] using List.all_eq_true.1 hall c hc
  obtain ⟨⟨hblank, hu, hquote, hquote', hat⟩, hname⟩ := hstarts
  have hfunction : functionLength? (c :: r) = none := by
    rcases hlength : functionLength? (c :: r) with _ | m
    · rfl
    · obtain ⟨d, r', heq, hd⟩ := exists_cons_of_functionLength? hlength
      rw [← (List.cons.inj heq).1] at hd
      exact absurd hd hname
  exact ⟨runLength?_of_ends (ends_cons hblank), urlLength?_of_ne hu _, quotedLength?_of_ne hquote _,
    quotedLength?_of_ne hquote' _, atKeywordLength?_of_ne hat _, hfunction, h⟩

theorem lexeme?_eq_word_iff : lexeme? cs = some (.token .word, n) ↔
    atKeywordLength? cs = none ∧ functionLength? cs = none ∧ runLength? isWordPart cs = some n := by
  have hclasses : lexeme? cs = some (.token .word, n) ↔
      commentLength? cs = none ∧ runLength? isBlank cs = none ∧ urlLength? cs = none ∧
        quotedLength? '"' true cs = none ∧ quotedLength? '\'' true cs = none ∧
        atKeywordLength? cs = none ∧ functionLength? cs = none ∧ symbolLength? cs = none ∧
        runLength? isWordPart cs = some n := by
    simp [lexeme?, Option.or_eq_some_iff]
  rw [hclasses]
  refine ⟨fun h => ⟨h.2.2.2.2.2.1, h.2.2.2.2.2.2.1, h.2.2.2.2.2.2.2.2⟩, fun h => ?_⟩
  obtain ⟨hat, hfunction, hword⟩ := h
  obtain ⟨c, r, rfl, hc⟩ := exists_cons_of_runLength? hword
  obtain ⟨hblank, hsymbol, hquote, hquote'⟩ := isWordPart_iff.1 hc
  have hslash : c ≠ '/' := by
    rintro rfl
    exact hsymbol (by decide)
  have hurl : urlLength? (c :: r) = none := by
    rcases hlength : urlLength? (c :: r) with _ | m
    · rfl
    · -- an address starts like a function
      obtain ⟨before, address, after, rest, heq, -⟩ := urlLength?_eq_some_iff.1 hlength
      rw [heq] at hfunction
      cases hfunction
  obtain ⟨hcomment, hblanks, hstring, hstring'⟩ :=
    earlier_eq_none hblank (by simp [hslash, hquote, hquote']) r
  exact ⟨hcomment, hblanks, hurl, hstring, hstring', hat, hfunction,
    by simp [symbolLength?, hsymbol], hword⟩

/-! ### What may follow a terminal -/

/-- The characters of a terminal. -/
def Terminal.chars (x : Terminal) : List Char :=
  x.text.toList

/-- A terminal that is scanned where its text stands in front of another one. -/
def Terminal.Fits (x : Terminal) (b : List Char) : Prop :=
  lexeme? (x.chars ++ b) = some (.token x.kind, x.chars.length) ∧
    (x.kind = .symbol → opensComment (x.chars ++ b) = false)

instance (x : Terminal) (b : List Char) : Decidable (x.Fits b) :=
  inferInstanceAs (Decidable (_ ∧ _))

/-- What may follow a terminal. -/
def Terminal.Stops (x : Terminal) (b : List Char) : Prop :=
  match x.kind with
  | .blank => Ends isBlank b
  | .atKeyword => Ends isNamePart b
  | .function => x.text = "url(" → urlLength? (x.chars ++ b) = none
  | .symbol => x.text = "/" → b.head? ≠ some '*'
  | .word => Ends isWordPart b ∧ (b.head? = some '(' → ¬IsFunctionName x.chars)
  | .url | .string | .finish => True

namespace Terminal

variable {text : String} {b : List Char}

theorem fits_blank_iff : Fits ⟨.blank, text⟩ b ↔
    text.toList ≠ [] ∧ (∀ c ∈ text.toList, isBlank c = true) ∧ Ends isBlank b := by
  simp only [Fits, chars, lexeme?_eq_blank_iff, runLength?_append_iff, reduceCtorEq,
    false_implies, and_true]

theorem fits_url_iff : Fits ⟨.url, text⟩ b ↔ ∃ before address after,
    text.toList = 'u' :: 'r' :: 'l' :: '(' :: (before ++ (address ++ (after ++ [')']))) ∧
      (∀ c ∈ before, isBlank c = true) ∧ (∀ c ∈ address, isAddress c = true) ∧
      (∀ c ∈ after, isBlank c = true) ∧ (address = [] → after = []) := by
  simp only [Fits, chars, lexeme?_eq_url_iff, urlLength?_eq_some_iff, reduceCtorEq, false_implies,
    and_true]
  constructor
  · rintro ⟨before, address, after, rest, heq, hbefore, haddress, hafter, hempty, hlength⟩
    have hsplit : text.toList ++ b =
        'u' :: 'r' :: 'l' :: '(' :: (before ++ (address ++ (after ++ [')']))) ++ rest := by
      simpa using heq
    refine ⟨before, address, after, List.append_inj_left hsplit ?_, hbefore, haddress, hafter,
      hempty⟩
    simp only [hlength, List.length_cons, List.length_append, List.length_nil]
    omega
  · rintro ⟨before, address, after, heq, hbefore, haddress, hafter, hempty⟩
    refine ⟨before, address, after, b, by simp [heq], hbefore, haddress, hafter, hempty, ?_⟩
    simp only [heq, List.length_cons, List.length_append, List.length_nil]
    omega

theorem fits_string_iff : Fits ⟨.string, text⟩ b ↔ ∃ mark ∈ ['"', '\''],
    quotedLength? mark true text.toList = some text.toList.length := by
  have hquoted (mark : Char) :
      quotedLength? mark true (text.toList ++ b) = some text.toList.length ↔
      quotedLength? mark true text.toList = some text.toList.length := by
    constructor
    · intro h
      have htake := (quotedLength?_take h).1
      rwa [List.take_left] at htake
    · intro h
      exact quotedLength?_append h b
  simp [Fits, chars, lexeme?_eq_string_iff, hquoted]

theorem fits_atKeyword_iff : Fits ⟨.atKeyword, text⟩ b ↔ ∃ c name,
    text.toList = '@' :: c :: name ∧ (isNameStart c || c == '-') = true ∧
      (∀ d ∈ name, isNamePart d = true) ∧ Ends isNamePart b := by
  simp only [Fits, chars, lexeme?_eq_atKeyword_iff, atKeywordLength?_append_iff, reduceCtorEq,
    false_implies, and_true]

theorem fits_function_iff : Fits ⟨.function, text⟩ b ↔ ∃ name, IsFunctionName name ∧
    text.toList = name ++ ['('] ∧ (text = "url(" → urlLength? (text.toList ++ b) = none) := by
  simp only [Fits, chars, lexeme?_eq_function_iff, functionLength?_eq_some_iff, reduceCtorEq,
    false_implies, and_true]
  constructor
  · rintro ⟨hurl, name, rest, hname, heq, hlength⟩
    have hsplit : text.toList ++ b = name ++ ['('] ++ rest := by simpa using heq
    exact ⟨name, hname, List.append_inj_left hsplit (by simpa using hlength), fun _ => hurl⟩
  · rintro ⟨name, hname, heq, hurl⟩
    refine ⟨?_, name, b, hname, by simp [heq], by simp [heq]⟩
    by_cases htext : text = "url("
    · exact hurl htext
    · -- no other name starts an address, as a name has no parenthesis
      rcases hlength : urlLength? (text.toList ++ b) with _ | n
      · rfl
      obtain ⟨before, address, after, rest, hstart, -⟩ := urlLength?_eq_some_iff.1 hlength
      have hfour : functionLength? (text.toList ++ b) = some 4 := by
        rw [hstart]
        rfl
      have hfunction : functionLength? (text.toList ++ b) = some text.toList.length :=
        functionLength?_eq_some_iff.2 ⟨name, b, hname, by simp [heq], by simp [heq]⟩
      have hsplit : text.toList ++ b =
          ['u', 'r', 'l', '('] ++ (before ++ (address ++ (after ++ ')' :: rest))) := hstart
      have htext' : text.toList = ['u', 'r', 'l', '('] :=
        List.append_inj_left hsplit (Option.some.inj (hfunction.symm.trans hfour))
      exact absurd (String.toList_inj.1 (htext'.trans (by decide))) htext

theorem fits_symbol_iff : Fits ⟨.symbol, text⟩ b ↔
    ∃ c ∈ symbols, text.toList = [c] ∧ (c = '/' → b.head? ≠ some '*') := by
  constructor
  · rintro ⟨hlexeme, hopens⟩
    have hopens : opensComment (text.toList ++ b) = false := hopens rfl
    have hlexeme := (lexeme?_eq_symbol_iff hopens).1 hlexeme
    rcases htext : text.toList with _ | ⟨c, _ | ⟨d, cs⟩⟩
    · simp only [chars, htext, List.length_nil] at hlexeme
      cases pos_of_symbolLength? hlexeme
    · simp only [chars, htext, List.singleton_append, symbolLength?] at hlexeme
      rw [htext] at hopens
      split at hlexeme
      · next hc =>
        exact ⟨c, by simpa using hc, rfl, opensComment_cons_eq_false_iff.1 hopens⟩
      · cases hlexeme
    · simp only [chars, htext, List.cons_append, symbolLength?] at hlexeme
      split at hlexeme <;> simp at hlexeme
  · rintro ⟨c, hc, htext, hstar⟩
    have hopens : opensComment (text.toList ++ b) = false := by
      rw [htext]
      exact opensComment_cons_eq_false_iff.2 hstar
    refine ⟨(lexeme?_eq_symbol_iff hopens).2 ?_, fun _ => hopens⟩
    simp [chars, htext, symbolLength?, hc]

theorem fits_word_iff : Fits ⟨.word, text⟩ b ↔
    (text.toList ≠ [] ∧ (∀ c ∈ text.toList, isWordPart c = true) ∧
      atKeywordLength? text.toList = none) ∧
    Ends isWordPart b ∧ (b.head? = some '(' → ¬IsFunctionName text.toList) := by
  simp only [Fits, chars, lexeme?_eq_word_iff, runLength?_append_iff, reduceCtorEq, false_implies,
    and_true]
  constructor
  · rintro ⟨hat, hfunction, hne, hword, hends⟩
    exact ⟨⟨hne, hword, (atKeywordLength?_append_eq_none_iff hne hends).1 hat⟩, hends,
      (functionLength?_append_eq_none_iff hword hends).1 hfunction⟩
  · rintro ⟨⟨hne, hword, hat⟩, hends, hname⟩
    exact ⟨(atKeywordLength?_append_eq_none_iff hne hends).2 hat,
      (functionLength?_append_eq_none_iff hword hends).2 hname, hne, hword, hends⟩

theorem not_fits_finish : ¬Fits ⟨.finish, text⟩ b := by
  simp [Fits, lexeme?, Option.or_eq_some_iff]

/-- A terminal that fits at the end of a text fits in front of whatever may follow it. -/
theorem fits_iff {x : Terminal} : x.Fits b ↔ x.Fits [] ∧ x.Stops b := by
  rcases x with ⟨kind, text⟩
  cases kind with
  | blank => simp only [fits_blank_iff, Stops, ends_nil, and_true, and_assoc]
  | url => simp only [fits_url_iff, Stops, and_true]
  | string => simp only [fits_string_iff, Stops, and_true]
  | atKeyword =>
    simp only [fits_atKeyword_iff, Stops, ends_nil, and_true]
    constructor
    · rintro ⟨c, name, htext, hc, hname, hends⟩
      exact ⟨⟨c, name, htext, hc, hname⟩, hends⟩
    · rintro ⟨⟨c, name, htext, hc, hname⟩, hends⟩
      exact ⟨c, name, htext, hc, hname, hends⟩
  | function =>
    simp only [fits_function_iff, Stops]
    constructor
    · rintro ⟨name, hname, htext, hurl⟩
      refine ⟨⟨name, hname, htext, ?_⟩, hurl⟩
      rintro rfl
      rfl
    · rintro ⟨⟨name, hname, htext, -⟩, hurl⟩
      exact ⟨name, hname, htext, hurl⟩
  | symbol =>
    simp only [fits_symbol_iff, Stops]
    constructor
    · rintro ⟨c, hc, htext, hstar⟩
      refine ⟨⟨c, hc, htext, by simp⟩, ?_⟩
      rintro rfl
      exact hstar (List.singleton_inj.1 htext).symm
    · rintro ⟨⟨c, hc, htext, -⟩, hstar⟩
      refine ⟨c, hc, htext, ?_⟩
      rintro rfl
      exact hstar (String.toList_inj.1 (htext.trans (by decide)))
  | word => simp [fits_word_iff, Stops, ends_nil, chars]
  | finish => simp only [not_fits_finish, false_and]

/-- The terminal that opens an address. -/
def addressOpener : Terminal :=
  ⟨.function, "url("⟩

theorem stops_of_delimited {x : Terminal} (hkind : x.kind ≠ .blank) (hx : x ≠ addressOpener)
    (hb : Delimited b) : x.Stops b := by
  rcases x with ⟨kind, text⟩
  cases kind with
  | blank => exact absurd rfl hkind
  | atKeyword => exact hb.ends (by decide)
  | function => exact fun htext => absurd (congrArg (Terminal.mk .function) htext) hx
  | symbol => exact fun _ hstar => absurd (hb '*' hstar) (by decide)
  | word => exact ⟨hb.ends (by decide +kernel), fun hparen => absurd (hb '(' hparen) (by decide)⟩
  | url | string | finish => trivial

/-- Only the first character of what follows matters, except after what opens an address. -/
theorem Stops.congr {x : Terminal} {b' : List Char} (h : x.Stops b) (hx : x ≠ addressOpener)
    (hhead : b.head? = b'.head?) : x.Stops b' := by
  rcases x with ⟨kind, text⟩
  cases kind with
  | blank => exact Ends.congr h hhead
  | atKeyword => exact Ends.congr h hhead
  | function => exact fun htext => absurd (congrArg (Terminal.mk .function) htext) hx
  | symbol => exact fun htext => hhead ▸ h htext
  | word => exact ⟨Ends.congr h.1 hhead, fun hparen => h.2 (hhead ▸ hparen)⟩
  | url | string | finish => trivial

end Terminal

/-! ### The ends of terminals -/

/-- A text with no blank at its ends. -/
def IsTrimmed (cs : List Char) : Prop :=
  Ends isBlank cs ∧ Ends isBlank cs.reverse

theorem isTrimmed_of_all (h : ∀ c ∈ cs, isBlank c = false) : IsTrimmed cs :=
  ⟨fun c hc => h c (List.mem_of_head? hc),
    fun c hc => h c (List.mem_reverse.1 (List.mem_of_head? hc))⟩

theorem isTrimmed_of_ends {c d : Char} (hc : cs.head? = some c) (hd : cs.getLast? = some d)
    (hblank : isBlank c = false ∧ isBlank d = false) : IsTrimmed cs := by
  constructor
  · intro e he
    cases hc.symm.trans he
    exact hblank.1
  · intro e he
    rw [List.head?_reverse] at he
    cases hd.symm.trans he
    exact hblank.2

/-- Only blank terminals have a blank at an end. -/
theorem Terminal.Fits.isTrimmed {x : Terminal} {b : List Char} (h : x.Fits b)
    (hx : x.kind ≠ .blank) : IsTrimmed x.chars := by
  rcases x with ⟨kind, text⟩
  cases kind with
  | blank => exact absurd rfl hx
  | url =>
    obtain ⟨before, address, after, htext, -⟩ := fits_url_iff.1 h
    have hlast : text.toList.getLast? = some ')' := by simp [htext, List.getLast?_cons]
    have hfirst : text.toList.head? = some 'u' := by rw [htext]; rfl
    exact isTrimmed_of_ends hfirst hlast (by decide)
  | string =>
    obtain ⟨mark, hmark, hlength⟩ := fits_string_iff.1 h
    obtain ⟨-, hfirst, hlast⟩ := quotedLength?_take hlength
    rw [List.take_length] at hfirst hlast
    refine isTrimmed_of_ends hfirst hlast ?_
    simp only [List.mem_cons, List.not_mem_nil, or_false] at hmark
    rcases hmark with rfl | rfl <;> decide
  | atKeyword =>
    obtain ⟨c, name, htext, hc, hname, -⟩ := fits_atKeyword_iff.1 h
    refine isTrimmed_of_all fun d hd => ?_
    have hd : d ∈ text.toList := hd
    rw [htext, List.mem_cons, List.mem_cons] at hd
    rcases hd with rfl | rfl | hd
    · decide
    · exact (classes_of_nameStart (by simpa using hc)).2.1
    · exact (isWordPart_iff.1 (isWordPart_of_isNamePart (hname d hd))).1
  | function =>
    obtain ⟨name, hname, htext, -⟩ := fits_function_iff.1 h
    refine isTrimmed_of_all fun d hd => ?_
    have hd : d ∈ text.toList := hd
    rw [htext, List.mem_append, List.mem_singleton] at hd
    rcases hd with hd | rfl
    · exact (isWordPart_iff.1 (hname.isWordPart d hd)).1
    · decide
  | symbol =>
    obtain ⟨c, hc, htext, -⟩ := fits_symbol_iff.1 h
    refine isTrimmed_of_all fun d hd => ?_
    have hd : d ∈ text.toList := hd
    rw [htext, List.mem_singleton] at hd
    have hall : (symbols.all fun c => !isBlank c) = true := by decide
    simpa [hd] using List.all_eq_true.1 hall c hc
  | word =>
    obtain ⟨⟨-, hword, -⟩, -⟩ := fits_word_iff.1 h
    exact isTrimmed_of_all fun d hd => (isWordPart_iff.1 (hword d hd)).1
  | finish => exact absurd h not_fits_finish

theorem Terminal.Fits.chars_ne_nil {x : Terminal} {b : List Char} (h : x.Fits b) :
    x.chars ≠ [] :=
  List.length_pos_iff.1 (pos_of_lexeme? h.1)

/-! ### Terminals in a row -/

/-- The text of terminals in a row. -/
def spelling (xs : List Terminal) : List Char :=
  xs.flatMap Terminal.chars

@[simp] theorem spelling_nil : spelling [] = [] := rfl

@[simp] theorem spelling_cons (x : Terminal) (xs : List Terminal) :
    spelling (x :: xs) = x.chars ++ spelling xs := by
  simp [spelling]

@[simp] theorem spelling_append (xs ys : List Terminal) :
    spelling (xs ++ ys) = spelling xs ++ spelling ys := by
  simp [spelling]

/-- Terminals that are scanned where their text stands in front of another one. -/
def Scans : List Terminal → List Char → Prop
  | [], _ => True
  | x :: xs, b => x.Fits (spelling xs ++ b) ∧ Scans xs b

instance instDecidableScans : (xs : List Terminal) → (b : List Char) → Decidable (Scans xs b)
  | [], _ => inferInstanceAs (Decidable True)
  | x :: xs, b =>
    have := instDecidableScans xs b
    inferInstanceAs (Decidable (x.Fits (spelling xs ++ b) ∧ Scans xs b))

theorem scans_append_iff {xs ys : List Terminal} {b : List Char} :
    Scans (xs ++ ys) b ↔ Scans xs (spelling ys ++ b) ∧ Scans ys b := by
  induction xs with
  | nil => simp [Scans]
  | cons x xs ih => simp [Scans, ih, and_assoc]

theorem Scans.lexed {xs ts : List Terminal} {b : List Char} (h : Scans xs b) (hs : Lexed b ts) :
    Lexed (spelling xs ++ b) (xs ++ ts) := by
  induction xs with
  | nil => exact hs
  | cons x xs ih =>
    have hcons := Lexed.cons h.1.1 h.1.2 (ih h.2)
    rwa [Terminal.chars, String.ofList_toList, ← List.append_assoc, ← Terminal.chars,
      ← spelling_cons] at hcons

theorem Terminal.Fits.lexed {x : Terminal} {b : List Char} {ts : List Terminal} (h : x.Fits b)
    (hs : Lexed b ts) : Lexed (x.chars ++ b) (x :: ts) := by
  have hscans : Scans [x] b := ⟨h, trivial⟩
  simpa using hscans.lexed hs

theorem Lexed.scans {xs : List Terminal} (h : Lexed cs xs) :
    cs = spelling xs ∧ Scans xs [] := by
  induction h with
  | nil => exact ⟨rfl, trivial⟩
  | @cons a b kind ts h hcomment hs ih =>
    obtain ⟨rfl, hscans⟩ := ih
    have hchars : (Terminal.mk kind (String.ofList a)).chars = a := String.toList_ofList
    refine ⟨by rw [spelling_cons, hchars], ⟨?_, hscans⟩⟩
    rw [List.append_nil, Terminal.Fits, hchars]
    exact ⟨h, hcomment⟩

end ConditionalStyle.Stylesheet
