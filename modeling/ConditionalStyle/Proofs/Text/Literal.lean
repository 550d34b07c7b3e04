import ConditionalStyle.Proofs.Text.Lexeme
import ConditionalStyle.Text.Literal

/-!
# Literals are read back

The literal that spells a text is found again as a quoted string whatever follows it, and its body
spells that text.

## Main statements

* `quotedLength?_quote`: the literal is a quoted string of its own length.
* `unescape_escape`: its body spells the text.
-/

namespace ConditionalStyle.Text

/-! ### Hexadecimal digits -/

theorem hexDigit_cases {n : Nat} (h : n < 16) :
    hexValue? (hexDigit n) = some n ∧ hexDigit n ≠ '"' ∧ hexDigit n ≠ '\\' ∧ hexDigit n ≠ '\n' := by
  revert n
  decide

theorem hex_four (n : Nat) :
    hex 4 n = [hexDigit (n / 16 / 16 / 16 % 16), hexDigit (n / 16 / 16 % 16),
      hexDigit (n / 16 % 16), hexDigit (n % 16)] := rfl

theorem hex4?_hex {n : Nat} (h : n < 0x10000) (rest : List CodePoint) :
    hex4? ((hex 4 n).map .char ++ rest) = some (n, rest) := by
  have key (m : Nat) : hexValue? (hexDigit (m % 16)) = some (m % 16) :=
    (hexDigit_cases (Nat.mod_lt m (by decide))).1
  simp only [hex_four, List.map_cons, List.map_nil, List.cons_append, List.nil_append, hex4?,
    CodePoint.hexValue?, key, Option.bind_eq_bind, Option.bind_some, Option.pure_def,
    Option.some.injEq, Prod.mk.injEq, and_true]
  omega

theorem quotedRest?_hex (width n : Nat) (continued : Bool) (rest : List Char) :
    quotedRest? '"' continued (hex width n ++ rest) =
      (quotedRest? '"' continued rest).map (· + width) := by
  induction width generalizing n rest with
  | zero => simp [hex]
  | succ width ih =>
    obtain ⟨-, hq, hb, hn⟩ := hexDigit_cases (Nat.mod_lt n (by decide : 0 < 16))
    rw [hex, List.append_assoc, ih, List.singleton_append, quotedRest?_cons hq hb hn,
      Option.map_map]
    congr 1
    funext m
    simp only [Function.comp_apply]
    omega

/-! ### One character -/

/-- The three ways in which a character is spelled. -/
theorem escapeChar_cases (c : Char) :
    (∃ letter, escapeChar c = ['\\', letter] ∧ letterChar? letter = some c ∧ letter ≠ '\n') ∨
    (escapeChar c = '\\' :: 'u' :: hex 4 c.toNat ∧ c.toNat < 0x10000) ∨
    (escapeChar c = [c] ∧ c ≠ '"' ∧ c ≠ '\\' ∧ c ≠ '\n') := by
  rw [escapeChar]
  split
  · next letter h =>
    left
    unfold escapeLetter? at h
    split at h <;> cases h <;> exact ⟨_, rfl, rfl, by decide⟩
  · next h =>
    right
    split
    · next hn =>
      refine .inl ⟨rfl, ?_⟩
      simp only [isNumbered, Bool.or_eq_true, decide_eq_true_eq, beq_iff_eq] at hn
      omega
    · refine .inr ⟨rfl, ?_, ?_, ?_⟩ <;> (rintro rfl; cases h)

theorem quotedRest?_escapeChar (c : Char) (rest : List Char) :
    quotedRest? '"' false (escapeChar c ++ rest) =
      (quotedRest? '"' false rest).map (· + (escapeChar c).length) := by
  rcases escapeChar_cases c with ⟨letter, h, -, hl⟩ | ⟨h, -⟩ | ⟨h, hq, hb, hn⟩
  · rw [h]
    exact quotedRest?_escaped (by decide) (.inl hl) rest
  · rw [h, List.cons_append, List.cons_append, quotedRest?_escaped (by decide) (.inl (by decide)),
      quotedRest?_hex, Option.map_map]
    rfl
  · rw [h]
    exact quotedRest?_cons hq hb hn rest

/-! ### One spelling -/

theorem spellings_itself {p : CodePoint} (h : p ≠ .char '\\') (position : Nat)
    (rest : List CodePoint) :
    spellings position (p :: rest) = (spellings (position + 1) rest).map (p.toNat :: ·) := by
  rw [spellings]
  · rfl
  · rintro rfl
    exact fun _ => h rfl
  · rintro _ _ rfl
    exact fun _ => h rfl
  · rintro _ _ rfl
    exact fun _ => h rfl

theorem spellings_letter {letter c : Char} (h : letterChar? letter = some c) (position : Nat)
    (rest : List CodePoint) :
    spellings position (.char '\\' :: .char letter :: rest) =
      (spellings (position + 2) rest).map (c.toNat :: ·) := by
  rw [spellings]
  simp only [h]
  rfl

theorem spellings_unit {n : Nat} {ps rest : List CodePoint} (h : hex4? ps = some (n, rest))
    (position : Nat) :
    spellings position (.char '\\' :: .char 'u' :: ps) =
      (spellings (position + 6) rest).map (n :: ·) := by
  rw [spellings]
  have hu : letterChar? 'u' = none := rfl
  simp only [hu, beq_self_eq_true, ↓reduceIte]
  split
  · next h' =>
    rw [h] at h'
    cases h'
    rfl
  · next h' =>
    rw [h] at h'
    cases h'

theorem spellings_escapeChar (c : Char) (position : Nat) (rest : List CodePoint) :
    spellings position ((escapeChar c).map .char ++ rest) =
      (spellings (position + (escapeChar c).length) rest).map (c.toNat :: ·) := by
  rcases escapeChar_cases c with ⟨letter, h, hl, -⟩ | ⟨h, hc⟩ | ⟨h, -, hb, -⟩
  · rw [h]
    exact spellings_letter hl position rest
  · rw [h]
    exact spellings_unit (hex4?_hex hc rest) position
  · rw [h]
    exact spellings_itself (p := .char c) (by simpa using hb) position rest

/-! ### Code units -/

theorem pairUnits_plain {u : Nat} (hh : isHighSurrogate u = false) (hl : isLowSurrogate u = false)
    (i : Nat) (rest : List Nat) :
    pairUnits i (u :: rest) = (do
      let cs ← pairUnits (i + 1) rest
      return Char.ofNat u :: cs) := by
  cases rest with
  | nil => simp only [pairUnits, hh, hl, Bool.false_eq_true, ↓reduceIte]; rfl
  | cons v rest => simp only [pairUnits, hh, hl, Bool.false_eq_true, ↓reduceIte]

theorem pairUnits_unitsOf (c : Char) (i : Nat) (rest : List Nat) :
    pairUnits i (unitsOf c.toNat ++ rest) = (do
      let cs ← pairUnits (i + (unitsOf c.toNat).length) rest
      return c :: cs) := by
  have hv : c.toNat.isValidChar := c.valid
  simp only [Nat.isValidChar] at hv
  by_cases hc : c.toNat < 0x10000
  · have hh : isHighSurrogate c.toNat = false := by
      simp only [isHighSurrogate, Bool.and_eq_false_iff, decide_eq_false_iff_not]
      omega
    have hl : isLowSurrogate c.toNat = false := by
      simp only [isLowSurrogate, Bool.and_eq_false_iff, decide_eq_false_iff_not]
      omega
    simp only [unitsOf, hc, ↓reduceIte, List.singleton_append, List.length_singleton]
    rw [pairUnits_plain hh hl, Char.ofNat_toNat]
  · -- a pair of surrogates determines the code point it was made of
    obtain ⟨m, hm⟩ : ∃ m, c.toNat = 0x10000 + m := ⟨c.toNat - 0x10000, by omega⟩
    have hh : isHighSurrogate (0xd800 + m / 0x400) = true := by
      simp only [isHighSurrogate, Bool.and_eq_true, decide_eq_true_eq]
      omega
    have hl : isLowSurrogate (0xdc00 + m % 0x400) = true := by
      simp only [isLowSurrogate, Bool.and_eq_true, decide_eq_true_eq]
      omega
    have hback : 0x10000 + (0xd800 + m / 0x400 - 0xd800) * 0x400 + (0xdc00 + m % 0x400 - 0xdc00) =
        c.toNat := by
      omega
    have hunits : unitsOf c.toNat = [0xd800 + m / 0x400, 0xdc00 + m % 0x400] := by
      rw [unitsOf, if_neg hc, hm, Nat.add_sub_cancel_left]
    rw [hunits, List.cons_append, List.cons_append, List.nil_append, pairUnits]
    simp only [hh, hl, ↓reduceIte, hback, Char.ofNat_toNat]
    rfl

/-! ### Whole texts -/

theorem quote_toList (s : String) :
    (quote s).toList = '"' :: (s.toList.flatMap escapeChar ++ ['"']) := by
  simp [quote, escape]

theorem quotedRest?_escape (cs rest : List Char) :
    quotedRest? '"' false (cs.flatMap escapeChar ++ rest) =
      (quotedRest? '"' false rest).map (· + (cs.flatMap escapeChar).length) := by
  induction cs with
  | nil => simp
  | cons c cs ih =>
    rw [List.flatMap_cons, List.append_assoc, quotedRest?_escapeChar, ih, Option.map_map]
    congr 1
    funext m
    simp only [Function.comp_apply, List.length_append]
    omega

/-- A literal is a quoted string of its own length, whatever follows. -/
theorem quotedLength?_quote (s : String) (rest : List Char) :
    quotedLength? '"' false ((quote s).toList ++ rest) = some (quote s).toList.length := by
  rw [quote_toList, List.cons_append, quotedLength?, if_pos (beq_self_eq_true '"'),
    List.append_assoc, quotedRest?_escape, List.singleton_append, quotedRest?_mark]
  simp only [Option.map_some, List.length_cons, List.length_append, List.length_nil]
  congr 1
  omega

theorem spellings_escape (cs : List Char) (position : Nat) :
    spellings position ((cs.flatMap escapeChar).map .char) = .ok (cs.map Char.toNat) := by
  induction cs generalizing position with
  | nil =>
    rw [List.flatMap_nil, List.map_nil, spellings]
    rfl
  | cons c cs ih =>
    rw [List.flatMap_cons, List.map_append, spellings_escapeChar, ih]
    rfl

theorem pairUnits_toNat (cs : List Char) (i : Nat) :
    pairUnits i ((cs.map Char.toNat).flatMap unitsOf) = .ok cs := by
  induction cs generalizing i with
  | nil => rfl
  | cons c cs ih =>
    rw [List.map_cons, List.flatMap_cons, pairUnits_unitsOf, ih]
    rfl

/-- The body of the literal that spells a text spells that text. -/
theorem unescape_escape (s : String) : unescape (escape s) = .ok s := by
  rw [unescape, decode, codePoints, escape, String.toList_ofList, spellings_escape]
  dsimp only [bind, Except.bind]
  rw [pairUnits_toNat]
  simp [pure, Except.pure]

/-- Different texts have different literals. -/
theorem eq_of_quote_eq {s t : String} (h : quote s = quote t) : s = t := by
  have hlist := congrArg String.toList h
  rw [quote_toList, quote_toList, List.cons.injEq, List.append_cancel_right_eq] at hlist
  have hescape : escape s = escape t := congrArg String.ofList hlist.2
  have hs := unescape_escape s
  rw [hescape, unescape_escape t] at hs
  exact (Except.ok.inj hs).symm

end ConditionalStyle.Text
