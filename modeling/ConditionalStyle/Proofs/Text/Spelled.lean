import ConditionalStyle.Proofs.Reading
import ConditionalStyle.Proofs.Text.Ascii
import ConditionalStyle.Proofs.Text.Literal
import Mathlib.Data.List.Forall2

/-!
# The bodies that spell a text

In the body of a literal a character stands for itself, unless it is a backslash, or it is spelled
by a backslash: with a letter, for nine characters, or with the hexadecimal digits of its units of
sixteen bits. A body spells a text if it is made of one spelling for each character. These bodies
are the ones that are read, and each of them is read as the text that it spells.

Units are read one by one and paired only afterwards, when the spellings are forgotten. So a half of
a pair that stands by itself in the body is paired like one that is spelled by its digits. It is not
paired with a character, because no character starts with the second half of a pair.

## Main definitions

* `letterTable`: the characters that are spelled by a letter.
* `IsHex`: the digits of a unit.
* `IsHalf`, `IsSpelling`: the spellings of half a pair and of a character.

## Main statements

* `spellings_cases`: what a body that is read starts with.
* `decode_eq_ok_iff`: the bodies that are read, and what they are read as.
-/

namespace ConditionalStyle.Text

/-! ### Spellings -/

/-- The letters that may follow a backslash, each with the character that it stands for. -/
def letterTable : List (Char × Char) :=
  [('\\', '\\'), ('"', '"'), ('\'', '\''), ('b', '\x08'), ('t', '\t'), ('n', '\n'), ('f', '\x0c'),
    ('r', '\r'), ('0', '\x00')]

/-- Four characters that are the hexadecimal digits of a unit, in whatever case. -/
def IsHex (unit : Nat) (digits : List Char) : Prop :=
  digits.map Char.toLower = hex 4 unit

/-- The escape with given digits. -/
def numbered (digits : List Char) : List CodePoint :=
  .char '\\' :: .char 'u' :: digits.map .char

/-- The spellings of half a pair: the half by itself, and its digits. -/
inductive IsHalf (unit : Nat) : List CodePoint → Prop
  | itself {i : Fin 0x800} (h : 0xd800 + i = unit) : IsHalf unit [.half i]
  | digits {digits : List Char} (h : IsHex unit digits) : IsHalf unit (numbered digits)

/-- The spellings of a character. -/
inductive IsSpelling (c : Char) : List CodePoint → Prop
  | itself (h : c ≠ '\\') : IsSpelling c [.char c]
  | letter {letter : Char} (h : (letter, c) ∈ letterTable) :
      IsSpelling c [.char '\\', .char letter]
  | unit {digits : List Char} (h : c.toNat < 0x10000) (hdigits : IsHex c.toNat digits) :
      IsSpelling c (numbered digits)
  | pair {high low : List CodePoint} (h : 0x10000 ≤ c.toNat)
      (hhigh : IsHalf (0xd800 + (c.toNat - 0x10000) / 0x400) high)
      (hlow : IsHalf (0xdc00 + (c.toNat - 0x10000) % 0x400) low) :
      IsSpelling c (high ++ low)

theorem letterChar?_eq_some_iff {letter c : Char} :
    letterChar? letter = some c ↔ (letter, c) ∈ letterTable := by
  constructor
  · intro h
    unfold letterChar? at h
    split at h <;> cases h <;> decide
  · intro h
    simp only [letterTable, List.mem_cons, Prod.mk.injEq, List.not_mem_nil, or_false] at h
    rcases h with ⟨rfl, rfl⟩ | ⟨rfl, rfl⟩ | ⟨rfl, rfl⟩ | ⟨rfl, rfl⟩ | ⟨rfl, rfl⟩ | ⟨rfl, rfl⟩ |
      ⟨rfl, rfl⟩ | ⟨rfl, rfl⟩ | ⟨rfl, rfl⟩ <;> rfl

/-! ### Digits -/

theorem lt_of_hexValue? {d : Char} {v : Nat} (h : hexValue? d = some v) : d.toNat < 128 := by
  simp only [hexValue?, Bool.and_eq_true, decide_eq_true_eq] at h
  split at h
  · next hd => exact lt_of_le_ascii hd.2 (by decide)
  split at h
  · next hd => exact lt_of_le_ascii hd.2 (by decide)
  split at h
  · next hd => exact lt_of_le_ascii hd.2 (by decide)
  · cases h

theorem lt_of_toLower {d : Char} (h : d.toLower.toNat < 128) : d.toNat < 128 := by
  delta Char.toLower at h
  split at h
  · next hd => exact lt_of_le_ascii (Char.le_def.2 hd.2) (by decide)
  · exact h

theorem hexValue?_eq_some_iff {d : Char} {v : Nat} (hv : v < 16) :
    hexValue? d = some v ↔ d.toLower = hexDigit v := by
  have hall : ((List.range 128).all fun n => (List.range 16).all fun v =>
      (hexValue? (Char.ofNat n) == some v) == ((Char.ofNat n).toLower == hexDigit v)) = true := by
    decide +kernel
  have hascii (hd : d.toNat < 128) : (hexValue? d == some v) = (d.toLower == hexDigit v) := by
    have hvalues := of_ascii (p := fun d => (List.range 16).all fun v =>
      (hexValue? d == some v) == (d.toLower == hexDigit v)) hall hd
    simpa using List.all_eq_true.1 hvalues v (List.mem_range.2 hv)
  constructor
  · intro h
    have heq := hascii (lt_of_hexValue? h)
    simpa [h] using heq.symm
  · intro h
    have hdigit : ∀ v < 16, (hexDigit v).toNat < 128 := by decide
    have heq := hascii (lt_of_toLower (h ▸ hdigit v hv))
    simpa [h] using heq

theorem hexValue?_lt {d : Char} {v : Nat} (h : hexValue? d = some v) : v < 16 := by
  have hall := of_ascii (p := fun d => (hexValue? d).all (· < 16)) (by decide +kernel)
    (lt_of_hexValue? h)
  simpa [h] using hall

theorem CodePoint.hexValue?_eq_some_iff {p : CodePoint} {v : Nat} :
    p.hexValue? = some v ↔ ∃ d, p = .char d ∧ Text.hexValue? d = some v := by
  cases p <;> simp [CodePoint.hexValue?]

theorem hex4?_eq_some_iff {n : Nat} {ps rest : List CodePoint} :
    hex4? ps = some (n, rest) ↔
      n < 0x10000 ∧ ∃ digits : List Char, ps = digits.map .char ++ rest ∧ IsHex n digits := by
  constructor
  · intro h
    rcases ps with _ | ⟨a, _ | ⟨b, _ | ⟨c, _ | ⟨d, tail⟩⟩⟩⟩
    · cases h
    · cases h
    · cases h
    · cases h
    simp only [hex4?, Option.bind_eq_bind, Option.bind_eq_some_iff, Option.pure_def,
      Option.some.injEq, Prod.mk.injEq, CodePoint.hexValue?_eq_some_iff] at h
    obtain ⟨va, ⟨a, rfl, ha⟩, vb, ⟨b, rfl, hb⟩, vc, ⟨c, rfl, hc⟩, vd, ⟨d, rfl, hd⟩, rfl, rfl⟩ := h
    have hla := hexValue?_lt ha
    have hlb := hexValue?_lt hb
    have hlc := hexValue?_lt hc
    have hld := hexValue?_lt hd
    refine ⟨by omega, [a, b, c, d], rfl, ?_⟩
    have hda : (((va * 16 + vb) * 16 + vc) * 16 + vd) / 16 / 16 / 16 % 16 = va := by omega
    have hdb : (((va * 16 + vb) * 16 + vc) * 16 + vd) / 16 / 16 % 16 = vb := by omega
    have hdc : (((va * 16 + vb) * 16 + vc) * 16 + vd) / 16 % 16 = vc := by omega
    have hdd : (((va * 16 + vb) * 16 + vc) * 16 + vd) % 16 = vd := by omega
    rw [IsHex, hex_four, hda, hdb, hdc, hdd]
    simp only [List.map_cons, List.map_nil, (hexValue?_eq_some_iff hla).1 ha,
      (hexValue?_eq_some_iff hlb).1 hb, (hexValue?_eq_some_iff hlc).1 hc,
      (hexValue?_eq_some_iff hld).1 hd]
  · rintro ⟨hn, digits, rfl, hdigits⟩
    rw [IsHex, hex_four] at hdigits
    simp only [List.map_eq_cons_iff, List.map_eq_nil_iff] at hdigits
    obtain ⟨a, _, rfl, ha, b, _, rfl, hb, c, _, rfl, hc, d, _, rfl, hd, rfl⟩ := hdigits
    have hlt (m : Nat) : m % 16 < 16 := Nat.mod_lt m (by decide)
    simp only [List.map_cons, List.map_nil, List.cons_append, List.nil_append, hex4?,
      CodePoint.hexValue?, (hexValue?_eq_some_iff (hlt _)).2 ha,
      (hexValue?_eq_some_iff (hlt _)).2 hb, (hexValue?_eq_some_iff (hlt _)).2 hc,
      (hexValue?_eq_some_iff (hlt _)).2 hd, Option.bind_eq_bind, Option.bind_some,
      Option.pure_def, Option.some.injEq, Prod.mk.injEq, and_true]
    omega

/-! ### What is spelled is read -/

theorem spellings_numbered {n : Nat} {digits : List Char} (hn : n < 0x10000)
    (hdigits : IsHex n digits) (position : Nat) (rest : List CodePoint) :
    spellings position (numbered digits ++ rest) =
      (spellings (position + 6) rest).map (n :: ·) :=
  spellings_unit (hex4?_eq_some_iff.2 ⟨hn, digits, rfl, hdigits⟩) position

theorem unitsOf_of_lt {n : Nat} (h : n < 0x10000) : unitsOf n = [n] := by
  rw [unitsOf, if_pos h]

theorem IsHalf.spellings {n : Nat} {part : List CodePoint} (h : IsHalf n part) (hn : n < 0x10000)
    (position : Nat) (rest : List CodePoint) :
    ∃ position', Text.spellings position (part ++ rest) =
      (Text.spellings position' rest).map (n :: ·) := by
  cases h with
  | @itself i h =>
    subst h
    exact ⟨_, spellings_itself (p := .half i) (by simp) position rest⟩
  | digits h => exact ⟨_, spellings_numbered hn h position rest⟩

/-- A spelling of a character is read as code points that have the units of the character. -/
theorem IsSpelling.spellings {c : Char} {part : List CodePoint} (h : IsSpelling c part)
    (position : Nat) (rest : List CodePoint) :
    ∃ ns position', Text.spellings position (part ++ rest) =
        (Text.spellings position' rest).map (ns ++ ·) ∧ ns.flatMap unitsOf = unitsOf c.toNat := by
  cases h with
  | itself h =>
    exact ⟨[c.toNat], _, spellings_itself (p := .char c) (by simpa using h) position rest, by simp⟩
  | letter h =>
    exact ⟨[c.toNat], _, spellings_letter (letterChar?_eq_some_iff.2 h) position rest, by simp⟩
  | unit h hdigits => exact ⟨[c.toNat], _, spellings_numbered h hdigits position rest, by simp⟩
  | pair h hhigh hlow =>
    have hv : c.toNat.isValidChar := c.valid
    simp only [Nat.isValidChar] at hv
    have hhigh' : 0xd800 + (c.toNat - 0x10000) / 0x400 < 0x10000 := by omega
    have hlow' : 0xdc00 + (c.toNat - 0x10000) % 0x400 < 0x10000 := by omega
    have hunits : unitsOf c.toNat = [_, _] := if_neg (Nat.not_lt.2 h)
    obtain ⟨position₁, hread₁⟩ := hhigh.spellings hhigh' position (_ ++ rest)
    obtain ⟨position₂, hread₂⟩ := hlow.spellings hlow' position₁ rest
    refine ⟨unitsOf c.toNat, position₂, ?_, ?_⟩
    · rw [List.append_assoc, hread₁, hread₂, hunits]
      cases Text.spellings position₂ rest <;> rfl
    · rw [hunits, List.flatMap_cons, List.flatMap_singleton, unitsOf_of_lt hhigh',
        unitsOf_of_lt hlow']
      rfl

theorem spellings_of_isSpelling {cs : List Char} {parts : List (List CodePoint)}
    (h : List.Forall₂ IsSpelling cs parts) (position : Nat) :
    ∃ ns, spellings position parts.flatten = .ok ns ∧
      ns.flatMap unitsOf = (cs.map Char.toNat).flatMap unitsOf := by
  induction h generalizing position with
  | nil =>
    refine ⟨[], ?_, rfl⟩
    rw [List.flatten_nil, spellings]
  | @cons c part cs parts hpart _ ih =>
    obtain ⟨ns, position', hread, hunits⟩ := hpart.spellings position parts.flatten
    obtain ⟨ns', hread', hunits'⟩ := ih position'
    refine ⟨ns ++ ns', ?_, ?_⟩
    · rw [List.flatten_cons, hread, hread']
      rfl
    · rw [List.flatMap_append, hunits, hunits', List.map_cons, List.flatMap_cons]

/-! ### What is read is spelled -/

/-- Code points that are no characters: the halves of pairs. -/
def IsSurrogate (n : Nat) : Prop :=
  0xd800 ≤ n ∧ n < 0xe000

theorem toNat_ofNat {n : Nat} (h : n.isValidChar) : (Char.ofNat n).toNat = n := by
  rw [Char.ofNat, dif_pos h]
  rfl

/-- A body that is read is empty, or it starts with a spelling of a character or of half a pair. -/
theorem spellings_cases {position : Nat} {ps : List CodePoint} {ns : List Nat}
    (h : spellings position ps = .ok ns) :
    (ps = [] ∧ ns = []) ∨ ∃ part rest n ns' position', ps = part ++ rest ∧ part ≠ [] ∧
      ns = n :: ns' ∧ spellings position' rest = .ok ns' ∧
      ((∃ c, c.toNat = n ∧ IsSpelling c part) ∨ IsSurrogate n ∧ IsHalf n part) := by
  rcases ps with _ | ⟨p, ps⟩
  · rw [spellings] at h
    cases h
    exact .inl ⟨rfl, rfl⟩
  right
  by_cases hp : p = .char '\\'
  case neg =>
    rw [spellings_itself hp] at h
    obtain ⟨ns', hread, rfl⟩ := map_eq_ok_iff.1 h
    refine ⟨[p], ps, p.toNat, ns', _, rfl, by simp, rfl, hread, ?_⟩
    cases p with
    | char c => exact .inl ⟨c, rfl, .itself (by simpa using hp)⟩
    | half i =>
      have hi := i.isLt
      exact .inr ⟨⟨Nat.le_add_right _ _, by simp only [CodePoint.toNat]; omega⟩, .itself rfl⟩
  subst hp
  rcases ps with _ | ⟨letter | i, ps⟩
  · rw [spellings] at h
    cases h
  case cons.half =>
    rw [spellings] at h
    cases h
  rcases hletter : letterChar? letter with _ | c
  case some =>
    rw [spellings_letter hletter] at h
    obtain ⟨ns', hread, rfl⟩ := map_eq_ok_iff.1 h
    exact ⟨[.char '\\', .char letter], ps, c.toNat, ns', _, rfl, by simp, rfl, hread,
      .inl ⟨c, rfl, .letter (letterChar?_eq_some_iff.1 hletter)⟩⟩
  by_cases hu : letter = 'u'
  case neg =>
    rw [spellings] at h
    simp [hletter, hu] at h
  subst hu
  rcases hhex : hex4? ps with _ | ⟨n, rest⟩
  · rw [spellings] at h
    simp only [hletter, beq_self_eq_true, ↓reduceIte] at h
    split at h
    · next h' =>
      rw [hhex] at h'
      cases h'
    · cases h
  · rw [spellings_unit hhex] at h
    obtain ⟨ns', hread, rfl⟩ := map_eq_ok_iff.1 h
    obtain ⟨hn, digits, rfl, hdigits⟩ := hex4?_eq_some_iff.1 hhex
    refine ⟨numbered digits, rest, n, ns', _, rfl, by simp [numbered], rfl, hread, ?_⟩
    by_cases hsurrogate : IsSurrogate n
    · exact .inr ⟨hsurrogate, .digits hdigits⟩
    · rw [IsSurrogate] at hsurrogate
      have hvalid : n.isValidChar := by
        simp only [Nat.isValidChar]
        omega
      have htoNat : (Char.ofNat n).toNat = n := toNat_ofNat hvalid
      rw [← htoNat] at hn hdigits
      exact .inl ⟨Char.ofNat n, htoNat, .unit hn hdigits⟩

/-- No character starts with the second half of a pair. -/
theorem isLowSurrogate_of_unitsOf {c : Char} {u : Nat} {us vs : List Nat}
    (h : unitsOf c.toNat ++ us = u :: vs) : isLowSurrogate u = false := by
  have hv : c.toNat.isValidChar := c.valid
  simp only [Nat.isValidChar] at hv
  simp only [isLowSurrogate, Bool.and_eq_false_iff, decide_eq_false_iff_not]
  rw [unitsOf] at h
  split at h <;> cases h <;> omega

/-- What starts with half a pair starts with a high surrogate, and a low one comes next. -/
theorem pairUnits_surrogate {i n : Nat} {us : List Nat} {cs : List Char} (hn : IsSurrogate n)
    (h : pairUnits i (n :: us) = .ok cs) : n < 0xdc00 ∧ ∃ v vs cs', us = v :: vs ∧
      isLowSurrogate v = true ∧
      cs = Char.ofNat (0x10000 + (n - 0xd800) * 0x400 + (v - 0xdc00)) :: cs' ∧
      pairUnits (i + 2) vs = .ok cs' := by
  obtain ⟨hle, hlt⟩ := hn
  by_cases hhigh : n < 0xdc00
  case neg =>
    -- a low surrogate comes too early
    have hnot : isHighSurrogate n = false := by simp [isHighSurrogate, hhigh]
    have hlow : isLowSurrogate n = true := by
      simp only [isLowSurrogate, Bool.and_eq_true, decide_eq_true_eq]
      omega
    rcases us with _ | ⟨v, vs⟩ <;>
      simp only [pairUnits, hnot, hlow, Bool.false_eq_true, ↓reduceIte] at h <;> cases h
  have hyes : isHighSurrogate n = true := by simp [isHighSurrogate, hle, hhigh]
  refine ⟨hhigh, ?_⟩
  rcases us with _ | ⟨v, vs⟩
  · simp only [pairUnits, hyes, ↓reduceIte] at h
    cases h
  · simp only [pairUnits, hyes, ↓reduceIte] at h
    split at h
    · next hlow =>
      obtain ⟨cs', hread, hcs⟩ := bind_eq_ok_iff.1 h
      cases hcs
      exact ⟨v, vs, cs', rfl, hlow, rfl, hread⟩
    · cases h

/-- The character of a pair of surrogates is spelled by spellings of both. -/
theorem isSpelling_ofNat {n v : Nat} {high low : List CodePoint} (hn : 0xd800 ≤ n ∧ n < 0xdc00)
    (hv : isLowSurrogate v = true) (hhigh : IsHalf n high) (hlow : IsHalf v low) :
    IsSpelling (Char.ofNat (0x10000 + (n - 0xd800) * 0x400 + (v - 0xdc00))) (high ++ low) := by
  simp only [isLowSurrogate, Bool.and_eq_true, decide_eq_true_eq] at hv
  generalize hcode : 0x10000 + (n - 0xd800) * 0x400 + (v - 0xdc00) = code
  have hvalid : code.isValidChar := by
    simp only [Nat.isValidChar]
    omega
  have htoNat : (Char.ofNat code).toNat = code := toNat_ofNat hvalid
  have hn' : 0xd800 + (code - 0x10000) / 0x400 = n := by omega
  have hv' : 0xdc00 + (code - 0x10000) % 0x400 = v := by omega
  refine .pair ?_ ?_ ?_ <;> simp only [htoNat, hn', hv']
  · omega
  · exact hhigh
  · exact hlow

theorem isSpelling_of_spellings {position i : Nat} {body : List CodePoint} {ns : List Nat}
    {cs : List Char} (h : spellings position body = .ok ns)
    (hpair : pairUnits i (ns.flatMap unitsOf) = .ok cs) :
    ∃ parts, List.Forall₂ IsSpelling cs parts ∧ body = parts.flatten := by
  rcases spellings_cases h with
    ⟨rfl, rfl⟩ | ⟨part, rest, n, ns', position', hbody, hne, rfl, hread, hn⟩
  · cases hpair
    exact ⟨[], .nil, rfl⟩
  have hlt : rest.length < body.length := by
    have := List.length_pos_iff.2 hne
    rw [hbody, List.length_append]
    omega
  rcases hn with ⟨c, rfl, hpart⟩ | ⟨hn, hhigh⟩
  · rw [List.flatMap_cons, pairUnits_unitsOf] at hpair
    obtain ⟨cs', hpair', hcs⟩ := bind_eq_ok_iff.1 hpair
    cases hcs
    obtain ⟨parts, hparts, hrest⟩ := isSpelling_of_spellings hread hpair'
    exact ⟨part :: parts, .cons hpart hparts, by rw [hbody, hrest, List.flatten_cons]⟩
  -- the other half is the next unit, so it is spelled next
  rw [List.flatMap_cons, unitsOf_of_lt (Nat.lt_trans hn.2 (by decide)), List.singleton_append]
    at hpair
  obtain ⟨hhalf, v, vs, cs', hunits, hlow, rfl, hpair'⟩ := pairUnits_surrogate hn hpair
  rcases spellings_cases hread with
    ⟨rfl, rfl⟩ | ⟨part', rest', m, ns'', position'', hrest, -, rfl, hread', hm⟩
  · cases hunits
  have hle : rest'.length ≤ rest.length := by simp [hrest]
  rw [List.flatMap_cons] at hunits
  rcases hm with ⟨c, rfl, -⟩ | ⟨hm, hpart'⟩
  · rw [isLowSurrogate_of_unitsOf hunits] at hlow
    cases hlow
  rw [unitsOf_of_lt (Nat.lt_trans hm.2 (by decide))] at hunits
  obtain ⟨rfl, rfl⟩ := List.cons.inj hunits
  obtain ⟨parts, hparts, hrest'⟩ := isSpelling_of_spellings hread' hpair'
  refine ⟨_ :: parts, .cons (isSpelling_ofNat ⟨hn.1, hhalf⟩ hlow hhigh hpart') hparts, ?_⟩
  rw [hbody, hrest, hrest', List.flatten_cons, List.append_assoc]
termination_by body.length

/-! ### Whole bodies -/

theorem decode_eq_ok_iff_exists {body : List CodePoint} {text : String} :
    decode body = .ok text ↔ ∃ ns, spellings 0 body = .ok ns ∧
      pairUnits 0 (ns.flatMap unitsOf) = .ok text.toList := by
  rw [decode]
  rcases spellings 0 body with e | ns
  · exact iff_of_false (by intro h; cases h) (by rintro ⟨_, h, -⟩; cases h)
  · simp only [Except.ok.injEq, exists_eq_left', bind, Except.bind]
    rcases pairUnits 0 (ns.flatMap unitsOf) with u | cs
    · exact iff_of_false (by intro h; cases h) (by intro h; cases h)
    · simp [pure, Except.pure, ← String.toList_inj]

/-- A body is read as a text exactly if it is made of one spelling for each character of the text,
in order. Every other body is refused. -/
theorem decode_eq_ok_iff (body : List CodePoint) :
    (∀ text : String, decode body = .ok text ↔
      ∃ parts, List.Forall₂ IsSpelling text.toList parts ∧ body = parts.flatten) ∧
    ((∃ e, decode body = .error e) ↔
      ¬ ∃ cs parts, List.Forall₂ IsSpelling cs parts ∧ body = parts.flatten) := by
  have hread (text : String) : decode body = .ok text ↔
      ∃ parts, List.Forall₂ IsSpelling text.toList parts ∧ body = parts.flatten := by
    rw [decode_eq_ok_iff_exists]
    constructor
    · rintro ⟨ns, hns, hpair⟩
      exact isSpelling_of_spellings hns hpair
    · rintro ⟨parts, hparts, hbody⟩
      obtain ⟨ns, hns, hunits⟩ := spellings_of_isSpelling hparts 0
      exact ⟨ns, hbody ▸ hns, by rw [hunits, pairUnits_toNat]⟩
  refine ⟨hread, ?_, ?_⟩
  · rintro ⟨e, he⟩ ⟨cs, parts, hparts, hbody⟩
    have hok := (hread (String.ofList cs)).2 ⟨parts, by rwa [String.toList_ofList], hbody⟩
    rw [he] at hok
    cases hok
  · intro hnone
    rcases h : decode body with e | text
    · exact ⟨e, rfl⟩
    · exact absurd ⟨text.toList, (hread text).1 h⟩ hnone

/-- A first half that stands by itself is paired with a second one that is spelled by its digits.
The body is read, though it is not made of spellings that are characters only. -/
theorem decode_looseHalf :
    decode (.half 0x3d :: codePoints "\\ude00") = .ok "😀" ∧
      ¬ ∃ parts : List (List Char),
        List.Forall₂ (fun c part => IsSpelling c (part.map .char)) ['😀'] parts ∧
          CodePoint.half 0x3d :: codePoints "\\ude00" = parts.flatten.map .char := by
  refine ⟨by with_unfolding_all rfl, ?_⟩
  rintro ⟨parts, -, hbody⟩
  obtain ⟨d, -, hd⟩ := List.mem_map.1 (hbody ▸ List.mem_cons_self)
  cases hd

end ConditionalStyle.Text
