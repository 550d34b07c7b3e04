import ConditionalStyle.Proofs.Stylesheet.Regular
import ConditionalStyle.Proofs.Text.Ascii
import ConditionalStyle.Proofs.Text.Lexeme

/-!
# How the terminals of plain stylesheets are spelled

Plain stylesheets are spelled with words and names made of ASCII characters. A word ends where a
delimiter follows, so that a text cut at its delimiters is scanned as it was put together.

## Main definitions

* `IsPlainWord`, `IsPlainName`, `IsPhrase`: words, names, and words with single spaces between them.
* `Terminal`: tokens without their places.
* `Lexed`: the terminals of a text.
* `Delimited`: texts that end a word before them.

## Main statements

* `Lexed.scanFrom`: the relation agrees with the scan.
* `lexed_word`, `lexed_function`, `lexed_atKeyword`, `lexed_symbol`, `lexed_space`: what each kind
  of terminal is scanned as.
-/

namespace ConditionalStyle.Stylesheet

open Text

/-! ### Words and names -/

/-- What plain words are made of: ASCII letters, digits and four signs. -/
def isPlainPart (c : Char) : Bool :=
  isAsciiLetter c || isAsciiDigit c || ['-', '.', '#', '%'].contains c

/-- What plain names go on with: ASCII letters, digits and dashes. -/
def isPlainNamePart (c : Char) : Bool :=
  isAsciiLetter c || isAsciiDigit c || c == '-'

/-- A word that is not empty. -/
structure IsPlainWord (s : String) : Prop where
  ne_empty : s ≠ ""
  parts : ∀ c ∈ s.toList, isPlainPart c = true

/-- A name that starts with a letter. -/
def IsPlainName (s : String) : Prop :=
  ∃ c cs, s.toList = c :: cs ∧ isAsciiLetter c = true ∧ ∀ d ∈ cs, isPlainNamePart d = true

/-- Words with single spaces between them. -/
def IsPhrase (s : String) : Prop :=
  ∃ words : List String, (∀ w ∈ words, IsPlainWord w) ∧ s = " ".intercalate words

theorem lt_of_isPlainPart {c : Char} (h : isPlainPart c = true) : c.toNat < 128 := by
  simp only [isPlainPart, Bool.or_eq_true, List.contains_iff_mem] at h
  rcases h with (h | h) | h
  · exact lt_of_isAsciiLetter h
  · exact lt_of_isAsciiDigit h
  · simp only [List.mem_cons, List.not_mem_nil, or_false] at h
    rcases h with rfl | rfl | rfl | rfl <;> decide

/-- The classes of a character of a plain word. -/
theorem classes_of_isPlainPart {c : Char} (h : isPlainPart c = true) :
    isBlank c = false ∧ isWordPart c = true ∧ symbols.contains c = false ∧
      c ∉ ['"', '\'', '@', '/', '(', '*'] := by
  have hclass := of_ascii (p := fun c => !isPlainPart c || (!isBlank c && isWordPart c &&
    !symbols.contains c && !(['"', '\'', '@', '/', '(', '*'].contains c))) (by decide +kernel)
    (lt_of_isPlainPart h)
  simpa [h, and_assoc] using hclass

theorem isPlainPart_of_isPlainNamePart {c : Char} (h : isPlainNamePart c = true) :
    isPlainPart c = true := by
  simp only [isPlainNamePart, isPlainPart, Bool.or_eq_true] at h ⊢
  refine h.imp_right fun h => ?_
  rw [eq_of_beq h]
  decide

/-- The classes of a character of a plain name. -/
theorem isNamePart_of_isPlainNamePart {c : Char} (h : isPlainNamePart c = true) :
    isNamePart c = true := by
  have hclass := of_ascii (p := fun c => !isPlainNamePart c || isNamePart c) (by decide +kernel)
    (lt_of_isPlainPart (isPlainPart_of_isPlainNamePart h))
  simpa [h] using hclass

theorem isPlainNamePart_of_isAsciiLetter {c : Char} (h : isAsciiLetter c = true) :
    isPlainNamePart c = true := by
  simp [isPlainNamePart, h]

/-! ### Terminals -/

/-- A token without its place. -/
structure Terminal where
  kind : Token.Kind
  text : String
deriving DecidableEq, Repr

/-- A token without its place. -/
def Token.terminal (t : Token) : Terminal :=
  ⟨t.kind, t.text⟩

/-- The terminal of a symbol. -/
def Terminal.symbol (c : Char) : Terminal :=
  ⟨.symbol, String.singleton c⟩

/-- The terminal of a space. -/
def Terminal.space : Terminal :=
  ⟨.blank, " "⟩

/-- The terminals of a text without comments: cut off the first and go on with the rest. -/
inductive Lexed : List Char → List Terminal → Prop
  | nil : Lexed [] []
  | cons {a b : List Char} {kind : Token.Kind} {ts : List Terminal}
      (h : lexeme? (a ++ b) = some (.token kind, a.length))
      (hcomment : kind = .symbol → opensComment (a ++ b) = false) (hs : Lexed b ts) :
      Lexed (a ++ b) (⟨kind, String.ofList a⟩ :: ts)

/-- A scan takes the first lexeme and goes on after it, unless the lexeme is the slash of a comment
that does not end. -/
theorem scanFrom_of_lexeme? {a b : List Char} {l : Lexeme}
    (h : lexeme? (a ++ b) = some (l, a.length))
    (hcomment : l = .token .symbol → opensComment (a ++ b) = false) (position : Nat) (mark : Mark) :
    scanFrom position mark (a ++ b) = (scanFrom (position + a.length) (mark.advance a) b).map
      (Scanned.prepend l a position mark) := by
  have hpos := pos_of_lexeme? h
  rcases hcs : a ++ b with _ | ⟨c, rest⟩
  · rw [(List.append_eq_nil_iff.1 hcs).1] at hpos
    cases hpos
  rw [hcs] at h hcomment
  have hsymbol : (l == .token .symbol && opensComment (c :: rest)) = false := by
    by_cases hl : l = .token .symbol
    · rw [hcomment hl, Bool.and_false]
    · simp [hl]
  rw [scanFrom]
  split
  · next h' => rw [h] at h'; cases h'
  · next l' n h' =>
    rw [h] at h'
    cases h'
    rw [hsymbol, if_neg Bool.false_ne_true, ← hcs, List.take_left, List.drop_left]

theorem Lexed.scanFrom {cs : List Char} {ts : List Terminal} (h : Lexed cs ts) (position : Nat)
    (mark : Mark) :
    ∃ s, scanFrom position mark cs = .ok s ∧ s.tokens.map Token.terminal = ts := by
  induction h generalizing position mark with
  | nil =>
    rw [Stylesheet.scanFrom]
    exact ⟨_, rfl, rfl⟩
  | cons h hcomment hs ih =>
    next a b kind ts =>
    obtain ⟨s, hscan, rfl⟩ := ih (position + a.length) (mark.advance a)
    refine ⟨s.prepend (.token kind) a position mark, ?_, rfl⟩
    rw [scanFrom_of_lexeme? h (fun hkind => hcomment (Lexeme.token.inj hkind)), hscan]
    rfl

/-- A text is cut into terminals in one way. -/
theorem Lexed.unique {cs : List Char} {xs ys : List Terminal} (hxs : Lexed cs xs)
    (hys : Lexed cs ys) : xs = ys := by
  obtain ⟨s, hs, rfl⟩ := hxs.scanFrom 0 .start
  obtain ⟨s', hs', rfl⟩ := hys.scanFrom 0 .start
  cases hs.symm.trans hs'
  rfl

/-! ### Words -/

/-- The characters that end a word. -/
def delimiters : List Char :=
  [' ', ',', '/', ')', ';', ':', '{', '}', '!']

/-- A text that ends a word before it. -/
def Delimited (b : List Char) : Prop :=
  ∀ c, b.head? = some c → c ∈ delimiters

theorem delimited_cons {c : Char} (h : c ∈ delimiters) (b : List Char) : Delimited (c :: b) := by
  intro d hd
  cases hd
  exact h

theorem Delimited.ends {p : Char → Bool} {b : List Char} (h : Delimited b)
    (hp : (delimiters.all fun c => !p c) = true) : Ends p b := by
  intro c hc
  simpa using List.all_eq_true.1 hp c (h c hc)

theorem opensComment_of_ne {c : Char} (h : c ≠ '/') (cs : List Char) :
    opensComment (c :: cs) = false := by
  unfold opensComment
  split
  · next heq => exact absurd (List.cons.inj heq).1 h
  · rfl

theorem commentLength?_of_ne {c : Char} (h : c ≠ '/') (cs : List Char) :
    commentLength? (c :: cs) = none := by
  rw [commentLength?, opensComment_of_ne h, if_neg Bool.false_ne_true]

theorem runLength?_of_ends {p : Char → Bool} {cs : List Char} (h : Ends p cs) :
    runLength? p cs = none := by
  rw [runLength?, runLength_of_ends h]

theorem atKeywordLength?_of_ne {c : Char} (h : c ≠ '@') (cs : List Char) :
    atKeywordLength? (c :: cs) = none := by
  unfold atKeywordLength?
  split
  · next heq => exact absurd (List.cons.inj heq).1 h
  · rfl

/-- Plain words are no functions, as no parenthesis follows them. -/
theorem plainFunctionLength?_of_word {cs b : List Char} (h : ∀ c ∈ cs, isPlainPart c = true)
    (hb : Delimited b) : plainFunctionLength? (cs ++ b) = none := by
  have hparenthesis (rest : List Char) : b ≠ '(' :: rest := by
    rintro rfl
    exact absurd (hb '(' rfl) (by decide)
  rcases cs with _ | ⟨c, cs⟩
  · rcases b with _ | ⟨d, b⟩
    · rfl
    · have hd : isNameStart d = false := hb.ends (by decide) d rfl
      rw [List.nil_append, plainFunctionLength?, hd, if_neg Bool.false_ne_true]
  · obtain ⟨-, hcs⟩ := List.forall_mem_cons.1 h
    rw [List.cons_append, plainFunctionLength?]
    split
    · dsimp only
      rw [runLength_append (hb.ends (by decide)), List.drop_append_of_le_length (runLength_le _ _)]
      split
      · next rest heq =>
        rcases hdrop : cs.drop (runLength isNamePart cs) with _ | ⟨d, ds⟩
        · rw [hdrop] at heq
          exact absurd heq (hparenthesis rest)
        · rw [hdrop] at heq
          have hd : d ∈ cs := List.mem_of_mem_drop (hdrop ▸ List.mem_cons_self)
          rw [(List.cons.inj heq).1] at hd
          exact absurd (hcs '(' hd) (by decide)
      · rfl
    · rfl

theorem functionLength?_of_word {cs b : List Char} (h : ∀ c ∈ cs, isPlainPart c = true)
    (hb : Delimited b) : functionLength? (cs ++ b) = none := by
  have hplain := plainFunctionLength?_of_word h hb
  generalize htext : cs ++ b = text at hplain ⊢
  unfold functionLength?
  split
  · next rest =>
    -- after a dash that is not the whole word, the rest of the word is no function either
    rcases cs with _ | ⟨c, cs⟩
    · rw [List.nil_append] at htext
      exact absurd (hb '-' (by rw [htext]; rfl)) (by decide)
    · rw [List.cons_append] at htext
      rw [← (List.cons.inj htext).2, plainFunctionLength?_of_word (List.forall_mem_cons.1 h).2 hb]
      rfl
  · exact hplain

/-- An address starts like a function of three letters. -/
theorem plainFunctionLength?_url (rest : List Char) :
    plainFunctionLength? ('u' :: 'r' :: 'l' :: '(' :: rest) = some 4 := rfl

theorem urlLength?_of_plainFunction {cs : List Char} (h : plainFunctionLength? cs ≠ some 4) :
    urlLength? cs = none := by
  unfold urlLength?
  split
  · exact absurd (plainFunctionLength?_url _) h
  · rfl

theorem lexed_word {w : String} (h : IsPlainWord w) {b : List Char} {ts : List Terminal}
    (hb : Delimited b) (hs : Lexed b ts) : Lexed (w.toList ++ b) (⟨.word, w⟩ :: ts) := by
  have hurl : urlLength? (w.toList ++ b) = none :=
    urlLength?_of_plainFunction (by rw [plainFunctionLength?_of_word h.parts hb]; simp)
  have hfunction := functionLength?_of_word h.parts hb
  have hrun : runLength isWordPart (w.toList ++ b) = w.toList.length :=
    runLength_append_of_all (fun c hc => (classes_of_isPlainPart (h.parts c hc)).2.1)
      (hb.ends (by decide +kernel))
  have hlexeme : lexeme? (w.toList ++ b) = some (.token .word, w.toList.length) := by
    rcases hw : w.toList with _ | ⟨c, cs⟩
    · exact absurd (String.toList_eq_nil_iff.1 hw) h.ne_empty
    · obtain ⟨hblank, -, hsymbol, hother⟩ := classes_of_isPlainPart (h.parts c (by simp [hw]))
      simp only [List.mem_cons, List.not_mem_nil, or_false, not_or] at hother
      obtain ⟨hquote, hquote', hat, hslash, -⟩ := hother
      have hword : runLength? isWordPart (c :: cs ++ b) = some (c :: cs).length := by
        rw [hw] at hrun
        rw [runLength?, hrun, List.length_cons]
      have hsymbol' : symbolLength? (c :: cs ++ b) = none := by
        rw [List.cons_append, symbolLength?, hsymbol, if_neg Bool.false_ne_true]
      rw [hw] at hurl hfunction
      rw [lexeme?, hurl, hfunction, hword, hsymbol', List.cons_append, commentLength?_of_ne hslash,
        runLength?_of_ends (ends_cons hblank), quotedLength?_of_ne hquote,
        quotedLength?_of_ne hquote', atKeywordLength?_of_ne hat]
      rfl
  have hcons := Lexed.cons hlexeme (fun hkind => absurd hkind (by decide)) hs
  rwa [String.ofList_toList] at hcons

/-! ### Symbols and spaces -/

/-- A symbol is a terminal of its own, unless it is a slash that opens a comment. -/
theorem lexed_symbol {c : Char} (hc : c ∈ symbols) {b : List Char} {ts : List Terminal}
    (hb : c = '/' → b.head? ≠ some '*') (hs : Lexed b ts) : Lexed (c :: b) (.symbol c :: ts) := by
  have hopens : opensComment (c :: b) = false := by
    by_cases hslash : c = '/'
    · unfold opensComment
      split
      · next heq =>
        have hhead : b.head? = some '*' := by rw [(List.cons.inj heq).2]; rfl
        exact absurd hhead (hb hslash)
      · rfl
    · exact opensComment_of_ne hslash b
  have hlexeme : lexeme? (c :: b) = some (.token .symbol, 1) := by
    rw [lexeme?, commentLength?, hopens, if_neg Bool.false_ne_true]
    simp only [symbols, List.mem_cons, List.not_mem_nil, or_false] at hc
    rcases hc with rfl | rfl | rfl | rfl | rfl | rfl | rfl | rfl | rfl <;> rfl
  exact Lexed.cons (a := [c]) hlexeme (fun _ => hopens) hs

theorem lexed_space {b : List Char} {ts : List Terminal} (hb : Ends isBlank b) (hs : Lexed b ts) :
    Lexed (' ' :: b) (.space :: ts) := by
  have hlexeme : lexeme? (' ' :: b) = some (.token .blank, 1) := by
    have hrun : runLength isBlank (' ' :: b) = 1 := by
      change runLength isBlank b + 1 = 1
      rw [runLength_of_ends hb]
    rw [lexeme?, commentLength?_of_ne (by decide), runLength?, hrun]
    rfl
  exact Lexed.cons (a := [' ']) hlexeme (fun hkind => absurd hkind (by decide)) hs

/-! ### Names -/

theorem plainFunctionLength?_of_name {name : String} (h : IsPlainName name) (b : List Char) :
    plainFunctionLength? (name.toList ++ '(' :: b) = some (name.toList.length + 1) := by
  obtain ⟨c, cs, hname, hc, hcs⟩ := h
  have hstart : isNameStart c = true := by simp [isNameStart, hc]
  have hrun : runLength isNamePart (cs ++ '(' :: b) = cs.length :=
    runLength_append_of_all (fun d hd => isNamePart_of_isPlainNamePart (hcs d hd))
      (ends_cons (by decide))
  rw [hname, List.cons_append, plainFunctionLength?, if_pos hstart]
  dsimp only
  rw [hrun, List.drop_left, List.length_cons, Nat.add_comm 1]
  rfl

/-- A name with a parenthesis is a function, unless it starts an address. -/
theorem lexed_function {name : String} (h : IsPlainName name) (hurl : name ≠ "url")
    {b : List Char} {ts : List Terminal} (hs : Lexed b ts) :
    Lexed (name.toList ++ '(' :: b) (⟨.function, name ++ "("⟩ :: ts) := by
  have hplain := plainFunctionLength?_of_name h b
  have haddress : urlLength? (name.toList ++ '(' :: b) = none := by
    rw [urlLength?.eq_def]
    split
    · next rest heq =>
      -- the parenthesis ends the name, so that the name is the one of an address
      rw [heq, plainFunctionLength?_url] at hplain
      have hlength : name.toList.length = ['u', 'r', 'l'].length := by simpa using hplain.symm
      have hname := (List.append_inj heq hlength).1
      exact absurd (String.toList_inj.1 (hname.trans (by decide))) hurl
    · rfl
  obtain ⟨c, cs, hname, hc, -⟩ := h
  have hpart := isPlainPart_of_isPlainNamePart (isPlainNamePart_of_isAsciiLetter hc)
  obtain ⟨hblank, -, -, hother⟩ := classes_of_isPlainPart hpart
  simp only [List.mem_cons, List.not_mem_nil, or_false, not_or] at hother
  obtain ⟨hquote, hquote', hat, hslash, -⟩ := hother
  have hfunction : functionLength? (name.toList ++ '(' :: b) = some (name.toList.length + 1) := by
    rw [functionLength?.eq_def]
    split
    · next heq =>
      rw [hname, List.cons_append] at heq
      rw [(List.cons.inj heq).1] at hc
      exact absurd hc (by decide)
    · exact hplain
  have hlexeme : lexeme? (name.toList ++ '(' :: b) =
      some (.token .function, (name.toList ++ ['(']).length) := by
    rw [lexeme?, haddress, hfunction, hname, List.cons_append, commentLength?_of_ne hslash,
      runLength?_of_ends (ends_cons hblank), quotedLength?_of_ne hquote,
      quotedLength?_of_ne hquote', atKeywordLength?_of_ne hat, List.length_append]
    rfl
  have hsplit : name.toList ++ '(' :: b = (name.toList ++ ['(']) ++ b := by simp
  have htext : name ++ "(" = String.ofList (name.toList ++ ['(']) :=
    String.toList_inj.1 (by simp)
  rw [hsplit] at hlexeme
  rw [hsplit, htext]
  exact .cons hlexeme (fun hkind => absurd hkind (by decide)) hs

theorem lexed_atKeyword {name : String} (h : IsPlainName name) {b : List Char}
    {ts : List Terminal} (hb : Delimited b) (hs : Lexed b ts) :
    Lexed ('@' :: (name.toList ++ b)) (⟨.atKeyword, "@" ++ name⟩ :: ts) := by
  have hkeyword : atKeywordLength? ('@' :: (name.toList ++ b)) =
      some ('@' :: name.toList).length := by
    obtain ⟨c, cs, hname, hc, hcs⟩ := h
    have hstart : (isNameStart c || c == '-') = true := by simp [isNameStart, hc]
    have hrun : runLength isNamePart (cs ++ b) = cs.length :=
      runLength_append_of_all (fun d hd => isNamePart_of_isPlainNamePart (hcs d hd))
        (hb.ends (by decide))
    rw [hname, List.cons_append, atKeywordLength?, if_pos hstart, hrun, List.length_cons,
      List.length_cons, Nat.add_comm 2]
  have hlexeme : lexeme? ('@' :: (name.toList ++ b)) =
      some (.token .atKeyword, ('@' :: name.toList).length) := by
    rw [lexeme?, hkeyword]
    rfl
  have htext : "@" ++ name = String.ofList ('@' :: name.toList) := String.toList_inj.1 (by simp)
  rw [htext]
  exact Lexed.cons (a := '@' :: name.toList) hlexeme (fun hkind => absurd hkind (by decide)) hs

end ConditionalStyle.Stylesheet
