import ConditionalStyle.Proofs.Stylesheet.Address
import ConditionalStyle.Proofs.Stylesheet.Reading

/-!
# Selectors and parameters

The selectors of a ruleset and the parameters of an at-rule are kept as texts: their tokens are
written in a row, with one space for every run of blanks and none at the ends. Such a text is
scanned as the same terminals again, and so it is in front of a delimiter as long as no address is
left open at its end.

## Main definitions

* `IsHead`: terminals whose text is kept as it is.
* `IsFirm`: a text that is scanned in the same way in front of every delimiter.
* `IsSelector`: terminals that are read as one selector.

## Main statements

* `joinTokens_of_isTrimmed`: the text of tokens in a row.
* `scans_tidied`: what is scanned is scanned again with single spaces for its blanks.
* `exists_isHead`: a firm text of tokens in a row is the text of a head.
* `selectors_of_isSelector`, `selectors_sound`: what is read as selectors.
-/

namespace ConditionalStyle.Stylesheet

open Text Stylesheet.Parser

/-! ### Tokens and terminals -/

/-- Whether a terminal is the given symbol. -/
def Terminal.isSymbol (x : Terminal) (c : Char) : Bool :=
  x.kind == .symbol && x.text == String.singleton c

theorem Token.isSymbol_eq {t : Token} {x : Terminal} (h : t.terminal = x) (c : Char) :
    t.isSymbol c = x.isSymbol c := by
  rw [← h]
  rfl

theorem Token.kind_eq {t : Token} {x : Terminal} (h : t.terminal = x) : t.kind = x.kind := by
  rw [← h]
  rfl

theorem Token.text_eq {t : Token} {x : Terminal} (h : t.terminal = x) : t.text = x.text := by
  rw [← h]
  rfl

@[simp] theorem Terminal.kind_symbol (c : Char) : (Terminal.symbol c).kind = .symbol := rfl

@[simp] theorem Terminal.isSymbol_symbol (c d : Char) :
    (Terminal.symbol c).isSymbol d = (c == d) := by
  have hsingleton : String.singleton c = String.singleton d ↔ c = d := by
    rw [← String.toList_inj, String.toList_singleton, String.toList_singleton, List.singleton_inj]
  rw [Terminal.isSymbol, Terminal.symbol, Bool.eq_iff_iff]
  simp [hsingleton]

theorem Terminal.isSymbol_eq_false {x : Terminal} (h : x.kind ≠ .symbol) (c : Char) :
    x.isSymbol c = false := by
  simp [Terminal.isSymbol, h]

theorem Token.terminal_of_isSymbol {t : Token} {c : Char} (h : t.isSymbol c = true) :
    t.terminal = .symbol c := by
  simp only [isSymbol, Bool.and_eq_true, beq_iff_eq] at h
  rw [terminal, h.1, h.2]
  rfl

theorem Token.isSymbol_eq_false {t : Token} {x : Terminal} (h : t.terminal = x)
    (hx : x.kind ≠ .symbol) (c : Char) : t.isSymbol c = false := by
  rw [Token.isSymbol_eq h, Terminal.isSymbol_eq_false hx]

theorem skipBlanks_of_blank {t : Token} (h : t.kind = .blank) (r : List Token) :
    skipBlanks (t :: r) = skipBlanks r := by
  rw [skipBlanks, skipBlanks, List.dropWhile_cons_of_pos (by simp [h])]

theorem skipBlanks_of_terminal {t : Token} {x : Terminal} (h : t.terminal = x)
    (hx : x.kind ≠ .blank) (r : List Token) : skipBlanks (t :: r) = t :: r := by
  have hkind : t.kind ≠ .blank := by rwa [Token.kind_eq h]
  rw [skipBlanks, List.dropWhile_cons_of_neg (by simpa using hkind)]

theorem after_of_terminal {t : Token} {c : Char} (ht : t.terminal = .symbol c) (finish : Token)
    (r : List Token) : after finish c (t :: r) = .ok r := by
  rw [after, Token.isSymbol_eq ht, if_pos (by simp)]

/-! ### Trimming -/

theorem dropWhile_of_ends {p : Char → Bool} {cs : List Char} (h : Ends p cs) :
    cs.dropWhile p = cs := by
  cases cs with
  | nil => rfl
  | cons c cs => rw [List.dropWhile_cons_of_neg (by simp [h c rfl])]

theorem ends_append {p : Char → Bool} {a b : List Char} (h : Ends p a) (hne : a ≠ []) :
    Ends p (a ++ b) := by
  cases a with
  | nil => exact absurd rfl hne
  | cons c a => exact ends_cons (h c rfl)

/-- What is left of a text when the blanks around it are dropped. -/
theorem trim_append {before cs after : List Char} (hbefore : ∀ c ∈ before, isBlank c = true)
    (h : IsTrimmed cs) (hafter : ∀ c ∈ after, isBlank c = true) :
    trim isBlank (before ++ (cs ++ after)) = cs := by
  rw [trim, List.dropWhile_append_of_pos hbefore]
  rcases cs with _ | ⟨c, cs⟩
  · rw [List.nil_append, ← List.append_nil after, List.dropWhile_append_of_pos hafter]
    rfl
  · rw [dropWhile_of_ends (ends_append h.1 (List.cons_ne_nil c cs)), List.reverse_append,
      List.dropWhile_append_of_pos fun d hd => hafter d (List.mem_reverse.1 hd),
      dropWhile_of_ends h.2, List.reverse_reverse]

/-! ### Heads -/

/-- A terminal with a blank made one space. -/
def Terminal.tidied (x : Terminal) : Terminal :=
  if x.kind == .blank then .space else x

/-- The text of terminals in a row. -/
def headText (xs : List Terminal) : String :=
  String.ofList (spelling xs)

/-- Terminals with single spaces between them, and none at the ends, that are scanned in front of
every delimiter. -/
structure IsHead (xs : List Terminal) : Prop where
  spaces : ∀ x ∈ xs, x.kind = .blank → x = .space
  first : ∀ x, xs.head? = some x → x.kind ≠ .blank
  last : ∀ x, xs.getLast? = some x → x.kind ≠ .blank
  scans : ∀ b, Delimited b → Scans xs b

theorem Terminal.tidied_of_blank {x : Terminal} (h : x.kind = .blank) : x.tidied = .space := by
  simp [tidied, h]

theorem Terminal.tidied_of_not_blank {x : Terminal} (h : x.kind ≠ .blank) : x.tidied = x := by
  simp [tidied, h]

theorem Terminal.kind_tidied (x : Terminal) : x.tidied.kind = x.kind := by
  by_cases h : x.kind = .blank
  · rw [tidied_of_blank h, h]
    rfl
  · rw [tidied_of_not_blank h]

theorem IsHead.map_tidied {xs : List Terminal} (h : IsHead xs) : xs.map Terminal.tidied = xs := by
  refine (List.map_congr_left fun x hx => ?_).trans (List.map_id xs)
  by_cases hblank : x.kind = .blank
  · rw [Terminal.tidied_of_blank hblank, h.spaces x hx hblank, id]
  · rw [Terminal.tidied_of_not_blank hblank, id]

theorem Scans.fits {xs : List Terminal} {b : List Char} (h : Scans xs b) {x : Terminal}
    (hx : x ∈ xs) : x.Fits [] := by
  induction xs with
  | nil => cases hx
  | cons y xs ih =>
    rcases List.mem_cons.1 hx with rfl | hx
    · exact (Terminal.fits_iff.1 h.1).1
    · exact ih h.2 hx

theorem delimited_nil : Delimited [] := by
  intro c hc
  cases hc

theorem IsHead.fits {xs : List Terminal} (h : IsHead xs) {x : Terminal} (hx : x ∈ xs) :
    x.Fits [] :=
  (h.scans [] delimited_nil).fits hx

/-- Terminals with no blank at the ends have a text with none. -/
theorem isTrimmed_spelling {xs : List Terminal} (h : Scans xs [])
    (hfirst : ∀ x, xs.head? = some x → x.kind ≠ .blank)
    (hlast : ∀ x, xs.getLast? = some x → x.kind ≠ .blank) : IsTrimmed (spelling xs) := by
  constructor
  · rcases xs with _ | ⟨x, xs⟩
    · exact ends_nil _
    · have hx := h.fits List.mem_cons_self
      rw [spelling_cons]
      exact ends_append (hx.isTrimmed (hfirst x rfl)).1 hx.chars_ne_nil
  · rcases xs.eq_nil_or_concat with rfl | ⟨ys, x, rfl⟩
    · exact ends_nil _
    · have hx := h.fits (x := x) (by simp)
      have htrimmed := hx.isTrimmed (hlast x (by simp))
      simp only [List.concat_eq_append, spelling_append, spelling_cons, spelling_nil,
        List.append_nil, List.reverse_append]
      exact ends_append htrimmed.2 (by simpa using hx.chars_ne_nil)

theorem IsHead.isTrimmed {xs : List Terminal} (h : IsHead xs) : IsTrimmed (spelling xs) :=
  isTrimmed_spelling (h.scans [] delimited_nil) h.first h.last

theorem headText_ne_empty {xs : List Terminal} (h : IsHead xs) (hne : xs ≠ []) :
    headText xs ≠ "" := by
  obtain ⟨x, xs, rfl⟩ := List.exists_cons_of_ne_nil hne
  intro hempty
  have hnil : spelling (x :: xs) = [] := by
    rw [← String.toList_ofList (l := spelling (x :: xs))]
    exact String.toList_eq_nil_iff.2 hempty
  rw [spelling_cons] at hnil
  exact (h.fits List.mem_cons_self).chars_ne_nil (List.append_eq_nil_iff.1 hnil).1

theorem toList_join_tokens (ts : List Token) :
    (String.join (ts.map fun t => if t.kind == .blank then " " else t.text)).toList =
      spelling ((ts.map Token.terminal).map Terminal.tidied) := by
  induction ts with
  | nil => rfl
  | cons t ts ih =>
    have hchars : (if t.kind == .blank then " " else t.text).toList = t.terminal.tidied.chars := by
      rw [Terminal.tidied, Token.terminal]
      split <;> rfl
    rw [List.map_cons, List.map_cons, List.map_cons, String.join_cons, String.toList_append, ih,
      spelling_cons, hchars]

/-- The text of tokens in a row is what stands between the blanks at its ends. -/
theorem joinTokens_of_isTrimmed {ts : List Token} {before xs after : List Terminal}
    (hts : (ts.map Token.terminal).map Terminal.tidied = before ++ (xs ++ after))
    (hbefore : ∀ x ∈ before, x = .space) (h : IsTrimmed (spelling xs))
    (hafter : ∀ x ∈ after, x = .space) : joinTokens ts = headText xs := by
  have hspaces {ys : List Terminal} (hys : ∀ x ∈ ys, x = .space) :
      ∀ c ∈ spelling ys, isBlank c = true := by
    intro c hc
    obtain ⟨x, hx, hc⟩ := List.mem_flatMap.1 hc
    rw [hys x hx] at hc
    have hc : c ∈ [' '] := hc
    rw [List.mem_singleton.1 hc]
    decide
  rw [joinTokens, strip, toList_join_tokens, hts, spelling_append, spelling_append,
    trim_append (hspaces hbefore) h (hspaces hafter)]
  rfl

/-! ### Single spaces -/

/-- No blanks follow blanks. -/
theorem Terminal.Fits.kind_ne_blank {x : Terminal} {b rest : List Char} (h : x.Fits b)
    (hends : Ends isBlank (x.chars ++ rest)) : x.kind ≠ .blank := by
  rcases x with ⟨kind, text⟩
  rintro rfl
  obtain ⟨hne, hall, -⟩ := fits_blank_iff.1 h
  obtain ⟨c, cs, hcs⟩ := List.exists_cons_of_ne_nil hne
  have hc : isBlank c = false := hends c (by rw [chars, hcs]; rfl)
  rw [hall c (by rw [hcs]; exact List.mem_cons_self)] at hc
  cases hc

theorem Terminal.fits_space {b : List Char} (h : Ends isBlank b) : Terminal.Fits .space b :=
  fits_blank_iff.2 ⟨by decide, List.all_eq_true.1 (by decide), h⟩

variable {xs : List Terminal} {b : List Char}

/-- An address is read through single spaces as through the blanks. -/
theorem run_tidied (h : Scans xs b) (p : AddressPhase) :
    p.run (spelling (xs.map Terminal.tidied)) = p.run (spelling xs) := by
  induction xs generalizing p with
  | nil => rfl
  | cons x xs ih =>
    rw [List.map_cons, spelling_cons, spelling_cons, AddressPhase.run_append,
      AddressPhase.run_append, ih h.2]
    congr 1
    by_cases hx : x.kind = .blank
    · have hfits : Terminal.Fits ⟨.blank, x.text⟩ (spelling xs ++ b) := hx ▸ h.1
      obtain ⟨hne, hall, -⟩ := Terminal.fits_blank_iff.1 hfits
      rw [Terminal.tidied_of_blank hx]
      exact (AddressPhase.run_blanks hall hne p).symm
    · rw [Terminal.tidied_of_not_blank hx]

/-- Terminals that are scanned in a row are scanned again when their blanks are made single
spaces. -/
theorem scans_tidied (h : Scans xs b) : Scans (xs.map Terminal.tidied) [] := by
  induction xs with
  | nil => trivial
  | cons x xs ih =>
    refine ⟨?_, ih h.2⟩
    obtain ⟨hfits, hstops⟩ := Terminal.fits_iff.1 h.1
    rcases xs with _ | ⟨y, xs⟩
    · by_cases hblank : x.kind = .blank
      · rw [Terminal.tidied_of_blank hblank]
        exact Terminal.fits_space (ends_nil _)
      · rwa [Terminal.tidied_of_not_blank hblank]
    have hy := h.2.1
    by_cases hblank : x.kind = .blank
    · have hends : Ends isBlank (y.chars ++ (spelling xs ++ b)) := by
        rwa [Terminal.Stops, hblank, spelling_cons, List.append_assoc] at hstops
      have hother := hy.kind_ne_blank hends
      rw [Terminal.tidied_of_blank hblank]
      refine Terminal.fits_space ?_
      rw [List.map_cons, spelling_cons, Terminal.tidied_of_not_blank hother, List.append_assoc]
      exact ends_append (hy.isTrimmed hother).1 hy.chars_ne_nil
    rw [Terminal.tidied_of_not_blank hblank]
    refine Terminal.fits_iff.2 ⟨hfits, ?_⟩
    by_cases heq : x = .addressOpener
    · -- what is not closed by more than these terminals is not closed by them
      rw [heq, Terminal.stops_addressOpener_iff] at hstops ⊢
      rw [List.append_nil, run_tidied h.2]
      intro hclosed
      rw [AddressPhase.run_append, hclosed] at hstops
      exact hstops (AddressPhase.run_closed b)
    by_cases hyblank : y.kind = .blank
    · refine Terminal.stops_of_delimited hblank heq ?_
      rw [List.map_cons, spelling_cons, Terminal.tidied_of_blank hyblank]
      exact delimited_cons (by decide) _
    · refine hstops.congr heq ?_
      obtain ⟨c, cs, hcs⟩ := List.exists_cons_of_ne_nil hy.chars_ne_nil
      rw [List.map_cons, spelling_cons, Terminal.tidied_of_not_blank hyblank, hcs]
      simp [hcs]

/-! ### Firm texts -/

/-- A text that is scanned in the same way in front of every delimiter. -/
def IsFirm (text : String) : Prop :=
  ∃ xs, headText xs = text ∧ ∀ b, Delimited b → Scans xs b

/-- What stands behind a text changes nothing where no address is opened. -/
theorem scans_of_delimited (h : Scans xs []) (hopener : ∀ x ∈ xs, x ≠ .addressOpener)
    (hlast : ∀ x, xs.getLast? = some x → x.kind ≠ .blank) (hb : Delimited b) : Scans xs b := by
  induction xs with
  | nil => trivial
  | cons x xs ih =>
    obtain ⟨hx, hxs⟩ := List.forall_mem_cons.1 hopener
    refine ⟨?_, ih h.2 hxs fun y hy => hlast y (by rw [List.getLast?_cons, hy]; rfl)⟩
    obtain ⟨hfits, hstops⟩ := Terminal.fits_iff.1 h.1
    refine Terminal.fits_iff.2 ⟨hfits, ?_⟩
    rcases xs with _ | ⟨y, xs⟩
    · exact Terminal.stops_of_delimited (hlast x rfl) hx hb
    · refine hstops.congr hx ?_
      obtain ⟨c, cs, hcs⟩ := List.exists_cons_of_ne_nil h.2.1.chars_ne_nil
      simp [hcs]

/-! ### The head that tokens in a row are kept as -/

/-- Terminals between the blanks at both ends of a row. -/
theorem exists_trimmed (xs : List Terminal) : ∃ before ys after, xs = before ++ (ys ++ after) ∧
    (∀ x ∈ before, x.kind = .blank) ∧ (∀ x ∈ after, x.kind = .blank) ∧
    (∀ x, ys.head? = some x → x.kind ≠ .blank) ∧ (∀ x, ys.getLast? = some x → x.kind ≠ .blank) := by
  induction xs with
  | nil => exact ⟨[], [], [], rfl, by simp, by simp, by simp, by simp⟩
  | cons x xs ih =>
    obtain ⟨before, ys, after, rfl, hbefore, hafter, hfirst, hlast⟩ := ih
    by_cases hx : x.kind = .blank
    · exact ⟨x :: before, ys, after, rfl, List.forall_mem_cons.2 ⟨hx, hbefore⟩, hafter, hfirst,
        hlast⟩
    · rcases ys with _ | ⟨y, ys⟩
      · refine ⟨[], [x], before ++ after, rfl, by simp, ?_, by simpa using hx, by simpa using hx⟩
        exact List.forall_mem_append.2 ⟨hbefore, hafter⟩
      · refine ⟨[], x :: (before ++ y :: ys), after, by simp, by simp, hafter, by simpa using hx,
          fun z hz => hlast z ?_⟩
        rwa [List.getLast?_cons, List.getLast?_append, List.getLast?_cons, Option.some_or,
          Option.getD_some, ← List.getLast?_cons] at hz

/-- The terminals that are not blank. -/
def solids (xs : List Terminal) : List Terminal :=
  xs.filter (·.kind != .blank)

theorem solids_append (xs ys : List Terminal) : solids (xs ++ ys) = solids xs ++ solids ys :=
  List.filter_append ..

theorem solids_of_blank {xs : List Terminal} (h : ∀ x ∈ xs, x.kind = .blank) : solids xs = [] := by
  rw [solids, List.filter_eq_nil_iff]
  intro x hx
  simp [h x hx]

theorem solids_cons_of_blank {x : Terminal} (h : x.kind = .blank) (xs : List Terminal) :
    solids (x :: xs) = solids xs := by
  rw [solids, List.filter_cons_of_neg (by simp [h]), solids]

theorem solids_cons_of_not_blank {x : Terminal} (h : x.kind ≠ .blank) (xs : List Terminal) :
    solids (x :: xs) = x :: solids xs := by
  rw [solids, List.filter_cons_of_pos (by simpa using h), solids]

theorem solids_tidied (xs : List Terminal) : solids (xs.map Terminal.tidied) = solids xs := by
  induction xs with
  | nil => rfl
  | cons x xs ih =>
    by_cases hx : x.kind = .blank
    · rw [List.map_cons, solids_cons_of_blank (x.kind_tidied.trans hx), solids_cons_of_blank hx, ih]
    · rw [List.map_cons, Terminal.tidied_of_not_blank hx, solids_cons_of_not_blank hx,
        solids_cons_of_not_blank hx, ih]

/-- Tokens in a row whose text is firm are kept as the text of a head that has the same terminals,
blanks apart. -/
theorem exists_isHead {ts : List Token} (hscans : Scans (ts.map Token.terminal) b)
    (hfirm : IsFirm (joinTokens ts)) :
    ∃ zs, IsHead zs ∧ joinTokens ts = headText zs ∧ solids zs = solids (ts.map Token.terminal) := by
  obtain ⟨before, ys, after, hts, hbefore, hafter, hfirst, hlast⟩ :=
    exists_trimmed (ts.map Token.terminal)
  rw [hts] at hscans
  have hys := scans_tidied (scans_append_iff.1 (scans_append_iff.1 hscans).2).1
  have hfirst' : ∀ x, (ys.map Terminal.tidied).head? = some x → x.kind ≠ .blank := by
    intro x hx
    rw [List.head?_map] at hx
    obtain ⟨y, hy, rfl⟩ := Option.map_eq_some_iff.1 hx
    rw [y.kind_tidied]
    exact hfirst y hy
  have hlast' : ∀ x, (ys.map Terminal.tidied).getLast? = some x → x.kind ≠ .blank := by
    intro x hx
    rw [List.getLast?_map] at hx
    obtain ⟨y, hy, rfl⟩ := Option.map_eq_some_iff.1 hx
    rw [y.kind_tidied]
    exact hlast y hy
  have hspaces {zs : List Terminal} (hzs : ∀ x ∈ zs, x.kind = .blank) :
      ∀ x ∈ zs.map Terminal.tidied, x = .space := by
    intro x hx
    obtain ⟨z, hz, rfl⟩ := List.mem_map.1 hx
    exact Terminal.tidied_of_blank (hzs z hz)
  have htidied : (ts.map Token.terminal).map Terminal.tidied = before.map Terminal.tidied ++
      (ys.map Terminal.tidied ++ after.map Terminal.tidied) := by
    rw [hts, List.map_append, List.map_append]
  have hjoin := joinTokens_of_isTrimmed htidied (hspaces hbefore)
    (isTrimmed_spelling hys hfirst' hlast') (hspaces hafter)
  -- the firm text has these terminals, since it has no others
  obtain ⟨xs, htext, hxs⟩ := hfirm
  have hsame : spelling xs = spelling (ys.map Terminal.tidied) :=
    String.ofList_injective (htext.trans hjoin)
  have hlexed := (hxs [] delimited_nil).lexed .nil
  rw [hsame] at hlexed
  have heq : xs = ys.map Terminal.tidied := by simpa using hlexed.unique (hys.lexed .nil)
  refine ⟨ys.map Terminal.tidied, ⟨?_, hfirst', hlast', heq ▸ hxs⟩, hjoin, ?_⟩
  · intro x hx hblank
    obtain ⟨y, -, rfl⟩ := List.mem_map.1 hx
    exact Terminal.tidied_of_blank (y.kind_tidied.symm.trans hblank)
  · rw [solids_tidied, hts, solids_append, solids_append, solids_of_blank hbefore,
      solids_of_blank hafter, List.nil_append, List.append_nil]

/-! ### Selectors -/

/-- How a terminal changes the depth of parentheses. -/
def Terminal.depthStep (x : Terminal) : Int :=
  if x.kind == .function || x.isSymbol '(' then 1
  else if x.isSymbol ')' then -1
  else 0

theorem Token.depthStep_eq {t : Token} {x : Terminal} (h : t.terminal = x) :
    Parser.depthStep t = x.depthStep := by
  rw [← h]
  rfl

/-- Terminals that are read as one selector, from a depth of parentheses on: no comma and no brace
stands outside of parentheses, and the last parenthesis closes the first. -/
def IsSelector : Int → List Terminal → Prop
  | depth, [] => depth = 0
  | depth, x :: xs =>
    ¬(depth = 0 ∧ x.isSymbol '{' = true) ∧ x.isSymbol ';' = false ∧ x.isSymbol '}' = false ∧
      ¬(depth + x.depthStep = 0 ∧ x.isSymbol ',' = true) ∧ IsSelector (depth + x.depthStep) xs

/-- Blanks do not matter. -/
theorem isSelector_solids_iff {depth : Int} :
    IsSelector depth (solids xs) ↔ IsSelector depth xs := by
  induction xs generalizing depth with
  | nil => rfl
  | cons x xs ih =>
    by_cases hx : x.kind = .blank
    · have hsymbol := Terminal.isSymbol_eq_false (x := x) (by simp [hx])
      have hstep : x.depthStep = 0 := by simp [Terminal.depthStep, hx, hsymbol]
      rw [solids_cons_of_blank hx, ih]
      simp [IsSelector, hsymbol, hstep]
    · rw [solids_cons_of_not_blank hx, IsSelector, IsSelector, ih]

/-- A selector belongs to what is being read, whatever follows. -/
theorem selectors_of_isSelector {ts : List Token} {depth : Int}
    (h : IsSelector depth (ts.map Token.terminal)) (finish : Token) (r : List Token) :
    plain (selectors finish depth (ts ++ r)) =
      (plain (selectors finish 0 r)).bind fun ((first, others), r₁) =>
        .ok ((ts ++ first, others), r₁) := by
  induction ts generalizing depth with
  | nil =>
    have hdepth : depth = 0 := h
    rw [hdepth, List.nil_append]
    cases plain (selectors finish 0 r) <;> rfl
  | cons t ts ih =>
    obtain ⟨hbrace, hsemicolon, hclose, hcomma, h⟩ := h
    rw [← Token.isSymbol_eq rfl] at hbrace hsemicolon hclose hcomma
    rw [← Token.depthStep_eq rfl] at hcomma h
    rw [List.cons_append, plain_selectors, if_neg (by simpa using hbrace), hsemicolon, hclose,
      Bool.or_false, if_neg Bool.false_ne_true, ih h]
    rcases plain (selectors finish 0 r) with e | ⟨⟨first, others⟩, r₁⟩
    · rfl
    · simp only [Except.bind]
      rw [if_neg (by simpa using hcomma)]
      rfl

/-- What is read as selectors: each of them is one selector and stands among the tokens. -/
theorem selectors_sound {finish : Token} {depth : Int} {ts r first : List Token}
    {others : List (List Token)}
    (h : plain (selectors finish depth ts) = .ok ((first, others), r)) :
    IsSelector depth (first.map Token.terminal) ∧ first <+: ts ∧
      (∀ s ∈ others, IsSelector 0 (s.map Token.terminal) ∧ s <:+: ts) ∧ r <:+ ts := by
  induction ts generalizing depth first others r with
  | nil => cases h
  | cons t ts ih =>
    rw [plain_selectors] at h
    split at h
    · next hbrace =>
      cases h
      simp only [Bool.and_eq_true, beq_iff_eq] at hbrace
      exact ⟨hbrace.1, List.nil_prefix, by simp, List.suffix_rfl⟩
    next hbrace =>
    split at h
    · cases h
    next hends =>
    obtain ⟨⟨⟨first', others'⟩, r'⟩, hrest, h⟩ := bind_eq_ok_iff.1 h
    obtain ⟨hfirst, hstart, hothers, hsuffix⟩ := ih hrest
    have hinside {s : List Token} (hs : s <:+: ts) : s <:+: t :: ts :=
      hs.trans (List.suffix_cons t ts).isInfix
    have hothers' : ∀ s ∈ others', IsSelector 0 (s.map Token.terminal) ∧ s <:+: t :: ts :=
      fun s hs => ⟨(hothers s hs).1, hinside (hothers s hs).2⟩
    dsimp only at h
    split at h
    · next hcomma =>
      cases h
      simp only [Bool.and_eq_true, beq_iff_eq] at hcomma
      have hstep : Parser.depthStep t = 0 := by
        rw [Token.depthStep_eq (Token.terminal_of_isSymbol hcomma.2)]
        decide
      rw [hcomma.1] at hfirst
      rw [hstep, Int.add_zero] at hcomma
      exact ⟨hcomma.1, List.nil_prefix,
        List.forall_mem_cons.2 ⟨⟨hfirst, hinside hstart.isInfix⟩, hothers'⟩,
        hsuffix.trans (List.suffix_cons t ts)⟩
    · next hcomma =>
      cases h
      simp only [Bool.and_eq_true, beq_iff_eq] at hbrace hcomma
      simp only [Bool.or_eq_true, not_or, Bool.not_eq_true] at hends
      exact ⟨⟨hbrace, hends.1, hends.2, hcomma, hfirst⟩, (List.prefix_cons_inj t).2 hstart,
        hothers', hsuffix.trans (List.suffix_cons t ts)⟩

/-! ### Phrases -/

/-- The terminals of words with single spaces between them. -/
def phraseTerminals : List String → List Terminal
  | [] => []
  | [w] => [⟨.word, w⟩]
  | w :: ws => ⟨.word, w⟩ :: .space :: phraseTerminals ws

theorem phraseTerminals_cons (w v : String) (ws : List String) :
    phraseTerminals (w :: v :: ws) = ⟨.word, w⟩ :: .space :: phraseTerminals (v :: ws) := rfl

theorem mem_phraseTerminals (ws : List String) :
    ∀ x ∈ phraseTerminals ws, x.kind = .word ∨ x = .space := by
  induction ws with
  | nil => simp [phraseTerminals]
  | cons w ws ih =>
    rcases ws with _ | ⟨v, ws⟩
    · simp [phraseTerminals]
    · rw [phraseTerminals_cons, List.forall_mem_cons, List.forall_mem_cons]
      exact ⟨.inl rfl, .inr rfl, ih⟩

theorem fits_plainWord {w : String} (h : IsPlainWord w) (hb : Delimited b) :
    Terminal.Fits ⟨.word, w⟩ b := by
  have hlexed : Lexed (w.toList ++ []) [⟨.word, w⟩] := lexed_word h delimited_nil .nil
  exact Terminal.fits_iff.2 ⟨hlexed.scans.2.1, Terminal.stops_of_delimited (by simp)
    (by simp [Terminal.addressOpener]) hb⟩

theorem head_phraseTerminals (w : String) (ws : List String) :
    ∃ xs, phraseTerminals (w :: ws) = ⟨.word, w⟩ :: xs := by
  rcases ws with _ | ⟨v, ws⟩ <;> exact ⟨_, rfl⟩

theorem kind_getLast?_phrase (ws : List String) :
    ∀ x, (phraseTerminals ws).getLast? = some x → x.kind = .word := by
  induction ws with
  | nil => simp [phraseTerminals]
  | cons w ws ih =>
    rcases ws with _ | ⟨v, ws⟩
    · simp [phraseTerminals]
    · obtain ⟨xs, hxs⟩ := head_phraseTerminals v ws
      rw [hxs] at ih
      rw [phraseTerminals_cons, hxs, List.getLast?_cons_cons, List.getLast?_cons_cons]
      exact ih

theorem scans_phrase {ws : List String} (h : ∀ w ∈ ws, IsPlainWord w) (hb : Delimited b) :
    Scans (phraseTerminals ws) b := by
  induction ws with
  | nil => trivial
  | cons w ws ih =>
    obtain ⟨hw, hws⟩ := List.forall_mem_cons.1 h
    rcases ws with _ | ⟨v, ws⟩
    · exact ⟨fits_plainWord hw hb, trivial⟩
    · obtain ⟨xs, hxs⟩ := head_phraseTerminals v ws
      have hv := fits_plainWord (hws v List.mem_cons_self) delimited_nil
      have hends : Ends isBlank (spelling (phraseTerminals (v :: ws)) ++ b) := by
        rw [hxs, spelling_cons, List.append_assoc]
        exact ends_append (hv.isTrimmed (by simp)).1 hv.chars_ne_nil
      have hspace : Terminal.Fits .space (spelling (phraseTerminals (v :: ws)) ++ b) :=
        Terminal.fits_space hends
      exact ⟨fits_plainWord hw (delimited_cons (by decide) _), hspace, ih hws⟩

theorem isHead_phrase {ws : List String} (h : ∀ w ∈ ws, IsPlainWord w) :
    IsHead (phraseTerminals ws) where
  spaces x hx hblank := by
    rcases mem_phraseTerminals ws x hx with hword | hspace
    · rw [hword] at hblank
      cases hblank
    · exact hspace
  first x hx := by
    rcases ws with _ | ⟨w, ws⟩
    · cases hx
    · obtain ⟨xs, hxs⟩ := head_phraseTerminals w ws
      rw [hxs] at hx
      cases hx
      simp
  last x hx := by simp [kind_getLast?_phrase ws x hx]
  scans _ hb := scans_phrase h hb

theorem headText_phrase (ws : List String) :
    headText (phraseTerminals ws) = " ".intercalate ws := by
  induction ws with
  | nil => rfl
  | cons w ws ih =>
    rcases ws with _ | ⟨v, ws⟩
    · rw [String.intercalate_singleton, headText]
      simp [phraseTerminals, Terminal.chars]
    · rw [String.intercalate_cons_cons, ← ih, phraseTerminals_cons]
      exact String.toList_inj.1 (by simp [headText, Terminal.chars, Terminal.space])

theorem isSymbol_phrase {ws : List String} {x : Terminal} (hx : x ∈ phraseTerminals ws) (c : Char) :
    x.isSymbol c = false := by
  rcases mem_phraseTerminals ws x hx with hword | rfl
  · exact Terminal.isSymbol_eq_false (by simp [hword]) c
  · exact Terminal.isSymbol_eq_false (by simp [Terminal.space]) c

theorem isSelector_phrase (ws : List String) : IsSelector 0 (phraseTerminals ws) := by
  have hloose (xs : List Terminal) (h : ∀ x ∈ xs, x.kind = .word ∨ x = .space) :
      IsSelector 0 xs := by
    induction xs with
    | nil => rfl
    | cons x xs ih =>
      obtain ⟨hx, hxs⟩ := List.forall_mem_cons.1 h
      have hkind : x.kind ≠ .symbol ∧ x.kind ≠ .function := by
        rcases hx with hx | rfl
        · simp [hx]
        · decide
      have hsymbol := Terminal.isSymbol_eq_false hkind.1
      have hstep : x.depthStep = 0 := by simp [Terminal.depthStep, hkind.2, hsymbol]
      simp [IsSelector, hsymbol, hstep, ih hxs]
  exact hloose _ (mem_phraseTerminals ws)

end ConditionalStyle.Stylesheet
