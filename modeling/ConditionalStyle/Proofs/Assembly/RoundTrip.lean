import ConditionalStyle.Proofs.Assembly.Printing
import ConditionalStyle.Proofs.Stylesheet.Rereading
import Mathlib.Data.List.Chain

/-!
# Reading undoes printing

The compact text of a stylesheet has as few separators as possible; what is left of them is enough
to find every word again. For each part of a rereadable stylesheet there are terminals that spell it
and that its text is scanned as, as long as what follows ends the last word of the part.

In particular, a plain stylesheet whose words and names are spelled plainly is read again from the
text it is printed as.

## Main definitions

* `WellSpelled`: nodes with plain words and names.
* `Rereadable`: nodes with words and names that are scanned as what they are.

## Main statements

* `spells_values`, `spells_declarations`, `spells_rules`: the terminals of parts of a stylesheet.
* `parse_of_rereadable`: a rereadable stylesheet is read from its text.
* `parse_printTree`: a well-spelled plain stylesheet is read from its text.
-/

namespace ConditionalStyle.Assembly

open Stylesheet Text

/-- A plain node that can be read again: its words and names are plain, no list is empty that must
not be, and the body of an at-rule is of the kind that its name calls for. -/
def WellSpelled : Node → Prop
  | .ruleset selectors _ => selectors ≠ [] ∧ ∀ s ∈ selectors, IsPhrase s ∧ s ≠ ""
  | .atRule name params rules declarations =>
    IsPlainName name ∧ lowerCase name ∉ ["if", "elseif", "else"] ∧ IsPhrase params ∧
      (declarations.isSome → lowerCase name ∈ declarationRules) ∧
      (rules.isSome → lowerCase name ∉ declarationRules)
  | .declaration property vs _ => IsPlainWord property ∧ vs ≠ []
  | .literal text => IsPlainWord text
  | .operator text => text = "," ∨ text = "/"
  | .function name _ => IsPlainName name ∧ name ∉ ["eval", "value", "url"]
  | _ => False

/-! ### What can be read again -/

/-- Components in which no star stands right after a slash. -/
def Parted (vs : List Node) : Prop :=
  vs.IsChain fun v w => v = .operator "/" → ∀ s, w = .literal s → s.toList.head? ≠ some '*'

/-- A plain node that can be read again from its text: its texts are those of terminals, none of
which is joined with the next one, and no function is printed as an address. -/
def Rereadable : Node → Prop
  | .ruleset selectors _ => ∃ x xs xss, selectors = ((x :: xs) :: xss).map headText ∧
    x.kind ≠ .atKeyword ∧ ∀ ys ∈ (x :: xs) :: xss, IsHead ys ∧ ys ≠ [] ∧ IsSelector 0 ys
  | .atRule name params rules declarations =>
    Terminal.Fits ⟨.atKeyword, "@" ++ name⟩ [] ∧ lowerCase name ∉ ["if", "elseif", "else"] ∧
      (∃ xs, params = headText xs ∧ IsParams xs) ∧
      (declarations.isSome → lowerCase name ∈ declarationRules) ∧
      (rules.isSome → lowerCase name ∉ declarationRules)
  | .declaration property vs _ => Terminal.Fits ⟨.word, property⟩ [] ∧ vs ≠ [] ∧ Parted vs
  | .literal text => ∃ kind : Token.Kind, kind.isLiteral = true ∧ Terminal.Fits ⟨kind, text⟩ []
  | .operator text => text = "," ∨ text = "/"
  | .function name args => Terminal.Fits ⟨.function, name ++ "("⟩ [] ∧ name ∉ ["eval", "value"] ∧
    Parted args ∧
    (name = "url" → urlLength? (plainText (valueOutline (.function name args))).toList = none)
  | _ => False

theorem isPlain_of_rereadable {n : Node} (h : Rereadable n) : IsPlain n := by
  cases n <;> simp_all [Rereadable, IsPlain, Node.kind]

/-! ### Heads -/

theorem toList_headText (xs : List Terminal) : (headText xs).toList = spelling xs :=
  String.toList_ofList

theorem fits_of_delimited {x : Terminal} (h : x.Fits []) (hkind : x.kind ≠ .blank)
    (hx : x ≠ .addressOpener) {b : List Char} (hb : Delimited b) : x.Fits b :=
  Terminal.fits_iff.2 ⟨h, Terminal.stops_of_delimited hkind hx hb⟩

/-- The parameters of an at-rule, with the space before them if there are any. -/
theorem lexed_params {xs : List Terminal} (h : IsParams xs) {name : String}
    (hname : Terminal.Fits ⟨.atKeyword, "@" ++ name⟩ []) {b : List Char} {ts : List Terminal}
    (hb : Delimited b) (hs : Lexed b ts) :
    Lexed ((plainText (atRuleOutline name (headText xs))).toList ++ b)
      (⟨.atKeyword, "@" ++ name⟩ :: (afterKeyword xs ++ ts)) := by
  have hkeyword {b : List Char} (hb : Delimited b) : Terminal.Fits ⟨.atKeyword, "@" ++ name⟩ b :=
    fits_of_delimited hname (by simp) (by simp [Terminal.addressOpener]) hb
  rcases xs with _ | ⟨x, xs⟩
  · have houtline : plainText (atRuleOutline name (headText [])) = "@" ++ name := by
      simp [atRuleOutline, headText]
    rw [houtline]
    exact Terminal.Fits.lexed (hkeyword hb) hs
  · have hempty : (headText (x :: xs)).isEmpty = false := by
      simpa using headText_ne_empty h.1 (List.cons_ne_nil x xs)
    have houtline : plainText (atRuleOutline name (headText (x :: xs))) =
        "@" ++ name ++ (" " ++ headText (x :: xs)) := by
      simp only [atRuleOutline, hempty, if_neg Bool.false_ne_true, plainText_text, plainText_nil,
        String.append_empty]
    have hx := h.1.fits (x := x) List.mem_cons_self
    have hends : Ends isBlank (spelling (x :: xs) ++ b) := by
      rw [spelling_cons, List.append_assoc]
      exact ends_append (hx.isTrimmed (h.1.first x rfl)).1 hx.chars_ne_nil
    have hparams := lexed_space hends ((h.1.scans b hb).lexed hs)
    have hall := Terminal.Fits.lexed (hkeyword (delimited_cons (by decide) _)) hparams
    rw [houtline]
    simpa [Terminal.chars, toList_headText, afterKeyword] using hall

theorem lexed_selectors {xss : List (List Terminal)} (hne : xss ≠ [])
    (h : ∀ xs ∈ xss, IsHead xs) {b : List Char} {ts : List Terminal} (hb : Delimited b)
    (hs : Lexed b ts) :
    Lexed ((",".intercalate (xss.map headText)).toList ++ b) (commaSeparated xss ++ ts) := by
  induction xss with
  | nil => exact absurd rfl hne
  | cons xs xss ih =>
    obtain ⟨hxs, hxss⟩ := List.forall_mem_cons.1 h
    rcases xss with _ | ⟨ys, xss⟩
    · rw [List.map_cons, List.map_nil, String.intercalate_singleton, toList_headText]
      exact (hxs.scans b hb).lexed hs
    · have hrest := lexed_symbol (c := ',') (by decide) (by simp)
        (ih (List.cons_ne_nil ys xss) hxss)
      rw [List.map_cons, List.map_cons, String.intercalate_cons_cons, ← List.map_cons,
        String.toList_append, String.toList_append, List.append_assoc, List.append_assoc,
        commaSeparated_cons, List.append_assoc, toList_headText]
      exact (hxs.scans _ (delimited_cons (by decide) _)).lexed hrest

/-! ### Values -/

/-- What may follow a component: after an operator anything that makes no comment of it, after
another component only what ends its last terminal. -/
def MayFollow : Node → List Char → Prop
  | .operator text, b => text = "/" → b.head? ≠ some '*'
  | _, b => Delimited b

theorem mayFollow_of_delimited {b : List Char} (h : Delimited b) (v : Node) : MayFollow v b := by
  unfold MayFollow
  split
  · intro _ hstar
    exact absurd (h '*' hstar) (by decide)
  · exact h

/-- The first character of the name of a function. -/
theorem head_function {name : String} (h : Terminal.Fits ⟨.function, name ++ "("⟩ []) :
    ∃ c cs, (name ++ "(").toList = c :: cs ∧ isBlank c = false ∧ c ≠ '*' := by
  obtain ⟨_, ⟨dash, c, cs, rfl, hdash, hc, -⟩, htext, -⟩ := Terminal.fits_function_iff.1 h
  have hfirst {d : Char} (hd : isNameStart d = true ∨ d = '-') : isBlank d = false ∧ d ≠ '*' := by
    refine ⟨(classes_of_nameStart hd).2.1, ?_⟩
    rintro rfl
    exact absurd hd (by decide)
  rcases hdash with rfl | rfl
  · exact ⟨c, cs ++ ['('], htext, hfirst (.inl hc)⟩
  · exact ⟨'-', c :: cs ++ ['('], htext, hfirst (.inr rfl)⟩

/-- The first character of a component. -/
theorem head_value {v : Node} (h : IsValue v) (hv : Rereadable v) :
    ∃ c cs, (plainText (valueOutline v)).toList = c :: cs ∧ isBlank c = false ∧
      (v.isOperator = true → c ∈ delimiters) ∧
      ((∀ s, v = .literal s → s.toList.head? ≠ some '*') → c ≠ '*') := by
  match h with
  | .literal text =>
    obtain ⟨kind, hkind, hfits⟩ : ∃ kind : Token.Kind, kind.isLiteral = true ∧
      Terminal.Fits ⟨kind, text⟩ [] := hv
    obtain ⟨c, cs, hcs⟩ := List.exists_cons_of_ne_nil hfits.chars_ne_nil
    have hcs : text.toList = c :: cs := hcs
    have hblank : kind ≠ .blank := by
      rintro rfl
      cases hkind
    have hends : Ends isBlank text.toList := (hfits.isTrimmed hblank).1
    refine ⟨c, cs, by simp [valueOutline, hcs], hends c (by rw [hcs]; rfl),
      by simp [Node.isOperator], ?_⟩
    rintro hstar rfl
    exact hstar text rfl (by rw [hcs]; rfl)
  | .operator htext =>
    rcases htext with rfl | rfl
    · exact ⟨',', [], rfl, by decide, fun _ => by decide, fun _ => by decide⟩
    · exact ⟨'/', [], rfl, by decide, fun _ => by decide, fun _ => by decide⟩
  | @IsValue.function name args hargs =>
    obtain ⟨c, cs, hcs, hblank, hstar⟩ := head_function hv.1
    refine ⟨c, cs ++ ((plainText (valuesOutline none args)).toList ++ [')']), ?_, hblank,
      by simp [Node.isOperator], fun _ => hstar⟩
    rw [valueOutline, plainText_text, String.toList_append, hcs]
    simp
  | .runtime _ | .dotPath _ _ _ => exact hv.elim

/-- The separator in front of a component is left out only where an operator stands, and so what
follows a component ends its last terminal. -/
theorem follows_values {v : Node} {vs : List Node} (h : AreValues vs)
    (hspelled : ∀ w ∈ vs, Rereadable w) (hparted : Parted (v :: vs)) {b : List Char}
    (hb : Delimited b) : MayFollow v ((plainText (valuesOutline (some v) vs)).toList ++ b) := by
  match h with
  | .nil =>
    rw [valuesOutline]
    exact mayFollow_of_delimited hb v
  | @AreValues.cons w ws hw hws =>
    obtain ⟨c, cs, hcs, -, hoperator, hstar⟩ := head_value hw (hspelled w List.mem_cons_self)
    by_cases hspace : Printer.needsSpace (some v) w = true
    · refine mayFollow_of_delimited ?_ v
      have htext : plainText (valuesOutline (some v) (w :: ws)) =
          " " ++ plainText (valueOutline w ++ valuesOutline (some w) ws) := by
        rw [valuesOutline, spaceOutline, if_pos hspace, List.append_assoc]
        rfl
      rw [htext, String.toList_append]
      exact delimited_cons (by decide) _
    · have htext : (plainText (valuesOutline (some v) (w :: ws))).toList ++ b =
          c :: (cs ++ ((plainText (valuesOutline (some w) ws)).toList ++ b)) := by
        rw [valuesOutline, spaceOutline, if_neg hspace, List.nil_append, plainText_append,
          String.toList_append, hcs, List.cons_append, List.cons_append, List.append_assoc]
      rw [htext]
      by_cases hv : v.isOperator = true
      · obtain ⟨text, rfl⟩ : ∃ text, v = .operator text := by
          cases v <;> simp_all [Node.isOperator]
        rintro rfl
        simpa using hstar ((List.isChain_cons_cons.1 hparted).1 rfl)
      · refine mayFollow_of_delimited (delimited_cons (hoperator ?_) _) v
        simpa [Printer.needsSpace, hv] using hspace

mutual

theorem spells_value {v : Node} (h : IsValue v) (hspelled : Throughout Rereadable v) :
    ∃ xs, ReadsValues xs [v] ∧ ∀ b ts, MayFollow v b → Lexed b ts →
      Lexed ((plainText (valueOutline v)).toList ++ b) (xs ++ ts) := by
  obtain ⟨hv, hchildren⟩ := throughout_iff.1 hspelled
  match h with
  | .literal text =>
    obtain ⟨kind, hkind, hfits⟩ : ∃ kind : Token.Kind, kind.isLiteral = true ∧
      Terminal.Fits ⟨kind, text⟩ [] := hv
    refine ⟨_, readsValues_literal (x := ⟨kind, text⟩) hkind, fun b ts hb hs => ?_⟩
    have hother : kind ≠ .blank ∧ kind ≠ .function := by
      constructor <;> rintro rfl <;> cases hkind
    rw [valueOutline, plainText_text, plainText_nil, String.append_empty]
    exact Terminal.Fits.lexed
      (fits_of_delimited hfits hother.1 (by simp [Terminal.addressOpener, hother.2]) hb) hs
  | .operator htext =>
    rcases htext with rfl | rfl
    · exact ⟨_, readsValues_operator (.inl rfl), fun b ts _ hs =>
        lexed_symbol (c := ',') (by decide) (by simp) hs⟩
    · exact ⟨_, readsValues_operator (.inr rfl), fun b ts hb hs =>
        lexed_symbol (c := '/') (by decide) (fun _ => hb rfl) hs⟩
  | @IsValue.function name args hargs =>
    obtain ⟨hfits, hspecial, hparted, hurl⟩ := hv
    obtain ⟨xs, hreads, hlexed⟩ := spells_values hargs hchildren hparted none
    refine ⟨_, readsValues_function hspecial hreads, fun b ts _ hs => ?_⟩
    have hclose := lexed_symbol (c := ')') (by decide) (by simp) hs
    have hinner := hlexed _ _ (delimited_cons (by decide) b) hclose
    have hstops : Terminal.Stops ⟨.function, name ++ "("⟩
        ((plainText (valuesOutline none args)).toList ++ ')' :: b) := by
      intro htext
      have hlist : name.toList ++ ['('] = ['u', 'r', 'l'] ++ ['('] := by
        simpa using congrArg String.toList htext
      obtain rfl : name = "url" :=
        String.toList_inj.1 ((List.append_cancel_right hlist).trans (by decide))
      exact urlLength?_parenthesis (by simpa [valueOutline] using hurl rfl) b
    have hfunction := Terminal.Fits.lexed (Terminal.fits_iff.2 ⟨hfits, hstops⟩) hinner
    simpa [valueOutline, Terminal.chars] using hfunction
  | .runtime _ | .dotPath _ _ _ => exact hv.elim

/-- The components of a value, in front of what ends the last terminal of them. -/
theorem spells_values {vs : List Node} (h : AreValues vs)
    (hspelled : ∀ v ∈ vs, Throughout Rereadable v) (hparted : Parted vs) (previous : Option Node) :
    ∃ xs, ReadsValues xs vs ∧ ∀ b ts, Delimited b → Lexed b ts →
      Lexed ((plainText (valuesOutline previous vs)).toList ++ b) (xs ++ ts) := by
  match h with
  | .nil =>
    rw [valuesOutline]
    exact ⟨[], readsValues_nil, fun b ts _ hs => hs⟩
  | @AreValues.cons v rest hv hrest =>
    obtain ⟨hspelled, hspelled'⟩ := List.forall_mem_cons.1 hspelled
    obtain ⟨xs, hreads, hlexed⟩ := spells_value hv hspelled
    obtain ⟨ys, hreads', hlexed'⟩ := spells_values hrest hspelled' hparted.tail (some v)
    have hboth (b : List Char) (ts : List Terminal) (hb : Delimited b) (hs : Lexed b ts) :
        Lexed ((plainText (valueOutline v)).toList ++
          ((plainText (valuesOutline (some v) rest)).toList ++ b)) (xs ++ (ys ++ ts)) :=
      hlexed _ _
        (follows_values hrest (fun w hw => (throughout_iff.1 (hspelled' w hw)).1) hparted hb)
        (hlexed' b ts hb hs)
    rw [valuesOutline, spaceOutline]
    by_cases hspace : Printer.needsSpace previous v = true
    · refine ⟨.space :: (xs ++ ys), readsValues_append readsValues_space
        (readsValues_append hreads hreads'), fun b ts hb hs => ?_⟩
      obtain ⟨c, cs, hcs, hblank, -⟩ := head_value hv (throughout_iff.1 hspelled).1
      have hfirst := lexed_space (by rw [hcs]; exact ends_cons hblank) (hboth b ts hb hs)
      simpa [hspace] using hfirst
    · refine ⟨xs ++ ys, readsValues_append hreads hreads', fun b ts hb hs => ?_⟩
      simpa [hspace] using hboth b ts hb hs

end

/-! ### Declarations -/

/-- The text that makes a declaration important. -/
def importanceOutline (important : Bool) : List Piece :=
  if important then [.text "!important"] else []

theorem declarationsOutline_cons (first : Bool) (property : String) (vs : List Node)
    (important : Bool) (ds : List Node) :
    plainText (declarationsOutline first (.declaration property vs important :: ds)) =
      (if first then "" else ";") ++ (property ++ (":" ++ (plainText (valuesOutline none vs) ++
        (plainText (importanceOutline important) ++
          plainText (declarationsOutline false ds))))) := by
  cases first <;> simp [declarationsOutline, importanceOutline, String.append_assoc]

/-- What follows the value of a declaration ends its last word. -/
theorem delimited_declarations {ds : List Node} (h : AreDeclarations ds) (important : Bool)
    (b : List Char) :
    Delimited ((plainText (importanceOutline important)).toList ++
      ((plainText (declarationsOutline false ds)).toList ++ '}' :: b)) := by
  cases important with
  | true => exact delimited_cons (by decide) _
  | false =>
    cases h with
    | nil => exact delimited_cons (by decide) _
    | cons property important hvs hds =>
      rw [declarationsOutline_cons, String.toList_append]
      exact delimited_cons (by decide) _

theorem lexed_importance (important : Bool) {b : List Char} {ts : List Terminal}
    (hb : Delimited b) (hs : Lexed b ts) :
    Lexed ((plainText (importanceOutline important)).toList ++ b) (importance important ++ ts) := by
  cases important with
  | false => exact hs
  | true =>
    have hword : IsPlainWord "important" := ⟨by decide, List.all_eq_true.1 (by decide)⟩
    exact lexed_symbol (c := '!') (by decide) (by simp) (lexed_word hword hb hs)

/-- The declarations of a body, with the brace that closes it. After another declaration they start
with a semicolon. -/
theorem spells_declarations {ds : List Node} (h : AreDeclarations ds)
    (hspelled : ∀ d ∈ ds, Throughout Rereadable d) (first : Bool) :
    ∃ xs, ReadsDeclarations xs ds ∧
      (first = false → xs = [] ∨ ∃ zs, xs = .symbol ';' :: zs) ∧
      ∀ b ts, Lexed b ts → Lexed ((plainText (declarationsOutline first ds)).toList ++ '}' :: b)
        (xs ++ .symbol '}' :: ts) := by
  induction h generalizing first with
  | nil =>
    exact ⟨[], readsDeclarations_nil, fun _ => .inl rfl,
      fun b ts hs => lexed_symbol (c := '}') (by decide) (by simp) hs⟩
  | cons property important hvs hds ih =>
    next vs ds =>
    obtain ⟨hspelled, hspelled'⟩ := List.forall_mem_cons.1 hspelled
    obtain ⟨⟨hproperty, hne, hparted⟩, hchildren⟩ := throughout_iff.1 hspelled
    obtain ⟨xs, hreads, hlexed⟩ := spells_values hvs hchildren hparted none
    obtain ⟨ys, hreads', hsemicolon, hlexed'⟩ := ih hspelled' false
    have hdeclaration := readsDeclarations_cons property important hreads hne hreads'
      (hsemicolon rfl)
    have hrest (b : List Char) : Delimited
        ((plainText (declarationsOutline false ds)).toList ++ '}' :: b) := by
      simpa [importanceOutline] using delimited_declarations hds false b
    have hword {b : List Char} (hb : Delimited b) : Terminal.Fits ⟨.word, property⟩ b :=
      fits_of_delimited hproperty (by simp) (by simp [Terminal.addressOpener]) hb
    have htext (b : List Char) (ts : List Terminal) (hs : Lexed b ts) :=
      Terminal.Fits.lexed (hword (delimited_cons (by decide) _)) <|
        lexed_symbol (c := ':') (by decide) (by simp) <|
          hlexed _ _ (delimited_declarations hds important b) <|
            lexed_importance important (hrest b) (hlexed' b ts hs)
    rw [declarationsOutline_cons]
    cases first with
    | true =>
      refine ⟨_, hdeclaration, by simp, fun b ts hs => ?_⟩
      simpa [Terminal.chars] using htext b ts hs
    | false =>
      refine ⟨_, readsDeclarations_semicolon hdeclaration, fun _ => .inr ⟨_, rfl⟩,
        fun b ts hs => ?_⟩
      simpa [Terminal.chars] using lexed_symbol (c := ';') (by decide) (by simp) (htext b ts hs)

/-! ### Rules -/

theorem lexed_body {text : List Char} {xs : List Terminal}
    (h : ∀ b ts, Lexed b ts → Lexed (text ++ '}' :: b) (xs ++ .symbol '}' :: ts)) {b : List Char}
    {ts : List Terminal} (hs : Lexed b ts) :
    Lexed ('{' :: (text ++ '}' :: b)) (.symbol '{' :: (xs ++ .symbol '}' :: ts)) :=
  lexed_symbol (by decide) (by simp) (h b ts hs)

mutual

theorem spells_rule {r : Node} (h : IsRule r) (hspelled : Throughout Rereadable r) :
    ∃ xs, ReadsRules xs [r] ∧ ∀ b ts, Lexed b ts →
      Lexed ((plainText (ruleOutline r)).toList ++ b) (xs ++ ts) := by
  obtain ⟨hr, hchildren⟩ := throughout_iff.1 hspelled
  match h with
  | @IsRule.ruleset selectors ds hds =>
    obtain ⟨x, xs, xss, rfl, hx, hheads⟩ := hr
    obtain ⟨ys, hreads, -, hlexed⟩ := spells_declarations hds hchildren true
    refine ⟨_, readsRules_ruleset hx hheads hreads, fun b ts hs => ?_⟩
    have hselectors := lexed_selectors (List.cons_ne_nil (x :: xs) xss)
      (fun ys hys => (hheads ys hys).1) (delimited_cons (by decide) _) (lexed_body hlexed hs)
    simpa [ruleOutline, bodyOutline] using hselectors
  | .statement name params =>
    obtain ⟨hname, hkeyword, ⟨xs, rfl, hxs⟩, -⟩ := hr
    refine ⟨_, readsRules_statement hkeyword hxs, fun b ts hs => ?_⟩
    have hend := lexed_symbol (c := ';') (by decide) (by simp) hs
    simpa [ruleOutline] using lexed_params hxs hname (delimited_cons (by decide) b) hend
  | .descriptors name params hds =>
    obtain ⟨hname, hkeyword, ⟨xs, rfl, hxs⟩, hdescriptors, -⟩ := hr
    obtain ⟨ys, hreads, -, hlexed⟩ := spells_declarations hds hchildren true
    refine ⟨_, readsRules_descriptors hkeyword (by simpa using hdescriptors rfl) hxs hreads,
      fun b ts hs => ?_⟩
    have hparams := lexed_params hxs hname (delimited_cons (by decide) _) (lexed_body hlexed hs)
    simpa [ruleOutline, bodyOutline] using hparams
  | .group name params hrs =>
    obtain ⟨hname, hkeyword, ⟨xs, rfl, hxs⟩, -, hgroup⟩ := hr
    obtain ⟨ys, hreads, hlexed⟩ := spells_rules hrs hchildren
    refine ⟨_, readsRules_group hkeyword (by simpa using hgroup rfl) hxs hreads, fun b ts hs => ?_⟩
    have hbody := lexed_body (fun b ts hs => hlexed _ _ (lexed_symbol (by decide) (by simp) hs)) hs
    have hparams := lexed_params hxs hname (delimited_cons (by decide) _) hbody
    simpa [ruleOutline, bodyOutline] using hparams
  | .block _ _ _ => exact hr.elim

/-- Rules end with a symbol, so that anything may follow them. -/
theorem spells_rules {rs : List Node} (h : AreRules rs)
    (hspelled : ∀ r ∈ rs, Throughout Rereadable r) :
    ∃ xs, ReadsRules xs rs ∧ ∀ b ts, Lexed b ts →
      Lexed ((plainText (rulesOutline rs)).toList ++ b) (xs ++ ts) := by
  match h with
  | .nil =>
    rw [rulesOutline]
    exact ⟨[], readsRules_nil, fun b ts hs => hs⟩
  | .cons hr hrs =>
    obtain ⟨hspelled, hspelled'⟩ := List.forall_mem_cons.1 hspelled
    obtain ⟨xs, hreads, hlexed⟩ := spells_rule hr hspelled
    obtain ⟨ys, hreads', hlexed'⟩ := spells_rules hrs hspelled'
    refine ⟨_, readsRules_append hreads hreads', fun b ts hs => ?_⟩
    rw [rulesOutline, plainText_append, String.toList_append, List.append_assoc, List.append_assoc]
    exact hlexed _ _ (hlexed' b ts hs)

end

/-- A stylesheet with rereadable rules is printed, and from the text the same stylesheet is read. -/
theorem parse_of_rereadable {body : List Node} (h : AreRules body)
    (hspelled : ∀ r ∈ body, Throughout Rereadable r) :
    ∃ text, printTree (.stylesheet body) = .ok text ∧ parse text = .ok (.stylesheet body) := by
  have hplain : ∀ r ∈ body, Throughout IsPlain r :=
    fun r hr n hn => isPlain_of_rereadable (hspelled r hr n hn)
  obtain ⟨xs, hreads, hlexed⟩ := spells_rules h hspelled
  refine ⟨_, printTree_of_plain h hplain, parse_of_lexed ?_ hreads⟩
  simpa using hlexed [] [] .nil

/-! ### Plain words and names -/

/-- A list is mapped onto another if its members are. -/
theorem exists_map_eq {α β : Type} {f : α → β} {p : α → Prop} {l : List β}
    (h : ∀ b ∈ l, ∃ a, b = f a ∧ p a) : ∃ as : List α, l = as.map f ∧ ∀ a ∈ as, p a := by
  induction l with
  | nil => exact ⟨[], rfl, by simp⟩
  | cons b l ih =>
    obtain ⟨⟨a, rfl, ha⟩, hl⟩ := List.forall_mem_cons.1 h
    obtain ⟨as, rfl, has⟩ := ih hl
    exact ⟨a :: as, rfl, List.forall_mem_cons.2 ⟨ha, has⟩⟩

/-- The words of phrases, none of which is empty. -/
theorem exists_words {selectors : List String} (h : ∀ s ∈ selectors, IsPhrase s ∧ s ≠ "") :
    ∃ wss : List (List String), selectors = wss.map (" ".intercalate ·) ∧
      ∀ ws ∈ wss, ws ≠ [] ∧ ∀ w ∈ ws, IsPlainWord w := by
  refine exists_map_eq fun s hs => ?_
  obtain ⟨⟨ws, hws, rfl⟩, hne⟩ := h s hs
  refine ⟨ws, rfl, ?_, hws⟩
  rintro rfl
  exact hne rfl

theorem parted_of_wellSpelled {vs : List Node} (h : ∀ v ∈ vs, WellSpelled v) : Parted vs := by
  refine List.Pairwise.isChain (List.pairwise_of_forall_mem_list fun v _ w hw _ s heq hstar => ?_)
  have hword : IsPlainWord s := by
    have := h w hw
    rwa [heq] at this
  have hpart := hword.parts '*' (List.mem_of_head? hstar)
  exact absurd hpart (by decide)

theorem rereadable_ruleset {selectors : List String} {ds : List Node} (hne : selectors ≠ [])
    (h : ∀ s ∈ selectors, IsPhrase s ∧ s ≠ "") : Rereadable (.ruleset selectors ds) := by
  obtain ⟨wss, rfl, hwss⟩ := exists_words h
  rcases wss with _ | ⟨_ | ⟨w, ws⟩, wss⟩
  · exact absurd rfl hne
  · exact absurd rfl (hwss [] List.mem_cons_self).1
  obtain ⟨xs, hxs⟩ := head_phraseTerminals w ws
  refine ⟨⟨.word, w⟩, xs, wss.map phraseTerminals, ?_, by simp, ?_⟩
  · simp [← hxs, headText_phrase, Function.comp_def]
  · rw [← hxs, ← List.map_cons]
    rintro ys hys
    obtain ⟨vs, hvs, rfl⟩ := List.mem_map.1 hys
    obtain ⟨hnonempty, hwords⟩ := hwss vs hvs
    refine ⟨isHead_phrase hwords, ?_, isSelector_phrase vs⟩
    obtain ⟨v, vs, rfl⟩ := List.exists_cons_of_ne_nil hnonempty
    obtain ⟨ys, hys⟩ := head_phraseTerminals v vs
    simp [hys]

theorem isParams_phrase {ws : List String} (h : ∀ w ∈ ws, IsPlainWord w) :
    IsParams (phraseTerminals ws) :=
  ⟨isHead_phrase h, fun _ hx => ⟨isSymbol_phrase hx _, isSymbol_phrase hx _, isSymbol_phrase hx _⟩⟩

/-- Plain words and names are terminals that fit everywhere. -/
theorem rereadable_of_wellSpelled {n : Node} (h : WellSpelled n)
    (hchildren : ∀ c ∈ n.children, WellSpelled c) : Rereadable n := by
  match n with
  | .ruleset selectors ds => exact rereadable_ruleset h.1 h.2
  | .atRule name params rules declarations =>
    obtain ⟨hname, hkeyword, ⟨ws, hws, rfl⟩, hbodies⟩ := h
    have hlexed : Lexed ('@' :: (name.toList ++ [])) [⟨.atKeyword, "@" ++ name⟩] :=
      lexed_atKeyword hname delimited_nil .nil
    exact ⟨hlexed.scans.2.1, hkeyword, ⟨_, (headText_phrase ws).symm, isParams_phrase hws⟩, hbodies⟩
  | .declaration property vs important =>
    exact ⟨fits_plainWord h.1 delimited_nil, h.2, parted_of_wellSpelled hchildren⟩
  | .literal text => exact ⟨.word, rfl, fits_plainWord h delimited_nil⟩
  | .operator text => exact h
  | .function name args =>
    obtain ⟨hname, hspecial⟩ : IsPlainName name ∧ name ∉ ["eval", "value", "url"] := h
    simp only [List.mem_cons, List.not_mem_nil, or_false, not_or] at hspecial
    have hlexed : Lexed (name.toList ++ ['(']) [⟨.function, name ++ "("⟩] :=
      lexed_function hname hspecial.2.2 .nil
    exact ⟨hlexed.scans.2.1, by simp [hspecial], parted_of_wellSpelled hchildren,
      fun hurl => absurd hurl hspecial.2.2⟩

/-! ### Stylesheets -/

/-- Reading undoes printing: a plain stylesheet with well-spelled rules is printed, and from the
text the same stylesheet is read. -/
theorem parse_printTree {body : List Node} (h : AreRules body)
    (hspelled : ∀ r ∈ body, Throughout WellSpelled r) :
    ∃ text, printTree (.stylesheet body) = .ok text ∧ parse text = .ok (.stylesheet body) := by
  refine parse_of_rereadable h fun r hr n hn => rereadable_of_wellSpelled (hspelled r hr n hn) ?_
  exact fun c hc => hspelled r hr c (.trans (.inside hc .here) hn)

/-- Rules in an at-rule, values with an operator and a function, and descriptors. -/
def plainRules : List Node :=
  [.atRule "media" "print" (some [.ruleset ["a .b", "c"]
      [.declaration "d" [.literal "1", .operator "/", .function "f" [.literal "2"], .literal "9%"]
        true, .declaration "e" [.literal "x"] false]]) none,
    .atRule "Page" "" none (some [])]

theorem areRules_plainRules : AreRules plainRules := by
  have hvalues : AreValues [.literal "1", .operator "/", .function "f" [.literal "2"],
      .literal "9%"] :=
    .cons (.literal _) (.cons (.operator (.inr rfl)) (.cons (.function _ (.cons (.literal _) .nil))
      (.cons (.literal _) .nil)))
  have hds := AreDeclarations.cons "d" true hvalues
    (.cons "e" false (.cons (.literal "x") .nil) .nil)
  exact .cons (.group _ _ (.cons (.ruleset _ hds) .nil)) (.cons (.descriptors _ _ .nil) .nil)

theorem wellSpelled_plainRules : ∀ r ∈ plainRules, Throughout WellSpelled r := by
  have hword (s : String) (hne : s ≠ "") (hs : s.toList.all isPlainPart = true) : IsPlainWord s :=
    ⟨hne, List.all_eq_true.1 hs⟩
  have ha := hword "a" (by decide) (by decide)
  have hb := hword ".b" (by decide) (by decide)
  have hc := hword "c" (by decide) (by decide)
  have hd := hword "d" (by decide) (by decide)
  have he := hword "e" (by decide) (by decide)
  have hprint := hword "print" (by decide) (by decide)
  have hliteral (s : String) (hne : s ≠ "") (hs : s.toList.all isPlainPart = true) :
      Throughout WellSpelled (.literal s) :=
    throughout_iff.2 ⟨hword s hne hs, by simp [Node.children]⟩
  have hfunction : Throughout WellSpelled (.function "f" [.literal "2"]) := throughout_iff.2
    ⟨⟨⟨'f', [], rfl, by decide, by simp⟩, by decide⟩,
      List.forall_mem_singleton.2 (hliteral "2" (by decide) (by decide))⟩
  have hoperator : Throughout WellSpelled (.operator "/") :=
    throughout_iff.2 ⟨.inr rfl, by simp [Node.children]⟩
  have hvalues : Throughout WellSpelled (.declaration "d" [.literal "1", .operator "/",
      .function "f" [.literal "2"], .literal "9%"] true) :=
    throughout_iff.2 ⟨⟨hd, by simp⟩, by
      simp [Node.children, hoperator, hfunction, hliteral "1" (by decide) (by decide),
        hliteral "9%" (by decide) (by decide)]⟩
  have hlast : Throughout WellSpelled (.declaration "e" [.literal "x"] false) :=
    throughout_iff.2 ⟨⟨he, by simp⟩,
      List.forall_mem_singleton.2 (hliteral "x" (by decide) (by decide))⟩
  have hselectors : ∀ s ∈ ["a .b", "c"], IsPhrase s ∧ s ≠ "" := by
    refine List.forall_mem_cons.2 ⟨⟨⟨["a", ".b"], by simp [ha, hb], by decide⟩, by decide⟩, ?_⟩
    exact List.forall_mem_singleton.2 ⟨⟨["c"], by simp [hc], by decide⟩, by decide⟩
  have hmedia : Throughout WellSpelled (.atRule "media" "print" (some [.ruleset ["a .b", "c"]
      [.declaration "d" [.literal "1", .operator "/", .function "f" [.literal "2"], .literal "9%"]
        true, .declaration "e" [.literal "x"] false]]) none) := by
    have hname : IsPlainName "media" :=
      ⟨'m', ['e', 'd', 'i', 'a'], rfl, by decide, List.all_eq_true.1 (by decide)⟩
    refine throughout_iff.2
      ⟨⟨hname, by decide, ⟨["print"], by simp [hprint], by decide⟩, by simp, by decide⟩, ?_⟩
    refine List.forall_mem_singleton.2 (throughout_iff.2 ⟨⟨by simp, hselectors⟩, ?_⟩)
    exact List.forall_mem_cons.2 ⟨hvalues, List.forall_mem_singleton.2 hlast⟩
  have hpage : Throughout WellSpelled (.atRule "Page" "" none (some [])) := by
    have hname : IsPlainName "Page" :=
      ⟨'P', ['a', 'g', 'e'], rfl, by decide, List.all_eq_true.1 (by decide)⟩
    exact throughout_iff.2
      ⟨⟨hname, by decide, ⟨[], by simp, rfl⟩, by decide, by simp⟩, by simp [Node.children]⟩
  exact List.forall_mem_cons.2 ⟨hmedia, List.forall_mem_singleton.2 hpage⟩

/-- Spaces are left only between a function and a word after it, between the words of a selector,
and before parameters. -/
theorem parse_printTree_plainRules :
    AreRules plainRules ∧ (∀ r ∈ plainRules, Throughout WellSpelled r) ∧
      printTree (.stylesheet plainRules) =
        .ok "@media print{a .b,c{d:1/f(2) 9%!important;e:x}}@Page{}" ∧
      parse "@media print{a .b,c{d:1/f(2) 9%!important;e:x}}@Page{}" =
        .ok (.stylesheet plainRules) := by
  have htext : printTree (.stylesheet plainRules) =
      .ok "@media print{a .b,c{d:1/f(2) 9%!important;e:x}}@Page{}" := by with_unfolding_all rfl
  obtain ⟨text, hprint, hparse⟩ := parse_printTree areRules_plainRules wellSpelled_plainRules
  cases hprint.symm.trans htext
  exact ⟨areRules_plainRules, wellSpelled_plainRules, htext, hparse⟩

end ConditionalStyle.Assembly
