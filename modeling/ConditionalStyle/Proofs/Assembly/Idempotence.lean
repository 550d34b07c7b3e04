import ConditionalStyle.Proofs.Assembly.RoundTrip
import Mathlib.Data.List.TakeWhile

/-!
# Compact texts that are read and printed again

From the compact text of a stylesheet the same stylesheet is read, mostly. There are exceptions:
comments are dropped without a trace, so that the blanks on both sides of a comment in a selector
are kept as two spaces. And where a blank is dropped in a value, a slash and a star become the start
of a comment, and what opens an address takes in what follows.

A stylesheet that can also be written without comments, and in whose text nothing is joined in this
way, is read again from its compact text, which is then the compact text of itself. To see this, the
parser is followed through tokens that are scanned in front of each other: everything it makes of
them is rereadable.

## Main definitions

* `IsStatic`: nodes that are not decided at run time.
* `StandsApart`: nodes in whose text nothing is joined.
* `IsClean`: texts without comments.
* `compact?`: the compact text of a source.

## Main statements

* `rules_rereadable`: rules that are read from a text without comments are rereadable.
* `compact_fixed`: when a compact text is a fixed point.
* `compact_comment`: a compact text that is none.
-/

namespace ConditionalStyle.Assembly

open Stylesheet Stylesheet.Parser Text

/-- A node that is neither a conditional block nor a value computed at run time. -/
def IsStatic (n : Node) : Prop :=
  n.kind ∉ [Node.Kind.conditionalBlock, .runtime, .dotPath]

instance : DecidablePred IsStatic := fun _ => inferInstanceAs (Decidable (_ ∉ _))

/-- A node in whose text nothing is joined that stood apart: no star comes right after a slash, no
function becomes an address, and no address is left open at the end of a selector or of
parameters. -/
def StandsApart : Node → Prop
  | .ruleset selectors _ => ∀ s ∈ selectors, IsFirm s
  | .atRule _ params _ _ => IsFirm params
  | .declaration _ vs _ => Parted vs
  | .function name args =>
    Parted args ∧ urlLength? (plainText (valueOutline (.function name args))).toList = none
  | _ => True

/-- A node that is neither decided at run time nor joined with what stands next to it. -/
def IsKept (n : Node) : Prop :=
  IsStatic n ∧ StandsApart n

/-! ### Tokens without comments -/

/-- Tokens that are scanned in front of each other, as they are where no comment stands between
them. -/
def Contiguous (ts : List Token) : Prop :=
  Scans (ts.map Token.terminal) []

theorem Contiguous.suffix {ts r : List Token} (h : Contiguous ts) (hr : r <:+ ts) :
    Contiguous r := by
  obtain ⟨us, rfl⟩ := hr
  rw [Contiguous, List.map_append] at h
  exact (scans_append_iff.1 h).2

theorem Contiguous.fits {ts : List Token} (h : Contiguous ts) {t : Token} (ht : t ∈ ts) :
    t.terminal.Fits [] :=
  Scans.fits h (List.mem_map_of_mem ht)

/-! ### Values -/

variable {finish : Token}

/-- What a value is read as, from its first token that is not blank on. -/
inductive ValueStep (finish : Token) (closing : List Char) (t : Token) (r₀ : List Token) :
    Bool → List Node → Bool → List Token → Prop
  | closed (important : Bool) (ht : closing.any t.isSymbol = true) :
    ValueStep finish closing t r₀ important [] important (t :: r₀)
  | bang (important : Bool) {u : Token} {r₁ r : List Token} {vs : List Node} {flag : Bool}
    (ht : t.isSymbol '!' = true) (hu : skipBlanks r₀ = u :: r₁)
    (h : plain (values finish closing true r₁) = .ok ((vs, flag), r)) :
    ValueStep finish closing t r₀ important vs flag r
  | operator {r : List Token} {vs : List Node} {flag : Bool}
    (ht : t.isSymbol ',' = true ∨ t.isSymbol '/' = true)
    (h : plain (values finish closing false r₀) = .ok ((vs, flag), r)) :
    ValueStep finish closing t r₀ false (.operator t.text :: vs) flag r
  | literal {r : List Token} {vs : List Node} {flag : Bool} (ht : t.kind.isLiteral = true)
    (h : plain (values finish closing false r₀) = .ok ((vs, flag), r)) :
    ValueStep finish closing t r₀ false (.literal t.text :: vs) flag r
  | function {v : Node} {r₁ r : List Token} {vs : List Node} {flag : Bool}
    (ht : t.kind = .function) (hv : plain (functionValue finish t r₀) = .ok (v, r₁))
    (h : plain (values finish closing false r₁) = .ok ((vs, flag), r)) :
    ValueStep finish closing t r₀ false (v :: vs) flag r

theorem exists_valueStep {closing : List Char} {important flag : Bool} {ts r : List Token}
    {vs : List Node} (h : plain (values finish closing important ts) = .ok ((vs, flag), r)) :
    ∃ t r₀, skipBlanks ts = t :: r₀ ∧ ValueStep finish closing t r₀ important vs flag r := by
  rw [plain_values] at h
  rcases hs : skipBlanks ts with _ | ⟨t, r₀⟩
  · rw [hs] at h
    cases h
  refine ⟨t, r₀, rfl, ?_⟩
  rw [hs] at h
  dsimp only at h
  split at h
  · next hclose =>
    cases h
    exact .closed important hclose
  split at h
  · next hbang =>
    rcases hs₁ : skipBlanks r₀ with _ | ⟨u, r₁⟩
    · rw [hs₁] at h
      cases h
    rw [hs₁] at h
    dsimp only at h
    split at h
    · exact .bang important hbang hs₁ h
    · cases h
  split at h
  · cases h
  next hflag =>
  cases Bool.eq_false_iff.2 hflag
  split at h
  · next hoperator =>
    obtain ⟨⟨⟨rest, flag'⟩, r₁⟩, hrest, hok⟩ := bind_eq_ok_iff.1 h
    cases hok
    exact .operator (Bool.or_eq_true_iff.1 hoperator) hrest
  split at h
  · next hliteral =>
    obtain ⟨⟨⟨rest, flag'⟩, r₁⟩, hrest, hok⟩ := bind_eq_ok_iff.1 h
    cases hok
    exact .literal hliteral hrest
  split at h
  · next hfunction =>
    obtain ⟨⟨v, r₁⟩, hv, h⟩ := bind_eq_ok_iff.1 h
    obtain ⟨⟨⟨rest, flag'⟩, r₂⟩, hrest, hok⟩ := bind_eq_ok_iff.1 h
    cases hok
    exact .function (eq_of_beq hfunction) hv hrest
  · cases h

/-- A function whose value is not computed at run time is read with its arguments. -/
theorem functionValue_cases {function : Token} {ts r : List Token} {v : Node}
    (h : plain (functionValue finish function ts) = .ok (v, r)) :
    ¬IsStatic v ∨ ∃ args flag r₁, v = .function (functionName function) args ∧
      functionName function ∉ ["eval", "value"] ∧
      plain (values finish [')'] false ts) = .ok ((args, flag), r₁) ∧
      after finish ')' r₁ = .ok r := by
  rw [plain_functionValue] at h
  split at h
  · obtain ⟨⟨args, r₁⟩, -, hok⟩ := bind_eq_ok_iff.1 h
    cases hok
    exact .inl (by simp [IsStatic, Node.kind])
  next heval =>
  split at h
  · obtain ⟨⟨args, r₁⟩, -, hok⟩ := bind_eq_ok_iff.1 h
    cases hok
    exact .inl (by simp [IsStatic, Node.kind, dotPath])
  next hvalue =>
  obtain ⟨⟨⟨args, important⟩, r₁⟩, hargs, h⟩ := bind_eq_ok_iff.1 h
  dsimp only at h
  split at h
  · cases h
  obtain ⟨r₂, hafter, hok⟩ := bind_eq_ok_iff.1 h
  cases hok
  exact .inr ⟨args, important, r₁, rfl, by simp_all, hargs, hafter⟩

/-- The name of a function token, with its parenthesis. -/
theorem functionName_append {t : Token} (h : t.terminal.Fits []) (ht : t.kind = .function) :
    functionName t ++ "(" = t.text := by
  have hfits : Terminal.Fits ⟨.function, t.text⟩ [] := ht ▸ h
  obtain ⟨name, -, htext, -⟩ := Terminal.fits_function_iff.1 hfits
  refine String.toList_inj.1 ?_
  simp [functionName, htext]

/-- The name of an at-keyword, with its `@`. -/
theorem atName_append {t : Token} (h : t.terminal.Fits []) (ht : t.kind = .atKeyword) :
    "@" ++ atName t = t.text := by
  have hfits : Terminal.Fits ⟨.atKeyword, t.text⟩ [] := ht ▸ h
  obtain ⟨c, name, htext, -⟩ := Terminal.fits_atKeyword_iff.1 hfits
  refine String.toList_inj.1 ?_
  simp [atName, htext]

mutual

theorem values_rereadable {closing : List Char} {important flag : Bool} {ts r : List Token}
    {vs : List Node} (h : plain (values finish closing important ts) = .ok ((vs, flag), r))
    (hts : Contiguous ts) (hkept : ∀ v ∈ vs, Throughout IsKept v) :
    (∀ v ∈ vs, Throughout Rereadable v) ∧ r <:+ ts := by
  obtain ⟨t, r₀, hs, hstep⟩ := exists_valueStep h
  have hlt := length_lt_of_skipBlanks hs
  have hsuffix := suffix_of_skipBlanks hs
  have hrest := (List.suffix_cons t r₀).trans hsuffix
  cases hstep with
  | closed => exact ⟨by simp, hsuffix⟩
  | bang _ _ hu h =>
    have hlt₁ := length_lt_of_skipBlanks hu
    have hsuffix₁ := ((List.suffix_cons _ _).trans (suffix_of_skipBlanks hu)).trans hrest
    obtain ⟨hvs, hr⟩ := values_rereadable h (hts.suffix hsuffix₁) hkept
    exact ⟨hvs, hr.trans hsuffix₁⟩
  | operator ht h =>
    obtain ⟨hvs, hr⟩ :=
      values_rereadable h (hts.suffix hrest) (List.forall_mem_cons.1 hkept).2
    have hnode : Throughout Rereadable (.operator t.text) :=
      throughout_iff.2 ⟨ht.imp Token.text_of_isSymbol Token.text_of_isSymbol,
        by simp [Node.children]⟩
    exact ⟨List.forall_mem_cons.2 ⟨hnode, hvs⟩, hr.trans hrest⟩
  | literal ht h =>
    obtain ⟨hvs, hr⟩ :=
      values_rereadable h (hts.suffix hrest) (List.forall_mem_cons.1 hkept).2
    have hfits := (hts.suffix hsuffix).fits List.mem_cons_self
    have hnode : Throughout Rereadable (.literal t.text) :=
      throughout_iff.2 ⟨⟨t.kind, ht, hfits⟩, by simp [Node.children]⟩
    exact ⟨List.forall_mem_cons.2 ⟨hnode, hvs⟩, hr.trans hrest⟩
  | function ht hv h =>
    have hlt₁ := property_of_plain hv
    obtain ⟨hkept, hkept'⟩ := List.forall_mem_cons.1 hkept
    obtain ⟨hread, hr₁⟩ := functionValue_rereadable hv (hts.suffix hsuffix) ht hkept
    have hr₁ := hr₁.trans hrest
    obtain ⟨hvs, hr⟩ := values_rereadable h (hts.suffix hr₁) hkept'
    exact ⟨List.forall_mem_cons.2 ⟨hread, hvs⟩, hr.trans hr₁⟩
termination_by (ts.length, 0)

theorem functionValue_rereadable {function : Token} {ts r : List Token} {v : Node}
    (h : plain (functionValue finish function ts) = .ok (v, r)) (hts : Contiguous (function :: ts))
    (hfunction : function.kind = .function) (hkept : Throughout IsKept v) :
    Throughout Rereadable v ∧ r <:+ ts := by
  rcases functionValue_cases h with hruntime | ⟨args, flag, r₁, rfl, hspecial, hargs, hafter⟩
  · exact absurd (hkept _ .here).1 hruntime
  obtain ⟨⟨-, hparted, haddress⟩, hchildren⟩ := throughout_iff.1 hkept
  obtain ⟨hvs, hr⟩ := values_rereadable hargs (hts.suffix (List.suffix_cons _ _)) hchildren
  have hfits : Terminal.Fits ⟨.function, functionName function ++ "("⟩ [] := by
    have hfits := hts.fits List.mem_cons_self
    rw [functionName_append hfits hfunction, ← hfunction]
    exact hfits
  have hnode : Rereadable (.function (functionName function) args) :=
    ⟨hfits, hspecial, hparted, fun _ => haddress⟩
  exact ⟨throughout_iff.2 ⟨hnode, hvs⟩, (suffix_of_after hafter).trans hr⟩
termination_by (ts.length, 1)

end

/-! ### Declarations -/

theorem declaration_rereadable {name : Token} {ts r : List Token} {d : Node}
    (h : plain (declaration finish name ts) = .ok (d, r)) (hts : Contiguous (name :: ts))
    (hkept : Throughout IsKept d) : Throughout Rereadable d ∧ r <:+ ts := by
  rw [plain_declaration] at h
  split at h
  · next hword =>
    obtain ⟨r₁, hcolon, h⟩ := bind_eq_ok_iff.1 h
    obtain ⟨⟨⟨vs, important⟩, r₂⟩, hvs, h⟩ := bind_eq_ok_iff.1 h
    dsimp only at h
    split at h
    · cases h
    next hne =>
    cases h
    have hr₁ := (suffix_of_after hcolon).trans (skipBlanks_suffix ts)
    obtain ⟨⟨-, hparted⟩, hchildren⟩ := throughout_iff.1 hkept
    obtain ⟨hvalues, hr⟩ := values_rereadable hvs
      (hts.suffix (hr₁.trans (List.suffix_cons name ts))) hchildren
    have hproperty : Terminal.Fits ⟨.word, name.text⟩ [] := by
      rw [← eq_of_beq hword]
      exact hts.fits List.mem_cons_self
    have hnode : Rereadable (.declaration name.text vs important) :=
      ⟨hproperty, by simpa using hne, hparted⟩
    exact ⟨throughout_iff.2 ⟨hnode, hvalues⟩, hr.trans hr₁⟩
  · cases h

theorem declarations_rereadable {ts r : List Token} {ds : List Node}
    (h : plain (declarations finish ts) = .ok (ds, r)) (hts : Contiguous ts)
    (hkept : ∀ d ∈ ds, Throughout IsKept d) :
    (∀ d ∈ ds, Throughout Rereadable d) ∧ r <:+ ts := by
  rw [plain_declarations] at h
  rcases hs : skipBlanks ts with _ | ⟨t, r₀⟩
  · rw [hs] at h
    cases h
  have hlt := length_lt_of_skipBlanks hs
  have hsuffix := suffix_of_skipBlanks hs
  have hrest := (List.suffix_cons t r₀).trans hsuffix
  rw [hs] at h
  dsimp only at h
  split at h
  · cases h
    exact ⟨by simp, hrest⟩
  split at h
  · obtain ⟨hds, hr⟩ := declarations_rereadable h (hts.suffix hrest) hkept
    exact ⟨hds, hr.trans hrest⟩
  split at h
  · cases h
  obtain ⟨⟨d, r₁⟩, hd, h⟩ := bind_eq_ok_iff.1 h
  obtain ⟨⟨rest, r₂⟩, hds, hok⟩ := bind_eq_ok_iff.1 h
  cases hok
  have hlt₁ : r₁.length < r₀.length := property_of_plain hd
  obtain ⟨hkept, hkept'⟩ := List.forall_mem_cons.1 hkept
  obtain ⟨hread, hr₁⟩ := declaration_rereadable hd (hts.suffix hsuffix) hkept
  have hr₁ := hr₁.trans hrest
  obtain ⟨hdeclarations, hr⟩ := declarations_rereadable hds (hts.suffix hr₁) hkept'
  exact ⟨List.forall_mem_cons.2 ⟨hread, hdeclarations⟩, hr.trans hr₁⟩
termination_by ts.length

/-! ### Heads -/

/-- Tokens among others are kept as the text of a head. -/
theorem Contiguous.exists_isHead {ts s : List Token} (h : Contiguous ts) (hs : s <:+: ts)
    (hfirm : IsFirm (joinTokens s)) :
    ∃ zs, IsHead zs ∧ joinTokens s = headText zs ∧ solids zs = solids (s.map Token.terminal) := by
  obtain ⟨pre, post, rfl⟩ := hs
  rw [Contiguous, List.map_append, List.map_append, scans_append_iff, scans_append_iff] at h
  exact Stylesheet.exists_isHead h.1.2 hfirm

theorem Contiguous.exists_selector {ts s : List Token} (h : Contiguous ts) (hs : s <:+: ts)
    (hselector : IsSelector 0 (s.map Token.terminal)) (hne : joinTokens s ≠ "")
    (hfirm : IsFirm (joinTokens s)) :
    ∃ zs, joinTokens s = headText zs ∧ (IsHead zs ∧ zs ≠ [] ∧ IsSelector 0 zs) ∧
      solids zs = solids (s.map Token.terminal) := by
  obtain ⟨zs, hhead, hjoin, hsolids⟩ := h.exists_isHead hs hfirm
  refine ⟨zs, hjoin, ⟨hhead, ?_, ?_⟩, hsolids⟩
  · rintro rfl
    exact hne hjoin
  · rw [← isSelector_solids_iff, hsolids, isSelector_solids_iff]
    exact hselector

/-- A selector starts with the token it is read from. -/
theorem head_of_solids {x z : Terminal} {xs zs : List Terminal} (hhead : IsHead (z :: zs))
    (hx : x.kind ≠ .blank) (h : solids (z :: zs) = solids (x :: xs)) : z = x := by
  rw [solids_cons_of_not_blank (hhead.first z rfl), solids_cons_of_not_blank hx] at h
  exact (List.cons.inj h).1

/-- The selectors of a ruleset that starts with a token which is neither blank nor an at-keyword. -/
theorem rereadable_of_selectors {t : Token} {ts r first : List Token} {others : List (List Token)}
    (h : plain (selectors finish 0 (t :: ts)) = .ok ((first, others), r))
    (hne : ∀ s ∈ first :: others, joinTokens s ≠ "") (hts : Contiguous (t :: ts))
    (hblank : t.kind ≠ .blank) (hkeyword : t.kind ≠ .atKeyword) (ds : List Node)
    (hfirm : ∀ s ∈ first :: others, IsFirm (joinTokens s)) :
    Rereadable (.ruleset ((first :: others).map joinTokens) ds) := by
  obtain ⟨hfirst, hstart, hothers, -⟩ := selectors_sound h
  obtain ⟨_ | ⟨z, zs⟩, hjoin, hzs, hsolids⟩ := hts.exists_selector hstart.isInfix hfirst
    (hne first List.mem_cons_self) (hfirm first List.mem_cons_self)
  · exact absurd rfl hzs.2.1
  have hz : z.kind ≠ .atKeyword := by
    rcases first with _ | ⟨t', first⟩
    · exact absurd rfl (hne [] List.mem_cons_self)
    obtain ⟨rfl, -⟩ := List.cons_prefix_cons.1 hstart
    rw [head_of_solids hzs.1 hblank hsolids]
    exact hkeyword
  obtain ⟨zss, htexts, hzss⟩ : ∃ zss : List (List Terminal),
      others.map joinTokens = zss.map headText ∧
        ∀ zs ∈ zss, IsHead zs ∧ zs ≠ [] ∧ IsSelector 0 zs := by
    refine exists_map_eq fun text htext => ?_
    obtain ⟨s, hs, rfl⟩ := List.mem_map.1 htext
    obtain ⟨hselector, hinside⟩ := hothers s hs
    have hmem : s ∈ first :: others := List.mem_cons_of_mem first hs
    obtain ⟨zs, hjoin, hzs, -⟩ :=
      hts.exists_selector hinside hselector (hne s hmem) (hfirm s hmem)
    exact ⟨zs, hjoin, hzs⟩
  refine ⟨z, zs, zss, ?_, hz, List.forall_mem_cons.2 ⟨hzs, hzss⟩⟩
  rw [List.map_cons, List.map_cons, hjoin, htexts]

theorem ruleset_rereadable {t : Token} {ts r : List Token} {n : Node}
    (h : plain (ruleset finish (t :: ts)) = .ok (n, r)) (hts : Contiguous (t :: ts))
    (hblank : t.kind ≠ .blank) (hkeyword : t.kind ≠ .atKeyword)
    (hkept : Throughout IsKept n) : Throughout Rereadable n ∧ r <:+ t :: ts := by
  rw [plain_ruleset] at h
  obtain ⟨⟨⟨first, others⟩, r₁⟩, hselectors, h⟩ := bind_eq_ok_iff.1 h
  dsimp only at h
  split at h
  · cases h
  next hempty =>
  obtain ⟨⟨ds, r₂⟩, hblock, hok⟩ := bind_eq_ok_iff.1 h
  cases hok
  have hne : ∀ s ∈ first :: others, joinTokens s ≠ "" := by simpa using hempty
  obtain ⟨⟨-, hfirm⟩, hchildren⟩ := throughout_iff.1 hkept
  have hnode := rereadable_of_selectors hselectors hne hts hblank hkeyword ds
    fun s hs => hfirm _ (List.mem_map_of_mem hs)
  rw [plain_declarationBlock] at hblock
  obtain ⟨r₃, hbrace, hds⟩ := bind_eq_ok_iff.1 hblock
  have hr₃ := (suffix_of_after hbrace).trans (selectors_sound hselectors).2.2.2
  obtain ⟨hdeclarations, hr⟩ := declarations_rereadable hds (hts.suffix hr₃) hchildren
  exact ⟨throughout_iff.2 ⟨hnode, hdeclarations⟩, hr.trans hr₃⟩

/-- The parameters of an at-rule end in front of the first semicolon or brace. -/
theorem parameters_sound {ts r : List Token} (h : (parameters ts).2.1 = r) :
    ts = (parameters ts).1 ++ r ∧ ∀ u ∈ (parameters ts).1,
      u.isSymbol ';' = false ∧ u.isSymbol '{' = false ∧ u.isSymbol '}' = false := by
  let goesOn (t : Token) : Bool := !(t.isSymbol ';' || t.isSymbol '{' || t.isSymbol '}')
  have h : ts.dropWhile goesOn = r := h
  change ts = ts.takeWhile goesOn ++ r ∧ ∀ u ∈ ts.takeWhile goesOn, _
  refine ⟨by rw [← h, List.takeWhile_append_dropWhile], fun u hu => ?_⟩
  have hgoes := List.mem_takeWhile_imp hu
  simpa [goesOn, and_assoc] using hgoes

theorem Contiguous.exists_isParams {ts r : List Token} (h : Contiguous ts)
    (hts : (parameters ts).2.1 = r) (hfirm : IsFirm (joinTokens (parameters ts).1)) :
    ∃ zs, joinTokens (parameters ts).1 = headText zs ∧ IsParams zs := by
  obtain ⟨hsplit, hparams⟩ := parameters_sound hts
  have hinside : (parameters ts).1 <:+: ts := ⟨[], r, hsplit.symm⟩
  obtain ⟨zs, hhead, hjoin, hsolids⟩ := h.exists_isHead hinside hfirm
  refine ⟨zs, hjoin, hhead, fun x hx => ?_⟩
  by_cases hblank : x.kind = .blank
  · have hsymbol := Terminal.isSymbol_eq_false (x := x) (by simp [hblank])
    exact ⟨hsymbol _, hsymbol _, hsymbol _⟩
  · have hmem : x ∈ solids ((parameters ts).1.map Token.terminal) := by
      rw [← hsolids]
      exact List.mem_filter.2 ⟨hx, by simpa using hblank⟩
    obtain ⟨u, hu, rfl⟩ := List.mem_map.1 (List.mem_filter.1 hmem).1
    simp only [← Token.isSymbol_eq rfl]
    exact hparams u hu

/-! ### Rules -/

mutual

/-- Rules that are read from tokens without comments can be read again from their compact text. -/
theorem rules_rereadable {nested : Bool} {ts r : List Token} {body : List Node}
    (h : plain (rules finish nested ts) = .ok (body, r)) (hts : Contiguous ts)
    (hkept : ∀ n ∈ body, Throughout IsKept n) :
    (∀ n ∈ body, Throughout Rereadable n) ∧ r <:+ ts := by
  rw [plain_rules] at h
  rcases hs : skipBlanks ts with _ | ⟨t, r₀⟩
  · rw [hs] at h
    dsimp only at h
    split at h
    · cases h
    · cases h
      exact ⟨by simp, List.nil_suffix⟩
  have hlt := length_lt_of_skipBlanks hs
  have hsuffix := suffix_of_skipBlanks hs
  have hrest := (List.suffix_cons t r₀).trans hsuffix
  rw [hs] at h
  dsimp only at h
  split at h
  · cases h
    exact ⟨by simp, hsuffix⟩
  split at h
  · obtain ⟨hbody, hr⟩ := rules_rereadable h (hts.suffix hrest) hkept
    exact ⟨hbody, hr.trans hrest⟩
  obtain ⟨⟨n, r₁⟩, hn, h⟩ := bind_eq_ok_iff.1 h
  obtain ⟨⟨rest, r₂⟩, hbody, hok⟩ := bind_eq_ok_iff.1 h
  cases hok
  have hle : r₁.length ≤ r₀.length := property_of_plain hn
  obtain ⟨hkept, hkept'⟩ := List.forall_mem_cons.1 hkept
  obtain ⟨hrule, hr₁⟩ :=
    rule_rereadable hn (hts.suffix hsuffix) (kind_of_skipBlanks hs) hkept
  obtain ⟨hrules, hr⟩ := rules_rereadable hbody (hts.suffix (hr₁.trans hsuffix)) hkept'
  exact ⟨List.forall_mem_cons.2 ⟨hrule, hrules⟩, hr.trans (hr₁.trans hsuffix)⟩
termination_by (ts.length, 2)

theorem rule_rereadable {t : Token} {ts r : List Token} {n : Node}
    (h : plain (rule finish t ts) = .ok (n, r)) (hts : Contiguous (t :: ts))
    (hblank : t.kind ≠ .blank) (hkept : Throughout IsKept n) :
    Throughout Rereadable n ∧ r <:+ t :: ts := by
  rw [plain_rule] at h
  split at h
  · next hkeyword =>
    split at h
    · obtain ⟨⟨b, r₁⟩, -, h⟩ := bind_eq_ok_iff.1 h
      obtain ⟨⟨bs, r₂⟩, -, hok⟩ := bind_eq_ok_iff.1 h
      cases hok
      exact absurd (hkept _ .here).1 (by simp [IsStatic, Node.kind])
    next hif =>
    split at h
    · cases h
    next helse =>
    have hname : lowerCase (atName t) ∉ ["if", "elseif", "else"] := by simp_all
    exact atRule_rereadable h hts (eq_of_beq hkeyword) hname hkept
  · next hkeyword =>
    exact ruleset_rereadable h hts hblank (by simpa using hkeyword) hkept
termination_by (ts.length, 1)

theorem atRule_rereadable {keyword : Token} {ts r : List Token} {n : Node}
    (h : plain (atRule finish keyword ts) = .ok (n, r)) (hts : Contiguous (keyword :: ts))
    (hkeyword : keyword.kind = .atKeyword)
    (hname : lowerCase (atName keyword) ∉ ["if", "elseif", "else"])
    (hkept : Throughout IsKept n) : Throughout Rereadable n ∧ r <:+ keyword :: ts := by
  rw [plain_atRule] at h
  rcases hp : (parameters ts).2.1 with _ | ⟨t, r₀⟩
  · rw [hp] at h
    cases h
  have hts' := hts.suffix (List.suffix_cons keyword ts)
  have hparams (hfirm : IsFirm (joinTokens (parameters ts).1)) := hts'.exists_isParams hp hfirm
  have hrest : r₀ <:+ ts := ⟨(parameters ts).1 ++ [t], by simp [← (parameters_sound hp).1]⟩
  have hrest' : r₀ <:+ keyword :: ts := hrest.trans (List.suffix_cons keyword ts)
  have hlt : r₀.length < ts.length := by
    have := (parameters ts).2.2
    rw [hp, List.length_cons] at this
    omega
  have hfits : Terminal.Fits ⟨.atKeyword, "@" ++ atName keyword⟩ [] := by
    have hfits := hts.fits List.mem_cons_self
    rw [atName_append hfits hkeyword, ← hkeyword]
    exact hfits
  rw [hp] at h
  dsimp only at h
  split at h
  · cases h
    have hnode : Rereadable (.atRule (atName keyword) (joinTokens (parameters ts).1) none none) :=
      ⟨hfits, hname, hparams (hkept _ .here).2, by simp, by simp⟩
    exact ⟨throughout_iff.2 ⟨hnode, by simp [Node.children]⟩, hrest'⟩
  split at h
  · cases h
  split at h
  · next hdescriptors =>
    obtain ⟨⟨ds, r₁⟩, hds, hok⟩ := bind_eq_ok_iff.1 h
    cases hok
    obtain ⟨hdeclarations, hr⟩ :=
      declarations_rereadable hds (hts'.suffix hrest) (throughout_iff.1 hkept).2
    have hnode : Rereadable (.atRule (atName keyword) (joinTokens (parameters ts).1) none
        (some ds)) :=
      ⟨hfits, hname, hparams (hkept _ .here).2, fun _ => by simpa using hdescriptors, by simp⟩
    exact ⟨throughout_iff.2 ⟨hnode, hdeclarations⟩, hr.trans hrest'⟩
  · next hgroup =>
    obtain ⟨⟨body, r₁⟩, hbody, h⟩ := bind_eq_ok_iff.1 h
    obtain ⟨r₂, hafter, hok⟩ := bind_eq_ok_iff.1 h
    cases hok
    obtain ⟨hrules, hr⟩ := rules_rereadable hbody (hts'.suffix hrest) (throughout_iff.1 hkept).2
    have hnode : Rereadable (.atRule (atName keyword) (joinTokens (parameters ts).1) (some body)
        none) :=
      ⟨hfits, hname, hparams (hkept _ .here).2, by simp, fun _ => by simpa using hgroup⟩
    exact ⟨throughout_iff.2 ⟨hnode, hrules⟩,
      (suffix_of_after hafter).trans (hr.trans hrest')⟩
termination_by (ts.length, 0)

end

/-! ### Sources -/

/-- A text without comments. -/
def IsClean (text : String) : Prop :=
  ∃ xs, Lexed text.toList xs

theorem rereadable_of_parse {text : String} {body : List Node} (hclean : IsClean text)
    (h : parse text = .ok (.stylesheet body)) (hkept : ∀ n ∈ body, Throughout IsKept n) :
    ∀ n ∈ body, Throughout Rereadable n := by
  obtain ⟨xs, hlexed⟩ := hclean
  obtain ⟨s, hscan, hterminals⟩ := hlexed.scanFrom 0 .start
  have hscan : scan text = .ok s := hscan
  have hts : Contiguous s.tokens := by
    rw [Contiguous, hterminals]
    exact hlexed.scans.2
  rw [parse, hscan] at h
  dsimp only at h
  rcases hr : rules s.finish false s.tokens with e | ⟨body', r⟩
  · rw [hr] at h
    cases h
  · rw [hr] at h
    cases h
    exact (rules_rereadable (r := r.1) (congrArg plain hr) hts hkept).1

/-- The compact text of a source, if it is read and printed. -/
def compact? (source : String) : Option String :=
  (parse source).toOption.bind fun tree => (printTree tree).toOption

theorem compact?_of_parse {source text : String} {tree : Node} (h : parse source = .ok tree)
    (hprint : printTree tree = .ok text) : compact? source = some text := by
  rw [compact?, h]
  change (printTree tree).toOption = some text
  rw [hprint]
  rfl

/-- The compact text of a source without conditions and values of the run time is a fixed point, if
nothing is joined in it and the stylesheet of the source is also that of a text without comments.
From the compact text this stylesheet is read again. -/
theorem compact_fixed {source clean : String} {tree : Node} (h : parse source = .ok tree)
    (hstatic : Throughout IsStatic tree) (hapart : Throughout StandsApart tree)
    (hclean : IsClean clean) (hsame : parse clean = .ok tree) :
    ∃ text, compact? source = some text ∧ parse text = .ok tree ∧ compact? text = some text := by
  obtain ⟨body, rfl, hbody⟩ := regular_of_parse h
  have hkept : Throughout IsKept (.stylesheet body) := fun n hn => ⟨hstatic n hn, hapart n hn⟩
  have hrereadable := rereadable_of_parse hclean hsame (throughout_iff.1 hkept).2
  obtain ⟨text, hprint, hparse⟩ := parse_of_rereadable hbody hrereadable
  exact ⟨text, compact?_of_parse h hprint, hparse, compact?_of_parse hparse hprint⟩

/-- What is read from `a / *b /**/{c:url(d e)}`, with or without the comment. -/
def starredAddress : Node :=
  .stylesheet [.ruleset ["a / *b"]
    [.declaration "c" [.function "url" [.literal "d", .literal "e"]] false]]

theorem parse_commented : parse "a / *b /**/{c:url(d e)}" = .ok starredAddress := by
  with_unfolding_all rfl

theorem parse_uncommented : parse "a / *b{c:url(d e)}" = .ok starredAddress := by
  with_unfolding_all rfl

theorem isStatic_starredAddress : Throughout IsStatic starredAddress := by
  have hliteral (s : String) : Throughout IsStatic (.literal s) :=
    throughout_iff.2 ⟨by simp [IsStatic, Node.kind], by simp [Node.children]⟩
  have hfunction : Throughout IsStatic (.function "url" [.literal "d", .literal "e"]) :=
    throughout_iff.2 ⟨by decide, by simp [Node.children, hliteral]⟩
  refine throughout_iff.2 ⟨by decide, List.forall_mem_singleton.2 ?_⟩
  refine throughout_iff.2 ⟨by decide, List.forall_mem_singleton.2 ?_⟩
  exact throughout_iff.2 ⟨by decide, List.forall_mem_singleton.2 hfunction⟩

theorem isFirm_slash_star : IsFirm "a / *b" := by
  let xs : List Terminal := [⟨.word, "a"⟩, .space, .symbol '/', .space, ⟨.word, "*b"⟩]
  have hscans : Scans xs [] := by decide +kernel
  refine ⟨xs, by decide, fun b hb => scans_of_delimited hscans (by decide) ?_ hb⟩
  simp [xs]

theorem standsApart_starredAddress : Throughout StandsApart starredAddress := by
  have hliteral (s : String) : Throughout StandsApart (.literal s) :=
    throughout_iff.2 ⟨trivial, by simp [Node.children]⟩
  have hfunction : Throughout StandsApart (.function "url" [.literal "d", .literal "e"]) := by
    refine throughout_iff.2 ⟨⟨?_, by decide +kernel⟩, by simp [Node.children, hliteral]⟩
    simp [Parted]
  refine throughout_iff.2 ⟨trivial, List.forall_mem_singleton.2 ?_⟩
  refine throughout_iff.2
    ⟨List.forall_mem_singleton.2 isFirm_slash_star, List.forall_mem_singleton.2 ?_⟩
  exact throughout_iff.2 ⟨.singleton _, List.forall_mem_singleton.2 hfunction⟩

theorem isClean_uncommented : IsClean "a / *b{c:url(d e)}" := by
  let xs : List Terminal := [⟨.word, "a"⟩, .space, .symbol '/', .space, ⟨.word, "*b"⟩,
    .symbol '{', ⟨.word, "c"⟩, .symbol ':', .addressOpener, ⟨.word, "d"⟩, .space, ⟨.word, "e"⟩,
    .symbol ')', .symbol '}']
  have hscans : Scans xs [] := by decide +kernel
  have hlexed := hscans.lexed .nil
  simp only [List.append_nil] at hlexed
  exact ⟨xs, hlexed⟩

/-- The slash and the star of the selector keep the space between them, and so do the two words that
are not an address. -/
theorem compact_fixed_starredAddress :
    parse "a / *b /**/{c:url(d e)}" = .ok starredAddress ∧
      Throughout IsStatic starredAddress ∧ Throughout StandsApart starredAddress ∧
      IsClean "a / *b{c:url(d e)}" ∧ parse "a / *b{c:url(d e)}" = .ok starredAddress ∧
      ∃ text, compact? "a / *b /**/{c:url(d e)}" = some text ∧
        parse text = .ok starredAddress ∧ compact? text = some text :=
  ⟨parse_commented, isStatic_starredAddress, standsApart_starredAddress, isClean_uncommented,
    parse_uncommented, compact_fixed parse_commented isStatic_starredAddress
      standsApart_starredAddress isClean_uncommented parse_uncommented⟩

/-- A comment between the words of a selector leaves the blanks on both its sides. They are two
spaces of the compact text, and one when it is read again. -/
theorem compact_comment :
    compact? "a /**/ b{}" = some "a  b{}" ∧
      compact? "a  b{}" = some "a b{}" :=
  ⟨by decide +kernel, by decide +kernel⟩

/-- Without the blank between them, a slash and a star open a comment that is not closed. -/
example : compact? "a{b:/ *c}" = some "a{b:/*c}" ∧ compact? "a{b:/*c}" = none :=
  ⟨by decide +kernel, by decide +kernel⟩

end ConditionalStyle.Assembly
