import ConditionalStyle.Proofs.Expression.Splicing
import ConditionalStyle.Proofs.Expression.Sum
import ConditionalStyle.Proofs.Text.Ascii
import ConditionalStyle.Stylesheet.Node

/-!
# Dotted paths

A path is a name and the members it leads through. With a text before and a text after it, a path
stands for a sum, whose value is the text of the three put together.

## Main definitions

* `IsIdentifier`, `IsPath`: names, and names joined by points.
* `pathTree`, `affixedTree`: the trees of a path alone and between two texts.

## Main statements

* `parse_path`, `parse_dotPathExpression`: the trees that are read.
* `eval_affixedTree`: the text of a path between two texts.
-/

namespace ConditionalStyle.Expression

open Text

/-- A name that is no keyword. -/
structure IsIdentifier (s : String) : Prop where
  spelled : ∃ c cs, s.toList = c :: cs ∧ isNameStart c = true ∧ ∀ d ∈ cs, isNamePart d = true
  notKeyword : s ∉ keywords

/-- Names joined by points. -/
def IsPath (s : String) : Prop :=
  ∃ first rest, (∀ n ∈ first :: rest, IsIdentifier n) ∧ s = ".".intercalate (first :: rest)

/-! ### The terminals of a path -/

theorem lt_of_isNameStart {c : Char} (h : isNameStart c = true) : c.toNat < 128 := by
  simp only [isNameStart, Bool.or_eq_true, beq_iff_eq] at h
  rcases h with (h | rfl) | rfl
  · exact lt_of_isAsciiLetter h
  · decide
  · decide

/-- A character that starts a name starts nothing else. -/
theorem lexeme?_of_isNameStart {c : Char} (h : isNameStart c = true) (cs : List Char) :
    lexeme? (c :: cs) = (nameLength? (c :: cs)).map (Lexeme.name, ·) := by
  have hclass := of_ascii (p := fun c => !isNameStart c ||
    (!isBlank c && !isDigit c && c != '"' &&
      !(singleOperators ++ pairOperators.map (·.1)).contains c))
    (by decide +kernel) (lt_of_isNameStart h)
  simp only [h, Bool.not_true, Bool.false_or, Bool.and_eq_true, Bool.not_eq_true',
    bne_iff_ne] at hclass
  obtain ⟨⟨⟨hblank, hdigit⟩, hquote⟩, hoperator⟩ := hclass
  have hblanks : blanksLength? (c :: cs) = none := by
    rw [blanksLength?, runLength_of_ends (ends_cons hblank)]
  have hnumber : numberLength? (c :: cs) = none := by
    rw [numberLength?, runLength_of_ends (ends_cons hdigit)]
  have hsymbol : operatorLength? (c :: cs) = none := by
    simp only [singleOperators, pairOperators, List.map_cons, List.map_nil, List.cons_append,
      List.nil_append, List.contains_eq_mem, List.mem_cons, List.not_mem_nil, or_false,
      decide_eq_false_iff_not, not_or] at hoperator
    rcases cs with _ | ⟨d, cs⟩ <;> simp [operatorLength?, singleOperators, pairOperators, hoperator]
  rw [lexeme?, hblanks, quotedLength?_of_ne hquote, hnumber, hsymbol]
  rfl

/-- The characters of a word, up to something that does not go on with it. -/
theorem lexeme?_word {s : String} {b : List Char}
    (h : ∃ c cs, s.toList = c :: cs ∧ isNameStart c = true ∧ ∀ d ∈ cs, isNamePart d = true)
    (hb : Ends isNamePart b) : lexeme? (s.toList ++ b) = some (.name, s.toList.length) := by
  obtain ⟨c, cs, hcs, hc, hpart⟩ := h
  rw [hcs, List.cons_append, lexeme?_of_isNameStart hc, nameLength?, if_pos hc,
    runLength_append_of_all hpart hb]
  simp only [Option.map_some, List.length_cons, Nat.add_comm]

/-- A text that is the first lexeme of a longer one gives the first terminal. -/
theorem lexed_of_lexeme? {s : String} {l : Lexeme} {b : List Char} {us : List Terminal}
    (h : lexeme? (s.toList ++ b) = some (l, s.toList.length)) (hs : Lexed b us) :
    Lexed (s.toList ++ b) (((l.kind? s).map (⟨·, s⟩)).toList ++ us) := by
  have hrest : Lexed ((s.toList ++ b).drop s.toList.length) us := by rwa [List.drop_left]
  have hstep := Lexed.step h hrest
  rwa [List.take_left, Lexeme.terminals, String.ofList_toList] at hstep

theorem lexed_identifier {s : String} (h : IsIdentifier s) {b : List Char} {us : List Terminal}
    (hb : Ends isNamePart b) (hs : Lexed b us) : Lexed (s.toList ++ b) (⟨.name, s⟩ :: us) := by
  have hstep := lexed_of_lexeme? (lexeme?_word h.spelled hb) hs
  rwa [Lexeme.kind?, if_neg (by simpa using h.notKeyword)] at hstep

/-- The terminals of a path. -/
def pathTerminals (first : String) (rest : List String) : List Terminal :=
  ⟨.name, first⟩ :: rest.flatMap fun n => [.operator ".", ⟨.name, n⟩]

theorem lexed_path {first : String} {rest : List String} (h : ∀ n ∈ first :: rest, IsIdentifier n)
    {b : List Char} {us : List Terminal} (hb : Ends isNamePart b) (hs : Lexed b us) :
    Lexed ((".".intercalate (first :: rest)).toList ++ b) (pathTerminals first rest ++ us) := by
  induction rest generalizing first with
  | nil =>
    rw [String.intercalate_singleton]
    exact lexed_identifier (h first (by simp)) hb hs
  | cons n rest ih =>
    have hpoint := solid_operator (c := '.') (by simp)
      (ih fun m hm => h m (List.mem_cons_of_mem first hm))
    rw [String.intercalate_cons_cons, String.toList_append, String.toList_append, List.append_assoc,
      List.append_assoc]
    exact lexed_identifier (h first (by simp)) (ends_cons (by decide)) hpoint

/-! ### The tree of a path -/

/-- The tree of a path. -/
def pathTree (first : String) (rest : List String) : Tree :=
  rest.foldl .member (.name first)

theorem derives_members {ts : List Terminal} {e : Tree} (h : Derives .access ts e)
    (rest : List String) :
    Derives .access (ts ++ rest.flatMap fun n => [.operator ".", ⟨.name, n⟩])
      (rest.foldl .member e) := by
  induction rest generalizing ts e with
  | nil => simpa using h
  | cons n rest ih => simpa using ih (h.member n)

theorem allFit_pathTerminals (limit : Nat) (first : String) (rest : List String) :
    AllFit limit (pathTerminals first rest) := by
  induction rest generalizing first with
  | nil => simp [pathTerminals]
  | cons n rest ih => simpa [pathTerminals] using ih n

theorem derives_path (first : String) (rest : List String) :
    Derives .unary (pathTerminals first rest) (pathTree first rest) :=
  .ofAccess (derives_members (.ofPrimary (.name first)) rest)

theorem parse_path {first : String} {rest : List String} (h : ∀ n ∈ first :: rest, IsIdentifier n) :
    parse (".".intercalate (first :: rest)) = .ok (pathTree first rest) := by
  have hlexed := lexed_path h (ends_nil _) .nil
  rw [List.append_nil, List.append_nil] at hlexed
  exact parse_eq_ok_iff_reads.2
    ⟨_, hlexed, .conditional_of_additive (.ofUnary (derives_path first rest)),
      allFit_pathTerminals _ first rest⟩

/-! ### A path between two texts -/

/-- The operand that an affix adds to a sum. -/
def affixTrees : Option String → List Tree
  | none => []
  | some s => if s.isEmpty then [] else [.string s]

/-- The tree of a path with the tree `t` between two texts. -/
def affixedTree (t : Tree) (after before : Option String) : Tree :=
  match affixTrees before ++ t :: affixTrees after with
  | [] => t
  | first :: rest => Parser.chain first rest

/-- An affix stands for nothing or for a literal. -/
theorem affix_cases (x : Option String) :
    (Stylesheet.affix x = [] ∧ affixTrees x = [] ∧ x.getD "" = "") ∨
      ∃ s, Stylesheet.affix x = [quote s] ∧ affixTrees x = [.string s] ∧ x.getD "" = s := by
  rcases x with _ | s
  · exact .inl ⟨rfl, rfl, rfl⟩
  by_cases hs : s.isEmpty = true
  · refine .inl ⟨by simp [Stylesheet.affix, hs], by simp [affixTrees, hs], ?_⟩
    simpa using hs
  · exact .inr ⟨s, by simp [Stylesheet.affix, hs], by simp [affixTrees, hs], rfl⟩

theorem lexed_pathAfter {first : String} {rest : List String}
    (h : ∀ n ∈ first :: rest, IsIdentifier n) (after : Option String) :
    ∃ ts, Lexed (" + ".intercalate
        (".".intercalate (first :: rest) :: Stylesheet.affix after)).toList ts ∧
      DerivesSum ts (pathTree first rest :: affixTrees after) ∧ AllFit Decimal.maxDigits ts := by
  have hfit := allFit_pathTerminals Decimal.maxDigits first rest
  rcases affix_cases after with ⟨haffix, htrees, -⟩ | ⟨s, haffix, htrees, -⟩
  · rw [haffix, htrees, String.intercalate_singleton, ← List.append_nil (String.toList _)]
    exact ⟨_, lexed_path h (ends_nil _) .nil, .single (by simpa using derives_path first rest),
      by simp [hfit]⟩
  · rw [haffix, htrees, String.intercalate_cons_cons, String.intercalate_singleton,
      String.toList_append, String.toList_append, List.append_assoc]
    exact ⟨_, lexed_path h (ends_cons (by decide)) (solid_plus (solid_quote s).lexed),
      .plus (derives_path first rest) (.single (.unary_of_primary (derives_quote s))),
      by simp [hfit]⟩

theorem parse_dotPathExpression {first : String} {rest : List String}
    (h : ∀ n ∈ first :: rest, IsIdentifier n) (after before : Option String) :
    parse (Stylesheet.dotPathExpression (".".intercalate (first :: rest)) after before) =
      .ok (affixedTree (pathTree first rest) after before) := by
  obtain ⟨ts, hlexed, hsum, hfit⟩ := lexed_pathAfter h after
  rw [parse_eq_ok_iff_reads, Stylesheet.dotPathExpression, affixedTree]
  rcases affix_cases before with ⟨haffix, htrees, -⟩ | ⟨s, haffix, htrees, -⟩
  · rw [haffix, htrees]
    exact ⟨ts, hlexed, hsum.additive.conditional_of_additive, hfit⟩
  · rw [haffix, htrees, List.singleton_append, String.intercalate_cons_cons, String.toList_append,
      String.toList_append, List.append_assoc]
    have hplus := DerivesSum.plus (.unary_of_primary (derives_quote s)) hsum
    exact ⟨_, solid_quote s (solid_plus hlexed), hplus.additive.conditional_of_additive,
      by simp [hfit]⟩

/-! ### The value of a path between two texts -/

variable (names : Namespace)

/-- A path between two texts has the text of its value between the two. -/
theorem evalText_affixedTree (t : Tree) (after before : Option String) :
    evalText names (affixedTree t after before) =
      (fun s => before.getD "" ++ s ++ after.getD "") <$> evalText names t := by
  rw [affixedTree]
  rcases affix_cases before with ⟨-, hb, hb'⟩ | ⟨b, -, hb, hb'⟩ <;>
    rcases affix_cases after with ⟨-, ha, ha'⟩ | ⟨a, -, ha, ha'⟩ <;>
    simp only [hb, ha, hb', ha', List.nil_append, List.cons_append, evalText, eval_chain,
      evalChain, eval, sum_text_left, sum_text_right, toText_text, bind_assoc, pure_bind,
      map_eq_pure_bind, String.empty_append, String.append_empty, bind_pure]

end ConditionalStyle.Expression
