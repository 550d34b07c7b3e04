import ConditionalStyle.Proofs.Reading
import ConditionalStyle.Proofs.Stylesheet.Terminals

/-!
# The places of tokens

A source is cut into tokens and comments, and nothing is lost: every token has the text that stands
at its index, and between the tokens there are only comments. The scan keeps the line and the column
by counting on from lexeme to lexeme; they are those that are found by looking back to the last line
feed from the index of the token.

The cut ends early at the first comment that has no end and at the first quote that opens no string.

## Main definitions

* `markAt`: the line and the column of an index.
* `IsComment`, `Breaks`: complete comments, and what cannot be cut.
* `Reaches`: the scan gets from one index to another.
* `Accounts`: tokens that account for the whole source.

## Main statements

* `advance_take`: counting on and looking back give the same place.
* `start_cases`: what a text starts with.
* `accounts_or_breaks`: how a scan can end.
* `scan_accounts`: which sources are cut into tokens, and how.
-/

namespace ConditionalStyle.Stylesheet

open Text

variable {source cs a b : List Char} {p : Nat}

/-! ### Lines and columns -/

/-- The index of the last line feed before the given index. -/
def lastFeed? (source : List Char) (position : Nat) : Option Nat :=
  (List.range position).reverse.find? fun i => source[i]? == some '\n'

/-- The place of an index: its line is one more than the number of line feeds before it, and its
column is the distance from the last of them. -/
def markAt (source : List Char) (position : Nat) : Mark where
  line := 1 + (source.take position).count '\n'
  column := (lastFeed? source position).elim (position + 1) (position - ·)

theorem lastFeed?_succ (source : List Char) (p : Nat) : lastFeed? source (p + 1) =
    if source[p]? == some '\n' then some p else lastFeed? source p := by
  rw [lastFeed?, List.range_succ, List.reverse_append, List.reverse_singleton,
    List.singleton_append, List.find?_cons]
  split <;> simp_all [lastFeed?]

theorem lt_of_lastFeed? {i : Nat} (h : lastFeed? source p = some i) : i < p := by
  have hmem := List.mem_of_find?_eq_some h
  simpa using hmem

theorem step_markAt {c : Char} (hc : source[p]? = some c) :
    (markAt source p).step c = markAt source (p + 1) := by
  have hcount : (source.take (p + 1)).count '\n' =
      (source.take p).count '\n' + if c == '\n' then 1 else 0 := by
    rw [List.take_add_one, hc, List.count_append, Option.toList_some, List.count_singleton]
  rw [Mark.step, markAt, markAt, hcount, lastFeed?_succ, hc]
  by_cases hfeed : c = '\n'
  · simp [hfeed, Nat.add_assoc]
  · rcases hlast : lastFeed? source p with _ | i
    · simp [hfeed]
    · have hlt := lt_of_lastFeed? hlast
      simp only [beq_iff_eq, hfeed, ↓reduceIte, Option.some.injEq, Option.elim_some, Nat.add_zero,
        Mark.mk.injEq, true_and]
      omega

theorem Mark.advance_append (m : Mark) (a b : List Char) :
    m.advance (a ++ b) = (m.advance a).advance b :=
  List.foldl_append

/-- Counting on from the start gives the same place as looking back. -/
theorem advance_take (hp : p ≤ source.length) :
    Mark.start.advance (source.take p) = markAt source p := by
  induction p with
  | zero => rfl
  | succ p ih =>
    have hc : source[p]? = some source[p] := List.getElem?_eq_getElem hp
    rw [List.take_add_one, hc, Option.toList_some, Mark.advance_append, ih (Nat.le_of_lt hp)]
    exact step_markAt hc

example : markAt "a /*\n*/ b".toList 8 = ⟨2, 4⟩ := by decide

theorem take_of_drop (h : source.drop p = a ++ b) :
    source.take (p + a.length) = source.take p ++ a := by
  rw [List.take_add, h, List.take_left]

theorem drop_of_drop (h : source.drop p = a ++ b) : source.drop (p + a.length) = b := by
  rw [← List.drop_drop, h, List.drop_left]

theorem le_of_drop (hp : p ≤ source.length) (h : source.drop p = a ++ b) :
    p + a.length ≤ source.length := by
  have hlength := congrArg List.length h
  rw [List.length_drop, List.length_append] at hlength
  omega

theorem advance_markAt (hp : p ≤ source.length) (h : source.drop p = a ++ b) :
    (markAt source p).advance a = markAt source (p + a.length) := by
  rw [← advance_take hp, ← advance_take (le_of_drop hp h), take_of_drop h,
    Mark.advance_append]

/-! ### Comments -/

/-- A complete comment: it ends with the first `*/` after its first two characters. -/
def IsComment (cs : List Char) : Prop :=
  ∃ inner, cs = '/' :: '*' :: (inner ++ ['*', '/']) ∧ ¬['*', '/'] <:+: inner ++ ['*']

theorem IsComment.length_pos (h : IsComment cs) : 0 < cs.length := by
  obtain ⟨inner, rfl, -⟩ := h
  exact Nat.succ_pos _

/-- Comments in a row. -/
def AreComments (cs : List Char) : Prop :=
  ∃ comments : List (List Char), (∀ c ∈ comments, IsComment c) ∧ cs = comments.flatten

theorem areComments_nil : AreComments [] :=
  ⟨[], by simp, rfl⟩

theorem AreComments.cons (ha : IsComment a) (hb : AreComments b) : AreComments (a ++ b) := by
  obtain ⟨comments, hcomments, rfl⟩ := hb
  exact ⟨a :: comments, List.forall_mem_cons.2 ⟨ha, hcomments⟩, rfl⟩

theorem infix_end_cons_cons {c d : Char} {cs : List Char} :
    ['*', '/'] <:+: c :: d :: cs ↔ (c = '*' ∧ d = '/') ∨ ['*', '/'] <:+: d :: cs := by
  rw [List.infix_cons_iff]
  simp [List.cons_prefix_cons, eq_comm]

theorem beforeCommentEnd?_eq_none_iff :
    beforeCommentEnd? cs = none ↔ ¬['*', '/'] <:+: cs := by
  fun_induction beforeCommentEnd? cs with
  | case1 => simp
  | case2 c => simp [List.infix_cons_iff]
  | case3 c d rest hc =>
    simp only [Bool.and_eq_true, beq_iff_eq] at hc
    simp [infix_end_cons_cons, hc]
  | case4 c d rest hc ih =>
    simp only [Bool.and_eq_true, beq_iff_eq] at hc
    rw [Option.map_eq_none_iff, ih, infix_end_cons_cons, or_iff_right hc]

theorem beforeCommentEnd?_eq_some_iff {n : Nat} :
    beforeCommentEnd? cs = some n ↔ ∃ inner rest, cs = inner ++ '*' :: '/' :: rest ∧
      ¬['*', '/'] <:+: inner ++ ['*'] ∧ n = inner.length := by
  constructor
  · intro h
    fun_induction beforeCommentEnd? cs generalizing n with
    | case1 => cases h
    | case2 => cases h
    | case3 c d rest hc =>
      cases h
      simp only [Bool.and_eq_true, beq_iff_eq] at hc
      exact ⟨[], rest, by rw [hc.1, hc.2]; rfl, by simp [List.infix_cons_iff], rfl⟩
    | case4 c d rest hc ih =>
      obtain ⟨m, hm, rfl⟩ := Option.map_eq_some_iff.1 h
      obtain ⟨inner, rest', heq, hinner, rfl⟩ := ih hm
      refine ⟨c :: inner, rest', by rw [heq]; rfl, ?_, rfl⟩
      simp only [Bool.and_eq_true, beq_iff_eq] at hc
      -- the star and the slash are not the first two characters either
      rcases inner with _ | ⟨e, inner⟩
      · rw [List.cons_append, List.nil_append, infix_end_cons_cons, not_or]
        exact ⟨by simp, hinner⟩
      · rw [List.cons_append, List.cons_append, infix_end_cons_cons, not_or]
        rw [← (List.cons.inj heq).1]
        exact ⟨hc, by rwa [(List.cons.inj heq).1]⟩
  · rintro ⟨inner, rest, rfl, hinner, rfl⟩
    induction inner with
    | nil => simp [beforeCommentEnd?]
    | cons c inner ih =>
      obtain ⟨d, tail, htail⟩ : ∃ d tail, inner ++ ['*'] = d :: tail :=
        List.exists_cons_of_ne_nil (by simp)
      have hcons : inner ++ '*' :: '/' :: rest = d :: (tail ++ '/' :: rest) := by
        rw [← List.cons_append, ← htail, List.append_assoc]
        rfl
      rw [List.cons_append, htail, infix_end_cons_cons, not_or] at hinner
      have hd : ¬(c == '*' && d == '/') = true := by simpa using hinner.1
      rw [List.cons_append, hcons, beforeCommentEnd?, if_neg hd, ← hcons,
        ih (htail ▸ hinner.2)]
      rfl

theorem opensComment_eq_true_iff : opensComment cs = true ↔ ∃ r, cs = '/' :: '*' :: r := by
  constructor
  · intro h
    unfold opensComment at h
    split at h
    · exact ⟨_, rfl⟩
    · cases h
  · rintro ⟨r, rfl⟩
    rfl

theorem commentLength?_eq_some_iff {n : Nat} :
    commentLength? cs = some n ↔ ∃ a b, cs = a ++ b ∧ IsComment a ∧ n = a.length := by
  constructor
  · intro h
    rw [commentLength?] at h
    split at h
    case isFalse => cases h
    next hopens =>
    obtain ⟨m, hm, rfl⟩ := Option.map_eq_some_iff.1 h
    obtain ⟨inner, rest, hdrop, hinner, rfl⟩ := beforeCommentEnd?_eq_some_iff.1 hm
    obtain ⟨r, rfl⟩ := opensComment_eq_true_iff.1 hopens
    rw [List.drop_succ_cons, List.drop_succ_cons, List.drop_zero] at hdrop
    exact ⟨'/' :: '*' :: (inner ++ ['*', '/']), rest, by simp [hdrop], ⟨inner, rfl, hinner⟩,
      by simp⟩
  · rintro ⟨_, b, rfl, ⟨inner, rfl, hinner⟩, rfl⟩
    have hend : beforeCommentEnd? (inner ++ '*' :: '/' :: b) = some inner.length :=
      beforeCommentEnd?_eq_some_iff.2 ⟨inner, b, rfl, hinner, rfl⟩
    simp [commentLength?, opensComment, hend]

/-! ### What a text starts with -/

theorem lexeme?_eq_comment_iff {n : Nat} :
    lexeme? cs = some (.comment, n) ↔ commentLength? cs = some n := by
  simp [lexeme?, Option.or_eq_some_iff]

theorem symbolLength?_of_lexeme? {n : Nat} (h : lexeme? cs = some (.token .symbol, n)) :
    commentLength? cs = none ∧ symbolLength? cs = some n := by
  have hclasses : lexeme? cs = some (.token .symbol, n) →
      commentLength? cs = none ∧ symbolLength? cs = some n := by
    simp +contextual [lexeme?, Option.or_eq_some_iff]
  exact hclasses h

/-- A text that is not cut further: it starts with a comment that has no end, or with a quote that
opens no string. -/
inductive Breaks : List Char → SyntaxError.Cause → Prop
  | comment {r : List Char} (h : ¬['*', '/'] <:+: r) :
      Breaks ('/' :: '*' :: r) .unterminatedComment
  | quote {mark : Char} {r : List Char} (hmark : mark = '"' ∨ mark = '\'')
      (h : ¬∃ body rest, r = body ++ mark :: rest ∧ QuotedBody mark true body) :
      Breaks (mark :: r) (.unexpectedCharacter mark)

theorem le_of_runLength? {q : Char → Bool} {n : Nat} (h : runLength? q cs = some n) :
    n ≤ cs.length := by
  rw [← (runLength?_eq_some_iff.1 h).1]
  exact runLength_le q cs

theorem le_of_atKeywordLength? {n : Nat} (h : atKeywordLength? cs = some n) : n ≤ cs.length := by
  unfold atKeywordLength? at h
  split at h
  case h_2 => cases h
  next c r =>
  split at h
  · cases h
    have := runLength_le isNamePart r
    simp only [List.length_cons]
    omega
  · cases h

theorem le_of_lexeme? {l : Lexeme} {n : Nat} (h : lexeme? cs = some (l, n)) : n ≤ cs.length := by
  rcases l with _ | kind
  · obtain ⟨a, b, rfl, -, rfl⟩ := commentLength?_eq_some_iff.1 (lexeme?_eq_comment_iff.1 h)
    simp
  cases kind with
  | blank => exact le_of_runLength? (lexeme?_eq_blank_iff.1 h)
  | url =>
    obtain ⟨before, address, after, rest, rfl, -, -, -, -, rfl⟩ :=
      urlLength?_eq_some_iff.1 (lexeme?_eq_url_iff.1 h)
    simp only [List.length_cons, List.length_append]
    omega
  | string =>
    rcases lexeme?_eq_string_iff.1 h with h | h
    · exact quotedLength?_le h
    · exact quotedLength?_le h
  | atKeyword => exact le_of_atKeywordLength? (lexeme?_eq_atKeyword_iff.1 h)
  | function =>
    obtain ⟨name, rest, -, rfl, rfl⟩ :=
      functionLength?_eq_some_iff.1 (lexeme?_eq_function_iff.1 h).2
    simp
  | symbol =>
    have h := (symbolLength?_of_lexeme? h).2
    rcases cs with _ | ⟨c, r⟩
    · cases h
    · rw [symbolLength?] at h
      split at h
      · cases h
        simp
      · cases h
  | word => exact le_of_runLength? (lexeme?_eq_word_iff.1 h).2.2
  | finish => simp [lexeme?, Option.or_eq_some_iff] at h

theorem breaks_of_opensComment (hopens : opensComment cs = true) (h : commentLength? cs = none) :
    Breaks cs .unterminatedComment := by
  rw [commentLength?, if_pos hopens, Option.map_eq_none_iff, beforeCommentEnd?_eq_none_iff] at h
  obtain ⟨r, rfl⟩ := opensComment_eq_true_iff.1 hopens
  exact .comment h

theorem quotedLength?_eq_none_iff {mark : Char} {r : List Char} (hmark : mark ≠ '\\') :
    quotedLength? mark true (mark :: r) = none ↔
      ¬∃ body rest, r = body ++ mark :: rest ∧ QuotedBody mark true body := by
  rw [quotedLength?, if_pos (beq_self_eq_true mark), Option.map_eq_none_iff,
    Option.eq_none_iff_forall_ne_some]
  constructor
  · rintro h ⟨body, rest, hr, hbody⟩
    exact h _ ((quotedRest?_eq_some_iff hmark).2 ⟨body, rest, hr, hbody, rfl⟩)
  · intro h n hn
    obtain ⟨body, rest, hr, hbody, -⟩ := (quotedRest?_eq_some_iff hmark).1 hn
    exact h ⟨body, rest, hr, hbody⟩

/-- Only a quote can start no lexeme at all: any other character is a blank, a symbol or part of a
word. -/
theorem breaks_of_lexeme? {c : Char} {r : List Char} (h : lexeme? (c :: r) = none) :
    Breaks (c :: r) (.unexpectedCharacter c) := by
  simp only [lexeme?, Option.orElse_eq_orElse, Option.orElse_eq_or, Option.or_eq_none_iff,
    Option.map_eq_none_iff] at h
  obtain ⟨-, hblank, -, hquote, hquote', -, -, hsymbol, hword⟩ := h
  have hends {q : Char → Bool} (hrun : runLength? q (c :: r) = none) : q c = false := by
    rw [← Bool.not_eq_true]
    intro hc
    rw [runLength?, runLength, List.takeWhile_cons_of_pos hc, List.length_cons] at hrun
    cases hrun
  have hsymbols : c ∉ symbols := by
    intro hc
    rw [symbolLength?, if_pos (List.contains_iff_mem.2 hc)] at hsymbol
    cases hsymbol
  have hmark : c = '"' ∨ c = '\'' := by
    refine Decidable.byContradiction fun hmark => ?_
    rw [not_or] at hmark
    have hpart := isWordPart_iff.2 ⟨hends hblank, hsymbols, hmark.1, hmark.2⟩
    rw [hends hword] at hpart
    cases hpart
  refine .quote hmark ?_
  rcases hmark with rfl | rfl
  · exact (quotedLength?_eq_none_iff (by decide)).1 hquote
  · exact (quotedLength?_eq_none_iff (by decide)).1 hquote'

/-- A text is empty, or it starts with a comment or a terminal, or it is not cut further. -/
theorem start_cases (cs : List Char) :
    cs = [] ∨ (∃ a b, cs = a ++ b ∧ IsComment a) ∨
      (∃ x b, cs = Terminal.chars x ++ b ∧ x.Fits b) ∨ ∃ cause, Breaks cs cause := by
  rcases cs with _ | ⟨c, r⟩
  · exact .inl rfl
  right
  rcases h : lexeme? (c :: r) with _ | ⟨l, n⟩
  · exact .inr (.inr ⟨_, breaks_of_lexeme? h⟩)
  rcases l with _ | kind
  · obtain ⟨a, b, heq, ha, -⟩ := commentLength?_eq_some_iff.1 (lexeme?_eq_comment_iff.1 h)
    exact .inl ⟨a, b, heq, ha⟩
  right
  by_cases hopens : kind = .symbol ∧ opensComment (c :: r) = true
  · obtain ⟨rfl, hopens⟩ := hopens
    exact .inr ⟨_, breaks_of_opensComment hopens (symbolLength?_of_lexeme? h).1⟩
  · refine .inl ⟨⟨kind, String.ofList ((c :: r).take n)⟩, (c :: r).drop n, ?_, ?_⟩
    · rw [Terminal.chars, String.toList_ofList, List.take_append_drop]
    · rw [Terminal.Fits, Terminal.chars, String.toList_ofList, List.take_append_drop,
        List.length_take_of_le (le_of_lexeme? h)]
      exact ⟨h, fun hkind => Bool.eq_false_iff.2 fun ho => hopens ⟨hkind, ho⟩⟩

/-! ### One step of the scan -/

theorem scanFrom_of_isComment (ha : IsComment a) (position : Nat) (mark : Mark) :
    scanFrom position mark (a ++ b) = scanFrom (position + a.length) (mark.advance a) b := by
  have hlength := commentLength?_eq_some_iff.2 ⟨a, b, rfl, ha, rfl⟩
  rw [scanFrom_of_lexeme? (lexeme?_eq_comment_iff.2 hlength) (by simp)]
  rcases scanFrom (position + a.length) (mark.advance a) b with e | s <;> rfl

theorem scanFrom_of_fits {x : Terminal} (hx : x.Fits b) (position : Nat) (mark : Mark) :
    scanFrom position mark (x.chars ++ b) =
      (scanFrom (position + x.chars.length) (mark.advance x.chars) b).map
        (Scanned.prepend (.token x.kind) x.chars position mark) :=
  scanFrom_of_lexeme? hx.1 (fun hkind => hx.2 (Lexeme.token.inj hkind)) position mark

theorem scanFrom_of_breaks {cause : SyntaxError.Cause} (h : Breaks cs cause) (position : Nat)
    (mark : Mark) : scanFrom position mark cs = .error ⟨cause, mark⟩ := by
  cases h with
  | @comment r h =>
    have hcomment : commentLength? ('/' :: '*' :: r) = none := by
      rw [commentLength?, if_pos (opensComment_eq_true_iff.2 ⟨r, rfl⟩), Option.map_eq_none_iff]
      exact beforeCommentEnd?_eq_none_iff.2 h
    have hlexeme : lexeme? ('/' :: '*' :: r) = some (.token .symbol, 1) := by
      rw [lexeme?, hcomment]
      rfl
    rw [scanFrom]
    split
    · next h' => rw [hlexeme] at h'; cases h'
    · next l n h' =>
      rw [hlexeme] at h'
      cases h'
      rfl
  | @quote mark r hmark h =>
    have hlexeme : lexeme? (mark :: r) = none := by
      rcases hmark with rfl | rfl
      · rw [lexeme?, (quotedLength?_eq_none_iff (by decide)).2 h]
        rfl
      · rw [lexeme?, (quotedLength?_eq_none_iff (by decide)).2 h]
        rfl
    rw [scanFrom]
    split
    · rfl
    · next h' => rw [hlexeme] at h'; cases h'

/-! ### The run of the scan -/

/-- A lexeme stands from one index to another. -/
inductive Cuts (source : List Char) (p : Nat) : Nat → Prop
  | comment {a b : List Char} (h : source.drop p = a ++ b) (ha : IsComment a) :
      Cuts source p (p + a.length)
  | token {x : Terminal} {b : List Char} (h : source.drop p = x.chars ++ b) (hx : x.Fits b) :
      Cuts source p (p + x.chars.length)

/-- The scan gets from one index to another. -/
inductive Reaches (source : List Char) : Nat → Nat → Prop
  | refl {p : Nat} : Reaches source p p
  | head {p q r : Nat} (h : Cuts source p q) (hs : Reaches source q r) : Reaches source p r

/-- Scans a source from an index on. -/
def scanAt (source : List Char) (p : Nat) : Except SyntaxError Scanned :=
  scanFrom p (markAt source p) (source.drop p)

theorem scan_eq_scanAt (source : String) : scan source = scanAt source.toList 0 :=
  rfl

theorem scanAt_of_isComment (hp : p ≤ source.length) (h : source.drop p = a ++ b)
    (ha : IsComment a) : scanAt source p = scanAt source (p + a.length) := by
  rw [scanAt, h, scanFrom_of_isComment ha, advance_markAt hp h, scanAt, drop_of_drop h]

theorem scanAt_of_fits {x : Terminal} (hp : p ≤ source.length) (h : source.drop p = x.chars ++ b)
    (hx : x.Fits b) : scanAt source p = (scanAt source (p + x.chars.length)).map
      fun s => ⟨⟨x.kind, x.text, p, markAt source p⟩ :: s.tokens, s.finish⟩ := by
  have hprepend : Scanned.prepend (.token x.kind) x.chars p (markAt source p) =
      fun s => ⟨⟨x.kind, x.text, p, markAt source p⟩ :: s.tokens, s.finish⟩ := by
    funext s
    rw [Scanned.prepend, Terminal.chars, String.ofList_toList]
  rw [scanAt, h, scanFrom_of_fits hx, advance_markAt hp h, scanAt, drop_of_drop h, hprepend]

theorem Cuts.le {q : Nat} (h : Cuts source p q) (hp : p ≤ source.length) : q ≤ source.length := by
  cases h with
  | comment h _ => exact le_of_drop hp h
  | token h _ => exact le_of_drop hp h

theorem Cuts.scanAt_error {q : Nat} {e : SyntaxError} (h : Cuts source p q)
    (hp : p ≤ source.length) (he : scanAt source q = .error e) : scanAt source p = .error e := by
  cases h with
  | comment h ha => rw [scanAt_of_isComment hp h ha, he]
  | token h hx => rw [scanAt_of_fits hp h hx, he, Except.map]

theorem Reaches.scanAt_error {q : Nat} {e : SyntaxError} (h : Reaches source p q)
    (hp : p ≤ source.length) (he : scanAt source q = .error e) : scanAt source p = .error e := by
  induction h with
  | refl => exact he
  | head h _ ih => exact h.scanAt_error hp (ih (h.le hp) he)

theorem Reaches.scanAt_breaks {q : Nat} {cause : SyntaxError.Cause} (h : Reaches source p q)
    (hp : p ≤ source.length) (hbreaks : Breaks (source.drop q) cause) :
    scanAt source p = .error ⟨cause, markAt source q⟩ :=
  h.scanAt_error hp (scanFrom_of_breaks hbreaks q _)

/-! ### Tokens that account for the source -/

/-- The index after a token. -/
def Token.stop (t : Token) : Nat :=
  t.position + t.text.length

/-- The text between two indices. -/
def between (source : List Char) (p q : Nat) : List Char :=
  (source.drop p).take (q - p)

/-- Two indices with nothing but comments between them. -/
def IsGap (source : List Char) (g : Nat × Nat) : Prop :=
  g.1 ≤ g.2 ∧ AreComments (between source g.1 g.2)

/-- The stretches from an index to the first token, from each token to the next, and from the last
one to the end. -/
def Scanned.gaps (s : Scanned) (start : Nat) : List (Nat × Nat) :=
  (start :: s.tokens.map Token.stop).zip (s.all.map Token.position)

/-- The tokens account for the source from an index on: they stand in it one after another, and all
that is between them is comments. -/
structure Accounts (source : List Char) (start : Nat) (s : Scanned) : Prop where
  finish : s.finish = ⟨.finish, "", source.length, markAt source source.length⟩
  increasing : (s.all.map Token.position).Pairwise (· < ·)
  text : ∀ t ∈ s.all, t.text.toList <+: source.drop t.position
  fits : ∀ t ∈ s.tokens, t.terminal.Fits (source.drop t.stop)
  gaps : ∀ g ∈ s.gaps start, IsGap source g
  mark : ∀ t ∈ s.all, t.mark = markAt source t.position

theorem isGap_self (source : List Char) (p : Nat) : IsGap source (p, p) := by
  refine ⟨Nat.le_refl p, ?_⟩
  rw [between, Nat.sub_self, List.take_zero]
  exact areComments_nil

theorem between_of_drop {q : Nat} (h : source.drop p = a ++ b) (hq : p + a.length ≤ q) :
    between source p q = a ++ between source (p + a.length) q := by
  have hlength : q - p = a.length + (q - (p + a.length)) := by omega
  rw [between, h, hlength, List.take_length_add_append, between, drop_of_drop h]

/-- The comments before the first token reach further back when another one stands before them. -/
theorem gaps_of_isComment {s : Scanned} (h : source.drop p = a ++ b) (ha : IsComment a)
    (hs : ∀ g ∈ s.gaps (p + a.length), IsGap source g) : ∀ g ∈ s.gaps p, IsGap source g := by
  rcases hall : s.all with _ | ⟨t, ts⟩
  · simp [Scanned.gaps, hall]
  · simp only [Scanned.gaps, hall, List.map_cons, List.zip_cons_cons, List.forall_mem_cons] at hs ⊢
    obtain ⟨⟨hle, hcomments⟩, hs⟩ := hs
    refine ⟨⟨Nat.le_trans (Nat.le_add_right p _) hle, ?_⟩, hs⟩
    rw [between_of_drop h hle]
    exact .cons ha hcomments

theorem Accounts.comment {s : Scanned} (h : source.drop p = a ++ b) (ha : IsComment a)
    (hs : Accounts source (p + a.length) s) : Accounts source p s :=
  { hs with gaps := gaps_of_isComment h ha hs.gaps }

theorem Accounts.nil (source : List Char) : Accounts source source.length
    ⟨[], ⟨.finish, "", source.length, markAt source source.length⟩⟩ where
  finish := rfl
  increasing := List.pairwise_singleton _ _
  text := by simp [Scanned.all]
  fits := by simp
  gaps := by simp [Scanned.gaps, Scanned.all, isGap_self]
  mark := by simp [Scanned.all]

/-- Every token stands after the place from which they account for the source. -/
theorem Accounts.le_position {s : Scanned} (hs : Accounts source p s) {t : Token}
    (ht : t ∈ s.all) : p ≤ t.position := by
  rcases hall : s.all with _ | ⟨t₀, ts⟩
  · rw [hall] at ht
    cases ht
  · have hgap : p ≤ t₀.position := (hs.gaps (p, t₀.position) (by simp [Scanned.gaps, hall])).1
    have hincreasing := hs.increasing
    rw [hall, List.map_cons, List.pairwise_cons] at hincreasing
    rcases List.mem_cons.1 (hall ▸ ht) with rfl | ht
    · exact hgap
    · exact Nat.le_of_lt (Nat.lt_of_le_of_lt hgap
        (hincreasing.1 _ (List.mem_map_of_mem ht)))

theorem Accounts.token {x : Terminal} {s : Scanned} (h : source.drop p = x.chars ++ b)
    (hx : x.Fits b) (hs : Accounts source (p + x.chars.length) s) :
    Accounts source p ⟨⟨x.kind, x.text, p, markAt source p⟩ :: s.tokens, s.finish⟩ := by
  have hpos := pos_of_lexeme? hx.1
  have hstop : Token.stop ⟨x.kind, x.text, p, markAt source p⟩ = p + x.chars.length := by
    rw [Token.stop, Terminal.chars, String.length_toList]
  constructor
  case finish => exact hs.finish
  case increasing =>
    refine List.pairwise_cons.2 ⟨?_, hs.increasing⟩
    intro q hq
    obtain ⟨t, ht, rfl⟩ := List.mem_map.1 hq
    exact Nat.lt_of_lt_of_le (Nat.lt_add_of_pos_right hpos) (hs.le_position ht)
  case text => exact List.forall_mem_cons.2 ⟨⟨b, h.symm⟩, hs.text⟩
  case fits =>
    refine List.forall_mem_cons.2 ⟨?_, hs.fits⟩
    rw [hstop, drop_of_drop h]
    exact hx
  case gaps =>
    have hgaps : Scanned.gaps ⟨⟨x.kind, x.text, p, markAt source p⟩ :: s.tokens, s.finish⟩ p =
        (p, p) :: s.gaps (p + x.chars.length) := by
      rw [← hstop]
      rfl
    rw [hgaps, List.forall_mem_cons]
    exact ⟨isGap_self source p, hs.gaps⟩
  case mark => exact List.forall_mem_cons.2 ⟨rfl, hs.mark⟩

/-- From any index the scan either gives tokens that account for the rest of the source or reaches
a place that is not cut further. -/
theorem accounts_or_breaks {p : Nat} (hp : p ≤ source.length) :
    (∃ s, scanAt source p = .ok s ∧ Accounts source p s) ∨
      ∃ q cause, Reaches source p q ∧ Breaks (source.drop q) cause := by
  rcases start_cases (source.drop p) with h | ⟨a, b, h, ha⟩ | ⟨x, b, h, hx⟩ | ⟨cause, h⟩
  · have hlength : p = source.length := Nat.le_antisymm hp (List.drop_eq_nil_iff.1 h)
    subst hlength
    refine .inl ⟨_, ?_, .nil source⟩
    rw [scanAt, h, scanFrom]
  · have hpos := ha.length_pos
    have hle := le_of_drop hp h
    rcases accounts_or_breaks hle with ⟨s, hs, haccounts⟩ | ⟨q, cause, hq, hbreaks⟩
    · exact .inl ⟨s, by rw [scanAt_of_isComment hp h ha, hs], haccounts.comment h ha⟩
    · exact .inr ⟨q, cause, .head (.comment h ha) hq, hbreaks⟩
  · have hpos := pos_of_lexeme? hx.1
    have hle := le_of_drop hp h
    rcases accounts_or_breaks hle with ⟨s, hs, haccounts⟩ | ⟨q, cause, hq, hbreaks⟩
    · exact .inl ⟨_, by rw [scanAt_of_fits hp h hx, hs, Except.map], haccounts.token h hx⟩
    · exact .inr ⟨q, cause, .head (.token h hx) hq, hbreaks⟩
  · exact .inr ⟨p, cause, .refl, h⟩
termination_by source.length - p

theorem accounts_of_scan {source : String} {s : Scanned} (h : scan source = .ok s) :
    Accounts source.toList 0 s := by
  rw [scan_eq_scanAt] at h
  rcases accounts_or_breaks (Nat.zero_le source.toList.length) with
    ⟨s', hs', haccounts⟩ | ⟨q, cause, hq, hbreaks⟩
  · rw [hs'] at h
    cases h
    exact haccounts
  · rw [hq.scanAt_breaks (Nat.zero_le _) hbreaks] at h
    cases h

theorem scan_eq_error_iff {source : String} {e : SyntaxError} : scan source = .error e ↔
    ∃ p, Reaches source.toList 0 p ∧ Breaks (source.toList.drop p) e.cause ∧
      e.mark = markAt source.toList p := by
  rw [scan_eq_scanAt]
  constructor
  · intro h
    rcases accounts_or_breaks (Nat.zero_le source.toList.length) with
      ⟨s, hs, -⟩ | ⟨q, cause, hq, hbreaks⟩
    · rw [hs] at h
      cases h
    · rw [hq.scanAt_breaks (Nat.zero_le _) hbreaks] at h
      cases h
      exact ⟨q, hq, hbreaks, rfl⟩
  · rintro ⟨q, hq, hbreaks, hmark⟩
    rw [hq.scanAt_breaks (Nat.zero_le _) hbreaks, ← hmark]

/-! ### The tokens of a source are unique -/

theorem Accounts.position_le {s : Scanned} (hs : Accounts source p s) {t : Token}
    (ht : t ∈ s.all) : t.position ≤ source.length := by
  have hlast : s.finish.position = source.length := by rw [hs.finish]
  have hincreasing := hs.increasing
  rw [Scanned.all, List.map_append, List.pairwise_append] at hincreasing
  rcases List.mem_append.1 ht with ht | ht
  · rw [← hlast]
    exact Nat.le_of_lt (hincreasing.2.2 _ (List.mem_map_of_mem ht) _ (by simp))
  · exact Nat.le_of_eq (by rw [List.mem_singleton.1 ht, hlast])

theorem scanAt_flatten {comments : List (List Char)} (hcomments : ∀ c ∈ comments, IsComment c)
    (hp : p ≤ source.length) (h : source.drop p = comments.flatten ++ b) :
    scanAt source p = scanAt source (p + comments.flatten.length) := by
  induction comments generalizing p with
  | nil => rfl
  | cons c comments ih =>
    obtain ⟨hc, hcomments⟩ := List.forall_mem_cons.1 hcomments
    rw [List.flatten_cons, List.append_assoc] at h
    rw [scanAt_of_isComment hp h hc, ih hcomments (le_of_drop hp h) (drop_of_drop h),
      List.flatten_cons, List.length_append, Nat.add_assoc]

theorem scanAt_of_isGap {q : Nat} (hq : q ≤ source.length) (h : IsGap source (p, q)) :
    scanAt source p = scanAt source q := by
  obtain ⟨hle, comments, hcomments, heq⟩ := h
  have hlength : q = p + comments.flatten.length := by
    rw [← heq, between, List.length_take, List.length_drop]
    omega
  have hdrop : source.drop p = comments.flatten ++ source.drop q := by
    rw [← heq, between, hlength, ← List.drop_drop, Nat.add_sub_cancel_left, List.take_append_drop]
  rw [scanAt_flatten hcomments (Nat.le_trans hle hq) hdrop, hlength]

/-- Without their first token the others account for what is left. -/
theorem Accounts.tail {t finish : Token} {ts : List Token}
    (hs : Accounts source p ⟨t :: ts, finish⟩) : Accounts source t.stop ⟨ts, finish⟩ where
  finish := hs.finish
  increasing := (List.pairwise_cons.1 hs.increasing).2
  text := (List.forall_mem_cons.1 hs.text).2
  fits := (List.forall_mem_cons.1 hs.fits).2
  gaps := (List.forall_mem_cons.1 hs.gaps).2
  mark := (List.forall_mem_cons.1 hs.mark).2

/-- Only one list of tokens accounts for a source, the one that the scan gives. -/
theorem Accounts.scanAt {s : Scanned} (hs : Accounts source p s) : scanAt source p = .ok s := by
  obtain ⟨ts, finish⟩ := s
  induction ts generalizing p with
  | nil =>
    obtain rfl := hs.finish
    have hgap := hs.gaps (p, source.length) (by simp [Scanned.gaps, Scanned.all])
    rw [scanAt_of_isGap (Nat.le_refl _) hgap, Stylesheet.scanAt, List.drop_length, scanFrom]
  | cons t ts ih =>
    obtain ⟨⟨r, hr⟩, -⟩ := List.forall_mem_cons.1 hs.text
    obtain ⟨hfits, -⟩ := List.forall_mem_cons.1 hs.fits
    obtain ⟨hmark, -⟩ := List.forall_mem_cons.1 hs.mark
    obtain ⟨hgap, -⟩ := List.forall_mem_cons.1 hs.gaps
    have hle : t.position ≤ source.length := hs.position_le List.mem_cons_self
    have hstop : t.position + t.terminal.chars.length = t.stop := by
      rw [Token.stop, Terminal.chars, String.length_toList, Token.terminal]
    have hdrop : source.drop t.position = t.terminal.chars ++ r := hr.symm
    rw [← hstop, drop_of_drop hdrop] at hfits
    rw [scanAt_of_isGap hle hgap, scanAt_of_fits hle hdrop hfits, hstop, ih hs.tail, ← hmark]
    rfl

theorem scan_eq_ok_iff {source : String} {s : Scanned} :
    scan source = .ok s ↔ Accounts source.toList 0 s :=
  ⟨accounts_of_scan, Accounts.scanAt⟩

/-- A source is cut into the tokens that account for it, and there are none just if the scan
reaches a comment that has no end or a quote that opens no string. -/
theorem scan_accounts (source : String) :
    (∀ s, scan source = .ok s ↔ Accounts source.toList 0 s) ∧
      ∀ e, scan source = .error e ↔ ∃ p, Reaches source.toList 0 p ∧
        Breaks (source.toList.drop p) e.cause ∧ e.mark = markAt source.toList p :=
  ⟨fun _ => scan_eq_ok_iff, fun _ => scan_eq_error_iff⟩

end ConditionalStyle.Stylesheet
