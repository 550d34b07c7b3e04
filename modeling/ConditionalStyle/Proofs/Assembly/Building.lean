import ConditionalStyle.Proofs.Assembly.Pruning
import Mathlib.Data.List.DropRight

/-!
# Building a list of fragments

A list of fragments is built by edits: parts, literals and texts are appended in any order, and the
list may be emptied at any time. An edit looks at the last two fragments only, and what it drops
uncovers older ones, which are not looked at again. Still no dead literal is ever stored, and all
that is ever dropped are empty literals and separators.

A fragment is dropped together with a separator or in its favour. So what is uncovered has already
stood next to a separator, and a literal that is not dead there is dead next to nothing.

## Main definitions

* `Edit`, `stored`: edits, and the fragments that are stored after them.
* `sinceReset`: the fragments that were appended since the list was last emptied.
* `IsDead`, `Alive`: dead literals, and lists without them.

## Main statements

* `content_keep`, `Alive.keep`: what one edit does to content and to dead literals.
* `stored_sinceReset`: what is stored after any edits.
-/

namespace ConditionalStyle.Assembly

/-! ### Edits -/

/-- What can be done to a list of fragments: to append a part with the text that it always has, a
literal, or a text as it is, and to empty the list. -/
inductive Edit where
  | part (p : Part)
  | literal (quoted : String)
  | raw (text : Option String)
  | reset

namespace Edit

/-- The fragment that an edit appends. -/
def fragment? : Edit → Option Fragment
  | .part p => some (.fixed p)
  | .literal quoted => some (.literal quoted)
  | .raw text => some (.raw text)
  | .reset => none

/-- The fragments stored after an edit, newest first. -/
def apply (kept : List Fragment) (e : Edit) : List Fragment :=
  match e.fragment? with
  | some f => keep f kept
  | none => []

end Edit

/-- The fragments stored after edits, newest first. -/
def stored (es : List Edit) : List Fragment :=
  es.foldl Edit.apply []

/-- The fragments that were appended since the list was last emptied, in the order in which they
are read. -/
def sinceReset (es : List Edit) : List Fragment :=
  (es.rtakeWhile fun e => e.fragment?.isSome).filterMap Edit.fragment?

theorem stored_concat (es : List Edit) (e : Edit) :
    stored (es ++ [e]) = e.apply (stored es) := by
  rw [stored, List.foldl_append]
  rfl

theorem sinceReset_append {e : Edit} {f : Fragment} (h : e.fragment? = some f) (es : List Edit) :
    sinceReset (es ++ [e]) = sinceReset es ++ [f] := by
  rw [sinceReset, List.rtakeWhile_concat_pos _ _ _ (by rw [h]; rfl), List.filterMap_append,
    sinceReset, List.filterMap_cons_some h, List.filterMap_nil]

theorem sinceReset_reset {e : Edit} (h : e.fragment? = none) (es : List Edit) :
    sinceReset (es ++ [e]) = [] := by
  rw [sinceReset, List.rtakeWhile_concat_neg _ _ _ (by rw [h]; exact Bool.false_ne_true),
    List.filterMap_nil]

/-- What is stored is what is kept of the fragments since the list was last emptied. -/
theorem stored_eq_prune (es : List Edit) : stored es = prune (sinceReset es).reverse := by
  induction es using List.reverseRecOn with
  | nil => rfl
  | append_singleton es e ih =>
    rw [stored_concat, Edit.apply]
    cases h : e.fragment? with
    | none => rw [sinceReset_reset h, List.reverse_nil, prune]
    | some f =>
      rw [sinceReset_append h, List.reverse_append, List.reverse_singleton, List.singleton_append,
        prune, ih]

/-! ### Content -/

/-- Whether a part is content, and not an empty literal or a separator. -/
def Part.isContent : Part → Bool
  | .empty | .groupBreak | .plus => false
  | _ => true

theorem isContent_of_isSeparator {p : Part} (h : p.isSeparator = true) : p.isContent = false := by
  cases p <;> first | rfl | cases h

/-- The fragments that are content. -/
def content (fs : List Fragment) : List Fragment :=
  fs.filter (·.part.isContent)

section Content

variable {f : Fragment} {fs : List Fragment}

theorem content_reverse (fs : List Fragment) : content fs.reverse = (content fs).reverse :=
  List.filter_reverse

theorem content_cons_of_empty (h : f.part = .empty) : content (f :: fs) = content fs :=
  List.filter_cons_of_neg (by rw [h]; exact Bool.false_ne_true)

theorem content_cons_of_separator (h : f.part.isSeparator = true) :
    content (f :: fs) = content fs :=
  List.filter_cons_of_neg (by rw [isContent_of_isSeparator h]; exact Bool.false_ne_true)

theorem content_cons_congr {gs : List Fragment} (h : content fs = content gs) :
    content (f :: fs) = content (f :: gs) := by
  rw [content, content, List.filter_cons, List.filter_cons, ← content, ← content, h]

/-- Appending a fragment drops no content. -/
theorem content_keep (f : Fragment) (kept : List Fragment) :
    content (keep f kept) = content (f :: kept) := by
  have hkeep := keeping_keep f kept
  generalize keep f kept = result at hkeep ⊢
  cases hkeep with
  | add => rfl
  | closing older he hp hf =>
    exact content_cons_congr (by rw [content_cons_of_empty he, content_cons_of_separator hp])
  | breaking older he hp hf =>
    exact content_cons_congr
      (by rw [content_cons_of_empty he, content_cons_of_separator (by rw [hp]; rfl)])
  | merging older he hp hf hbreak | leading older he hp hf =>
    rw [content_cons_of_separator hf, content_cons_of_empty he]

theorem content_prune (fs : List Fragment) : content (prune fs) = content fs := by
  induction fs with
  | nil => rfl
  | cons f fs ih => rw [prune, content_keep, content_cons_congr ih]

end Content

/-! ### Dead literals -/

/-- Between these parts an empty literal is dead: between two separators, between a separator and a
closing parenthesis, or between what terms start after and a separator. -/
def IsDead (before middle after : Part) : Prop :=
  middle = .empty ∧
    (before.isSeparator = true ∧ (after.isSeparator = true ∨ after = .closing) ∨
      before.isOpener = true ∧ after.isSeparator = true)

/-- A literal that is dead in front of something is dead in front of every separator. -/
theorem IsDead.of_separator {before middle after p : Part} (h : IsDead before middle after)
    (hp : p.isSeparator = true) : IsDead before middle p := by
  obtain ⟨hempty, ⟨hbefore, -⟩ | ⟨hbefore, -⟩⟩ := h
  · exact ⟨hempty, .inl ⟨hbefore, .inl hp⟩⟩
  · exact ⟨hempty, .inr ⟨hbefore, hp⟩⟩

/-- Fragments, given newest first, without a dead literal. -/
def Alive (fs : List Fragment) : Prop :=
  ∀ a b c, [c, b, a] <:+: fs → ¬IsDead a.part b.part c.part

section Alive

variable {f p : Fragment} {fs older kept : List Fragment}

theorem alive_nil : Alive [] := by
  intro a b c h
  cases List.eq_nil_of_infix_nil h

theorem Alive.of_suffix (h : Alive kept) (hsuffix : fs <:+ kept) : Alive fs :=
  fun a b c hstretch => h a b c (hstretch.trans hsuffix.isInfix)

theorem alive_cons (h : Alive fs)
    (hnew : ∀ b a rest, fs = b :: a :: rest → ¬IsDead a.part b.part f.part) : Alive (f :: fs) := by
  intro a b c hstretch
  rcases List.infix_cons_iff.1 hstretch with ⟨rest, hfront⟩ | hstretch
  · obtain ⟨rfl, hrest⟩ := List.cons.inj hfront
    exact hnew b a rest hrest.symm
  · exact h a b c hstretch

/-- What takes the place of a separator makes no literal before it dead. -/
theorem Alive.replace (h : Alive (p :: older)) (hp : p.part.isSeparator = true) :
    Alive (f :: older) := by
  refine alive_cons (h.of_suffix (List.suffix_cons p older)) fun b a rest hrest hdead => ?_
  refine h a b p ⟨[], rest, ?_⟩ (hdead.of_separator hp)
  rw [hrest]
  rfl

/-- Appending a fragment leaves no dead literal. -/
theorem Alive.keep (h : Alive kept) : Alive (keep f kept) := by
  fun_cases Assembly.keep f kept with
  | case1 e p older he hseparators =>
    exact (h.of_suffix (List.suffix_cons e _)).replace (Bool.and_eq_true_iff.1 hseparators).1
  | case2 e p older => exact h.of_suffix (List.suffix_cons e _)
  | case3 e p older he hseparators hclosing =>
    exact (h.of_suffix (List.suffix_cons e _)).replace (Bool.and_eq_true_iff.1 hclosing).1
  | case4 e p older => exact h.of_suffix (List.suffix_cons e _)
  | case5 e p older he hseparators hclosing hleading =>
    -- none of the three cases in which the literal is dead
    refine alive_cons h fun b a rest hrest hdead => ?_
    cases hrest
    obtain ⟨-, ⟨hp, hf | hf⟩ | ⟨hp, hf⟩⟩ := hdead
    · exact hseparators (by rw [hp, hf]; rfl)
    · exact hclosing (by rw [hp, hf]; rfl)
    · exact hleading (by rw [hp, hf]; rfl)
  | case6 e p older he =>
    refine alive_cons h fun b a rest hrest hdead => ?_
    cases hrest
    exact he (beq_iff_eq.2 hdead.1)
  | case7 kept hshort => exact alive_cons h fun b a rest hrest => absurd hrest (hshort b a rest)

theorem alive_prune (fs : List Fragment) : Alive (prune fs) := by
  induction fs with
  | nil => exact alive_nil
  | cons f fs ih => exact ih.keep

end Alive

/-! ### What is stored -/

/-- After any edits, the fragments that are stored and are neither empty literals nor separators are
those appended since the list was last emptied, in the same order; and no three fragments in a row
that are stored have a dead literal between the other two. -/
theorem stored_sinceReset (es : List Edit) :
    content (stored es).reverse = content (sinceReset es) ∧
      ∀ a b c, [a, b, c] <:+: (stored es).reverse → ¬IsDead a.part b.part c.part := by
  rw [stored_eq_prune]
  constructor
  · rw [content_reverse, content_prune, content_reverse, List.reverse_reverse]
  · intro a b c hstretch
    exact alive_prune _ a b c (List.reverse_infix.1 hstretch)

end ConditionalStyle.Assembly
