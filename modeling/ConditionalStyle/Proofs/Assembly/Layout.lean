import ConditionalStyle.Assembly.Fragment
import ConditionalStyle.Proofs.Assembly.Outline

/-!
# Layouts

The layout of an outline is a sum of groups. A group is a chain of blocks or a sum of terms, and a
term is a literal or an expression taken over from the outline. A layout says how fragments belong
together; written out, its fragments are those that a compiler appends for the outline.

A limit on the number of sums in a row decides where a group is broken. Fragments come here in the
order in which they are read.

## Main definitions

* `Term`, `Group`: the parts of a layout.
* `fragments`: the fragments of a layout.
* `layout`: the layout of an outline.
* `Draft`: what a compiler has appended, what it has printed since, and how many sums there were.
* `Draft.feed`: what the next piece of an outline makes of a draft.

## Main statements

* `Draft.flushed_feedAll`: feeding an outline to a draft appends the fragments of its layout.
-/

namespace ConditionalStyle.Assembly

open Stylesheet

/-- A term of a sum. -/
inductive Term where
  | literal (s : String)
  | splice (expression : String)

/-- A group of a layout. -/
inductive Group where
  | sum (first : Term) (rest : List Term)
  | choice (chain : Chain Group)

/-! ### Fragments -/

/-- The fragment of a term. -/
def Term.fragment : Term → Fragment
  | .literal s => .literal (Text.quote s)
  | .splice e => .raw (some ("(" ++ e ++ ")"))

/-- The fragments of the terms of a sum after its first. -/
def termFragments : List Term → List Fragment
  | [] => []
  | t :: ts => .fixed .plus :: t.fragment :: termFragments ts

mutual

/-- The fragments of a group. -/
def groupFragments : Group → List Fragment
  | .sum first rest => first.fragment :: termFragments rest
  | .choice chain => chainFragments chain

/-- The fragments of a sum of groups, without the parentheses around it. -/
def fragments : List Group → List Fragment
  | [] => []
  | [g] => groupFragments g
  | g :: gs => groupFragments g ++ .fixed .groupBreak :: fragments gs

/-- The fragments of a chain. -/
def chainFragments : Chain Group → List Fragment
  | .nothing => [.literal (Text.quote "")]
  | .otherwise body => .fixed .opening :: (fragments body ++ [.fixed .closing])
  | .branch condition body rest =>
    .fixed .opening :: .raw (some condition) :: .fixed .question ::
      (fragments body ++ .fixed .closing :: .fixed .colon :: chainFragments rest)

end

theorem fragments_cons (g h : Group) (gs : List Group) :
    fragments (g :: h :: gs) = groupFragments g ++ .fixed .groupBreak :: fragments (h :: gs) := by
  rw [fragments]
  exact List.cons_ne_nil h gs

theorem written_termFragments (ts : List Term) : ∀ f ∈ termFragments ts, f.text.isSome := by
  induction ts with
  | nil => simp [termFragments]
  | cons t ts ih => cases t <;> simpa [termFragments, Term.fragment, Fragment.fixed,
      Fragment.literal, Fragment.raw] using ih

mutual

theorem written_groupFragments (g : Group) : ∀ f ∈ groupFragments g, f.text.isSome := by
  match g with
  | .sum first rest =>
    rw [groupFragments, List.forall_mem_cons]
    exact ⟨by cases first <;> rfl, written_termFragments rest⟩
  | .choice chain =>
    rw [groupFragments]
    exact written_chainFragments chain

/-- Every fragment of a layout has a text. -/
theorem written_fragments (gs : List Group) : ∀ f ∈ fragments gs, f.text.isSome := by
  match gs with
  | [] => simp [fragments]
  | [g] =>
    rw [fragments]
    exact written_groupFragments g
  | g :: h :: gs =>
    rw [fragments_cons, List.forall_mem_append, List.forall_mem_cons]
    exact ⟨written_groupFragments g, rfl, written_fragments (h :: gs)⟩

theorem written_chainFragments (c : Chain Group) : ∀ f ∈ chainFragments c, f.text.isSome := by
  match c with
  | .nothing => simp [chainFragments, Fragment.literal]
  | .otherwise body =>
    simp only [chainFragments, List.forall_mem_cons, List.forall_mem_append]
    exact ⟨rfl, written_fragments body, rfl, by simp⟩
  | .branch condition body rest =>
    simp only [chainFragments, List.forall_mem_cons, List.forall_mem_append]
    exact ⟨rfl, rfl, rfl, written_fragments body, rfl, rfl, written_chainFragments rest⟩

end

/-! ### The layout of an outline -/

/-- How many sums in a row there are after one more. -/
def countSum (limit count : Nat) : Nat :=
  if limit ≤ count then 0 else count + 1

/-- The separator that a sum becomes: a group is broken when the limit is reached. -/
def sumPart (limit count : Nat) : Part :=
  if limit ≤ count then .groupBreak else .plus

/-- Puts a term in front of groups, into the first of them unless it is broken off. -/
def attach (separator : Part) (t : Term) : List Group → List Group
  | .sum first rest :: gs =>
    if separator = .plus then .sum t (first :: rest) :: gs else .sum t [] :: .sum first rest :: gs
  | gs => .sum t [] :: gs

/-- How many sums in a row there are after pieces. -/
def countAfter (limit : Nat) : Nat → List Piece → Nat
  | count, [] => count
  | count, .text _ :: ps => countAfter limit count ps
  | count, .splice _ :: ps => countAfter limit (countSum limit (countSum limit count)) ps
  | _, .block _ :: ps => countAfter limit 0 ps

mutual

/-- The layout of pieces after a text that has been printed already and after a number of sums in a
row. -/
def layout (limit : Nat) (pending : String) (count : Nat) : List Piece → List Group
  | [] => [.sum (.literal pending) []]
  | .text s :: ps => layout limit (pending ++ s) count ps
  | .splice e :: ps =>
    attach (sumPart limit count) (.literal pending)
      (attach (sumPart limit (countSum limit count)) (.splice e)
        (layout limit "" (countSum limit (countSum limit count)) ps))
  | .block chain :: ps =>
    .sum (.literal pending) [] :: .choice (chainLayout limit 0 chain) :: layout limit "" 0 ps

/-- The layout of branches. An `@else` goes on counting where the branch before it stopped. -/
def chainLayout (limit : Nat) (count : Nat) : Chain Piece → Chain Group
  | .nothing => .nothing
  | .otherwise body => .otherwise (layout limit "" count body)
  | .branch condition body rest =>
    .branch condition (layout limit "" 0 body) (chainLayout limit (countAfter limit 0 body) rest)

end

theorem fragments_attach (limit count : Nat) (t first : Term) (rest : List Term)
    (gs : List Group) :
    fragments (attach (sumPart limit count) t (.sum first rest :: gs)) =
      t.fragment :: .fixed (sumPart limit count) :: fragments (.sum first rest :: gs) := by
  rw [attach, sumPart]
  by_cases hlimit : limit ≤ count
  · simp only [hlimit, ↓reduceIte, reduceCtorEq, fragments_cons, groupFragments, termFragments,
      List.singleton_append]
  · rcases gs with _ | ⟨g, gs⟩ <;>
      simp only [hlimit, ↓reduceIte, fragments_cons, fragments, groupFragments, termFragments,
        List.cons_append]

theorem attach_eq_sum (separator : Part) (t : Term) (gs : List Group) :
    ∃ rest gs', attach separator t gs = .sum t rest :: gs' := by
  unfold attach
  split
  · split
    · exact ⟨_, _, rfl⟩
    · exact ⟨_, _, rfl⟩
  · exact ⟨_, _, rfl⟩

/-- A layout starts with a literal. -/
theorem layout_eq_sum (limit : Nat) (pending : String) (count : Nat) (ps : List Piece) :
    ∃ s rest gs, layout limit pending count ps = .sum (.literal s) rest :: gs := by
  induction ps generalizing pending with
  | nil =>
    rw [layout]
    exact ⟨pending, [], [], rfl⟩
  | cons p ps ih =>
    cases p with
    | text s =>
      rw [layout]
      exact ih (pending ++ s)
    | splice e =>
      rw [layout]
      obtain ⟨rest, gs, h⟩ := attach_eq_sum (sumPart limit count) (.literal pending) _
      exact ⟨pending, rest, gs, h⟩
    | block chain =>
      rw [layout]
      exact ⟨pending, [], _, rfl⟩

/-! ### Drafts -/

/-- The fragments appended so far, newest first, the text printed since the last literal, and the
number of sums in a row. -/
structure Draft where
  appended : List Fragment
  pending : String
  count : Nat

namespace Draft

/-- The draft after the next piece of an outline. -/
def feed (limit : Nat) (d : Draft) : Piece → Draft
  | .text s => { d with pending := d.pending ++ s }
  | .splice e =>
    ⟨.fixed (sumPart limit (countSum limit d.count)) :: (Term.splice e).fragment ::
        .fixed (sumPart limit d.count) :: (Term.literal d.pending).fragment :: d.appended,
      "", countSum limit (countSum limit d.count)⟩
  | .block chain =>
    ⟨.fixed .groupBreak :: ((chainFragments (chainLayout limit 0 chain)).reverse ++
        .fixed .groupBreak :: (Term.literal d.pending).fragment :: d.appended), "", 0⟩

/-- The draft after the pieces of an outline. -/
def feedAll (limit : Nat) (d : Draft) (ps : List Piece) : Draft :=
  ps.foldl (feed limit) d

/-- The fragments when the printed text has become a literal. -/
def flushed (d : Draft) : List Fragment :=
  (Term.literal d.pending).fragment :: d.appended

variable (limit : Nat) (d : Draft)

@[simp] theorem feedAll_nil : d.feedAll limit [] = d := rfl

@[simp] theorem feedAll_cons (p : Piece) (ps : List Piece) :
    d.feedAll limit (p :: ps) = (d.feed limit p).feedAll limit ps := rfl

@[simp] theorem feedAll_append (ps qs : List Piece) :
    d.feedAll limit (ps ++ qs) = (d.feedAll limit ps).feedAll limit qs :=
  List.foldl_append

theorem count_feedAll (ps : List Piece) :
    (d.feedAll limit ps).count = countAfter limit d.count ps := by
  induction ps generalizing d with
  | nil => rfl
  | cons p ps ih =>
    rw [feedAll_cons, ih]
    cases p <;> rfl

/-- Feeding an outline to a draft appends the fragments of its layout. -/
theorem flushed_feedAll (ps : List Piece) :
    (d.feedAll limit ps).flushed =
      (fragments (layout limit d.pending d.count ps)).reverse ++ d.appended := by
  induction ps generalizing d with
  | nil =>
    rw [layout, fragments, groupFragments]
    rfl
  | cons p ps ih =>
    rw [feedAll_cons, ih]
    cases p with
    | text s => rw [layout, feed]
    | splice e =>
      -- either of the two sums around the expression may start a new group
      obtain ⟨s, rest, gs, hlayout⟩ :=
        layout_eq_sum limit "" (countSum limit (countSum limit d.count)) ps
      obtain ⟨rest', gs', hattach⟩ := attach_eq_sum (sumPart limit (countSum limit d.count))
        (.splice e) (.sum (.literal s) rest :: gs)
      have hinner :=
        fragments_attach limit (countSum limit d.count) (.splice e) (.literal s) rest gs
      have houter := fragments_attach limit d.count (.literal d.pending) (.splice e) rest' gs'
      rw [← hattach, hinner] at houter
      rw [layout, feed, hlayout, houter]
      simp only [List.reverse_cons, List.append_assoc, List.cons_append, List.nil_append]
    | block chain =>
      obtain ⟨s, rest, gs, hlayout⟩ := layout_eq_sum limit "" 0 ps
      rw [layout, feed, hlayout, fragments_cons, fragments_cons]
      simp only [groupFragments, termFragments, List.reverse_cons, List.reverse_append,
        List.append_assoc, List.cons_append, List.nil_append]

end Draft

end ConditionalStyle.Assembly
