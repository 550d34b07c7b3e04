import ConditionalStyle.Proofs.Assembly.Layout
import ConditionalStyle.Proofs.Text.Literal

/-!
# Pruning layouts

Dropping dead literals while fragments are appended is dropping blank groups of a layout: those that
are nothing but an empty literal. A body of which no group is left keeps one.

This needs the outline to be padded. Then a literal next to a hole is never empty, so that empty
literals stand between parentheses and group breaks only.

## Main definitions

* `prunedGroups`, `prunedBody`: groups without the blank ones.
* `TidyGroups`: layouts in which an empty literal is a group of its own.
* `Keeping`: all that can happen when a fragment is appended.

## Main statements

* `keepAll_afterOpener`: pruning the fragments of a tidy body gives those of the pruned body.
* `tidy_layout`: the layout of a padded outline is tidy.
-/

namespace ConditionalStyle.Assembly

/-! ### Keeping fragments one after the other -/

/-- Appends fragments, in the order in which they are read, to those kept. -/
def keepAll (kept : List Fragment) (fs : List Fragment) : List Fragment :=
  fs.foldl (fun kept f => keep f kept) kept

@[simp] theorem keepAll_nil (kept : List Fragment) : keepAll kept [] = kept := rfl

@[simp] theorem keepAll_cons (kept : List Fragment) (f : Fragment) (fs : List Fragment) :
    keepAll kept (f :: fs) = keepAll (keep f kept) fs := rfl

@[simp] theorem keepAll_append (kept fs gs : List Fragment) :
    keepAll kept (fs ++ gs) = keepAll (keepAll kept fs) gs :=
  List.foldl_append

theorem prune_reverse_append (fs earlier : List Fragment) :
    prune (fs.reverse ++ earlier) = keepAll (prune earlier) fs := by
  induction fs generalizing earlier with
  | nil => rfl
  | cons f fs ih =>
    rw [List.reverse_cons, List.append_assoc, List.singleton_append, ih]
    rfl

/-- What appending the fragment `f` makes of kept fragments: it is added, or it takes along an empty
literal that stands before it. -/
inductive Keeping (f : Fragment) : List Fragment → List Fragment → Prop
  | add (kept : List Fragment) : Keeping f kept (f :: kept)
  | closing {e p : Fragment} (older : List Fragment) (he : e.part = .empty)
      (hp : p.part.isSeparator) (hf : f.part = .closing) : Keeping f (e :: p :: older) (f :: older)
  | breaking {e p : Fragment} (older : List Fragment) (he : e.part = .empty) (hp : p.part = .plus)
      (hf : f.part = .groupBreak) : Keeping f (e :: p :: older) (f :: older)
  | merging {e p : Fragment} (older : List Fragment) (he : e.part = .empty)
      (hp : p.part.isSeparator) (hf : f.part.isSeparator)
      (hbreak : ¬(p.part = .plus ∧ f.part = .groupBreak)) : Keeping f (e :: p :: older) (p :: older)
  | leading {e p : Fragment} (older : List Fragment) (he : e.part = .empty) (hp : p.part.isOpener)
      (hf : f.part.isSeparator) : Keeping f (e :: p :: older) (p :: older)

theorem keeping_keep (f : Fragment) (kept : List Fragment) : Keeping f kept (keep f kept) := by
  match kept with
  | [] | [_] => exact .add _
  | e :: p :: older =>
    rw [keep]
    split
    · next hempty =>
      have he : e.part = .empty := beq_iff_eq.1 hempty
      split
      · next hseparators =>
        obtain ⟨hp, hf⟩ := Bool.and_eq_true_iff.1 hseparators
        split
        · next hbreak =>
          obtain ⟨hplus, hgroup⟩ := Bool.and_eq_true_iff.1 hbreak
          exact .breaking older he (beq_iff_eq.1 hplus) (beq_iff_eq.1 hgroup)
        · next hbreak => exact .merging older he hp hf fun h => hbreak (by rw [h.1, h.2]; rfl)
      · split
        · next hclosing =>
          obtain ⟨hp, hf⟩ := Bool.and_eq_true_iff.1 hclosing
          exact .closing older he hp (beq_iff_eq.1 hf)
        · split
          · next hleading =>
            obtain ⟨hp, hf⟩ := Bool.and_eq_true_iff.1 hleading
            exact .leading older he hp hf
          · exact .add _
    · exact .add _

/-- Kept fragments to which every fragment is simply added. -/
def Sturdy (kept : List Fragment) : Prop :=
  ∀ f, keep f kept = f :: kept

theorem sturdy_cons {g : Fragment} (h : g.part ≠ .empty) (kept : List Fragment) :
    Sturdy (g :: kept) := by
  intro f
  cases kept with
  | nil => rfl
  | cons p older => rw [keep, if_neg (by simpa using h)]

/-- An empty literal that is an alternative of its own is not dead. -/
theorem sturdy_alternative (g : Fragment) (kept : List Fragment) :
    Sturdy (g :: .fixed .colon :: kept) := by
  intro f
  rw [keep]
  split
  · rfl
  · rfl

theorem keepAll_of_parts {kept fs : List Fragment} (hkept : Sturdy kept)
    (hfs : ∀ f ∈ fs, f.part ≠ .empty) :
    keepAll kept fs = fs.reverse ++ kept ∧ Sturdy (fs.reverse ++ kept) := by
  induction fs generalizing kept with
  | nil => exact ⟨rfl, hkept⟩
  | cons f fs ih =>
    obtain ⟨hf, hfs⟩ := List.forall_mem_cons.1 hfs
    have h := ih (sturdy_cons hf kept) hfs
    rw [keepAll_cons, hkept f, List.reverse_cons, List.append_assoc, List.singleton_append]
    exact h

/-! ### Pruned layouts -/

/-- A group that is nothing but an empty literal. -/
def Group.IsBlank (g : Group) : Prop :=
  g = .sum (.literal "") []

instance : DecidablePred Group.IsBlank
  | .sum (.literal s) [] =>
    if h : s = "" then isTrue (by rw [h, Group.IsBlank])
    else isFalse fun hg => by cases hg; exact h rfl
  | .sum (.literal _) (_ :: _) => isFalse fun h => by cases h
  | .sum (.splice _) _ => isFalse fun h => by cases h
  | .choice _ => isFalse fun h => by cases h

/-- The groups of a body, of which there is always one. -/
def orBlank : List Group → List Group
  | [] => [.sum (.literal "") []]
  | gs => gs

mutual

/-- A group without the blank groups inside it. -/
def prunedGroup : Group → Group
  | .sum first rest => .sum first rest
  | .choice chain => .choice (prunedChain chain)

/-- The groups that are not blank. -/
def prunedGroups : List Group → List Group
  | [] => []
  | g :: gs => if g.IsBlank then prunedGroups gs else prunedGroup g :: prunedGroups gs

/-- A chain without the blank groups of its bodies. -/
def prunedChain : Chain Group → Chain Group
  | .nothing => .nothing
  | .otherwise body => .otherwise (orBlank (prunedGroups body))
  | .branch condition body rest =>
    .branch condition (orBlank (prunedGroups body)) (prunedChain rest)

end

/-- A body without its blank groups. -/
def prunedBody (gs : List Group) : List Group :=
  orBlank (prunedGroups gs)

theorem prunedGroups_of_blank {g : Group} (h : g.IsBlank) (gs : List Group) :
    prunedGroups (g :: gs) = prunedGroups gs := by
  rw [prunedGroups, if_pos h]

theorem prunedGroups_of_not_blank {g : Group} (h : ¬g.IsBlank) (gs : List Group) :
    prunedGroups (g :: gs) = prunedGroup g :: prunedGroups gs := by
  rw [prunedGroups, if_neg h]

/-! ### Pruning fragments is pruning groups -/

/-- A group whose fragments are pruned like the group itself, after any kept fragments to which
fragments are simply added. -/
def PrunesTo (g : Group) : Prop :=
  ∀ kept, Sturdy kept →
    keepAll kept (groupFragments g) = (groupFragments (prunedGroup g)).reverse ++ kept ∧
      Sturdy ((groupFragments (prunedGroup g)).reverse ++ kept)

theorem groupFragments_of_blank {g : Group} (h : g.IsBlank) :
    groupFragments g = [⟨.empty, some Fragment.emptyLiteral⟩] := by
  rw [h, groupFragments]
  rfl

theorem reverse_fragments_cons (g h : Group) (hs : List Group) :
    (fragments (g :: h :: hs)).reverse =
      (fragments (h :: hs)).reverse ++ .fixed .groupBreak :: (groupFragments g).reverse := by
  simp only [fragments_cons, List.reverse_append, List.reverse_cons, List.append_assoc,
    List.cons_append, List.nil_append]

/-- After a group break: blank groups disappear, and the break with them if no group is left. -/
theorem keepAll_afterBreak {gs : List Group} (hne : gs ≠ [])
    (hgs : ∀ g ∈ gs, ¬g.IsBlank → PrunesTo g) (older : List Fragment) :
    keepAll (.fixed .groupBreak :: older) (fragments gs ++ [.fixed .closing]) =
      match prunedGroups gs with
      | [] => .fixed .closing :: older
      | hs => .fixed .closing :: ((fragments hs).reverse ++ .fixed .groupBreak :: older) := by
  -- a group that is kept becomes part of what is older than the next break
  induction gs generalizing older with
  | nil => exact absurd rfl hne
  | cons g gs ih =>
    have hsturdy : Sturdy (.fixed .groupBreak :: older) := sturdy_cons (by decide) older
    obtain ⟨hg, hgs⟩ := List.forall_mem_cons.1 hgs
    rcases gs with _ | ⟨g', gs⟩
    · by_cases hblank : g.IsBlank
      · rw [prunedGroups_of_blank hblank, fragments, groupFragments_of_blank hblank]
        simp only [List.singleton_append, keepAll_cons, keepAll_nil, hsturdy _]
        rfl
      · obtain ⟨hkeep, hend⟩ := hg hblank _ hsturdy
        rw [prunedGroups_of_not_blank hblank, fragments, keepAll_append, hkeep, keepAll_cons, hend]
        simp only [prunedGroups, fragments, keepAll_nil]
    · have ih := fun older => ih (List.cons_ne_nil g' gs) hgs older
      rw [fragments_cons, List.append_assoc, keepAll_append]
      by_cases hblank : g.IsBlank
      · rw [prunedGroups_of_blank hblank, groupFragments_of_blank hblank, keepAll_cons, hsturdy,
          keepAll_nil, List.cons_append, keepAll_cons]
        exact ih older
      · obtain ⟨hkeep, hend⟩ := hg hblank _ hsturdy
        rw [prunedGroups_of_not_blank hblank, hkeep, List.cons_append, keepAll_cons, hend, ih]
        rcases prunedGroups (g' :: gs) with _ | ⟨h, hs⟩
        · simp only [fragments]
        · simp only [reverse_fragments_cons, List.append_assoc, List.cons_append]

/-- After an opening parenthesis: blank groups disappear, unless all groups are blank. -/
theorem keepAll_afterOpener {gs : List Group} (hne : gs ≠ [])
    (hgs : ∀ g ∈ gs, ¬g.IsBlank → PrunesTo g) {opener : Part} (hopener : opener.isOpener = true)
    (older : List Fragment) :
    keepAll (.fixed opener :: older) (fragments gs ++ [.fixed .closing]) =
      .fixed .closing :: ((fragments (prunedBody gs)).reverse ++ .fixed opener :: older) := by
  have hpart : (Fragment.fixed opener).part ≠ .empty := by
    intro h
    rw [show opener = .empty from h] at hopener
    cases hopener
  have hsturdy : Sturdy (.fixed opener :: older) := sturdy_cons hpart older
  rw [prunedBody]
  induction gs with
  | nil => exact absurd rfl hne
  | cons g gs ih =>
    obtain ⟨hg, hgs⟩ := List.forall_mem_cons.1 hgs
    rcases gs with _ | ⟨g', gs⟩
    · by_cases hblank : g.IsBlank
      · rw [prunedGroups_of_blank hblank, fragments, groupFragments_of_blank hblank, prunedGroups,
          orBlank, fragments, groupFragments_of_blank rfl]
        simp only [List.singleton_append, keepAll_cons, keepAll_nil, hsturdy _]
        cases opener <;> cases hopener <;> rfl
      · obtain ⟨hkeep, hend⟩ := hg hblank _ hsturdy
        rw [prunedGroups_of_not_blank hblank, fragments, keepAll_append, hkeep, keepAll_cons, hend]
        simp only [prunedGroups, orBlank, fragments, keepAll_nil]
    · rw [fragments_cons, List.append_assoc, keepAll_append]
      by_cases hblank : g.IsBlank
      · -- a literal between the parenthesis and a break takes the break along
        have hdrop : keep (.fixed .groupBreak)
            (⟨.empty, some Fragment.emptyLiteral⟩ :: .fixed opener :: older) =
              .fixed opener :: older := by
          cases opener <;> cases hopener <;> rfl
        rw [prunedGroups_of_blank hblank, groupFragments_of_blank hblank, keepAll_cons, hsturdy,
          keepAll_nil, List.cons_append, keepAll_cons, hdrop]
        exact ih (List.cons_ne_nil g' gs) hgs
      · obtain ⟨hkeep, hend⟩ := hg hblank _ hsturdy
        rw [prunedGroups_of_not_blank hblank, hkeep, List.cons_append, keepAll_cons, hend,
          keepAll_afterBreak (List.cons_ne_nil g' gs) hgs, orBlank]
        · rcases prunedGroups (g' :: gs) with _ | ⟨h, hs⟩
          · simp only [fragments]
          · simp only [reverse_fragments_cons, List.append_assoc, List.cons_append]
        · exact fun h => List.cons_ne_nil _ _ h

/-! ### Tidy layouts -/

/-- Terms that do not start with two expressions. -/
def Spaced : List Term → Prop
  | .splice _ :: .splice _ :: _ => False
  | _ => True

/-- Groups of which the first that is not blank does not start with an expression. -/
def Leads (gs : List Group) : Prop :=
  ∀ e rest hs, prunedGroups gs ≠ .sum (.splice e) rest :: hs

mutual

/-- A group that is blank or has no empty literal at all. -/
def TidyGroup : Group → Prop
  | .sum first rest => (Group.sum first rest).IsBlank ∨
      (∀ t ∈ first :: rest, t ≠ .literal "") ∧ Spaced (first :: rest)
  | .choice chain => chain.IsBranch ∧ TidyChain chain

/-- Groups that are tidy. -/
def TidyGroups : List Group → Prop
  | [] => True
  | g :: gs => TidyGroup g ∧ TidyGroups gs

/-- A chain whose bodies are tidy. -/
def TidyChain : Chain Group → Prop
  | .nothing => True
  | .otherwise body => body ≠ [] ∧ Leads body ∧ TidyGroups body
  | .branch _ body rest => body ≠ [] ∧ Leads body ∧ TidyGroups body ∧ TidyChain rest

end

theorem literal_part {s : String} (h : s ≠ "") :
    (Fragment.literal (Text.quote s)).part = .literal := by
  have hquote : (Text.quote s == Fragment.emptyLiteral) = false :=
    beq_eq_false_iff_ne.2 fun heq => h (Text.eq_of_quote_eq (t := "") heq)
  rw [Fragment.literal, hquote]
  rfl

theorem term_part {t : Term} (h : t ≠ .literal "") : t.fragment.part ≠ .empty := by
  cases t with
  | literal s =>
    rw [Term.fragment, literal_part fun hs => h (by rw [hs])]
    decide
  | splice e => simp [Term.fragment, Fragment.raw]

theorem termFragments_parts {ts : List Term} (h : ∀ t ∈ ts, t ≠ .literal "") :
    ∀ f ∈ termFragments ts, f.part ≠ .empty := by
  induction ts with
  | nil => simp [termFragments]
  | cons t ts ih =>
    obtain ⟨ht, hts⟩ := List.forall_mem_cons.1 h
    rw [termFragments, List.forall_mem_cons, List.forall_mem_cons]
    exact ⟨by decide, term_part ht, ih hts⟩

mutual

theorem prunesTo_of_tidy {g : Group} (h : TidyGroup g) (hblank : ¬g.IsBlank) : PrunesTo g := by
  match g with
  | .sum first rest =>
    rw [TidyGroup] at h
    obtain ⟨hterms, -⟩ := h.resolve_left hblank
    obtain ⟨hfirst, hrest⟩ := List.forall_mem_cons.1 hterms
    intro kept hkept
    rw [prunedGroup, groupFragments]
    exact keepAll_of_parts hkept
      (List.forall_mem_cons.2 ⟨term_part hfirst, termFragments_parts hrest⟩)
  | .choice chain =>
    rw [TidyGroup] at h
    intro kept hkept
    rw [prunedGroup, groupFragments, groupFragments]
    exact keepAll_chainFragments h.2 hkept (.inl h.1)

theorem prunesTo_of_tidyGroups {gs : List Group} (h : TidyGroups gs) :
    ∀ g ∈ gs, ¬g.IsBlank → PrunesTo g := by
  match gs with
  | [] => simp
  | g :: gs =>
    rw [TidyGroups] at h
    exact List.forall_mem_cons.2 ⟨prunesTo_of_tidy h.1, prunesTo_of_tidyGroups h.2⟩

theorem keepAll_chainFragments {c : Chain Group} (h : TidyChain c) {kept : List Fragment}
    (hkept : Sturdy kept) (hc : c.IsBranch ∨ ∃ older, kept = .fixed .colon :: older) :
    keepAll kept (chainFragments c) = (chainFragments (prunedChain c)).reverse ++ kept ∧
      Sturdy ((chainFragments (prunedChain c)).reverse ++ kept) := by
  match c with
  | .nothing =>
    obtain ⟨older, rfl⟩ := hc.resolve_left id
    rw [prunedChain, chainFragments]
    exact ⟨hkept _, sturdy_alternative _ older⟩
  | .otherwise body =>
    rw [TidyChain] at h
    obtain ⟨hne, -, hbody⟩ := h
    have hkeep := keepAll_afterOpener hne (prunesTo_of_tidyGroups hbody)
      (rfl : Part.opening.isOpener = true) kept
    rw [prunedBody] at hkeep
    rw [prunedChain, chainFragments, chainFragments, keepAll_cons, hkept, hkeep]
    simp only [List.reverse_cons, List.reverse_append, List.reverse_nil, List.append_assoc,
      List.cons_append, List.nil_append, true_and]
    exact sturdy_cons (by decide) _
  | .branch condition body rest =>
    rw [TidyChain] at h
    obtain ⟨hne, -, hbody, hrest⟩ := h
    have hsplit (body : List Group) (rest : Chain Group) :
        chainFragments (.branch condition body rest) =
          [.fixed .opening, .raw (some condition), .fixed .question] ++
            (fragments body ++ [.fixed .closing] ++ .fixed .colon :: chainFragments rest) := by
      simp only [chainFragments, List.cons_append, List.nil_append, List.append_assoc]
    have hparts : ∀ f ∈ [Fragment.fixed .opening, .raw (some condition), .fixed .question],
        f.part ≠ .empty := by
      simp [Fragment.fixed, Fragment.raw]
    obtain ⟨hopen, -⟩ := keepAll_of_parts hkept hparts
    have hbody := keepAll_afterOpener hne (prunesTo_of_tidyGroups hbody)
      (rfl : Part.question.isOpener = true) (.raw (some condition) :: .fixed .opening :: kept)
    rw [prunedBody] at hbody
    generalize hbefore : (fragments (orBlank (prunedGroups body))).reverse ++ .fixed .question ::
      .raw (some condition) :: .fixed .opening :: kept = before at hbody
    obtain ⟨hrest, hend⟩ := keepAll_chainFragments hrest
      (sturdy_cons (g := .fixed .colon) (by decide) (.fixed .closing :: before)) (.inr ⟨_, rfl⟩)
    have hclosing := sturdy_cons (g := .fixed .closing) (by decide) before (.fixed .colon)
    have hresult : (chainFragments (.branch condition (orBlank (prunedGroups body))
        (prunedChain rest))).reverse ++ kept =
          (chainFragments (prunedChain rest)).reverse ++
            .fixed .colon :: .fixed .closing :: before := by
      simp only [chainFragments, List.reverse_cons, List.reverse_append, List.append_assoc,
        List.cons_append, List.nil_append, ← hbefore]
    rw [prunedChain, hresult]
    refine ⟨?_, hend⟩
    rw [hsplit, keepAll_append, hopen, keepAll_append]
    simp only [List.reverse_cons, List.reverse_nil, List.nil_append, List.cons_append]
    rw [hbody, keepAll_cons, hclosing, hrest]

end

/-! ### Layouts of padded outlines are tidy -/

theorem isBlank_sum_iff {s : String} {rest : List Term} :
    (Group.sum (.literal s) rest).IsBlank ↔ s = "" ∧ rest = [] := by
  simp [Group.IsBlank]

/-- The first group that is not blank starts with a text: either the first group does, or it is
blank and a block follows. -/
theorem leads_layout (limit : Nat) {gap : Gap} {ps : List Piece} (h : Padded gap ps)
    (pending : String) (hpending : gap = .text ↔ pending ≠ "") (count : Nat) :
    Leads (layout limit pending count ps) := by
  induction ps generalizing gap pending with
  | nil =>
    intro e rest hs
    rw [layout]
    by_cases hblank : (Group.sum (.literal pending) []).IsBlank
    · rw [prunedGroups_of_blank hblank, prunedGroups]
      simp
    · rw [prunedGroups_of_not_blank hblank, prunedGroup]
      simp
  | cons p ps ih =>
    cases p with
    | text s =>
      rw [Padded] at h
      rw [layout]
      refine ih h (pending ++ s) ?_
      split
      · next hs => simpa [hs] using hpending
      · next hs => simp [hs]
    | splice e =>
      rw [Padded] at h
      rw [layout]
      intro e' rest hs
      obtain ⟨rest', gs, hattach⟩ := attach_eq_sum (sumPart limit count) (.literal pending) _
      have hblank : ¬(Group.sum (.literal pending) rest').IsBlank :=
        fun hb => hpending.1 h.1 (isBlank_sum_iff.1 hb).1
      rw [hattach, prunedGroups_of_not_blank hblank, prunedGroup]
      simp
    | block chain =>
      intro e rest hs
      rw [layout]
      have hchoice : ¬(Group.choice (chainLayout limit 0 chain)).IsBlank := by
        simp [Group.IsBlank]
      by_cases hblank : (Group.sum (.literal pending) []).IsBlank
      · simp [prunedGroups_of_blank hblank, prunedGroups_of_not_blank hchoice, prunedGroup]
      · simp [prunedGroups_of_not_blank hblank, prunedGroup]

/-- Terms none of which is an empty literal. -/
def Full (ts : List Term) : Prop :=
  ∀ t ∈ ts, t ≠ .literal ""

/-- A term in front of groups that start with a sum. -/
theorem tidyGroups_attach (separator : Part) {t first : Term} {rest : List Term} {gs : List Group}
    (ht : t ≠ .literal "") (hspaced : Spaced (t :: first :: rest)) (hfull : Full (first :: rest))
    (hgs : TidyGroups (.sum first rest :: gs)) :
    ∃ rest' gs', attach separator t (.sum first rest :: gs) = .sum t rest' :: gs' ∧
      Full (t :: rest') ∧ TidyGroups (.sum t rest' :: gs') := by
  rw [attach]
  split
  · have hfull' : Full (t :: first :: rest) := List.forall_mem_cons.2 ⟨ht, hfull⟩
    refine ⟨_, _, rfl, hfull', ?_⟩
    rw [TidyGroups] at hgs ⊢
    exact ⟨by rw [TidyGroup]; exact .inr ⟨hfull', hspaced⟩, hgs.2⟩
  · have hfull' : Full [t] := List.forall_mem_cons.2 ⟨ht, by simp⟩
    have hspaced' : Spaced [t] := by cases t <;> trivial
    refine ⟨_, _, rfl, hfull', ?_⟩
    rw [TidyGroups]
    exact ⟨by rw [TidyGroup]; exact .inr ⟨hfull', hspaced'⟩, hgs⟩

theorem layout_ne_nil (limit : Nat) (pending : String) (count : Nat) (ps : List Piece) :
    layout limit pending count ps ≠ [] := by
  obtain ⟨s, rest, gs, h⟩ := layout_eq_sum limit pending count ps
  rw [h]
  exact List.cons_ne_nil _ _

theorem tidyGroup_literal (s : String) : TidyGroup (.sum (.literal s) []) := by
  rw [TidyGroup]
  by_cases hs : s = ""
  · exact .inl (isBlank_sum_iff.2 ⟨hs, rfl⟩)
  · exact .inr ⟨by simpa using hs, trivial⟩

mutual

/-- The layout of a padded outline is tidy, and after a text or a hole its first group is not
blank. -/
theorem tidy_layout (limit : Nat) {gap : Gap} {ps : List Piece} (h : Padded gap ps)
    (pending : String) (hpending : gap = .text ↔ pending ≠ "") (count : Nat) :
    ∃ s rest gs, layout limit pending count ps = .sum (.literal s) rest :: gs ∧
      TidyGroups (.sum (.literal s) rest :: gs) ∧ (gap ≠ .clear → Full (.literal s :: rest)) := by
  match ps with
  | [] =>
    rw [Padded] at h
    rw [layout]
    refine ⟨pending, [], [], rfl, ?_, fun hclear => ?_⟩
    · rw [TidyGroups, TidyGroups]
      exact ⟨tidyGroup_literal pending, trivial⟩
    · have htext : gap = .text := by cases gap <;> simp_all
      simpa [Full] using hpending.1 htext
  | .text s :: ps =>
    rw [Padded] at h
    rw [layout]
    have hgap : (if s = "" then gap else .text) = .text ↔ pending ++ s ≠ "" := by
      split
      · next hs => simpa [hs] using hpending
      · next hs => simp [hs]
    obtain ⟨s', rest, gs, hlayout, htidy, hfull⟩ := tidy_layout limit h _ hgap count
    refine ⟨s', rest, gs, hlayout, htidy, fun hclear => hfull ?_⟩
    split
    · exact hclear
    · decide
  | .splice e :: ps =>
    rw [Padded] at h
    rw [layout]
    obtain ⟨s, rest, gs, hlayout, htidy, hfull⟩ :=
      tidy_layout limit h.2 "" (by simp) (countSum limit (countSum limit count))
    -- the expression joins the literal after it, and both join the literal before
    have hspaced : Spaced (.splice e :: .literal s :: rest) := trivial
    obtain ⟨rest₁, gs₁, hinner, hfull₁, htidy₁⟩ := tidyGroups_attach
      (sumPart limit (countSum limit count)) (by simp) hspaced (hfull (by decide)) htidy
    have hspaced₁ : Spaced (.literal pending :: .splice e :: rest₁) := trivial
    obtain ⟨rest₂, gs₂, houter, hfull₂, htidy₂⟩ := tidyGroups_attach (sumPart limit count)
      (by simpa using hpending.1 h.1) hspaced₁ hfull₁ htidy₁
    rw [hlayout, hinner, houter]
    exact ⟨pending, rest₂, gs₂, rfl, htidy₂, fun _ => hfull₂⟩
  | .block chain :: ps =>
    rw [Padded] at h
    obtain ⟨hgap, hbranch, hchain, hps⟩ := h
    rw [layout]
    obtain ⟨s, rest, gs, hlayout, htidy, -⟩ := tidy_layout limit hps "" (by simp) 0
    refine ⟨pending, [], _, rfl, ?_, fun hclear => ?_⟩
    · have hbranch' : (chainLayout limit 0 chain).IsBranch := by
        cases chain with
        | branch condition body rest =>
          rw [chainLayout]
          trivial
        | nothing | otherwise _ => exact hbranch.elim
      rw [TidyGroups, TidyGroups, TidyGroup, hlayout]
      exact ⟨tidyGroup_literal pending, ⟨hbranch', tidy_chainLayout limit hchain 0⟩, htidy⟩
    · have htext : gap = .text := by cases gap <;> simp_all
      simpa [Full] using hpending.1 htext

theorem tidy_chainLayout (limit : Nat) {c : Chain Piece} (h : PaddedChain c) (count : Nat) :
    TidyChain (chainLayout limit count c) := by
  match c with
  | .nothing =>
    rw [chainLayout, TidyChain]
    trivial
  | .otherwise body =>
    rw [PaddedChain] at h
    obtain ⟨s, rest, gs, hlayout, htidy, -⟩ := tidy_layout limit h "" (by simp) count
    rw [chainLayout, TidyChain]
    exact ⟨layout_ne_nil limit "" count body, leads_layout limit h "" (by simp) count,
      hlayout ▸ htidy⟩
  | .branch condition body rest =>
    rw [PaddedChain] at h
    obtain ⟨s, rest', gs, hlayout, htidy, -⟩ := tidy_layout limit h.1 "" (by simp) 0
    rw [chainLayout, TidyChain]
    exact ⟨layout_ne_nil limit "" 0 body, leads_layout limit h.1 "" (by simp) 0, hlayout ▸ htidy,
      tidy_chainLayout limit h.2 _⟩

end

end ConditionalStyle.Assembly
