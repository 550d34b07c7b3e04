import ConditionalStyle.Proofs.Assembly.Preservation

/-!
# The neighbours of empty literals and separators

Of a stylesheet that was read from a text, no dead literal is kept. An empty literal is a whole body
or the alternative of a block without `@else`; a separator stands between two terms, never next to
a parenthesis that has just been opened or is about to be closed.

Which part can follow which is told by a few places in an expression. The fragments of a layout
without blank groups lead from place to place, one part after the other, and the neighbours of a
part are read off the places before and after it.

## Main definitions

* `SoleBody`, `ImplicitElse`, `Neat`: where empty literals and separators may stand.
* `Place`, `Place.next?`, `Place.after?`: places, and where parts lead from them.

## Main statements

* `neat_of_after?`: parts that lead from the start of an expression to its end are neat.
* `compile_neat`: the fragments of a stylesheet that was read are neat.
-/

namespace ConditionalStyle.Assembly

open Stylesheet

/-! ### Neat parts -/

/-- Between these parts an empty literal is the whole body of a branch or of the stylesheet. -/
def SoleBody (before after : List Part) : Prop :=
  before.getLast? ∈ [some .opening, some .question] ∧ after.head? = some .closing

/-- Between these parts an empty literal is the alternative of a block without `@else`. -/
def ImplicitElse (before after : List Part) : Prop :=
  before.getLast? = some .colon ∧ after.head? ∈ [some .groupBreak, some .closing]

/-- Parts, given in the order in which they are read, without dead literals and without separators
that do not stand between two terms. -/
structure Neat (ps : List Part) : Prop where
  empty : ∀ before after, ps = before ++ .empty :: after →
    SoleBody before after ∨ ImplicitElse before after
  separator : ∀ before p after, ps = before ++ p :: after → p.isSeparator = true →
    (before.getLast? ∈ [some .literal, some .raw, some .closing] ∨
      ∃ older, before = older ++ [.empty] ∧ ImplicitElse older (p :: after)) ∧
    after.head? ∈ [some .literal, some .raw, some .opening]

/-! ### Places -/

/-- Where one is in an expression. -/
inductive Place where
  /-- After an opening parenthesis or a question mark. -/
  | opened
  /-- After a body that is an empty literal. -/
  | blank
  /-- After a term, a condition or a closing parenthesis. -/
  | ended
  /-- After a separator. -/
  | separated
  /-- After a colon. -/
  | alternative
  /-- After an alternative that is an empty literal. -/
  | lacking
  deriving DecidableEq

namespace Place

/-- Where a part leads, if it can stand there. -/
def next? : Place → Part → Option Place
  | .opened, .opening => some .opened
  | .opened, .empty => some .blank
  | .opened, .literal | .opened, .raw => some .ended
  | .blank, .closing => some .ended
  | .ended, .groupBreak | .ended, .plus => some .separated
  | .ended, .closing => some .ended
  | .ended, .question => some .opened
  | .ended, .colon => some .alternative
  | .separated, .opening => some .opened
  | .separated, .literal | .separated, .raw => some .ended
  | .alternative, .opening => some .opened
  | .alternative, .empty => some .lacking
  | .lacking, .groupBreak => some .separated
  | .lacking, .closing => some .ended
  | _, _ => none

/-- Where parts lead, one after the other. -/
def after? (q : Place) (ps : List Part) : Option Place :=
  ps.foldlM next? q

variable {q q₁ q₂ : Place}

theorem after?_cons {p : Part} {ps : List Part} (h : q.next? p = some q₁)
    (hps : q₁.after? ps = some q₂) : q.after? (p :: ps) = some q₂ := by
  rw [after?, List.foldlM_cons, h]
  exact hps

theorem after?_append {ps ps' : List Part} (h : q.after? ps = some q₁)
    (h' : q₁.after? ps' = some q₂) : q.after? (ps ++ ps') = some q₂ := by
  rw [after?, List.foldlM_append, ← after?, h]
  exact h'

theorem exists_of_after?_append {ps ps' : List Part} (h : q.after? (ps ++ ps') = some q₂) :
    ∃ q₁, q.after? ps = some q₁ ∧ q₁.after? ps' = some q₂ := by
  rw [after?, List.foldlM_append] at h
  exact Option.bind_eq_some_iff.1 h

theorem exists_of_after?_cons {p : Part} {ps : List Part} (h : q.after? (p :: ps) = some q₂) :
    ∃ q₁, q.next? p = some q₁ ∧ q₁.after? ps = some q₂ := by
  rw [after?, List.foldlM_cons] at h
  exact Option.bind_eq_some_iff.1 h

/-- The last part before a place. -/
theorem exists_concat_of_after? {ps : List Part} (h : q.after? ps = some q₂) (hne : q ≠ q₂) :
    ∃ older p q₁, ps = older ++ [p] ∧ q.after? older = some q₁ ∧ q₁.next? p = some q₂ := by
  rcases List.eq_nil_or_concat ps with rfl | ⟨older, p, rfl⟩
  · exact absurd (Option.some.inj h) hne
  · rw [List.concat_eq_append] at h ⊢
    obtain ⟨q₁, holder, hp⟩ := exists_of_after?_append h
    obtain ⟨q', hnext, hq'⟩ := exists_of_after?_cons hp
    obtain rfl : q' = q₂ := Option.some.inj hq'
    exact ⟨older, p, q₁, rfl, holder, hnext⟩

/-! ### Neighbours -/

/-- The parts that lead to a place. -/
def entries : Place → List Part
  | .opened => [.opening, .question]
  | .blank | .lacking => [.empty]
  | .ended => [.literal, .raw, .closing]
  | .separated => [.groupBreak, .plus]
  | .alternative => [.colon]

/-- The parts that can stand at a place. -/
def exits : Place → List Part
  | .opened => [.opening, .empty, .literal, .raw]
  | .blank => [.closing]
  | .ended => [.groupBreak, .plus, .closing, .question, .colon]
  | .separated => [.literal, .raw, .opening]
  | .alternative => [.opening, .empty]
  | .lacking => [.groupBreak, .closing]

theorem mem_of_next? {p : Part} (h : q.next? p = some q₁) : p ∈ q.exits ∧ p ∈ q₁.entries := by
  cases q <;> cases p <;> cases h <;> decide

/-- Where separators can stand. -/
theorem next?_separator {p : Part} (hp : p.isSeparator = true) (h : q.next? p = some q₁) :
    q₁ = .separated ∧ (q = .ended ∨ q = .lacking ∧ p = .groupBreak) := by
  cases p <;> cases hp <;> cases q <;> cases h <;> decide

/-- What stands before a place. -/
theorem getLast?_mem_entries {ps : List Part} (h : q.after? ps = some q₂) (hne : q ≠ q₂) :
    ps.getLast? ∈ q₂.entries.map some := by
  obtain ⟨older, p, q₁, rfl, -, hp⟩ := exists_concat_of_after? h hne
  rw [List.getLast?_concat]
  exact List.mem_map_of_mem (mem_of_next? hp).2

/-- What stands after a place. -/
theorem head?_mem_exits {ps : List Part} (h : q.after? ps = some q₂) (hne : q ≠ q₂) :
    ps.head? ∈ q.exits.map some := by
  cases ps with
  | nil => exact absurd (Option.some.inj h) hne
  | cons p ps =>
    obtain ⟨q₁, hp, -⟩ := exists_of_after?_cons h
    exact List.mem_map_of_mem (mem_of_next? hp).1

/-- Only an empty literal after a colon leads to the place of an implicit alternative. -/
theorem exists_of_lacking {ps : List Part} (h : q.after? ps = some .lacking)
    (hlacking : q ≠ .lacking) (halternative : q ≠ .alternative) :
    ∃ older, ps = older ++ [.empty] ∧ older.getLast? = some .colon := by
  obtain ⟨older, p, q₁, rfl, holder, hp⟩ := exists_concat_of_after? h hlacking
  have hplace : q₁ = .alternative ∧ p = .empty := by
    cases q₁ <;> cases p <;> cases hp
    exact ⟨rfl, rfl⟩
  obtain ⟨rfl, rfl⟩ := hplace
  exact ⟨older, rfl, List.mem_singleton.1 (getLast?_mem_entries holder halternative)⟩

end Place

/-- Parts that lead from the start of an expression to its end are neat. -/
theorem neat_of_after? {ps : List Part} (h : Place.separated.after? ps = some .ended) :
    Neat ps where
  empty before after hps := by
    rw [hps] at h
    obtain ⟨q, hbefore, h⟩ := Place.exists_of_after?_append h
    obtain ⟨q', hq, hafter⟩ := Place.exists_of_after?_cons h
    -- an empty literal can only stand at two places
    cases q <;> cases hq
    · exact .inl ⟨Place.getLast?_mem_entries hbefore (by simp),
        List.mem_singleton.1 (Place.head?_mem_exits hafter (by simp))⟩
    · exact .inr ⟨List.mem_singleton.1 (Place.getLast?_mem_entries hbefore (by simp)),
        Place.head?_mem_exits hafter (by simp)⟩
  separator before p after hps hp := by
    rw [hps] at h
    obtain ⟨q, hbefore, h⟩ := Place.exists_of_after?_append h
    obtain ⟨q', hq, hafter⟩ := Place.exists_of_after?_cons h
    obtain ⟨rfl, hplace⟩ := Place.next?_separator hp hq
    refine ⟨?_, Place.head?_mem_exits hafter (by simp)⟩
    rcases hplace with rfl | ⟨rfl, rfl⟩
    · exact .inl (Place.getLast?_mem_entries hbefore (by simp))
    · obtain ⟨older, rfl, hcolon⟩ := Place.exists_of_lacking hbefore (by simp) (by simp)
      exact .inr ⟨older, rfl, hcolon, List.mem_cons_self⟩

/-! ### Pruned layouts -/

/-- The parts of fragments. -/
def parts (fs : List Fragment) : List Part :=
  fs.map (·.part)

theorem parts_append (fs gs : List Fragment) : parts (fs ++ gs) = parts fs ++ parts gs :=
  List.map_append

/-- A place where a term has to follow. -/
def Place.Awaits (q : Place) : Prop :=
  q = .opened ∨ q = .separated

/-- A place where a group may end. -/
def Place.Rests (q : Place) : Prop :=
  q = .ended ∨ q = .lacking

theorem Place.Rests.next?_groupBreak {q : Place} (h : q.Rests) :
    q.next? .groupBreak = some .separated := by
  rcases h with rfl | rfl <;> rfl

theorem Place.Rests.next?_closing {q : Place} (h : q.Rests) : q.next? .closing = some .ended := by
  rcases h with rfl | rfl <;> rfl

/-- Fragments that lead from where a term has to follow to where a group may end. -/
def Fills (fs : List Fragment) : Prop :=
  ∀ q : Place, q.Awaits → ∃ q' : Place, q'.Rests ∧ q.after? (parts fs) = some q'

theorem Place.Awaits.next?_term {q : Place} (hq : q.Awaits) {t : Term} (h : t ≠ .literal "") :
    q.next? t.fragment.part = some .ended := by
  have hpart : t.fragment.part = .literal ∨ t.fragment.part = .raw := by
    cases t with
    | literal s => exact .inl (literal_part fun hs => h (by rw [hs]))
    | splice e => exact .inr rfl
  rcases hq with rfl | rfl <;> rcases hpart with hpart | hpart <;> rw [hpart] <;> rfl

theorem after?_termFragments {ts : List Term} (h : Full ts) :
    Place.ended.after? (parts (termFragments ts)) = some .ended := by
  induction ts with
  | nil => rfl
  | cons t ts ih =>
    obtain ⟨ht, hts⟩ := List.forall_mem_cons.1 h
    have hterm : Place.separated.next? t.fragment.part = some .ended :=
      Place.Awaits.next?_term (.inr rfl) ht
    exact Place.after?_cons rfl (Place.after?_cons hterm (ih hts))

theorem fills_sum {first : Term} {rest : List Term} (h : Full (first :: rest)) :
    Fills (groupFragments (.sum first rest)) := by
  intro q hq
  obtain ⟨hfirst, hrest⟩ := List.forall_mem_cons.1 h
  rw [groupFragments]
  exact ⟨.ended, .inl rfl, Place.after?_cons (hq.next?_term hfirst) (after?_termFragments hrest)⟩

/-- Groups in a row fill the place of one. -/
theorem fills_fragments {gs : List Group} (hne : gs ≠ []) (h : ∀ g ∈ gs, Fills (groupFragments g)) :
    Fills (fragments gs) := by
  induction gs with
  | nil => exact absurd rfl hne
  | cons g gs ih =>
    obtain ⟨hg, hgs⟩ := List.forall_mem_cons.1 h
    cases gs with
    | nil =>
      rw [fragments]
      exact hg
    | cons g' gs =>
      intro q hq
      obtain ⟨q₁, hrests, hfirst⟩ := hg q hq
      obtain ⟨q₂, hrests', hothers⟩ := ih (List.cons_ne_nil g' gs) hgs .separated (.inr rfl)
      rw [fragments_cons, parts_append]
      exact ⟨q₂, hrests', Place.after?_append hfirst
        (Place.after?_cons hrests.next?_groupBreak hothers)⟩

/-- A body between its parentheses. -/
theorem after?_body {gs : List Group} (h : ∀ g ∈ prunedGroups gs, Fills (groupFragments g)) :
    Place.opened.after? (parts (fragments (orBlank (prunedGroups gs)) ++ [.fixed .closing])) =
      some .ended := by
  rcases hgroups : prunedGroups gs with _ | ⟨g, hs⟩
  · rfl
  · rw [hgroups] at h
    obtain ⟨q, hrests, hfill⟩ := fills_fragments (List.cons_ne_nil g hs) h .opened (.inl rfl)
    rw [parts_append]
    exact Place.after?_append hfill (Place.after?_cons hrests.next?_closing rfl)

mutual

theorem fills_prunedGroup {g : Group} (h : TidyGroup g) (hblank : ¬g.IsBlank) :
    Fills (groupFragments (prunedGroup g)) := by
  match g with
  | .sum first rest =>
    rw [TidyGroup] at h
    rw [prunedGroup]
    exact fills_sum (h.resolve_left hblank).1
  | .choice chain =>
    rw [TidyGroup] at h
    intro q hq
    rw [prunedGroup, groupFragments]
    exact after?_prunedChain h.2 (.inl ⟨h.1, hq⟩)

theorem fills_prunedGroups {gs : List Group} (h : TidyGroups gs) :
    ∀ g ∈ prunedGroups gs, Fills (groupFragments g) := by
  match gs with
  | [] => simp [prunedGroups]
  | g :: gs =>
    rw [TidyGroups] at h
    by_cases hblank : g.IsBlank
    · rw [prunedGroups_of_blank hblank]
      exact fills_prunedGroups h.2
    · rw [prunedGroups_of_not_blank hblank, List.forall_mem_cons]
      exact ⟨fills_prunedGroup h.1 hblank, fills_prunedGroups h.2⟩

/-- A chain stands where a term has to follow, and its later branches stand after a colon. -/
theorem after?_prunedChain {c : Chain Group} (h : TidyChain c) {q : Place}
    (hq : c.IsBranch ∧ q.Awaits ∨ q = .alternative) :
    ∃ q' : Place, q'.Rests ∧ q.after? (parts (chainFragments (prunedChain c))) = some q' := by
  match c with
  | .nothing =>
    obtain rfl : q = .alternative := hq.resolve_left fun hbranch => hbranch.1
    rw [prunedChain, chainFragments]
    exact ⟨.lacking, .inr rfl, rfl⟩
  | .otherwise body =>
    obtain rfl : q = .alternative := hq.resolve_left fun hbranch => hbranch.1
    rw [TidyChain] at h
    rw [prunedChain, chainFragments]
    exact ⟨.ended, .inl rfl, Place.after?_cons rfl (after?_body (fills_prunedGroups h.2.2))⟩
  | .branch condition body rest =>
    rw [TidyChain] at h
    obtain ⟨q', hrests, hrest⟩ := after?_prunedChain h.2.2.2 (.inr rfl)
    have hopening : q.next? .opening = some .opened := by
      rcases hq with ⟨-, rfl | rfl⟩ | rfl <;> rfl
    have hsplit : chainFragments (prunedChain (.branch condition body rest)) =
        [.fixed .opening, .raw (some condition), .fixed .question] ++
          ((fragments (orBlank (prunedGroups body)) ++ [.fixed .closing]) ++
            .fixed .colon :: chainFragments (prunedChain rest)) := by
      simp only [prunedChain, chainFragments, List.cons_append, List.nil_append, List.append_assoc]
    refine ⟨q', hrests, ?_⟩
    rw [hsplit, parts_append, parts_append]
    exact Place.after?_append (Place.after?_cons hopening rfl)
      (Place.after?_append (after?_body (fills_prunedGroups h.2.2.1)) (Place.after?_cons rfl hrest))

end

/-! ### Compiled stylesheets -/

theorem after?_tree (limit : Nat) {body : List Node} (h : AreRules body) :
    Place.separated.after? (parts (prune (treeFragments limit body)).reverse) = some .ended := by
  rw [prune_treeFragments limit h, treeLayout, prunedBody]
  exact Place.after?_cons rfl (after?_body (fills_prunedGroups (tidy_tree limit h)))

/-- Of a stylesheet that was read from a text and compiled, every empty literal that is kept is the
whole body of a branch or of the stylesheet, or the alternative of a block without `@else`; and
every separator that is kept stands after a literal, an expression, a closing parenthesis or such
an alternative, and before a literal, an expression or an opening parenthesis. -/
theorem compile_neat {source : String} {tree : Node} (h : parse source = .ok tree) {limit : Nat}
    {s s' : Session} {text : String} (hcompile : Session.compile limit tree s = .ok text s') :
    Neat (parts s'.kept.reverse) := by
  obtain ⟨body, rfl, hbody⟩ := regular_of_parse h
  by_cases hgood : Conditioned (.stylesheet body)
  · rw [compile_of_conditioned limit hbody hgood] at hcompile
    cases hcompile
    exact neat_of_after? (after?_tree limit hbody)
  · obtain ⟨b, t, herror⟩ := compile_of_not_conditioned limit hbody hgood s
    rw [herror] at hcompile
    cases hcompile

/-- A block whose branch is empty, and a declaration of a number. -/
def emptyThenNumber : Node :=
  .stylesheet [.conditionalBlock [.conditionalRule .ifTrue (some "a") []],
    .ruleset [".c"] [.declaration "d" [.runtime "n"] false]]

/-- The empty literal before the block is dropped, and so is the group break after it. -/
theorem compile_neat_emptyThenNumber :
    parse "@if(eval(\"a\"))\x7b\x7d.c\x7bd:eval(\"n\")\x7d" = .ok emptyThenNumber ∧
    ∃ s', Session.compile 1 emptyThenNumber .start =
        .ok "((a) ? (\"\") : \"\") + (\".c\x7bd:\" + (n)) + (\"\x7d\")" s' ∧
      Neat (parts s'.kept.reverse) := by
  have hparse : parse "@if(eval(\"a\"))\x7b\x7d.c\x7bd:eval(\"n\")\x7d" =
      .ok emptyThenNumber := by with_unfolding_all rfl
  have htree : (compileTree ⟨1, by decide⟩ emptyThenNumber).toOption =
      some ⟨"((a) ? (\"\") : \"\") + (\".c\x7bd:\" + (n)) + (\"\x7d\")", 2⟩ := by
    decide +kernel
  obtain ⟨s', hcompile, -⟩ := compile_of_compileTree htree
  exact ⟨hparse, s', hcompile, compile_neat hparse hcompile⟩

end ConditionalStyle.Assembly
