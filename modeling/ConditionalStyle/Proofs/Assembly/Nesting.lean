import ConditionalStyle.Proofs.Assembly.Pruning
import ConditionalStyle.Proofs.Assembly.Requests

/-!
# Parentheses are closed

The fragments that are kept of a compiled stylesheet are balanced: no parenthesis is closed that was
not opened, and all that were opened are closed. The first fragment opens the whole and the last one
closes it. This holds for any tree below the root, also for trees that cannot be read from a text.

A handler may open a parenthesis that another one closes. What a walk does to the depth follows from
what entering and leaving a node do: they are opposite to each other at every node. Pruning drops
and replaces group breaks, which close a parenthesis and open another, and leaves the depth as it
is.

## Main definitions

* `brackets`: the parentheses of fragments.
* `depth?`: how many of them are open.
* `Moves`: actions that lead from one depth to another.

## Main statements

* `depth?_prune`: pruning keeps the depth.
* `moves_walk`: a walk over any tree ends at the depth where it began.
* `compile_balanced`: the fragments of a compiled stylesheet are balanced.
-/

namespace ConditionalStyle.Assembly

open Stylesheet

/-! ### Parentheses and depth -/

/-- The parentheses of a part. -/
def Part.brackets : Part → List Char
  | .opening => ['(']
  | .closing => [')']
  | .question | .groupBreak => [')', '(']
  | .colon | .plus | .literal | .empty | .raw => []

/-- The parentheses of fragments, given in the order in which they are read. -/
def brackets (fs : List Fragment) : List Char :=
  fs.flatMap (·.part.brackets)

/-- The depth after a part, unless it closes a parenthesis that is not open. -/
def Part.depth? : Part → Nat → Option Nat
  | .opening, d => some (d + 1)
  | .closing, d + 1 => some d
  | .question, d + 1 | .groupBreak, d + 1 => some (d + 1)
  | .closing, 0 | .question, 0 | .groupBreak, 0 => none
  | .colon, d | .plus, d | .literal, d | .empty, d | .raw, d => some d

/-- The depth after fragments, given newest first. -/
def depth? : List Fragment → Option Nat
  | [] => some 0
  | f :: older => (depth? older).bind f.part.depth?

/-- Parentheses of which `d` are open, and that never close what is not open. -/
structure Nested (d : Nat) (cs : List Char) : Prop where
  closed_le : ∀ p, p <+: cs → p.count ')' ≤ p.count '('
  opened_eq : cs.count '(' = cs.count ')' + d

namespace Nested

variable {d : Nat} {cs : List Char}

theorem nil : Nested 0 [] where
  closed_le p hp := by rw [List.prefix_nil.1 hp]; exact Nat.le_refl 0
  opened_eq := rfl

/-- One more parenthesis. -/
theorem concat (h : Nested d cs) {c : Char} {e : Nat}
    (hc : (cs ++ [c]).count '(' = (cs ++ [c]).count ')' + e) : Nested e (cs ++ [c]) where
  closed_le p hp := by
    rcases List.prefix_concat_iff.1 hp with rfl | hp
    · omega
    · exact h.closed_le p hp
  opened_eq := hc

theorem opening (h : Nested d cs) : Nested (d + 1) (cs ++ ['(']) := by
  have hopened := h.opened_eq
  have hone : ['('].count '(' = 1 := rfl
  have hnone : ['('].count ')' = 0 := rfl
  refine h.concat ?_
  rw [List.count_append, List.count_append, hone, hnone]
  omega

theorem closing (h : Nested (d + 1) cs) : Nested d (cs ++ [')']) := by
  have hopened := h.opened_eq
  have hone : [')'].count ')' = 1 := rfl
  have hnone : [')'].count '(' = 0 := rfl
  refine h.concat ?_
  rw [List.count_append, List.count_append, hone, hnone]
  omega

end Nested

theorem nested_of_depth? {fs : List Fragment} {d : Nat} (h : depth? fs = some d) :
    Nested d (brackets fs.reverse) := by
  induction fs generalizing d with
  | nil =>
    obtain rfl : 0 = d := Option.some.inj h
    exact .nil
  | cons f older ih =>
    obtain ⟨d', hd', hf⟩ := Option.bind_eq_some_iff.1 h
    have hsplit : brackets (f :: older).reverse = brackets older.reverse ++ f.part.brackets := by
      simp [brackets]
    rw [hsplit]
    have hnested := ih hd'
    match f.part, d', hf with
    | .opening, d', rfl => exact hnested.opening
    | .closing, d' + 1, rfl => exact hnested.closing
    | .question, d' + 1, rfl | .groupBreak, d' + 1, rfl =>
      have hboth := hnested.closing.opening
      rwa [List.append_assoc] at hboth
    | .colon, d', rfl | .plus, d', rfl | .literal, d', rfl | .empty, d', rfl | .raw, d', rfl =>
      rwa [Part.brackets, List.append_nil]

/-! ### Pruning keeps the depth -/

section Pruning

variable {f : Fragment} {fs kept : List Fragment} {d : Nat}

theorem depth?_of_empty (h : f.part = .empty) (fs : List Fragment) :
    depth? (f :: fs) = depth? fs := by
  rw [depth?, h]
  cases depth? fs <;> rfl

/-- A separator does not change the depth. -/
theorem depth?_of_separator (hf : f.part.isSeparator = true) (h : depth? (f :: fs) = some d) :
    depth? fs = some d := by
  obtain ⟨d', hd', hstep⟩ := Option.bind_eq_some_iff.1 h
  rw [hd']
  match f.part, hf, d', hstep with
  | .plus, _, d', hstep => exact hstep
  | .groupBreak, _, d' + 1, hstep => exact hstep

theorem depth?_keep (h : depth? (f :: kept) = some d) : depth? (keep f kept) = some d := by
  have hkeep := keeping_keep f kept
  generalize keep f kept = result at hkeep ⊢
  cases hkeep with
  | add => exact h
  | @closing e p older he hp hf | @breaking e p older he hp hf =>
    -- what is dropped between the new fragment and the older ones leaves the depth as it is
    obtain ⟨d', hd', hstep⟩ := Option.bind_eq_some_iff.1 h
    rw [depth?_of_empty he] at hd'
    have hp : p.part.isSeparator = true := by first | exact hp | rw [hp]; rfl
    rw [depth?, depth?_of_separator hp hd']
    exact hstep
  | merging older he _ hf _ | leading older he _ hf =>
    have hkept := depth?_of_separator hf h
    rwa [depth?_of_empty he] at hkept

theorem depth?_prune (h : depth? fs = some d) : depth? (prune fs) = some d := by
  induction fs generalizing d with
  | nil => exact h
  | cons f older ih =>
    obtain ⟨d', hd', hstep⟩ := Option.bind_eq_some_iff.1 h
    refine depth?_keep ?_
    rw [depth?, ih hd']
    exact hstep

end Pruning

/-! ### The depth of a session -/

/-- A session inside `d` parentheses. -/
def Session.Inside (d : Nat) (s : Session) : Prop :=
  depth? s.appended = some d

namespace Session.Inside

variable {d e : Nat} {s : Session}

theorem add (h : s.Inside d) {f : Fragment} (hf : f.part.depth? d = some e) :
    (s.adding f).Inside e := by
  rw [Inside, adding, depth?, h]
  exact hf

theorem literal (h : s.Inside d) (quoted : String) : (s.adding (.literal quoted)).Inside d := by
  refine h.add ?_
  rw [Fragment.literal]
  split <;> rfl

theorem flush (h : s.Inside d) : s.flushed.Inside d :=
  h.literal (Text.quote s.printer.buffer)

theorem sum (limit : Nat) (h : s.Inside (d + 1)) : (s.summed limit).Inside (d + 1) := by
  refine h.add (f := .fixed (sumPart limit s.concatenations)) ?_
  rw [sumPart]
  split <;> rfl

end Session.Inside

/-- An action that leads, where it succeeds, from inside `d` parentheses to inside `e`. -/
def Moves {α : Type} (x : Session.Compile α) (d e : Nat) : Prop :=
  ∀ s a s', s.Inside d → x s = .ok a s' → s'.Inside e

namespace Moves

variable {α β : Type} {d e g : Nat}

theorem pure (a : α) (d : Nat) : Moves (pure a) d d := by
  rintro s b s' h ⟨⟩
  exact h

theorem bind {x : Session.Compile α} {f : α → Session.Compile β} (hx : Moves x d e)
    (hf : ∀ a, Moves (f a) e g) : Moves (x >>= f) d g := by
  intro s b s'' h hok
  obtain ⟨a, s', hxs, hfs⟩ := ok_of_bind hok
  exact hf a s' b s'' (hx s a s' h hxs) hfs

theorem onPrinter (x : Printer.Print α) (d : Nat) : Moves (Session.onPrinter x) d d := by
  intro s a s' h hok
  rw [Session.onPrinter] at hok
  cases hx : x s.printer with
  | ok b p =>
    rw [hx] at hok
    cases hok
    exact h
  | error e p =>
    rw [hx] at hok
    cases hok

end Moves

/-! ### Handlers -/

section Handlers

variable (limit : Nat) (n : Node) (d : Nat)

theorem moves_enterTree : Moves (Session.enterTree n) d (d + 1) := by
  intro s a s' h hok
  rw [Session.enterTree_eq] at hok
  cases hok
  exact h.add rfl

theorem moves_leaveTree : Moves (Session.leaveTree n) (d + 1) d := by
  intro s a s' h hok
  rw [Session.leaveTree_eq] at hok
  cases hok
  exact h.flush.add rfl

theorem moves_enterBlock : Moves (Session.enterBlock n) (d + 1) (d + 1) := by
  intro s a s' h hok
  cases hchain : checkBlock n with
  | error e =>
    rw [Session.enterBlock_of_error n hchain] at hok
    cases hok
  | ok _ =>
    rw [Session.enterBlock_of_ok n hchain] at hok
    cases hok
    exact h.flush.add (f := .fixed .groupBreak) rfl

theorem moves_leaveBlock : Moves (Session.leaveBlock n) (d + 1) (d + 1) := by
  intro s a s' h hok
  cases hseen : s.elseSeen with
  | nil =>
    rw [Session.leaveBlock_of_nil n hseen] at hok
    cases hok
  | cons seen outer =>
    rw [Session.leaveBlock_of_cons n hseen] at hok
    cases hok
    have hended : (s.ended seen).Inside (d + 1) := by
      cases seen with
      | true => exact h
      | false => exact h.literal _
    exact hended.add (f := .fixed .groupBreak) rfl

theorem moves_enterRule : Moves (Session.enterRule n) d (d + 1) := by
  intro s a s' h hok
  rcases hn : n.branch? with _ | ⟨branch, condition⟩
  · rw [Session.enterRule_of_none n hn] at hok
    cases hok
  by_cases hseen : s.elseSeen = []
  · rw [Session.enterRule_of_nil n hn hseen] at hok
    cases hok
  have hopening : (s.adding (.fixed .opening)).Inside (d + 1) := h.add rfl
  by_cases hbranch : branch = .otherwise
  · subst hbranch
    obtain ⟨seen, outer, hcons⟩ := List.exists_cons_of_ne_nil hseen
    rw [Session.enterRule_otherwise n hn hcons] at hok
    cases hok
    exact hopening
  · rw [Session.enterRule_branch n hn hbranch hseen] at hok
    cases hok
    exact (hopening.add (f := .raw condition) rfl).add (f := .fixed .question) rfl

theorem moves_leaveRule : Moves (Session.leaveRule n) (d + 1) d := by
  intro s a s' h hok
  have hclosing : (s.flushed.adding (.fixed .closing)).Inside d := h.flush.add rfl
  rcases hn : n.branch? with _ | ⟨branch, condition⟩
  · rw [Session.leaveRule_of_none n hn] at hok
    cases hok
  by_cases hbranch : branch = .otherwise
  · subst hbranch
    rw [Session.leaveRule_otherwise n hn] at hok
    cases hok
    exact hclosing
  · rw [Session.leaveRule_branch n hn hbranch] at hok
    cases hok
    exact hclosing.add rfl

theorem moves_enterValue : Moves (Session.enterValue limit n) (d + 1) (d + 1) := by
  intro s a s' h hok
  rcases hvalues : s.printer.previousValues with _ | ⟨previous, outer⟩
  · rw [Session.enterValue_of_nil limit n hvalues] at hok
    cases hok
  rcases hn : n.expression? with _ | expression
  · obtain ⟨printer, henter⟩ := Session.enterValue_of_none limit n hn hvalues
    rw [henter] at hok
    cases hok
  · rw [Session.enterValue_of_cons limit n hn hvalues] at hok
    cases hok
    have hspliced : (s.spliced limit n expression previous).Inside (d + 1) :=
      (((h.literal _).sum limit).add rfl).sum limit
    exact hspliced

end Handlers

/-! ### Walks -/

/-- How many parentheses are opened when a node is entered. -/
def opened : Node → Nat
  | .stylesheet _ | .conditionalRule .. => 1
  | _ => 0

theorem opened_of_plain {n : Node} (h : IsPlain n) : opened n = 0 := by
  cases n with
  | stylesheet | conditionalRule => simp [IsPlain, Node.kind] at h
  | ruleset | atRule | declaration | literal | operator | function | runtime | dotPath
  | conditionalBlock | blankValue | blank => rfl

section Walks

variable (limit : Nat)

theorem moves_enter (n : Node) (d : Nat) :
    Moves ((Session.handlers limit).enter n) (d + 1) (d + 1 + opened n) := by
  by_cases hplain : IsPlain n
  · rw [(handlers_of_plain limit hplain).1, opened_of_plain hplain]
    exact .onPrinter _ (d + 1)
  · cases n with
    | stylesheet body => exact moves_enterTree (.stylesheet body) (d + 1)
    | conditionalBlock bs => exact moves_enterBlock _ d
    | conditionalRule b c body => exact moves_enterRule (.conditionalRule b c body) (d + 1)
    | runtime e => exact moves_enterValue limit _ d
    | dotPath path after before => exact moves_enterValue limit _ d
    | blankValue => exact .onPrinter (Printer.refuseValue .blankValue) (d + 1)
    | blank => exact .pure true (d + 1)
    | ruleset | atRule | declaration | literal | operator | function =>
      exact absurd (by simp [IsPlain, Node.kind]) hplain

theorem moves_leave (n : Node) (d : Nat) :
    Moves ((Session.handlers limit).leave n) (d + 1 + opened n) (d + 1) := by
  by_cases hplain : IsPlain n
  · rw [(handlers_of_plain limit hplain).2, opened_of_plain hplain]
    exact .onPrinter _ (d + 1)
  · cases n with
    | stylesheet body => exact moves_leaveTree (.stylesheet body) (d + 1)
    | conditionalBlock bs => exact moves_leaveBlock (.conditionalBlock bs) d
    | conditionalRule b c body => exact moves_leaveRule (.conditionalRule b c body) (d + 1)
    | runtime | dotPath | blankValue | blank => exact .pure () (d + 1)
    | ruleset | atRule | declaration | literal | operator | function =>
      exact absurd (by simp [IsPlain, Node.kind]) hplain

theorem moves_walkAll {ns : List Node} {d : Nat}
    (h : ∀ n ∈ ns, Moves (walk (Session.handlers limit) n) d d) :
    Moves (walkAll (Session.handlers limit) ns) d d := by
  induction ns with
  | nil => exact .pure () d
  | cons n ns ih =>
    obtain ⟨hn, hns⟩ := List.forall_mem_cons.1 h
    rw [walkAll]
    exact hn.bind fun _ => ih hns

/-- A walk inside a parenthesis ends at the depth where it began. -/
theorem moves_walk (n : Node) (d : Nat) :
    Moves (walk (Session.handlers limit) n) (d + 1) (d + 1) := by
  have hchildren : Moves (walkAll (Session.handlers limit) n.children) (d + 1 + opened n)
      (d + 1 + opened n) := by
    rw [Nat.add_right_comm]
    exact moves_walkAll limit fun c hc => moves_walk c (d + opened n)
  rw [walk_eq_visit]
  refine (moves_enter limit n d).bind fun descend => ?_
  cases descend with
  | false => exact moves_leave limit n d
  | true => exact hchildren.bind fun _ => moves_leave limit n d
termination_by sizeOf n
decreasing_by exact sizeOf_lt_of_mem_children hc

end Walks

/-! ### The first and the last fragment -/

/-- A session whose first fragment is an opening parenthesis. -/
def Rooted (s : Session) : Prop :=
  s.kept.getLast? = some (.fixed .opening)

/-- The first fragment is not dropped if it is a parenthesis. -/
theorem getLast?_keep (f : Fragment) {kept : List Fragment}
    (h : kept.getLast? = some (.fixed .opening)) :
    (keep f kept).getLast? = some (.fixed .opening) := by
  have hkeep := keeping_keep f kept
  generalize keep f kept = result at hkeep ⊢
  cases hkeep with
  | add => rw [List.getLast?_cons, h, Option.getD_some]
  | @closing e p older he hp hf | @breaking e p older he hp hf =>
    rw [List.getLast?_cons_cons] at h
    cases older with
    | nil =>
      -- the fragment before the literal is a separator and so not the first
      obtain rfl : p = .fixed .opening := Option.some.inj h
      cases hp
    | cons g older =>
      rw [List.getLast?_cons_cons] at h ⊢
      exact h
  | merging older _ _ _ _ | leading older _ _ _ => rwa [List.getLast?_cons_cons] at h

theorem isLasting_rooted (limit : Nat) : IsLasting limit Rooted where
  congr {s t} h happended _ := by
    rw [Rooted, Session.kept, happended]
    exact h
  add h _ _ := getLast?_keep _ h
  restart h _ _ := getLast?_keep _ h
  sum h := getLast?_keep _ h

theorem head?_keep_of_closing {f : Fragment} (h : f.part = .closing) (kept : List Fragment) :
    (keep f kept).head? = some f := by
  have hkeep := keeping_keep f kept
  generalize keep f kept = result at hkeep ⊢
  cases hkeep with
  | add | closing _ _ _ _ | breaking _ _ _ _ => rfl
  | merging _ _ _ hf _ | leading _ _ _ hf =>
    rw [h] at hf
    cases hf

/-! ### Compiled stylesheets -/

theorem walk_of_compile {limit : Nat} {n : Node} {s s' : Session} {text : String}
    (h : Session.compile limit n s = .ok text s') :
    walk (Session.handlers limit) n .start = .ok () s' := by
  have hset : (set Session.start : Session.Compile PUnit) s = .ok ⟨⟩ .start := rfl
  rw [Session.compile, bind_of_ok hset] at h
  obtain ⟨_, s₁, hwalk, h⟩ := ok_of_bind h
  obtain ⟨_, _, ⟨⟩, h⟩ := ok_of_bind h
  -- what follows the walk only reads the session
  cases hseen : s₁.elseSeen with
  | cons seen outer =>
    rw [hseen] at h
    cases h
  | nil =>
    cases htext : s₁.text? with
    | none =>
      rw [hseen, htext] at h
      cases h
    | some t =>
      rw [hseen, htext] at h
      cases h
      exact hwalk

/-- The fragments that are kept of a compiled stylesheet, whatever nodes it is made of, are
balanced: no prefix of their parentheses closes more than it opens, and all of them together close
as many as they open. The first fragment is an opening parenthesis and the last one is a closing
one. -/
theorem compile_balanced {limit : Nat} {body : List Node} {s s' : Session} {text : String}
    (h : Session.compile limit (.stylesheet body) s = .ok text s') :
    (∀ p, p <+: brackets s'.kept.reverse → p.count ')' ≤ p.count '(') ∧
      (brackets s'.kept.reverse).count '(' = (brackets s'.kept.reverse).count ')' ∧
      s'.kept.reverse.head? = some (.fixed .opening) ∧
      s'.kept.reverse.getLast? = some (.fixed .closing) := by
  have henter : (Session.handlers limit).enter (.stylesheet body) .start =
      .ok true (Session.start.adding (.fixed .opening)) := rfl
  have hwalk := walk_of_compile h
  rw [walk, visit_of_true henter] at hwalk
  obtain ⟨_, s₁, hbody, hleave⟩ := ok_of_bind hwalk
  obtain rfl : s₁.flushed.adding (.fixed .closing) = s' := by
    cases hleave
    rfl
  have hopening : (Session.start.adding (.fixed .opening)).Inside 1 := rfl
  have hinside : s₁.Inside 1 :=
    moves_walkAll limit (fun n _ => moves_walk limit n 0) _ _ _ hopening hbody
  have hrooted : Rooted s₁ := by
    have hkeeps : Keeps Rooted (walkAll (Session.handlers limit) body) :=
      .walkAll fun n _ => (isLasting_rooted limit).keeps_walk n
    have hafter := hkeeps _ (rfl : Rooted (Session.start.adding (.fixed .opening)))
    rwa [stateAfter, hbody] at hafter
  have hclosed : (s₁.flushed.adding (.fixed .closing)).Inside 0 := hinside.flush.add rfl
  have hnested := nested_of_depth? (depth?_prune hclosed)
  refine ⟨hnested.closed_le, hnested.opened_eq, ?_, ?_⟩
  · rw [List.head?_reverse]
    exact getLast?_keep _ ((isLasting_rooted limit).flush hrooted)
  · rw [List.getLast?_reverse]
    exact head?_keep_of_closing rfl _

/-- A branch that holds another stylesheet, and a declaration that holds branches. -/
def tangled : List Node :=
  [.conditionalBlock [.conditionalRule .ifTrue (some "a") [.stylesheet [],
    .ruleset [".b"] [.declaration "c" [.runtime "n",
      .conditionalRule .elseIf (some "d") [.operator ","],
      .conditionalRule .otherwise none []] false]]]]

/-- What is compiled here is no expression, as a term follows another without a sum, but its
parentheses are balanced. -/
theorem compile_balanced_tangled :
    ∃ s', Session.compile 1 (.stylesheet tangled) .start =
        .ok ("((a) ? ((\"\")\".b\x7bc:\" + (n)) + ((d) ? (\",\") : (\"\")\"\x7d\") : )") s' ∧
      s'.groupBreaks = 1 ∧
      (∀ p, p <+: brackets s'.kept.reverse → p.count ')' ≤ p.count '(') ∧
      (brackets s'.kept.reverse).count '(' = (brackets s'.kept.reverse).count ')' ∧
      s'.kept.reverse.head? = some (.fixed .opening) ∧
      s'.kept.reverse.getLast? = some (.fixed .closing) := by
  have htree : (compileTree ⟨1, by decide⟩ (.stylesheet tangled)).toOption =
      some ⟨"((a) ? ((\"\")\".b\x7bc:\" + (n)) + ((d) ? (\",\") : (\"\")\"\x7d\") : )", 1⟩ := by
    decide +kernel
  obtain ⟨s', hcompile, hbreaks⟩ := compile_of_compileTree htree
  exact ⟨s', hcompile, hbreaks, compile_balanced hcompile⟩

end ConditionalStyle.Assembly
