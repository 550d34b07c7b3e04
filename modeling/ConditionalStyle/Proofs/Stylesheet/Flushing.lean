import ConditionalStyle.Proofs.Stylesheet.Walk
import ConditionalStyle.Stylesheet.Compact

/-!
# Flushing a printer

A printer decides which separator comes next from its two stacks and never from the text that it
holds. So this text can be taken out between any two calls of handlers, as often as one likes: the
texts taken out, put together, are what is printed without that, and the stacks are the same at
every point.

Each action of a printer appends to its text without looking at it, and opens or closes a known
number of bodies and lists of components. Both follow from the same for the few actions that
handlers are made of. What a node opens when it is entered, it closes when it is left; so a walk
that succeeds leaves both stacks as long as they were, on trees of any shape.

## Main definitions

* `Follows`: actions that do what other ones do, on a state that is related to theirs.
* `Prints`: actions that append text and lead from one depth of the stacks to another.
* `Cutter`, `Cutter.print`: printing with the text taken out at chosen points.

## Main statements

* `Follows.walk`: a walk follows another one if its handlers do.
* `prints_walk`: a walk appends text and keeps the depth of the stacks.
* `printTree_cut`: what is printed does not depend on where the printer is flushed.
-/

namespace ConditionalStyle.Stylesheet

/-! ### Walks that follow others -/

section Following

variable {σ τ ε α β : Type} {R : σ → τ → Prop}

/-- Wherever `x` succeeds, `y` succeeds with the same result, and related states stay related. -/
def Follows (R : σ → τ → Prop) (x : Visit σ ε α) (y : Visit τ ε α) : Prop :=
  ∀ s t a s', R s t → x s = .ok a s' → ∃ t', y t = .ok a t' ∧ R s' t'

namespace Follows

theorem pure (a : α) : Follows R (pure a : Visit σ ε α) (pure a) := by
  rintro s t b s' h ⟨⟩
  exact ⟨t, rfl, h⟩

theorem bind {x : Visit σ ε α} {y : Visit τ ε α} {f : α → Visit σ ε β} {g : α → Visit τ ε β}
    (h : Follows R x y) (hfg : ∀ a, Follows R (f a) (g a)) : Follows R (x >>= f) (y >>= g) := by
  intro s t b s'' hst hok
  obtain ⟨a, s', hx, hf⟩ := ok_of_bind hok
  obtain ⟨t', hy, hst'⟩ := h s t a s' hst hx
  obtain ⟨t'', hg, hst''⟩ := hfg a s' t' b s'' hst' hf
  exact ⟨t'', by rw [bind_of_ok hy, hg], hst''⟩

variable {r : Registry σ ε} {r' : Registry τ ε}

theorem visit {n : Node} {children : Visit σ ε Unit} {children' : Visit τ ε Unit}
    (henter : Follows R (r.enter n) (r'.enter n)) (hchildren : Follows R children children')
    (hleave : Follows R (r.leave n) (r'.leave n)) :
    Follows R (r.visit n children) (r'.visit n children') := by
  refine henter.bind fun descend => ?_
  cases descend with
  | false => exact hleave
  | true => exact hchildren.bind fun _ => hleave

theorem walkAll {ns : List Node} (h : ∀ n ∈ ns, Follows R (walk r n) (walk r' n)) :
    Follows R (walkAll r ns) (walkAll r' ns) := by
  induction ns with
  | nil => exact .pure ()
  | cons n ns ih =>
    obtain ⟨hn, hns⟩ := List.forall_mem_cons.1 h
    rw [Stylesheet.walkAll, Stylesheet.walkAll]
    exact hn.bind fun _ => ih hns

/-- A walk follows another one if its handlers do. -/
theorem walk (henter : ∀ n, Follows R (r.enter n) (r'.enter n))
    (hleave : ∀ n, Follows R (r.leave n) (r'.leave n)) (n : Node) :
    Follows R (walk r n) (walk r' n) := by
  rw [walk_eq_visit, walk_eq_visit]
  exact .visit (henter n) (.walkAll fun c hc => walk henter hleave c) (hleave n)
termination_by sizeOf n
decreasing_by exact sizeOf_lt_of_mem_children hc

end Follows

end Following

/-! ### Something before every call -/

section Preceded

variable {σ τ ε : Type} (lift : {α : Type} → Visit σ ε α → Visit τ ε α) (before : Visit τ ε Unit)

/-- A handler on another state, with an action before each call. -/
def Handler.preceded (h : Handler σ ε) : Handler τ ε :=
  ⟨h.kind, h.enter.map fun f n => before >>= fun _ => lift (f n),
    h.leave.map fun f n => before >>= fun _ => lift (f n)⟩

/-- The handlers of a registry on another state, with an action before each call. -/
def Registry.preceded (r : Registry σ ε) : Registry τ ε :=
  ⟨r.handlers.map fun h => h.preceded lift before⟩

variable (r : Registry σ ε)

theorem lookup?_preceded (k : Node.Kind) : (r.preceded lift before).lookup? k =
    (r.lookup? k).map fun h => h.preceded lift before := by
  rw [Registry.lookup?, Registry.lookup?, List.map_findSome?]
  congr 1
  funext k'
  exact List.find?_map

/-- Whether something is done when a node is entered. -/
def Registry.entersAt (n : Node) : Bool :=
  ((r.lookup? n.kind).bind (·.enter)).isSome

/-- Whether something is done when a node is left. -/
def Registry.leavesAt (n : Node) : Bool :=
  ((r.lookup? n.kind).bind (·.leave)).isSome

theorem enter_preceded (n : Node) : (r.preceded lift before).enter n =
    if r.entersAt n then before >>= fun _ => lift (r.enter n) else pure true := by
  rw [Registry.enter, lookup?_preceded, Registry.entersAt, Registry.enter]
  rcases r.lookup? n.kind with _ | ⟨kind, _ | enter, leave⟩ <;> rfl

theorem leave_preceded (n : Node) : (r.preceded lift before).leave n =
    if r.leavesAt n then before >>= fun _ => lift (r.leave n) else pure () := by
  rw [Registry.leave, lookup?_preceded, Registry.leavesAt, Registry.leave]
  rcases r.lookup? n.kind with _ | ⟨kind, enter, _ | leave⟩ <;> rfl

theorem enter_of_not_entersAt {n : Node} (h : ¬r.entersAt n = true) : r.enter n = pure true := by
  rw [Registry.entersAt, Bool.not_eq_true, Option.isSome_eq_false_iff,
    Option.isNone_iff_eq_none] at h
  rw [Registry.enter, h]

theorem leave_of_not_leavesAt {n : Node} (h : ¬r.leavesAt n = true) : r.leave n = pure () := by
  rw [Registry.leavesAt, Bool.not_eq_true, Option.isSome_eq_false_iff,
    Option.isNone_iff_eq_none] at h
  rw [Registry.leave, h]

end Preceded

/-! ### What the actions of a printer do -/

namespace Printer

/-- The printer whose text stands after another one. -/
def after (text : String) (p : Printer) : Printer :=
  { p with buffer := text ++ p.buffer }

/-- How many bodies and how many lists of components are open. -/
def depth (p : Printer) : Nat × Nat :=
  (p.firstDeclarations.length, p.previousValues.length)

/-- The result of an action that was done after a text. -/
def resultAfter {α : Type} (text : String) :
    EStateM.Result PrintError Printer α → EStateM.Result PrintError Printer α
  | .ok a p => .ok a (p.after text)
  | .error e p => .error e (p.after text)

/-- An action that appends text, whatever text stands there, and leads from the depth `d` to the
depth `e`. -/
structure Prints {α : Type} (x : Print α) (d e : Nat × Nat) : Prop where
  blind : ∀ text p, x (p.after text) = resultAfter text (x p)
  depth : ∀ p a p', p.depth = d → x p = .ok a p' → p'.depth = e

namespace Prints

variable {α β : Type} {d e g : Nat × Nat}

theorem pure (a : α) (d : Nat × Nat) : Prints (pure a) d d where
  blind _ _ := rfl
  depth := by
    rintro p b p' h ⟨⟩
    exact h

theorem throw (cause : PrintError) (d e : Nat × Nat) : Prints (throw cause : Print α) d e where
  blind _ _ := rfl
  depth := by
    rintro p b p' h ⟨⟩

theorem bind {x : Print α} {f : α → Print β} (hx : Prints x d e) (hf : ∀ a, Prints (f a) e g) :
    Prints (x >>= f) d g where
  blind text p := by
    have hblind := hx.blind text p
    cases h : x p with
    | ok a p' =>
      rw [h] at hblind
      rw [bind_of_ok hblind, bind_of_ok h]
      exact (hf a).blind text p'
    | error cause p' =>
      rw [h] at hblind
      rw [bind_of_error hblind, bind_of_error h]
      rfl
  depth p b p'' h hok := by
    obtain ⟨a, p', hxp, hfp⟩ := ok_of_bind hok
    exact (hf a).depth p' b p'' (hx.depth p a p' h hxp) hfp

theorem ite {x y : Print α} {c : Prop} [Decidable c] (hx : Prints x d e) (hy : Prints y d e) :
    Prints (if c then x else y) d e := by
  split
  · exact hx
  · exact hy

end Prints

section Actions

variable (n : Node) (d : Nat × Nat) (b v : Nat)

theorem prints_put (text : String) : Prints (put text) d d where
  blind before p := by
    change EStateM.Result.ok () { p with buffer := before ++ p.buffer ++ text } = _
    rw [String.append_assoc]
    rfl
  depth := by
    rintro p a p' h ⟨⟩
    exact h

theorem prints_beginValue : Prints (beginValue n) d d := by
  have hspace (previous : Option Node) :
      Prints (if needsSpace previous n then put " " else pure ()) d d :=
    .ite (prints_put d " ") (.pure () d)
  constructor
  · rintro text ⟨buffer, firsts, _ | ⟨previous, outer⟩⟩
    · rfl
    · exact (hspace previous).blind text ⟨buffer, firsts, previous :: outer⟩
  · rintro ⟨buffer, firsts, _ | ⟨previous, outer⟩⟩ a p' h hok
    · cases hok
    · exact (hspace previous).depth _ a p' h hok

theorem prints_endValue : Prints (endValue n) d d where
  blind text := by
    rintro ⟨buffer, firsts, _ | ⟨previous, outer⟩⟩ <;> rfl
  depth := by
    rintro ⟨buffer, firsts, _ | ⟨previous, outer⟩⟩ a p' h hok
    · cases hok
    · cases hok
      exact h

theorem prints_field {α : Type} (name : String) (get? : Node → Option α) :
    Prints (field name get? n) d d := by
  rw [field]
  split
  · exact .pure _ d
  · exact .throw _ d d

theorem prints_enterText : Prints (enterText n) d d :=
  (prints_beginValue n d).bind fun _ => (prints_field n d _ _).bind fun text =>
    (prints_put d text).bind fun _ => (prints_endValue n d).bind fun _ => .pure false d

theorem prints_openValues : Prints openValues (b, v) (b, v + 1) where
  blind _ _ := rfl
  depth := by
    rintro p a p' h ⟨⟩
    cases h
    rfl

theorem prints_closeValues : Prints closeValues (b, v + 1) (b, v) where
  blind text := by
    rintro ⟨buffer, firsts, _ | ⟨previous, outer⟩⟩ <;> rfl
  depth := by
    rintro ⟨buffer, firsts, _ | ⟨previous, outer⟩⟩ a p' h hok
    · cases hok
    · cases hok
      cases h
      rfl

theorem prints_openBody : Prints openBody (b, v) (b + 1, v) := by
  refine (prints_put (b, v) "\x7b").bind fun _ => ⟨fun _ _ => rfl, ?_⟩
  rintro p a p' h ⟨⟩
  cases h
  rfl

theorem prints_closeBody : Prints closeBody (b + 1, v) (b, v) where
  blind text := by
    rintro ⟨buffer, _ | ⟨first, outer⟩, values⟩
    · rfl
    · exact (prints_put (b, v) "\x7d").blind text ⟨buffer, outer, values⟩
  depth := by
    rintro ⟨buffer, _ | ⟨first, outer⟩, values⟩ a p' h hok
    · cases hok
    · refine (prints_put (b, v) "\x7d").depth ⟨buffer, outer, values⟩ a p' ?_ hok
      cases h
      rfl

theorem prints_beginDeclaration : Prints beginDeclaration d d where
  blind text := by
    rintro ⟨buffer, _ | ⟨_ | _, outer⟩, values⟩
    · rfl
    · exact (prints_put d ";").blind text ⟨buffer, false :: outer, values⟩
    · rfl
  depth := by
    rintro ⟨buffer, _ | ⟨_ | _, outer⟩, values⟩ a p' h hok
    · cases hok
    · exact (prints_put d ";").depth _ a p' h hok
    · cases hok
      exact h

end Actions

/-! ### Handlers and walks -/

/-- The depth inside of a node that is entered at a depth. -/
def depthInside : Node → Nat × Nat → Nat × Nat
  | .ruleset .., (b, v) => (b + 1, v)
  | .atRule _ _ rules declarations, (b, v) =>
    if rules.isSome || declarations.isSome then (b + 1, v) else (b, v)
  | .declaration .., (b, v) | .function .., (b, v) => (b, v + 1)
  | _, d => d

theorem prints_enter (n : Node) (d : Nat × Nat) :
    Prints (handlers.enter n) d (depthInside n d) := by
  obtain ⟨b, v⟩ := d
  cases n with
  | stylesheet body => exact .pure true _
  | ruleset selectors declarations =>
    exact (prints_field _ _ _ _).bind fun _ => (prints_put _ _).bind fun _ =>
      (prints_openBody b v).bind fun _ => .pure true _
  | atRule name params rules declarations =>
    have hend : Prints (if rules.isNone && declarations.isNone then put ";" >>= fun _ => pure false
        else openBody >>= fun _ => pure true) (b, v)
        (depthInside (.atRule name params rules declarations) (b, v)) := by
      rcases rules with _ | rules <;> rcases declarations with _ | declarations
      · exact (prints_put _ _).bind fun _ => .pure false _
      all_goals exact (prints_openBody b v).bind fun _ => .pure true _
    exact (prints_put _ _).bind fun _ => .ite ((prints_put _ _).bind fun _ => hend) hend
  | declaration property values important =>
    exact (prints_beginDeclaration _).bind fun _ => (prints_field _ _ _ _).bind fun _ =>
      (prints_put _ _).bind fun _ => (prints_openValues b v).bind fun _ => .pure true _
  | literal text => exact prints_enterText _ _
  | operator text => exact prints_enterText _ _
  | function name args =>
    exact (prints_beginValue _ _).bind fun _ => (prints_field _ _ _ _).bind fun _ =>
      (prints_put _ _).bind fun _ => (prints_openValues b v).bind fun _ => .pure true _
  | conditionalBlock _ => exact .throw _ _ _
  | conditionalRule _ _ _ => exact .throw _ _ _
  | runtime _ => exact .throw _ _ _
  | dotPath _ _ _ => exact .throw _ _ _
  | blankValue => exact .throw _ _ _
  | blank => exact .pure true _

theorem prints_leave (n : Node) (d : Nat × Nat) :
    Prints (handlers.leave n) (depthInside n d) d := by
  obtain ⟨b, v⟩ := d
  cases n with
  | ruleset selectors declarations => exact prints_closeBody b v
  | atRule name params rules declarations =>
    rcases rules with _ | rules <;> rcases declarations with _ | declarations
    · exact .pure () _
    all_goals exact prints_closeBody b v
  | declaration property values important =>
    exact (prints_closeValues b v).bind fun _ => (prints_field _ _ _ _).bind fun _ =>
      .ite (prints_put _ _) (.pure () _)
  | function name args =>
    exact (prints_closeValues b v).bind fun _ => (prints_put _ _).bind fun _ => prints_endValue _ _
  | stylesheet | literal | operator | runtime | dotPath | conditionalBlock | conditionalRule
  | blankValue | blank => exact .pure () _

theorem prints_walkAll {ns : List Node} {d : Nat × Nat}
    (h : ∀ n ∈ ns, Prints (walk handlers n) d d) : Prints (walkAll handlers ns) d d := by
  induction ns with
  | nil => exact .pure () d
  | cons n ns ih =>
    obtain ⟨hn, hns⟩ := List.forall_mem_cons.1 h
    rw [walkAll]
    exact hn.bind fun _ => ih hns

/-- A walk appends text and ends at the depth where it began. -/
theorem prints_walk (n : Node) (d : Nat × Nat) : Prints (walk handlers n) d d := by
  have hchildren : Prints (walkAll handlers n.children) (depthInside n d) (depthInside n d) :=
    prints_walkAll fun c hc => prints_walk c (depthInside n d)
  rw [walk_eq_visit, Registry.visit]
  refine (prints_enter n d).bind fun descend => ?_
  cases descend with
  | false => exact prints_leave n d
  | true => exact hchildren.bind fun _ => prints_leave n d
termination_by sizeOf n
decreasing_by exact sizeOf_lt_of_mem_children hc

end Printer

/-! ### Cutting what is printed -/

/-- A printer whose text is taken out at some points: the texts taken out, and the two stacks at
each point that was passed, all newest first. -/
structure Cutter where
  printer : Printer
  texts : List String
  points : List (List Bool × List (Option Node))

namespace Cutter

/-- A cutter that has done nothing. -/
def start : Cutter := ⟨.start, [], []⟩

/-- A printing action as one of a cutter. -/
def onPrinter {α : Type} (action : Printer.Print α) : Visit Cutter PrintError α := fun c =>
  match action c.printer with
  | .ok a p => .ok a { c with printer := p }
  | .error e p => .error e { c with printer := p }

/-- Takes the text out. -/
def cut : Visit Cutter PrintError Unit := do
  let text ← onPrinter Printer.flush
  modify fun c => { c with texts := text :: c.texts }

/-- Passes a point: notes the stacks, and takes the text out if the point is one of the chosen. -/
def pass (cuts : Nat → Bool) : Visit Cutter PrintError Unit := do
  let c ← get
  set { c with points := (c.printer.firstDeclarations, c.printer.previousValues) :: c.points }
  if cuts c.points.length then cut

/-- The handlers of a printer, with a point before each call. -/
def handlers (cuts : Nat → Bool) : Registry Cutter PrintError :=
  Printer.handlers.preceded onPrinter (pass cuts)

/-- Prints a tree with the text taken out at the chosen points, of which the last one is after the
last call of a handler. Gives the text that is left at the end. -/
def print (cuts : Nat → Bool) (n : Node) : Visit Cutter PrintError String := do
  walk (handlers cuts) n
  pass cuts
  onPrinter Printer.flush

/-- The cutter after a point: the stacks are noted, and the text is taken out at the chosen
points. -/
def passed (cuts : Nat → Bool) (c : Cutter) : Cutter :=
  let points := (c.printer.firstDeclarations, c.printer.previousValues) :: c.points
  if cuts c.points.length then
    ⟨{ c.printer with buffer := "" }, c.printer.buffer :: c.texts, points⟩
  else { c with points := points }

theorem pass_eq (cuts : Nat → Bool) (c : Cutter) : pass cuts c = .ok () (c.passed cuts) := by
  rw [pass, passed, bind_of_ok (rfl : (get : Visit Cutter PrintError Cutter) c = .ok c c)]
  cases cuts c.points.length <;> rfl

theorem passed_never (c : Cutter) : c.passed (fun _ => false) =
    { c with points := (c.printer.firstDeclarations, c.printer.previousValues) :: c.points } :=
  rfl

theorem onPrinter_of_ok {α : Type} {x : Printer.Print α} {c : Cutter} {a : α} {p : Printer}
    (h : x c.printer = .ok a p) : onPrinter x c = .ok a { c with printer := p } := by
  rw [onPrinter, h]

theorem ok_of_onPrinter {α : Type} {x : Printer.Print α} {c c' : Cutter} {a : α}
    (h : onPrinter x c = .ok a c') :
    ∃ p, x c.printer = .ok a p ∧ c' = { c with printer := p } := by
  rw [onPrinter] at h
  cases hx : x c.printer with
  | ok b p =>
    rw [hx] at h
    cases h
    exact ⟨p, rfl, rfl⟩
  | error e p =>
    rw [hx] at h
    cases h

/-- Two cutters do the same if they do at every point, and whatever a printer does in between. -/
theorem follows_walk {cuts cuts' : Nat → Bool} {R : Cutter → Cutter → Prop}
    (hpass : Follows R (pass cuts) (pass cuts'))
    (hprint : ∀ {α : Type} {x : Printer.Print α} {d e : Nat × Nat}, Printer.Prints x d e →
      Follows R (onPrinter x) (onPrinter x)) (n : Node) :
    Follows R (walk (handlers cuts) n) (walk (handlers cuts') n) := by
  refine .walk (fun n => ?_) (fun n => ?_) n
  · rw [handlers, handlers, enter_preceded, enter_preceded]
    split
    · exact hpass.bind fun _ => hprint (Printer.prints_enter n (0, 0))
    · exact .pure true
  · rw [handlers, handlers, leave_preceded, leave_preceded]
    split
    · exact hpass.bind fun _ => hprint (Printer.prints_leave n (0, 0))
    · exact .pure ()

/-- The cutter `c` has passed the same points as `whole`, with the same stacks, and the texts that
it has taken out, followed by the one that it holds, are the text that `whole` holds. -/
structure CutsOf (cuts : Nat → Bool) (whole c : Cutter) : Prop where
  points : c.points = whole.points
  printer : whole.printer = c.printer.after (String.join c.texts.reverse)
  texts : c.texts.length = (List.range c.points.length).countP cuts

theorem cutsOf_start (cuts : Nat → Bool) : CutsOf cuts .start .start :=
  ⟨rfl, rfl, rfl⟩

theorem CutsOf.pass {cuts : Nat → Bool} {whole c : Cutter} (h : CutsOf cuts whole c) :
    CutsOf cuts (whole.passed fun _ => false) (c.passed cuts) := by
  obtain ⟨hpoints, hprinter, htexts⟩ := h
  have hnoted : (c.printer.firstDeclarations, c.printer.previousValues) :: c.points =
      (whole.printer.firstDeclarations, whole.printer.previousValues) :: whole.points := by
    rw [hpoints, hprinter]
    rfl
  rw [passed_never, passed]
  cases hcut : cuts c.points.length with
  | false =>
    refine ⟨hnoted, hprinter, ?_⟩
    simp [List.range_succ, hcut, htexts]
  | true =>
    refine ⟨hnoted, ?_, ?_⟩
    · -- the text moves from the printer to the end of the texts taken out
      rw [hprinter]
      simp [Printer.after, String.join_append, String.join_cons]
    · simp [List.range_succ, hcut, htexts]

theorem follows_pass (cuts : Nat → Bool) :
    Follows (CutsOf cuts) (pass fun _ => false) (pass cuts) := by
  intro whole c a whole' h hok
  rw [pass_eq] at hok
  cases hok
  exact ⟨c.passed cuts, pass_eq cuts c, h.pass⟩

theorem follows_onPrinter (cuts : Nat → Bool) {α : Type} {x : Printer.Print α} {d e : Nat × Nat}
    (hx : Printer.Prints x d e) : Follows (CutsOf cuts) (onPrinter x) (onPrinter x) := by
  intro whole c a whole' h hok
  obtain ⟨p, hp, rfl⟩ := ok_of_onPrinter hok
  rw [h.printer, hx.blind] at hp
  cases hc : x c.printer with
  | ok b p' =>
    rw [hc] at hp
    cases hp
    exact ⟨_, onPrinter_of_ok hc, h.points, rfl, h.texts⟩
  | error cause p' =>
    rw [hc] at hp
    cases hp

/-- A cutter that never takes its text out prints like a printer. -/
theorem follows_printer (n : Node) :
    Follows (fun p (whole : Cutter) => whole.printer = p ∧ whole.texts = [])
      (walk Printer.handlers n) (walk (handlers fun _ => false) n) := by
  have hcall {α : Type} (x : Printer.Print α) :
      Follows (fun p (whole : Cutter) => whole.printer = p ∧ whole.texts = []) x
        (pass (fun _ => false) >>= fun _ => onPrinter x) := by
    rintro p whole a p' ⟨rfl, htexts⟩ hx
    refine ⟨{ whole.passed fun _ => false with printer := p' }, ?_, rfl, htexts⟩
    rw [bind_of_ok (pass_eq _ whole)]
    exact onPrinter_of_ok hx
  refine .walk (fun n => ?_) (fun n => ?_) n
  · rw [handlers, enter_preceded]
    split
    · exact hcall _
    · next h =>
      rw [enter_of_not_entersAt _ h]
      exact .pure true
  · rw [handlers, leave_preceded]
    split
    · exact hcall _
    · next h =>
      rw [leave_of_not_leavesAt _ h]
      exact .pure ()

theorem print_of_walk {cuts : Nat → Bool} {n : Node} {c : Cutter}
    (h : walk (handlers cuts) n .start = .ok () c) :
    print cuts n .start = .ok (c.passed cuts).printer.buffer
      { c.passed cuts with printer := { (c.passed cuts).printer with buffer := "" } } := by
  rw [print, bind_of_ok h, bind_of_ok (pass_eq cuts c)]
  rfl

end Cutter

theorem walk_of_printTree {n : Node} {text : String} (h : printTree n = .ok text) :
    ∃ p, walk Printer.handlers n .start = .ok () p ∧ p.buffer = text := by
  rw [printTree, EStateM.run, Printer.print,
    bind_of_ok (rfl : Printer.reset Printer.start = .ok () Printer.start)] at h
  cases hwalk : walk Printer.handlers n .start with
  | ok _ p =>
    rw [bind_of_ok hwalk] at h
    cases h
    exact ⟨p, rfl, rfl⟩
  | error e p =>
    rw [bind_of_error hwalk] at h
    cases h

/-- Wherever a tree can be printed, it can also be printed with the text taken out before any of the
calls of handlers and after the last one. As many texts are taken out as points were chosen; these,
followed by the text left at the end, are what is printed; and at every point the two stacks are
the same as without that. Moreover, every walk that succeeds, from any state of a printer, leaves
both stacks as long as they were. -/
theorem printTree_cut :
    (∀ (n : Node) (text : String), printTree n = .ok text →
      ∃ whole, Cutter.print (fun _ => false) n .start = .ok text whole ∧ whole.texts = [] ∧
        ∀ cuts : Nat → Bool, ∃ last c, Cutter.print cuts n .start = .ok last c ∧
          String.join (c.texts.reverse ++ [last]) = text ∧
          c.texts.length = (List.range c.points.length).countP cuts ∧
          c.points = whole.points) ∧
    ∀ (n : Node) (p p' : Printer), walk Printer.handlers n p = .ok () p' →
      p'.firstDeclarations.length = p.firstDeclarations.length ∧
        p'.previousValues.length = p.previousValues.length := by
  constructor
  · intro n text h
    obtain ⟨p, hwalk, rfl⟩ := walk_of_printTree h
    obtain ⟨whole, hwhole, rfl, htexts⟩ :=
      Cutter.follows_printer n .start .start () p ⟨rfl, rfl⟩ hwalk
    refine ⟨_, Cutter.print_of_walk hwhole, htexts, fun cuts => ?_⟩
    obtain ⟨c, hc, hcuts⟩ := Cutter.follows_walk (Cutter.follows_pass cuts)
      (Cutter.follows_onPrinter cuts) n .start .start () whole (Cutter.cutsOf_start cuts) hwhole
    have hend := hcuts.pass
    refine ⟨_, _, Cutter.print_of_walk hc, ?_, hend.texts, hend.points⟩
    have hbuffer : whole.printer.buffer =
        String.join (c.passed cuts).texts.reverse ++ (c.passed cuts).printer.buffer :=
      congrArg Printer.buffer hend.printer
    rw [hbuffer, String.join_append, String.join_cons, String.join_nil, String.append_empty]
  · intro n p p' h
    exact Prod.mk.inj ((Printer.prints_walk n p.depth).depth p () p' rfl h)

/-- A ruleset with two declarations, the second of which holds another ruleset. -/
def rulesetInValue : Node :=
  .ruleset [".a"] [.declaration "b" [.literal "c", .function "f" [.literal "d"]] true,
    .declaration "e" [.ruleset [".g"] []] false]

/-- The text is taken out at every other point. -/
theorem printTree_cut_rulesetInValue :
    printTree rulesetInValue = .ok ".a{b:c f(d)!important;e:.g{}}" ∧
    (∃ last c, Cutter.print (fun k => k % 2 == 0) rulesetInValue .start = .ok last c ∧
      String.join (c.texts.reverse ++ [last]) = ".a{b:c f(d)!important;e:.g{}}" ∧
      c.texts.length = (List.range c.points.length).countP (fun k => k % 2 == 0)) ∧
    ∃ p, walk Printer.handlers rulesetInValue ⟨"", [false], [none]⟩ = .ok () p ∧
      p.firstDeclarations.length = 1 ∧ p.previousValues.length = 1 := by
  have hprint : printTree rulesetInValue =
      .ok ".a{b:c f(d)!important;e:.g{}}" := rfl
  obtain ⟨whole, -, -, hcuts⟩ := printTree_cut.1 _ _ hprint
  obtain ⟨last, c, hc, htext, hcount, -⟩ := hcuts fun k => k % 2 == 0
  have hwalk : walk Printer.handlers rulesetInValue ⟨"", [false], [none]⟩ =
      .ok () ⟨".a{b:c f(d)!important;e:.g{}}", [false], [none]⟩ := rfl
  exact ⟨hprint, ⟨last, c, hc, htext, hcount⟩, _, hwalk, printTree_cut.2 _ _ _ hwalk⟩

end ConditionalStyle.Stylesheet
