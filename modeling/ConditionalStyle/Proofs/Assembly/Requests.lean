import ConditionalStyle.Proofs.Assembly.Printing

/-!
# What can be asked of a compiler

A compiler can be asked to compile a tree, and its handlers can be called one by one, on any node
and in any order. A handler that is called on a node of another kind fails as soon as it asks for a
field that the node does not have. A request that fails keeps the changes made before the failure.

What a handler does to a session is said by one equation for each of its outcomes. The equations
show that handlers only append fragments and count sums, in few ways; a property that lasts when
this is done holds in every state that a compiler gets into.

## Main definitions

* `Request`, `serve`, `serveAll`: requests, and the session after them.
* `Keeps`: actions that keep a property of the state.
* `IsLasting`: properties that last when fragments are appended the way handlers do it.

## Main statements

* `Session.enterBlock_of_ok`, `Session.enterRule_branch` and their like: what each handler does.
* `IsLasting.keeps_walk`, `IsLasting.serveAll`: a lasting property is kept by every walk, and holds
  after any requests.
-/

namespace ConditionalStyle.Assembly

open Stylesheet

/-! ### Requests -/

/-- The state that an action leaves behind, whether it succeeds or fails. -/
def stateAfter {σ ε α : Type} (x : Visit σ ε α) (s : σ) : σ :=
  match x s with
  | .ok _ s' => s'
  | .error _ s' => s'

/-- What can be asked of a compiler: to compile a tree, and to enter or leave a node with the
handler of any kind, be it the kind of the node or another one. -/
inductive Request where
  | compile (n : Node)
  | enter (k : Node.Kind) (n : Node)
  | leave (k : Node.Kind) (n : Node)

/-- The session after a request. -/
def serve (limit : Nat) (s : Session) : Request → Session
  | .compile n => stateAfter (Session.compile limit n) s
  | .enter k n =>
    match ((Session.handlers limit).lookup? k).bind (·.enter) with
    | some f => stateAfter (f n) s
    | none => s
  | .leave k n =>
    match ((Session.handlers limit).lookup? k).bind (·.leave) with
    | some f => stateAfter (f n) s
    | none => s

/-- The session of a new compiler after requests. -/
def serveAll (limit : Nat) (rs : List Request) : Session :=
  rs.foldl (serve limit) .start

/-! ### What each handler does -/

namespace Session

/-- The session with one more fragment. -/
def adding (f : Fragment) (s : Session) : Session :=
  { s with appended := f :: s.appended }

/-- The session whose printed text has become a literal. -/
def flushed (s : Session) : Session :=
  { s with
    appended := .literal (Text.quote s.printer.buffer) :: s.appended
    printer := { s.printer with buffer := "" } }

/-- The session with one more sum. -/
def summed (limit : Nat) (s : Session) : Session :=
  { s with
    appended := .fixed (sumPart limit s.concatenations) :: s.appended
    concatenations := countSum limit s.concatenations }

section Handlers

variable (limit : Nat) (n : Node) {s : Session}

theorem enterTree_eq : enterTree n s = .ok true (s.adding (.fixed .opening)) := rfl

theorem leaveTree_eq : leaveTree n s = .ok () (s.flushed.adding (.fixed .closing)) := rfl

theorem enterBlock_of_error {e : ChainError} (h : checkBlock n = .error e) :
    enterBlock n s = .error (.chain e) s := by
  rw [enterBlock, h]
  rfl

theorem enterBlock_of_ok (h : checkBlock n = .ok ()) :
    enterBlock n s = .ok true { s.flushed.adding (.fixed .groupBreak) with
      elseSeen := false :: s.elseSeen
      concatenations := 0 } := by
  rw [enterBlock, h]
  rfl

theorem leaveBlock_of_nil (h : s.elseSeen = []) : leaveBlock n s = .error .outsideBlock s := by
  have hget : (get : Compile Session) s = .ok s s := rfl
  rw [leaveBlock, bind_of_ok hget, h]
  rfl

/-- The session at the end of a block: a block without `@else` gets an empty alternative. -/
def ended (seen : Bool) (s : Session) : Session :=
  if seen then s else s.adding (.literal (Text.quote ""))

theorem leaveBlock_of_cons {seen : Bool} {outer : List Bool} (h : s.elseSeen = seen :: outer) :
    leaveBlock n s = .ok () { (s.ended seen).adding (.fixed .groupBreak) with
      elseSeen := outer
      concatenations := 0 } := by
  have hget : (get : Compile Session) s = .ok s s := rfl
  rw [leaveBlock, bind_of_ok hget, h]
  cases seen <;> rfl

/-- A node that is no branch is refused before the session is looked at. -/
theorem enterRule_of_none (hn : n.branch? = none) :
    enterRule n s = .error (.chain (.notBranch n.kind)) s := by
  rw [enterRule, hn]
  rfl

theorem enterRule_of_nil {branch : Branch × Option String} (hn : n.branch? = some branch)
    (h : s.elseSeen = []) : enterRule n s = .error .outsideBlock s := by
  have hget : (get : Compile Session) s = .ok s s := rfl
  rw [enterRule, hn]
  dsimp only
  rw [bind_of_ok hget, h]
  rfl

theorem enterRule_otherwise {condition : Option String} {seen : Bool} {outer : List Bool}
    (hn : n.branch? = some (.otherwise, condition)) (h : s.elseSeen = seen :: outer) :
    enterRule n s = .ok true { s.adding (.fixed .opening) with elseSeen := true :: outer } := by
  have hget : (get : Compile Session) s = .ok s s := rfl
  rw [enterRule, hn]
  dsimp only
  rw [bind_of_ok hget, h]
  rfl

theorem enterRule_branch {b : Branch} {condition : Option String}
    (hn : n.branch? = some (b, condition)) (hb : b ≠ .otherwise) (h : s.elseSeen ≠ []) :
    enterRule n s = .ok true { (s.adding (.fixed .opening)).adding (.raw condition) |>.adding
      (.fixed .question) with concatenations := 0 } := by
  have hget : (get : Compile Session) s = .ok s s := rfl
  obtain ⟨seen, outer, hseen⟩ := List.exists_cons_of_ne_nil h
  rw [enterRule, hn]
  dsimp only
  rw [bind_of_ok hget, hseen]
  dsimp only
  rw [if_neg hb]
  rfl

/-- A node that is no branch is closed like one before it is refused. -/
theorem leaveRule_of_none (hn : n.branch? = none) :
    leaveRule n s =
      .error (.chain (.notBranch n.kind)) (s.flushed.adding (.fixed .closing)) := by
  rw [leaveRule, hn]
  rfl

theorem leaveRule_otherwise {condition : Option String}
    (hn : n.branch? = some (.otherwise, condition)) :
    leaveRule n s = .ok () (s.flushed.adding (.fixed .closing)) := by
  rw [leaveRule, hn]
  rfl

theorem leaveRule_branch {b : Branch} {condition : Option String}
    (hn : n.branch? = some (b, condition)) (hb : b ≠ .otherwise) :
    leaveRule n s = .ok () ((s.flushed.adding (.fixed .closing)).adding (.fixed .colon)) := by
  rw [leaveRule, hn]
  dsimp only
  rw [if_pos hb]
  rfl

theorem enterValue_of_nil (h : s.printer.previousValues = []) :
    enterValue limit n s = .error (.print .nothingOpen) s := by
  have hbegin : onPrinter (Printer.beginValue n) s = .error (.print .nothingOpen) s := by
    have hget : (get : Printer.Print Printer) s.printer = .ok s.printer s.printer := rfl
    rw [onPrinter, Printer.beginValue, bind_of_ok hget, h]
    rfl
  rw [enterValue, bind_of_error hbegin]

/-- A node without an expression is refused after the space before it. -/
theorem enterValue_of_none (hn : n.expression? = none) {previous : Option Node}
    {outer : List (Option Node)} (h : s.printer.previousValues = previous :: outer) :
    ∃ printer,
      enterValue limit n s = .error (.notRuntime n.kind) { s with printer := printer } := by
  obtain ⟨appended, elseSeen, concatenations, buffer, firsts, previousValues⟩ := s
  obtain rfl : previousValues = previous :: outer := h
  have hbegin : onPrinter (Printer.beginValue n) ((⟨appended, buffer, concatenations⟩ :
      Draft).session elseSeen firsts (previous :: outer)) = _ := beginValue_session limit previous n
  rw [Draft.session] at hbegin
  rw [enterValue, bind_of_ok hbegin, hn, spaceOutline]
  cases Printer.needsSpace previous n <;> exact ⟨_, rfl⟩

/-- The session after a run-time value: the text before it, with the space that it needs, becomes a
literal. -/
def spliced (expression : String) (previous : Option Node) (s : Session) : Session :=
  let space := if Printer.needsSpace previous n then " " else ""
  (((s.adding (.literal (Text.quote (s.printer.buffer ++ space)))).summed limit).adding
    (.raw (some ("(" ++ expression ++ ")")))).summed limit

theorem enterValue_of_cons {expression : String} (hn : n.expression? = some expression)
    {previous : Option Node} {outer : List (Option Node)}
    (h : s.printer.previousValues = previous :: outer) :
    enterValue limit n s = .ok false { s.spliced limit n expression previous with
      printer := ⟨"", s.printer.firstDeclarations, some n :: outer⟩ } := by
  obtain ⟨appended, elseSeen, concatenations, buffer, firsts, previousValues⟩ := s
  obtain rfl : previousValues = previous :: outer := h
  have henter : enterValue limit n ((⟨appended, buffer, concatenations⟩ : Draft).session elseSeen
      firsts (previous :: outer)) = _ := enterValue_session limit previous hn
  rw [Draft.session] at henter
  rw [henter, spaceOutline, spliced]
  by_cases hspace : Printer.needsSpace previous n
  · rw [if_pos hspace, if_pos hspace]
    rfl
  · rw [if_neg hspace, if_neg hspace, String.append_empty]
    rfl

end Handlers

end Session

/-! ### Properties that actions keep -/

/-- An action that keeps a property of the state, whether it succeeds or fails. -/
def Keeps {σ ε α : Type} (P : σ → Prop) (x : Visit σ ε α) : Prop :=
  ∀ s, P s → P (stateAfter x s)

namespace Keeps

variable {σ ε α β : Type} {P : σ → Prop}

theorem pure (a : α) : Keeps P (pure a : Visit σ ε α) :=
  fun _ h => h

theorem of_ok {x : Visit σ ε α} {a : α} {s s' : σ} (h : x s = .ok a s') (hs : P s') :
    P (stateAfter x s) := by
  rw [stateAfter, h]
  exact hs

theorem of_error {x : Visit σ ε α} {e : ε} {s s' : σ} (h : x s = .error e s') (hs : P s') :
    P (stateAfter x s) := by
  rw [stateAfter, h]
  exact hs

theorem bind {x : Visit σ ε α} {f : α → Visit σ ε β} (hx : Keeps P x) (hf : ∀ a, Keeps P (f a)) :
    Keeps P (x >>= f) := by
  intro s hs
  have hs' := hx s hs
  cases h : x s with
  | ok a s' =>
    rw [stateAfter, h] at hs'
    rw [stateAfter, bind_of_ok h]
    exact hf a s' hs'
  | error e s' =>
    rw [stateAfter, h] at hs'
    exact of_error (bind_of_error h) hs'

variable {r : Registry σ ε}

theorem visit {n : Node} {children : Visit σ ε Unit} (henter : Keeps P (r.enter n))
    (hchildren : Keeps P children) (hleave : Keeps P (r.leave n)) :
    Keeps P (r.visit n children) := by
  refine henter.bind fun descend => ?_
  cases descend with
  | false => exact hleave
  | true => exact hchildren.bind fun _ => hleave

theorem walkAll {ns : List Node} (h : ∀ n ∈ ns, Keeps P (walk r n)) : Keeps P (walkAll r ns) := by
  induction ns with
  | nil => exact .pure ()
  | cons n ns ih =>
    obtain ⟨hn, hns⟩ := List.forall_mem_cons.1 h
    rw [Stylesheet.walkAll]
    exact hn.bind fun _ => ih hns

/-- A walk keeps what entering and leaving its nodes keep. -/
theorem walk (henter : ∀ n, Keeps P (r.enter n)) (hleave : ∀ n, Keeps P (r.leave n)) (n : Node) :
    Keeps P (walk r n) := by
  rw [walk_eq_visit]
  exact .visit (henter n) (.walkAll fun c hc => walk henter hleave c) (hleave n)
termination_by sizeOf n
decreasing_by exact sizeOf_lt_of_mem_children hc

end Keeps

/-! ### What holds after any requests -/

section Registered

variable {σ ε : Type} {r : Registry σ ε} {h : Handler σ ε}

theorem mem_of_lookup? {k : Node.Kind} (hlookup : r.lookup? k = some h) : h ∈ r.handlers := by
  obtain ⟨k', -, hown⟩ := List.exists_of_findSome?_eq_some hlookup
  exact List.mem_of_find?_eq_some hown

theorem mem_of_mem_registerAll {hs : List (Handler σ ε)} (hmem : h ∈ (r.registerAll hs).handlers) :
    h ∈ r.handlers ∨ h ∈ hs := by
  induction hs generalizing r with
  | nil => exact .inl hmem
  | cons g gs ih =>
    rcases ih hmem with hregister | hgs
    · rcases List.mem_cons.1 hregister with rfl | hfilter
      · exact .inr List.mem_cons_self
      · exact .inl (List.mem_filter.1 hfilter).1
    · exact .inr (List.mem_cons_of_mem g hgs)

end Registered

/-- A property of sessions that depends on the fragments and the count only, and that lasts when
fragments are appended the way handlers do it: the count is set back together with a group break or
a question mark, and a sum is always counted. -/
structure IsLasting (limit : Nat) (P : Session → Prop) : Prop where
  congr : ∀ {s t : Session}, P s → t.appended = s.appended →
    t.concatenations = s.concatenations → P t
  add : ∀ {s : Session}, P s → ∀ {f : Fragment}, f.part ≠ .plus → P (s.adding f)
  restart : ∀ {s : Session}, P s → ∀ {p : Part}, p = .groupBreak ∨ p = .question →
    P { s.adding (.fixed p) with concatenations := 0 }
  sum : ∀ {s : Session}, P s → P (s.summed limit)

theorem literal_part_ne_plus (quoted : String) : (Fragment.literal quoted).part ≠ .plus := by
  rw [Fragment.literal]
  split <;> simp

namespace IsLasting

variable {limit : Nat} {P : Session → Prop} (hP : IsLasting limit P)
include hP

theorem print {α : Type} (x : Printer.Print α) : Keeps P (Session.onPrinter x) := by
  intro s hs
  rw [stateAfter, Session.onPrinter]
  cases x s.printer <;> exact hP.congr hs rfl rfl

theorem flush {s : Session} (hs : P s) : P s.flushed :=
  hP.congr (hP.add hs (literal_part_ne_plus _)) rfl rfl

theorem enterTree (n : Node) : Keeps P (Session.enterTree n) :=
  fun _ hs => Keeps.of_ok (Session.enterTree_eq n) (hP.add hs (by decide))

theorem leaveTree (n : Node) : Keeps P (Session.leaveTree n) :=
  fun _ hs => Keeps.of_ok (Session.leaveTree_eq n) (hP.add (hP.flush hs) (by decide))

theorem enterBlock (n : Node) : Keeps P (Session.enterBlock n) := by
  intro s hs
  cases hchain : checkBlock n with
  | error e => exact Keeps.of_error (Session.enterBlock_of_error n hchain) hs
  | ok _ =>
    exact Keeps.of_ok (Session.enterBlock_of_ok n hchain)
      (hP.congr (hP.restart (hP.flush hs) (.inl rfl)) rfl rfl)

theorem leaveBlock (n : Node) : Keeps P (Session.leaveBlock n) := by
  intro s hs
  cases hseen : s.elseSeen with
  | nil => exact Keeps.of_error (Session.leaveBlock_of_nil n hseen) hs
  | cons seen outer =>
    have hended : P (s.ended seen) := by
      cases seen with
      | true => exact hs
      | false => exact hP.add hs (literal_part_ne_plus _)
    exact Keeps.of_ok (Session.leaveBlock_of_cons n hseen)
      (hP.congr (hP.restart hended (.inl rfl)) rfl rfl)

theorem enterRule (n : Node) : Keeps P (Session.enterRule n) := by
  intro s hs
  rcases hn : n.branch? with _ | ⟨branch, condition⟩
  · exact Keeps.of_error (Session.enterRule_of_none n hn) hs
  by_cases hseen : s.elseSeen = []
  · exact Keeps.of_error (Session.enterRule_of_nil n hn hseen) hs
  have hopening : P (s.adding (.fixed .opening)) := hP.add hs (by decide)
  by_cases hbranch : branch = .otherwise
  · -- an `@else` opens a parenthesis and yet goes on counting
    subst hbranch
    obtain ⟨seen, outer, hcons⟩ := List.exists_cons_of_ne_nil hseen
    exact Keeps.of_ok (Session.enterRule_otherwise n hn hcons) (hP.congr hopening rfl rfl)
  · have hcondition := hP.add hopening (f := .raw condition) (by simp [Fragment.raw])
    exact Keeps.of_ok (Session.enterRule_branch n hn hbranch hseen)
      (hP.restart hcondition (.inr rfl))

theorem leaveRule (n : Node) : Keeps P (Session.leaveRule n) := by
  intro s hs
  have hclosing : P (s.flushed.adding (.fixed .closing)) := hP.add (hP.flush hs) (by decide)
  rcases hn : n.branch? with _ | ⟨branch, condition⟩
  · exact Keeps.of_error (Session.leaveRule_of_none n hn) hclosing
  by_cases hbranch : branch = .otherwise
  · subst hbranch
    exact Keeps.of_ok (Session.leaveRule_otherwise n hn) hclosing
  · exact Keeps.of_ok (Session.leaveRule_branch n hn hbranch) (hP.add hclosing (by decide))

theorem enterValue (n : Node) : Keeps P (Session.enterValue limit n) := by
  intro s hs
  rcases hvalues : s.printer.previousValues with _ | ⟨previous, outer⟩
  · exact Keeps.of_error (Session.enterValue_of_nil limit n hvalues) hs
  rcases hn : n.expression? with _ | expression
  · obtain ⟨printer, henter⟩ := Session.enterValue_of_none limit n hn hvalues
    exact Keeps.of_error henter (hP.congr hs rfl rfl)
  · have hspliced : P (s.spliced limit n expression previous) :=
      hP.sum (hP.add (hP.sum (hP.add hs (literal_part_ne_plus _))) (by simp [Fragment.raw]))
    exact Keeps.of_ok (Session.enterValue_of_cons limit n hn hvalues)
      (hP.congr hspliced rfl rfl)

/-- The registered handlers keep a lasting property. -/
theorem keeps_handler {h : Handler Session CompileError}
    (hmem : h ∈ (Session.handlers limit).handlers) :
    (∀ f, h.enter = some f → ∀ n, Keeps P (f n)) ∧ ∀ f, h.leave = some f → ∀ n, Keeps P (f n) := by
  rcases mem_of_mem_registerAll hmem with hlift | hown
  · obtain ⟨g, -, rfl⟩ := List.mem_map.1 hlift
    constructor
    · intro f hf n
      obtain ⟨g', -, rfl⟩ := Option.map_eq_some_iff.1 hf
      exact hP.print (g' n)
    · intro f hf n
      obtain ⟨g', -, rfl⟩ := Option.map_eq_some_iff.1 hf
      exact hP.print (g' n)
  · simp only [List.mem_cons, List.not_mem_nil, or_false] at hown
    rcases hown with rfl | rfl | rfl | rfl | rfl
    · exact ⟨by rintro f ⟨⟩; exact hP.enterTree, by rintro f ⟨⟩; exact hP.leaveTree⟩
    · exact ⟨by rintro f ⟨⟩; exact hP.enterBlock, by rintro f ⟨⟩; exact hP.leaveBlock⟩
    · exact ⟨by rintro f ⟨⟩; exact hP.enterRule, by rintro f ⟨⟩; exact hP.leaveRule⟩
    · exact ⟨by rintro f ⟨⟩; exact hP.enterValue, by rintro f ⟨⟩⟩
    · exact ⟨by rintro f ⟨⟩; exact hP.enterValue, by rintro f ⟨⟩⟩

theorem keeps_enter {k : Node.Kind} {f : Node → Session.Compile Bool}
    (h : ((Session.handlers limit).lookup? k).bind (·.enter) = some f) (n : Node) :
    Keeps P (f n) := by
  obtain ⟨g, hlookup, hf⟩ := Option.bind_eq_some_iff.1 h
  exact (hP.keeps_handler (mem_of_lookup? hlookup)).1 f hf n

theorem keeps_leave {k : Node.Kind} {f : Node → Session.Compile Unit}
    (h : ((Session.handlers limit).lookup? k).bind (·.leave) = some f) (n : Node) :
    Keeps P (f n) := by
  obtain ⟨g, hlookup, hf⟩ := Option.bind_eq_some_iff.1 h
  exact (hP.keeps_handler (mem_of_lookup? hlookup)).2 f hf n

theorem keeps_walk (n : Node) : Keeps P (walk (Session.handlers limit) n) := by
  refine .walk (fun c => ?_) (fun c => ?_) n
  · rw [Registry.enter]
    split
    · next f hf => exact hP.keeps_enter hf c
    · exact .pure true
  · rw [Registry.leave]
    split
    · next f hf => exact hP.keeps_leave hf c
    · exact .pure ()

/-- Compiling a tree starts anew, so that the state before does not matter. -/
theorem compile (hstart : P .start) (n : Node) (s : Session) :
    P (stateAfter (Session.compile limit n) s) := by
  have hset : (set Session.start : Session.Compile PUnit) s = .ok ⟨⟩ .start := rfl
  have hget : Keeps P (get : Session.Compile Session) := fun _ h => h
  rw [stateAfter, Session.compile, bind_of_ok hset]
  refine (hP.keeps_walk n).bind (fun _ => hget.bind fun s' => ?_) _ hstart
  cases s'.elseSeen with
  | nil => cases s'.text? <;> exact fun _ h => h
  | cons seen outer => exact fun _ h => h

/-- One more request. -/
theorem serve (hstart : P .start) {s : Session} (hs : P s) (request : Request) :
    P (serve limit s request) := by
  cases request with
  | compile n => exact hP.compile hstart n s
  | enter k n =>
    rw [Assembly.serve]
    split
    · next f hf => exact hP.keeps_enter hf n s hs
    · exact hs
  | leave k n =>
    rw [Assembly.serve]
    split
    · next f hf => exact hP.keeps_leave hf n s hs
    · exact hs

/-- A lasting property of a new compiler holds after any requests. -/
theorem serveAll (hstart : P .start) (requests : List Request) : P (serveAll limit requests) :=
  List.foldlRecOn requests (Assembly.serve limit) hstart fun _ hs request _ =>
    hP.serve hstart hs request

end IsLasting

end ConditionalStyle.Assembly
