import ConditionalStyle.Assembly.Compile
import ConditionalStyle.Proofs.Assembly.Layout
import ConditionalStyle.Proofs.Stylesheet.Walk

/-!
# The walk of a compiler over a regular tree

On a regular tree the walk of a compiler either goes through, and then it has fed the outline of the
tree to its draft and left every stack as it was; or it meets a block with an empty condition and
stops there. Nothing else can happen.

## Main definitions

* `Draft.session`: a session with the given draft and stacks.
* `Walks`: a walk that goes through under a condition, and fails for an empty condition otherwise.
* `Conditioned`: trees without empty conditions.

## Main statements

* `walks_rules`, `walks_tree`: the walk over regular rules and over a whole stylesheet.
-/

namespace ConditionalStyle.Assembly

open Stylesheet

theorem Session.onPrinter_bind {α β : Type} (x : Printer.Print α) (f : α → Printer.Print β) :
    onPrinter (x >>= f) = onPrinter x >>= fun a => onPrinter (f a) := by
  funext s
  cases h : x s.printer with
  | ok a p =>
    have hx : onPrinter x s = .ok a { s with printer := p } := by rw [onPrinter, h]
    rw [bind_of_ok hx, onPrinter, bind_of_ok h, onPrinter]
  | error e p =>
    have hx : onPrinter x s = .error (.print e) { s with printer := p } := by rw [onPrinter, h]
    rw [bind_of_error hx, onPrinter, bind_of_error h]

/-- A tree that is compiled leaves a session behind. -/
theorem compile_of_compileTree {options : Settings.Options} {n : Node} {compiled : Compiled}
    (h : (compileTree options n).toOption = some compiled) :
    ∃ s, Session.compile options.concatLimit n .start = .ok compiled.expression s ∧
      s.groupBreaks = compiled.groupBreaks := by
  rw [compileTree, EStateM.run] at h
  cases hc : Session.compile options.concatLimit n .start with
  | ok text s =>
    rw [hc] at h
    cases h
    exact ⟨s, rfl, rfl⟩
  | error e s =>
    rw [hc] at h
    cases h

/-! ### Drafts as sessions -/

/-- The session with a given draft and given stacks. -/
def Draft.session (d : Draft) (elseSeen firsts : List Bool) (previous : List (Option Node)) :
    Session :=
  ⟨d.appended, elseSeen, d.count, ⟨d.pending, firsts, previous⟩⟩

section Steps

variable (limit : Nat) {d : Draft} {es fs : List Bool} {ps : List (Option Node)}

theorem put_session (text : String) :
    Session.onPrinter (Printer.put text) (d.session es fs ps) =
      .ok () ((d.feed limit (.text text)).session es fs ps) := rfl

theorem beginValue_session (previous : Option Node) (n : Node) :
    Session.onPrinter (Printer.beginValue n) (d.session es fs (previous :: ps)) =
      .ok () ((d.feedAll limit (spaceOutline previous n)).session es fs (previous :: ps)) := by
  have hbegin : Printer.beginValue n ⟨d.pending, fs, previous :: ps⟩ =
      (if Printer.needsSpace previous n then Printer.put " " else pure ())
        ⟨d.pending, fs, previous :: ps⟩ := rfl
  rw [Session.onPrinter, Draft.session, hbegin, spaceOutline]
  cases Printer.needsSpace previous n <;> rfl

theorem field_of_some {α : Type} {name : String} {get? : Node → Option α} {n : Node} {a : α}
    (h : get? n = some a) : Printer.field name get? n = pure a := by
  rw [Printer.field, h]

theorem enterText_session {text : String} (previous : Option Node) {n : Node}
    (h : n.text? = some text) :
    Session.onPrinter (Printer.enterText n) (d.session es fs (previous :: ps)) =
      .ok false ((d.feedAll limit (spaceOutline previous n ++ [.text text])).session es fs
        (some n :: ps)) := by
  rw [Printer.enterText, field_of_some h, pure_bind, Session.onPrinter_bind,
    bind_of_ok (beginValue_session limit previous n), Session.onPrinter_bind,
    bind_of_ok (put_session limit text), Draft.feedAll_append]
  rfl

theorem flush_session :
    Session.flush (d.session es fs ps) =
      .ok () ((⟨d.flushed, "", d.count⟩ : Draft).session es fs ps) := rfl

theorem appendSum_session :
    Session.appendSum limit (d.session es fs ps) = .ok ()
      ((⟨.fixed (sumPart limit d.count) :: d.appended, d.pending, countSum limit d.count⟩ :
        Draft).session es fs ps) := by
  have hsum : Session.appendSum limit (d.session es fs ps) = (if limit ≤ d.count then do
        Session.append (.fixed .groupBreak)
        Session.startChain
      else do
        Session.append (.fixed .plus)
        modify fun s => { s with concatenations := d.count + 1 } : Session.Compile Unit)
      (d.session es fs ps) := rfl
  rw [hsum, sumPart, countSum]
  by_cases hlimit : limit ≤ d.count
  · simp only [hlimit, ↓reduceIte]
    rfl
  · simp only [hlimit, ↓reduceIte]
    rfl

theorem enterValue_session {n : Node} {expression : String} (previous : Option Node)
    (h : n.expression? = some expression) :
    Session.enterValue limit n (d.session es fs (previous :: ps)) =
      .ok false ((d.feedAll limit (spaceOutline previous n ++ [.splice expression])).session es fs
        (some n :: ps)) := by
  rw [Session.enterValue, bind_of_ok (beginValue_session limit previous n), h]
  dsimp only
  rw [bind_of_ok flush_session, bind_of_ok (appendSum_session limit), Draft.feedAll_append]
  generalize d.feedAll limit (spaceOutline previous n) = d
  have happend : Session.append (.raw (some ("(" ++ expression ++ ")")))
      ((⟨.fixed (sumPart limit d.count) :: d.flushed, "", countSum limit d.count⟩ :
        Draft).session es fs (previous :: ps)) =
      .ok () ((⟨(Term.splice expression).fragment ::
        .fixed (sumPart limit d.count) :: d.flushed, "", countSum limit d.count⟩ :
          Draft).session es fs (previous :: ps)) := rfl
  rw [bind_of_ok happend, bind_of_ok (appendSum_session limit)]
  rfl

end Steps

/-! ### Values and declarations -/

section Plain

variable (limit : Nat) {es fs : List Bool} {ps : List (Option Node)}

mutual

theorem walk_value {v : Node} (h : IsValue v) (previous : Option Node) (d : Draft)
    (ps : List (Option Node)) :
    walk (Session.handlers limit) v (d.session es fs (previous :: ps)) =
      .ok () ((d.feedAll limit (spaceOutline previous v ++ valueOutline v)).session es fs
        (some v :: ps)) := by
  match h with
  | .literal text => exact visit_of_false (enterText_session limit previous rfl)
  | @IsValue.operator text _ => exact visit_of_false (enterText_session limit previous rfl)
  | @IsValue.function name args hargs =>
    have henter : (Session.handlers limit).enter (.function name args)
        (d.session es fs (previous :: ps)) = .ok true
          ((d.feedAll limit (spaceOutline previous (.function name args) ++
            [.text (name ++ "(")])).session es fs (none :: previous :: ps)) := by
      change Session.onPrinter (Printer.enterFunction (.function name args)) _ = _
      rw [Printer.enterFunction, Session.onPrinter_bind,
        bind_of_ok (beginValue_session limit previous (.function name args)), Draft.feedAll_append]
      rfl
    rw [walk, visit_of_true henter, bind_of_ok (walkAll_values hargs none _ _), valueOutline]
    simp only [Draft.feedAll_append, Draft.feedAll_cons, Draft.feedAll_nil]
    rfl
  | .runtime expression => exact visit_of_false (enterValue_session limit previous rfl)
  | .dotPath path after before => exact visit_of_false (enterValue_session limit previous rfl)

theorem walkAll_values {vs : List Node} (h : AreValues vs) (previous : Option Node) (d : Draft)
    (ps : List (Option Node)) :
    walkAll (Session.handlers limit) vs (d.session es fs (previous :: ps)) =
      .ok () ((d.feedAll limit (valuesOutline previous vs)).session es fs
        (vs.foldl (fun _ v => some v) previous :: ps)) := by
  match h with
  | .nil => rfl
  | @AreValues.cons v rest hv hrest =>
    rw [walkAll, bind_of_ok (walk_value hv previous d ps), walkAll_values hrest, valuesOutline,
      List.foldl_cons]
    simp only [Draft.feedAll_append]

end

theorem enter_declaration (property : String) (vs : List Node) (important first : Bool)
    (d : Draft) :
    (Session.handlers limit).enter (.declaration property vs important)
        (d.session es (first :: fs) ps) = .ok true
      ((d.feedAll limit ((if first then [] else [.text ";"]) ++
        [.text (property ++ ":")])).session es (false :: fs) (none :: ps)) := by
  cases first <;> rfl

theorem leave_declaration (property : String) (vs : List Node) (important : Bool)
    (last : Option Node) (d : Draft) :
    (Session.handlers limit).leave (.declaration property vs important)
        (d.session es fs (last :: ps)) = .ok ()
      ((d.feedAll limit (if important then [.text "!important"] else [])).session es fs ps) := by
  cases important <;> rfl

theorem walkAll_declarations {ds : List Node} (h : AreDeclarations ds) (first : Bool) (d : Draft) :
    walkAll (Session.handlers limit) ds (d.session es (first :: fs) ps) =
      .ok () ((d.feedAll limit (declarationsOutline first ds)).session es
        ((first && ds.isEmpty) :: fs) ps) := by
  induction h generalizing first d with
  | nil =>
    rw [declarationsOutline, List.isEmpty_nil, Bool.and_true]
    · rfl
    · simp
  | cons property important hvs hds ih =>
    next vs ds =>
    have hdeclaration : walk (Session.handlers limit) (.declaration property vs important)
        (d.session es (first :: fs) ps) = .ok ()
          ((((d.feedAll limit ((if first then [] else [.text ";"]) ++
            [.text (property ++ ":")])).feedAll limit (valuesOutline none vs)).feedAll limit
              (if important then [.text "!important"] else [])).session es (false :: fs) ps) := by
      rw [walk, visit_of_true (enter_declaration limit property vs important first d),
        bind_of_ok (walkAll_values limit hvs none _ _), leave_declaration]
    rw [walkAll, bind_of_ok hdeclaration, ih, declarationsOutline]
    simp only [Draft.feedAll_append, Draft.feedAll_cons, Draft.feedAll_nil, Bool.false_and,
      List.isEmpty_cons, Bool.and_false]

end Plain

/-! ### Conditions -/

/-- A node that is no branch with an empty condition, an `@else` apart. -/
def HasText (n : Node) : Prop :=
  ∀ b body, n = .conditionalRule b (some "") body → b = .otherwise

/-- A tree in which no branch has an empty condition, an `@else` apart. -/
def Conditioned (n : Node) : Prop :=
  ∀ b body, Occurs (.conditionalRule b (some "") body) n → b = .otherwise

theorem conditioned_iff {n : Node} :
    Conditioned n ↔ HasText n ∧ ∀ c ∈ n.children, Conditioned c := by
  constructor
  · intro h
    refine ⟨?_, fun c hc b body hoccurs => h b body (.inside hc hoccurs)⟩
    rintro b body rfl
    exact h b body .here
  · rintro ⟨hn, hchildren⟩ b body hoccurs
    cases hoccurs with
    | here => exact hn b body rfl
    | inside hc hoccurs => exact hchildren _ hc b body hoccurs

theorem hasText_of_kind {n : Node} (h : n.kind ≠ .conditionalRule) : HasText n := by
  rintro b body rfl
  exact absurd rfl h

theorem conditioned_iff_children {n : Node} (h : n.kind ≠ .conditionalRule) :
    Conditioned n ↔ ∀ c ∈ n.children, Conditioned c := by
  rw [conditioned_iff, and_iff_right (hasText_of_kind h)]

theorem hasText_branch {b : Branch} {c : String} {body : List Node} (hb : b ≠ .otherwise) :
    HasText (.conditionalRule b (some c) body) ↔ c ≠ "" := by
  constructor
  · rintro h rfl
    exact hb (h b body rfl)
  · rintro hc b' body' heq
    cases heq
    exact absurd rfl hc

theorem hasText_otherwise (body : List Node) :
    HasText (.conditionalRule .otherwise none body) := by
  intro b body' heq
  cases heq

theorem conditioned_block {bs : List Node} :
    Conditioned (.conditionalBlock bs) ↔
      (∀ b ∈ bs, HasText b) ∧ ∀ b ∈ bs, ∀ r ∈ b.children, Conditioned r := by
  rw [conditioned_iff_children (by simp [Node.kind])]
  constructor
  · intro h
    exact ⟨fun b hb => (conditioned_iff.1 (h b hb)).1, fun b hb => (conditioned_iff.1 (h b hb)).2⟩
  · rintro ⟨htext, hbodies⟩ b hb
    exact conditioned_iff.2 ⟨htext b hb, hbodies b hb⟩

mutual

theorem conditioned_value {v : Node} (h : IsValue v) : Conditioned v := by
  match h with
  | .literal _ | .operator _ | .runtime _ | .dotPath _ _ _ =>
    exact (conditioned_iff_children (by simp [Node.kind])).2 (by simp [Node.children])
  | .function _ hargs =>
    exact (conditioned_iff_children (by simp [Node.kind])).2 (conditioned_values hargs)

theorem conditioned_values {vs : List Node} (h : AreValues vs) : ∀ v ∈ vs, Conditioned v := by
  match h with
  | .nil => simp
  | .cons hv hvs => exact List.forall_mem_cons.2 ⟨conditioned_value hv, conditioned_values hvs⟩

end

theorem conditioned_declarations {ds : List Node} (h : AreDeclarations ds) :
    ∀ d ∈ ds, Conditioned d := by
  induction h with
  | nil => simp
  | cons property important hvs hds ih =>
    exact List.forall_mem_cons.2
      ⟨(conditioned_iff_children (by simp [Node.kind])).2 (conditioned_values hvs), ih⟩

/-- A branch with a condition that stands where it can is refused only for an empty one. -/
theorem checkBranches_branch {b : Branch} (hb : b ≠ .otherwise) (c : String)
    (body rest : List Node) :
    checkBranches (b == .ifTrue) (.conditionalRule b (some c) body :: rest) =
      if c = "" then .error (.noCondition b) else checkBranches false rest := by
  rw [checkBranches, checkBranch, hasCondition]
  by_cases hc : c = ""
  · subst hc
    cases b with
    | ifTrue | elseIf => rfl
    | otherwise => exact absurd rfl hb
  · have hempty : c.isEmpty = false := by simpa using hc
    rw [if_neg hc, hempty]
    cases b with
    | ifTrue | elseIf => rfl
    | otherwise => exact absurd rfl hb

/-- A chain of branches that is refused exactly for an empty condition. -/
def RefusedForText (bs : List Node) (x : Except ChainError Unit) : Prop :=
  ((∀ b ∈ bs, HasText b) → x = .ok ()) ∧
    (¬(∀ b ∈ bs, HasText b) → ∃ b, x = .error (.noCondition b))

theorem refusedForText_cons {b : Branch} (hb : b ≠ .otherwise) {c : String} {body rest : List Node}
    (h : RefusedForText rest (checkBranches false rest)) :
    RefusedForText (.conditionalRule b (some c) body :: rest)
      (checkBranches (b == .ifTrue) (.conditionalRule b (some c) body :: rest)) := by
  rw [RefusedForText, List.forall_mem_cons, hasText_branch hb, checkBranches_branch hb]
  by_cases hc : c = ""
  · rw [if_pos hc]
    exact ⟨fun h => absurd hc h.1, fun _ => ⟨b, rfl⟩⟩
  · rw [if_neg hc]
    exact ⟨fun h' => h.1 h'.2, fun hnot => h.2 fun h' => hnot ⟨hc, h'⟩⟩

theorem refusedForText_alternatives {bs : List Node} (h : AreAlternatives bs) :
    RefusedForText bs (checkBranches false bs) := by
  cases h with
  | nil => exact ⟨fun _ => rfl, fun hnot => absurd (by simp) hnot⟩
  | otherwise _ => exact ⟨fun _ => rfl, fun hnot => absurd (by simp [hasText_otherwise]) hnot⟩
  | elseIf c _ hrest =>
    exact refusedForText_cons (b := .elseIf) (by decide) (refusedForText_alternatives hrest)

/-! ### Walks that may stop at an empty condition -/

/-- A walk that goes through to the session `s` if `good` holds, and that otherwise stops at an
empty condition. -/
def Walks (good : Prop) (x : EStateM.Result CompileError Session Unit) (s : Session) : Prop :=
  (good → x = .ok () s) ∧ (¬good → ∃ b s', x = .error (.chain (.noCondition b)) s')

namespace Walks

variable {good good' : Prop} {x : EStateM.Result CompileError Session Unit} {s s' s'' : Session}

theorem of_ok (hgood : good) (h : x = .ok () s) : Walks good x s :=
  ⟨fun _ => h, fun hnot => absurd hgood hnot⟩

theorem congr (h : Walks good x s) (hiff : good ↔ good') : Walks good' x s := by
  obtain rfl := propext hiff
  exact h

/-- One walk after the other. -/
theorem andThen {f g : Session.Compile Unit} (hf : Walks good (f s) s')
    (hg : Walks good' (g s') s'') : Walks (good ∧ good') ((f >>= fun _ => g) s) s'' := by
  by_cases h : good
  · rw [bind_of_ok (hf.1 h)]
    exact hg.congr (and_iff_right h).symm
  · obtain ⟨b, t, hx⟩ := hf.2 h
    rw [bind_of_error hx]
    exact ⟨fun h' => absurd h'.1 h, fun _ => ⟨b, t, rfl⟩⟩

/-- A visit both of whose handlers succeed. -/
theorem visit {r : Registry Session CompileError} {n : Node} {children : Session.Compile Unit}
    {s₁ s₂ s₃ : Session} (henter : r.enter n s = .ok true s₁)
    (hchildren : Walks good (children s₁) s₂) (hleave : r.leave n s₂ = .ok () s₃) :
    Walks good (r.visit n children s) s₃ := by
  rw [visit_of_true henter]
  exact (hchildren.andThen (.of_ok trivial hleave)).congr (and_iff_left trivial)

end Walks

/-! ### Rules -/

section Rules

variable (limit : Nat) {d : Draft} {es fs : List Bool} {ps : List (Option Node)}

theorem enterAtRule_eq (name params : String) (rs ds : Option (List Node)) :
    Printer.enterAtRule (.atRule name params rs ds) = do
      Printer.put ("@" ++ name)
      if !params.isEmpty then Printer.put (" " ++ params)
      if rs.isNone && ds.isNone then
        Printer.put ";"
        return false
      else
        Printer.openBody
        return true := rfl

theorem enter_atRule (name params : String) {rs ds : Option (List Node)}
    (h : (rs.isNone && ds.isNone) = false) :
    (Session.handlers limit).enter (.atRule name params rs ds) (d.session es fs ps) =
      .ok true ((d.feedAll limit (atRuleOutline name params ++ [.text "\x7b"])).session es
        (true :: fs) ps) := by
  change Session.onPrinter (Printer.enterAtRule (.atRule name params rs ds)) _ = _
  rw [enterAtRule_eq, h, atRuleOutline]
  cases params.isEmpty <;> rfl

theorem enter_statement (name params : String) :
    (Session.handlers limit).enter (.atRule name params none none) (d.session es fs ps) =
      .ok false
        ((d.feedAll limit (atRuleOutline name params ++ [.text ";"])).session es fs ps) := by
  change Session.onPrinter (Printer.enterAtRule (.atRule name params none none)) _ = _
  rw [enterAtRule_eq, atRuleOutline]
  cases params.isEmpty <;> rfl

/-- A branch with a condition, given the walk over its body. -/
theorem walks_branch {b : Branch} (hb : b ≠ .otherwise) (c : String) {body : List Node}
    {good : Prop} {seen : Bool} (as : List Fragment) (count : Nat)
    (hbody : ∀ d : Draft, Walks good
      (walkAll (Session.handlers limit) body (d.session (seen :: es) fs ps))
      ((d.feedAll limit (rulesOutline body)).session (seen :: es) fs ps)) :
    Walks good (walk (Session.handlers limit) (.conditionalRule b (some c) body)
        ((⟨as, "", count⟩ : Draft).session (seen :: es) fs ps))
      ((⟨.fixed .colon :: .fixed .closing :: ((fragments (layout limit "" 0
          (rulesOutline body))).reverse ++
        .fixed .question :: .raw (some c) :: .fixed .opening :: as), "",
        countAfter limit 0 (rulesOutline body)⟩ : Draft).session (seen :: es) fs ps) := by
  let d : Draft := ⟨.fixed .question :: .raw (some c) :: .fixed .opening :: as, "", 0⟩
  have henter : (Session.handlers limit).enter (.conditionalRule b (some c) body)
      ((⟨as, "", count⟩ : Draft).session (seen :: es) fs ps) =
        .ok true (d.session (seen :: es) fs ps) := by
    cases b with
    | ifTrue | elseIf => rfl
    | otherwise => exact absurd rfl hb
  rw [walk]
  refine Walks.visit henter (hbody d) ?_
  have hflushed := d.flushed_feedAll limit (rulesOutline body)
  have hcount := d.count_feedAll limit (rulesOutline body)
  dsimp only [d] at hflushed hcount
  rw [← hflushed, ← hcount]
  cases b with
  | ifTrue | elseIf => rfl
  | otherwise => exact absurd rfl hb

/-- An `@else`, given the walk over its body. -/
theorem walks_otherwise (c : Option String) {body : List Node} {good : Prop} (seen : Bool)
    (as : List Fragment) (count : Nat)
    (hbody : ∀ d : Draft, Walks good
      (walkAll (Session.handlers limit) body (d.session (true :: es) fs ps))
      ((d.feedAll limit (rulesOutline body)).session (true :: es) fs ps)) :
    Walks good (walk (Session.handlers limit) (.conditionalRule .otherwise c body)
        ((⟨as, "", count⟩ : Draft).session (seen :: es) fs ps))
      ((⟨.fixed .closing :: ((fragments (layout limit "" count (rulesOutline body))).reverse ++
        .fixed .opening :: as), "", countAfter limit count (rulesOutline body)⟩ : Draft).session
          (true :: es) fs ps) := by
  let d : Draft := ⟨.fixed .opening :: as, "", count⟩
  have hflushed := d.flushed_feedAll limit (rulesOutline body)
  have hcount := d.count_feedAll limit (rulesOutline body)
  dsimp only [d] at hflushed hcount
  have henter : (Session.handlers limit).enter (.conditionalRule .otherwise c body)
      ((⟨as, "", count⟩ : Draft).session (seen :: es) fs ps) =
        .ok true (d.session (true :: es) fs ps) := rfl
  rw [walk, ← hflushed, ← hcount]
  exact Walks.visit henter (hbody d) rfl

/-- The end of a block after its `@else`. -/
theorem walks_end (as : List Fragment) (count : Nat) :
    Walks True ((walkAll (Session.handlers limit) [] >>= fun _ => Session.leaveBlock .blank)
        ((⟨as, "", count⟩ : Draft).session (true :: es) fs ps))
      ((⟨.fixed .groupBreak :: as, "", 0⟩ : Draft).session es fs ps) :=
  .of_ok trivial rfl

/-- A branch with a condition and what follows it in its block. -/
theorem walks_chain {b : Branch} (hb : b ≠ .otherwise) (c : String) {body rest : List Node}
    {good good' : Prop}
    (hbody : ∀ d : Draft, Walks good
      (walkAll (Session.handlers limit) body (d.session (false :: es) fs ps))
      ((d.feedAll limit (rulesOutline body)).session (false :: es) fs ps))
    (hrest : ∀ as count, Walks good'
      ((walkAll (Session.handlers limit) rest >>= fun _ => Session.leaveBlock .blank)
        ((⟨as, "", count⟩ : Draft).session (false :: es) fs ps))
      ((⟨.fixed .groupBreak :: ((chainFragments (chainLayout limit count
        (chainOutline rest))).reverse ++ as), "", 0⟩ : Draft).session es fs ps))
    (as : List Fragment) (count : Nat) :
    Walks (good ∧ good')
      ((walkAll (Session.handlers limit) (.conditionalRule b (some c) body :: rest) >>=
          fun _ => Session.leaveBlock .blank)
        ((⟨as, "", count⟩ : Draft).session (false :: es) fs ps))
      ((⟨.fixed .groupBreak :: ((chainFragments (chainLayout limit count (chainOutline
        (.conditionalRule b (some c) body :: rest)))).reverse ++ as), "", 0⟩ : Draft).session
          es fs ps) := by
  have hwalk := (walks_branch limit hb c as count hbody).andThen (hrest _ _)
  rw [walkAll, bind_assoc, chainOutline_branch hb, chainLayout, chainFragments]
  simpa only [List.reverse_cons, List.reverse_append, List.append_assoc, List.cons_append,
    List.nil_append] using hwalk

/-- A block whose first branch is given, together with the walk over its branches. -/
theorem walks_block {c : String} {body rest : List Node} {good : Prop}
    (hchain : RefusedForText (.conditionalRule .ifTrue (some c) body :: rest)
      (checkChain (.conditionalRule .ifTrue (some c) body :: rest)))
    (hbranches : ∀ as, Walks good
      ((walkAll (Session.handlers limit) (.conditionalRule .ifTrue (some c) body :: rest) >>=
          fun _ => Session.leaveBlock .blank)
        ((⟨as, "", 0⟩ : Draft).session (false :: es) fs ps))
      ((⟨.fixed .groupBreak :: ((chainFragments (chainLayout limit 0 (chainOutline
          (.conditionalRule .ifTrue (some c) body :: rest)))).reverse ++ as), "", 0⟩ :
            Draft).session es fs ps)) :
    Walks ((∀ b ∈ .conditionalRule .ifTrue (some c) body :: rest, HasText b) ∧ good)
      (walk (Session.handlers limit)
        (.conditionalBlock (.conditionalRule .ifTrue (some c) body :: rest)) (d.session es fs ps))
      ((d.feedAll limit (ruleOutline (.conditionalBlock
        (.conditionalRule .ifTrue (some c) body :: rest)))).session es fs ps) := by
  generalize hbs : Node.conditionalRule .ifTrue (some c) body :: rest = bs at hchain hbranches ⊢
  rw [walk, ruleOutline]
  by_cases h : ∀ b ∈ bs, HasText b
  · have henter : (Session.handlers limit).enter (.conditionalBlock bs) (d.session es fs ps) =
        .ok true
          ((⟨.fixed .groupBreak :: d.flushed, "", 0⟩ : Draft).session (false :: es) fs ps) := by
      change Session.enterBlock (.conditionalBlock bs) _ = _
      have hcheck : checkBlock (.conditionalBlock bs) = .ok () := hchain.1 h
      rw [Session.enterBlock, hcheck]
      rfl
    rw [visit_of_true henter]
    exact (hbranches _).congr (and_iff_right h).symm
  · obtain ⟨b, herror⟩ := hchain.2 h
    have henter : (Session.handlers limit).enter (.conditionalBlock bs) (d.session es fs ps) =
        .error (.chain (.noCondition b)) (d.session es fs ps) := by
      change Session.enterBlock (.conditionalBlock bs) _ = _
      have hcheck : checkBlock (.conditionalBlock bs) = .error (.noCondition b) := herror
      rw [Session.enterBlock, hcheck]
      rfl
    rw [Registry.visit, bind_of_error henter]
    exact ⟨fun h' => absurd h'.1 h, fun _ => ⟨b, _, rfl⟩⟩

end Rules

section Tree

variable (limit : Nat) {es fs : List Bool} {ps : List (Option Node)}

mutual

theorem walks_rule {r : Node} (h : IsRule r) (d : Draft) (es fs : List Bool) :
    Walks (Conditioned r) (walk (Session.handlers limit) r (d.session es fs ps))
      ((d.feedAll limit (ruleOutline r)).session es fs ps) := by
  match h with
  | @IsRule.ruleset selectors ds hds =>
    have hgood := (conditioned_iff_children (n := .ruleset selectors ds) (by simp [Node.kind])).2
      (conditioned_declarations hds)
    have henter : (Session.handlers limit).enter (.ruleset selectors ds) (d.session es fs ps) =
        .ok true ((d.feedAll limit [.text (",".intercalate selectors), .text "\x7b"]).session es
          (true :: fs) ps) := rfl
    refine .of_ok hgood ?_
    rw [walk, visit_of_true henter, bind_of_ok (walkAll_declarations limit hds true _), ruleOutline,
      bodyOutline]
    simp only [Draft.feedAll_cons, Draft.feedAll_append, Draft.feedAll_nil]
    rfl
  | .statement name params =>
    refine .of_ok ((conditioned_iff_children (by simp [Node.kind])).2 (by simp [Node.children])) ?_
    exact visit_of_false (enter_statement limit name params)
  | @IsRule.descriptors name params ds hds =>
    refine .of_ok ((conditioned_iff_children (by simp [Node.kind])).2
      (conditioned_declarations hds)) ?_
    rw [walk, visit_of_true (enter_atRule limit name params rfl),
      bind_of_ok (walkAll_declarations limit hds true _), ruleOutline, bodyOutline]
    simp only [Draft.feedAll_cons, Draft.feedAll_append, Draft.feedAll_nil]
    rfl
  | @IsRule.group name params rs hrs =>
    rw [conditioned_iff_children (by simp [Node.kind]), walk, ruleOutline, bodyOutline]
    refine Walks.visit (enter_atRule limit name params rfl) (walks_rules hrs _ es (true :: fs)) ?_
    simp only [Draft.feedAll_cons, Draft.feedAll_append, Draft.feedAll_nil]
    rfl
  | @IsRule.block c body rest hbody hrest =>
    -- the conditions of the block itself are checked before any of its branches is walked
    refine (walks_block limit (refusedForText_cons (by decide) (refusedForText_alternatives hrest))
      fun as => (walks_chain limit (by decide) c (fun d' => walks_rules hbody d' (false :: es) fs)
        (walks_alternatives hrest es fs) as 0)).congr ?_
    simp only [conditioned_block, List.forall_mem_cons, Node.children]

theorem walks_rules {rs : List Node} (h : AreRules rs) (d : Draft) (es fs : List Bool) :
    Walks (∀ r ∈ rs, Conditioned r) (walkAll (Session.handlers limit) rs (d.session es fs ps))
      ((d.feedAll limit (rulesOutline rs)).session es fs ps) := by
  match h with
  | .nil => exact .of_ok (by simp) rfl
  | .cons hr hrs =>
    rw [walkAll, rulesOutline, Draft.feedAll_append]
    exact ((walks_rule hr d es fs).andThen (walks_rules hrs _ es fs)).congr
      List.forall_mem_cons.symm

/-- The branches of a block after its first, and the end of the block. -/
theorem walks_alternatives {bs : List Node} (h : AreAlternatives bs) (es fs : List Bool)
    (as : List Fragment) (count : Nat) :
    Walks (∀ b ∈ bs, ∀ r ∈ b.children, Conditioned r)
      ((walkAll (Session.handlers limit) bs >>= fun _ => Session.leaveBlock .blank)
        ((⟨as, "", count⟩ : Draft).session (false :: es) fs ps))
      ((⟨.fixed .groupBreak :: ((chainFragments (chainLayout limit count
        (chainOutline bs))).reverse ++ as), "", 0⟩ : Draft).session es fs ps) := by
  match h with
  | .nil =>
    rw [chainOutline, chainLayout, chainFragments]
    · exact .of_ok (by simp) rfl
    all_goals simp
  | @AreAlternatives.otherwise body hbody =>
    have hwalk := (walks_otherwise limit none false as count fun d' =>
      walks_rules hbody d' (true :: es) fs).andThen (walks_end limit _ _)
    rw [walkAll, bind_assoc, chainOutline, chainLayout, chainFragments]
    refine Walks.congr ?_ (?_ : (∀ r ∈ body, Conditioned r) ∧ True ↔ _)
    · simpa only [List.reverse_cons, List.reverse_append, List.reverse_nil, List.append_assoc,
        List.cons_append, List.nil_append] using hwalk
    · simp only [List.forall_mem_cons, Node.children, List.not_mem_nil, false_implies,
        implies_true]
  | @AreAlternatives.elseIf c body rest hbody hrest =>
    refine (walks_chain limit (by decide) c (fun d' => walks_rules hbody d' (false :: es) fs)
      (walks_alternatives hrest es fs) as count).congr ?_
    rw [List.forall_mem_cons, Node.children]

end

/-- The walk over a whole stylesheet. -/
theorem walks_tree {body : List Node} (h : AreRules body) :
    Walks (Conditioned (.stylesheet body))
      (walk (Session.handlers limit) (.stylesheet body) Session.start)
      ((⟨.fixed .closing :: ((fragments (layout limit "" 0 (rulesOutline body))).reverse ++
        [.fixed .opening]), "", countAfter limit 0 (rulesOutline body)⟩ :
          Draft).session [] [] []) := by
  let d : Draft := ⟨[.fixed .opening], "", 0⟩
  have henter : (Session.handlers limit).enter (.stylesheet body) Session.start =
      .ok true (d.session [] [] []) := rfl
  have hflushed := d.flushed_feedAll limit (rulesOutline body)
  have hcount := d.count_feedAll limit (rulesOutline body)
  dsimp only [d] at hflushed hcount
  rw [walk, ← hflushed, ← hcount, conditioned_iff_children (by simp [Node.kind])]
  exact Walks.visit henter (walks_rules limit h d [] []) rfl

end Tree

end ConditionalStyle.Assembly
