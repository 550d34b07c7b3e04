import ConditionalStyle.Proofs.Stylesheet.Terminals

/-!
# Addresses without quotes

Whether `url(` opens an address is decided by what stands behind it: blanks, an address, blanks and
a parenthesis. Here this is read one character after the other. A run of blanks counts as one blank,
and nothing counts behind the character that decides.

## Main definitions

* `AddressPhase`: how far an address has been read.
* `AddressPhase.run`: how far a text leads.

## Main statements

* `Terminal.stops_addressOpener_iff`: `url(` is a terminal in front of what does not close an
  address.
* `AddressPhase.run_blanks`: how many blanks there are does not matter.
-/

namespace ConditionalStyle.Stylesheet

open Text

/-- How far an address has been read behind `url(`. -/
inductive AddressPhase where
  | before
  | inside
  | after
  | closed
  | broken
deriving DecidableEq, Repr

namespace AddressPhase

variable {p : AddressPhase} {cs : List Char}

/-- Reads one character. An address that is closed or broken stays so. -/
def step (p : AddressPhase) (c : Char) : AddressPhase :=
  match p with
  | .before =>
    if c == ')' then .closed else if isBlank c then .before
    else if isAddress c then .inside else .broken
  | .inside =>
    if c == ')' then .closed else if isBlank c then .after
    else if isAddress c then .inside else .broken
  | .after => if c == ')' then .closed else if isBlank c then .after else .broken
  | .closed => .closed
  | .broken => .broken

/-- Reads a text. -/
def run (p : AddressPhase) (cs : List Char) : AddressPhase :=
  cs.foldl step p

@[simp] theorem run_nil (p : AddressPhase) : p.run [] = p := rfl

@[simp] theorem run_cons (p : AddressPhase) (c : Char) (cs : List Char) :
    p.run (c :: cs) = (p.step c).run cs := rfl

@[simp] theorem run_append (p : AddressPhase) (a b : List Char) :
    p.run (a ++ b) = (p.run a).run b :=
  List.foldl_append

@[simp] theorem run_closed (cs : List Char) : closed.run cs = closed := by
  induction cs with
  | nil => rfl
  | cons c cs ih => exact ih

@[simp] theorem run_broken (cs : List Char) : broken.run cs = broken := by
  induction cs with
  | nil => rfl
  | cons c cs ih => exact ih

/-! ### Steps -/

theorem step_blank {c : Char} (h : isBlank c = true) (p : AddressPhase) :
    p.step c = p.step ' ' := by
  have hc : c ≠ ')' := by
    rintro rfl
    exact absurd h (by decide)
  have hspace : isBlank ' ' = true := by decide
  cases p <;> simp [step, h, hc, hspace]

theorem step_space_space (p : AddressPhase) : (p.step ' ').step ' ' = p.step ' ' := by
  cases p <;> decide

/-- A run of blanks counts as one. -/
theorem run_blanks (h : ∀ c ∈ cs, isBlank c = true) (hne : cs ≠ []) (p : AddressPhase) :
    p.run cs = p.step ' ' := by
  induction cs generalizing p with
  | nil => exact absurd rfl hne
  | cons c cs ih =>
    obtain ⟨hc, hcs⟩ := List.forall_mem_cons.1 h
    rw [run_cons, step_blank hc]
    rcases cs with _ | ⟨d, cs⟩
    · rfl
    · rw [ih hcs (List.cons_ne_nil d cs), step_space_space]

theorem step_address {c : Char} (h : isAddress c = true) :
    before.step c = inside ∧ inside.step c = inside := by
  have hc : c ≠ ')' ∧ isBlank c = false := by
    simp only [isAddress, Bool.not_eq_true', Bool.or_eq_false_iff, beq_eq_false_iff_ne] at h
    exact ⟨h.1.1.1, h.2⟩
  simp [step, h, hc.1, hc.2]

/-- A parenthesis closes what is not broken. -/
theorem step_parenthesis (p : AddressPhase) : p.step ')' = closed ∨ p = broken := by
  cases p <;> decide

/-! ### Texts that close an address -/

theorem exists_of_run_after (h : after.run cs = closed) :
    ∃ blanks rest, cs = blanks ++ ')' :: rest ∧ ∀ c ∈ blanks, isBlank c = true := by
  induction cs with
  | nil => cases h
  | cons c cs ih =>
    rw [run_cons, step] at h
    split at h
    · next hc => exact ⟨[], cs, by rw [eq_of_beq hc]; rfl, by simp⟩
    split at h
    · next hc =>
      obtain ⟨blanks, rest, rfl, hblanks⟩ := ih h
      exact ⟨c :: blanks, rest, rfl, List.forall_mem_cons.2 ⟨hc, hblanks⟩⟩
    · simp at h

theorem exists_of_run_inside (h : inside.run cs = closed) :
    ∃ address blanks rest, cs = address ++ (blanks ++ ')' :: rest) ∧
      (∀ c ∈ address, isAddress c = true) ∧ ∀ c ∈ blanks, isBlank c = true := by
  induction cs with
  | nil => cases h
  | cons c cs ih =>
    rw [run_cons, step] at h
    split at h
    · next hc => exact ⟨[], [], cs, by rw [eq_of_beq hc]; rfl, by simp, by simp⟩
    split at h
    · next hc =>
      obtain ⟨blanks, rest, rfl, hblanks⟩ := exists_of_run_after h
      exact ⟨[], c :: blanks, rest, rfl, by simp, List.forall_mem_cons.2 ⟨hc, hblanks⟩⟩
    split at h
    · next hc =>
      obtain ⟨address, blanks, rest, rfl, haddress, hblanks⟩ := ih h
      exact ⟨c :: address, blanks, rest, rfl, List.forall_mem_cons.2 ⟨hc, haddress⟩, hblanks⟩
    · simp at h

theorem exists_of_run_before (h : before.run cs = closed) :
    ∃ blanks address blanks' rest, cs = blanks ++ (address ++ (blanks' ++ ')' :: rest)) ∧
      (∀ c ∈ blanks, isBlank c = true) ∧ (∀ c ∈ address, isAddress c = true) ∧
      (∀ c ∈ blanks', isBlank c = true) ∧ (address = [] → blanks' = []) := by
  induction cs with
  | nil => cases h
  | cons c cs ih =>
    rw [run_cons, step] at h
    split at h
    · next hc =>
      exact ⟨[], [], [], cs, by rw [eq_of_beq hc]; rfl, by simp, by simp, by simp, fun _ => rfl⟩
    split at h
    · next hc =>
      obtain ⟨blanks, address, blanks', rest, rfl, hblanks, hrest⟩ := ih h
      exact ⟨c :: blanks, address, blanks', rest, rfl, List.forall_mem_cons.2 ⟨hc, hblanks⟩, hrest⟩
    split at h
    · next hc =>
      obtain ⟨address, blanks', rest, rfl, haddress, hblanks'⟩ := exists_of_run_inside h
      exact ⟨[], c :: address, blanks', rest, rfl, by simp,
        List.forall_mem_cons.2 ⟨hc, haddress⟩, hblanks', by simp⟩
    · simp at h

theorem run_inside_address (h : ∀ c ∈ cs, isAddress c = true) : inside.run cs = inside := by
  induction cs with
  | nil => rfl
  | cons c cs ih =>
    obtain ⟨hc, hcs⟩ := List.forall_mem_cons.1 h
    rw [run_cons, (step_address hc).2, ih hcs]

theorem run_before_of_closed {blanks address blanks' : List Char}
    (hblanks : ∀ c ∈ blanks, isBlank c = true) (haddress : ∀ c ∈ address, isAddress c = true)
    (hblanks' : ∀ c ∈ blanks', isBlank c = true) (hempty : address = [] → blanks' = [])
    (rest : List Char) :
    before.run (blanks ++ (address ++ (blanks' ++ ')' :: rest))) = closed := by
  have hbefore : before.run blanks = before := by
    rcases blanks with _ | ⟨c, blanks⟩
    · rfl
    · exact run_blanks hblanks (List.cons_ne_nil c blanks) before
  rw [run_append, hbefore]
  rcases address with _ | ⟨c, address⟩
  · rw [hempty rfl]
    exact run_closed rest
  · obtain ⟨hc, haddress⟩ := List.forall_mem_cons.1 haddress
    rw [List.cons_append, run_cons, (step_address hc).1, run_append, run_inside_address haddress]
    rcases blanks' with _ | ⟨d, blanks'⟩
    · exact run_closed rest
    · rw [run_append, run_blanks hblanks' (List.cons_ne_nil d blanks')]
      exact run_closed rest

end AddressPhase

/-- What stands behind `url(` makes an address of it if it closes one. -/
theorem urlLength?_opener_eq_none_iff {cs : List Char} :
    urlLength? ('u' :: 'r' :: 'l' :: '(' :: cs) = none ↔ AddressPhase.before.run cs ≠ .closed := by
  constructor
  · intro hnone hclosed
    obtain ⟨blanks, address, blanks', rest, rfl, hblanks, haddress, hblanks', hempty⟩ :=
      AddressPhase.exists_of_run_before hclosed
    have hsome := urlLength?_eq_some_iff.2
      ⟨blanks, address, blanks', rest, rfl, hblanks, haddress, hblanks', hempty, rfl⟩
    rw [hnone] at hsome
    cases hsome
  · intro hopen
    rw [Option.eq_none_iff_forall_ne_some]
    intro n hsome
    obtain ⟨blanks, address, blanks', rest, heq, hblanks, haddress, hblanks', hempty, -⟩ :=
      urlLength?_eq_some_iff.1 hsome
    simp only [List.cons.injEq, true_and] at heq
    rw [heq] at hopen
    exact hopen (AddressPhase.run_before_of_closed hblanks haddress hblanks' hempty rest)

/-- Nothing behind its parenthesis makes an address of a text that is none. -/
theorem urlLength?_parenthesis {cs : List Char}
    (h : urlLength? ('u' :: 'r' :: 'l' :: '(' :: (cs ++ [')'])) = none) (b : List Char) :
    urlLength? ('u' :: 'r' :: 'l' :: '(' :: (cs ++ ')' :: b)) = none := by
  rw [urlLength?_opener_eq_none_iff, AddressPhase.run_append] at h ⊢
  rcases (AddressPhase.before.run cs).step_parenthesis with hclosed | hbroken
  · exact absurd hclosed h
  · rw [hbroken, AddressPhase.run_broken]
    decide

theorem Terminal.stops_addressOpener_iff {b : List Char} :
    Terminal.addressOpener.Stops b ↔ AddressPhase.before.run b ≠ .closed := by
  rw [← urlLength?_opener_eq_none_iff]
  exact ⟨fun h => h rfl, fun h _ => h⟩

end ConditionalStyle.Stylesheet
