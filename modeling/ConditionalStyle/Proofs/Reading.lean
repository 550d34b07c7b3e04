/-!
# Readings and actions

A function that reads tokens returns the tokens it leaves together with a bound on their number,
which is what ends its recursion. Here the bound is forgotten, so that readings can be composed and
compared as plain pairs of what was read and what is left.

Other functions are actions on a state, which is kept when they fail. Both are taken apart where one
step follows another.

## Main definitions

* `plain`: a reading without its bound.
* `Located`: a reading that leaves tokens, or fails with an error, of some kind.

## Main statements

* `property_of_plain`: a plain result still meets its bound.
* `bind_eq_ok_iff`, `map_eq_ok_iff`: when a sequence of two steps succeeds.
* `Located.bind`: a sequence of two located steps.
* `bind_of_ok`, `bind_of_error`, `ok_of_bind`, `error_of_bind`: two actions in a row.
-/

namespace ConditionalStyle

variable {ε α β τ : Type} {p : List τ → Prop}

/-- A reading without the bound on what it leaves. -/
def plain (x : Except ε (α × { rest : List τ // p rest })) : Except ε (α × List τ) :=
  x.map fun y => (y.1, y.2.1)

@[simp] theorem plain_error (e : ε) :
    plain (.error e : Except ε (α × { rest : List τ // p rest })) = .error e := rfl

@[simp] theorem plain_ok (a : α) (r : { rest : List τ // p rest }) :
    plain (.ok (a, r) : Except ε _) = .ok (a, r.1) := rfl

theorem property_of_plain {x : Except ε (α × { rest : List τ // p rest })} {a : α} {r : List τ}
    (h : plain x = .ok (a, r)) : p r := by
  rcases x with e | ⟨b, r', hr⟩
  · cases h
  · cases h
    exact hr

theorem bind_eq_ok_iff {x : Except ε α} {f : α → Except ε β} {b : β} :
    x.bind f = .ok b ↔ ∃ a, x = .ok a ∧ f a = .ok b := by
  constructor
  · intro h
    cases x with
    | error e => cases h
    | ok a => exact ⟨a, rfl, h⟩
  · rintro ⟨a, rfl, h⟩
    exact h

theorem map_eq_ok_iff {x : Except ε α} {f : α → β} {b : β} :
    x.map f = .ok b ↔ ∃ a, x = .ok a ∧ f a = b := by
  cases x with
  | error e => simp [Except.map]
  | ok a => simp [Except.map]

theorem rest_suffix {t : τ} {r all : List τ} (h : t :: r <:+ all) : r <:+ all :=
  (List.suffix_cons t r).trans h

/-- A reading that leaves tokens of a given kind, or fails with an error of a given kind. -/
inductive Located (left : List τ → Prop) (kind : ε → Prop) : Except ε (α × List τ) → Prop
  | ok {a : α} {r : List τ} (hr : left r) : Located left kind (.ok (a, r))
  | error {e : ε} (he : kind e) : Located left kind (.error e)

theorem Located.bind {left : List τ → Prop} {kind : ε → Prop} {x : Except ε (α × List τ)}
    {f : α × List τ → Except ε (β × List τ)} (hx : Located left kind x)
    (hf : ∀ a r, x = .ok (a, r) → left r → Located left kind (f (a, r))) :
    Located left kind (x.bind f) := by
  cases hx with
  | ok hr => exact hf _ _ rfl hr
  | error he => exact .error he

section Actions

variable {σ : Type} {x : EStateM ε σ α} {f : α → EStateM ε σ β} {s s' : σ}

theorem bind_of_ok {a : α} (h : x s = .ok a s') : (x >>= f) s = f a s' := by
  change EStateM.bind x f s = f a s'
  rw [EStateM.bind, h]

theorem bind_of_error {e : ε} (h : x s = .error e s') : (x >>= f) s = .error e s' := by
  change EStateM.bind x f s = .error e s'
  rw [EStateM.bind, h]

theorem ok_of_bind {b : β} (h : (x >>= f) s = .ok b s') :
    ∃ a s₁, x s = .ok a s₁ ∧ f a s₁ = .ok b s' := by
  cases hx : x s with
  | ok a s₁ =>
    rw [bind_of_ok hx] at h
    exact ⟨a, s₁, rfl, h⟩
  | error e s₁ =>
    rw [bind_of_error hx] at h
    cases h

theorem error_of_bind {e : ε} (h : (x >>= f) s = .error e s') :
    x s = .error e s' ∨ ∃ a s₁, x s = .ok a s₁ ∧ f a s₁ = .error e s' := by
  cases hx : x s with
  | ok a s₁ =>
    rw [bind_of_ok hx] at h
    exact .inr ⟨a, s₁, rfl, h⟩
  | error e' s₁ =>
    rw [bind_of_error hx] at h
    cases h
    exact .inl rfl

end Actions

end ConditionalStyle
