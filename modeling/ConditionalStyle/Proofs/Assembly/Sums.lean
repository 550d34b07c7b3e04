import ConditionalStyle.Proofs.Assembly.Pruning
import ConditionalStyle.Proofs.Assembly.Requests

/-!
# How many sums stand in a row

Among the fragments that a compiler keeps, the sums between two parentheses, group breaks or colons
are at most as many as the limit allows. This holds after any requests, on any trees, also where a
request failed.

The compiler counts the sums that it appends, and pruning takes some of them away again, together
with group breaks for which the count was set back. What relates the count to the fragments is that
the sums since the last end of a run are never more than the count: a dropped group break leaves
another end of a run in its place.

## Main definitions

* `Part.endsRun`: the parts between which sums are counted.
* `openSums`: the sums since the last such part.
* `ShortRuns`: fragments without a stretch of too many sums.
* `Capped`: the relation between the fragments, the count and the limit.

## Main statements

* `isLasting_capped`: this relation lasts, however fragments are appended.
* `serveAll_capped`: what holds of the sums after any requests.
-/

namespace ConditionalStyle.Assembly

/-- Whether a part ends a run of sums. -/
def Part.endsRun : Part → Bool
  | .opening | .closing | .question | .colon | .groupBreak => true
  | .plus | .literal | .empty | .raw => false

/-- The number of sums since the last end of a run, in fragments given newest first. -/
def openSums (fs : List Fragment) : Nat :=
  count .plus (fs.takeWhile fun f => !f.part.endsRun)

/-- Fragments in which no stretch without an end of a run has more sums than the limit. -/
def ShortRuns (limit : Nat) (fs : List Fragment) : Prop :=
  ∀ stretch, stretch <:+: fs → (∀ f ∈ stretch, f.part.endsRun = false) →
    count .plus stretch ≤ limit

/-! ### Sums since the last end of a run -/

section OpenSums

variable {f : Fragment} {fs stretch : List Fragment}

theorem openSums_of_endsRun (h : f.part.endsRun = true) (fs : List Fragment) :
    openSums (f :: fs) = 0 := by
  rw [openSums, List.takeWhile_cons_of_neg (by simp [h])]
  rfl

theorem openSums_cons (h : f.part.endsRun = false) (fs : List Fragment) :
    openSums (f :: fs) = openSums fs + if f.part = .plus then 1 else 0 := by
  rw [openSums, List.takeWhile_cons_of_pos (by simp [h]), count, List.countP_cons]
  simp only [beq_iff_eq]
  rfl

theorem openSums_of_empty (h : f.part = .empty) (fs : List Fragment) :
    openSums (f :: fs) = openSums fs := by
  rw [openSums_cons (by rw [h]; rfl), if_neg (by rw [h]; decide), Nat.add_zero]

theorem endsRun_of_isOpener {p : Part} (h : p.isOpener = true) : p.endsRun = true := by
  cases p <;> first | rfl | cases h

/-- A separator other than a plus is a group break. -/
theorem eq_groupBreak {p : Part} (h : p.isSeparator = true) (hp : p ≠ .plus) :
    p = .groupBreak := by
  cases p <;> first | rfl | exact absurd rfl hp | cases h

/-- Sums are added one at a time. -/
theorem openSums_keep_le (f : Fragment) (kept : List Fragment) :
    openSums (keep f kept) ≤ openSums kept + if f.part = .plus then 1 else 0 := by
  have hkeep := keeping_keep f kept
  generalize keep f kept = result at hkeep ⊢
  cases hkeep with
  | add =>
    cases hf : f.part.endsRun with
    | true =>
      rw [openSums_of_endsRun hf]
      exact Nat.zero_le _
    | false => exact Nat.le_of_eq (openSums_cons hf kept)
  | closing older he hp hf | breaking older he hp hf =>
    rw [openSums_of_endsRun (by rw [hf]; rfl)]
    exact Nat.zero_le _
  | merging older he hp hf hbreak | leading older he hp hf =>
    rw [openSums_of_empty he]
    exact Nat.le_add_right _ _

/-- After a part that ends a run no sums are open, even if the part itself is dropped. -/
theorem openSums_keep_of_endsRun (h : f.part.endsRun = true) (kept : List Fragment) :
    openSums (keep f kept) = 0 := by
  have hkeep := keeping_keep f kept
  generalize keep f kept = result at hkeep ⊢
  cases hkeep with
  | add | closing _ _ _ _ | breaking _ _ _ _ => exact openSums_of_endsRun h _
  | @merging e p older he hp hf hbreak =>
    -- a group break is dropped only after another one
    have hgroup : f.part = .groupBreak := eq_groupBreak hf fun hplus => by
      rw [hplus] at h
      cases h
    have hp : p.part = .groupBreak := eq_groupBreak hp fun hplus => hbreak ⟨hplus, hgroup⟩
    exact openSums_of_endsRun (by rw [hp]; rfl) older
  | leading older he hp hf => exact openSums_of_endsRun (endsRun_of_isOpener hp) older

theorem count_le_openSums (hfront : stretch <+: fs) (h : ∀ f ∈ stretch, f.part.endsRun = false) :
    count .plus stretch ≤ openSums fs := by
  obtain ⟨rest, rfl⟩ := hfront
  rw [openSums, List.takeWhile_append_of_pos fun f hf => by simp [h f hf], count, count,
    List.countP_append]
  exact Nat.le_add_right _ _

end OpenSums

/-! ### Short runs -/

section ShortRuns

variable {limit : Nat} {f : Fragment} {fs kept : List Fragment}

theorem shortRuns_nil (limit : Nat) : ShortRuns limit [] := by
  intro stretch hstretch _
  rw [List.eq_nil_of_infix_nil hstretch]
  exact Nat.zero_le limit

theorem ShortRuns.of_suffix (h : ShortRuns limit kept) (hsuffix : fs <:+ kept) :
    ShortRuns limit fs :=
  fun stretch hstretch => h stretch (hstretch.trans hsuffix.isInfix)

theorem shortRuns_cons (hopen : openSums (f :: fs) ≤ limit) (h : ShortRuns limit fs) :
    ShortRuns limit (f :: fs) := by
  intro stretch hstretch hparts
  rcases List.infix_cons_iff.1 hstretch with hfront | hinfix
  · exact Nat.le_trans (count_le_openSums hfront hparts) hopen
  · exact h stretch hinfix hparts

/-- What is kept is an older part of what was kept before, with or without the new fragment. -/
theorem ShortRuns.keep (h : ShortRuns limit kept) (hopen : openSums (keep f kept) ≤ limit) :
    ShortRuns limit (keep f kept) := by
  have hkeep := keeping_keep f kept
  generalize Assembly.keep f kept = result at hkeep hopen ⊢
  cases hkeep with
  | add => exact shortRuns_cons hopen h
  | closing older _ _ _ | breaking older _ _ _ =>
    exact shortRuns_cons hopen (h.of_suffix ⟨[_, _], rfl⟩)
  | merging older _ _ _ _ | leading older _ _ _ => exact h.of_suffix ⟨[_], rfl⟩

end ShortRuns

/-! ### The count of a compiler -/

/-- The count of a session is between the open sums and the limit, and all runs are short. -/
structure Capped (limit : Nat) (s : Session) : Prop where
  openSums_le : openSums s.kept ≤ s.concatenations
  concatenations_le : s.concatenations ≤ limit
  shortRuns : ShortRuns limit s.kept

namespace Capped

variable {limit : Nat} {s : Session}

theorem start (limit : Nat) : Capped limit .start where
  openSums_le := Nat.le_refl 0
  concatenations_le := Nat.zero_le limit
  shortRuns := shortRuns_nil limit

/-- Only the fragments and the count matter. -/
theorem congr {t : Session} (h : Capped limit s) (happended : t.appended = s.appended)
    (hcount : t.concatenations = s.concatenations) : Capped limit t := by
  obtain ⟨hopen, hle, hruns⟩ := h
  rw [Session.kept, ← happended] at hopen hruns
  rw [← hcount] at hopen hle
  exact ⟨hopen, hle, hruns⟩

theorem add (h : Capped limit s) {f : Fragment} (hf : f.part ≠ .plus) :
    Capped limit (s.adding f) := by
  have hopen : openSums (keep f s.kept) ≤ s.concatenations := by
    have hkeep := openSums_keep_le f s.kept
    rw [if_neg hf, Nat.add_zero] at hkeep
    exact Nat.le_trans hkeep h.openSums_le
  exact ⟨hopen, h.concatenations_le, h.shortRuns.keep (Nat.le_trans hopen h.concatenations_le)⟩

/-- The count can be set back after a part that ends a run. -/
theorem restart (h : Capped limit s) {f : Fragment} (hf : f.part.endsRun = true) :
    Capped limit { s.adding f with concatenations := 0 } := by
  have hopen : openSums (keep f s.kept) = 0 := openSums_keep_of_endsRun hf s.kept
  exact ⟨Nat.le_of_eq hopen, Nat.zero_le limit, h.shortRuns.keep (by omega)⟩

/-- A sum either is counted or breaks the group. -/
theorem sum (h : Capped limit s) : Capped limit (s.summed limit) := by
  by_cases hlimit : limit ≤ s.concatenations
  · refine (h.restart (f := .fixed .groupBreak) rfl).congr ?_ ?_
    · rw [Session.summed, sumPart, if_pos hlimit]
      rfl
    · rw [Session.summed, countSum, if_pos hlimit]
  · have hopen : openSums (keep (.fixed .plus) s.kept) ≤ s.concatenations + 1 :=
      Nat.le_trans (openSums_keep_le (.fixed .plus) s.kept) (Nat.add_le_add_right h.openSums_le 1)
    have hplus : Capped limit
        { s.adding (.fixed .plus) with concatenations := s.concatenations + 1 } :=
      ⟨hopen, by show s.concatenations + 1 ≤ limit; omega, h.shortRuns.keep (by omega)⟩
    refine hplus.congr ?_ ?_
    · rw [Session.summed, sumPart, if_neg hlimit]
      rfl
    · rw [Session.summed, countSum, if_neg hlimit]

/-- However fragments are appended, the count stays between the open sums and the limit. -/
theorem isLasting_capped (limit : Nat) : IsLasting limit (Capped limit) where
  congr := congr
  add := add
  restart h _ hp := h.restart (by rcases hp with rfl | rfl <;> rfl)
  sum := sum

end Capped

/-- After any requests, whether they succeed or fail, the sums since the last end of a run are at
most as many as the compiler has counted, it has counted no more than the limit, and no stretch of
the fragments that are kept has more sums than the limit without an end of a run among them. -/
theorem serveAll_capped (limit : Nat) (requests : List Request) :
    openSums (serveAll limit requests).kept ≤ (serveAll limit requests).concatenations ∧
      (serveAll limit requests).concatenations ≤ limit ∧
      ∀ stretch, stretch <:+: (serveAll limit requests).kept →
        (∀ f ∈ stretch, f.part.endsRun = false) → count .plus stretch ≤ limit := by
  have h := (Capped.isLasting_capped limit).serveAll (.start limit) requests
  exact ⟨h.openSums_le, h.concatenations_le, h.shortRuns⟩

end ConditionalStyle.Assembly
