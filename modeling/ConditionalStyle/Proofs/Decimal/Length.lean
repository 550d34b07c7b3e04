import ConditionalStyle.Decimal.Reading
import Mathlib.Data.List.Induction
import Mathlib.Data.Nat.Digits.Defs

/-!
# Integers that are read can be written

Digits spell a number that has at most as many digits itself: leading zeros are lost. So an integer
that was not too long to be read is not too long to be written.

## Main statements

* `digitsValue_lt`: the number that digits spell.
* `isWritable_digitsValue`, `isWritable_of_readInt?`: integers that were read.
-/

namespace ConditionalStyle

namespace Text

theorem digit?_lt {c : Char} {d : Nat} (h : digit? c = some d) : d < 10 := by
  obtain ⟨r, -, rfl⟩ := Option.map_eq_some_iff.1 h
  exact Nat.mod_lt _ (by omega)

/-- The number that digits spell is less than the power of ten of that many digits. -/
theorem digitsValue_lt (cs : List Char) : digitsValue cs < 10 ^ cs.length := by
  have hdigit (c : Char) : (digit? c).getD 0 < 10 := by
    rcases h : digit? c with _ | d
    · exact Nat.zero_lt_succ 9
    · exact digit?_lt h
  induction cs using List.reverseRecOn with
  | nil => exact Nat.zero_lt_succ 0
  | append_singleton cs c ih =>
    have hlast := hdigit c
    rw [digitsValue] at ih ⊢
    rw [List.foldl_append, List.foldl_cons, List.foldl_nil, List.length_append,
      List.length_singleton, Nat.pow_succ]
    omega

end Text

namespace Decimal

open Text

/-- The number that some digits spell can be written if they are not too many. -/
theorem isWritable_digitsValue {cs : List Char} (h : cs.length ≤ maxDigits) :
    isWritable (digitsValue cs) = true := by
  have hlt : digitsValue cs < 10 ^ maxDigits :=
    Nat.lt_of_lt_of_le (digitsValue_lt cs) (Nat.pow_le_pow_right (by omega) h)
  exact decide_eq_true (Nat.toDigits_length 10 _ maxDigits (by decide) hlt)

theorem isWritable_neg (n : Int) : isWritable (-n) = isWritable n := by
  rw [isWritable, isWritable, Int.natAbs_neg]

/-- An integer that was read can be written. -/
theorem isWritable_of_readInt? {s : String} {n : Int} (h : readInt? s = some n) :
    isWritable n = true := by
  rw [readInt?] at h
  generalize splitSign (trim isMargin s.toList) = signed at h
  obtain ⟨negative, body⟩ := signed
  obtain ⟨digits, -, h⟩ := Option.bind_eq_some_iff.1 h
  split at h
  · cases h
  · next hdigits =>
    have hlength : digits.length ≤ maxDigits := by
      simp only [Bool.or_eq_true, decide_eq_true_eq, not_or, Nat.not_lt] at hdigits
      exact hdigits.1.2
    have hwritable := isWritable_digitsValue hlength
    cases h
    cases negative with
    | false => exact hwritable
    | true => exact (isWritable_neg _).trans hwritable

end Decimal

end ConditionalStyle
