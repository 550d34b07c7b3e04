import ConditionalStyle.Decimal.Nearest
import Mathlib.Tactic.Positivity

/-!
# The range of doubles

The greatest double is `2 ^ 1024 - 2 ^ 971`, and the next one would be `2 ^ 1024`. An integer that
is halfway between the two rounds to the even mantissa, which is that of the larger, so that it has
no nearest double.

## Main definitions

* `leastTooLarge`: the least number that is too large for a double.

## Main statements

* `lt_roundHalfEven_iff`: where quotients begin to round above an odd number.
* `ofInt?_eq_none_iff`: the integers that are too large for a double.
-/

namespace ConditionalStyle.Decimal

/-- A quotient rounds above an odd number if it is at least halfway to the next one. -/
theorem lt_roundHalfEven_iff {n d k : Nat} (hd : 0 < d) (hk : k % 2 = 1) :
    k < roundHalfEven n d ↔ (2 * k + 1) * d ≤ 2 * n := by
  have hn : d * (n / d) + n % d = n := Nat.div_add_mod n d
  have hr : n % d < d := Nat.mod_lt n hd
  have hround : roundHalfEven n d = n / d ∨ roundHalfEven n d = n / d + 1 := by
    simp only [roundHalfEven]
    split
    · exact .inl rfl
    split
    · exact .inr rfl
    split
    · exact .inl rfl
    · exact .inr rfl
  rw [Nat.add_mul, Nat.mul_assoc, Nat.one_mul, Nat.mul_comm k d]
  rcases Nat.lt_trichotomy (n / d) k with hlt | heq | hlt
  · have hle : d * (n / d + 1) ≤ d * k := Nat.mul_le_mul_left d hlt
    rw [Nat.mul_add, Nat.mul_one] at hle
    omega
  · -- the quotient is between the odd number and the next, so that halves go up
    have hup : k < roundHalfEven n d ↔ d ≤ 2 * (n % d) := by
      simp only [roundHalfEven, heq, hk]
      split
      · omega
      split
      · omega
      · rw [if_neg (by decide)]
        omega
    rw [hup, ← heq]
    omega
  · have hle : d * (k + 1) ≤ d * (n / d) := Nat.mul_le_mul_left d hlt
    rw [Nat.mul_add, Nat.mul_one] at hle
    omega

/-- The binade of a positive integer is found from its number of bits. -/
theorem binadeExponent_one {n : Nat} (hn : n ≠ 0) : binadeExponent n 1 = (n.log2 : Int) - 52 := by
  have hlog : (n.log2 : Int) - (Nat.log2 1 : Nat) = n.log2 := by
    rw [show Nat.log2 1 = 0 by decide]
    omega
  have hscale : scale 2 (-(n.log2 : Int)) n 1 = (n, 2 ^ n.log2) := by
    simp [scale]
  simp only [binadeExponent, hlog, hscale, Nat.log2_self_le hn, ↓reduceIte]

/-- The mantissa of an integer, as a quotient, has 53 bits. -/
theorem mantissa_bounds {n : Nat} (hn : n ≠ 0) :
    2 ^ 52 * 2 ^ (n.log2 - 52) ≤ n * 2 ^ (52 - n.log2) ∧
      n * 2 ^ (52 - n.log2) < 2 ^ 53 * 2 ^ (n.log2 - 52) := by
  have hle : 2 ^ n.log2 * 2 ^ (52 - n.log2) ≤ n * 2 ^ (52 - n.log2) :=
    Nat.mul_le_mul_right _ (Nat.log2_self_le hn)
  have hlt : n * 2 ^ (52 - n.log2) < 2 ^ (n.log2 + 1) * 2 ^ (52 - n.log2) :=
    Nat.mul_lt_mul_of_pos_right Nat.lt_log2_self (Nat.two_pow_pos _)
  rw [← Nat.pow_add] at hle hlt
  rw [← Nat.pow_add, ← Nat.pow_add]
  have hlow : 52 + (n.log2 - 52) = n.log2 + (52 - n.log2) := by omega
  have hhigh : 53 + (n.log2 - 52) = n.log2 + 1 + (52 - n.log2) := by omega
  rw [hlow, hhigh]
  exact ⟨hle, hlt⟩

theorem nearestBits?_one {n : Nat} (hn : n ≠ 0) :
    nearestBits? n 1 =
      let bits := (n.log2 + 1022) * 2 ^ 52 +
        roundHalfEven (n * 2 ^ (52 - n.log2)) (2 ^ (n.log2 - 52))
      if bits < 2047 * 2 ^ 52 then some bits else none := by
  have hmax : max leastExponent (binadeExponent n 1) = (n.log2 : Int) - 52 := by
    rw [binadeExponent_one hn, leastExponent]
    omega
  have hscale : scale 2 (-((n.log2 : Int) - 52)) n 1 =
      (n * 2 ^ (52 - n.log2), 2 ^ (n.log2 - 52)) := by
    have hdown : (-((n.log2 : Int) - 52)).toNat = 52 - n.log2 := by omega
    have hup : (-(-((n.log2 : Int) - 52))).toNat = n.log2 - 52 := by omega
    rw [scale, hdown, hup, Nat.one_mul]
    rfl
  have hexponent : ((n.log2 : Int) - 52 - leastExponent).toNat = n.log2 + 1022 := by
    rw [leastExponent]
    omega
  rw [nearestBits?, if_neg (by simpa using hn)]
  simp only [hmax, hscale, hexponent, Nat.pow_eq]

theorem nearestBits?_eq_none_iff {n : Nat} (hn : n ≠ 0) :
    nearestBits? n 1 = none ↔ 2047 * 2 ^ 52 ≤ (n.log2 + 1022) * 2 ^ 52 +
      roundHalfEven (n * 2 ^ (52 - n.log2)) (2 ^ (n.log2 - 52)) := by
  rw [nearestBits?_one hn]
  dsimp only
  split
  · next h => exact iff_of_false (by simp) (Nat.not_le_of_lt h)
  · next h => exact iff_of_true rfl (Nat.le_of_not_lt h)

theorem two_pow_of_eq_add (a b : Nat) {c : Nat} (h : c = a + b) : 2 ^ c = 2 ^ a * 2 ^ b :=
  h ▸ Nat.pow_add 2 a b

/-- The number halfway from the greatest double to `2 ^ 1024`. -/
def leastTooLarge : Nat :=
  2 ^ 1024 - 2 ^ 970

/-- An integer has no nearest double just if it is as large as that, with either sign. -/
theorem ofInt?_eq_none_iff (n : Int) : ofInt? n = none ↔ leastTooLarge ≤ n.natAbs := by
  rw [ofInt?, Option.map_eq_none_iff, leastTooLarge]
  generalize n.natAbs = n
  have hpos : 0 < 2 ^ 970 := by positivity
  have htop := two_pow_of_eq_add 54 970 (show 1024 = 54 + 970 by decide)
  rcases Decidable.em (n = 0) with rfl | hn
  · have hsome : nearestBits? 0 1 ≠ none := by simp [nearestBits?]
    simp only [hsome, false_iff]
    omega
  rw [nearestBits?_eq_none_iff hn]
  obtain ⟨hle, hlt⟩ := mantissa_bounds hn
  have hd := Nat.two_pow_pos (n.log2 - 52)
  have hround {k : Nat} (hk : k % 2 = 1) :=
    lt_roundHalfEven_iff (n := n * 2 ^ (52 - n.log2)) hd hk
  rcases Nat.lt_trichotomy n.log2 1023 with hlog | hlog | hlog
  · -- below the last binade even a mantissa of 54 bits fits
    have hupper := hround (k := 2 ^ 53 + 1) (by decide)
    have hpow := Nat.pow_le_pow_right Nat.zero_lt_two hlog
    have hn := Nat.lt_of_lt_of_le Nat.lt_log2_self hpow
    have hhalf := two_pow_of_eq_add 53 970 (show 1023 = 53 + 970 by decide)
    omega
  · have hupper := hround (k := 2 ^ 53 - 1) (by decide)
    have hunit := two_pow_of_eq_add 1 970 (show n.log2 - 52 = 1 + 970 by omega)
    have hwhole : n * 2 ^ (52 - n.log2) = n := by
      rw [hlog, Nat.sub_eq_zero_of_le (by decide), pow_zero, mul_one]
    omega
  · have hlower := hround (k := 2 ^ 52 - 1) (by decide)
    have hpow := Nat.pow_le_pow_right Nat.zero_lt_two hlog
    have hn := Nat.le_trans hpow (Nat.log2_self_le hn)
    omega

end ConditionalStyle.Decimal
