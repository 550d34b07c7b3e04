import ConditionalStyle.Text.Word

/-!
# ASCII characters

What holds of every ASCII character is settled by looking at all of them.

## Main statements

* `of_ascii`: from the 128 characters to any ASCII character.
* `lt_of_isAsciiLetter`, `lt_of_isAsciiDigit`: letters and digits are ASCII characters.
-/

namespace ConditionalStyle.Text

theorem of_ascii {p : Char → Bool} (h : (List.range 128).all fun n => p (Char.ofNat n)) {c : Char}
    (hc : c.toNat < 128) : p c = true := by
  have := List.all_eq_true.1 h c.toNat (List.mem_range.2 hc)
  rwa [Char.ofNat_toNat] at this

theorem lt_of_le_ascii {c d : Char} (h : c ≤ d) (hd : d.toNat < 128) : c.toNat < 128 :=
  Nat.lt_of_le_of_lt (UInt32.le_iff_toNat_le.1 (Char.le_def.1 h)) hd

theorem lt_of_isAsciiLetter {c : Char} (h : isAsciiLetter c = true) : c.toNat < 128 := by
  simp only [isAsciiLetter, Bool.or_eq_true, Bool.and_eq_true, decide_eq_true_eq] at h
  rcases h with ⟨-, h⟩ | ⟨-, h⟩
  · exact lt_of_le_ascii h (by decide)
  · exact lt_of_le_ascii h (by decide)

theorem lt_of_isAsciiDigit {c : Char} (h : isAsciiDigit c = true) : c.toNat < 128 := by
  simp only [isAsciiDigit, Bool.and_eq_true, decide_eq_true_eq] at h
  exact lt_of_le_ascii h.2 (by decide)

end ConditionalStyle.Text
