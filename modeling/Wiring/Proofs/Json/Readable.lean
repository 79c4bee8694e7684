import Wiring.Json.Readable

/-!
# Numbers of 64 bits

A natural number that fits into 64 bits is never too large for the floating-point format:
the word that its digits are read into and the power of ten behind it are at most doubled by
rounding, and stay far below the greatest float.
-/

namespace Wiring.Number

/-- Rounding to the bits of the format at most doubles a number. -/
theorem roundBits_le (n : Nat) : roundBits n ≤ 2 * n := by
  by_cases hn : n = 0
  · rw [hn]
    decide
  · have hunit : Nat.pow 2 (Nat.log2 n - 52) ≤ n :=
      Nat.le_trans (Nat.pow_le_pow_right (by decide) (Nat.sub_le ..)) (Nat.log2_self_le hn)
    have hlow : n / Nat.pow 2 (Nat.log2 n - 52) * Nat.pow 2 (Nat.log2 n - 52) ≤ n :=
      Nat.div_mul_le_self ..
    unfold roundBits
    dsimp only
    split
    · rw [Nat.add_one_mul]
      omega
    · omega

theorem takeWhole_fst_lt {word : Nat} (h : word < Nat.pow 2 64) (ds : List Nat) :
    (takeWhole word ds).1 < Nat.pow 2 64 := by
  fun_induction takeWhole word ds with
  | case1 => exact h
  | case2 word d rest hroom ih => exact ih (of_decide_eq_true hroom)
  | case3 => exact h

theorem takeWhole_snd_le (word : Nat) (ds : List Nat) :
    (takeWhole word ds).2 ≤ ds.length := by
  fun_induction takeWhole word ds with
  | case1 => exact Nat.le_refl _
  | case2 word d rest hroom ih => exact Nat.le_succ_of_le ih
  | case3 => exact Nat.le_refl _

theorem length_digitList_le {n : Nat} (h : n < UInt64.size) : (digitList n).length ≤ 20 := by
  rw [digitList, List.length_map]
  exact (Nat.length_toDigits_le_iff (by decide) (by decide)).2 (Nat.lt_trans h (by decide))

/-- A number that fits into 64 bits is not too large. -/
theorem isTooLarge_whole {n : Nat} (h : n < UInt64.size) (negative : Bool) :
    (whole negative n).isTooLarge = false := by
  have hword := takeWhole_fst_lt (by decide : 0 < Nat.pow 2 64) (digitList n)
  have hleft := Nat.le_trans (takeWhole_snd_le 0 (digitList n)) (length_digitList_le h)
  obtain ⟨⟨word, left⟩, htaken⟩ : ∃ taken, takeWhole 0 (digitList n) = taken := ⟨_, rfl⟩
  rw [htaken] at hword hleft
  simp only [isTooLarge, parts, htaken]
  split
  · rfl
  · rw [if_neg (by omega), Int.toNat_natCast]
    have hrounded := Nat.mul_le_mul (roundBits_le word) (roundBits_le (Nat.pow 10 left))
    have hpower : Nat.pow 10 left ≤ Nat.pow 10 20 := Nat.pow_le_pow_right (by decide) hleft
    have hproduct : 2 * word * (2 * Nat.pow 10 left) ≤ 2 * Nat.pow 2 64 * (2 * Nat.pow 10 20) :=
      Nat.mul_le_mul (by omega) (Nat.mul_le_mul_left 2 hpower)
    have hoverflow : 2 * Nat.pow 2 64 * (2 * Nat.pow 10 20) < overflow := by decide +kernel
    exact decide_eq_false (by omega)

end Wiring.Number
