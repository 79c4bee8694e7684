import Mathlib.Tactic.SplitIfs
import Wiring.Instant
import Wiring.Proofs.Text.Numeral

/-!
# Points in time read back

Every field of a point in time is written with a mark behind it, and read up to that mark:
the year with its sign, the other fields with two digits, the fraction of the second with as
many digits as it needs.  The point in time ends in the mark of UTC, which takes nothing off,
so it is read back from its text, `read_text`.
-/

namespace Wiring.Instant

open Wiring.Text

/-! ## Fields -/

theorem isBlank_eq_false_of_isDigit {c : Char} (hc : c.isDigit = true) : isBlank c = false := by
  simp only [Char.isDigit, Bool.and_eq_true, decide_eq_true_eq, ge_iff_le,
    UInt32.le_iff_toNat_le] at hc
  have hlow : 48 ≤ c.toNat := hc.1
  have hhigh : c.toNat ≤ 57 := hc.2
  simp only [isBlank, Bool.or_eq_false_iff, Bool.and_eq_false_iff, decide_eq_false_iff_not]
  omega

theorem dropBlanks_of_isDigit {c : Char} (hc : c.isDigit = true) (cs : List Char) :
    dropBlanks (c :: cs) = c :: cs :=
  List.dropWhile_cons_of_neg (by rw [isBlank_eq_false_of_isDigit hc]; exact Bool.false_ne_true)

theorem dropBlanks_padded (width n : Nat) (rest : List Char) :
    dropBlanks (padded width n ++ rest) = padded width n ++ rest := by
  obtain ⟨c, cs, hcons, hc⟩ := exists_padded_eq_cons width n
  rw [hcons]
  exact dropBlanks_of_isDigit hc _

theorem readField_padded {n : Nat} (h : n < 100) {rest : List Char} (hrest : EndsDigits rest) :
    readField (padded 2 n ++ rest) = some (n, rest) := by
  rw [readField, dropBlanks_padded]
  exact readUpTo_padded (Nat.le_of_eq (length_padded (by decide) h)) hrest

theorem readFieldMark_cons {c : Char} (hc : isBlank c = false) (cs : List Char) :
    readFieldMark c (c :: cs) = some cs := by
  rw [readFieldMark, dropBlanks,
    List.dropWhile_cons_of_neg (by rw [hc]; exact Bool.false_ne_true)]
  exact if_pos rfl

/-- A year that begins with a digit has no sign. -/
theorem readYear_of_isDigit {c : Char} (hc : c.isDigit = true) (cs : List Char) :
    readYear (c :: cs) = (readUpTo 4 (c :: cs)).map fun (n, rest) => ((n : Int), rest) := by
  rw [readYear, dropBlanks_of_isDigit hc]
  split
  · rename_i heq
    exact absurd hc (by rw [(List.cons.inj heq).1]; decide)
  · rename_i heq
    exact absurd hc (by rw [(List.cons.inj heq).1]; decide)
  · rfl

theorem readYear_yearText (year : Int) {rest : List Char} (hrest : EndsDigits rest) :
    readYear (yearText year ++ rest) = some (year, rest) := by
  rw [yearText]
  split
  · rename_i hyear
    have hpower : Nat.pow 10 4 = 10000 := rfl
    have hlength : (padded 4 year.toNat).length = 4 := length_padded (by decide) (by omega)
    have hread := readUpTo_padded (Nat.le_of_eq hlength) hrest
    obtain ⟨c, cs, hcons, hc⟩ := exists_padded_eq_cons 4 year.toNat
    rw [hcons, List.cons_append] at hread ⊢
    rw [readYear_of_isDigit hc, hread]
    simp only [Option.map_some, Int.toNat_of_nonneg hyear.1]
  · have hread : readUpTo (padded 4 year.natAbs ++ rest).length (padded 4 year.natAbs ++ rest) =
        some (year.natAbs, rest) := readUpTo_padded (by simp) hrest
    split
    · rename_i hnegative
      have hdrop : dropBlanks ('-' :: (padded 4 year.natAbs ++ rest)) =
          '-' :: (padded 4 year.natAbs ++ rest) := rfl
      have habs : -(year.natAbs : Int) = year := by omega
      rw [List.cons_append, readYear, hdrop]
      simp only [hread, Option.map_some, habs]
    · have hdrop : dropBlanks ('+' :: (padded 4 year.natAbs ++ rest)) =
          '+' :: (padded 4 year.natAbs ++ rest) := rfl
      have habs : (year.natAbs : Int) = year := by omega
      rw [List.cons_append, readYear, hdrop]
      simp only [hread, Option.map_some, habs]

theorem readFraction_padded {width k : Nat} (hwidth : 0 < width) (hle : width ≤ 9)
    (hk : k < Nat.pow 10 width) {rest : List Char} (hrest : EndsDigits rest) :
    readFraction ('.' :: padded width k ++ rest) =
      some (k * Nat.pow 10 (9 - width), rest) := by
  have hdigits : ∀ c ∈ padded width k, c.isDigit = true := fun _ => isDigit_of_mem_padded
  have htake : (padded width k ++ List.replicate 9 '0').take 9 =
      padded width k ++ List.replicate (9 - width) '0' := by
    rw [List.take_append, length_padded hwidth hk,
      List.take_of_length_le (by rw [length_padded hwidth hk]; exact hle), List.take_replicate,
      Nat.min_eq_left (by omega)]
  rw [List.cons_append, readFraction]
  simp only [takeWhile_isDigit_append hdigits hrest, dropWhile_isDigit_append hdigits hrest,
    if_neg padded_ne_nil, htake, Nat.ofDigitChars_append, Nat.ofDigitChars_replicate_zero,
    ofDigitChars_padded]
  rw [Nat.mul_comm]
  rfl

theorem readFraction_fractionText {nanos : Nat} (h : nanos < 1000000000) (rest : List Char) :
    readFraction (fractionText nanos ++ 'Z' :: rest) = some (nanos, 'Z' :: rest) := by
  have hrest : EndsDigits ('Z' :: rest) := endsDigits_cons rfl
  have hpowers : Nat.pow 10 3 = 1000 ∧ Nat.pow 10 6 = 1000000 ∧ Nat.pow 10 9 = 1000000000 :=
    ⟨rfl, rfl, rfl⟩
  unfold fractionText
  split
  · rename_i hzero
    rw [hzero]
    rfl
  · split
    · rw [readFraction_padded (by decide) (by decide) (by omega) hrest]
      rw [Nat.div_mul_cancel (Nat.dvd_of_mod_eq_zero ‹_›)]
    · split
      · rw [readFraction_padded (by decide) (by decide) (by omega) hrest]
        rw [Nat.div_mul_cancel (Nat.dvd_of_mod_eq_zero ‹_›)]
      · rw [readFraction_padded (by decide) (by decide) (by omega) hrest]
        rw [Nat.mul_one]

theorem ofLocal?_zero (t : Instant) : t.ofLocal? 0 = some t := by
  have hhour := t.hour_lt
  have hminute := t.minute_lt
  have hmod : (((t.hour : Int) * 60 + t.minute - 0) % 1440).toNat = t.hour * 60 + t.minute := by
    omega
  have hdivision : (t.hour * 60 + t.minute) / 60 = t.hour ∧
      (t.hour * 60 + t.minute) % 60 = t.minute := by omega
  rw [ofLocal?, if_neg (by omega), if_neg (by omega)]
  simp only [hmod, hdivision]
  exact of?_fields t

theorem daysInMonth_le (year : Int) (month : Nat) : daysInMonth year month ≤ 31 := by
  unfold daysInMonth
  split
  · split <;> decide
  · split <;> decide

/-- A point in time is read back from its text. -/
theorem read_text (t : Instant) : read t.text = some t := by
  have hmonth : t.date.month < 100 := by have := t.date.month_bounds; omega
  have hday : t.date.day < 100 := by
    have := t.date.day_bounds
    have := daysInMonth_le t.date.year t.date.month
    omega
  have hhour : t.hour < 100 := by have := t.hour_lt; omega
  have hminute : t.minute < 100 := by have := t.minute_lt; omega
  have hsecond : t.second < 100 := by have := t.second_le; omega
  have hfraction : EndsDigits (fractionText t.nanos ++ ['Z']) := by
    unfold fractionText
    split_ifs <;> exact endsDigits_cons rfl
  have hoffset : readOffset (dropBlanks ['Z']) = some (0, []) := by decide
  have hbind : ∀ {α β : Type} (a : α) (f : α → Option β), (some a >>= f) = f a := fun _ _ => rfl
  simp only [read, text, String.toList_ofList, List.append_assoc, List.cons_append, hbind,
    readYear_yearText _ (endsDigits_cons (c := '-') rfl), readFieldMark_cons (c := '-') rfl,
    readField_padded hmonth (endsDigits_cons (c := '-') rfl),
    readField_padded hday (endsDigits_cons (c := 'T') rfl), readTimeMark,
    readField_padded hhour (endsDigits_cons (c := ':') rfl), readFieldMark_cons (c := ':') rfl,
    readField_padded hminute (endsDigits_cons (c := ':') rfl),
    readField_padded hsecond hfraction, readFraction_fractionText t.nanos_lt, hoffset,
    List.all_nil, Date.of?_fields, of?_fields, ofLocal?_zero]
  rfl

end Wiring.Instant
