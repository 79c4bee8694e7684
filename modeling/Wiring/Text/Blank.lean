/-!
# White space

The characters with the Unicode property White_Space, the texts made of them
only, and trimming a text at both ends.

The class is wider than the blanks of the script language: a script line is
split at spaces and tabs alone (`Wiring.Script.Token`), while names, binding
entries and pushed scripts are judged by the class defined here.
-/

namespace Wiring.Text

/-- A character with the property White_Space. -/
def isBlank (c : Char) : Bool :=
  let n := c.toNat
  (9 ≤ n && n ≤ 13) || n = 0x20 || n = 0x85 || n = 0xA0 || n = 0x1680 ||
    (0x2000 ≤ n && n ≤ 0x200A) || n = 0x2028 || n = 0x2029 || n = 0x202F ||
    n = 0x205F || n = 0x3000

/-- Remove the blanks in front of a list of characters. -/
def dropBlanks (cs : List Char) : List Char := cs.dropWhile isBlank

/-- Remove the blanks at both ends of a list of characters. -/
def trim (cs : List Char) : List Char :=
  ((cs.dropWhile isBlank).reverse.dropWhile isBlank).reverse

/-- A text without any character besides blanks; the empty text is one. -/
def isBlankText (s : String) : Bool :=
  s.toList.all isBlank

/-- Every white-space character of the core library is a blank. -/
theorem isBlank_of_isWhitespace {c : Char} (hc : c.isWhitespace = true) :
    isBlank c = true := by
  simp only [Char.isWhitespace, Bool.or_eq_true, decide_eq_true_eq] at hc
  rcases hc with ((rfl | rfl) | rfl) | rfl <;> decide

/-- Trimming leaves nothing exactly when all characters are blanks. -/
theorem trim_eq_nil_iff (cs : List Char) :
    trim cs = [] ↔ cs.all isBlank = true := by
  have drop_nil : ∀ l : List Char,
      l.dropWhile isBlank = [] ↔ l.all isBlank = true := by
    intro l
    induction l with
    | nil => simp
    | cons c l ih => by_cases hc : isBlank c = true <;> simp [hc, ih]
  constructor
  · intro h
    have hrev := (drop_nil _).1 (List.reverse_eq_nil_iff.1 h)
    rw [List.all_reverse] at hrev
    cases hd : cs.dropWhile isBlank with
    | nil => exact (drop_nil cs).1 hd
    | cons c l =>
      have hhead := List.head_dropWhile_not (p := isBlank) (l := cs) (by simp [hd])
      simp only [hd, List.head_cons] at hhead
      simp [hd, hhead] at hrev
  · intro h
    simp [trim, (drop_nil cs).2 h]

end Wiring.Text
