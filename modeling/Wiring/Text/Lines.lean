/-!
# Lines of a text

A line ends at a line feed or at the end of the text.  A carriage return right
before the line feed belongs to the line end; every other carriage return stays
in its line.  A text that ends with a line end has no empty line after it, so
the empty text has no lines.
-/

namespace Wiring.Text

/-- The lines of a text, without their line ends. -/
def lines : List Char → List (List Char)
  | [] => []
  | '\n' :: rest => [] :: lines rest
  | '\r' :: '\n' :: rest => [] :: lines rest
  | c :: rest =>
    match lines rest with
    | [] => [[c]]
    | line :: others => (c :: line) :: others

@[simp] theorem lines_nil : lines [] = [] := rfl

@[simp] theorem lines_lineFeed (rest : List Char) :
    lines ('\n' :: rest) = [] :: lines rest := by
  simp [lines]

@[simp] theorem lines_crlf (rest : List Char) :
    lines ('\r' :: '\n' :: rest) = [] :: lines rest := by
  simp [lines]

/-- A character that neither is nor begins a line end joins the next line. -/
theorem lines_cons {c : Char} {rest : List Char} (hc : c ≠ '\n')
    (hcr : ∀ more, c = '\r' → rest ≠ '\n' :: more) :
    lines (c :: rest) = match lines rest with
      | [] => [[c]]
      | line :: others => (c :: line) :: others := by
  rw [lines.eq_4 c rest hc (fun more h1 h2 => hcr more h1 h2)]

/-- No line contains a line feed. -/
theorem not_mem_of_mem_lines {cs line : List Char} (hline : line ∈ lines cs) :
    '\n' ∉ line := by
  fun_induction lines cs generalizing line with
  | case1 => simp at hline
  | case2 rest ih =>
    rcases List.mem_cons.1 hline with rfl | hmem
    · simp
    · exact ih hmem
  | case3 rest ih =>
    rcases List.mem_cons.1 hline with rfl | hmem
    · simp
    · exact ih hmem
  | case4 c rest hc _ hr =>
    obtain rfl := List.mem_singleton.1 hline
    simpa using Ne.symm hc
  | case5 c rest hc _ first others hr ih =>
    rw [hr] at ih
    rcases List.mem_cons.1 hline with rfl | hmem
    · simp only [List.mem_cons, not_or]
      exact ⟨Ne.symm hc, ih (List.mem_cons_self ..)⟩
    · exact ih (List.mem_cons_of_mem _ hmem)

end Wiring.Text
