import Wiring.Text.Lines

/-!
# Lines put together

A text that is written line by line is cut into the same lines again, provided that
each of them is one line: it holds no line feed, and no carriage return at its end
joins the line feed after it.

A text is a piece without a line feed, or such a piece, a line feed and a text behind it,
`lines_induction`.  The piece before the line feed is the first line, without the carriage
return that it may end with, `lines_append_cons`.  So the lines up to a line feed do not
depend on what follows, `lines_append_break`, and there is one for each line feed.
-/

namespace Wiring.Text

/-- One line of a text: no line feed is in it, and no carriage return at its end. -/
def IsLine (line : List Char) : Prop := '\n' ∉ line ∧ line.getLast? ≠ some '\r'

/-- What stands before a line feed, without the carriage return that belongs to the line
end. -/
def withoutReturn (piece : List Char) : List Char :=
  if piece.getLast? = some '\r' then piece.dropLast else piece

theorem withoutReturn_eq_self {piece : List Char} (h : piece.getLast? ≠ some '\r') :
    withoutReturn piece = piece := if_neg h

theorem withoutReturn_concat (piece : List Char) : withoutReturn (piece ++ ['\r']) = piece := by
  rw [withoutReturn, List.getLast?_concat, if_pos rfl, List.dropLast_concat]

theorem withoutReturn_cons_cons (c d : Char) (piece : List Char) :
    withoutReturn (c :: d :: piece) = c :: withoutReturn (d :: piece) := by
  rw [withoutReturn, withoutReturn, List.getLast?_cons_cons]
  split <;> rfl

/-- The first line is what stands before the first line feed. -/
theorem lines_append_cons {piece : List Char} (hpiece : '\n' ∉ piece) (rest : List Char) :
    lines (piece ++ '\n' :: rest) = withoutReturn piece :: lines rest := by
  induction piece with
  | nil => exact lines_lineFeed rest
  | cons c piece ih =>
    simp only [List.mem_cons, not_or] at hpiece
    cases piece with
    | nil =>
      by_cases hreturn : c = '\r'
      · rw [hreturn]
        exact lines_crlf rest
      · have hgoes : ∀ more, c = '\r' → '\n' :: rest ≠ '\n' :: more := fun _ h => absurd h hreturn
        rw [withoutReturn_eq_self (by simpa using hreturn)]
        show lines (c :: '\n' :: rest) = _
        rw [lines_cons (Ne.symm hpiece.1) hgoes, lines_lineFeed]
    | cons d piece =>
      -- The next character is no line feed, so the first one does not begin a line end.
      have hgoes : ∀ more, c = '\r' → d :: piece ++ '\n' :: rest ≠ '\n' :: more := by
        rintro more - heq
        simp [(List.cons.inj heq).1] at hpiece
      rw [List.cons_append, lines_cons (Ne.symm hpiece.1) hgoes, ih hpiece.2,
        withoutReturn_cons_cons]

theorem lines_append_lineFeed {line : List Char} (hline : IsLine line) (rest : List Char) :
    lines (line ++ '\n' :: rest) = line :: lines rest := by
  rw [lines_append_cons hline.1, withoutReturn_eq_self hline.2]

/-- Without a line feed there is one line, unless there is nothing. -/
theorem lines_of_notMem {piece : List Char} (hpiece : '\n' ∉ piece) :
    lines piece = if piece = [] then [] else [piece] := by
  induction piece with
  | nil => rfl
  | cons c piece ih =>
    simp only [List.mem_cons, not_or] at hpiece
    have hgoes : ∀ more, c = '\r' → piece ≠ '\n' :: more := by
      rintro more - rfl
      simp at hpiece
    rw [lines_cons (Ne.symm hpiece.1) hgoes, ih hpiece.2, if_neg (List.cons_ne_nil c piece)]
    cases piece with
    | nil => rfl
    | cons d piece => rfl

/-- What holds of every piece without a line feed, and passes from a text to the text with
one more line in front, holds of every text. -/
theorem lines_induction {motive : List Char → Prop}
    (hlast : ∀ piece, '\n' ∉ piece → motive piece)
    (hline : ∀ piece rest, '\n' ∉ piece → motive rest → motive (piece ++ '\n' :: rest))
    (cs : List Char) : motive cs := by
  by_cases hfeed : '\n' ∈ cs
  · obtain ⟨piece, rest, heq, hpiece⟩ := List.eq_append_cons_of_mem hfeed
    rw [heq]
    exact hline piece rest hpiece (lines_induction hlast hline rest)
  · exact hlast cs hfeed
termination_by cs.length
decreasing_by
  rw [heq, List.length_append, List.length_cons]
  omega

/-- The lines up to a line feed do not depend on what follows. -/
theorem lines_append_break (before after : List Char) :
    lines (before ++ '\n' :: after) = lines (before ++ ['\n']) ++ lines after := by
  induction before using lines_induction with
  | hlast piece hpiece => rw [lines_append_cons hpiece, lines_append_cons hpiece]; rfl
  | hline piece rest hpiece ih =>
    rw [List.append_assoc, List.append_assoc, List.cons_append, List.cons_append,
      lines_append_cons hpiece, lines_append_cons hpiece, ih, List.cons_append]

/-- A line end can have a carriage return in it. -/
theorem lines_append_crlf {before : List Char} (hreturn : before.getLast? ≠ some '\r')
    (after : List Char) :
    lines (before ++ '\r' :: '\n' :: after) = lines (before ++ '\n' :: after) := by
  induction before using lines_induction with
  | hlast piece hpiece =>
    have hreturned : '\n' ∉ piece ++ ['\r'] := by simpa using hpiece
    rw [List.append_cons, lines_append_cons hreturned, withoutReturn_concat,
      lines_append_lineFeed ⟨hpiece, hreturn⟩]
  | hline piece rest hpiece ih =>
    have hrest : rest.getLast? ≠ some '\r' := by
      intro hlast
      simp [List.getLast?_cons, hlast] at hreturn
    rw [List.append_assoc, List.append_assoc, List.cons_append, List.cons_append,
      lines_append_cons hpiece, lines_append_cons hpiece, ih hrest]

/-- There is one line for each line feed. -/
theorem length_lines_concat (cs : List Char) :
    (lines (cs ++ ['\n'])).length = cs.count '\n' + 1 := by
  induction cs using lines_induction with
  | hlast piece hpiece =>
    rw [lines_append_cons hpiece, List.count_eq_zero_of_not_mem hpiece]
    rfl
  | hline piece rest hpiece ih =>
    rw [List.append_assoc, List.cons_append, lines_append_cons hpiece, List.length_cons, ih,
      List.count_append, List.count_eq_zero_of_not_mem hpiece, List.count_cons_self]
    omega

/-- A line feed at the end ends the last line, or an empty one when the text had ended with a
line end. -/
theorem lines_concat {cs : List Char} (hreturn : cs.getLast? ≠ some '\r') :
    lines (cs ++ ['\n']) = lines cs ∨ lines (cs ++ ['\n']) = lines cs ++ [[]] := by
  induction cs using lines_induction with
  | hlast piece hpiece =>
    rw [lines_append_cons hpiece, withoutReturn_eq_self hreturn, lines_of_notMem hpiece]
    split
    · rename_i hnil
      rw [hnil]
      exact Or.inr rfl
    · exact Or.inl rfl
  | hline piece rest hpiece ih =>
    have hrest : rest.getLast? ≠ some '\r' := by
      intro hlast
      simp [List.getLast?_cons, hlast] at hreturn
    rw [List.append_assoc, List.cons_append, lines_append_cons hpiece, lines_append_cons hpiece,
      List.cons_append]
    exact (ih hrest).imp (congrArg _) (congrArg _)

/-- A carriage return at the end of a text stands at the end of a line. -/
theorem exists_line_of_return {cs : List Char} (hreturn : cs.getLast? = some '\r') :
    ∃ line ∈ lines cs, line.getLast? = some '\r' := by
  induction cs using lines_induction with
  | hlast piece hpiece =>
    have hne : piece ≠ [] := by
      rintro rfl
      simp at hreturn
    rw [lines_of_notMem hpiece, if_neg hne]
    exact ⟨piece, List.mem_singleton_self piece, hreturn⟩
  | hline piece rest hpiece ih =>
    have hrest : rest.getLast? = some '\r' := by
      rw [List.getLast?_append, List.getLast?_cons] at hreturn
      cases hlast : rest.getLast? with
      | none => simp [hlast] at hreturn
      | some c => simpa [hlast] using hreturn
    obtain ⟨line, hline, hend⟩ := ih hrest
    rw [lines_append_cons hpiece]
    exact ⟨line, List.mem_cons_of_mem _ hline, hend⟩

end Wiring.Text
