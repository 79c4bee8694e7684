import Wiring.Proofs.Script.Gaps

/-!
# Reading line by line

Each line of a text is read by itself, so what stands behind a line feed is read as if it stood
alone, `parse_append_lineFeed`: the number of a line is all that the lines in front of it give
to its failure.

A text that is read does not end with a carriage return.  In a text that is not read, the line
feed behind it can take a carriage return away from the line that fails.
-/

namespace Wiring.Script

open Wiring.Text

variable {line : List Char} {ls ms : List (List Char)} {number : Nat} {s : Script}
  {failure : Failure}

theorem parseLine_nil : parseLine [] = .ok none := parseLine_eq_none_iff.2 tokens_nil

/-- A line is read as a text of its own. -/
theorem parse_ofList (hline : '\n' ∉ line) :
    parse (String.ofList line) = match parseLine line with
      | .error fault => .error (.invalidScript 1 fault)
      | .ok op => .ok op.toList := by
  rw [parse, String.toList_ofList, lines_of_notMem hline]
  split
  · rename_i hnil
    rw [hnil, parseLine_nil]
    rfl
  · rw [parseLines_cons]
    cases parseLine line with
    | error fault => rfl
    | ok op => exact congrArg Except.ok (List.append_nil _)

/-- A line that is read does not end with a carriage return. -/
theorem getLast?_ne_of_parseLine {op : Option Op} (h : parseLine line = .ok op)
    (hline : '\n' ∉ line) : line.getLast? ≠ some '\r' := by
  cases op with
  | none => exact getLast?_ne_of_tokens (parseLine_eq_none_iff.1 h) hline
  | some op => exact getLast?_ne_of_tokens (parseLine_eq_some_iff.1 h).1 hline

/-- A text that is read does not end with a carriage return. -/
theorem getLast?_ne_of_parseLines {cs : List Char} (h : parseLines number (lines cs) = .ok s) :
    cs.getLast? ≠ some '\r' := by
  intro hlast
  obtain ⟨line, hmem, hline⟩ := exists_line_of_return hlast
  obtain ⟨op, hop⟩ := exists_of_mem_lines h hmem
  exact getLast?_ne_of_parseLine hop (not_mem_of_mem_lines hmem) hline

/-- A line feed at the end changes nothing, unless it makes a carriage return part of a line
end. -/
theorem parseLines_lineFeed {cs : List Char} (hreturn : cs.getLast? ≠ some '\r') :
    parseLines number (lines (cs ++ ['\n'])) = parseLines number (lines cs) := by
  rcases lines_concat hreturn with heq | heq
  · rw [heq]
  · rw [heq, parseLines_append]
    cases parseLines number (lines cs) with
    | error failure => rfl
    | ok s =>
      refine map_eq_ok_iff.2 ⟨[], ?_, List.append_nil s⟩
      rw [parseLines_cons, parseLine_nil]
      rfl

/-- The failure is that of the first line which, as a text of its own, cannot be read. -/
def IsFirstFault (text : String) (failure : Failure) : Prop :=
  ∃ before line after fault, lines text.toList = before ++ line :: after ∧
    (∀ earlier ∈ before, ∃ s, parse (String.ofList earlier) = .ok s) ∧
    parse (String.ofList line) = .error (.invalidScript 1 fault) ∧
    failure = .invalidScript (before.length + 1) fault

theorem parse_ofList_eq_ok_iff (hline : '\n' ∉ line) :
    (∃ s, parse (String.ofList line) = .ok s) ↔ ∃ op, parseLine line = .ok op := by
  rw [parse_ofList hline]
  cases parseLine line <;> simp

theorem parse_ofList_eq_error_iff {fault : ScriptFault} (hline : '\n' ∉ line) :
    parse (String.ofList line) = .error (.invalidScript 1 fault) ↔
      parseLine line = .error fault := by
  rw [parse_ofList hline]
  cases parseLine line <;> simp

theorem parse_eq_error_iff (text : String) (failure : Failure) :
    parse text = .error failure ↔ IsFirstFault text failure := by
  have hfeed : ∀ line ∈ lines text.toList, '\n' ∉ line := fun _ => not_mem_of_mem_lines
  rw [parse, parseLines_eq_error_iff]
  refine exists_congr fun before => exists_congr fun line => exists_congr fun after =>
    exists_congr fun fault => and_congr_right fun heq => ?_
  rw [heq] at hfeed
  have hbefore : ∀ earlier ∈ before, '\n' ∉ earlier := fun earlier hmem =>
    hfeed earlier (List.mem_append_left _ hmem)
  rw [parse_ofList_eq_error_iff (hfeed line (by simp)), Nat.add_comm]
  exact and_congr_left fun _ => forall₂_congr fun earlier hmem =>
    (parse_ofList_eq_ok_iff (hbefore earlier hmem)).symm

/-- What stands behind a line feed is read with the numbers of its lines. -/
theorem parse_append {a : String} (hreturn : a.toList.getLast? ≠ some '\r') (b : String) :
    parse (a ++ "\n" ++ b) = parse a >>= fun s =>
      (parseLines (1 + (a.toList.count '\n' + 1)) (lines b.toList)).map (s ++ ·) := by
  have hlist : (a ++ "\n" ++ b).toList = a.toList ++ '\n' :: b.toList := by simp
  rw [parse, parse, hlist, lines_append_break, parseLines_append, length_lines_concat,
    parseLines_lineFeed hreturn]

/-- A text is read by its lines, each for itself.  Behind a line feed, what is read gives the
operations that it gives alone, and what is not read fails as it does alone, with the lines in
front counted.  A text in front that is not read fails as it does alone, unless the line
feed makes a carriage return at its end part of the line end. -/
theorem parse_append_lineFeed (a b : String) :
    (∀ s, parse a = .ok s →
      (∀ s', parse b = .ok s' → parse (a ++ "\n" ++ b) = .ok (s ++ s')) ∧
        ∀ line fault, parse b = .error (.invalidScript line fault) →
          parse (a ++ "\n" ++ b) =
            .error (.invalidScript (line + 1 + a.toList.count '\n') fault)) ∧
      (∀ failure, parse a = .error failure → a.toList.getLast? ≠ some '\r' →
        parse (a ++ "\n" ++ b) = .error failure) ∧
      ∀ text failure, parse text = .error failure ↔ IsFirstFault text failure := by
  refine ⟨fun s hs => ⟨fun s' hs' => ?_, fun line fault hfault => ?_⟩,
    fun failure hfailure hreturn => ?_, parse_eq_error_iff⟩
  · rw [parse_append (getLast?_ne_of_parseLines hs), hs]
    exact map_eq_ok_iff.2 ⟨s', parseLines_eq_ok_of_number hs', rfl⟩
  · have hlater : line + 1 + a.toList.count '\n' = line + (a.toList.count '\n' + 1) := by omega
    rw [parse_append (getLast?_ne_of_parseLines hs), hs, hlater]
    exact map_eq_error_iff.2 (parseLines_eq_error_add hfault _)
  · rw [parse_append hreturn, hfailure]
    rfl

theorem parse_append_lineFeed_stray :
    parse "remove n.c // \"\r\n" = .ok [.remove ⟨"n", "c"⟩] ∧
      parse "\n\t?" = .error (.invalidScript 2 (.stray ['?'])) ∧
      parse ("remove n.c // \"\r\n" ++ "\n" ++ "\n\t?") =
        .error (.invalidScript 4 (.stray ['?'])) ∧
      parse ("\n\t?" ++ "\n" ++ "remove n.c // \"\r\n") =
        .error (.invalidScript 2 (.stray ['?'])) := by
  have hremove : parseLine "remove n.c // \"".toList = .ok (some (.remove ⟨"n", "c"⟩)) := by
    refine parseLine_eq_some_iff.2 ⟨?_, by decide⟩
    refine tokens_eq_ok_cons.2 ⟨_, rfl, ?_⟩
    refine tokens_eq_ok_cons.2 ⟨_, rfl, ?_⟩
    exact tokens_eq_ok_nil.2 rfl
  have hstray : parseLine "\t?".toList = .error (.stray ['?']) := by
    have hnext : nextToken "\t?".toList = .error (.stray ['?']) := rfl
    rw [parseLine, tokens_of_nextToken_error hnext]
  have ha : parse "remove n.c // \"\r\n" = .ok [.remove ⟨"n", "c"⟩] := by
    change parseLines 1 ["remove n.c // \"".toList] = _
    simp only [parseLines, hremove]
  have hb : parse "\n\t?" = .error (.invalidScript 2 (.stray ['?'])) := by
    change parseLines 1 [[], "\t?".toList] = _
    simp only [parseLines, parseLine_nil, hstray]
  have hbehind := ((parse_append_lineFeed _ _).1 _ ha).2 _ _ hb
  have hfront := (parse_append_lineFeed "\n\t?" "remove n.c // \"\r\n").2.1 _ hb (by decide)
  exact ⟨ha, hb, hbehind, hfront⟩

end Wiring.Script
