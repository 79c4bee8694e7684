import Wiring.Proofs.Script.LineByLine
import Wiring.Proofs.Script.NamedFault

/-!
# Line numbers of operations

Lines without an operation are passed over when a text is read, so the position of an operation
in the script is not the position of its line.  `operationLines` are the numbers of the lines
that the operations of a text are read from, `getElem?_operationLines`, `getElem?_of_parseLines`.

A check that fails names the position of the operation.  That is the number of its line less the
lines without an operation in front of it, `check_line_of_text`.
-/

namespace Wiring.Script

open Wiring.Text

variable {line : List Char} {ls : List (List Char)} {number n i : Nat} {s script : Script}
  {op : Op} {text : String} {model : Model} {failure : Failure}

/-- Whether an operation is read from a line. -/
def holdsOperation (line : List Char) : Bool :=
  match parseLine line with
  | .ok (some _) => true
  | _ => false

/-- The numbers of the lines that hold an operation, the first line having the number `number`. -/
def operationLines (number : Nat) : List (List Char) → List Nat
  | [] => []
  | line :: others =>
    if holdsOperation line then number :: operationLines (number + 1) others
    else operationLines (number + 1) others

theorem holdsOperation_iff : holdsOperation line = true ↔ ∃ op, parseLine line = .ok (some op) := by
  unfold holdsOperation
  split <;> simp_all

/-- In a text that is read, the other lines have no tokens. -/
theorem holdsOperation_eq_false_iff (hread : ∃ op, parseLine line = .ok op) (hline : '\n' ∉ line) :
    holdsOperation line = false ↔ IsBlankLine line := by
  rw [← nextToken_eq_none_iff hline, ← tokens_eq_ok_nil, ← parseLine_eq_none_iff]
  obtain ⟨op, hop⟩ := hread
  cases op <;> simp [holdsOperation, hop]

/-- As many lines hold an operation in front of a line as its operation has in front of it. -/
theorem getElem?_operationLines :
    (operationLines number ls)[i]? = some n ↔
      ∃ k line, n = number + k ∧ ls[k]? = some line ∧ holdsOperation line = true ∧
        (ls.take k).countP holdsOperation = i := by
  induction ls generalizing number i with
  | nil => simp [operationLines]
  | cons first ls ih =>
    have hsplit : (∃ k line, n = number + k ∧ (first :: ls)[k]? = some line ∧
          holdsOperation line = true ∧ ((first :: ls).take k).countP holdsOperation = i) ↔
        n = number ∧ holdsOperation first = true ∧ i = 0 ∨
          ∃ k line, n = number + 1 + k ∧ ls[k]? = some line ∧ holdsOperation line = true ∧
            (ls.take k).countP holdsOperation + (if holdsOperation first then 1 else 0) = i := by
      constructor
      · rintro ⟨k, line, rfl, hline, hholds, rfl⟩
        cases k with
        | zero =>
          obtain rfl : first = line := by simpa using hline
          exact Or.inl ⟨rfl, hholds, rfl⟩
        | succ k =>
          refine Or.inr ⟨k, line, by omega, by simpa using hline, hholds, ?_⟩
          rw [List.take_succ_cons, List.countP_cons]
      · rintro (⟨rfl, hholds, rfl⟩ | ⟨k, line, rfl, hline, hholds, rfl⟩)
        · exact ⟨0, first, rfl, rfl, hholds, rfl⟩
        · refine ⟨k + 1, line, by omega, by simpa using hline, hholds, ?_⟩
          rw [List.take_succ_cons, List.countP_cons]
    rw [hsplit, operationLines]
    split
    · rename_i hfirst
      cases i with
      | zero =>
        simp only [List.getElem?_cons_zero, Option.some.injEq, hfirst, and_true,
          Nat.add_eq_zero_iff, Nat.one_ne_zero, and_false, exists_false, or_false]
        exact eq_comm
      | succ i => simp [hfirst, ih]
    · rename_i hfirst
      rw [ih]
      simp [hfirst]

theorem length_operationLines : (operationLines number ls).length = ls.countP holdsOperation := by
  induction ls generalizing number with
  | nil => rfl
  | cons line ls ih =>
    rw [operationLines, List.countP_cons]
    split <;> simp [ih]

theorem length_of_parseLines (h : parseLines number ls = .ok s) :
    s.length = ls.countP holdsOperation := by
  induction ls generalizing s with
  | nil =>
    obtain rfl := Except.ok.inj h
    rfl
  | cons line ls ih =>
    obtain ⟨op, s', hop, hs', rfl⟩ := parseLines_cons_eq_ok_iff.1 h
    rw [List.length_append, ih hs', List.countP_cons]
    cases op with
    | none => simp [holdsOperation, hop]
    | some op => simp [holdsOperation, hop, Nat.add_comm]

/-- The operation of a line stands in the script behind those of the lines in front of it. -/
theorem getElem?_of_parseLines {k : Nat} (h : parseLines number ls = .ok s)
    (hline : ls[k]? = some line) (hop : parseLine line = .ok (some op)) :
    s[(ls.take k).countP holdsOperation]? = some op := by
  obtain ⟨hlt, rfl⟩ := List.getElem?_eq_some_iff.1 hline
  rw [← List.take_append_drop k ls, List.drop_eq_getElem_cons hlt,
    parseLines_append_eq_ok_iff] at h
  obtain ⟨before, behind, hbefore, hbehind, rfl⟩ := h
  obtain ⟨op', after, hop', -, rfl⟩ := parseLines_cons_eq_ok_iff.1 hbehind
  obtain rfl : op' = some op := Except.ok.inj (hop'.symm.trans hop)
  rw [← length_of_parseLines hbefore]
  simp

/-- An operation at a position of the script of a text was read from the line with a number,
counted from one over all lines. -/
structure ReadFrom (text : String) (i : Nat) (op : Op) (number : Nat) : Prop where
  number_eq : (operationLines 1 (lines text.toList))[i]? = some number
  line : ∃ line, (lines text.toList)[number - 1]? = some line ∧ parseLine line = .ok (some op)

/-- Every operation of a text that is read has a line, whose number is the position of the
operation, from one, and the number of lines without an operation in front of it. -/
theorem exists_readFrom (h : parse text = .ok script) (hop : script[i]? = some op) :
    ∃ number, ReadFrom text i op number ∧
      number = i + 1 + ((lines text.toList).take (number - 1)).countP (!holdsOperation ·) := by
  have hlt : i < (operationLines 1 (lines text.toList)).length := by
    rw [length_operationLines, ← length_of_parseLines h]
    exact (List.getElem?_eq_some_iff.1 hop).1
  obtain ⟨n, hn⟩ : ∃ n, (operationLines 1 (lines text.toList))[i]? = some n :=
    ⟨_, List.getElem?_eq_getElem hlt⟩
  obtain ⟨k, line, rfl, hline, hholds, hcount⟩ := getElem?_operationLines.1 hn
  obtain ⟨op', hop'⟩ := holdsOperation_iff.1 hholds
  have hread := getElem?_of_parseLines h hline hop'
  rw [hcount] at hread
  obtain rfl : op = op' := Option.some.inj (hop.symm.trans hread)
  have hk : 1 + k - 1 = k := by omega
  refine ⟨1 + k, ⟨hn, line, by rwa [hk], hop'⟩, ?_⟩
  have hlength : ((lines text.toList).take k).length = k :=
    List.length_take_of_le (Nat.le_of_lt (List.getElem?_eq_some_iff.1 hline).1)
  have hothers : ((lines text.toList).take k).countP (fun earlier => ¬ holdsOperation earlier) =
      ((lines text.toList).take k).countP (!holdsOperation ·) :=
    List.countP_congr fun earlier _ => by simp
  have hsplit := List.length_eq_countP_add_countP holdsOperation (l := (lines text.toList).take k)
  rw [hlength, hcount, hothers] at hsplit
  rw [hk]
  omega

/-- A check of a text that fails names the position of the operation with the fault.  The line
of the operation stands further down by the number of lines without an operation in front of it,
so the two numbers are equal exactly when no line in front is blank or a comment. -/
theorem check_line_of_text (hparse : parse text = .ok script)
    (hcheck : script.check model = .error failure) :
    ∃ i fault op number, failure = .invalidScript (i + 1) fault ∧
      script.Faulty model.has i fault ∧ script[i]? = some op ∧ ReadFrom text i op number ∧
      number = i + 1 + ((lines text.toList).take (number - 1)).countP (!holdsOperation ·) ∧
      (number = i + 1 ↔
        ∀ earlier ∈ (lines text.toList).take (number - 1), ¬ IsBlankLine earlier) := by
  obtain ⟨i, fault, rfl, hfaulty, -⟩ := check_eq_error hcheck
  obtain ⟨op, hop⟩ : ∃ op, script[i]? = some op := by
    obtain ⟨op, hop, -⟩ := mem_failures_iff.1 (mem_failures_iff_faulty.2 ⟨fault, hfaulty⟩)
    exact ⟨op, hop⟩
  obtain ⟨number, hfrom, hnumber⟩ := exists_readFrom hparse hop
  refine ⟨i, fault, op, number, rfl, hfaulty, hop, hfrom, hnumber, ?_⟩
  have hblank : ∀ earlier ∈ (lines text.toList).take (number - 1),
      (!holdsOperation earlier) = true ↔ IsBlankLine earlier := by
    intro earlier hearlier
    have hmem := List.mem_of_mem_take hearlier
    rw [Bool.not_eq_true']
    exact holdsOperation_eq_false_iff (exists_of_mem_lines hparse hmem)
      (not_mem_of_mem_lines hmem)
  have hzero : number = i + 1 ↔
      ((lines text.toList).take (number - 1)).countP (!holdsOperation ·) = 0 := by omega
  rw [hzero, List.countP_eq_zero]
  exact forall₂_congr fun earlier hearlier => not_congr (hblank earlier hearlier)

/-! ## A note in front of an operation -/

theorem parseLine_note : parseLine "// note".toList = .ok none :=
  parseLine_eq_none_iff.2 (tokens_eq_ok_nil.2 rfl)

theorem parseLine_removeLamp :
    parseLine "remove home1.light_a".toList = .ok (some (.remove lampPath)) := by
  refine parseLine_eq_some_iff.2 ⟨?_, by decide⟩
  refine tokens_eq_ok_cons.2 ⟨_, rfl, ?_⟩
  refine tokens_eq_ok_cons.2 ⟨_, rfl, ?_⟩
  exact tokens_eq_ok_nil.2 rfl

/-- A removal on the second line. -/
def notedRemoval : String := "// note\nremove home1.light_a\n"

theorem lines_notedRemoval :
    lines notedRemoval.toList = ["// note".toList, "remove home1.light_a".toList] := by
  decide

theorem parse_notedRemoval : parse notedRemoval = .ok [.remove lampPath] := by
  rw [parse, lines_notedRemoval]
  simp only [parseLines, parseLine_note, parseLine_removeLamp]

theorem check_line_of_text_notedRemoval :
    parse notedRemoval = .ok [.remove lampPath] ∧
      check [.remove lampPath] {} = .error (.invalidScript 1 (.unknown (.component lampPath))) ∧
      ∃ number, ReadFrom notedRemoval 0 (.remove lampPath) number ∧
        number = 1 + ((lines notedRemoval.toList).take (number - 1)).countP (!holdsOperation ·) ∧
        (number = 1 ↔
          ∀ earlier ∈ (lines notedRemoval.toList).take (number - 1), ¬ IsBlankLine earlier) := by
  have hcheck : check [.remove lampPath] {} =
      .error (.invalidScript 1 (.unknown (.component lampPath))) := by decide +kernel
  obtain ⟨i, fault, op, number, hnamed, -, hop, hfrom, hnumber, hiff⟩ :=
    check_line_of_text parse_notedRemoval hcheck
  obtain ⟨hline, rfl⟩ := Failure.invalidScript.inj hnamed
  obtain rfl : 0 = i := Nat.succ.inj hline
  obtain rfl : Op.remove lampPath = op := Option.some.inj hop
  exact ⟨parse_notedRemoval, hcheck, number, hfrom, hnumber, hiff⟩

/-- The check names the first line, where the note stands. -/
theorem check_notedRemoval_not_readFrom :
    ¬ ∀ (text : String) (script : Script) (model : Model) (line : Nat) (fault : ScriptFault),
      parse text = .ok script → script.check model = .error (.invalidScript line fault) →
      ∃ i op, script[i]? = some op ∧ script.Faulty model.has i fault ∧
        ReadFrom text i op line := by
  intro hall
  have hcheck : check [.remove lampPath] {} =
      .error (.invalidScript 1 (.unknown (.component lampPath))) := by decide +kernel
  obtain ⟨i, op, -, -, hfrom⟩ := hall _ _ _ _ _ parse_notedRemoval hcheck
  obtain ⟨line, hline, hop⟩ := hfrom.line
  rw [lines_notedRemoval] at hline
  obtain rfl : "// note".toList = line := Option.some.inj hline
  have hnone : none = some op := Except.ok.inj (parseLine_note.symm.trans hop)
  contradiction

end Wiring.Script
