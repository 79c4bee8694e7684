import Wiring.Proofs.Script.Line

/-!
# Texts and scripts

Writing a script and reading the text gives the script back exactly when every
operation is expressible.  Since reading yields expressible operations only, whatever
the text looked like, the written text of a script that was read is a canonical form
of all texts that describe it.
-/

namespace Wiring.Script

open Wiring.Text

theorem toList_text_nil : (Script.text []).toList = [] := rfl

theorem toList_text_cons (op : Op) (s : Script) :
    (Script.text (op :: s)).toList = op.text.toList ++ '\n' :: (Script.text s).toList := by
  simp [Script.text]

theorem parseLines_text {s : Script} (hs : ∀ op ∈ s, op.Expressible) (number : Nat) :
    parseLines number (lines (Script.text s).toList) = .ok s := by
  induction s generalizing number with
  | nil => simp [toList_text_nil, parseLines]
  | cons op s ih =>
    obtain ⟨hop, hrest⟩ := List.forall_mem_cons.1 hs
    rw [toList_text_cons, lines_append_lineFeed (isLine_text hop)]
    exact parseLines_cons_eq_ok_iff.2 ⟨some op, s, parseLine_text hop, ih hrest number, rfl⟩

theorem expressible_of_parseLines {number : Nat} {ls : List (List Char)} {s : Script}
    (hlines : ∀ line ∈ ls, '\n' ∉ line) (h : parseLines number ls = .ok s) :
    ∀ op ∈ s, op.Expressible := by
  intro op hop
  obtain ⟨line, hline, hparse⟩ := exists_of_mem_script h hop
  exact expressible_of_parseLine (hlines line hline) hparse

theorem parse_text_of_expressible {s : Script} (hs : ∀ op ∈ s, op.Expressible) :
    parse s.text = .ok s :=
  parseLines_text hs 1

theorem expressible_of_parse {t : String} {s : Script} (h : parse t = .ok s) :
    ∀ op ∈ s, op.Expressible :=
  expressible_of_parseLines (fun _ hline => not_mem_of_mem_lines hline) h

/-- A script is read back from its text exactly when a line can express each of its
operations. -/
theorem parse_text_eq_ok_iff (script : Script) :
    parse script.text = .ok script ↔ ∀ op ∈ script, op.Expressible :=
  ⟨expressible_of_parse, parse_text_of_expressible⟩

/-- Whatever text a script was read from, it is read back from its own text; so two
texts describe the same script exactly when the texts of their scripts agree. -/
theorem parse_text_of_parse {t₁ t₂ : String} {s₁ s₂ : Script} (h₁ : parse t₁ = .ok s₁)
    (h₂ : parse t₂ = .ok s₂) :
    parse s₁.text = .ok s₁ ∧ (s₁ = s₂ ↔ s₁.text = s₂.text) := by
  have hback₁ := parse_text_of_expressible (expressible_of_parse h₁)
  have hback₂ := parse_text_of_expressible (expressible_of_parse h₂)
  refine ⟨hback₁, congrArg Script.text, fun htext => ?_⟩
  rw [htext, hback₂] at hback₁
  exact (Except.ok.inj hback₁).symm

theorem parse_text_of_commented_lines :
    parse "// head\r\n\tset //n.c.a.b = \"x\\q\ry\\n\" // tail\n\n  remove n.c" =
        .ok [.setAttribute ⟨"//n", "c"⟩ "a.b" "x\\q\ry\n", .remove ⟨"n", "c"⟩] ∧
      parse "remove\tn.c // the rest" = .ok [.remove ⟨"n", "c"⟩] ∧
      parse (Script.text [.setAttribute ⟨"//n", "c"⟩ "a.b" "x\\q\ry\n", .remove ⟨"n", "c"⟩]) =
        .ok [.setAttribute ⟨"//n", "c"⟩ "a.b" "x\\q\ry\n", .remove ⟨"n", "c"⟩] ∧
      (([.setAttribute ⟨"//n", "c"⟩ "a.b" "x\\q\ry\n", .remove ⟨"n", "c"⟩] : Script) =
          [.remove ⟨"n", "c"⟩] ↔
        Script.text [.setAttribute ⟨"//n", "c"⟩ "a.b" "x\\q\ry\n", .remove ⟨"n", "c"⟩] =
          Script.text [.remove ⟨"n", "c"⟩]) := by
  have hhead : parseLine "// head".toList = .ok none :=
    parseLine_eq_none_iff.2 (tokens_eq_ok_nil.2 rfl)
  have hempty : parseLine [] = .ok none := parseLine_eq_none_iff.2 tokens_nil
  have hset : parseLine "\tset //n.c.a.b = \"x\\q\ry\\n\" // tail".toList =
      .ok (some (.setAttribute ⟨"//n", "c"⟩ "a.b" "x\\q\ry\n")) := by
    refine parseLine_eq_some_iff.2 ⟨?_, by decide⟩
    refine tokens_eq_ok_cons.2 ⟨_, rfl, ?_⟩
    refine tokens_eq_ok_cons.2 ⟨_, rfl, ?_⟩
    refine tokens_eq_ok_cons.2 ⟨_, rfl, ?_⟩
    refine tokens_eq_ok_cons.2 ⟨_, rfl, ?_⟩
    exact tokens_eq_ok_nil.2 rfl
  have hremove : parseLine "  remove n.c".toList = .ok (some (.remove ⟨"n", "c"⟩)) := by
    refine parseLine_eq_some_iff.2 ⟨?_, by decide⟩
    refine tokens_eq_ok_cons.2 ⟨_, rfl, ?_⟩
    refine tokens_eq_ok_cons.2 ⟨_, rfl, ?_⟩
    exact tokens_eq_ok_nil.2 rfl
  have hrest : parseLine "remove\tn.c // the rest".toList =
      .ok (some (.remove ⟨"n", "c"⟩)) := by
    refine parseLine_eq_some_iff.2 ⟨?_, by decide⟩
    refine tokens_eq_ok_cons.2 ⟨_, rfl, ?_⟩
    refine tokens_eq_ok_cons.2 ⟨_, rfl, ?_⟩
    exact tokens_eq_ok_nil.2 rfl
  have hfirst :
      parse "// head\r\n\tset //n.c.a.b = \"x\\q\ry\\n\" // tail\n\n  remove n.c" =
        .ok [.setAttribute ⟨"//n", "c"⟩ "a.b" "x\\q\ry\n", .remove ⟨"n", "c"⟩] := by
    change parseLines 1 ["// head".toList,
      "\tset //n.c.a.b = \"x\\q\ry\\n\" // tail".toList, [], "  remove n.c".toList] = _
    simp only [parseLines, hhead, hset, hempty, hremove]
  have hsecond : parse "remove\tn.c // the rest" = .ok [.remove ⟨"n", "c"⟩] := by
    change parseLines 1 ["remove\tn.c // the rest".toList] = _
    simp only [parseLines, hrest]
  exact ⟨hfirst, hsecond, parse_text_of_parse hfirst hsecond⟩

end Wiring.Script
