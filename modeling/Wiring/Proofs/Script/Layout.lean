import Mathlib.Logic.Relation
import Wiring.Proofs.Script.LineByLine

/-!
# Layout

What a text looks like does not change the script that it is read as: blanks around the tokens
of a line, comments, lines without tokens and carriage returns in line ends.  Each edit of a
line leaves the tokens of the line as they are, `LineEdit.parseLine_eq`; each edit of a text
changes one line in this way, puts in a line without tokens, or changes a line end,
`Edit.parseLines_eq_ok`; so any number of them leaves the script, `parse_of_edits`.

The text has to be one that is read.  Only then does no line end with a carriage return, which
a line feed behind it would take away.
-/

namespace Wiring.Script

open Wiring.Text

/-- A change of the layout of one line. -/
inductive LineEdit : List Char → List Char → Prop
  | start {line blanks : List Char} (hblanks : IsGap blanks) : LineEdit line (blanks ++ line)
  | finish {line blanks : List Char} (hblanks : IsGap blanks) : LineEdit line (line ++ blanks)
  /-- Behind some tokens of the line, and behind some of the blanks that follow them. -/
  | between {front gap after blanks : List Char} {ts : List Token}
      (hreads : Reads (gap ++ after) (front ++ (gap ++ after)) ts) (hgap : IsGap gap)
      (hblanks : IsGap blanks) :
      LineEdit (front ++ (gap ++ after)) (front ++ (gap ++ (blanks ++ after)))
  | comment {line body : List Char} {blank : Char} (hblank : blank = ' ' ∨ blank = '\t')
      (hfeed : '\n' ∉ body) (hreturn : '\r' ∉ body) :
      LineEdit line (line ++ blank :: '/' :: '/' :: body)

/-- A line begins behind this part of a text. -/
def StartsLine (before : List Char) : Prop := before = [] ∨ before.getLast? = some '\n'

/-- A line ends before this part of a text. -/
inductive EndsLine : List Char → Prop
  | last : EndsLine []
  | lineFeed (after : List Char) : EndsLine ('\n' :: after)
  | crlf (after : List Char) : EndsLine ('\r' :: '\n' :: after)

/-- A change of the layout of a text. -/
inductive Edit : List Char → List Char → Prop
  /-- A line that ends with a line feed ends with a carriage return and a line feed. -/
  | crlf {before after : List Char} (hreturn : before.getLast? ≠ some '\r') :
      Edit (before ++ '\n' :: after) (before ++ '\r' :: '\n' :: after)
  /-- A line without tokens, in front of a line or behind the last line end. -/
  | insert {before blank after : List Char} (hbefore : StartsLine before)
      (hblank : IsBlankLine blank) : Edit (before ++ after) (before ++ (blank ++ '\n' :: after))
  /-- The same without a line end of its own. -/
  | insertLast {before blank : List Char} (hbefore : StartsLine before)
      (hblank : IsBlankLine blank) : Edit before (before ++ blank)
  /-- A line without tokens behind a last line without a line end. -/
  | append {before blank : List Char} (hblank : IsBlankLine blank) :
      Edit before (before ++ '\n' :: blank)
  | line {before line line' after : List Char} (hbefore : StartsLine before)
      (hline : IsLine line) (hafter : EndsLine after) (hedit : LineEdit line line') :
      Edit (before ++ (line ++ after)) (before ++ (line' ++ after))

variable {line line' before after blank cs cs' : List Char} {ls ms : List (List Char)}
  {number : Nat} {s : Script}

/-! ## One line -/

theorem parseLine_of_tokens (h : tokens line' = tokens line) :
    parseLine line' = parseLine line := by
  rw [parseLine, parseLine, h]

theorem IsBlankLine.parseLine_eq (hblank : IsBlankLine blank) : parseLine blank = .ok none :=
  parseLine_eq_none_iff.2
    (tokens_eq_ok_nil.2 ((nextToken_eq_none_iff hblank.lineFeed_notMem).2 hblank))

/-- Behind a line that is read, a line without tokens adds nothing. -/
theorem parseLine_append {op : Option Op} (h : parseLine line = .ok op) (hline : '\n' ∉ line)
    (hblank : IsBlankLine blank) (hend : EndsWord blank) : parseLine (line ++ blank) = .ok op := by
  cases htokens : tokens line with
  | error fault => simp [parseLine, htokens] at h
  | ok ts =>
    rw [← h]
    exact parseLine_of_tokens ((tokens_append htokens hline hblank hend).trans htokens.symm)

/-- A line holds the same after each edit. -/
theorem LineEdit.parseLine_eq {op : Option Op} (hedit : LineEdit line line')
    (hline : '\n' ∉ line) (h : parseLine line = .ok op) : parseLine line' = .ok op := by
  cases hedit with
  | start hblanks => rw [parseLine_of_tokens (tokens_gap hblanks), h]
  | finish hblanks =>
    have hend := hblanks.endsWord_append endsWord_nil
    rw [List.append_nil] at hend
    exact parseLine_append h hline (.gap hblanks) hend
  | between hreads hgap hblanks =>
    rw [parseLine_of_tokens (tokens_insert hreads hline hgap hblanks), h]
  | @comment _ body blank hblank hfeed hreturn =>
    have hgap : IsGap [blank] := isGap_cons_iff.2 ⟨hblank, isGap_nil⟩
    have hcomment : IsBlankLine (blank :: '/' :: '/' :: body) := .comment hgap hfeed hreturn
    exact parseLine_append h hline hcomment (endsWord_blank hblank _)

theorem LineEdit.lineFeed_notMem (hedit : LineEdit line line') (hline : '\n' ∉ line) :
    '\n' ∉ line' := by
  cases hedit with
  | start hblanks => exact List.not_mem_append hblanks.lineFeed_notMem hline
  | finish hblanks => exact List.not_mem_append hline hblanks.lineFeed_notMem
  | between _ _ hblanks => simpa [hblanks.lineFeed_notMem] using hline
  | comment hblank hfeed _ =>
    refine List.not_mem_append hline ?_
    rcases hblank with rfl | rfl
    · simpa using hfeed
    · simpa using hfeed

/-! ## One line among others -/

theorem lines_append_of_startsLine (hbefore : StartsLine before) (after : List Char) :
    lines (before ++ after) = lines before ++ lines after := by
  rcases hbefore with rfl | hlast
  · rfl
  · obtain ⟨init, rfl⟩ := List.getLast?_eq_some_iff.1 hlast
    rw [List.append_assoc, List.singleton_append, lines_append_break]

/-- What stands between two line ends is one of the lines that are read. -/
theorem exists_parseLines_line (hafter : EndsLine after) :
    ∃ others, ∀ line number, IsLine line →
      parseLines number (lines (line ++ after)) = parseLines number (line :: others) := by
  cases hafter with
  | last =>
    refine ⟨[], fun line number hline => ?_⟩
    rw [List.append_nil, lines_of_notMem hline.1]
    split
    · rename_i hnil
      rw [hnil, parseLines_cons, parseLine_nil]
      rfl
    · rfl
  | lineFeed after =>
    refine ⟨lines after, fun line number hline => ?_⟩
    rw [lines_append_lineFeed hline]
  | crlf after =>
    refine ⟨lines after, fun line number hline => ?_⟩
    rw [lines_append_crlf hline.2, lines_append_lineFeed hline]

theorem IsBlankLine.parseLines_eq (hblank : IsBlankLine blank) :
    parseLines number (lines blank) = .ok [] := by
  rw [lines_of_notMem hblank.lineFeed_notMem]
  split
  · rfl
  · exact parseLines_cons_eq_ok_iff.2 ⟨none, [], hblank.parseLine_eq, rfl, rfl⟩

/-- An edit leaves the script of a text that is read. -/
theorem Edit.parseLines_eq_ok (hedit : Edit cs cs') (h : parseLines number (lines cs) = .ok s) :
    parseLines number (lines cs') = .ok s := by
  cases hedit with
  | crlf hreturn => rw [lines_append_crlf hreturn, h]
  | insert hbefore hblank =>
    have hline : IsLine _ := ⟨hblank.lineFeed_notMem, fun hlast =>
      hblank.carriageReturn_notMem (List.mem_of_getLast? hlast)⟩
    rw [lines_append_of_startsLine hbefore] at h ⊢
    obtain ⟨s₁, s₂, hs₁, hs₂, rfl⟩ := parseLines_append_eq_ok_iff.1 h
    rw [lines_append_lineFeed hline, parseLines_append_eq_ok_iff]
    refine ⟨s₁, s₂, hs₁, ?_, rfl⟩
    exact parseLines_cons_eq_ok_iff.2 ⟨none, s₂, hblank.parseLine_eq, hs₂, rfl⟩
  | insertLast hbefore hblank =>
    rw [lines_append_of_startsLine hbefore, parseLines_append_eq_ok_iff]
    exact ⟨s, [], h, hblank.parseLines_eq, List.append_nil s⟩
  | append hblank =>
    rw [lines_append_break, parseLines_append_eq_ok_iff]
    refine ⟨s, [], ?_, hblank.parseLines_eq, List.append_nil s⟩
    rw [parseLines_lineFeed (getLast?_ne_of_parseLines h), h]
  | @line before line line' after hbefore hline hafter hedit =>
    obtain ⟨others, hothers⟩ := exists_parseLines_line hafter
    rw [lines_append_of_startsLine hbefore] at h ⊢
    obtain ⟨s₁, s₂, hs₁, hs₂, rfl⟩ := parseLines_append_eq_ok_iff.1 h
    rw [hothers line number hline] at hs₂
    obtain ⟨op, s₃, hop, hs₃, rfl⟩ := parseLines_cons_eq_ok_iff.1 hs₂
    -- The edited line is read, so it is one line again.
    have hop' := hedit.parseLine_eq hline.1 hop
    have hfeed := hedit.lineFeed_notMem hline.1
    have hline' : IsLine line' := ⟨hfeed, getLast?_ne_of_parseLine hop' hfeed⟩
    refine parseLines_append_eq_ok_iff.2 ⟨s₁, _, hs₁, ?_, rfl⟩
    rw [hothers line' number hline']
    exact parseLines_cons_eq_ok_iff.2 ⟨op, s₃, hop', hs₃, rfl⟩

/-- Any number of edits of its layout leave the script that a text is read as. -/
theorem parse_of_edits {t t' : String} (h : parse t = .ok s)
    (hedits : Relation.ReflTransGen Edit t.toList t'.toList) : parse t' = .ok s := by
  suffices hall : ∀ cs, Relation.ReflTransGen Edit t.toList cs →
      parseLines 1 (lines cs) = .ok s by exact hall _ hedits
  intro cs hedits
  induction hedits with
  | refl => exact h
  | tail _ hedit ih => exact hedit.parseLines_eq_ok ih

theorem parse_of_edits_commented :
    parse "set //.c.a=\"//\r\"\nremove n.c" =
        .ok [.setAttribute ⟨"//", "c"⟩ "a" "//\r", .remove ⟨"n", "c"⟩] ∧
      parse "\t// 1\nset //.c.a\t=\"//\r\"\r\nremove n.c // \"" =
        .ok [.setAttribute ⟨"//", "c"⟩ "a" "//\r", .remove ⟨"n", "c"⟩] := by
  have hset : parseLine "set //.c.a=\"//\r\"".toList =
      .ok (some (.setAttribute ⟨"//", "c"⟩ "a" "//\r")) := by
    refine parseLine_eq_some_iff.2 ⟨?_, by decide⟩
    refine tokens_eq_ok_cons.2 ⟨_, rfl, ?_⟩
    refine tokens_eq_ok_cons.2 ⟨_, rfl, ?_⟩
    refine tokens_eq_ok_cons.2 ⟨_, rfl, ?_⟩
    refine tokens_eq_ok_cons.2 ⟨_, rfl, ?_⟩
    exact tokens_eq_ok_nil.2 rfl
  have hremove : parseLine "remove n.c".toList = .ok (some (.remove ⟨"n", "c"⟩)) := by
    refine parseLine_eq_some_iff.2 ⟨?_, by decide⟩
    refine tokens_eq_ok_cons.2 ⟨_, rfl, ?_⟩
    refine tokens_eq_ok_cons.2 ⟨_, rfl, ?_⟩
    exact tokens_eq_ok_nil.2 rfl
  have hparse : parse "set //.c.a=\"//\r\"\nremove n.c" =
      .ok [.setAttribute ⟨"//", "c"⟩ "a" "//\r", .remove ⟨"n", "c"⟩] := by
    change parseLines 1 ["set //.c.a=\"//\r\"".toList, "remove n.c".toList] = _
    simp only [parseLines, hset, hremove]
  have hreads : Reads ([] ++ "=\"//\r\"".toList)
      ("set //.c.a".toList ++ ([] ++ "=\"//\r\"".toList)) [.set, .word "//.c.a"] :=
    .token rfl (.token rfl .here)
  have hcrlf : Edit "set //.c.a=\"//\r\"\nremove n.c".toList
      "set //.c.a=\"//\r\"\r\nremove n.c".toList :=
    @Edit.crlf "set //.c.a=\"//\r\"".toList "remove n.c".toList (by decide)
  have hbetween : Edit "set //.c.a=\"//\r\"\r\nremove n.c".toList
      "set //.c.a\t=\"//\r\"\r\nremove n.c".toList :=
    @Edit.line [] _ _ "\r\nremove n.c".toList (Or.inl rfl)
      ⟨by decide, by decide⟩ (.crlf _)
      (@LineEdit.between _ [] _ ['\t'] _ hreads isGap_nil (by simp [IsGap]))
  have hcomment : Edit "set //.c.a\t=\"//\r\"\r\nremove n.c".toList
      "set //.c.a\t=\"//\r\"\r\nremove n.c // \"".toList :=
    @Edit.line "set //.c.a\t=\"//\r\"\r\n".toList "remove n.c".toList _ []
      (Or.inr (by decide)) ⟨by decide, by decide⟩ .last
      (@LineEdit.comment _ " \"".toList ' ' (Or.inl rfl) (by decide) (by decide))
  have hinsert : Edit "set //.c.a\t=\"//\r\"\r\nremove n.c // \"".toList
      "\t// 1\nset //.c.a\t=\"//\r\"\r\nremove n.c // \"".toList :=
    @Edit.insert [] "\t// 1".toList _ (Or.inl rfl)
      (@IsBlankLine.comment ['\t'] " 1".toList (by simp [IsGap]) (by decide) (by decide))
  refine ⟨hparse, parse_of_edits hparse ?_⟩
  exact (((Relation.ReflTransGen.single hcrlf).tail hbetween).tail hcomment).tail hinsert

end Wiring.Script
