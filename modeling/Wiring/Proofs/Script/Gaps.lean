import Wiring.Proofs.Script.Line

/-!
# Gaps of a line

A line is a list of tokens with gaps between them.  The next token of a line is what is
written behind its gap, `nextToken_eq_some_iff`, and a line without tokens is a gap with a
comment behind it or none, `nextToken_eq_none_iff`.

Only two things in the rest of a line bear on a token in front of it: a word ends where
no word character follows, and two slashes begin a word when a carriage return
follows.  So the front of a line is read in the same way before every rest that
agrees in them, `Reads.exists_front`; blanks can be added in the gaps of a line,
`tokens_insert`, and a line without tokens behind it, `tokens_append`.
-/

namespace Wiring.Script

/-- The characters that can stand between two tokens. -/
def IsGap (cs : List Char) : Prop := ∀ c ∈ cs, c = ' ' ∨ c = '\t'

/-- A line without tokens: blanks, and a comment behind them or none. -/
inductive IsBlankLine : List Char → Prop
  | gap {gap : List Char} (hgap : IsGap gap) : IsBlankLine gap
  | comment {gap body : List Char} (hgap : IsGap gap) (hfeed : '\n' ∉ body)
      (hreturn : '\r' ∉ body) : IsBlankLine (gap ++ '/' :: '/' :: body)

variable {cs rest rest' gap read : List Char} {token : Token} {ts : List Token}

/-! ## Gaps -/

theorem isGap_nil : IsGap [] := by
  intro c hc
  simp at hc

theorem isGap_append_iff : IsGap (gap ++ rest) ↔ IsGap gap ∧ IsGap rest := by
  simp only [IsGap, List.mem_append, or_imp, forall_and]

theorem isGap_cons_iff {c : Char} : IsGap (c :: gap) ↔ (c = ' ' ∨ c = '\t') ∧ IsGap gap :=
  List.forall_mem_cons

theorem IsGap.lineFeed_notMem (hgap : IsGap gap) : '\n' ∉ gap := by
  intro hmem
  exact absurd (hgap _ hmem) (by decide)

theorem IsGap.carriageReturn_notMem (hgap : IsGap gap) : '\r' ∉ gap := by
  intro hmem
  exact absurd (hgap _ hmem) (by decide)

/-- No word goes on in a gap. -/
theorem endsWord_blank {c : Char} (hc : c = ' ' ∨ c = '\t') (cs : List Char) :
    EndsWord (c :: cs) := by
  rcases hc with rfl | rfl
  · exact endsWord_cons (by decide) cs
  · exact endsWord_cons (by decide) cs

theorem IsGap.endsWord_append (hgap : IsGap gap) (hend : EndsWord rest) :
    EndsWord (gap ++ rest) := by
  cases gap with
  | nil => exact hend
  | cons c gap => exact endsWord_blank (isGap_cons_iff.1 hgap).1 _

theorem skipTrivia_gap (hgap : IsGap gap) : skipTrivia (gap ++ cs) = skipTrivia cs := by
  induction gap with
  | nil => rfl
  | cons c gap ih =>
    obtain ⟨hc, hrest⟩ := isGap_cons_iff.1 hgap
    rw [List.cons_append]
    rcases hc with rfl | rfl
    · rw [skipTrivia_space, ih hrest]
    · rw [skipTrivia_tab, ih hrest]

theorem tokens_gap (hgap : IsGap gap) : tokens (gap ++ cs) = tokens cs :=
  tokens_of_skipTrivia (skipTrivia_gap hgap)

/-- In front of something a gap is skipped and nothing else. -/
theorem exists_gap (hskip : skipTrivia cs ≠ []) (hline : '\n' ∉ cs) :
    ∃ gap, IsGap gap ∧ cs = gap ++ skipTrivia cs := by
  fun_induction skipTrivia cs with
  | case1 rest ih =>
    obtain ⟨gap, hgap, hrest⟩ := ih hskip (List.not_mem_of_not_mem_cons hline)
    exact ⟨' ' :: gap, isGap_cons_iff.2 ⟨Or.inl rfl, hgap⟩, congrArg _ hrest⟩
  | case2 rest ih =>
    obtain ⟨gap, hgap, hrest⟩ := ih hskip (List.not_mem_of_not_mem_cons hline)
    exact ⟨'\t' :: gap, isGap_cons_iff.2 ⟨Or.inr rfl, hgap⟩, congrArg _ hrest⟩
  | case3 rest =>
    have hrest : '\n' ∉ rest := by simp_all
    rw [afterComment_of_line hrest] at hskip ⊢
    split at hskip
    · exact ⟨[], isGap_nil, by simp_all⟩
    · exact absurd rfl hskip
  | case4 cs => exact ⟨[], isGap_nil, rfl⟩

/-! ## Lines without tokens -/

theorem IsBlankLine.lineFeed_notMem (hcs : IsBlankLine cs) : '\n' ∉ cs := by
  cases hcs with
  | gap hgap => exact hgap.lineFeed_notMem
  | comment hgap hfeed _ => exact List.not_mem_append hgap.lineFeed_notMem (by simpa using hfeed)

theorem IsBlankLine.carriageReturn_notMem (hcs : IsBlankLine cs) : '\r' ∉ cs := by
  cases hcs with
  | gap hgap => exact hgap.carriageReturn_notMem
  | comment hgap _ hreturn =>
    exact List.not_mem_append hgap.carriageReturn_notMem (by simpa using hreturn)

theorem IsBlankLine.gap_append (hgap : IsGap gap) (hcs : IsBlankLine cs) :
    IsBlankLine (gap ++ cs) := by
  cases hcs with
  | gap hgap' => exact .gap (isGap_append_iff.2 ⟨hgap, hgap'⟩)
  | comment hgap' hfeed hreturn =>
    rw [← List.append_assoc]
    exact .comment (isGap_append_iff.2 ⟨hgap, hgap'⟩) hfeed hreturn

/-- A comment runs on to the end of whatever blank line is put behind it. -/
theorem IsBlankLine.append (hcs : IsBlankLine cs) (hrest : IsBlankLine rest) :
    IsBlankLine (cs ++ rest) := by
  cases hcs with
  | gap hgap => exact hrest.gap_append hgap
  | comment hgap hfeed hreturn =>
    rw [List.append_assoc]
    exact .comment hgap (List.not_mem_append hfeed hrest.lineFeed_notMem)
      (List.not_mem_append hreturn hrest.carriageReturn_notMem)

/-- A line holds nothing but blanks and a comment when all of it is skipped. -/
theorem skipTrivia_eq_nil_iff (hline : '\n' ∉ cs) : skipTrivia cs = [] ↔ IsBlankLine cs := by
  constructor
  · intro hskip
    fun_induction skipTrivia cs with
    | case1 rest ih =>
      have hrest := ih (List.not_mem_of_not_mem_cons hline) hskip
      have hspace : IsGap [' '] := isGap_cons_iff.2 ⟨Or.inl rfl, isGap_nil⟩
      exact hrest.gap_append hspace
    | case2 rest ih =>
      have hrest := ih (List.not_mem_of_not_mem_cons hline) hskip
      have htab : IsGap ['\t'] := isGap_cons_iff.2 ⟨Or.inr rfl, isGap_nil⟩
      exact hrest.gap_append htab
    | case3 rest =>
      have hrest : '\n' ∉ rest := by simp_all
      rw [afterComment_of_line hrest] at hskip
      split at hskip
      · simp at hskip
      · exact .comment isGap_nil hrest ‹_›
    | case4 cs =>
      rw [hskip]
      exact .gap isGap_nil
  · intro hblank
    cases hblank with
    | gap hgap => rw [← List.append_nil cs, skipTrivia_gap hgap]; rfl
    | comment hgap hfeed hreturn =>
      rw [skipTrivia_gap hgap, skipTrivia, afterComment_of_line hfeed, if_neg hreturn,
        Option.getD_some]

theorem nextToken_eq_none_iff (hline : '\n' ∉ cs) :
    nextToken cs = .ok none ↔ IsBlankLine cs := by
  rw [← skipTrivia_eq_nil_iff hline]
  constructor
  · intro h
    exact readToken_eq_none h
  · intro hskip
    rw [nextToken, hskip, readToken]

/-! ## The next token -/

/-- The ways to write a token in front of the rest of a line.  Where a word begins with two
slashes, a carriage return must follow in the line. -/
inductive Writes (rest : List Char) : List Char → Token → Prop
  | literal {body value : List Char}
      (hbody : ∀ rest', readLiteral (body ++ '"' :: rest') = some (value, rest')) :
      Writes rest ('"' :: (body ++ ['"'])) (.literal (String.ofList value))
  | colon : Writes rest [':'] .colon
  | equals : Writes rest ['='] .equals
  | word {s : String} (hs : IsWord s) (hend : EndsWord rest)
      (hslashes : BeginsComment s → '\r' ∈ rest) : Writes rest s.toList (Token.ofWord s)

theorem Writes.getLast?_ne (h : Writes rest read token) : read.getLast? ≠ some '\r' := by
  cases h with
  | literal _ =>
    rw [← List.cons_append, List.getLast?_concat]
    decide
  | colon => decide
  | equals => decide
  | word hs _ _ =>
    intro hlast
    exact hs.notMem_of_not_isWordChar (by decide) (List.mem_of_getLast? hlast)

theorem readToken_of_writes (h : Writes rest read token) :
    readToken (read ++ rest) = .ok (some (token, rest)) := by
  cases h with
  | @literal body value hbody =>
    have hlist : '"' :: (body ++ ['"']) ++ rest = '"' :: (body ++ '"' :: rest) := by simp
    rw [hlist]
    exact readToken_literal (hbody rest)
  | colon => exact readToken_colon rest
  | equals => exact readToken_equals rest
  | word hs hend _ => exact readToken_word hs hend

/-- Nothing is skipped in front of a token. -/
theorem skipTrivia_of_writes (hline : '\n' ∉ read ++ rest) (h : Writes rest read token) :
    skipTrivia (read ++ rest) = read ++ rest := by
  cases h with
  | literal _ =>
    exact skipTrivia_eq_self (by decide) (by decide) (by simp [List.cons_prefix_cons])
  | colon => exact skipTrivia_eq_self (by decide) (by decide) (by simp [List.cons_prefix_cons])
  | equals => exact skipTrivia_eq_self (by decide) (by decide) (by simp [List.cons_prefix_cons])
  | @word s hs hend hslashes =>
    by_cases hcomment : BeginsComment s
    · exact skipTrivia_word_of_carriageReturn hcomment hline (hslashes hcomment)
    · exact skipTrivia_word hs hcomment hend

/-- The next token of a line is the one that is written behind the gap at its beginning. -/
theorem nextToken_eq_some_iff (hline : '\n' ∉ cs) :
    nextToken cs = .ok (some (token, rest)) ↔
      ∃ gap read, IsGap gap ∧ Writes rest read token ∧ cs = gap ++ (read ++ rest) := by
  constructor
  · intro h
    have hskip : skipTrivia cs ≠ [] := by
      intro hnil
      rw [nextToken, hnil] at h
      simp [readToken] at h
    obtain ⟨gap, hgap, hcs⟩ := exists_gap hskip hline
    suffices hwrites : ∃ read, Writes rest read token ∧ skipTrivia cs = read ++ rest by
      obtain ⟨read, hread, heq⟩ := hwrites
      exact ⟨gap, read, hgap, hread, heq ▸ hcs⟩
    obtain ⟨value, rfl, cs', hfront, hread⟩ | ⟨rfl, hfront⟩ | ⟨rfl, hfront⟩ |
      ⟨s, rfl, hs, hfront, hend⟩ := readToken_eq_some h
    · obtain ⟨body, rfl, -, hbody⟩ := readLiteral_eq_some hread
      exact ⟨_, .literal hbody, by simp [hfront]⟩
    · exact ⟨_, .colon, hfront⟩
    · exact ⟨_, .equals, hfront⟩
    · refine ⟨_, .word hs hend fun hslashes => ?_, hfront⟩
      have hcr := carriageReturn_of_slashes hline
        (hfront ▸ hslashes.trans (List.prefix_append _ _))
      rw [hfront, List.mem_append] at hcr
      exact hcr.resolve_left (hs.notMem_of_not_isWordChar (by decide))
  · rintro ⟨gap, read, hgap, hread, rfl⟩
    have hline' : '\n' ∉ read ++ rest := fun hmem => hline (List.mem_append_right _ hmem)
    rw [nextToken, skipTrivia_gap hgap, skipTrivia_of_writes hline' hread]
    exact readToken_of_writes hread

/-! ## The tokens of the front of a line -/

/-- The tokens of a line up to a place where nothing but the rest of it is left. -/
inductive Reads (rest : List Char) : List Char → List Token → Prop
  | here : Reads rest rest []
  | token {cs after : List Char} {token : Token} {ts : List Token}
      (hnext : nextToken cs = .ok (some (token, after))) (hafter : Reads rest after ts) :
      Reads rest cs (token :: ts)

/-- A rest of a line that does to the tokens in front of it what another one does. -/
structure StandsFor (rest' rest : List Char) : Prop where
  lineFeed_notMem : '\n' ∉ rest'
  carriageReturn_mem : '\r' ∈ rest → '\r' ∈ rest'
  endsWord : EndsWord rest → EndsWord rest'

theorem StandsFor.append_left (h : StandsFor rest' rest) (hread : '\n' ∉ read) :
    StandsFor (read ++ rest') (read ++ rest) where
  lineFeed_notMem := List.not_mem_append hread h.lineFeed_notMem
  carriageReturn_mem hcr := by
    simp only [List.mem_append] at hcr ⊢
    exact hcr.imp_right h.carriageReturn_mem
  endsWord hend := by
    cases read with
    | nil => exact h.endsWord hend
    | cons c read => exact endsWord_cons (hend c rfl) _

theorem Writes.standsFor (h : Writes rest read token) (hrest : StandsFor rest' rest) :
    Writes rest' read token := by
  cases h with
  | literal hbody => exact .literal hbody
  | colon => exact .colon
  | equals => exact .equals
  | word hs hend hslashes =>
    exact .word hs (hrest.endsWord hend) fun h => hrest.carriageReturn_mem (hslashes h)

/-- A line is its tokens and the tokens of the rest of it. -/
theorem Reads.tokens_eq (h : Reads rest cs ts) : tokens cs = (tokens rest).map (ts ++ ·) := by
  induction h with
  | here => cases tokens rest <;> rfl
  | token hnext _ ih =>
    rw [tokens_of_nextToken_some hnext, ih]
    cases tokens rest <;> rfl

theorem exists_reads (h : tokens cs = .ok ts) :
    ∃ rest, Reads rest cs ts ∧ nextToken rest = .ok none := by
  refine tokens_induction (motive := fun cs ts => ∃ rest, Reads rest cs ts ∧
    nextToken rest = .ok none) ?_ ?_ h
  · intro cs hnext
    exact ⟨cs, .here, hnext⟩
  · rintro cs token after others hnext ⟨rest, hafter, hnone⟩
    exact ⟨rest, .token hnext hafter, hnone⟩

/-- The front of a line is read in the same way before every rest that stands for its own. -/
theorem Reads.exists_front (h : Reads rest cs ts) (hline : '\n' ∉ cs) :
    ∃ front, cs = front ++ rest ∧
      ∀ rest', StandsFor rest' rest → Reads rest' (front ++ rest') ts := by
  induction h with
  | here => exact ⟨[], rfl, fun rest' _ => .here⟩
  | @token cs after token ts hnext _ ih =>
    obtain ⟨gap, read, hgap, hread, rfl⟩ := (nextToken_eq_some_iff hline).1 hnext
    simp only [List.mem_append, not_or] at hline
    obtain ⟨hgapLine, hreadLine, hafterLine⟩ := hline
    obtain ⟨front, rfl, hfront⟩ := ih hafterLine
    have hfrontLine : '\n' ∉ front := fun hmem => hafterLine (List.mem_append_left _ hmem)
    refine ⟨gap ++ (read ++ front), by simp, fun rest' hrest => ?_⟩
    have hafter : StandsFor (front ++ rest') (front ++ rest) := hrest.append_left hfrontLine
    have hlist : gap ++ (read ++ front) ++ rest' = gap ++ (read ++ (front ++ rest')) := by simp
    refine .token ?_ (hfront rest' hrest)
    rw [hlist, nextToken_eq_some_iff]
    · exact ⟨gap, read, hgap, hread.standsFor hafter, rfl⟩
    · have hrestLine := hafter.lineFeed_notMem
      exact List.not_mem_append hgapLine (List.not_mem_append hreadLine hrestLine)

/-! ## Blanks and comments put into a line -/

variable {front after blanks : List Char}

/-- Blanks behind a token, or between blanks that stand there, do not count. -/
theorem tokens_insert (h : Reads (gap ++ after) (front ++ (gap ++ after)) ts)
    (hline : '\n' ∉ front ++ (gap ++ after)) (hgap : IsGap gap) (hblanks : IsGap blanks) :
    tokens (front ++ (gap ++ (blanks ++ after))) = tokens (front ++ (gap ++ after)) := by
  obtain ⟨front', heq, hfront⟩ := h.exists_front hline
  obtain rfl := List.append_cancel_right heq
  have hstands : StandsFor (gap ++ (blanks ++ after)) (gap ++ after) := by
    have hrestLine : '\n' ∉ gap ++ after := fun hmem => hline (List.mem_append_right _ hmem)
    refine ⟨?_, fun hcr => ?_, fun hend => ?_⟩
    · simpa [hblanks.lineFeed_notMem] using hrestLine
    · simp only [List.mem_append] at hcr ⊢
      exact hcr.imp_right Or.inr
    · cases gap with
      | nil => exact hblanks.endsWord_append hend
      | cons c gap => exact endsWord_cons (hend c rfl) _
  rw [(hfront _ hstands).tokens_eq, h.tokens_eq, tokens_gap hgap, tokens_gap hblanks,
    tokens_gap hgap]

/-- A line without tokens behind a line that is read adds nothing, unless it would go on with
a word. -/
theorem tokens_append (h : tokens cs = .ok ts) (hline : '\n' ∉ cs) (hblank : IsBlankLine after)
    (hend : EndsWord after) : tokens (cs ++ after) = .ok ts := by
  obtain ⟨rest, hreads, hnone⟩ := exists_reads h
  obtain ⟨front, rfl, hfront⟩ := hreads.exists_front hline
  have hrestLine : '\n' ∉ rest := fun hmem => hline (List.mem_append_right _ hmem)
  have hrest := (nextToken_eq_none_iff hrestLine).1 hnone
  have hboth : IsBlankLine (rest ++ after) := hrest.append hblank
  have hstands : StandsFor (rest ++ after) rest := by
    refine ⟨hboth.lineFeed_notMem, List.mem_append_left _, fun hrest => ?_⟩
    cases rest with
    | nil => exact hend
    | cons c rest => exact endsWord_cons (hrest c rfl) _
  have hnone' := (nextToken_eq_none_iff hboth.lineFeed_notMem).2 hboth
  rw [List.append_assoc, (hfront _ hstands).tokens_eq, tokens_of_nextToken_none hnone']
  show Except.ok (ts ++ []) = _
  rw [List.append_nil]

/-- No carriage return stands at the end of a line that is read. -/
theorem getLast?_ne_of_tokens (h : tokens cs = .ok ts) (hline : '\n' ∉ cs) :
    cs.getLast? ≠ some '\r' := by
  revert hline
  refine tokens_induction (motive := fun cs _ => '\n' ∉ cs → cs.getLast? ≠ some '\r') ?_ ?_ h
  · intro cs hnext hline hlast
    have hblank := (nextToken_eq_none_iff hline).1 hnext
    exact hblank.carriageReturn_notMem (List.mem_of_getLast? hlast)
  · intro cs token rest others hnext ih hline
    obtain ⟨gap, read, hgap, hread, rfl⟩ := (nextToken_eq_some_iff hline).1 hnext
    have hrest := ih fun hmem => hline (by simp [hmem])
    rw [List.getLast?_append, List.getLast?_append]
    intro hlast
    simp only [Option.or_eq_some_iff] at hlast
    rcases hlast with (hlast | ⟨-, hlast⟩) | ⟨-, hlast⟩
    · exact hrest hlast
    · exact hread.getLast?_ne hlast
    · exact hgap.carriageReturn_notMem (List.mem_of_getLast? hlast)

end Wiring.Script
