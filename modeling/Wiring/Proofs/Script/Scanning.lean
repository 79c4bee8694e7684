import Wiring.Proofs.Script.Word
import Wiring.Script

/-!
# Scanning a line

What the scan of a line does with each thing that can stand in it, in both
directions: blanks are skipped, a word is read to where its characters end, an
escaped value is read back; and what was read as a token stood in the line.

A carriage return inside a line can only be read as part of a literal, since it is
no word character and makes two slashes before it no comment.  So a word can begin
with two slashes only in a line that has a literal with a carriage return,
`literal_of_slashes`.
-/

namespace Wiring.Script

/-! ## Blanks and comments -/

/-- Within a line a comment runs to the end, unless a carriage return stops it. -/
theorem afterComment_of_line {cs : List Char} (hline : '\n' ∉ cs) :
    afterComment cs = if '\r' ∈ cs then none else some [] := by
  fun_induction afterComment cs with
  | case1 => simp
  | case2 => simp at hline
  | case3 => simp at hline
  | case4 => simp
  | case5 c rest hc _ hcr ih =>
    simp only [List.mem_cons, not_or] at hline
    have hne : '\r' ≠ c := fun heq => by simpa using hcr heq.symm
    simp [ih hline.2, hne]

theorem skipTrivia_space (cs : List Char) : skipTrivia (' ' :: cs) = skipTrivia cs := by
  rw [skipTrivia]

theorem skipTrivia_tab (cs : List Char) : skipTrivia ('\t' :: cs) = skipTrivia cs := by
  rw [skipTrivia]

/-- What neither is a blank nor looks like a comment stays. -/
theorem skipTrivia_eq_self {c : Char} {cs : List Char} (hspace : c ≠ ' ') (htab : c ≠ '\t')
    (hslashes : ¬ ['/', '/'] <+: c :: cs) : skipTrivia (c :: cs) = c :: cs := by
  rw [skipTrivia]
  · intro rest heq
    exact hspace (List.cons.inj heq).1
  · intro rest heq
    exact htab (List.cons.inj heq).1
  · intro rest heq
    exact hslashes ⟨rest, heq.symm⟩

/-- Two slashes before a carriage return of the line stay. -/
theorem skipTrivia_slashes {cs : List Char} (hline : '\n' ∉ cs) (hcr : '\r' ∈ cs) :
    skipTrivia ('/' :: '/' :: cs) = '/' :: '/' :: cs := by
  rw [skipTrivia, afterComment_of_line hline, if_pos hcr, Option.getD_none]

/-- Nothing but blanks and comments is skipped. -/
theorem mem_of_mem_skipTrivia {cs : List Char} (hline : '\n' ∉ cs) {c : Char}
    (hc : c ∈ skipTrivia cs) : c ∈ cs := by
  fun_induction skipTrivia cs with
  | case1 rest ih => exact List.mem_cons_of_mem _ (ih (by simp_all) hc)
  | case2 rest ih => exact List.mem_cons_of_mem _ (ih (by simp_all) hc)
  | case3 rest =>
    have hrest : '\n' ∉ rest := by simp_all
    rw [afterComment_of_line hrest] at hc
    split at hc <;> simp_all
  | case4 cs => exact hc

/-- A carriage return in a line is never skipped. -/
theorem carriageReturn_mem_skipTrivia {cs : List Char} (hline : '\n' ∉ cs)
    (hcr : '\r' ∈ cs) : '\r' ∈ skipTrivia cs := by
  fun_induction skipTrivia cs with
  | case1 rest ih => exact ih (by simp_all) (by simpa using hcr)
  | case2 rest ih => exact ih (by simp_all) (by simpa using hcr)
  | case3 rest =>
    have hrest : '\n' ∉ rest := by simp_all
    have hcr' : '\r' ∈ rest := by simpa using hcr
    rw [afterComment_of_line hrest, if_pos hcr', Option.getD_none]
    exact hcr
  | case4 cs => exact hcr

/-- Two slashes are left at the front only when a carriage return follows. -/
theorem carriageReturn_of_slashes {cs : List Char} (hline : '\n' ∉ cs)
    (hslashes : ['/', '/'] <+: skipTrivia cs) : '\r' ∈ skipTrivia cs := by
  fun_induction skipTrivia cs with
  | case1 rest ih => exact ih (by simp_all) hslashes
  | case2 rest ih => exact ih (by simp_all) hslashes
  | case3 rest =>
    have hrest : '\n' ∉ rest := by simp_all
    rw [afterComment_of_line hrest] at hslashes ⊢
    split at hslashes
    · rename_i hcr
      simp [hcr]
    · simp at hslashes
  | case4 cs _ _ hno =>
    obtain ⟨rest, rfl⟩ := hslashes
    exact absurd rfl (hno rest)

/-! ## String literals -/

theorem readLiteral_cons {c : Char} (hquote : c ≠ '"') (hslash : c ≠ '\\') (cs : List Char) :
    readLiteral (c :: cs) = (readLiteral cs).map fun (value, rest) => (c :: value, rest) := by
  rw [readLiteral] <;> simp_all

/-- A value is read back from its escaped form. -/
theorem readLiteral_escape (value rest : List Char) :
    readLiteral (escape value ++ '"' :: rest) = some (value, rest) := by
  induction value with
  | nil => simp [escape, readLiteral]
  | cons c value ih =>
    have hcons : escape (c :: value) ++ '"' :: rest =
        escapeChar c ++ (escape value ++ '"' :: rest) := by
      simp [escape]
    rw [hcons, escapeChar]
    -- One case for each of the four characters that are escaped, and one for the others.
    split
    · rename_i hc
      simp [readLiteral, ih, hc]
    split
    · rename_i hc
      simp [readLiteral, ih, hc]
    split
    · rename_i hc
      simp [readLiteral, ih, hc]
    split
    · rename_i hc
      simp [readLiteral, ih, hc]
    · rename_i hslash hquote _ _
      rw [List.singleton_append, readLiteral_cons hquote hslash, ih]
      rfl

/-- A literal runs to its closing quote whatever follows, and no carriage return in it is
lost. -/
theorem readLiteral_eq_some {cs value rest : List Char}
    (h : readLiteral cs = some (value, rest)) :
    ∃ body, cs = body ++ '"' :: rest ∧ ('\r' ∈ body → '\r' ∈ value) ∧
      ∀ rest', readLiteral (body ++ '"' :: rest') = some (value, rest') := by
  fun_induction readLiteral cs generalizing value rest with
  | case1 => simp at h
  | case2 rest' =>
    obtain ⟨rfl, rfl⟩ : [] = value ∧ rest' = rest := by simpa using h
    exact ⟨[], rfl, by simp, fun _ => rfl⟩
  | case3 => simp at h
  | case4 _ ih | case5 _ ih | case6 _ ih | case7 _ ih =>
    -- A known escape: its two characters stand for one, and neither is a carriage return.
    simp only [Option.map_eq_some_iff, Prod.mk.injEq, Prod.exists] at h
    obtain ⟨value', rest', hrest, rfl, rfl⟩ := h
    obtain ⟨body, rfl, hbody, hagain⟩ := ih hrest
    refine ⟨_ :: _ :: body, rfl, fun hcr => ?_, fun rest'' => ?_⟩
    · exact List.mem_cons_of_mem _ (hbody (by simpa using hcr))
    · simp [readLiteral, hagain]
  | case8 c cs hn ht hslash hquote ih =>
    -- An unknown escape stands for itself, backslash and all.
    simp only [Option.map_eq_some_iff, Prod.mk.injEq, Prod.exists] at h
    obtain ⟨value', rest', hrest, rfl, rfl⟩ := h
    obtain ⟨body, rfl, hbody, hagain⟩ := ih hrest
    refine ⟨_ :: _ :: body, rfl, fun hcr => ?_, fun rest'' => ?_⟩
    · simp only [List.mem_cons] at hcr ⊢
      exact hcr.imp_right (Or.imp_right hbody)
    · simp only [List.cons_append]
      rw [readLiteral.eq_8 _ _ hn ht hslash hquote, hagain]
      rfl
  | case9 c cs hquote _ _ _ _ _ hslash ih =>
    simp only [Option.map_eq_some_iff, Prod.mk.injEq, Prod.exists] at h
    obtain ⟨value', rest', hrest, rfl, rfl⟩ := h
    obtain ⟨body, rfl, hbody, hagain⟩ := ih hrest
    refine ⟨_ :: body, rfl, fun hcr => ?_, fun rest'' => ?_⟩
    · simp only [List.mem_cons] at hcr ⊢
      exact hcr.imp_right hbody
    · -- More of the line follows, so a backslash would have begun an escape.
      have hne : c ≠ '\\' := by
        rintro rfl
        cases body with
        | nil => exact hslash _ _ rfl rfl
        | cons d body => exact hslash _ _ rfl rfl
      rw [List.cons_append, readLiteral_cons hquote hne, hagain]
      rfl

/-! ## One token -/

/-- No word can go on here. -/
def EndsWord (rest : List Char) : Prop := ∀ c ∈ rest.head?, isWordChar c = false

theorem endsWord_nil : EndsWord [] := by
  intro c hc
  simp at hc

theorem endsWord_cons {c : Char} (hc : isWordChar c = false) (rest : List Char) :
    EndsWord (c :: rest) := by
  intro d hd
  obtain rfl : c = d := by simpa using hd
  exact hc

theorem endsWord_dropWhile (cs : List Char) : EndsWord (cs.dropWhile isWordChar) := by
  intro c hc
  have hhead := List.head?_dropWhile_not isWordChar cs
  rw [Option.mem_def.1 hc] at hhead
  exact hhead

theorem readToken_literal {cs value rest : List Char}
    (h : readLiteral cs = some (value, rest)) :
    readToken ('"' :: cs) = .ok (some (.literal (String.ofList value), rest)) := by
  simp [readToken, h]

theorem readToken_colon (cs : List Char) : readToken (':' :: cs) = .ok (some (.colon, cs)) := by
  simp [readToken]

theorem readToken_equals (cs : List Char) :
    readToken ('=' :: cs) = .ok (some (.equals, cs)) := by
  simp [readToken]

/-- A word ends where the word characters end. -/
theorem readToken_word {s : String} (hs : IsWord s) {rest : List Char}
    (hend : EndsWord rest) :
    readToken (s.toList ++ rest) = .ok (some (Token.ofWord s, rest)) := by
  cases hlist : s.toList with
  | nil => exact absurd hlist hs.toList_ne_nil
  | cons c cs =>
    have hall : ∀ d ∈ c :: cs, isWordChar d = true := hlist ▸ hs.2
    have hc : isWordChar c = true := hall c (List.mem_cons_self ..)
    have hcs : ∀ d ∈ cs, isWordChar d = true := fun d hd => hall d (List.mem_cons_of_mem _ hd)
    have htake : (cs ++ rest).takeWhile isWordChar = cs := by
      rw [List.takeWhile_append_of_pos hcs]
      cases rest with
      | nil => simp
      | cons d rest => simp [hend d rfl]
    have hdrop : (cs ++ rest).dropWhile isWordChar = rest := by
      rw [List.dropWhile_append_of_pos hcs]
      cases rest with
      | nil => simp
      | cons d rest => simp [hend d rfl]
    have hquote : c ≠ '"' := by rintro rfl; simp [isWordChar] at hc
    have hcolon : c ≠ ':' := by rintro rfl; simp [isWordChar] at hc
    have hequals : c ≠ '=' := by rintro rfl; simp [isWordChar] at hc
    rw [List.cons_append, readToken, if_neg hquote, if_neg hcolon, if_neg hequals, if_pos hc,
      htake, hdrop, ← hlist, String.ofList_toList]

/-- No token means that there is nothing to read. -/
theorem readToken_eq_none {cs : List Char} (h : readToken cs = .ok none) : cs = [] := by
  cases cs with
  | nil => rfl
  | cons c cs =>
    simp only [readToken] at h
    split at h
    · split at h <;> simp at h
    · split at h
      · simp at h
      · split at h
        · simp at h
        · split at h <;> simp at h

/-- A token is a literal, a mark, or a word that ends where the word characters end. -/
theorem readToken_eq_some {cs rest : List Char} {token : Token}
    (h : readToken cs = .ok (some (token, rest))) :
    (∃ value, token = .literal (String.ofList value) ∧
        ∃ cs', cs = '"' :: cs' ∧ readLiteral cs' = some (value, rest)) ∨
      (token = .colon ∧ cs = ':' :: rest) ∨
      (token = .equals ∧ cs = '=' :: rest) ∨
      ∃ s, token = Token.ofWord s ∧ IsWord s ∧ cs = s.toList ++ rest ∧ EndsWord rest := by
  cases cs with
  | nil => simp [readToken] at h
  | cons c cs =>
    simp only [readToken] at h
    split at h
    · rename_i hc
      split at h
      · simp at h
      · rename_i value after hread
        obtain ⟨rfl, rfl⟩ : _ = token ∧ after = rest := by simpa using h
        exact Or.inl ⟨value, rfl, cs, by rw [hc], hread⟩
    split at h
    · rename_i hc
      obtain ⟨rfl, rfl⟩ : _ = token ∧ cs = rest := by simpa using h
      exact Or.inr (Or.inl ⟨rfl, by rw [hc]⟩)
    split at h
    · rename_i hc
      obtain ⟨rfl, rfl⟩ : _ = token ∧ cs = rest := by simpa using h
      exact Or.inr (Or.inr (Or.inl ⟨rfl, by rw [hc]⟩))
    split at h
    · rename_i hc
      simp only [Except.ok.injEq, Option.some.injEq, Prod.mk.injEq] at h
      obtain ⟨rfl, rfl⟩ := h
      refine Or.inr (Or.inr (Or.inr ⟨_, rfl, ⟨by simp, fun d hd => ?_⟩, ?_,
        endsWord_dropWhile cs⟩))
      · rw [String.toList_ofList, List.mem_cons] at hd
        rcases hd with rfl | hd
        · exact hc
        · exact List.all_eq_true.1 List.all_takeWhile d hd
      · rw [String.toList_ofList, List.cons_append, List.takeWhile_append_dropWhile]
    · simp at h

/-! ## All tokens -/

theorem tokens_of_nextToken_none {cs : List Char} (h : nextToken cs = .ok none) :
    tokens cs = .ok [] := by
  rw [tokens]
  split <;> simp_all

theorem tokens_of_nextToken_some {cs rest : List Char} {token : Token}
    (h : nextToken cs = .ok (some (token, rest))) :
    tokens cs = (tokens rest).map (token :: ·) := by
  rw [tokens]
  split
  · simp_all
  · simp_all
  · rename_i token' rest' h'
    rw [h] at h'
    obtain ⟨rfl, rfl⟩ : token = token' ∧ rest = rest' := by simpa using h'
    cases tokens rest <;> rfl

theorem tokens_of_nextToken_error {cs : List Char} {fault : ScriptFault}
    (h : nextToken cs = .error fault) : tokens cs = .error fault := by
  rw [tokens]
  split <;> simp_all

theorem tokens_eq_ok_cons {cs : List Char} {token : Token} {others : List Token} :
    tokens cs = .ok (token :: others) ↔
      ∃ rest, nextToken cs = .ok (some (token, rest)) ∧ tokens rest = .ok others := by
  constructor
  · intro h
    cases hnext : nextToken cs with
    | error fault => simp [tokens_of_nextToken_error hnext] at h
    | ok next =>
      cases next with
      | none => simp [tokens_of_nextToken_none hnext] at h
      | some pair =>
        obtain ⟨token', rest⟩ := pair
        rw [tokens_of_nextToken_some hnext] at h
        cases hrest : tokens rest with
        | error fault => simp [hrest, Except.map] at h
        | ok others' =>
          obtain ⟨rfl, rfl⟩ : token' = token ∧ others' = others := by
            simpa [hrest, Except.map] using h
          exact ⟨rest, rfl, hrest⟩
  · rintro ⟨rest, hnext, hrest⟩
    rw [tokens_of_nextToken_some hnext, hrest]
    rfl

theorem tokens_eq_ok_nil {cs : List Char} :
    tokens cs = .ok [] ↔ nextToken cs = .ok none := by
  constructor
  · intro h
    cases hnext : nextToken cs with
    | error fault => simp [tokens_of_nextToken_error hnext] at h
    | ok next =>
      cases next with
      | none => rfl
      | some pair =>
        obtain ⟨token', rest⟩ := pair
        rw [tokens_of_nextToken_some hnext] at h
        cases hrest : tokens rest <;> simp [hrest, Except.map] at h
  · exact tokens_of_nextToken_none

/-- What is skipped at the beginning does not count. -/
theorem tokens_of_skipTrivia {cs ds : List Char} (hskip : skipTrivia cs = skipTrivia ds) :
    tokens cs = tokens ds := by
  have hnext : nextToken cs = nextToken ds := by rw [nextToken, hskip, nextToken]
  cases h : nextToken ds with
  | error fault =>
    rw [tokens_of_nextToken_error h, tokens_of_nextToken_error (hnext.trans h)]
  | ok next =>
    cases next with
    | none => rw [tokens_of_nextToken_none h, tokens_of_nextToken_none (hnext.trans h)]
    | some pair =>
      rw [tokens_of_nextToken_some h, tokens_of_nextToken_some (hnext.trans h)]

/-- What holds of a line without tokens, and of a line with one token more than the
rest of it, holds of every line that is read. -/
theorem tokens_induction {motive : List Char → List Token → Prop}
    (hnil : ∀ cs, nextToken cs = .ok none → motive cs [])
    (hcons : ∀ cs token rest others, nextToken cs = .ok (some (token, rest)) →
      motive rest others → motive cs (token :: others))
    {cs : List Char} {ts : List Token} (h : tokens cs = .ok ts) : motive cs ts := by
  induction ts generalizing cs with
  | nil => exact hnil cs (tokens_eq_ok_nil.1 h)
  | cons token others ih =>
    obtain ⟨rest, hnext, hrest⟩ := tokens_eq_ok_cons.1 h
    exact hcons cs token rest others hnext (ih hrest)

/-! ## What was read stood in the line -/

/-- Every word that was read is a word and no keyword. -/
theorem isWord_of_tokens {cs : List Char} {ts : List Token} (h : tokens cs = .ok ts) :
    ∀ w, .word w ∈ ts → IsWord w ∧ w ∉ keywords := by
  refine tokens_induction (motive := fun _ ts => ∀ w, .word w ∈ ts → IsWord w ∧ w ∉ keywords)
    ?_ ?_ h
  · intro cs _ w hw
    simp at hw
  · intro cs token rest others hnext ih w hw
    rcases List.mem_cons.1 hw with hw | hw
    · subst hw
      obtain ⟨_, hlit, _⟩ | ⟨hcolon, _⟩ | ⟨hequals, _⟩ | ⟨s, hs, hword, _⟩ :=
        readToken_eq_some hnext
      · simp at hlit
      · simp at hcolon
      · simp at hequals
      · obtain ⟨rfl, hkeyword⟩ := ofWord_eq_word_iff.1 hs.symm
        exact ⟨hword, hkeyword⟩
    · exact ih w hw

/-- The characters behind a token stood in the line. -/
theorem mem_of_mem_rest {cs rest : List Char} {token : Token} (hline : '\n' ∉ cs)
    (h : nextToken cs = .ok (some (token, rest))) {c : Char} (hc : c ∈ rest) : c ∈ cs := by
  refine mem_of_mem_skipTrivia hline ?_
  obtain ⟨value, -, cs', hcs, hread⟩ | ⟨-, hcs⟩ | ⟨-, hcs⟩ | ⟨s, -, -, hcs, -⟩ :=
    readToken_eq_some h
  · obtain ⟨body, rfl, -⟩ := readLiteral_eq_some hread
    simp [hcs, hc]
  · simp [hcs, hc]
  · simp [hcs, hc]
  · simp [hcs, hc]

/-- A carriage return is read into a literal or left for later tokens. -/
theorem carriageReturn_of_nextToken {cs rest : List Char} {token : Token} (hline : '\n' ∉ cs)
    (h : nextToken cs = .ok (some (token, rest))) (hcr : '\r' ∈ cs) :
    (∃ value, token = .literal value ∧ '\r' ∈ value.toList) ∨ '\r' ∈ rest := by
  have hskip := carriageReturn_mem_skipTrivia hline hcr
  obtain ⟨value, rfl, cs', hcs, hread⟩ | ⟨-, hcs⟩ | ⟨-, hcs⟩ | ⟨s, -, hword, hcs, -⟩ :=
    readToken_eq_some h
  · obtain ⟨body, rfl, hbody, -⟩ := readLiteral_eq_some hread
    have hmem : '\r' ∈ body ∨ '\r' ∈ rest := by simpa [hcs] using hskip
    exact hmem.imp_left fun hcr => ⟨_, rfl, by simpa using hbody hcr⟩
  · exact Or.inr (by simpa [hcs] using hskip)
  · exact Or.inr (by simpa [hcs] using hskip)
  · rw [hcs, List.mem_append] at hskip
    exact Or.inr (hskip.resolve_left (hword.notMem_of_not_isWordChar (by decide)))

/-- A word that begins with two slashes is read only before a carriage return. -/
theorem carriageReturn_of_slashes_word {cs rest : List Char} {w : String}
    (hline : '\n' ∉ cs) (h : nextToken cs = .ok (some (.word w, rest)))
    (hslashes : BeginsComment w) : '\r' ∈ rest := by
  obtain ⟨_, hlit, _⟩ | ⟨hcolon, _⟩ | ⟨hequals, _⟩ | ⟨s, hs, hword, hcs, -⟩ :=
    readToken_eq_some h
  · simp at hlit
  · simp at hcolon
  · simp at hequals
  · obtain ⟨rfl, -⟩ := ofWord_eq_word_iff.1 hs.symm
    have hfront : ['/', '/'] <+: skipTrivia cs := by
      rw [hcs]
      exact hslashes.trans (List.prefix_append _ _)
    have hcr := carriageReturn_of_slashes hline hfront
    rw [hcs, List.mem_append] at hcr
    exact hcr.resolve_left (hword.notMem_of_not_isWordChar (by decide))

/-- A carriage return inside a line is part of a literal. -/
theorem literal_of_carriageReturn {cs : List Char} {ts : List Token}
    (h : tokens cs = .ok ts) (hline : '\n' ∉ cs) (hcr : '\r' ∈ cs) :
    ∃ value, .literal value ∈ ts ∧ '\r' ∈ value.toList := by
  revert hline hcr
  refine tokens_induction (motive := fun cs ts => '\n' ∉ cs → '\r' ∈ cs →
    ∃ value, .literal value ∈ ts ∧ '\r' ∈ value.toList) ?_ ?_ h
  · intro cs hnext hline hcr
    -- Without a token nothing is left behind the blanks, so there is no carriage return.
    have hskip := carriageReturn_mem_skipTrivia hline hcr
    rw [readToken_eq_none hnext] at hskip
    simp at hskip
  · intro cs token rest others hnext ih hline hcr
    obtain ⟨value, rfl, hvalue⟩ | hrest := carriageReturn_of_nextToken hline hnext hcr
    · exact ⟨value, List.mem_cons_self .., hvalue⟩
    · have hline' : '\n' ∉ rest := fun hmem => hline (mem_of_mem_rest hline hnext hmem)
      obtain ⟨value, hmem, hvalue⟩ := ih hline' hrest
      exact ⟨value, List.mem_cons_of_mem _ hmem, hvalue⟩

/-- A line with a word that begins with two slashes has a literal with a carriage
return. -/
theorem literal_of_slashes {cs : List Char} {ts : List Token} {w : String}
    (h : tokens cs = .ok ts) (hline : '\n' ∉ cs) (hw : .word w ∈ ts)
    (hslashes : BeginsComment w) :
    ∃ value, .literal value ∈ ts ∧ '\r' ∈ value.toList := by
  induction ts generalizing cs with
  | nil => simp at hw
  | cons token others ih =>
    obtain ⟨rest, hnext, hrest⟩ := tokens_eq_ok_cons.1 h
    have hline' : '\n' ∉ rest := fun hmem => hline (mem_of_mem_rest hline hnext hmem)
    have htail : ∃ value, .literal value ∈ others ∧ '\r' ∈ value.toList := by
      rcases List.mem_cons.1 hw with rfl | hw
      · -- What stopped the comment is read later, and only a literal can hold it.
        have hcr := carriageReturn_of_slashes_word hline hnext hslashes
        exact literal_of_carriageReturn hrest hline' hcr
      · exact ih hrest hline' hw
    obtain ⟨value, hmem, hvalue⟩ := htail
    exact ⟨value, List.mem_cons_of_mem _ hmem, hvalue⟩

/-! ## Lines from their parts -/

theorem tokens_nil : tokens [] = .ok [] := tokens_of_nextToken_none rfl

theorem tokens_space (cs : List Char) : tokens (' ' :: cs) = tokens cs :=
  tokens_of_skipTrivia (skipTrivia_space cs)

theorem tokens_colon (cs : List Char) : tokens (':' :: cs) = (tokens cs).map (.colon :: ·) := by
  have hskip : skipTrivia (':' :: cs) = ':' :: cs :=
    skipTrivia_eq_self (by decide) (by decide) (by simp [List.cons_prefix_cons])
  exact tokens_of_nextToken_some (by rw [nextToken, hskip, readToken_colon])

theorem tokens_equals (cs : List Char) :
    tokens ('=' :: cs) = (tokens cs).map (.equals :: ·) := by
  have hskip : skipTrivia ('=' :: cs) = '=' :: cs :=
    skipTrivia_eq_self (by decide) (by decide) (by simp [List.cons_prefix_cons])
  exact tokens_of_nextToken_some (by rw [nextToken, hskip, readToken_equals])

theorem tokens_literal (value rest : List Char) :
    tokens ('"' :: (escape value ++ '"' :: rest)) =
      (tokens rest).map (.literal (String.ofList value) :: ·) := by
  have hskip : ∀ cs, skipTrivia ('"' :: cs) = '"' :: cs := fun cs =>
    skipTrivia_eq_self (by decide) (by decide) (by simp [List.cons_prefix_cons])
  refine tokens_of_nextToken_some ?_
  rw [nextToken, hskip, readToken_literal (readLiteral_escape value rest)]

/-- A word in front is read when nothing of it is skipped. -/
theorem tokens_word {s : String} {rest : List Char} (hs : IsWord s)
    (hfront : skipTrivia (s.toList ++ rest) = s.toList ++ rest)
    (hend : EndsWord rest) :
    tokens (s.toList ++ rest) = (tokens rest).map (Token.ofWord s :: ·) :=
  tokens_of_nextToken_some (by rw [nextToken, hfront, readToken_word hs hend])

/-- Nothing is skipped in front of a word that does not look like a comment. -/
theorem skipTrivia_word {s : String} {rest : List Char} (hs : IsWord s)
    (hslashes : ¬ BeginsComment s) (hend : EndsWord rest) :
    skipTrivia (s.toList ++ rest) = s.toList ++ rest := by
  obtain ⟨c, cs, hlist⟩ := List.exists_cons_of_ne_nil hs.toList_ne_nil
  have hc : isWordChar c = true := hs.2 c (by simp [hlist])
  have hslashes' : ¬ ['/', '/'] <+: c :: cs := hlist ▸ hslashes
  rw [hlist, List.cons_append]
  refine skipTrivia_eq_self ?_ ?_ fun hfront => ?_
  · rintro rfl
    exact absurd hc (by decide)
  · rintro rfl
    exact absurd hc (by decide)
  · -- The second slash is a word character, so it belongs to the word as well.
    cases cs with
    | nil =>
      cases rest with
      | nil => simp [List.cons_prefix_cons] at hfront
      | cons d rest =>
        have hd := hend d rfl
        simp only [List.nil_append, List.cons_prefix_cons] at hfront
        rw [← hfront.2.1] at hd
        exact absurd hd (by decide)
    | cons d cs =>
      refine hslashes' ?_
      simp only [List.cons_append, List.cons_prefix_cons] at hfront ⊢
      exact ⟨hfront.1, hfront.2.1, List.nil_prefix⟩

theorem tokens_bare {s : String} {rest : List Char} (hs : IsBare s)
    (hend : EndsWord rest) :
    tokens (s.toList ++ rest) = (tokens rest).map (.word s :: ·) := by
  have hfront := skipTrivia_word hs.isWord hs.noComment hend
  rw [tokens_word hs.isWord hfront hend, ofWord_of_notMem hs.noKeyword]

theorem tokens_keyword {s : String} {rest : List Char} (hs : s ∈ keywords) :
    tokens (s.toList ++ ' ' :: rest) = (tokens rest).map (Token.ofWord s :: ·) := by
  have hword : ∀ s ∈ keywords, IsWord s ∧ ¬ BeginsComment s := by decide
  have hend : EndsWord (' ' :: rest) := endsWord_cons (by decide) rest
  obtain ⟨hs, hslashes⟩ := hword s hs
  rw [tokens_word hs (skipTrivia_word hs hslashes hend) hend, tokens_space]

end Wiring.Script
