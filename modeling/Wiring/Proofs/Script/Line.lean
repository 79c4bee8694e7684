import Wiring.Proofs.Script.Expressible
import Wiring.Proofs.Text.Lines

/-!
# The line of an operation

The line that an operation is written as holds its tokens in order, `tokens_text`,
and it is one line of a text, `isLine_text`; both hold for every expressible
operation.  Line feeds of a value are escaped, and a carriage return of a value has
the closing quote behind it.
-/

namespace Wiring.Script

open Wiring.Text

/-! ## Tokens -/

theorem carriageReturn_mem_escape {value : List Char} (hcr : '\r' ∈ value) :
    '\r' ∈ escape value :=
  List.mem_flatMap.2 ⟨'\r', hcr, by decide⟩

theorem lineFeed_notMem_escape (value : List Char) : '\n' ∉ escape value := by
  intro hmem
  obtain ⟨c, -, hc⟩ := List.mem_flatMap.1 hmem
  -- Each of the four escapes is a backslash and a character that is no line feed.
  unfold escapeChar at hc
  split at hc
  · simp at hc
  split at hc
  · simp at hc
  split at hc
  · simp at hc
  split at hc
  · simp at hc
  · rename_i hne _
    exact hne (List.mem_singleton.1 hc).symm

theorem skipTrivia_word_of_carriageReturn {s : String} {rest : List Char}
    (hslashes : BeginsComment s) (hline : '\n' ∉ s.toList ++ rest) (hcr : '\r' ∈ rest) :
    skipTrivia (s.toList ++ rest) = s.toList ++ rest := by
  obtain ⟨tail, htail⟩ := hslashes
  have hlist : s.toList ++ rest = '/' :: '/' :: (tail ++ rest) := by simp [← htail]
  rw [hlist] at hline ⊢
  refine skipTrivia_slashes ?_ (List.mem_append_right _ hcr)
  exact fun hmem => hline (by simp [hmem])

theorem tokens_add {target typeName : String} (htarget : IsBare target)
    (htype : IsBare typeName) :
    tokens ("add " ++ target ++ " : " ++ typeName).toList =
      .ok [.add, .word target, .colon, .word typeName] := by
  have hline : ("add " ++ target ++ " : " ++ typeName).toList =
      "add".toList ++ ' ' :: (target.toList ++ ' ' :: ':' :: ' ' :: (typeName.toList ++ [])) := by
    simp
  rw [hline, tokens_keyword (by decide), tokens_bare htarget (endsWord_cons (by decide) _),
    tokens_space, tokens_colon, tokens_space, tokens_bare htype endsWord_nil, tokens_nil]
  rfl

theorem tokens_bind {target channel : String} (htarget : IsBare target)
    (hchannel : IsBare channel) :
    tokens ("bind " ++ target ++ " " ++ channel).toList =
      .ok [.bind, .word target, .word channel] := by
  have hline : ("bind " ++ target ++ " " ++ channel).toList =
      "bind".toList ++ ' ' :: (target.toList ++ ' ' :: (channel.toList ++ [])) := by
    simp
  rw [hline, tokens_keyword (by decide), tokens_bare htarget (endsWord_cons (by decide) _),
    tokens_space, tokens_bare hchannel endsWord_nil, tokens_nil]
  rfl

theorem tokens_remove {target : String} (htarget : IsBare target) :
    tokens ("remove " ++ target).toList = .ok [.remove, .word target] := by
  have hline : ("remove " ++ target).toList =
      "remove".toList ++ ' ' :: (target.toList ++ []) := by
    simp
  rw [hline, tokens_keyword (by decide), tokens_bare htarget endsWord_nil, tokens_nil]
  rfl

theorem tokens_set {target value : String} (htarget : IsWord target)
    (hkeyword : target ∉ keywords) (hslashes : BeginsComment target → '\r' ∈ value.toList) :
    tokens ("set " ++ target ++ " = \"" ++ String.ofList (escape value.toList) ++ "\"").toList =
      .ok [.set, .word target, .equals, .literal value] := by
  let rest := ' ' :: '=' :: ' ' :: '"' :: (escape value.toList ++ '"' :: [])
  have hline :
      ("set " ++ target ++ " = \"" ++ String.ofList (escape value.toList) ++ "\"").toList =
        "set".toList ++ ' ' :: (target.toList ++ rest) := by
    simp [rest]
  have hend : EndsWord rest := endsWord_cons (by decide) _
  have hnoFeed : '\n' ∉ target.toList ++ rest := by
    have hword := htarget.notMem_of_not_isWordChar (c := '\n') (by decide)
    have hvalue := lineFeed_notMem_escape value.toList
    simp [rest, hword, hvalue]
  -- The carriage return of the value stops the comment that the target looks like.
  have hfront : skipTrivia (target.toList ++ rest) = target.toList ++ rest := by
    by_cases hcomment : BeginsComment target
    · have hcr : '\r' ∈ rest := by
        have hvalue := carriageReturn_mem_escape (hslashes hcomment)
        simp [rest, hvalue]
      exact skipTrivia_word_of_carriageReturn hcomment hnoFeed hcr
    · exact skipTrivia_word htarget hcomment hend
  rw [hline, tokens_keyword (by decide), tokens_word htarget hfront hend,
    ofWord_of_notMem hkeyword, tokens_space, tokens_equals, tokens_space, tokens_literal,
    tokens_nil, String.ofList_toList]
  rfl

/-- The line of an expressible operation has the tokens of the operation. -/
theorem tokens_text {op : Op} (hop : op.Expressible) :
    tokens op.text.toList = .ok op.tokens := by
  obtain ⟨-, hwords⟩ := expressible_iff.1 hop
  have hbare : (∀ value, .literal value ∉ op.tokens) → ∀ w, .word w ∈ op.tokens → IsBare w :=
    fun hno w hw => (stands_iff_isBare hno).1 (hwords w hw)
  cases op with
  | addComponent path typeName =>
    have hbare := hbare (by simp [Op.tokens])
    exact tokens_add (hbare _ (by simp [Op.tokens])) (hbare _ (by simp [Op.tokens]))
  | addChannel channel typeName =>
    have hbare := hbare (by simp [Op.tokens])
    exact tokens_add (hbare _ (by simp [Op.tokens])) (hbare _ (by simp [Op.tokens]))
  | setAttribute path key value =>
    have hstands := hwords (path.member key) (by simp [Op.tokens])
    refine tokens_set hstands.isWord hstands.noKeyword fun hslashes => ?_
    simpa [Op.tokens] using hstands.literal hslashes
  | bind port channel =>
    have hbare := hbare (by simp [Op.tokens])
    exact tokens_bind (hbare _ (by simp [Op.tokens])) (hbare _ (by simp [Op.tokens]))
  | remove path =>
    have hbare := hbare (by simp [Op.tokens])
    exact tokens_remove (hbare _ (by simp [Op.tokens]))

/-- The line of an expressible operation is read back as the operation. -/
theorem parseLine_text {op : Op} (hop : op.Expressible) :
    parseLine op.text.toList = .ok (some op) :=
  parseLine_eq_some_iff.2 ⟨tokens_text hop, (expressible_iff.1 hop).1⟩

/-! ## One line -/

theorem isLine_concat {front : List Char} {c : Char} (hfront : '\n' ∉ front)
    (hfeed : c ≠ '\n') (hreturn : c ≠ '\r') : IsLine (front ++ [c]) := by
  refine ⟨?_, ?_⟩
  · simp [hfront, Ne.symm hfeed]
  · rw [List.getLast?_concat]
    simpa using hreturn

theorem isLine_append_word {front : List Char} {w : String} (hfront : '\n' ∉ front)
    (hw : IsWord w) : IsLine (front ++ w.toList) := by
  have hmem : ∀ c ∈ w.toList, c ≠ '\n' ∧ c ≠ '\r' := by
    intro c hc
    constructor <;> rintro rfl <;> exact absurd (hw.2 _ hc) (by decide)
  rcases List.eq_nil_or_concat w.toList with hnil | ⟨init, c, hlist⟩
  · exact absurd hnil hw.toList_ne_nil
  · rw [List.concat_eq_append] at hlist
    rw [hlist] at hmem ⊢
    have hinit : '\n' ∉ front ++ init := by
      simp only [List.mem_append, not_or]
      exact ⟨hfront, fun h => (hmem _ (by simp [h])).1 rfl⟩
    obtain ⟨hfeed, hreturn⟩ := hmem c (by simp)
    simpa using isLine_concat hinit hfeed hreturn

/-- The line of an expressible operation is one line. -/
theorem isLine_text {op : Op} (hop : op.Expressible) : IsLine op.text.toList := by
  obtain ⟨-, hwords⟩ := expressible_iff.1 hop
  have hword : ∀ w, .word w ∈ op.tokens → '\n' ∉ w.toList := fun w hw =>
    (hwords w hw).isWord.notMem_of_not_isWordChar (by decide)
  cases op with
  | addComponent path typeName =>
    have hpath := hword path.text (by simp [Op.tokens])
    have htype := (hwords typeName (by simp [Op.tokens])).isWord
    have hfront : '\n' ∉ ("add " ++ path.text ++ " : ").toList := by simp [hpath]
    simpa [Op.text] using isLine_append_word hfront htype
  | addChannel channel typeName =>
    have hname := hword channel.name (by simp [Op.tokens])
    have htype := (hwords typeName (by simp [Op.tokens])).isWord
    have hfront : '\n' ∉ ("add " ++ channel.name ++ " : ").toList := by simp [hname]
    simpa [Op.text] using isLine_append_word hfront htype
  | setAttribute path key value =>
    have hmember := hword (path.member key) (by simp [Op.tokens])
    -- The quote stands between a carriage return of the value and the end of the line.
    have hvalue := lineFeed_notMem_escape value.toList
    have hfront : '\n' ∉ ("set " ++ path.member key ++ " = \"" ++
        String.ofList (escape value.toList)).toList := by simp [hmember, hvalue]
    simpa [Op.text] using isLine_concat hfront (c := '"') (by decide) (by decide)
  | bind port channel =>
    have hport := hword port.text (by simp [Op.tokens])
    have hchannel := (hwords channel.name (by simp [Op.tokens])).isWord
    have hfront : '\n' ∉ ("bind " ++ port.text ++ " ").toList := by simp [hport]
    simpa [Op.text] using isLine_append_word hfront hchannel
  | remove path =>
    have hpath := (hwords path.text (by simp [Op.tokens])).isWord
    have hfront : '\n' ∉ "remove ".toList := by decide
    simpa [Op.text] using isLine_append_word hfront hpath

end Wiring.Script
