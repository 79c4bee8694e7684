import Wiring.Script.Scan

/-!
# Words of the script language

The names in a script line stand in words.  Which words a line can hold depends on
where they stand: a word that stands alone must be no keyword, and its first two
characters must not be two slashes, since those begin a comment.  A field of a
dotted address is a word without dots.
-/

namespace Wiring.Script

/-- The words that stand for something else. -/
def keywords : List String := ["add", "set", "bind", "remove"]

/-- A non-empty text of word characters. -/
def IsWord (s : String) : Prop := s ≠ "" ∧ ∀ c ∈ s.toList, isWordChar c = true

instance (s : String) : Decidable (IsWord s) :=
  decidable_of_iff (s ≠ "" ∧ s.toList.all isWordChar = true)
    (and_congr_right fun _ => List.all_eq_true)

/-- Whether two slashes stand at the beginning. -/
def BeginsComment (s : String) : Prop := ['/', '/'] <+: s.toList

instance (s : String) : Decidable (BeginsComment s) :=
  inferInstanceAs (Decidable (['/', '/'] <+: s.toList))

/-- A word that can stand alone between blanks: a channel or a type. -/
structure IsBare (s : String) : Prop where
  isWord : IsWord s
  noComment : ¬ BeginsComment s
  noKeyword : s ∉ keywords

instance (s : String) : Decidable (IsBare s) :=
  decidable_of_iff (IsWord s ∧ ¬ BeginsComment s ∧ s ∉ keywords)
    ⟨fun h => ⟨h.1, h.2.1, h.2.2⟩, fun h => ⟨h.isWord, h.noComment, h.noKeyword⟩⟩

/-- A word that can be a field of a dotted address: a node or a component id. -/
structure IsField (s : String) : Prop where
  isWord : IsWord s
  noDot : '.' ∉ s.toList

instance (s : String) : Decidable (IsField s) :=
  decidable_of_iff (IsWord s ∧ '.' ∉ s.toList)
    ⟨fun h => ⟨h.1, h.2⟩, fun h => ⟨h.isWord, h.noDot⟩⟩

/-! ## Words among characters -/

theorem IsWord.toList_ne_nil {s : String} (hs : IsWord s) : s.toList ≠ [] := by
  intro hnil
  exact hs.1 (String.toList_eq_nil_iff.1 hnil)

theorem IsWord.notMem_of_not_isWordChar {s : String} (hs : IsWord s) {c : Char}
    (hc : isWordChar c = false) : c ∉ s.toList := by
  intro hmem
  have hword := hs.2 c hmem
  rw [hc] at hword
  contradiction

/-- Two words around a dot are a word. -/
theorem isWord_dot_iff {s t : String} :
    IsWord (s ++ "." ++ t) ↔
      (∀ c ∈ s.toList, isWordChar c = true) ∧ ∀ c ∈ t.toList, isWordChar c = true := by
  have hdot : isWordChar '.' = true := by decide
  have hne : s ++ "." ++ t ≠ "" := by
    intro heq
    have hlist := congrArg String.toList heq
    simp at hlist
  constructor
  · rintro ⟨-, hall⟩
    constructor <;> intro c hc <;> exact hall c (by simp [hc])
  · rintro ⟨hs, ht⟩
    refine ⟨hne, fun c hc => ?_⟩
    simp only [String.toList_append, List.mem_append] at hc
    rcases hc with (hc | hc) | hc
    · exact hs c hc
    · have hc' : c = '.' := by simpa using hc
      exact hc' ▸ hdot
    · exact ht c hc

/-- A dotted address looks like a comment only if its first field does. -/
theorem beginsComment_dot_iff {s t : String} (hs : s ≠ "") :
    BeginsComment (s ++ "." ++ t) ↔ BeginsComment s := by
  unfold BeginsComment
  simp only [String.toList_append]
  have hne : s.toList ≠ [] := fun hnil => hs (String.toList_eq_nil_iff.1 hnil)
  -- The dot ends a first field of one character before a second slash can come.
  match hlist : s.toList with
  | [] => exact absurd hlist hne
  | [c] => simp [List.cons_prefix_cons]
  | c :: d :: rest => simp [List.cons_prefix_cons]

/-- A dotted address is no keyword. -/
theorem dot_notMem_keywords {s t : String} : s ++ "." ++ t ∉ keywords := by
  intro hmem
  have hdot : ∀ word ∈ keywords, '.' ∉ word.toList := by decide
  exact hdot _ hmem (by simp)

theorem ofWord_of_notMem {s : String} (hs : s ∉ keywords) : Token.ofWord s = .word s := by
  simp only [keywords, List.mem_cons, List.not_mem_nil, or_false, not_or] at hs
  obtain ⟨hadd, hset, hbind, hremove⟩ := hs
  simp [Token.ofWord, hadd, hset, hbind, hremove]

theorem ofWord_eq_word_iff {s t : String} :
    Token.ofWord s = .word t ↔ s = t ∧ s ∉ keywords := by
  constructor
  · intro h
    by_cases hs : s ∈ keywords
    · simp only [keywords, List.mem_cons, List.not_mem_nil, or_false] at hs
      rcases hs with rfl | rfl | rfl | rfl <;> simp [Token.ofWord] at h
    · rw [ofWord_of_notMem hs] at h
      exact ⟨Token.word.inj h, hs⟩
  · rintro ⟨rfl, hs⟩
    exact ofWord_of_notMem hs

end Wiring.Script
