import Wiring.Proofs.Script.Reading

/-!
# Operations that a line can express

`Op.Expressible` says of each operation which names its line can carry.  It is
exact for one line: the line of an expressible operation is read back as that
operation, `parseLine_text`, and every operation that is read from any line is
expressible, `expressible_of_parseLine`.

The two directions meet in `expressible_iff`, which says the same in terms of the
tokens of the line.
-/

namespace Wiring

/-- The names of an operation are such that its line is read back as it is. -/
def Op.Expressible : Op → Prop
  | .addComponent path typeName =>
    Script.IsField path.node ∧ Script.IsField path.id ∧ ¬ Script.BeginsComment path.node ∧
      Script.IsBare typeName
  | .addChannel channel typeName =>
    Script.IsBare channel.name ∧ '.' ∉ channel.name.toList ∧ Script.IsBare typeName
  | .setAttribute path key value =>
    Script.IsField path.node ∧ Script.IsField path.id ∧ Script.IsWord key ∧
      (Script.BeginsComment path.node → '\r' ∈ value.toList)
  | .bind port channel =>
    Script.IsField port.component.node ∧ Script.IsField port.component.id ∧
      ¬ Script.BeginsComment port.component.node ∧ Script.IsWord port.port ∧
      Script.IsBare channel.name
  | .remove path =>
    Script.IsField path.node ∧ Script.IsField path.id ∧ ¬ Script.BeginsComment path.node

instance : (op : Op) → Decidable op.Expressible
  | .addComponent .. | .addChannel .. | .setAttribute .. | .bind .. | .remove .. =>
    instDecidableAnd

namespace Script

/-! ## Addresses as words -/

theorem text_ne_empty (path : ComponentPath) : path.text ≠ "" := by
  intro hnil
  have hdot := dot_mem_text path
  rw [hnil] at hdot
  simp at hdot

theorem isWord_text_iff {path : ComponentPath} (hpath : path.IsDotted) :
    IsWord path.text ↔ IsField path.node ∧ IsField path.id := by
  constructor
  · intro hword
    obtain ⟨hnode, hid⟩ := isWord_dot_iff.1 hword
    exact ⟨⟨⟨hpath.node_ne, hnode⟩, hpath.node_noDot⟩, ⟨hpath.id_ne, hid⟩, hpath.id_noDot⟩
  · rintro ⟨hnode, hid⟩
    exact isWord_dot_iff.2 ⟨hnode.isWord.2, hid.isWord.2⟩

theorem isWord_member_iff {path : ComponentPath} {member : String} (hpath : path.IsDotted)
    (hmember : member ≠ "") :
    IsWord (path.member member) ↔ IsField path.node ∧ IsField path.id ∧ IsWord member := by
  constructor
  · intro hword
    obtain ⟨htext, hmem⟩ := isWord_dot_iff.1 hword
    obtain ⟨hnode, hid⟩ := (isWord_text_iff hpath).1 ⟨text_ne_empty path, htext⟩
    exact ⟨hnode, hid, hmember, hmem⟩
  · rintro ⟨hnode, hid, hmem⟩
    exact isWord_dot_iff.2 ⟨((isWord_text_iff hpath).2 ⟨hnode, hid⟩).2, hmem.2⟩

theorem beginsComment_member_iff {path : ComponentPath} {member : String}
    (hnode : path.node ≠ "") :
    BeginsComment (path.member member) ↔ BeginsComment path.node :=
  (beginsComment_dot_iff (text_ne_empty path)).trans (beginsComment_dot_iff hnode)

theorem isBare_text_iff {path : ComponentPath} (hpath : path.IsDotted) :
    IsBare path.text ↔ IsField path.node ∧ IsField path.id ∧ ¬ BeginsComment path.node := by
  have hslashes := beginsComment_dot_iff (t := path.id) hpath.node_ne
  constructor
  · intro hbare
    obtain ⟨hnode, hid⟩ := (isWord_text_iff hpath).1 hbare.isWord
    exact ⟨hnode, hid, fun h => hbare.noComment (hslashes.2 h)⟩
  · rintro ⟨hnode, hid, hno⟩
    exact ⟨(isWord_text_iff hpath).2 ⟨hnode, hid⟩, fun h => hno (hslashes.1 h),
      dot_notMem_keywords⟩

theorem isBare_member_iff {path : ComponentPath} {member : String} (hpath : path.IsDotted)
    (hmember : member ≠ "") :
    IsBare (path.member member) ↔
      IsField path.node ∧ IsField path.id ∧ ¬ BeginsComment path.node ∧ IsWord member := by
  have hslashes : BeginsComment (path.member member) ↔ BeginsComment path.node :=
    beginsComment_member_iff hpath.node_ne
  constructor
  · intro hbare
    obtain ⟨hnode, hid, hmem⟩ := (isWord_member_iff hpath hmember).1 hbare.isWord
    exact ⟨hnode, hid, fun h => hbare.noComment (hslashes.2 h), hmem⟩
  · rintro ⟨hnode, hid, hno, hmem⟩
    exact ⟨(isWord_member_iff hpath hmember).2 ⟨hnode, hid, hmem⟩,
      fun h => hno (hslashes.1 h), dot_notMem_keywords⟩

/-! ## Expressible operations by their tokens -/

theorem isDotted_of_isField {path : ComponentPath} (hnode : IsField path.node)
    (hid : IsField path.id) : path.IsDotted :=
  ⟨hnode.isWord.1, hnode.noDot, hid.isWord.1, hid.noDot⟩

/-- A word that can stand in a line with some tokens: only a carriage return in a
literal lets it begin with two slashes. -/
structure Stands (ts : List Token) (w : String) : Prop where
  isWord : IsWord w
  noKeyword : w ∉ keywords
  literal : BeginsComment w → ∃ value, .literal value ∈ ts ∧ '\r' ∈ value.toList

theorem stands_iff_isBare {ts : List Token} (hno : ∀ value, .literal value ∉ ts)
    {w : String} : Stands ts w ↔ IsBare w := by
  constructor
  · intro h
    refine ⟨h.isWord, fun hslashes => ?_, h.noKeyword⟩
    obtain ⟨value, hmem, -⟩ := h.literal hslashes
    exact hno value hmem
  · intro h
    exact ⟨h.isWord, h.noKeyword, fun hslashes => absurd hslashes h.noComment⟩

/-- An operation is expressible when its dots separate fields and its words can stand
in its line. -/
theorem expressible_iff {op : Op} :
    op.Expressible ↔ op.IsDotted ∧ ∀ w, .word w ∈ op.tokens → Stands op.tokens w := by
  cases op with
  | addComponent path typeName =>
    have hno : ∀ value, .literal value ∉ (Op.addComponent path typeName).tokens := by
      simp [Op.tokens]
    simp only [stands_iff_isBare hno]
    constructor
    · rintro ⟨hnode, hid, hslashes, htype⟩
      have hpath := isDotted_of_isField hnode hid
      refine ⟨hpath, fun w hw => ?_⟩
      obtain rfl | rfl : w = path.text ∨ w = typeName := by simpa [Op.tokens] using hw
      · exact (isBare_text_iff hpath).2 ⟨hnode, hid, hslashes⟩
      · exact htype
    · rintro ⟨hpath, hwords⟩
      obtain ⟨hnode, hid, hslashes⟩ :=
        (isBare_text_iff hpath).1 (hwords path.text (by simp [Op.tokens]))
      exact ⟨hnode, hid, hslashes, hwords typeName (by simp [Op.tokens])⟩
  | addChannel channel typeName =>
    have hno : ∀ value, .literal value ∉ (Op.addChannel channel typeName).tokens := by
      simp [Op.tokens]
    simp only [stands_iff_isBare hno]
    constructor
    · rintro ⟨hname, hdot, htype⟩
      refine ⟨hdot, fun w hw => ?_⟩
      obtain rfl | rfl : w = channel.name ∨ w = typeName := by simpa [Op.tokens] using hw
      · exact hname
      · exact htype
    · rintro ⟨hdot, hwords⟩
      exact ⟨hwords channel.name (by simp [Op.tokens]), hdot,
        hwords typeName (by simp [Op.tokens])⟩
  | setAttribute path key value =>
    -- The only line with a literal, which can keep two slashes from being a comment.
    constructor
    · rintro ⟨hnode, hid, hkey, hslashes⟩
      have hpath := isDotted_of_isField hnode hid
      refine ⟨⟨hpath, hkey.1⟩, fun w hw => ?_⟩
      obtain rfl : w = path.member key := by simpa [Op.tokens] using hw
      refine ⟨(isWord_member_iff hpath hkey.1).2 ⟨hnode, hid, hkey⟩, dot_notMem_keywords,
        fun hcomment => ⟨value, by simp [Op.tokens], ?_⟩⟩
      exact hslashes ((beginsComment_member_iff hpath.node_ne).1 hcomment)
    · rintro ⟨⟨hpath, hkey⟩, hwords⟩
      have hstands := hwords (path.member key) (by simp [Op.tokens])
      obtain ⟨hnode, hid, hkey⟩ := (isWord_member_iff hpath hkey).1 hstands.isWord
      refine ⟨hnode, hid, hkey, fun hcomment => ?_⟩
      simpa [Op.tokens] using
        hstands.literal ((beginsComment_member_iff hpath.node_ne).2 hcomment)
  | bind port channel =>
    have hno : ∀ value, .literal value ∉ (Op.bind port channel).tokens := by
      simp [Op.tokens]
    simp only [stands_iff_isBare hno]
    constructor
    · rintro ⟨hnode, hid, hslashes, hport, hchannel⟩
      have hpath := isDotted_of_isField hnode hid
      refine ⟨⟨hpath, hport.1⟩, fun w hw => ?_⟩
      obtain rfl | rfl : w = port.text ∨ w = channel.name := by simpa [Op.tokens] using hw
      · exact (isBare_member_iff hpath hport.1).2 ⟨hnode, hid, hslashes, hport⟩
      · exact hchannel
    · rintro ⟨⟨hpath, hport⟩, hwords⟩
      obtain ⟨hnode, hid, hslashes, hport⟩ :=
        (isBare_member_iff hpath hport).1 (hwords port.text (by simp [Op.tokens]))
      exact ⟨hnode, hid, hslashes, hport, hwords channel.name (by simp [Op.tokens])⟩
  | remove path =>
    have hno : ∀ value, .literal value ∉ (Op.remove path).tokens := by
      simp [Op.tokens]
    simp only [stands_iff_isBare hno]
    constructor
    · rintro ⟨hnode, hid, hslashes⟩
      have hpath := isDotted_of_isField hnode hid
      refine ⟨hpath, fun w hw => ?_⟩
      obtain rfl : w = path.text := by simpa [Op.tokens] using hw
      exact (isBare_text_iff hpath).2 ⟨hnode, hid, hslashes⟩
    · rintro ⟨hpath, hwords⟩
      exact (isBare_text_iff hpath).1 (hwords path.text (by simp [Op.tokens]))

/-- Whatever operation was read from a line is expressible. -/
theorem expressible_of_parseLine {line : List Char} {op : Op} (hline : '\n' ∉ line)
    (h : parseLine line = .ok (some op)) : op.Expressible := by
  obtain ⟨htokens, hop⟩ := parseLine_eq_some_iff.1 h
  refine expressible_iff.2 ⟨hop, fun w hw => ?_⟩
  obtain ⟨hword, hkeyword⟩ := isWord_of_tokens htokens w hw
  exact ⟨hword, hkeyword, literal_of_slashes htokens hline hw⟩

end Script

end Wiring
