import Wiring.Proofs.Script.RoundTrip

/-!
# Names that cannot end a word by themselves

The names of an operation are written into its line as they stand.  As long as none of them
has a blank or a line end in it, nothing in them can take the place of what comes after them:
whatever operation the line is read as is the operation itself, `eq_of_parseLine_text`.  The
line may still be unreadable, since names can have other characters that no word has.

So the text of such a script is read back as the script or not at all,
`eq_of_parseLines_text`.
-/

namespace Wiring

open Wiring.Text

namespace Script

/-- A character that stands between words or between lines. -/
def isSeparator (c : Char) : Bool := c = ' ' || c = '\t' || c = '\n' || c = '\r'

/-- Nothing in a text separates words. -/
def IsUnbroken (cs : List Char) : Prop := ∀ c ∈ cs, isSeparator c = false

instance (cs : List Char) : Decidable (IsUnbroken cs) :=
  decidable_of_iff ((cs.all fun c => !isSeparator c) = true) (by simp [IsUnbroken])

variable {z cs : List Char} {c : Char} {w : String} {ts : List Token}

theorem isUnbroken_append_iff : IsUnbroken (z ++ cs) ↔ IsUnbroken z ∧ IsUnbroken cs := by
  simp only [IsUnbroken, List.mem_append, or_imp, forall_and]

theorem isUnbroken_cons_iff :
    IsUnbroken (c :: cs) ↔ isSeparator c = false ∧ IsUnbroken cs :=
  List.forall_mem_cons

theorem IsUnbroken.notMem (h : IsUnbroken cs) (hc : isSeparator c = true) : c ∉ cs := by
  intro hmem
  rw [h c hmem] at hc
  exact Bool.false_ne_true hc

theorem IsUnbroken.lineFeed_notMem (h : IsUnbroken cs) : '\n' ∉ cs := h.notMem (by decide)

/-! ## What a token is read from -/

/-- When a line does not begin with a blank and is not all comment, its first token stands
right at the beginning. -/
theorem readToken_of_tokens {token : Token} (hc : isSeparator c = false)
    (hline : '\n' ∉ c :: cs) (h : tokens (c :: cs) = .ok (token :: ts)) :
    ∃ rest, readToken (c :: cs) = .ok (some (token, rest)) ∧ tokens rest = .ok ts := by
  obtain ⟨rest, hnext, hrest⟩ := tokens_eq_ok_cons.1 h
  have hskip : skipTrivia (c :: cs) = c :: cs := by
    by_cases hslashes : ['/', '/'] <+: c :: cs
    · obtain ⟨tail, htail⟩ := hslashes
      rw [← htail] at hline hnext ⊢
      have htail' : '\n' ∉ tail := fun hmem => hline (List.mem_append_right _ hmem)
      by_cases hcr : '\r' ∈ tail
      · exact skipTrivia_slashes htail' hcr
      · -- A comment has no tokens.
        have hnone : skipTrivia (['/', '/'] ++ tail) = [] := by
          rw [List.cons_append, List.singleton_append, skipTrivia, afterComment_of_line htail',
            if_neg hcr, Option.getD_some]
        rw [nextToken, hnone] at hnext
        simp [readToken] at hnext
    · refine skipTrivia_eq_self ?_ ?_ hslashes
      · rintro rfl
        simp [isSeparator] at hc
      · rintro rfl
        simp [isSeparator] at hc
  rw [nextToken, hskip] at hnext
  exact ⟨rest, hnext, hrest⟩

/-- A literal begins with a quote. -/
theorem quote_of_literal {value : String} (hc : isSeparator c = false) (hline : '\n' ∉ c :: cs)
    (h : tokens (c :: cs) = .ok (.literal value :: ts)) : c = '"' := by
  obtain ⟨rest, hread, -⟩ := readToken_of_tokens hc hline h
  obtain ⟨_, -, cs', hcs, -⟩ | ⟨hcolon, -⟩ | ⟨hequals, -⟩ | ⟨s, hs, -⟩ :=
    readToken_eq_some hread
  · exact (List.cons.inj hcs).1
  · simp at hcolon
  · simp at hequals
  · unfold Token.ofWord at hs
    repeat' split at hs
    all_goals simp at hs

/-- What is left of an unbroken text where a word has ended: nothing, or a mark or a literal
follows at once. -/
inductive Goes (cs : List Char) : List Char → List Token → Prop
  | ended {ts : List Token} (h : tokens cs = .ok ts) : Goes cs [] ts
  | literal {z : List Char} {value : String} {ts : List Token} :
    Goes cs ('"' :: z) (.literal value :: ts)
  | colon {z : List Char} {ts : List Token} (h : tokens (z ++ cs) = .ok ts) :
    Goes cs (':' :: z) (.colon :: ts)
  | equals {z : List Char} {ts : List Token} (h : tokens (z ++ cs) = .ok ts) :
    Goes cs ('=' :: z) (.equals :: ts)

theorem goes_of_endsWord (hz : IsUnbroken z) (hline : '\n' ∉ z ++ cs)
    (hend : EndsWord (z ++ cs)) (h : tokens (z ++ cs) = .ok ts) : Goes cs z ts := by
  cases z with
  | nil => exact .ended h
  | cons c z =>
    obtain ⟨hc, -⟩ := isUnbroken_cons_iff.1 hz
    have hword : isWordChar c = false := hend c rfl
    cases ts with
    | nil =>
      -- The mark is no blank and begins no comment.
      have hskip : skipTrivia (c :: (z ++ cs)) = c :: (z ++ cs) := by
        refine skipTrivia_eq_self ?_ ?_ fun hslashes => ?_
        · rintro rfl
          simp [isSeparator] at hc
        · rintro rfl
          simp [isSeparator] at hc
        · obtain rfl := (List.cons_prefix_cons.1 hslashes).1
          exact absurd hword (by decide)
      have hnone := readToken_eq_none (tokens_eq_ok_nil.1 h)
      exact absurd (hskip.symm.trans hnone) (List.cons_ne_nil _ _)
    | cons token ts =>
      obtain ⟨rest, hread, hrest⟩ := readToken_of_tokens hc hline h
      obtain ⟨value, rfl, cs', hcs, -⟩ | ⟨rfl, hcs⟩ | ⟨rfl, hcs⟩ | ⟨s, -, hs, hcs, -⟩ :=
        readToken_eq_some hread
      · obtain ⟨rfl, -⟩ := List.cons.inj hcs
        exact .literal
      · obtain ⟨rfl, rfl⟩ := List.cons.inj hcs
        exact .colon hrest
      · obtain ⟨rfl, rfl⟩ := List.cons.inj hcs
        exact .equals hrest
      · obtain ⟨d, tail, hlist⟩ := List.exists_cons_of_ne_nil hs.toList_ne_nil
        rw [hlist] at hcs
        obtain ⟨rfl, -⟩ := List.cons.inj hcs
        have hd := hs.2 c (hlist ▸ List.mem_cons_self)
        rw [hword] at hd
        exact absurd hd Bool.false_ne_true

/-- When a word is read first, it is the beginning of the unbroken text. -/
theorem goes_of_word (hz : IsUnbroken z) (hne : z ≠ []) (hend : EndsWord cs)
    (hline : '\n' ∉ z ++ cs) (h : tokens (z ++ cs) = .ok (.word w :: ts)) :
    ∃ z', z = w.toList ++ z' ∧ Goes cs z' ts := by
  obtain ⟨c, tail, rfl⟩ := List.exists_cons_of_ne_nil hne
  obtain ⟨rest, hread, hrest⟩ := readToken_of_tokens (isUnbroken_cons_iff.1 hz).1 hline h
  obtain ⟨_, hlit, -⟩ | ⟨hcolon, -⟩ | ⟨hequals, -⟩ | ⟨s, hs, hword, hcs, hends⟩ :=
    readToken_eq_some hread
  · simp at hlit
  · simp at hcolon
  · simp at hequals
  · obtain ⟨rfl, -⟩ := ofWord_eq_word_iff.1 hs.symm
    -- The word cannot go on behind the text.
    have hsplit : ∃ z', c :: tail = s.toList ++ z' ∧ rest = z' ++ cs := by
      have hsame : (c :: tail) ++ cs = s.toList ++ rest := hcs
      rcases List.append_eq_append_iff.1 hsame with ⟨more, hmore, hcs'⟩ | ⟨z', hz', hrest'⟩
      · cases more with
        | nil => exact ⟨[], by simpa using hmore.symm, hcs'.symm⟩
        | cons d more =>
          have hd : isWordChar d = true := hword.2 d (by rw [hmore]; simp)
          have hd' : isWordChar d = false := hend d (by rw [hcs']; rfl)
          rw [hd] at hd'
          exact absurd hd'.symm Bool.false_ne_true
      · exact ⟨z', hz', hrest'⟩
    obtain ⟨z', hz', rfl⟩ := hsplit
    rw [hz'] at hz hline
    have hline' : '\n' ∉ z' ++ cs := fun hmem => hline (by simp [List.mem_append.1 hmem])
    exact ⟨z', hz', goes_of_endsWord (isUnbroken_append_iff.1 hz).2 hline' hends hrest⟩

/-- A word that is all that is read is all that there is. -/
theorem eq_of_tokens_lone (hz : IsUnbroken z) (h : tokens z = .ok [.word w]) :
    w.toList = z := by
  have hne : z ≠ [] := by
    rintro rfl
    simp [tokens_nil] at h
  rw [← List.append_nil z] at h
  have hline : '\n' ∉ z ++ [] := by simpa using hz.lineFeed_notMem
  obtain ⟨z', rfl, hgoes⟩ := goes_of_word hz hne endsWord_nil hline h
  cases hgoes with
  | ended h => exact (List.append_nil _).symm

/-! ## The names in a line -/

theorem exists_of_map_cons {token : Token} {result : Except ScriptFault (List Token)}
    (h : result.map (token :: ·) = .ok ts) : ∃ others, ts = token :: others ∧
      result = .ok others := by
  obtain ⟨others, hothers, rfl⟩ := map_eq_ok_iff.1 h
  exact ⟨others, rfl, hothers⟩

variable {target name value : List Char} {x y : String}

theorem eq_of_tokens_add (htarget : IsUnbroken target) (hname : IsUnbroken name)
    (h : tokens (target ++ ' ' :: ':' :: ' ' :: name) = .ok [.word x, .colon, .word y]) :
    x.toList = target ∧ y.toList = name := by
  have hcolon : tokens (' ' :: ':' :: ' ' :: name) = (tokens name).map (.colon :: ·) := by
    rw [tokens_space, tokens_colon, tokens_space]
  have hline : '\n' ∉ ' ' :: ':' :: ' ' :: name := by simpa using hname.lineFeed_notMem
  have hne : target ≠ [] := by
    rintro rfl
    obtain ⟨others, heq, -⟩ := exists_of_map_cons (hcolon ▸ h)
    simp at heq
  have hend : EndsWord (' ' :: ':' :: ' ' :: name) := endsWord_cons (by decide) _
  obtain ⟨z, rfl, hgoes⟩ := goes_of_word htarget hne hend
    (by simpa using ⟨htarget.lineFeed_notMem, by simpa using hline⟩) h
  obtain ⟨-, hz⟩ := isUnbroken_append_iff.1 htarget
  cases hgoes with
  | ended h =>
    obtain ⟨others, heq, hothers⟩ := exists_of_map_cons (hcolon ▸ h)
    obtain rfl := (List.cons.inj heq).2
    exact ⟨(List.append_nil _).symm, eq_of_tokens_lone hname hothers⟩
  | @colon z' _ h =>
    -- The colon of the line would be left over.
    obtain ⟨-, hz'⟩ := isUnbroken_cons_iff.1 hz
    by_cases hnil : z' = []
    · subst hnil
      obtain ⟨others, heq, -⟩ := exists_of_map_cons (hcolon ▸ h)
      simp at heq
    · obtain ⟨z'', rfl, hgoes⟩ := goes_of_word hz' hnil hend
        (by simpa using ⟨hz'.lineFeed_notMem, by simpa using hline⟩) h
      cases hgoes with
      | ended h =>
        obtain ⟨others, heq, -⟩ := exists_of_map_cons (hcolon ▸ h)
        simp at heq

theorem eq_of_tokens_set (htarget : IsUnbroken target) (hquote : '"' ∉ target)
    {v : String} (h : tokens (target ++ ' ' :: '=' :: ' ' :: '"' :: (escape value ++ ['"'])) =
      .ok [.word x, .equals, .literal v]) : x.toList = target ∧ v.toList = value := by
  let rest := ' ' :: '=' :: ' ' :: '"' :: (escape value ++ ['"'])
  have hrest : tokens rest = .ok [.equals, .literal (String.ofList value)] := by
    rw [tokens_space, tokens_equals, tokens_space, tokens_literal, tokens_nil]
    rfl
  have hline : '\n' ∉ rest := by simpa [rest] using lineFeed_notMem_escape value
  have hne : target ≠ [] := by
    rintro rfl
    have hfront := hrest.symm.trans h
    simp at hfront
  have hend : EndsWord rest := endsWord_cons (by decide) _
  obtain ⟨z, rfl, hgoes⟩ := goes_of_word htarget hne hend
    (List.not_mem_append htarget.lineFeed_notMem hline) h
  obtain ⟨-, hz⟩ := isUnbroken_append_iff.1 htarget
  cases hgoes with
  | ended h =>
    have hv : String.ofList value = v := by simpa using hrest.symm.trans h
    exact ⟨(List.append_nil _).symm, by simp [← hv]⟩
  | @equals z' _ h =>
    -- A value would have to begin in the target.
    obtain ⟨-, hz'⟩ := isUnbroken_cons_iff.1 hz
    cases z' with
    | nil =>
      have hfront := hrest.symm.trans h
      simp at hfront
    | cons c z' =>
      obtain rfl := quote_of_literal (isUnbroken_cons_iff.1 hz').1
        (List.not_mem_append hz'.lineFeed_notMem hline) h
      exact absurd (by simp) hquote

theorem eq_of_tokens_bind (htarget : IsUnbroken target) (hne : target ≠ [])
    (hname : IsUnbroken name)
    (h : tokens (target ++ ' ' :: name) = .ok [.word x, .word y]) :
    x.toList = target ∧ y.toList = name := by
  have hline : '\n' ∉ ' ' :: name := by simpa using hname.lineFeed_notMem
  obtain ⟨z, rfl, hgoes⟩ := goes_of_word htarget hne (endsWord_cons (by decide) _)
    (List.not_mem_append htarget.lineFeed_notMem hline) h
  cases hgoes with
  | ended h =>
    rw [tokens_space] at h
    exact ⟨(List.append_nil _).symm, eq_of_tokens_lone hname h⟩

end Script

/-! ## Operations -/

/-- The names of an operation hold no separators, and its dots and quotes stand where they
belong. -/
def Op.IsUnbroken : Op → Prop
  | .addComponent path typeName =>
    '.' ∉ path.node.toList ∧ Script.IsUnbroken path.text.toList ∧
      Script.IsUnbroken typeName.toList
  | .addChannel channel typeName =>
    '.' ∉ channel.name.toList ∧ Script.IsUnbroken channel.name.toList ∧
      Script.IsUnbroken typeName.toList
  | .setAttribute path key _ =>
    '.' ∉ path.node.toList ∧ '.' ∉ path.id.toList ∧
      Script.IsUnbroken (path.member key).toList ∧ '"' ∉ (path.member key).toList
  | .bind port channel =>
    '.' ∉ port.component.node.toList ∧ '.' ∉ port.component.id.toList ∧
      Script.IsUnbroken port.text.toList ∧ Script.IsUnbroken channel.name.toList
  | .remove path => '.' ∉ path.node.toList ∧ Script.IsUnbroken path.text.toList

namespace ComponentPath

variable {path other : ComponentPath}

/-- An address is told by its text when its nodes have no dots. -/
theorem eq_of_text_eq (hnode : '.' ∉ path.node.toList) (hother : '.' ∉ other.node.toList)
    (h : path.text = other.text) : path = other := by
  have hcut : ∀ p : ComponentPath, '.' ∉ p.node.toList →
      cutFirst '.' p.text.toList = some (p.node.toList, p.id.toList) := by
    intro p hp
    rw [cutFirst_eq_some_iff]
    exact ⟨by simp [text], hp⟩
  have hsame := (hcut path hnode).symm.trans (h ▸ hcut other hother)
  obtain ⟨hnodes, hids⟩ := Prod.mk.inj (Option.some.inj hsame)
  cases path
  cases other
  exact congr (congrArg ComponentPath.mk (String.toList_inj.1 hnodes)) (String.toList_inj.1 hids)

/-- A member of a component is told by its text when the ids have no dots either. -/
theorem eq_of_member_eq {name name' : String} (hnode : '.' ∉ path.node.toList)
    (hid : '.' ∉ path.id.toList) (hother : other.IsDotted)
    (h : path.member name = other.member name') : path = other ∧ name = name' := by
  have hcut : ∀ (p : ComponentPath) (n : String), '.' ∉ p.node.toList →
      cutFirst '.' (p.member n).toList =
        some (p.node.toList, p.id.toList ++ '.' :: n.toList) := by
    intro p n hp
    rw [cutFirst_eq_some_iff]
    exact ⟨by simp [member, text], hp⟩
  have hsame := (hcut path name hnode).symm.trans (h ▸ hcut other name' hother.node_noDot)
  obtain ⟨hnodes, hrest⟩ := Prod.mk.inj (Option.some.inj hsame)
  have hcut' : ∀ (p : ComponentPath) (n : String), '.' ∉ p.id.toList →
      cutFirst '.' (p.id.toList ++ '.' :: n.toList) = some (p.id.toList, n.toList) :=
    fun _ _ hp => cutFirst_append hp
  have hids := (hcut' path name hid).symm.trans (hrest ▸ hcut' other name' hother.id_noDot)
  obtain ⟨hids, hnames⟩ := Prod.mk.inj (Option.some.inj hids)
  refine ⟨?_, String.toList_inj.1 hnames⟩
  cases path
  cases other
  exact congr (congrArg ComponentPath.mk (String.toList_inj.1 hnodes)) (String.toList_inj.1 hids)

end ComponentPath

namespace Script

/-- What a line with a keyword is read as, if it is read. -/
theorem exists_of_parseLine (keyword : String) (hkeyword : keyword ∈ keywords)
    {rest : List Char} {read : Option Op}
    (h : parseLine (keyword.toList ++ ' ' :: rest) = .ok read) :
    ∃ op ts, read = some op ∧ op.IsDotted ∧ op.tokens = Token.ofWord keyword :: ts ∧
      tokens rest = .ok ts := by
  cases read with
  | none =>
    have hnone := parseLine_eq_none_iff.1 h
    rw [tokens_keyword hkeyword] at hnone
    obtain ⟨ts, heq, -⟩ := exists_of_map_cons hnone
    simp at heq
  | some op =>
    obtain ⟨htokens, hdotted⟩ := parseLine_eq_some_iff.1 h
    rw [tokens_keyword hkeyword] at htokens
    obtain ⟨ts, heq, hts⟩ := exists_of_map_cons htokens
    exact ⟨op, ts, rfl, hdotted, heq, hts⟩

/-- What the line of an operation without separators in its names is read as. -/
theorem eq_of_parseLine_text {op : Op} (hop : op.IsUnbroken) {read : Option Op}
    (h : parseLine op.text.toList = .ok read) : read = some op := by
  cases op with
  | addComponent path typeName =>
    obtain ⟨hnode, hpath, htype⟩ := hop
    have hline : (Op.addComponent path typeName).text.toList = "add".toList ++ ' ' ::
        (path.text.toList ++ ' ' :: ':' :: ' ' :: typeName.toList) := by simp [Op.text]
    obtain ⟨op, ts, rfl, hdotted, heq, hts⟩ :=
      exists_of_parseLine "add" (by decide) (hline ▸ h)
    cases op with
    | addComponent path' typeName' =>
      obtain rfl := (List.cons.inj heq).2
      obtain ⟨htarget, htype'⟩ := eq_of_tokens_add hpath htype hts
      rw [ComponentPath.eq_of_text_eq hdotted.node_noDot hnode (String.toList_inj.1 htarget),
        String.toList_inj.1 htype']
    | addChannel channel typeName' =>
      obtain rfl := (List.cons.inj heq).2
      obtain ⟨htarget, -⟩ := eq_of_tokens_add hpath htype hts
      exact absurd (htarget ▸ dot_mem_text path) hdotted
    | _ => simp [Op.tokens, Token.ofWord] at heq
  | addChannel channel typeName =>
    obtain ⟨hdot, hname, htype⟩ := hop
    obtain ⟨name⟩ := channel
    have hline : (Op.addChannel ⟨name⟩ typeName).text.toList = "add".toList ++ ' ' ::
        (name.toList ++ ' ' :: ':' :: ' ' :: typeName.toList) := by simp [Op.text]
    obtain ⟨op, ts, rfl, hdotted, heq, hts⟩ :=
      exists_of_parseLine "add" (by decide) (hline ▸ h)
    cases op with
    | addComponent path' typeName' =>
      obtain rfl := (List.cons.inj heq).2
      obtain ⟨htarget, -⟩ := eq_of_tokens_add hname htype hts
      exact absurd (htarget ▸ dot_mem_text path') hdot
    | addChannel channel' typeName' =>
      obtain rfl := (List.cons.inj heq).2
      obtain ⟨name'⟩ := channel'
      obtain ⟨htarget, htype'⟩ := eq_of_tokens_add hname htype hts
      obtain rfl : name' = name := String.toList_inj.1 htarget
      rw [String.toList_inj.1 htype']
    | _ => simp [Op.tokens, Token.ofWord] at heq
  | setAttribute path key value =>
    obtain ⟨hnode, hid, hmember, hquote⟩ := hop
    have hline : (Op.setAttribute path key value).text.toList = "set".toList ++ ' ' ::
        ((path.member key).toList ++
          ' ' :: '=' :: ' ' :: '"' :: (escape value.toList ++ ['"'])) := by simp [Op.text]
    obtain ⟨op, ts, rfl, hdotted, heq, hts⟩ :=
      exists_of_parseLine "set" (by decide) (hline ▸ h)
    cases op with
    | setAttribute path' key' value' =>
      obtain rfl := (List.cons.inj heq).2
      obtain ⟨htarget, hvalue⟩ := eq_of_tokens_set hmember hquote hts
      obtain ⟨rfl, rfl⟩ := ComponentPath.eq_of_member_eq hnode hid hdotted.1
        (String.toList_inj.1 htarget).symm
      rw [String.toList_inj.1 hvalue]
    | _ => simp [Op.tokens, Token.ofWord] at heq
  | bind port channel =>
    obtain ⟨hnode, hid, hport, hname⟩ := hop
    obtain ⟨path, port⟩ := port
    obtain ⟨name⟩ := channel
    have hline : (Op.bind ⟨path, port⟩ ⟨name⟩).text.toList = "bind".toList ++ ' ' ::
        ((path.member port).toList ++ ' ' :: name.toList) := by simp [Op.text, PortRef.text]
    obtain ⟨op, ts, rfl, hdotted, heq, hts⟩ :=
      exists_of_parseLine "bind" (by decide) (hline ▸ h)
    cases op with
    | bind port' channel' =>
      obtain rfl := (List.cons.inj heq).2
      obtain ⟨path', port'⟩ := port'
      obtain ⟨name'⟩ := channel'
      have hne : (path.member port).toList ≠ [] := by simp [ComponentPath.member]
      obtain ⟨htarget, hchannel⟩ := eq_of_tokens_bind hport hne hname hts
      obtain ⟨rfl, rfl⟩ := ComponentPath.eq_of_member_eq hnode hid hdotted.1
        (String.toList_inj.1 htarget).symm
      obtain rfl : name' = name := String.toList_inj.1 hchannel
      rfl
    | _ => simp [Op.tokens, Token.ofWord] at heq
  | remove path =>
    obtain ⟨hnode, hpath⟩ := hop
    have hline : (Op.remove path).text.toList = "remove".toList ++ ' ' :: path.text.toList := by
      simp [Op.text]
    obtain ⟨op, ts, rfl, hdotted, heq, hts⟩ :=
      exists_of_parseLine "remove" (by decide) (hline ▸ h)
    cases op with
    | remove path' =>
      obtain rfl := (List.cons.inj heq).2
      have htarget := eq_of_tokens_lone hpath hts
      rw [ComponentPath.eq_of_text_eq hdotted.node_noDot hnode (String.toList_inj.1 htarget)]
    | _ => simp [Op.tokens, Token.ofWord] at heq

/-! ## Scripts -/

theorem isLine_append_unbroken {front : List Char} (hfront : '\n' ∉ front)
    (hz : IsUnbroken z) : IsLine (front ++ ' ' :: z) := by
  refine ⟨List.not_mem_append hfront (by simpa using hz.lineFeed_notMem), ?_⟩
  rw [List.getLast?_append, List.getLast?_cons, Option.some_or]
  intro hlast
  rcases List.mem_cons.1 (List.mem_of_getLast? (List.getLast?_cons.trans hlast)) with hspace | hcr
  · exact absurd hspace (by decide)
  · exact hz.notMem (by decide) hcr

/-- The line of an operation without separators in its names is one line. -/
theorem isLine_text_of_unbroken {op : Op} (hop : op.IsUnbroken) : IsLine op.text.toList := by
  cases op with
  | addComponent path typeName =>
    have hfront : '\n' ∉ ("add " ++ path.text ++ " :").toList := by
      simp [hop.2.1.lineFeed_notMem]
    simpa [Op.text] using isLine_append_unbroken hfront hop.2.2
  | addChannel channel typeName =>
    have hfront : '\n' ∉ ("add " ++ channel.name ++ " :").toList := by
      simp [hop.2.1.lineFeed_notMem]
    simpa [Op.text] using isLine_append_unbroken hfront hop.2.2
  | setAttribute path key value =>
    have hfront : '\n' ∉ ("set " ++ path.member key ++ " = \"" ++
        String.ofList (escape value.toList)).toList := by
      simp [hop.2.2.1.lineFeed_notMem, lineFeed_notMem_escape value.toList]
    simpa [Op.text] using isLine_concat hfront (c := '"') (by decide) (by decide)
  | bind port channel =>
    have hfront : '\n' ∉ ("bind " ++ port.text).toList := by
      simp [hop.2.2.1.lineFeed_notMem]
    simpa [Op.text] using isLine_append_unbroken hfront hop.2.2.2
  | remove path =>
    have hfront : '\n' ∉ "remove".toList := by decide
    simpa [Op.text] using isLine_append_unbroken hfront hop.2

/-- The first operation of a text is read as it is, and so it can be expressed. -/
theorem read_first {op : Op} (hop : op.IsUnbroken) {script read : Script} {number : Nat}
    (h : parseLines number (lines (Script.text (op :: script)).toList) = .ok read) :
    op.Expressible ∧ ∃ others, read = op :: others ∧
      parseLines (number + 1) (lines (Script.text script).toList) = .ok others := by
  have hline := isLine_text_of_unbroken hop
  rw [toList_text_cons, lines_append_lineFeed hline] at h
  obtain ⟨op', others, hread, hothers, rfl⟩ := parseLines_cons_eq_ok_iff.1 h
  obtain rfl := eq_of_parseLine_text hop hread
  exact ⟨expressible_of_parseLine hline.1 hread, others, rfl, parseLines_eq_ok_of_number hothers⟩

theorem eq_of_parseLines_text {script read : Script} {number : Nat}
    (hscript : ∀ op ∈ script, op.IsUnbroken)
    (h : parseLines number (lines (Script.text script).toList) = .ok read) : read = script := by
  induction script generalizing number read with
  | nil =>
    rw [toList_text_nil, lines_nil, parseLines] at h
    exact (Except.ok.inj h).symm
  | cons op script ih =>
    obtain ⟨hop, hrest⟩ := List.forall_mem_cons.1 hscript
    obtain ⟨-, others, rfl, hothers⟩ := read_first hop h
    rw [ih hrest hothers]

end Script

end Wiring
