import Mathlib.Data.Set.Function
import Wiring.Proofs.Binding.Pairs
import Wiring.Proofs.Names

/-!
# The grammar of binding specifications

An entry of a specification is written as a port, an arrow, a type, a dot and another port.
Texts of that form are read, and no others, and the text says which entry it is,
`parse_eq_ok_iff`.

The pieces of a specification are read one after another.  It can be read when each of them is
the text of an entry, and then the entries are those of the pieces in order,
`parsePieces_eq_ok_iff`; otherwise the fault is that of the first piece that is none,
`parsePieces_eq_error_iff`.  The main statement, `parseSpec_grammar`, puts these together for
the text of a specification.
-/

namespace Wiring

open Wiring.Text

namespace BindingEntry

/-- The text of an entry. -/
def text (e : BindingEntry) : String :=
  e.sourcePort ++ ">" ++ e.typeRef ++ "." ++ e.destPort

/-- There is no slash, or a single one between a name and a version. -/
def SlashFits (typeRef : List Char) : Prop :=
  '/' ∉ typeRef ∨
    typeRef.count '/' = 1 ∧ typeRef.head? ≠ some '/' ∧ typeRef.getLast? ≠ some '/'

/-- The parts that the text of an entry can have. -/
structure WellFormed (e : BindingEntry) : Prop where
  sourcePort : IsName e.sourcePort
  destPort : IsName e.destPort
  destPort_head : ∃ c, e.destPort.toList.head? = some c ∧ (c.isAlpha = true ∨ c = '_')
  typeRef_ne : e.typeRef ≠ ""
  typeRef_chars : ∀ c ∈ e.typeRef.toList, isReferenceChar c = true
  typeRef_getLast : e.typeRef.toList.getLast? ≠ some '.'
  slash : SlashFits e.typeRef.toList

/-- A piece of a specification that is the text of an entry. -/
def IsEntry (piece : List Char) : Prop :=
  ∃ e : BindingEntry, e.WellFormed ∧ e.text.toList = piece

/-- A text whose fields between commas are, without the blanks around them, empty or the texts
of entries. -/
def IsSpecification (spec : String) : Prop :=
  ∀ field ∈ fields ',' spec.toList, trim field = [] ∨ IsEntry (trim field)

theorem toList_text (e : BindingEntry) :
    e.text.toList = e.sourcePort.toList ++ '>' :: (e.typeRef.toList ++ '.' :: e.destPort.toList) := by
  simp [text]

/-! ## Cutting an entry -/

theorem not_mem_of_all_isNameChar {cs : List Char} (hall : cs.all isNameChar = true) {mark : Char}
    (hmark : isNameChar mark = false) : mark ∉ cs := by
  intro hmem
  have hname := List.all_eq_true.1 hall mark hmem
  rw [hmark] at hname
  contradiction

theorem cutArrow_eq_some_iff {entry port reference : List Char} :
    cutArrow entry = some (port, reference) ↔
      entry = port ++ '>' :: reference ∧ (port ≠ [] ∧ port.all isNameChar = true) ∧
        reference ≠ [] ∧ reference.all isReferenceChar = true := by
  rw [cutArrow]
  constructor
  · intro h
    split at h
    · simp at h
    · rename_i front back hcut
      split at h
      · rename_i hfits
        obtain ⟨rfl, rfl⟩ := Prod.mk.inj (Option.some.inj h)
        obtain ⟨hport, hnames, hreference, hchars⟩ := hfits
        exact ⟨(cutFirst_eq_some_iff.1 hcut).1, ⟨hport, hnames⟩, hreference, hchars⟩
      · simp at h
  · rintro ⟨rfl, ⟨hport, hnames⟩, hreference, hchars⟩
    have harrow : '>' ∉ port := not_mem_of_all_isNameChar hnames (by decide)
    rw [cutFirst_append harrow]
    exact if_pos ⟨hport, hnames, hreference, hchars⟩

/-- Behind the first slash there is a version, without another slash. -/
theorem slashFits_append_iff {name version : List Char} (hname : '/' ∉ name) :
    SlashFits (name ++ '/' :: version) ↔ name ≠ [] ∧ version ≠ [] ∧ '/' ∉ version := by
  have hcount : (name ++ '/' :: version).count '/' = 1 ↔ '/' ∉ version := by
    rw [List.count_append, List.count_eq_zero.2 hname, List.count_cons_self, ← List.count_eq_zero]
    omega
  have hhead : (name ++ '/' :: version).head? ≠ some '/' ↔ name ≠ [] := by
    cases name with
    | nil => simp
    | cons c name => simp [Ne.symm (List.ne_of_not_mem_cons hname)]
  have hlast : '/' ∉ version →
      ((name ++ '/' :: version).getLast? ≠ some '/' ↔ version ≠ []) := by
    intro hversion
    cases version with
    | nil => simp
    | cons c version =>
      rw [List.getLast?_append_of_ne_nil _ (List.cons_ne_nil _ _), List.getLast?_cons_cons]
      refine iff_of_true (fun hend => hversion ?_) (List.cons_ne_nil c version)
      exact List.mem_of_getLast? hend
  have hslash : '/' ∈ name ++ '/' :: version := by simp
  rw [SlashFits, hcount, hhead]
  constructor
  · rintro (hnone | ⟨hversion, hne, hend⟩)
    · exact absurd hslash hnone
    · exact ⟨hne, (hlast hversion).1 hend, hversion⟩
  · rintro ⟨hne, hend, hversion⟩
    exact Or.inr ⟨hversion, hne, (hlast hversion).2 hend⟩

theorem versionFits_iff {typeRef : List Char} : versionFits typeRef = true ↔ SlashFits typeRef := by
  rw [versionFits]
  cases hcut : cutFirst '/' typeRef with
  | none => simp [SlashFits, cutFirst_eq_none_iff.1 hcut]
  | some parts =>
    obtain ⟨name, version⟩ := parts
    obtain ⟨rfl, hname⟩ := cutFirst_eq_some_iff.1 hcut
    rw [slashFits_append_iff hname]
    simp [and_assoc]

theorem isPortName_iff {port : List Char} :
    isPortName port = true ↔
      (port ≠ [] ∧ port.all isNameChar = true) ∧
        ∃ c, port.head? = some c ∧ (c.isAlpha = true ∨ c = '_') := by
  cases port with
  | nil => simp [isPortName]
  | cons c rest => simp [isPortName, and_comm]

theorem cutReference_eq_ok_iff {reference typeRef port : List Char} :
    cutReference reference = .ok (typeRef, port) ↔
      reference = typeRef ++ '.' :: port ∧ isPortName port = true ∧ typeRef ≠ [] ∧
        typeRef.getLast? ≠ some '.' ∧ SlashFits typeRef := by
  rw [cutReference, ← versionFits_iff]
  constructor
  · intro h
    split at h
    · simp at h
    · rename_i front back hcut
      split at h
      · simp at h
      · rename_i hfields
        split at h
        · simp at h
        · rename_i hport
          split at h
          · simp at h
          · rename_i hversion
            obtain ⟨rfl, rfl⟩ := Prod.mk.inj (Except.ok.inj h)
            obtain ⟨-, htype, hend⟩ := not_or.1 hfields |>.imp_right not_or.1
            exact ⟨(cutLast_eq_some_iff.1 hcut).1, by simpa using hport, htype, hend,
              by simpa using hversion⟩
  · rintro ⟨rfl, hport, htype, hend, hversion⟩
    obtain ⟨⟨hne, hnames⟩, -⟩ := isPortName_iff.1 hport
    have hdot : '.' ∉ port := not_mem_of_all_isNameChar hnames (by decide)
    rw [cutLast_eq_some_iff.2 ⟨rfl, hdot⟩]
    simp [hne, htype, hend, hport, hversion]

/-! ## Reading an entry -/

theorem parse_eq_ok_cut {piece port reference typeRef destPort : List Char}
    (harrow : cutArrow piece = some (port, reference))
    (hreference : cutReference reference = .ok (typeRef, destPort)) :
    parse piece = .ok ⟨String.ofList port, String.ofList typeRef, String.ofList destPort⟩ := by
  simp only [parse, harrow, hreference]

theorem wellFormed_of_parse {piece : List Char} {e : BindingEntry} (h : parse piece = .ok e) :
    e.WellFormed ∧ e.text.toList = piece := by
  rw [parse] at h
  split at h
  · simp at h
  · rename_i port reference harrow
    split at h
    · simp at h
    · rename_i typeRef destPort hreference
      obtain rfl := Except.ok.inj h
      obtain ⟨rfl, hport, -, hchars⟩ := cutArrow_eq_some_iff.1 harrow
      obtain ⟨rfl, hdest, htype, hend, hslash⟩ := cutReference_eq_ok_iff.1 hreference
      obtain ⟨hdestName, hdestHead⟩ := isPortName_iff.1 hdest
      rw [List.all_append, Bool.and_eq_true] at hchars
      refine ⟨⟨isName_ofList_iff.2 hport, isName_ofList_iff.2 hdestName, ?_, ?_, ?_, ?_, ?_⟩, ?_⟩
      · rwa [String.toList_ofList]
      · simpa [← String.toList_inj] using htype
      · rw [String.toList_ofList]
        exact List.all_eq_true.1 hchars.1
      · rwa [String.toList_ofList]
      · rwa [String.toList_ofList]
      · simp [toList_text]

theorem WellFormed.parse_text {e : BindingEntry} (h : e.WellFormed) :
    parse e.text.toList = .ok e := by
  have hsource : e.sourcePort.toList ≠ [] ∧ e.sourcePort.toList.all isNameChar = true :=
    isName_ofList_iff.1 (by simpa using h.sourcePort)
  have hdest : e.destPort.toList ≠ [] ∧ e.destPort.toList.all isNameChar = true :=
    isName_ofList_iff.1 (by simpa using h.destPort)
  have hchars : (e.typeRef.toList ++ '.' :: e.destPort.toList).all isReferenceChar = true := by
    rw [List.all_eq_true]
    intro c hc
    rcases List.mem_append.1 hc with hc | hc
    · exact h.typeRef_chars c hc
    · rcases List.mem_cons.1 hc with rfl | hc
      · decide
      · simp [isReferenceChar, h.destPort.isNameChar c hc]
  have harrow : cutArrow e.text.toList =
      some (e.sourcePort.toList, e.typeRef.toList ++ '.' :: e.destPort.toList) :=
    cutArrow_eq_some_iff.2 ⟨e.toList_text, hsource, by simp, hchars⟩
  have hreference : cutReference (e.typeRef.toList ++ '.' :: e.destPort.toList) =
      .ok (e.typeRef.toList, e.destPort.toList) := by
    refine cutReference_eq_ok_iff.2 ⟨rfl, isPortName_iff.2 ⟨hdest, h.destPort_head⟩, ?_,
      h.typeRef_getLast, h.slash⟩
    simpa [String.toList_eq_nil_iff] using h.typeRef_ne
  rw [parse_eq_ok_cut harrow hreference]
  simp

/-- The texts that are read are those of entries with parts of the right form, and they are
read as these entries. -/
theorem parse_eq_ok_iff {piece : List Char} {e : BindingEntry} :
    parse piece = .ok e ↔ e.WellFormed ∧ e.text.toList = piece := by
  constructor
  · exact wellFormed_of_parse
  · rintro ⟨hform, rfl⟩
    exact hform.parse_text

/-- The text of an entry can be cut in one way only. -/
theorem injOn_text : Set.InjOn text {e : BindingEntry | e.WellFormed} := by
  intro e he e' he' htext
  have hread := WellFormed.parse_text he
  rw [htext, WellFormed.parse_text he'] at hread
  exact (Except.ok.inj hread).symm

theorem isEntry_iff {piece : List Char} : IsEntry piece ↔ ∃ e, parse piece = .ok e := by
  simp only [IsEntry, parse_eq_ok_iff]

/-- A piece that is not read is named in the failure. -/
theorem exists_of_parse_eq_error {piece : List Char} {failure : Failure}
    (h : parse piece = .error failure) :
    ∃ fault, failure = .invalidBinding (String.ofList piece) fault := by
  rw [parse] at h
  split at h
  · exact ⟨_, (Except.error.inj h).symm⟩
  · split at h
    · exact ⟨_, (Except.error.inj h).symm⟩
    · simp at h

/-! ## Reading the pieces of a specification -/

theorem parsePieces_eq_ok_iff {ps : List (List Char)} {entries : List BindingEntry} :
    parsePieces ps = .ok entries ↔
      (∀ e ∈ entries, e.WellFormed) ∧ entries.map (fun e => e.text.toList) = ps := by
  induction ps generalizing entries with
  | nil =>
    constructor
    · intro h
      obtain rfl : [] = entries := by simpa [parsePieces] using h
      simp
    · rintro ⟨-, h⟩
      rw [List.map_eq_nil_iff.1 h, parsePieces]
  | cons piece ps ih =>
    rw [parsePieces]
    constructor
    · intro h
      split at h
      · simp at h
      · rename_i e hparse
        split at h
        · simp at h
        · rename_i others hothers
          obtain rfl := Except.ok.inj h
          obtain ⟨hform, htext⟩ := parse_eq_ok_iff.1 hparse
          obtain ⟨hforms, htexts⟩ := ih.1 hothers
          exact ⟨List.forall_mem_cons.2 ⟨hform, hforms⟩, by rw [List.map_cons, htext, htexts]⟩
    · rintro ⟨hforms, htexts⟩
      obtain ⟨e, others, rfl, htext, hothers⟩ := List.map_eq_cons_iff.1 htexts
      obtain ⟨hform, hforms⟩ := List.forall_mem_cons.1 hforms
      simp only [parse_eq_ok_iff.2 ⟨hform, htext⟩, ih.2 ⟨hforms, hothers⟩]

theorem exists_parsePieces_iff {ps : List (List Char)} :
    (∃ entries, parsePieces ps = .ok entries) ↔ ∀ piece ∈ ps, IsEntry piece := by
  constructor
  · rintro ⟨entries, h⟩
    obtain ⟨hforms, rfl⟩ := parsePieces_eq_ok_iff.1 h
    exact List.forall_mem_map.2 fun e he => ⟨e, hforms e he, rfl⟩
  · intro h
    induction ps with
    | nil => exact ⟨[], rfl⟩
    | cons piece ps ih =>
      obtain ⟨⟨e, hform, htext⟩, hrest⟩ := List.forall_mem_cons.1 h
      obtain ⟨others, hothers⟩ := ih hrest
      obtain ⟨hforms, htexts⟩ := parsePieces_eq_ok_iff.1 hothers
      refine ⟨e :: others, parsePieces_eq_ok_iff.2 ⟨List.forall_mem_cons.2 ⟨hform, hforms⟩, ?_⟩⟩
      rw [List.map_cons, htext, htexts]

/-- The failure is that of the first piece that is not the text of an entry. -/
theorem parsePieces_eq_error_iff {ps : List (List Char)} {failure : Failure} :
    parsePieces ps = .error failure ↔ ∃ front piece back, ps = front ++ piece :: back ∧
      (∀ p ∈ front, IsEntry p) ∧ parse piece = .error failure := by
  induction ps with
  | nil => simp [parsePieces]
  | cons first ps ih =>
    rw [parsePieces]
    constructor
    · intro h
      cases hparse : parse first with
      | error failure' =>
        rw [hparse] at h
        obtain rfl : failure' = failure := Except.error.inj h
        exact ⟨[], first, ps, rfl, by simp, hparse⟩
      | ok e =>
        -- The first piece is an entry, so the failure comes from the others.
        have hrest : parsePieces ps = .error failure := by
          cases hothers : parsePieces ps with
          | error failure' => simpa [hparse, hothers] using h
          | ok others => simp [hparse, hothers] at h
        obtain ⟨front, piece, back, rfl, hfront, hpiece⟩ := ih.1 hrest
        refine ⟨first :: front, piece, back, rfl, ?_, hpiece⟩
        exact List.forall_mem_cons.2 ⟨isEntry_iff.2 ⟨e, hparse⟩, hfront⟩
    · rintro ⟨front, piece, back, hsplit, hfront, hpiece⟩
      cases front with
      | nil =>
        obtain ⟨rfl, rfl⟩ := List.cons_eq_cons.1 hsplit
        simp only [hpiece]
      | cons p front =>
        obtain ⟨rfl, rfl⟩ := List.cons_eq_cons.1 hsplit
        obtain ⟨hfirst, hfront⟩ := List.forall_mem_cons.1 hfront
        obtain ⟨e, hparse⟩ := isEntry_iff.1 hfirst
        have hrest := ih.2 ⟨front, piece, back, rfl, hfront, hpiece⟩
        simp only [hparse, hrest]

/-! ## Specifications -/

/-- The pieces that count are those that are not blank. -/
theorem forall_mem_pieces_iff {spec : String} {P : List Char → Prop} :
    (∀ piece ∈ pieces spec, P piece) ↔
      ∀ field ∈ fields ',' spec.toList, trim field = [] ∨ P (trim field) := by
  simp only [pieces, List.mem_filter, List.mem_map, decide_eq_true_eq, and_imp,
    forall_exists_index, forall_apply_eq_imp_iff₂, ← or_iff_not_imp_left]

theorem readable_iff {spec : String} : PortBindings.Readable spec ↔ IsSpecification spec := by
  rw [PortBindings.Readable, parseSpec, exists_parsePieces_iff, forall_mem_pieces_iff]
  rfl

/-- A specification is read exactly when each field between its commas is, without the blanks
around it, empty or the text of an entry.  The text says which entry it is, and the entries are
read in order.  Otherwise the failure is about the first piece that is not the text of one. -/
theorem parseSpec_grammar (spec : String) :
    ((∃ entries, parseSpec spec = .ok entries) ↔
        ∀ field ∈ fields ',' spec.toList, trim field = [] ∨ IsEntry (trim field)) ∧
      Set.InjOn text {e | e.WellFormed} ∧
      (∀ entries, parseSpec spec = .ok entries ↔
        (∀ e ∈ entries, e.WellFormed) ∧ entries.map (fun e => e.text.toList) = pieces spec) ∧
      ∀ piece, (∃ fault, parseSpec spec = .error (.invalidBinding (String.ofList piece) fault)) ↔
        ∃ front back, pieces spec = front ++ piece :: back ∧ (∀ p ∈ front, IsEntry p) ∧
          ¬ IsEntry piece := by
  refine ⟨readable_iff, injOn_text, fun entries => parsePieces_eq_ok_iff, fun piece => ⟨?_, ?_⟩⟩
  · rintro ⟨fault, h⟩
    obtain ⟨front, first, back, hsplit, hfront, hfirst⟩ := parsePieces_eq_error_iff.1 h
    obtain ⟨fault', hfailure⟩ := exists_of_parse_eq_error hfirst
    obtain rfl : piece = first := String.ofList_inj.1 (Failure.invalidBinding.inj hfailure).1
    refine ⟨front, back, hsplit, hfront, fun hentry => ?_⟩
    obtain ⟨e, hparse⟩ := isEntry_iff.1 hentry
    rw [hparse] at hfirst
    contradiction
  · rintro ⟨front, back, hsplit, hfront, hpiece⟩
    cases hparse : parse piece with
    | error failure =>
      obtain ⟨fault, rfl⟩ := exists_of_parse_eq_error hparse
      exact ⟨fault, parsePieces_eq_error_iff.2 ⟨front, piece, back, hsplit, hfront, hparse⟩⟩
    | ok e => exact absurd (isEntry_iff.2 ⟨e, hparse⟩) hpiece

end BindingEntry

end Wiring
