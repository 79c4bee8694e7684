import Mathlib.Logic.Basic
import Wiring.Binding.Destination

/-!
# Printed and read destinations

A destination is printed with dots between its node, its id and its port, and a token is parted
at its dots.  The three names may be any texts.  With an empty name or a dot in a name two
destinations can have one text, but such a text has an empty field or more than three fields,
and it is refused with their number.  So a token that is read at all is read as what it was
printed for, `Destination.eq_of_parse_member`.

The main statement is `Destination.parse_exact`: the tokens that can be read are the texts of
destinations with plain names, each of one destination only.
-/

namespace Wiring

open Wiring.Text

/-! ## Names between dots -/

theorem ComponentPath.toList_member (path : ComponentPath) (port : String) :
    (path.member port).toList =
      path.node.toList ++ '.' :: (path.id.toList ++ '.' :: port.toList) := by
  simp [member, text]

/-- A port of a component has the dots of its three names and two between them. -/
theorem ComponentPath.count_dot_member (path : ComponentPath) (port : String) :
    (path.member port).toList.count '.' =
      path.node.toList.count '.' + path.id.toList.count '.' + port.toList.count '.' + 2 := by
  rw [path.toList_member, List.count_append, List.count_cons_self, List.count_append,
    List.count_cons_self]
  omega

namespace Destination

/-- Names that can stand between the dots of a token: none is empty, and none has a dot. -/
structure IsPlain (d : Destination) : Prop where
  node : d.component.node ≠ "" ∧ '.' ∉ d.component.node.toList
  id : d.component.id ≠ "" ∧ '.' ∉ d.component.id.toList
  port : d.port ≠ "" ∧ '.' ∉ d.port.toList

instance (d : Destination) : Decidable d.IsPlain :=
  decidable_of_iff (_ ∧ _ ∧ _) ⟨fun h => ⟨h.1, h.2.1, h.2.2⟩, fun h => ⟨h.node, h.id, h.port⟩⟩

/-- A token is the text of a destination with plain names. -/
def IsToken (token : String) : Prop := ∃ d : Destination, d.IsPlain ∧ d.text = token

@[simp] theorem text_portRef (d : Destination) : d.portRef.text = d.text := rfl

/-! ## Tokens that are read -/

variable {token : String} {d : Destination} {path : ComponentPath} {port : String}

/-- A token that is read has three fields, the names of the destination, and none is empty. -/
theorem fields_of_parse (h : parse token = .ok d) :
    fields '.' token.toList =
        [d.component.node.toList, d.component.id.toList, d.port.toList] ∧
      d.component.node ≠ "" ∧ d.component.id ≠ "" ∧ d.port ≠ "" := by
  unfold parse at h
  split at h
  · rename_i node id port hfields
    split at h
    · rename_i hne
      obtain rfl := Except.ok.inj h
      exact ⟨by simp [hfields], by simpa [← String.toList_inj] using hne⟩
    · simp at h
  · simp at h

/-- A destination that was read has the text that it was read from. -/
theorem text_of_parse (h : parse token = .ok d) : d.text = token := by
  have hparts := intercalate_fields '.' token.toList
  rw [(fields_of_parse h).1] at hparts
  rw [← String.toList_inj, ← hparts]
  simp [text, ComponentPath.toList_member, List.intercalate]

theorem isPlain_of_parse (h : parse token = .ok d) : d.IsPlain := by
  obtain ⟨hfields, hnode, hid, hport⟩ := fields_of_parse h
  have hdots : ∀ field ∈ fields '.' token.toList, '.' ∉ field :=
    fun _ => not_mem_of_mem_fields
  rw [hfields] at hdots
  exact ⟨⟨hnode, hdots _ (by simp)⟩, ⟨hid, hdots _ (by simp)⟩, ⟨hport, hdots _ (by simp)⟩⟩

theorem parse_member (hnode : path.node ≠ "" ∧ '.' ∉ path.node.toList)
    (hid : path.id ≠ "" ∧ '.' ∉ path.id.toList) (hport : port ≠ "" ∧ '.' ∉ port.toList) :
    parse (path.member port) = .ok ⟨path, port⟩ := by
  have hfields : fields '.' (path.member port).toList =
      [path.node.toList, path.id.toList, port.toList] := by
    rw [path.toList_member, fields_append _ hnode.2, fields_append _ hid.2,
      fields_of_not_mem hport.2]
  have hne : path.node.toList ≠ [] ∧ path.id.toList ≠ [] ∧ port.toList ≠ [] := by
    simp [String.toList_eq_nil_iff, hnode.1, hid.1, hport.1]
  simp only [parse, hfields, if_pos hne, String.ofList_toList]

/-- The tokens that can be read are the texts of destinations with plain names. -/
theorem parse_eq_ok_iff : parse token = .ok d ↔ d.IsPlain ∧ d.text = token := by
  constructor
  · exact fun h => ⟨isPlain_of_parse h, text_of_parse h⟩
  · rintro ⟨hplain, rfl⟩
    exact parse_member hplain.node hplain.id hplain.port

theorem isToken_iff : IsToken token ↔ ∃ d, parse token = .ok d := by
  simp only [IsToken, parse_eq_ok_iff]

/-- A token that is printed and read comes back as what it was printed for: with a dot
in a name it would have more than three fields. -/
theorem eq_of_parse_member (h : parse (path.member port) = .ok d) : d = ⟨path, port⟩ := by
  have hfields := (fields_of_parse h).1
  have hcount := length_fields '.' (path.member port).toList
  rw [hfields, path.count_dot_member] at hcount
  simp only [List.length_cons, List.length_nil] at hcount
  -- The two dots between the names are all that a token of three fields has.
  have hnode : '.' ∉ path.node.toList := List.count_eq_zero.1 (by omega)
  have hid : '.' ∉ path.id.toList := List.count_eq_zero.1 (by omega)
  have hport : '.' ∉ port.toList := List.count_eq_zero.1 (by omega)
  rw [path.toList_member, fields_append _ hnode, fields_append _ hid,
    fields_of_not_mem hport] at hfields
  obtain ⟨pathNode, pathId⟩ := path
  obtain ⟨⟨dNode, dId⟩, dPort⟩ := d
  simp only [List.cons.injEq, and_true, String.toList_inj] at hfields
  obtain ⟨rfl, rfl, rfl⟩ := hfields
  rfl

theorem parse_member_eq_ok_iff :
    parse (path.member port) = .ok d ↔ d = ⟨path, port⟩ ∧ d.IsPlain := by
  constructor
  · exact fun h => ⟨eq_of_parse_member h, isPlain_of_parse h⟩
  · rintro ⟨rfl, hplain⟩
    exact parse_eq_ok_iff.2 ⟨hplain, rfl⟩

/-! ## Tokens that are refused -/

variable {failure : Failure}

/-- A refused token is named with the number of its fields, which is one more than its dots. -/
theorem eq_of_parse_eq_error (h : parse token = .error failure) :
    failure = .invalidBinding token (.fieldCount (token.toList.count '.' + 1)) := by
  rw [← length_fields]
  unfold parse at h
  split at h
  · rename_i node id port hfields
    split at h
    · simp at h
    · -- There are three fields, and one of them is empty.
      rw [hfields]
      exact (Except.error.inj h).symm
  · exact (Except.error.inj h).symm

theorem parse_eq_error_iff :
    parse token = .error failure ↔
      ¬ IsToken token ∧
        failure = .invalidBinding token (.fieldCount (token.toList.count '.' + 1)) := by
  rw [isToken_iff]
  constructor
  · intro h
    refine ⟨?_, eq_of_parse_eq_error h⟩
    rintro ⟨d, hd⟩
    rw [h] at hd
    contradiction
  · rintro ⟨hnone, rfl⟩
    cases hparse : parse token with
    | error failure => rw [eq_of_parse_eq_error hparse]
    | ok d => exact absurd ⟨d, hparse⟩ hnone

/-- A printed token is one exactly for plain names, whatever else has its text. -/
theorem isToken_member_iff : IsToken (path.member port) ↔ IsPlain ⟨path, port⟩ := by
  constructor
  · intro htoken
    obtain ⟨d, hparse⟩ := isToken_iff.1 htoken
    obtain ⟨rfl, hplain⟩ := parse_member_eq_ok_iff.1 hparse
    exact hplain
  · exact fun hplain => ⟨_, hplain, rfl⟩

theorem parse_member_eq_error_iff :
    parse (path.member port) = .error failure ↔
      ¬ IsPlain ⟨path, port⟩ ∧
        failure = .invalidBinding (path.member port) (.fieldCount
          (path.node.toList.count '.' + path.id.toList.count '.' + port.toList.count '.' + 3)) := by
  rw [parse_eq_error_iff, isToken_member_iff, path.count_dot_member]

/-! ## Printing and reading -/

/-- Three names are printed as a token that is read as these names when none of them is empty
or has a dot, and else as one that is refused with the number of its fields.  What a token is
read as has this token as its text, also as the address of a port, so different tokens are
read as different destinations. -/
theorem parse_exact :
    (∀ node id port : String,
      (parse ((ComponentPath.mk node id).member port) = .ok ⟨⟨node, id⟩, port⟩ ↔
        IsPlain ⟨⟨node, id⟩, port⟩) ∧
      (parse ((ComponentPath.mk node id).member port) =
          .error (.invalidBinding ((ComponentPath.mk node id).member port) (.fieldCount
            (node.toList.count '.' + id.toList.count '.' + port.toList.count '.' + 3))) ↔
        ¬ IsPlain ⟨⟨node, id⟩, port⟩)) ∧
      (∀ token d, parse token = .ok d ↔
        d.IsPlain ∧ d.text = token ∧ d.portRef.text = token) ∧
      ∀ token token' d d', parse token = .ok d → parse token' = .ok d' →
        (token = token' ↔ d = d') := by
  refine ⟨fun node id port => ⟨?_, ?_⟩, fun token d => ?_, fun token token' d d' h h' => ⟨?_, ?_⟩⟩
  · rw [parse_member_eq_ok_iff]
    exact and_iff_right rfl
  · rw [parse_member_eq_error_iff]
    exact and_iff_left rfl
  · rw [text_portRef, and_self, parse_eq_ok_iff]
  · rintro rfl
    exact Except.ok.inj (h.symm.trans h')
  · rintro rfl
    exact (text_of_parse h).symm.trans (text_of_parse h')

/-- The ids `light.a` and `a` on the nodes `home1` and `home1.light` have ports with one text,
which is refused for its four fields; an empty id is refused with three.  Two lamps with plain
names are told apart. -/
theorem parse_exact_lamps :
    (ComponentPath.mk "home1" "light.a").member "in" =
        (ComponentPath.mk "home1.light" "a").member "in" ∧
      parse ((ComponentPath.mk "home1" "light.a").member "in") =
        .error (.invalidBinding "home1.light.a.in" (.fieldCount 4)) ∧
      parse ((ComponentPath.mk "home1" "").member "in") =
        .error (.invalidBinding "home1..in" (.fieldCount 3)) ∧
      parse "home1.light_a.in" = .ok ⟨⟨"home1", "light_a"⟩, "in"⟩ ∧
      parse "home1.light_b.in" = .ok ⟨⟨"home1", "light_b"⟩, "in"⟩ ∧
      Destination.mk ⟨"home1", "light_a"⟩ "in" ≠ ⟨⟨"home1", "light_b"⟩, "in"⟩ := by
  obtain ⟨hprinted, -, hapart⟩ := parse_exact
  have hdotted := (hprinted "home1" "light.a" "in").2.2 (by decide +kernel)
  have hempty := (hprinted "home1" "" "in").2.2 (by decide +kernel)
  have hfirst := (hprinted "home1" "light_a" "in").1.2 (by decide +kernel)
  have hsecond := (hprinted "home1" "light_b" "in").1.2 (by decide +kernel)
  refine ⟨by decide +kernel, hdotted, hempty, hfirst, hsecond, ?_⟩
  exact fun hsame => absurd ((hapart _ _ _ _ hfirst hsecond).2 hsame) (by decide +kernel)

end Destination

end Wiring
