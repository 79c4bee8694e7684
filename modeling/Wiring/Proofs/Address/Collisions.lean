import Wiring.Proofs.Names

/-!
# Channels with one id

A derived channel id has a port, the name of a node and the id of a component between low
lines.  All three may have low lines of their own, so the text does not say where the port
ends.  When the name of the node stands at two places, with low lines around it, the text can
be cut at either, and then two different ports have one channel, `derive_eq_derive_iff`.

The two places may overlap.  Even so the later cut has a low line in its port, and the earlier
one has a low line in its id, `Slides.lowLine_mem`.  So ports without low lines share no
channels, and neither do the ports of components whose ids have none.
-/

namespace Wiring.ChannelId

/-- The name of a node as it stands in a derived channel id. -/
def mark (node : String) : String := "_" ++ node ++ "_"

/-- A text that is cut at a mark into `port` and `id` can be cut at a later mark into `port'`
and `id'`.  From the earlier cut on, `gap` stands in front of the later mark; up to the later
cut, `back` stands behind the earlier one. -/
def Slides (node port id port' id' : String) : Prop :=
  ∃ gap back : String, gap ≠ "" ∧ port' = port ++ gap ∧ id = back ++ id' ∧
    gap ++ mark node = mark node ++ back

theorem toList_mark (node : String) : (mark node).toList = '_' :: (node.toList ++ ['_']) := by
  simp [mark]

theorem toList_derive (port node id : String) :
    (derive port node id).name.toList =
      derivedPrefix.toList ++ '_' :: (port.toList ++ ((mark node).toList ++ id.toList)) := by
  simp [derive, mark]

/-- A mark that stands at the beginning of a text and again behind `gap` in it. -/
theorem exists_of_mark_append_eq {marked id id' gap : List Char}
    (h : marked ++ id = gap ++ (marked ++ id')) :
    ∃ back, id = back ++ id' ∧ gap ++ marked = marked ++ back := by
  rw [← List.append_assoc] at h
  rcases List.append_eq_append_iff.1 h with ⟨back, hgap, hid⟩ | ⟨rest, hmarked, hid⟩
  · exact ⟨back, hid, hgap⟩
  · -- Both marks have one length, so here they stand at one place.
    have hlength := congrArg List.length hmarked
    simp only [List.length_append] at hlength
    obtain rfl : gap = [] := List.length_eq_zero_iff.1 (by omega)
    obtain rfl : rest = [] := List.length_eq_zero_iff.1 (by omega)
    exact ⟨[], hid.symm, by simp⟩

/-- A second cut that is not in front of the first is the same or a later one. -/
theorem eq_or_slides {node port id port' id' : String} {gap : List Char}
    (hport : port'.toList = port.toList ++ gap)
    (hid : (mark node).toList ++ id.toList = gap ++ ((mark node).toList ++ id'.toList)) :
    port' = port ∧ id' = id ∨ Slides node port id port' id' := by
  by_cases hgap : gap = []
  · subst hgap
    left
    simp only [List.append_nil, String.toList_inj] at hport
    simp only [List.nil_append, List.append_cancel_left_eq, String.toList_inj] at hid
    exact ⟨hport, hid.symm⟩
  · right
    obtain ⟨back, hback, hmarks⟩ := exists_of_mark_append_eq hid
    refine ⟨String.ofList gap, String.ofList back, ?_, ?_, ?_, ?_⟩
    · simpa [← String.toList_inj] using hgap
    · simpa [← String.toList_inj] using hport
    · simpa [← String.toList_inj] using hback
    · simpa [← String.toList_inj] using hmarks

namespace Slides

variable {node port id port' id' : String}

theorem derive_eq (h : Slides node port id port' id') :
    derive port node id = derive port' node id' := by
  obtain ⟨gap, back, -, rfl, rfl, hmarks⟩ := h
  have hlist := congrArg String.toList hmarks
  simp only [String.toList_append] at hlist
  have hname : (derive port node (back ++ id')).name =
      (derive (port ++ gap) node id').name := by
    rw [← String.toList_inj, toList_derive, toList_derive]
    rw [String.toList_append, String.toList_append, List.append_assoc port.toList,
      ← List.append_assoc gap.toList, hlist, List.append_assoc]
  exact congrArg ChannelId.mk hname

/-- The longer port has a low line, and so has the longer id. -/
theorem lowLine_mem (h : Slides node port id port' id') :
    '_' ∈ port'.toList ∧ '_' ∈ id.toList := by
  obtain ⟨gap, back, hne, rfl, rfl, hmarks⟩ := h
  have hlist := congrArg String.toList hmarks
  simp only [String.toList_append] at hlist
  have hgap : gap.toList ≠ [] := by simpa using hne
  have hlength := congrArg List.length hlist
  simp only [List.length_append] at hlength
  have hback : back.toList ≠ [] := by
    intro hnil
    rw [hnil, List.length_nil] at hlength
    exact hgap (List.length_eq_zero_iff.1 (by omega))
  -- One begins as the mark does, and the other ends as the mark does.
  have hfirst : gap.toList.head? = some '_' := by
    have hhead := congrArg List.head? hlist
    rw [toList_mark, List.head?_append, List.head?_eq_some_head hgap] at hhead
    rw [List.head?_eq_some_head hgap]
    simpa using hhead
  have hlast : back.toList.getLast? = some '_' := by
    have hend := congrArg List.getLast? hlist
    rw [toList_mark, List.getLast?_append, List.getLast?_append,
      List.getLast?_eq_some_getLast hback] at hend
    rw [List.getLast?_eq_some_getLast hback]
    simpa [List.getLast?_cons] using hend.symm
  rw [String.toList_append, String.toList_append]
  exact ⟨List.mem_append_right _ (List.mem_of_head? hfirst),
    List.mem_append_left _ (List.mem_of_getLast? hlast)⟩

end Slides

/-- Two ports have one channel exactly when they are one port of one component, or when the
id of the channel can be cut at two places. -/
theorem derive_eq_derive_iff {node port id port' id' : String} :
    derive port node id = derive port' node id' ↔
      port = port' ∧ id = id' ∨ Slides node port id port' id' ∨
        Slides node port' id' port id := by
  constructor
  · intro h
    have hlist := congrArg (fun channel => channel.name.toList) h
    simp only [toList_derive, List.append_cancel_left_eq, List.cons.injEq, true_and] at hlist
    -- The port that is not the longer one is the beginning of the other.
    rcases List.append_eq_append_iff.1 hlist with ⟨gap, hport, hid⟩ | ⟨gap, hport, hid⟩
    · rcases eq_or_slides hport hid with ⟨rfl, rfl⟩ | hslides
      · exact Or.inl ⟨rfl, rfl⟩
      · exact Or.inr (Or.inl hslides)
    · rcases eq_or_slides hport hid with ⟨rfl, rfl⟩ | hslides
      · exact Or.inl ⟨rfl, rfl⟩
      · exact Or.inr (Or.inr hslides)
  · rintro (⟨rfl, rfl⟩ | hslides | hslides)
    · rfl
    · exact hslides.derive_eq
    · exact hslides.derive_eq.symm

/-- With the name of the node at the end of a port and at the beginning of an id, two ports of
two components have one channel. -/
theorem derive_eq_derive_lamps :
    IsName "in" ∧ IsName "home1_light" ∧ IsName "in_home1" ∧ IsName "light" ∧
      "in" ≠ "in_home1" ∧ "home1_light" ≠ "light" ∧
      derive "in" "home1" "home1_light" = derive "in_home1" "home1" "light" := by
  decide +kernel

end Wiring.ChannelId
