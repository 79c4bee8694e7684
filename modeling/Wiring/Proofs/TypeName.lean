import Wiring.TypeName

/-!
# Written type names

The version of a type name is all that stands behind its first slash, and what a name is
parted into does not depend on it, `parse_unversioned`.  A name that is written from the names
of packages and a simple name is parted into them again, `parse_write`.
-/

namespace Wiring.TypeName

open Wiring.Text

/-! ## Versions -/

/-- A type name up to the slash in front of its version. -/
def unversioned (name : String) : String := String.ofList (upTo '/' name.toList)

/-- What stands behind a type name for its version. -/
def versionText : Option String → String
  | none => ""
  | some version => "/" ++ version

theorem upTo_of_not_mem {mark : Char} {cs : List Char} (h : mark ∉ cs) : upTo mark cs = cs := by
  rw [upTo, cutFirst_eq_none_iff.2 h]

theorem not_mem_upTo (mark : Char) (cs : List Char) : mark ∉ upTo mark cs := by
  rw [upTo]
  cases hcut : cutFirst mark cs with
  | none => exact cutFirst_eq_none_iff.1 hcut
  | some parts => exact (cutFirst_eq_some_iff.1 hcut).2

theorem parse_congr {name other : String} (h : unversioned name = unversioned other) :
    parse name = parse other := by
  rw [parse, parse, String.ofList_injective h]

@[simp] theorem unversioned_unversioned (name : String) :
    unversioned (unversioned name) = unversioned name := by
  rw [unversioned, unversioned, String.toList_ofList, upTo_of_not_mem (not_mem_upTo _ _)]

@[simp] theorem parse_unversioned (name : String) : parse (unversioned name) = parse name :=
  parse_congr (unversioned_unversioned name)

theorem unversioned_append {name : String} (hname : '/' ∉ name.toList)
    (version? : Option String) : unversioned (name ++ versionText version?) = name := by
  cases version? with
  | none => simp [unversioned, versionText, upTo_of_not_mem hname]
  | some version =>
    have htext : (name ++ versionText (some version)).toList =
        name.toList ++ '/' :: version.toList := by
      simp [versionText]
    rw [unversioned, htext, upTo, cutFirst_append hname, String.ofList_toList]

/-! ## Names of packages -/

/-- A part of a type name that can be told apart from the others. -/
def IsSegment (s : String) : Prop := '.' ∉ s.toList ∧ '/' ∉ s.toList

instance (s : String) : Decidable (IsSegment s) :=
  inferInstanceAs (Decidable (_ ∧ _))

/-- The type name of a simple name in a package, which is given by the names on the way to it. -/
def write (path : List String) (simple : String) (version? : Option String) : String :=
  ".".intercalate (path ++ [simple]) ++ versionText version?

theorem not_mem_intercalate {mark : Char} {parts : List String} (hmark : mark ≠ '.')
    (hparts : ∀ s ∈ parts, mark ∉ s.toList) : mark ∉ (".".intercalate parts).toList := by
  induction parts with
  | nil => simp
  | cons first rest ih =>
    have hrest := ih fun s hs => hparts s (List.mem_cons_of_mem _ hs)
    have hfirst := hparts first List.mem_cons_self
    cases rest with
    | nil => simpa using hfirst
    | cons next rest =>
      rw [String.intercalate_cons_cons, String.toList_append, String.toList_append]
      simp only [List.mem_append, not_or]
      exact ⟨⟨hfirst, by simpa using hmark⟩, hrest⟩

theorem fields_intercalate {path : List String} (hne : path ≠ [])
    (hpath : ∀ s ∈ path, '.' ∉ s.toList) :
    (fields '.' (".".intercalate path).toList).map String.ofList = path := by
  induction path with
  | nil => exact absurd rfl hne
  | cons first rest ih =>
    have hfirst := hpath first List.mem_cons_self
    cases rest with
    | nil => simp [fields_of_not_mem hfirst]
    | cons next rest =>
      have htext : (".".intercalate (first :: next :: rest)).toList =
          first.toList ++ '.' :: (".".intercalate (next :: rest)).toList := by
        rw [String.intercalate_cons_cons]
        simp
      rw [htext, fields_append _ hfirst, List.map_cons, String.ofList_toList,
        ih (List.cons_ne_nil _ _) fun s hs => hpath s (List.mem_cons_of_mem _ hs)]

theorem intercalate_concat {path : List String} (hne : path ≠ []) (simple : String) :
    (".".intercalate (path ++ [simple])).toList =
      (".".intercalate path).toList ++ '.' :: simple.toList := by
  induction path with
  | nil => exact absurd rfl hne
  | cons first rest ih =>
    cases rest with
    | nil => simp [String.intercalate_cons_cons]
    | cons next rest =>
      have hrest := ih (List.cons_ne_nil _ _)
      simp only [List.cons_append, String.intercalate_cons_cons] at hrest ⊢
      simp [hrest]

/-- A written name is parted into its package and its simple name. -/
theorem parse_write {path : List String} {simple : String} (hne : path ≠ [])
    (hpath : ∀ s ∈ path, IsSegment s) (hsimple : IsSegment simple) (version? : Option String) :
    parse (write path simple version?) = ⟨".".intercalate path, simple⟩ := by
  have hslash : '/' ∉ (".".intercalate (path ++ [simple])).toList := by
    refine not_mem_intercalate (by decide) fun s hs => ?_
    rcases List.mem_append.1 hs with hs | hs
    · exact (hpath s hs).2
    · rw [List.mem_singleton.1 hs]
      exact hsimple.2
  have hcut : cutLast '.' (".".intercalate (path ++ [simple])).toList =
      some ((".".intercalate path).toList, simple.toList) :=
    cutLast_eq_some_iff.2 ⟨intercalate_concat hne simple, hsimple.1⟩
  rw [write, ← parse_unversioned, unversioned_append hslash, parse, upTo_of_not_mem hslash]
  simp only [hcut, String.ofList_toList]

end Wiring.TypeName
