import Mathlib.Data.List.Nodup
import Wiring.Model.Lookup
import Wiring.Proofs.TypeName

/-!
# Declared types

A type name is written with dots between the names of packages and the simple name of the
type, and perhaps a slash and a version behind it.  Where no two packages that stand beside
one another have the same name, looking up such a name finds the declaration that counts in
the package that the names lead to, and nothing when they lead nowhere or nothing of that
simple name is declared there: `findType_exact`.

What the names lead to is said by `Package.Reached`, which knows nothing of the order in which
a look-up goes through the packages.  The look-up takes the first package of each name, so
`Reached` is wider than the look-up where names are shared, and the same where they are not,
`walk_eq_some_iff`.
-/

namespace Wiring

open Wiring.Text

/-! ## Packages on the way -/

namespace Package

variable {roots siblings : List Package} {path : List String} {p q : Package} {name : String}

/-- Names lead from packages that stand beside one another to a package. -/
inductive Reached : List Package → List String → Package → Prop where
  | here {siblings : List Package} {p : Package} (hp : p ∈ siblings) :
    Reached siblings [p.name] p
  | inside {siblings : List Package} {p q : Package} {path : List String} (hp : p ∈ siblings)
    (hbelow : Reached p.packages path q) : Reached siblings (p.name :: path) q

/-- Packages that stand beside one another somewhere in a tree of packages. -/
inductive Siblings (roots : List Package) : List Package → Prop where
  | roots : Siblings roots roots
  | inside {siblings : List Package} {p : Package} (hsiblings : Siblings roots siblings)
    (hp : p ∈ siblings) : Siblings roots p.packages

/-- Nowhere in a tree do two packages that stand beside one another have the same name. -/
def Unambiguous (roots : List Package) : Prop :=
  ∀ siblings, Siblings roots siblings → (siblings.map (·.name)).Nodup

theorem Siblings.of_below (hp : p ∈ roots) (h : Siblings p.packages siblings) :
    Siblings roots siblings := by
  induction h with
  | roots => exact .inside .roots hp
  | inside _ hmem ih => exact .inside ih hmem

theorem Siblings.eq_or_below (h : Siblings roots siblings) :
    siblings = roots ∨ ∃ p ∈ roots, Siblings p.packages siblings := by
  induction h with
  | roots => exact Or.inl rfl
  | inside _ hmem ih =>
    rcases ih with rfl | ⟨p, hp, hbelow⟩
    · exact Or.inr ⟨_, hmem, .roots⟩
    · exact Or.inr ⟨p, hp, .inside hbelow hmem⟩

/-- A tree is unambiguous when its roots are, and the trees below them. -/
theorem unambiguous_iff :
    Unambiguous roots ↔
      (roots.map (·.name)).Nodup ∧ ∀ p ∈ roots, Unambiguous p.packages := by
  constructor
  · intro h
    exact ⟨h roots .roots, fun p hp siblings hsiblings => h siblings (.of_below hp hsiblings)⟩
  · rintro ⟨hroots, hbelow⟩ siblings hsiblings
    rcases hsiblings.eq_or_below with rfl | ⟨p, hp, hsiblings⟩
    · exact hroots
    · exact hbelow p hp siblings hsiblings

/-- Names that lead somewhere lead somewhere up to each of them. -/
theorem Reached.of_append {front back : List String} (hfront : front ≠ [])
    (h : Reached siblings (front ++ back) q) : ∃ p, Reached siblings front p := by
  induction front generalizing siblings with
  | nil => exact absurd rfl hfront
  | cons first front ih =>
    cases front with
    | nil => cases h with
      | here hp => exact ⟨_, .here hp⟩
      | inside hp _ => exact ⟨_, .here hp⟩
    | cons next front => cases h with
      | inside hp hbelow =>
        obtain ⟨p, hreached⟩ := ih (List.cons_ne_nil _ _) hbelow
        exact ⟨p, .inside hp hreached⟩

/-! ## The look-up of packages -/

theorem among_eq_some_iff (hnames : (siblings.map (·.name)).Nodup) :
    among siblings name = some p ↔ p ∈ siblings ∧ p.name = name := by
  constructor
  · intro h
    exact ⟨List.mem_of_find?_eq_some h, by simpa using List.find?_some h⟩
  · rintro ⟨hp, rfl⟩
    cases hfind : among siblings p.name with
    | none => exact absurd (List.find?_eq_none.1 hfind p hp) (by simp)
    | some q =>
      have hq := List.mem_of_find?_eq_some hfind
      have hname : q.name = p.name := by simpa using List.find?_some hfind
      rw [List.inj_on_of_nodup_map hnames hq hp hname]

/-- What the look-up finds is where the names lead. -/
theorem reached_of_walk {first : String} {rest : List String}
    (h : walk siblings first rest = some p) : Reached siblings (first :: rest) p := by
  induction rest generalizing siblings first with
  | nil =>
    have hname : p.name = first := by simpa using List.find?_some h
    exact hname ▸ .here (List.mem_of_find?_eq_some h)
  | cons next rest ih =>
    rw [walk, Option.bind_eq_bind, Option.bind_eq_some_iff] at h
    obtain ⟨q, hq, hrest⟩ := h
    have hname : q.name = first := by simpa using List.find?_some hq
    exact hname ▸ .inside (List.mem_of_find?_eq_some hq) (ih hrest)

/-- Where names are not shared, the look-up finds what the names lead to. -/
theorem walk_eq_some_iff (hsiblings : Unambiguous siblings) {first : String}
    {rest : List String} :
    walk siblings first rest = some p ↔ Reached siblings (first :: rest) p := by
  refine ⟨reached_of_walk, fun h => ?_⟩
  induction rest generalizing siblings first with
  | nil => cases h with
    | here hp => exact (among_eq_some_iff (unambiguous_iff.1 hsiblings).1).2 ⟨hp, rfl⟩
    | inside _ hbelow => cases hbelow
  | cons next rest ih => cases h with
    | @inside _ q _ _ hq hbelow =>
      obtain ⟨hnames, hbelows⟩ := unambiguous_iff.1 hsiblings
      rw [walk, (among_eq_some_iff hnames).2 ⟨hq, rfl⟩]
      exact ih (hbelows q hq) hbelow

/-- Names lead to one package at most. -/
theorem Reached.unique (hsiblings : Unambiguous siblings) (hp : Reached siblings path p)
    (hq : Reached siblings path q) : p = q := by
  cases path with
  | nil => cases hp
  | cons first rest =>
    have hfound := (walk_eq_some_iff hsiblings).2 hp
    rw [(walk_eq_some_iff hsiblings).2 hq] at hfound
    exact (Option.some.inj hfound).symm

/-! ## The look-up of types -/

variable {simple : String} {d : TypeDefinition}

/-- A declaration counts in a package: the later ones there are of other simple names. -/
def LastDeclared (p : Package) (simple : String) (d : TypeDefinition) : Prop :=
  ∃ earlier later, p.types = earlier ++ d :: later ∧ d.name = simple ∧
    ∀ other ∈ later, other.name ≠ simple

theorem findType_eq_some_iff : p.findType simple = some d ↔ p.LastDeclared simple d := by
  rw [findType, List.find?_eq_some_iff_append]
  constructor
  · rintro ⟨hname, later, earlier, hsplit, hlater⟩
    refine ⟨earlier.reverse, later.reverse, ?_, by simpa using hname, fun other hother => ?_⟩
    · simpa using List.reverse_eq_append_iff.1 hsplit
    · simpa using hlater other (List.mem_reverse.1 hother)
  · rintro ⟨earlier, later, hsplit, hname, hlater⟩
    refine ⟨by simpa using hname, later.reverse, earlier.reverse, ?_, fun other hother => ?_⟩
    · simp [hsplit]
    · simpa using hlater other (List.mem_reverse.1 hother)

theorem isSome_findType_iff :
    (p.findType simple).isSome ↔ ∃ d ∈ p.types, d.name = simple := by
  simp [findType, List.find?_isSome]

end Package

/-! ## Type names in a model -/

namespace Model

open Package (Reached Unambiguous LastDeclared)

variable {m : Model}

theorem findType_write {path : List String} {simple : String} (hne : path ≠ [])
    (hpath : ∀ s ∈ path, TypeName.IsSegment s) (hsimple : TypeName.IsSegment simple)
    (version? : Option String) :
    m.findType (TypeName.write path simple version?) =
      (m.findPackage (".".intercalate path)).bind fun p => p.findType simple := by
  rw [findType, TypeName.parse_write hne hpath hsimple]
  rfl

theorem findPackage_intercalate {first : String} {rest : List String}
    (hpath : ∀ s ∈ first :: rest, '.' ∉ s.toList) :
    m.findPackage (".".intercalate (first :: rest)) =
      if first = "" then none else Package.walk m.packages first rest := by
  rw [findPackage, TypeName.fields_intercalate (List.cons_ne_nil _ _) hpath]

/-- A package that is found is one that the names lead to. -/
theorem reached_of_findPackage {path : List String} {p : Package} (hne : path ≠ [])
    (hpath : ∀ s ∈ path, '.' ∉ s.toList)
    (h : m.findPackage (".".intercalate path) = some p) : Reached m.packages path p := by
  cases path with
  | nil => exact absurd rfl hne
  | cons first rest =>
    rw [findPackage_intercalate hpath] at h
    split at h
    · simp at h
    · exact Package.reached_of_walk h

theorem findPackage_eq_some_iff (hm : Unambiguous m.packages) {path : List String}
    {p : Package} (hne : path ≠ []) (hpath : ∀ s ∈ path, '.' ∉ s.toList)
    (hfull : ∀ s ∈ path, s ≠ "") :
    m.findPackage (".".intercalate path) = some p ↔ Reached m.packages path p := by
  cases path with
  | nil => exact absurd rfl hne
  | cons first rest =>
    rw [findPackage_intercalate hpath, if_neg (hfull first List.mem_cons_self)]
    exact Package.walk_eq_some_iff hm

/-- The package of a name without one, and of a name that begins with a dot, is nowhere. -/
theorem findPackage_eq_none_of_head {cs : List Char} (h : cs = [] ∨ cs.head? = some '.') :
    m.findPackage (String.ofList cs) = none := by
  have hfirst : ∃ others, fields '.' cs = [] :: others := by
    cases cs with
    | nil => exact ⟨[], rfl⟩
    | cons c rest =>
      obtain rfl : c = '.' := by simpa using h
      exact ⟨fields '.' rest, if_pos rfl⟩
  obtain ⟨others, hothers⟩ := hfirst
  rw [findPackage, String.toList_ofList, hothers]
  simp

theorem findType_eq_none_of_head {name : String}
    (h : '.' ∉ upTo '/' name.toList ∨ name.toList.head? = some '.') : m.findType name = none := by
  suffices hpackage : m.findPackage (TypeName.parse name).package = none by
    rw [findType, hpackage]
    rfl
  rw [TypeName.parse]
  cases hcut : cutLast '.' (upTo '/' name.toList) with
  | none => exact findPackage_eq_none_of_head (Or.inl rfl)
  | some parts =>
    obtain ⟨hparts, -⟩ := cutLast_eq_some_iff.1 hcut
    refine findPackage_eq_none_of_head ?_
    rcases h with hdot | hhead
    · exact absurd (hparts ▸ List.mem_append_right _ List.mem_cons_self) hdot
    · -- The dot at the front is no slash, so it stays when the version is cut off.
      have hfront : (upTo '/' name.toList).head? = some '.' := by
        cases hname : name.toList with
        | nil => simp [hname] at hhead
        | cons c rest =>
          obtain rfl : c = '.' := by simpa [hname] using hhead
          rw [upTo, cutFirst, if_neg (by decide)]
          cases cutFirst '/' rest <;> rfl
      rw [hparts] at hfront
      cases hbefore : parts.1 with
      | nil => exact Or.inl rfl
      | cons c rest => exact Or.inr (by simpa [hbefore] using hfront)

/-- Names lead to one package at most, and looking up a type name finds the declaration that
counts in the package that its names lead to, whatever the version is.  A name without a
package, one that begins with a dot, and one whose names lead nowhere at some point are not
found. -/
theorem findType_exact (hm : Unambiguous m.packages) :
    (∀ path p q, Reached m.packages path p → Reached m.packages path q → p = q) ∧
    (∀ path simple version?, path ≠ [] → (∀ s ∈ path, s ≠ "" ∧ TypeName.IsSegment s) →
      TypeName.IsSegment simple →
        ((m.findType (TypeName.write path simple version?)).isSome ↔
          ∃ p, Reached m.packages path p ∧ ∃ d ∈ p.types, d.name = simple) ∧
        ∀ d, m.findType (TypeName.write path simple version?) = some d ↔
          ∃ p, Reached m.packages path p ∧ p.LastDeclared simple d) ∧
    (∀ name, '.' ∉ upTo '/' name.toList → m.findType name = none) ∧
    (∀ rest, m.findType ("." ++ rest) = none) ∧
    ∀ front back simple version?, front ≠ [] →
      (∀ s ∈ front ++ back, TypeName.IsSegment s) → TypeName.IsSegment simple →
      (¬ ∃ p, Reached m.packages front p) →
        m.findType (TypeName.write (front ++ back) simple version?) = none := by
  refine ⟨fun _ _ _ => Reached.unique hm, fun path simple version? hne hpath hsimple => ?_,
    fun name h => findType_eq_none_of_head (Or.inl h),
    fun rest => findType_eq_none_of_head (Or.inr (by simp)),
    fun front back simple version? hne hpath hsimple hnowhere => ?_⟩
  · have hpackage : ∀ p, m.findPackage (".".intercalate path) = some p ↔
        Reached m.packages path p := fun p =>
      findPackage_eq_some_iff hm hne (fun s hs => (hpath s hs).2.1) fun s hs => (hpath s hs).1
    rw [findType_write hne (fun s hs => (hpath s hs).2) hsimple]
    constructor
    · simp only [Option.isSome_bind, Option.any_eq_true, hpackage,
        Package.isSome_findType_iff]
    · intro d
      simp only [Option.bind_eq_some_iff, hpackage, Package.findType_eq_some_iff]
  · have hwhole : front ++ back ≠ [] := fun h => hne (List.append_eq_nil_iff.1 h).1
    rw [findType_write hwhole hpath hsimple]
    cases hfind : m.findPackage (".".intercalate (front ++ back)) with
    | none => rfl
    | some p =>
      have hreached := reached_of_findPackage hwhole (fun s hs => (hpath s hs).1) hfind
      exact absurd (hreached.of_append hne) hnowhere

/-- A model with two declarations of one type in a nested package. -/
def twoLamps : Model where
  packages := [
    { name := "org"
      packages := [
        { name := "home"
          types := [{ name := "Lamp", version? := some "1.0" }, { name := "Meter" },
            { name := "Lamp", version? := some "2.0" }] }] },
    { name := "home" }]

theorem unambiguous_twoLamps : Unambiguous twoLamps.packages := by
  have hnone : Unambiguous [] :=
    Package.unambiguous_iff.2 ⟨List.nodup_nil, fun _ hp => absurd hp List.not_mem_nil⟩
  have hhome : ∀ types, Unambiguous [{ name := "home", types }] := fun types =>
    Package.unambiguous_iff.2 ⟨by simp, by simpa using hnone⟩
  refine Package.unambiguous_iff.2 ⟨by decide, ?_⟩
  simpa [twoLamps] using ⟨hhome _, hnone⟩

theorem findType_exact_twoLamps :
    Unambiguous twoLamps.packages ∧
      twoLamps.findType "org.home.Lamp/1.0/rc.1" =
        some { name := "Lamp", version? := some "2.0" } ∧
      twoLamps.findType "org.Lamp/1" = none ∧ twoLamps.findType "org.work.room.Lamp" = none := by
  obtain ⟨-, hfound, -, -, hnowhere⟩ := findType_exact unambiguous_twoLamps
  refine ⟨unambiguous_twoLamps, ?_, ?_, ?_⟩
  · have hlamp := (hfound ["org", "home"] "Lamp" (some "1.0/rc.1") (by decide) (by decide)
      (by decide)).2 { name := "Lamp", version? := some "2.0" }
    refine hlamp.2 ⟨_, .inside List.mem_cons_self (.here List.mem_cons_self), ?_⟩
    exact ⟨[_, _], [], rfl, rfl, by simp⟩
  · have hlamp := (hfound ["org"] "Lamp" (some "1") (by decide) (by decide) (by decide)).1
    refine Option.not_isSome_iff_eq_none.1 fun hsome => ?_
    obtain ⟨p, hp, hd⟩ := hlamp.1 hsome
    have horg := (Package.walk_eq_some_iff unambiguous_twoLamps).2 hp
    obtain rfl := Option.some.inj horg
    simp at hd
  · refine hnowhere ["org", "work"] ["room"] "Lamp" none (by decide) (by decide) (by decide) ?_
    rintro ⟨p, hp⟩
    have hwork := (Package.walk_eq_some_iff unambiguous_twoLamps).2 hp
    simp [twoLamps, Package.walk, Package.among] at hwork

end Model

end Wiring
