import Mathlib.Data.List.Induction
import Wiring.Proofs.Component.Defaults

/-!
# What resolving a component comes to

A declaration may stand several times in a dictionary, with a default or without one, and
may lack a name.  What counts for a key is the first declaration of it that has a default,
`TypeDefinition.firstDefault?`: a resolved component has the values of the request and, under
all other keys, these defaults, `get?_withDefaults`.

The defaults are added in the order of the declarations that they come from.  Each of them is
added when this declaration is reached, since no declaration before it gives the key a
default, `pairwise_defaulted`.  There is nothing left to add the second time, `resolve_exact`.
-/

namespace Wiring

/-! ## Declarations of a key -/

/-- Whether a declaration gives a key a default. -/
def Attribute.gives (key : String) (declared : Attribute) : Bool :=
  declared.name = key && declared.default?.isSome

/-- The default that declarations give a key: that of the first of them that has one.  A key
without a name has none. -/
def Attribute.firstDefault? (declared : List Attribute) (key : String) : Option String :=
  if key = "" then none else (declared.find? (gives key)).bind (·.default?)

/-- The place of the first declaration that gives a key a default. -/
def Attribute.firstPlace (declared : List Attribute) (key : String) : Nat :=
  declared.findIdx (gives key)

namespace Attribute

variable {key : String} {declared : List Attribute}

theorem gives_iff {a : Attribute} : a.gives key = true ↔ a.name = key ∧ a.default?.isSome := by
  rw [gives, Bool.and_eq_true, decide_eq_true_eq]

theorem firstDefault?_nil (key : String) : firstDefault? [] key = none := by
  rw [firstDefault?, List.find?_nil, Option.bind_none, ite_self]

/-- What comes first decides. -/
theorem firstDefault?_cons (a : Attribute) (declared : List Attribute) (key : String) :
    firstDefault? (a :: declared) key =
      (firstDefault? [a] key).or (firstDefault? declared key) := by
  rw [firstDefault?, firstDefault?, firstDefault?]
  split
  · rfl
  · cases hgives : a.gives key with
    | false => simp [hgives]
    | true =>
      obtain ⟨value, hvalue⟩ := Option.isSome_iff_exists.1 (gives_iff.1 hgives).2
      simp [hgives, hvalue]

/-- A key has a default when it has a name and some declaration gives it one. -/
theorem isSome_firstDefault?_iff :
    (firstDefault? declared key).isSome ↔ key ≠ "" ∧ ∃ a ∈ declared, a.gives key := by
  rw [firstDefault?]
  split
  · rename_i hempty
    simp [hempty]
  · rename_i hname
    cases hfind : declared.find? (gives key) with
    | none => simpa [hname] using hfind
    | some a =>
      have hgives : a.gives key = true := List.find?_some hfind
      have hvalue := (gives_iff.1 hgives).2
      exact iff_of_true hvalue ⟨hname, a, List.mem_of_find?_eq_some hfind, hgives⟩

theorem firstPlace_lt_length (h : (firstDefault? declared key).isSome) :
    firstPlace declared key < declared.length := by
  obtain ⟨-, hgiven⟩ := isSome_firstDefault?_iff.1 h
  exact List.findIdx_lt_length.2 hgiven

/-- Further declarations do not move the first one. -/
theorem firstPlace_append_of_isSome (h : (firstDefault? declared key).isSome)
    (more : List Attribute) : firstPlace (declared ++ more) key = firstPlace declared key := by
  rw [firstPlace, List.findIdx_append]
  exact if_pos (firstPlace_lt_length h)

/-- A default that is declared for the first time stands at the end. -/
theorem firstPlace_append_of_eq_none {a : Attribute} (hname : key ≠ "")
    (h : firstDefault? declared key = none) (hgives : a.gives key) :
    firstPlace (declared ++ [a]) key = declared.length := by
  have hnone : ¬ ∃ b ∈ declared, b.gives key := fun hgiven => by
    have hsome := isSome_firstDefault?_iff.2 ⟨hname, hgiven⟩
    rw [h] at hsome
    contradiction
  have hlate : declared.findIdx (gives key) = declared.length := by
    apply List.findIdx_eq_length_of_false
    exact fun b hb => Bool.eq_false_iff.2 fun hgiven => hnone ⟨b, hb, hgiven⟩
  rw [firstPlace, List.findIdx_append, hlate, if_neg (Nat.lt_irrefl _), List.findIdx_singleton,
    hgives]
  simp

end Attribute

/-- The default that a type gives a key. -/
def TypeDefinition.firstDefault? (d : TypeDefinition) (key : String) : Option String :=
  Attribute.firstDefault? d.dictionary key

/-- The place among the declarations of a type where a key gets its default. -/
def TypeDefinition.firstPlace (d : TypeDefinition) (key : String) : Nat :=
  Attribute.firstPlace d.dictionary key

namespace Component

open Attribute

variable {c : Component} {r : Resolution}

/-! ## Adding one default -/

/-- The three things that a declaration can be: without a default, without a use for it, or
with a default that is added. -/
theorem addDefault_cases (r : Resolution) (a : Attribute) :
    (a.default? = none ∧ addDefault r a = r) ∨
      (∃ value, a.default? = some value ∧
        (a.name = "" ∨ r.component.attributes.contains a.name = true) ∧ addDefault r a = r) ∨
      ∃ value, a.default? = some value ∧ a.name ≠ "" ∧
        r.component.attributes.get? a.name = none ∧
        (addDefault r a).component.attributes = r.component.attributes.insert a.name value ∧
        (addDefault r a).defaulted = r.defaulted ++ [a.name] := by
  unfold addDefault
  cases hdefault : a.default? with
  | none => exact Or.inl ⟨rfl, rfl⟩
  | some value =>
    refine Or.inr ?_
    by_cases huseless : a.name = "" ∨ r.component.attributes.contains a.name = true
    · exact Or.inl ⟨value, rfl, huseless, if_pos (by simpa using huseless)⟩
    · obtain ⟨hname, hmissing⟩ := not_or.1 huseless
      have hnone : r.component.attributes.get? a.name = none := by
        simpa [Table.contains] using hmissing
      refine Or.inr ⟨value, rfl, hname, hnone, ?_, ?_⟩ <;> simp [hname, hmissing]

/-- A key that has a value keeps it, and another gets what the declaration gives it. -/
theorem get?_addDefault (r : Resolution) (a : Attribute) (key : String) :
    (addDefault r a).component.attributes.get? key =
      (r.component.attributes.get? key).or (firstDefault? [a] key) := by
  have hgiven : ∀ value, a.default? = some value →
      firstDefault? [a] key = if key ≠ "" ∧ a.name = key then some value else none := by
    intro value hvalue
    by_cases hkey : a.name = key <;> simp [firstDefault?, gives, hvalue, hkey]
  rcases addDefault_cases r a with ⟨hnone, hsame⟩ | ⟨value, hvalue, huseless, hsame⟩ |
    ⟨value, hvalue, hname, hmissing, hinsert, -⟩
  · rw [hsame]
    simp [firstDefault?, gives, hnone]
  · rw [hsame, hgiven value hvalue]
    split
    · rename_i hkey
      obtain ⟨hname, rfl⟩ := hkey
      obtain ⟨old, hold⟩ := Option.isSome_iff_exists.1 (huseless.resolve_left hname)
      rw [hold, Option.some_or]
    · rw [Option.or_none]
  · rw [hinsert, Table.get?_insert, hgiven value hvalue]
    by_cases hkey : key = a.name
    · rw [if_pos hkey, hkey, hmissing, if_pos ⟨hname, rfl⟩, Option.none_or]
    · rw [if_neg hkey, if_neg fun h => hkey h.2.symm, Option.or_none]

theorem get?_foldl_addDefault (declared : List Attribute) (r : Resolution) (key : String) :
    (declared.foldl addDefault r).component.attributes.get? key =
      (r.component.attributes.get? key).or (firstDefault? declared key) := by
  induction declared generalizing r with
  | nil => rw [List.foldl_nil, firstDefault?_nil, Option.or_none]
  | cons a declared ih =>
    rw [List.foldl_cons, ih, get?_addDefault, Option.or_assoc, ← firstDefault?_cons]

/-! ## Which defaults are added, and in which order -/

theorem withDefaults_concat (c : Component) (declared : List Attribute) (a : Attribute) :
    c.withDefaults (declared ++ [a]) = addDefault (c.withDefaults declared) a :=
  List.foldl_concat ..

theorem get?_withDefaults (c : Component) (declared : List Attribute) (key : String) :
    (c.withDefaults declared).component.attributes.get? key =
      (c.attributes.get? key).or (firstDefault? declared key) :=
  get?_foldl_addDefault declared ⟨c, true, []⟩ key

/-- The added keys are those that have a value now and had none. -/
theorem Extends.mem_defaulted_iff {added : List (String × String)} (h : c.Extends r added)
    {key : String} :
    key ∈ r.defaulted ↔ key ∈ r.component.attributes.keys ∧ key ∉ c.attributes.keys := by
  have hkeys : r.component.attributes.keys.Perm (c.attributes.keys ++ r.defaulted) := by
    rw [h.defaulted, Table.keys, Table.keys, ← List.map_append]
    exact h.entries.map _
  have hapart : key ∈ c.attributes.keys → key ∉ r.defaulted := fun hold hadded => by
    obtain ⟨entry, hentry, rfl⟩ := List.mem_map.1 hold
    exact h.notMem_defaulted hentry hadded
  rw [hkeys.mem_iff, List.mem_append]
  constructor
  · exact fun hadded => ⟨Or.inr hadded, fun hold => hapart hold hadded⟩
  · exact fun hnew => hnew.1.resolve_left hnew.2

/-- An added key got the first default that was declared for it. -/
theorem isSome_firstDefault?_of_mem {declared : List Attribute} {key : String}
    (h : key ∈ (c.withDefaults declared).defaulted) : (firstDefault? declared key).isSome := by
  obtain ⟨added, hextends⟩ := c.exists_extends_withDefaults declared
  obtain ⟨hthere, hnew⟩ := hextends.mem_defaulted_iff.1 h
  rw [Table.mem_keys_iff, Table.contains, get?_withDefaults] at hthere
  rw [Table.mem_keys_iff, Table.contains, Option.not_isSome_iff_eq_none] at hnew
  rwa [hnew, Option.none_or] at hthere

/-- The defaults are added in the order of the declarations that first give them. -/
theorem pairwise_defaulted (c : Component) (declared : List Attribute) :
    (c.withDefaults declared).defaulted.Pairwise fun k k' =>
      firstPlace declared k < firstPlace declared k' := by
  induction declared using List.reverseRecOn with
  | nil => exact List.Pairwise.nil
  | append_singleton declared a ih =>
    rw [withDefaults_concat]
    -- The places of the keys that were added before stay as they are.
    have hbefore : (c.withDefaults declared).defaulted.Pairwise fun k k' =>
        firstPlace (declared ++ [a]) k < firstPlace (declared ++ [a]) k' := by
      refine ih.imp_of_mem fun {k k'} hk hk' hlt => ?_
      rw [firstPlace_append_of_isSome (isSome_firstDefault?_of_mem hk),
        firstPlace_append_of_isSome (isSome_firstDefault?_of_mem hk')]
      exact hlt
    rcases addDefault_cases (c.withDefaults declared) a with ⟨-, hsame⟩ | ⟨-, -, -, hsame⟩ |
      ⟨value, hvalue, hname, hmissing, -, hdefaulted⟩
    · rw [hsame]
      exact hbefore
    · rw [hsame]
      exact hbefore
    · rw [hdefaulted, List.pairwise_append]
      refine ⟨hbefore, List.pairwise_singleton _ _, fun k hk k' hk' => ?_⟩
      obtain rfl := List.mem_singleton.1 hk'
      -- Without a value the key has had no default so far.
      rw [get?_withDefaults, Option.or_eq_none_iff] at hmissing
      have hgives : a.gives a.name = true := by simp [gives, hvalue]
      rw [firstPlace_append_of_isSome (isSome_firstDefault?_of_mem hk),
        firstPlace_append_of_eq_none hname hmissing.2 hgives]
      exact firstPlace_lt_length (isSome_firstDefault?_of_mem hk)

/-- A declaration without a default, without a name or behind another one does not count. -/
example :
    let declared : List Attribute := [⟨"rate", none⟩, ⟨"", some "0"⟩, ⟨"unit", some "W"⟩,
      ⟨"mode", some "on"⟩, ⟨"rate", some "5"⟩, ⟨"unit", some "kW"⟩, ⟨"rate", some "9"⟩]
    let r := withDefaults { attributes := .ofList [("mode", "eco")] } declared
    r.component.attributes.entries = [("mode", "eco"), ("rate", "5"), ("unit", "W")] ∧
      r.defaulted = ["unit", "rate"] := by
  decide +kernel

/-! ## Nothing is added twice -/

theorem typeResolved_addDefault (r : Resolution) (a : Attribute) :
    (addDefault r a).typeResolved = r.typeResolved := by
  unfold addDefault
  split
  · rfl
  split
  · rfl
  · rfl

theorem typeResolved_foldl_addDefault (declared : List Attribute) (r : Resolution) :
    (declared.foldl addDefault r).typeResolved = r.typeResolved := by
  induction declared generalizing r with
  | nil => rfl
  | cons a declared ih => rw [List.foldl_cons, ih, typeResolved_addDefault]

/-- Declarations whose defaults are all there add nothing. -/
theorem foldl_addDefault_eq_self {declared : List Attribute}
    (h : ∀ key, (firstDefault? declared key).isSome → r.component.attributes.contains key) :
    declared.foldl addDefault r = r := by
  induction declared with
  | nil => rfl
  | cons a declared ih =>
    have hstays : addDefault r a = r := by
      rcases addDefault_cases r a with ⟨-, hsame⟩ | ⟨-, -, -, hsame⟩ |
        ⟨value, hvalue, hname, hmissing, -, -⟩
      · exact hsame
      · exact hsame
      · have hgives : a.gives a.name = true := by simp [gives, hvalue]
        have hthere := h a.name
          (isSome_firstDefault?_iff.2 ⟨hname, a, List.mem_cons_self, hgives⟩)
        rw [Table.contains, hmissing] at hthere
        contradiction
    rw [List.foldl_cons, hstays]
    refine ih fun key hkey => h key ?_
    obtain ⟨hname, b, hb, hgives⟩ := isSome_firstDefault?_iff.1 hkey
    exact isSome_firstDefault?_iff.2 ⟨hname, b, List.mem_cons_of_mem a hb, hgives⟩

/-! ## Main statement -/

/-- A component is resolved by the declaration of its type: it has what was requested and,
under the keys that it lacked, the defaults. -/
structure ResolvedBy (c : Component) (d : TypeDefinition) (r : Resolution) : Prop where
  typeResolved : r.typeResolved = true
  id : r.component.id = c.id
  typeName : r.component.typeName = c.typeName
  portBindings : r.component.portBindings = c.portBindings
  get?_attributes : ∀ key,
    r.component.attributes.get? key = (c.attributes.get? key).or (d.firstDefault? key)
  mem_defaulted_iff : ∀ key,
    key ∈ r.defaulted ↔ key ∈ r.component.attributes.keys ∧ key ∉ c.attributes.keys
  nodup : r.defaulted.Nodup
  ordered : r.defaulted.Pairwise fun k k' => d.firstPlace k < d.firstPlace k'

theorem resolve_eq (c : Component) (m : Model) :
    c.resolve m = match m.findType c.typeName with
      | none => ⟨c, false, []⟩
      | some d => c.withDefaults d.dictionary := rfl

theorem resolvedBy_withDefaults (c : Component) (d : TypeDefinition) :
    c.ResolvedBy d (c.withDefaults d.dictionary) := by
  obtain ⟨added, hextends⟩ := c.exists_extends_withDefaults d.dictionary
  have hordered := c.pairwise_defaulted d.dictionary
  have hnodup : (c.withDefaults d.dictionary).defaulted.Nodup := by
    apply hordered.imp
    rintro k k' hlt rfl
    exact Nat.lt_irrefl _ hlt
  exact {
    typeResolved := typeResolved_foldl_addDefault d.dictionary ⟨c, true, []⟩
    id := hextends.id
    typeName := hextends.typeName
    portBindings := hextends.portBindings
    get?_attributes := c.get?_withDefaults d.dictionary
    mem_defaulted_iff := fun _ => hextends.mem_defaulted_iff
    nodup := hnodup
    ordered := hordered }

/-- A component whose type is not declared stays as it is.  Otherwise it gets the defaults
that the declaration of its type has first for the keys that it lacks, in their order.
Resolving it once more adds nothing. -/
theorem resolve_exact (c : Component) (m : Model) :
    (match m.findType c.typeName with
      | none => c.resolve m = ⟨c, false, []⟩
      | some d => c.ResolvedBy d (c.resolve m)) ∧
      (c.resolve m).component.resolve m = { c.resolve m with defaulted := [] } := by
  rw [resolve_eq c m]
  cases hfind : m.findType c.typeName with
  | none =>
    refine ⟨rfl, ?_⟩
    rw [resolve_eq, hfind]
  | some d =>
    have hresolved := c.resolvedBy_withDefaults d
    refine ⟨hresolved, ?_⟩
    dsimp only
    rw [resolve_eq, hresolved.typeName, hfind, hresolved.typeResolved]
    apply foldl_addDefault_eq_self
    intro key hkey
    show (Table.get? _ key).isSome
    rw [hresolved.get?_attributes, Option.isSome_or, TypeDefinition.firstDefault?, hkey,
      Bool.or_true]

end Component

end Wiring
