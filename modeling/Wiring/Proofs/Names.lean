import Wiring.Linker.Request
import Wiring.Proofs.Script.Expressible

/-!
# Names for scripts

A name of letters, digits, low lines and hyphens can stand at every place of a script:
it is a field of an address, a member of a component, and a part of a channel id.
Settings, components, models and requests are safe for scripts when the names that
can come into a script from them are such names.
-/

namespace Wiring

open Wiring.Text

/-- A name that is not empty and has only the characters of port names. -/
structure IsName (s : String) : Prop where
  ne_empty : s ≠ ""
  isNameChar : ∀ c ∈ s.toList, BindingEntry.isNameChar c = true

instance (s : String) : Decidable (IsName s) :=
  decidable_of_iff (s ≠ "" ∧ s.toList.all BindingEntry.isNameChar = true)
    ⟨fun h => ⟨h.1, List.all_eq_true.1 h.2⟩,
      fun h => ⟨h.ne_empty, List.all_eq_true.2 h.isNameChar⟩⟩

theorem isName_ofList_iff {cs : List Char} :
    IsName (String.ofList cs) ↔ cs ≠ [] ∧ cs.all BindingEntry.isNameChar = true := by
  constructor
  · intro h
    refine ⟨fun hempty => h.ne_empty (by rw [hempty]), List.all_eq_true.2 fun c hc => ?_⟩
    exact h.isNameChar c (by rwa [String.toList_ofList])
  · rintro ⟨hne, hall⟩
    refine ⟨fun hempty => hne ?_, fun c hc => List.all_eq_true.1 hall c ?_⟩
    · have hlist := congrArg String.toList hempty
      rwa [String.toList_ofList] at hlist
    · rwa [String.toList_ofList] at hc

/-! ## Names as words -/

theorem isWordChar_of_isNameChar {c : Char} (hc : BindingEntry.isNameChar c = true) :
    Script.isWordChar c = true := by
  simp only [BindingEntry.isNameChar, Bool.or_eq_true] at hc
  simp only [Script.isWordChar, Bool.or_eq_true]
  exact Or.inl (Or.inl hc)

theorem IsName.notMem {s : String} (hs : IsName s) {c : Char}
    (hc : BindingEntry.isNameChar c = false) : c ∉ s.toList := by
  intro hmem
  have hname := hs.isNameChar c hmem
  rw [hc] at hname
  contradiction

theorem IsName.isWord {s : String} (hs : IsName s) : Script.IsWord s :=
  ⟨hs.ne_empty, fun c hc => isWordChar_of_isNameChar (hs.isNameChar c hc)⟩

theorem IsName.isField {s : String} (hs : IsName s) : Script.IsField s :=
  ⟨hs.isWord, hs.notMem (by decide)⟩

theorem IsName.not_beginsComment {s : String} (hs : IsName s) :
    ¬ Script.BeginsComment s := by
  intro hslashes
  have hmem : '/' ∈ s.toList := hslashes.subset (by simp)
  exact hs.notMem (by decide) hmem

theorem isField_append {s t : String} (hs : Script.IsField s) (ht : Script.IsField t) :
    Script.IsField (s ++ t) := by
  refine ⟨⟨fun hempty => ?_, fun c hc => ?_⟩, ?_⟩
  · exact hs.isWord.1 (String.append_eq_empty_iff.1 hempty).1
  · rw [String.toList_append, List.mem_append] at hc
    exact hc.elim (hs.isWord.2 c) (ht.isWord.2 c)
  · rw [String.toList_append]
    exact List.not_mem_append hs.noDot ht.noDot

theorem isField_derive {port node component : String} (hport : Script.IsField port)
    (hnode : Script.IsField node) (hcomponent : Script.IsField component) :
    Script.IsField (ChannelId.derive port node component).name := by
  have hchan : Script.IsField ChannelId.derivedPrefix := by decide
  have hmark : Script.IsField "_" := by decide
  have hfront := isField_append (isField_append (isField_append hchan hmark) hport) hmark
  exact isField_append (isField_append (isField_append hfront hnode) hmark) hcomponent

theorem isBare_derive {port node component : String} (hport : Script.IsField port)
    (hnode : Script.IsField node) (hcomponent : Script.IsField component) :
    Script.IsBare (ChannelId.derive port node component).name := by
  -- Neither a comment nor a keyword begins as a derived channel id does.
  have hhead : (ChannelId.derive port node component).name.toList.head? = some 'c' := by
    simp [ChannelId.derive, ChannelId.derivedPrefix]
  refine ⟨(isField_derive hport hnode hcomponent).isWord, fun hslashes => ?_, fun hkeyword => ?_⟩
  · obtain ⟨rest, hrest⟩ := hslashes
    simp [← hrest] at hhead
  · have hfirst : ∀ word ∈ Script.keywords, word.toList.head? ≠ some 'c' := by decide
    exact hfirst _ hkeyword hhead

/-! ## Safe settings and components -/

/-- The names that the settings bring into scripts are safe. -/
structure Settings.ScriptSafe (settings : Settings) : Prop where
  nodeName : IsName settings.nodeName
  channelType : Script.IsBare settings.channelType

instance (settings : Settings) : Decidable settings.ScriptSafe :=
  decidable_of_iff (IsName settings.nodeName ∧ Script.IsBare settings.channelType)
    ⟨fun h => ⟨h.1, h.2⟩, fun h => ⟨h.nodeName, h.channelType⟩⟩

/-- The three names of a destination are safe. -/
structure Destination.ScriptSafe (d : Destination) : Prop where
  node : IsName d.component.node
  id : IsName d.component.id
  port : IsName d.port

instance (d : Destination) : Decidable d.ScriptSafe :=
  decidable_of_iff (IsName d.component.node ∧ IsName d.component.id ∧ IsName d.port)
    ⟨fun h => ⟨h.1, h.2.1, h.2.2⟩, fun h => ⟨h.node, h.id, h.port⟩⟩

/-- A token that names a destination names a safe one. -/
def Destination.SafeToken (token : String) : Prop :=
  match Destination.parse token with
  | .ok d => d.ScriptSafe
  | .error _ => True

instance (token : String) : Decidable (Destination.SafeToken token) := by
  unfold Destination.SafeToken
  split <;> infer_instance

/-- The ports of bindings and the destinations that they lead to are safe. -/
def PortBindings.ScriptSafe (bindings : PortBindings) : Prop :=
  ∀ entry ∈ bindings.entries,
    IsName entry.1 ∧ ∀ token ∈ entry.2, Destination.SafeToken token

instance (bindings : PortBindings) : Decidable bindings.ScriptSafe := by
  unfold PortBindings.ScriptSafe
  infer_instance

/-- The names of a requested component are safe; its attributes have any values. -/
structure Component.ScriptSafe (c : Component) : Prop where
  id : IsName c.id
  typeName : Script.IsBare c.typeName
  attributes : ∀ entry ∈ c.attributes.entries, IsName entry.1
  portBindings : c.portBindings.ScriptSafe

instance (c : Component) : Decidable c.ScriptSafe :=
  decidable_of_iff
    (IsName c.id ∧ Script.IsBare c.typeName ∧
      (∀ entry ∈ c.attributes.entries, IsName entry.1) ∧ c.portBindings.ScriptSafe)
    ⟨fun h => ⟨h.1, h.2.1, h.2.2.1, h.2.2.2⟩,
      fun h => ⟨h.id, h.typeName, h.attributes, h.portBindings⟩⟩

/-! ## Safe models -/

mutual

/-- The types that are declared in a package and below it. -/
def Package.declarations : Package → List TypeDefinition
  | ⟨_, packages, types⟩ => types ++ Package.declarationsAmong packages

/-- The types that are declared in packages and below them. -/
def Package.declarationsAmong : List Package → List TypeDefinition
  | [] => []
  | package :: rest => package.declarations ++ Package.declarationsAmong rest

end

theorem Package.declarations_eq (p : Package) :
    p.declarations = p.types ++ Package.declarationsAmong p.packages := by
  cases p
  rw [Package.declarations]

theorem Package.declarationsAmong_append (ps qs : List Package) :
    Package.declarationsAmong (ps ++ qs) =
      Package.declarationsAmong ps ++ Package.declarationsAmong qs := by
  induction ps with
  | nil => simp [Package.declarationsAmong]
  | cons p ps ih => simp [Package.declarationsAmong, ih]

theorem Package.declarations_subset {p : Package} {siblings : List Package}
    (hp : p ∈ siblings) :
    p.declarations ⊆ Package.declarationsAmong siblings := by
  induction siblings with
  | nil => simp at hp
  | cons first rest ih =>
    intro d hd
    rw [Package.declarationsAmong, List.mem_append]
    rcases List.mem_cons.1 hp with rfl | hp
    · exact Or.inl hd
    · exact Or.inr (ih hp hd)

theorem Package.declarationsAmong_subset {ps qs : List Package} (h : ps ⊆ qs) :
    Package.declarationsAmong ps ⊆ Package.declarationsAmong qs := by
  induction ps with
  | nil => exact fun d hd => absurd hd (by simp [Package.declarationsAmong])
  | cons p ps ih =>
    intro d hd
    rw [Package.declarationsAmong, List.mem_append] at hd
    rcases hd with hd | hd
    · exact Package.declarations_subset (h List.mem_cons_self) hd
    · exact ih (fun q hq => h (List.mem_cons_of_mem _ hq)) hd

theorem Package.declarations_subset_of_walk {siblings : List Package} {first : String}
    {segments : List String} {p : Package}
    (hwalk : Package.walk siblings first segments = some p) :
    p.declarations ⊆ Package.declarationsAmong siblings := by
  induction segments generalizing siblings first with
  | nil => exact Package.declarations_subset (List.mem_of_find?_eq_some hwalk)
  | cons next segments ih =>
    rw [Package.walk, Option.bind_eq_bind, Option.bind_eq_some_iff] at hwalk
    obtain ⟨q, hq, hrest⟩ := hwalk
    have hbelow : Package.declarationsAmong q.packages ⊆ q.declarations := by
      intro d hd
      rw [Package.declarations_eq]
      exact List.mem_append_right _ hd
    intro d hd
    have hsiblings := Package.declarations_subset (List.mem_of_find?_eq_some hq)
    exact hsiblings (hbelow (ih hrest hd))

/-- Whatever type is found was declared somewhere. -/
theorem Model.mem_declarations_of_findType {m : Model} {typeName : String}
    {d : TypeDefinition} (hfind : m.findType typeName = some d) :
    d ∈ Package.declarationsAmong m.packages := by
  simp only [Model.findType, Option.bind_eq_bind, Option.bind_eq_some_iff] at hfind
  obtain ⟨p, hp, hd⟩ := hfind
  have hdirect : d ∈ p.declarations := by
    have hmem := List.mem_of_find?_eq_some hd
    rw [Package.declarations_eq]
    exact List.mem_append_left _ (List.mem_reverse.1 hmem)
  unfold Model.findPackage at hp
  split at hp
  · simp at hp
  split at hp
  · simp at hp
  · exact Package.declarations_subset_of_walk hp hdirect

/-- The attributes that packages declare have safe names. -/
def Package.ScriptSafe (packages : List Package) : Prop :=
  ∀ d ∈ Package.declarationsAmong packages, ∀ a ∈ d.dictionary, IsName a.name

instance (packages : List Package) : Decidable (Package.ScriptSafe packages) := by
  unfold Package.ScriptSafe
  infer_instance

/-- The names that a model brings into the scripts for a node are safe. -/
structure Model.ScriptSafe (m : Model) (node : String) : Prop where
  ids : ∀ component ∈ m.components node, IsName component.name
  packages : Package.ScriptSafe m.packages

instance (m : Model) (node : String) : Decidable (m.ScriptSafe node) :=
  decidable_of_iff
    ((∀ component ∈ m.components node, IsName component.name) ∧
      Package.ScriptSafe m.packages)
    ⟨fun h => ⟨h.1, h.2⟩, fun h => ⟨h.ids, h.packages⟩⟩

/-! ## Safe requests -/

/-- The names that a request brings into scripts are safe; a request with a script of
its own is never called safe. -/
def Request.ScriptSafe : Request → Prop
  | .start c => c.ScriptSafe
  | .stopByType _ => True
  | .stop id => IsName id
  | .update id key _ => IsName id ∧ IsName key
  | .push _ => False

instance (request : Request) : Decidable request.ScriptSafe := by
  cases request <;> unfold Request.ScriptSafe <;> infer_instance

end Wiring
