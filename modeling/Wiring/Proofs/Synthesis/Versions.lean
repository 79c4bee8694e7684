import Wiring.Proofs.Synthesis.Deferred
import Wiring.Proofs.Synthesis.Shape
import Wiring.Proofs.TypeName

/-!
# Versions of types

The versions in type names are for people.  Which types a model declares, what runs, which
defaults a request gets and what its ports are connected to is the same for two models and two
requests that are the same once the versions are taken away; only the component itself is
created with the type name as it was requested: `sameButType_of_unversioned`.

Each look-up gives for a model what it gives for the model without versions, so the versions
can be taken away from both models before anything is compared.
-/

namespace Wiring

/-! ## What is left without versions -/

/-- A running instance without the version of its type. -/
def Instance.unversioned (c : Instance) : Instance :=
  { c with typeName := TypeName.unversioned c.typeName }

/-- A node without the versions of the types that run on it. -/
def Node.unversioned (n : Node) : Node :=
  { n with components := n.components.map Instance.unversioned }

/-- A model without the versions of running types. -/
def Model.unversioned (m : Model) : Model :=
  { m with nodes := m.nodes.map Node.unversioned }

/-- A requested component without the version of its type. -/
def Component.unversioned (c : Component) : Component :=
  { c with typeName := TypeName.unversioned c.typeName }

namespace Model

variable {m m' : Model}

theorem packages_eq_of_unversioned (h : m.unversioned = m'.unversioned) :
    m.packages = m'.packages := (Model.mk.inj h).2.1

theorem hubs_eq_of_unversioned (h : m.unversioned = m'.unversioned) : m.hubs = m'.hubs :=
  (Model.mk.inj h).2.2

theorem components_unversioned (m : Model) (node : String) :
    m.unversioned.components node = (m.components node).map Instance.unversioned := by
  have hfind : m.unversioned.findNode node = (m.findNode node).map Node.unversioned :=
    List.find?_map
  rw [components, hfind, components]
  cases m.findNode node with
  | none => rfl
  | some found => rfl

/-- What runs is known without versions, and asked for without one. -/
theorem runningOn_unversioned (m : Model) (typeName node : String) :
    m.unversioned.runningOn (TypeName.unversioned typeName) node = m.runningOn typeName node := by
  rw [runningOn, components_unversioned, TypeName.parse_unversioned, List.filter_map,
    List.map_map, runningOn]
  simp only [Function.comp_def, Instance.unversioned, TypeName.parse_unversioned]

theorem runningOn_congr (h : m.unversioned = m'.unversioned) {typeName typeName' : String}
    (htype : TypeName.unversioned typeName = TypeName.unversioned typeName') (node : String) :
    m.runningOn typeName node = m'.runningOn typeName' node := by
  rw [← m.runningOn_unversioned, h, htype, m'.runningOn_unversioned]

theorem findType_congr_unversioned (h : m.unversioned = m'.unversioned)
    {typeName typeName' : String}
    (htype : TypeName.unversioned typeName = TypeName.unversioned typeName') :
    m.findType typeName = m'.findType typeName' := by
  rw [findType_congr (packages_eq_of_unversioned h), findType, findType, TypeName.parse_congr htype]

end Model

/-! ## Destinations -/

namespace PortBindings

variable {m m' : Model}

theorem fillAll_congr (h : m.unversioned = m'.unversioned) (map : PortBindings) (node : String)
    (specs : List String) : map.fillAll m node specs = map.fillAll m' node specs := by
  have hdestinations : ∀ entry : BindingEntry,
      entry.destinations m node = entry.destinations m' node := by
    intro entry
    rw [BindingEntry.destinations, BindingEntry.destinations, Model.runningOn_congr h rfl]
  induction specs generalizing map with
  | nil => rfl
  | cons spec specs ih => simp only [fillAll, fill, BindingEntry.collect, hdestinations, ih]

end PortBindings

/-! ## Defaults -/

/-- The same request for another type. -/
def Component.retyped (c : Component) (typeName : String) : Component := { c with typeName }

/-- The same resolution of a request for another type. -/
def Resolution.retyped (r : Resolution) (typeName : String) : Resolution :=
  { r with component := r.component.retyped typeName }

namespace Component

variable {c c' : Component} {m m' : Model} {typeName : String}

theorem eq_retyped_of_unversioned (h : c.unversioned = c'.unversioned) :
    c' = c.retyped c'.typeName := by
  obtain ⟨-, hid, hattributes, hports⟩ := Component.mk.inj h
  rw [retyped, hid, hattributes, hports]

theorem addDefault_retyped (r : Resolution) (declared : Attribute) :
    addDefault (r.retyped typeName) declared = (addDefault r declared).retyped typeName := by
  unfold addDefault
  cases declared.default? with
  | none => rfl
  | some value =>
    dsimp only
    by_cases hgiven : (declared.name = "" || r.component.attributes.contains declared.name) = true
    · rw [if_pos hgiven]
      exact if_pos hgiven
    · rw [if_neg hgiven]
      exact if_neg hgiven

theorem foldl_addDefault_retyped (declared : List Attribute) (r : Resolution) :
    declared.foldl addDefault (r.retyped typeName) =
      (declared.foldl addDefault r).retyped typeName := by
  induction declared generalizing r with
  | nil => rfl
  | cons a declared ih => rw [List.foldl_cons, addDefault_retyped, ih, List.foldl_cons]

/-- Another version of its type gives a request the same defaults. -/
theorem resolve_retyped (h : m.unversioned = m'.unversioned)
    (htype : TypeName.unversioned c.typeName = TypeName.unversioned typeName) :
    (c.retyped typeName).resolve m' = (c.resolve m).retyped typeName := by
  rw [resolve, resolve, Model.findType_congr_unversioned h htype, retyped]
  cases m'.findType typeName with
  | none => rfl
  | some declaration => exact foldl_addDefault_retyped declaration.dictionary ⟨c, true, []⟩

/-- A type name with a slash says what to start. -/
theorem validate_retyped (hslash : '/' ∈ c.typeName.toList) (hslash' : '/' ∈ typeName.toList) :
    (c.retyped typeName).validate = .ok () ↔ c.validate = .ok () := by
  have hfull : ∀ name : String, '/' ∈ name.toList → ¬ Text.isBlankText name = true := by
    intro name hmem hblank
    exact absurd (List.all_eq_true.1 hblank '/' hmem) (by decide)
  simp [validate_eq_ok_iff, retyped, hfull _ hslash, hfull _ hslash']

end Component

/-! ## Scripts -/

/-- Two attempts to make a script that creates a component: both fail, or the scripts are the
same but for the types that they create it with. -/
inductive Script.SameButType (typeName typeName' : String) :
    Except Failure Script → Except Failure Script → Prop where
  | failed (failure failure' : Failure) :
    SameButType typeName typeName' (.error failure) (.error failure')
  | made (path : ComponentPath) (rest : Script) :
    SameButType typeName typeName' (.ok (.addComponent path typeName :: rest))
      (.ok (.addComponent path typeName' :: rest))

namespace Synthesis

open Script (SameButType)

variable {m m' : Model} {c c' : Component} {typeName : String}

theorem bindPorts_congr (h : m.unversioned = m'.unversioned) (settings : Settings)
    (source : ComponentPath) (bindings : PortBindings) :
    (⟨m, settings⟩ : Synthesis).bindPorts source bindings =
      (⟨m', settings⟩ : Synthesis).bindPorts source bindings := by
  have hthere : ∀ channel : ChannelId, m.has (.channel channel) = m'.has (.channel channel) := by
    intro channel
    rw [Model.has, Model.has, Model.findHub, Model.findHub, Model.hubs_eq_of_unversioned h]
  rw [bindPorts, bindPorts]
  cases readPairs (tokenPairs bindings) with
  | error failure => rfl
  | ok pairs =>
    have hconnect : (⟨m, settings⟩ : Synthesis).connectAll source [] pairs =
        (⟨m', settings⟩ : Synthesis).connectAll source [] pairs := by
      apply connectAll_congr
      · rfl
      · intro channel
        rw [hthere]
    exact congrArg Except.ok hconnect

/-- Another version of its type and other versions of what runs change only what a component
is created with. -/
theorem startScript_retyped (h : m.unversioned = m'.unversioned) (settings : Settings)
    (hslash : '/' ∈ c.typeName.toList) (hslash' : '/' ∈ typeName.toList) :
    SameButType c.typeName typeName ((⟨m, settings⟩ : Synthesis).startScript c)
      ((⟨m', settings⟩ : Synthesis).startScript (c.retyped typeName)) := by
  have hvalid := Component.validate_retyped hslash hslash'
  have hbindings : (⟨m', settings⟩ : Synthesis).effectiveBindings (c.retyped typeName) =
      (⟨m, settings⟩ : Synthesis).effectiveBindings c :=
    (PortBindings.fillAll_congr h c.portBindings settings.nodeName _).symm
  rw [startScript, startScript, hbindings]
  cases hc : c.validate with
  | error failure =>
    cases hretyped : (c.retyped typeName).validate with
    | error failure' => exact .failed failure failure'
    | ok _ => simp [hvalid.1 hretyped] at hc
  | ok _ =>
    rw [hvalid.2 hc]
    cases (⟨m, settings⟩ : Synthesis).effectiveBindings c with
    | error failure => exact .failed failure failure
    | ok bindings =>
      show SameButType _ _
        ((⟨m, settings⟩ : Synthesis).bindPorts (c.path settings.nodeName) bindings >>= _)
        ((⟨m', settings⟩ : Synthesis).bindPorts (c.path settings.nodeName) bindings >>= _)
      rw [bindPorts_congr h]
      cases (⟨m', settings⟩ : Synthesis).bindPorts (c.path settings.nodeName) bindings with
      | error failure => exact .failed failure failure
      | ok connections => exact .made (c.path settings.nodeName) _

/-- What runs of some types on a node is asked for without their versions. -/
theorem stopByTypeScript_congr (h : m.unversioned = m'.unversioned) (settings : Settings)
    {types types' : List String}
    (htypes : types.map TypeName.unversioned = types'.map TypeName.unversioned) :
    (⟨m, settings⟩ : Synthesis).stopByTypeScript types =
      (⟨m', settings⟩ : Synthesis).stopByTypeScript types' := by
  have hrunning : ∀ (m : Model) (types : List String),
      types.flatMap (fun typeName => m.runningOn typeName settings.nodeName) =
        (types.map TypeName.unversioned).flatMap fun typeName =>
          m.unversioned.runningOn typeName settings.nodeName := by
    intro m types
    simp [List.flatMap_map, Model.runningOn_unversioned]
  rw [stopByTypeScript, stopByTypeScript]
  exact congrArg _ (congrArg _ (by rw [node, node, hrunning, h, htypes, ← hrunning]))

/-- Two models and two requests that are the same without the versions of types, the requested
types having versions both: the requests get the same defaults, neither can be started or the
scripts that start them, without and with the defaults, are the same but for the types that
they create the components with, and all of some types are removed by the same script. -/
theorem sameButType_of_unversioned (hmodel : m.unversioned = m'.unversioned)
    (hrequest : c.unversioned = c'.unversioned) (hslash : '/' ∈ c.typeName.toList)
    (hslash' : '/' ∈ c'.typeName.toList) (settings : Settings) :
    c'.resolve m' = (c.resolve m).retyped c'.typeName ∧
      SameButType c.typeName c'.typeName ((⟨m, settings⟩ : Synthesis).startScript c)
        ((⟨m', settings⟩ : Synthesis).startScript c') ∧
      SameButType c.typeName c'.typeName
        ((⟨m, settings⟩ : Synthesis).startScript (c.resolve m).component)
        ((⟨m', settings⟩ : Synthesis).startScript (c'.resolve m').component) ∧
      ∀ types types' : List String,
        types.map TypeName.unversioned = types'.map TypeName.unversioned →
          (⟨m, settings⟩ : Synthesis).stopByTypeScript types =
            (⟨m', settings⟩ : Synthesis).stopByTypeScript types' := by
  have htype : TypeName.unversioned c.typeName = TypeName.unversioned c'.typeName :=
    congrArg Component.typeName hrequest
  have hretyped := Component.eq_retyped_of_unversioned hrequest
  have hresolve : c'.resolve m' = (c.resolve m).retyped c'.typeName := by
    conv_lhs => rw [hretyped]
    exact Component.resolve_retyped hmodel htype
  obtain ⟨added, hextends⟩ := c.exists_extends_resolve m
  refine ⟨hresolve, ?_, ?_, fun types types' => stopByTypeScript_congr hmodel settings⟩
  · have hscripts := startScript_retyped hmodel settings hslash hslash'
    rwa [← hretyped] at hscripts
  · have hresolved : '/' ∈ (c.resolve m).component.typeName.toList := hextends.typeName ▸ hslash
    have hscripts := startScript_retyped hmodel settings hresolved hslash'
    rw [hextends.typeName] at hscripts
    rw [hresolve]
    exact hscripts

/-- A lamp of some version runs, and the packages declare a switch that leads to all lamps. -/
def lampOfVersion (version : String) : Model where
  nodes := [⟨"home1", [⟨"light_a", "org.activehome.Light/" ++ version⟩]⟩]
  packages := [switchPackage]

theorem sameButType_of_unversioned_lampOfVersion :
    (lampOfVersion "1.0").unversioned = (lampOfVersion "2/x.y").unversioned ∧
      ∃ rest : Script,
        (⟨lampOfVersion "1.0", .forNode "home1"⟩ : Synthesis).startScript
            ((lampSwitch.retyped "org.activehome.Switch/3").resolve
              (lampOfVersion "1.0")).component =
          .ok (.addComponent ⟨"home1", "s1"⟩ "org.activehome.Switch/3" :: rest) ∧
        (⟨lampOfVersion "2/x.y", .forNode "home1"⟩ : Synthesis).startScript
            ((lampSwitch.retyped "org.activehome.Switch/4.0/b.c").resolve
              (lampOfVersion "2/x.y")).component =
          .ok (.addComponent ⟨"home1", "s1"⟩ "org.activehome.Switch/4.0/b.c" :: rest) := by
  have hmodel : (lampOfVersion "1.0").unversioned = (lampOfVersion "2/x.y").unversioned := by
    decide
  obtain ⟨-, -, hscripts, -⟩ := sameButType_of_unversioned hmodel
    (show (lampSwitch.retyped "org.activehome.Switch/3").unversioned =
      (lampSwitch.retyped "org.activehome.Switch/4.0/b.c").unversioned by decide)
    (by decide) (by decide) (.forNode "home1")
  have hfirst : (⟨lampOfVersion "1.0", .forNode "home1"⟩ : Synthesis).startScript
      ((lampSwitch.retyped "org.activehome.Switch/3").resolve (lampOfVersion "1.0")).component =
      .ok (.addComponent ⟨"home1", "s1"⟩ "org.activehome.Switch/3" :: lampSwitchScript.tail) := by
    decide
  rw [hfirst] at hscripts ⊢
  generalize (⟨lampOfVersion "2/x.y", .forNode "home1"⟩ : Synthesis).startScript
    ((lampSwitch.retyped "org.activehome.Switch/4.0/b.c").resolve
      (lampOfVersion "2/x.y")).component = second at hscripts ⊢
  cases hscripts
  exact ⟨hmodel, _, rfl, rfl⟩

end Synthesis

end Wiring
