import Wiring.Proofs.Synthesis.Deferred
import Wiring.Proofs.Synthesis.Shape

/-!
# Components that are led to themselves

A specification leads to what runs on the node when a script is made.  The script of a start
is made while its component is not there yet, so only explicit destinations can lead the
component to itself, `exists_of_planStart`.  Deferred bindings are made when the component is
there, and they do lead it to itself whenever an entry asks for a type that it runs under,
`exists_of_planDeferred`.
-/

namespace Wiring

open Synthesis

namespace PortBindings

/-- Some destination of bindings is a port of a component. -/
def LeadTo (bindings : PortBindings) (path : ComponentPath) : Prop :=
  ∃ d ∈ bindings.destinations, d.component = path

instance (bindings : PortBindings) (path : ComponentPath) : Decidable (bindings.LeadTo path) :=
  inferInstanceAs (Decidable (∃ d ∈ bindings.destinations, _))

/-- Some entry of a specification asks for a type that a component of a node runs under. -/
def SpecLeadsTo (m : Model) (node : String) (path : ComponentPath) (spec : String) : Prop :=
  ∃ entries, BindingEntry.parseSpec spec = .ok entries ∧
    ∃ entry ∈ entries, path ∈ m.runningOn entry.typeRef node

variable {m : Model} {node : String} {path : ComponentPath}

theorem leadTo_iff {bindings : PortBindings} :
    bindings.LeadTo path ↔ ∃ pair ∈ tokenPairs bindings, ∃ d,
      Destination.parse pair.2 = .ok d ∧ d.component = path := by
  have htoOption : ∀ token d, (Destination.parse token).toOption = some d ↔
      Destination.parse token = .ok d := by
    intro token d
    cases Destination.parse token <;> simp [Except.toOption]
  simp only [LeadTo, destinations, List.mem_filterMap, htoOption]
  constructor
  · rintro ⟨d, ⟨pair, hpair, hparse⟩, hpath⟩
    exact ⟨pair, hpair, d, hparse, hpath⟩
  · rintro ⟨pair, hpair, d, hparse, hpath⟩
    exact ⟨d, ⟨pair, hpair, hparse⟩, hpath⟩

theorem leadTo_iff_of_readPairs {bindings : PortBindings} {pairs : List (String × Destination)}
    (hread : readPairs (tokenPairs bindings) = .ok pairs) :
    bindings.LeadTo path ↔ ∃ pair ∈ pairs, pair.2.component = path := by
  rw [LeadTo, destinations, destinations_of_readPairs hread]
  constructor
  · rintro ⟨d, hd, hpath⟩
    obtain ⟨pair, hpair, rfl⟩ := List.mem_map.1 hd
    exact ⟨pair, hpair, hpath⟩
  · rintro ⟨pair, hpair, hpath⟩
    exact ⟨pair.2, List.mem_map_of_mem hpair, hpath⟩

theorem mem_specPairs_iff {spec : String} {pair : String × String} :
    pair ∈ specPairs m node spec ↔ ∃ entries, BindingEntry.parseSpec spec = .ok entries ∧
      ∃ entry ∈ entries, pair ∈ entry.pairs m node := by
  rw [specPairs]
  cases BindingEntry.parseSpec spec <;> simp

/-- Where all tokens can be read, bindings lead to what they led to before specifications were
filled in, and to what the specifications lead to. -/
theorem leadTo_fillAll_iff {specs : List String} {map filled : PortBindings}
    (hfilled : map.fillAll m node specs = .ok filled) {pairs : List (String × Destination)}
    (hread : readPairs (tokenPairs filled) = .ok pairs) :
    filled.LeadTo path ↔
      map.LeadTo path ∨ ∃ spec ∈ specs, SpecLeadsTo m node path spec := by
  have hpairs : ∀ pair, pair ∈ tokenPairs filled ↔
      pair ∈ tokenPairs map ∨ ∃ spec ∈ specs, pair ∈ specPairs m node spec := by
    intro pair
    rw [(perm_fillAll hfilled).mem_iff, List.mem_append, List.mem_flatMap]
  constructor
  · intro hleads
    obtain ⟨pair, hpair, d, hparse, hpath⟩ := leadTo_iff.1 hleads
    rcases (hpairs pair).1 hpair with hold | ⟨spec, hspec, hnew⟩
    · exact Or.inl (leadTo_iff.2 ⟨pair, hold, d, hparse, hpath⟩)
    · right
      obtain ⟨entries, hentries, entry, hentry, hmem⟩ := mem_specPairs_iff.1 hnew
      obtain ⟨token, htoken, rfl⟩ := List.mem_map.1 hmem
      obtain ⟨other, hother, rfl⟩ := List.mem_map.1 htoken
      obtain rfl := Destination.eq_of_parse_member hparse
      obtain rfl : other = path := hpath
      exact ⟨spec, hspec, entries, hentries, entry, hentry, hother⟩
  · rintro (hold | ⟨spec, hspec, entries, hentries, entry, hentry, hother⟩)
    · obtain ⟨pair, hpair, hd⟩ := leadTo_iff.1 hold
      exact leadTo_iff.2 ⟨pair, (hpairs pair).2 (Or.inl hpair), hd⟩
    · have hmem : (entry.sourcePort, path.member entry.destPort) ∈ tokenPairs filled :=
        (hpairs _).2 (Or.inr ⟨spec, hspec, mem_specPairs_iff.2 ⟨entries, hentries, entry, hentry,
          List.mem_map_of_mem (List.mem_map_of_mem hother)⟩⟩)
      obtain ⟨d, hparse, -⟩ := (mem_readPairs hread).1 _ _ hmem
      obtain rfl := Destination.eq_of_parse_member hparse
      exact leadTo_iff.2 ⟨_, hmem, _, hparse, rfl⟩

end PortBindings

namespace Synthesis

open PortBindings

/-- A script starts a component with its ports bound to destinations. -/
def StartsWith (s : Synthesis) (c : Component) (pairs : List (String × Destination))
    (script : Script) : Prop :=
  ∃ bindings, s.effectiveBindings c = .ok bindings ∧
    readPairs (tokenPairs bindings) = .ok pairs ∧ script = s.laidOut c pairs

/-- A script binds the ports of a component that is there to destinations, as its type
declares. -/
def BindsLater (s : Synthesis) (c : Component) (pairs : List (String × Destination))
    (script : Script) : Prop :=
  ∃ bindings, PortBindings.fillAll .empty s.model s.node (s.defaultedSpecs c) = .ok bindings ∧
    readPairs (tokenPairs bindings) = .ok pairs ∧
    script = s.connectAll (c.path s.node) [] pairs

/-- Some entry that the type of a component declares asks for a type that the component runs
under. -/
def MeetsItself (s : Synthesis) (c : Component) : Prop :=
  ∃ spec ∈ s.defaultedSpecs c, SpecLeadsTo s.model s.node (c.path s.node) spec

variable {s : Synthesis} {c : Component} {script : Script}

theorem not_specLeadsTo_of_free (hfree : s.model.findComponent s.node c.id = none)
    (spec : String) : ¬ SpecLeadsTo s.model s.node (c.path s.node) spec := by
  rintro ⟨entries, -, entry, -, hpath⟩
  obtain ⟨-, component, hcomponent, hid⟩ := Model.exists_of_mem_runningOn hpath
  exact Model.findComponent_eq_none_iff.1 hfree (List.mem_map.2 ⟨component, hcomponent, hid⟩)

/-- A start leads its component to itself only where explicit destinations do. -/
theorem exists_of_planStart {typeResolved : Bool}
    (h : s.planStart c = .ok (.script script typeResolved))
    (hexplicit : ¬ c.portBindings.LeadTo (c.path s.node)) :
    ∃ pairs, s.StartsWith (c.resolve s.model).component pairs script ∧
      ∀ pair ∈ pairs, pair.2.component ≠ c.path s.node := by
  obtain ⟨hfree, hscript⟩ := planStart_eq_script h
  obtain ⟨-, bindings, pairs, hbindings, hread, rfl⟩ := startScript_eq_ok_iff_laidOut.1 hscript
  refine ⟨pairs, ⟨bindings, hbindings, hread, rfl⟩, fun pair hpair hpath => ?_⟩
  have hleads := (leadTo_iff_of_readPairs hread).2 ⟨pair, hpair, hpath⟩
  obtain ⟨added, hextends⟩ := c.exists_extends_resolve s.model
  rw [effectiveBindings, hextends.portBindings] at hbindings
  rcases (leadTo_fillAll_iff hbindings hread).1 hleads with hold | ⟨spec, -, hspec⟩
  · exact hexplicit hold
  · exact not_specLeadsTo_of_free hfree spec hspec

/-- Deferred bindings lead their component to itself exactly when it meets itself. -/
theorem exists_of_planDeferred (h : s.planDeferred c = .script script) :
    ∃ pairs, s.BindsLater c pairs script ∧
      ((∃ pair ∈ pairs, pair.2.component = c.path s.node) ↔ s.MeetsItself c) := by
  obtain ⟨-, bindings, pairs, hbindings, hread, rfl⟩ :=
    bindingScript_eq_ok_iff.1 (planDeferred_eq_script h)
  obtain ⟨added, hextends⟩ := c.exists_extends_resolve s.model
  rw [hextends.path]
  refine ⟨pairs, ⟨bindings, hbindings, hread, rfl⟩, ?_⟩
  have hempty : ¬ LeadTo .empty (c.path s.node) := by
    rintro ⟨d, hd, -⟩
    exact absurd hd List.not_mem_nil
  rw [← leadTo_iff_of_readPairs hread, leadTo_fillAll_iff hbindings hread, or_iff_right hempty]
  rfl

/-- A component that runs under its type meets itself when the type declares an entry that
asks for a type of the same simple name. -/
theorem meetsItself_iff_not_foreign (hthere : c.id ∈ s.model.ids s.node)
    (htype : ∀ i ∈ s.model.components s.node, i.name = c.id → i.typeName = c.typeName) :
    s.MeetsItself c ↔ ¬ s.Foreign c := by
  obtain ⟨i, hi, hid⟩ := List.mem_map.1 hthere
  have hruns : ∀ typeName, c.path s.node ∈ s.model.runningOn typeName s.node ↔
      (TypeName.parse c.typeName).sameSimple (TypeName.parse typeName) = true := by
    intro typeName
    rw [Model.runningOn, List.mem_map]
    constructor
    · rintro ⟨other, hother, hpath⟩
      obtain ⟨hmem, hsame⟩ := List.mem_filter.1 hother
      rwa [htype other hmem (congrArg ComponentPath.id hpath)] at hsame
    · intro hsame
      refine ⟨i, List.mem_filter.2 ⟨hi, ?_⟩, congrArg (ComponentPath.mk s.node) hid⟩
      rwa [htype i hi hid]
  simp only [MeetsItself, SpecLeadsTo, Foreign, hruns, not_forall, exists_prop,
    Bool.not_eq_false]

end Synthesis

end Wiring
