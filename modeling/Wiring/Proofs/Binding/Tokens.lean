import Wiring.Proofs.Binding.Destination
import Wiring.Proofs.Table
import Wiring.Synthesis

/-!
# Tokens of bindings

A table of bindings holds destination tokens, and synthesis reads them back.  Filling in
specifications adds only tokens that are printed for components running on the node, so
what holds of those and of the tokens that were there holds of all,
`PortBindings.Holds.fillAll`.  The destinations that are read are those of the tokens, each
with its port, `Synthesis.mem_readPairs`.
-/

namespace Wiring

/-! ## Filling in specifications -/

theorem Model.exists_of_mem_runningOn {m : Model} {typeName node : String}
    {path : ComponentPath} (hpath : path ∈ m.runningOn typeName node) :
    path.node = node ∧ ∃ component ∈ m.components node, component.name = path.id := by
  obtain ⟨component, hcomponent, rfl⟩ := List.mem_map.1 hpath
  exact ⟨rfl, component, (List.mem_filter.1 hcomponent).1, rfl⟩

namespace PortBindings

/-- Something holds of every port of bindings, and something of every token. -/
def Holds (onPort onToken : String → Prop) (map : PortBindings) : Prop :=
  ∀ entry ∈ map.entries, onPort entry.1 ∧ ∀ token ∈ entry.2, onToken token

variable {onPort onToken : String → Prop}

theorem holds_empty : Holds onPort onToken .empty := by
  intro entry hentry
  simp [Table.empty] at hentry

theorem Holds.append {map : PortBindings} (hmap : map.Holds onPort onToken) {port : String}
    {tokens : List String} (hport : onPort port) (htokens : ∀ token ∈ tokens, onToken token) :
    Holds onPort onToken (map.append port tokens) := by
  intro entry hentry
  rcases Table.mem_insertEntry hentry with rfl | hentry
  · -- The port keeps the destinations that it had.
    refine ⟨hport, fun token htoken => ?_⟩
    rcases List.mem_append.1 htoken with hold | hnew
    · cases hget : map.get? port with
      | none => simp [hget] at hold
      | some old =>
        rw [hget, Option.getD_some] at hold
        exact (hmap _ (Table.get?_eq_some_iff.1 hget)).2 token hold
    · exact htokens token hnew
  · exact hmap entry hentry

variable {m : Model} {node : String}

theorem Holds.collect {entries : List BindingEntry}
    (hentries : ∀ entry ∈ entries, onPort entry.sourcePort ∧
      ∀ token ∈ entry.destinations m node, onToken token)
    {map : PortBindings} (hmap : map.Holds onPort onToken) :
    Holds onPort onToken (BindingEntry.collect m node map entries) := by
  induction entries generalizing map with
  | nil => exact hmap
  | cons entry entries ih =>
    obtain ⟨hport, htokens⟩ := hentries entry List.mem_cons_self
    exact ih (fun other hother => hentries other (List.mem_cons_of_mem _ hother))
      (hmap.append hport htokens)

/-- What holds of the bindings at first, and of every entry that can be read, holds of
what filling in specifications makes of them. -/
theorem Holds.fillAll
    (hentries : ∀ spec entries, BindingEntry.parseSpec spec = .ok entries →
      ∀ entry ∈ entries, onPort entry.sourcePort ∧
        ∀ token ∈ entry.destinations m node, onToken token)
    {specs : List String} {map filled : PortBindings} (hmap : map.Holds onPort onToken)
    (h : map.fillAll m node specs = .ok filled) : filled.Holds onPort onToken := by
  induction specs generalizing map with
  | nil =>
    obtain rfl : map = filled := by simpa [PortBindings.fillAll] using h
    exact hmap
  | cons spec specs ih =>
    rw [PortBindings.fillAll, fill] at h
    cases hparse : BindingEntry.parseSpec spec with
    | error failure => simp [hparse] at h
    | ok entries =>
      rw [hparse] at h
      exact ih (hmap.collect (hentries spec entries hparse)) h

end PortBindings

/-! ## Reading the tokens of bindings -/

namespace Synthesis

theorem mem_tokenPairs_iff {bindings : PortBindings} {port token : String} :
    (port, token) ∈ tokenPairs bindings ↔
      ∃ tokens, (port, tokens) ∈ bindings.entries ∧ token ∈ tokens := by
  rw [tokenPairs, List.mem_flatMap]
  constructor
  · rintro ⟨⟨port', tokens⟩, hentry, hpair⟩
    obtain ⟨token', htoken, hsame⟩ := List.mem_map.1 hpair
    obtain ⟨rfl, rfl⟩ := Prod.mk.inj hsame
    exact ⟨tokens, hentry, htoken⟩
  · rintro ⟨tokens, hentry, htoken⟩
    exact ⟨(port, tokens), hentry, List.mem_map.2 ⟨token, htoken, rfl⟩⟩

theorem readPairs_cons_eq_ok_iff {port token : String} {tokens : List (String × String)}
    {pairs : List (String × Destination)} :
    readPairs ((port, token) :: tokens) = .ok pairs ↔
      ∃ d others, Destination.parse token = .ok d ∧ readPairs tokens = .ok others ∧
        pairs = (port, d) :: others := by
  rw [readPairs]
  cases Destination.parse token with
  | error failure => simp
  | ok d =>
    cases readPairs tokens with
    | error failure => simp
    | ok others => simp [eq_comm]

/-- The pairs that are read are those of the tokens, and all of them are read. -/
theorem mem_readPairs {tokens : List (String × String)} {pairs : List (String × Destination)}
    (h : readPairs tokens = .ok pairs) :
    (∀ port token, (port, token) ∈ tokens →
      ∃ d, Destination.parse token = .ok d ∧ (port, d) ∈ pairs) ∧
    ∀ port d, (port, d) ∈ pairs →
      ∃ token, (port, token) ∈ tokens ∧ Destination.parse token = .ok d := by
  induction tokens generalizing pairs with
  | nil =>
    obtain rfl : [] = pairs := by simpa [readPairs] using h
    simp
  | cons first tokens ih =>
    obtain ⟨port, token⟩ := first
    obtain ⟨d, others, hparse, hread, rfl⟩ := readPairs_cons_eq_ok_iff.1 h
    obtain ⟨hread, hread'⟩ := ih hread
    constructor
    · intro port' token' hmem
      rcases List.mem_cons.1 hmem with hfirst | hmem
      · obtain ⟨rfl, rfl⟩ := Prod.mk.inj hfirst
        exact ⟨d, hparse, List.mem_cons_self⟩
      · obtain ⟨d', hparse', hmem'⟩ := hread port' token' hmem
        exact ⟨d', hparse', List.mem_cons_of_mem _ hmem'⟩
    · intro port' d' hmem
      rcases List.mem_cons.1 hmem with hfirst | hmem
      · obtain ⟨rfl, rfl⟩ := Prod.mk.inj hfirst
        exact ⟨token, List.mem_cons_self, hparse⟩
      · obtain ⟨token', hmem', hparse'⟩ := hread' port' d' hmem
        exact ⟨token', List.mem_cons_of_mem _ hmem', hparse'⟩

end Synthesis

end Wiring
