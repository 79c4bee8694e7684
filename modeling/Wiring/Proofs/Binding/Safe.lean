import Wiring.Proofs.Binding.Grammar

/-!
# Safe bindings

Whatever a binding specification says, the two ports of each entry that is read from
it are names.  So the bindings collected for the entries lead from names to
destinations with safe names, as long as the ids on the node are names:
`scriptSafe_fillAll`.  The destinations read from safe bindings are safe,
`scriptSafe_readPairs`.
-/

namespace Wiring

open Wiring.Text

/-- The ports of entries that are read are names. -/
theorem BindingEntry.isName_of_parsePieces {pieces : List (List Char)}
    {entries : List BindingEntry} (h : parsePieces pieces = .ok entries) :
    ∀ entry ∈ entries, IsName entry.sourcePort ∧ IsName entry.destPort := by
  intro entry hentry
  have hform := (parsePieces_eq_ok_iff.1 h).1 entry hentry
  exact ⟨hform.sourcePort, hform.destPort⟩

/-! ## Tokens -/

theorem Destination.safeToken_member {path : ComponentPath} {port : String}
    (hnode : IsName path.node) (hid : IsName path.id) (hport : IsName port) :
    Destination.SafeToken (path.member port) := by
  have hfield : ∀ {s}, IsName s → s ≠ "" ∧ '.' ∉ s.toList :=
    fun hs => ⟨hs.ne_empty, hs.isField.noDot⟩
  have hparse := Destination.parse_member (hfield hnode) (hfield hid) (hfield hport)
  rw [Destination.SafeToken, hparse]
  exact ⟨hnode, hid, hport⟩

theorem BindingEntry.safeToken_of_mem_destinations {entry : BindingEntry} {m : Model}
    {node token : String} (hport : IsName entry.destPort) (hnode : IsName node)
    (hids : ∀ component ∈ m.components node, IsName component.name)
    (htoken : token ∈ entry.destinations m node) : Destination.SafeToken token := by
  obtain ⟨path, hpath, rfl⟩ := List.mem_map.1 htoken
  obtain ⟨rfl, component, hcomponent, hid⟩ := Model.exists_of_mem_runningOn hpath
  exact Destination.safeToken_member hnode (hid ▸ hids component hcomponent) hport

/-! ## Filling in specifications -/

namespace PortBindings

theorem scriptSafe_empty : ScriptSafe .empty := holds_empty

/-- Filling in specifications of any kind keeps bindings safe. -/
theorem scriptSafe_fillAll {m : Model} {node : String} (hnode : IsName node)
    (hids : ∀ component ∈ m.components node, IsName component.name)
    {specs : List String} {map filled : PortBindings} (hmap : map.ScriptSafe)
    (h : map.fillAll m node specs = .ok filled) : filled.ScriptSafe := by
  refine Holds.fillAll (fun spec entries hparse entry hentry => ?_) hmap h
  obtain ⟨hsource, hdest⟩ := BindingEntry.isName_of_parsePieces hparse entry hentry
  refine ⟨hsource, fun token htoken => ?_⟩
  exact BindingEntry.safeToken_of_mem_destinations hdest hnode hids htoken

end PortBindings

/-! ## Destinations -/

theorem Synthesis.scriptSafe_readPairs {tokens : List (String × String)}
    {pairs : List (String × Destination)}
    (htokens : ∀ pair ∈ tokens, IsName pair.1 ∧ Destination.SafeToken pair.2)
    (h : readPairs tokens = .ok pairs) :
    ∀ pair ∈ pairs, IsName pair.1 ∧ pair.2.ScriptSafe := by
  intro pair hpair
  obtain ⟨token, hmem, hparse⟩ := (mem_readPairs h).2 pair.1 pair.2 hpair
  obtain ⟨hport, htoken⟩ := htokens _ hmem
  rw [Destination.SafeToken, hparse] at htoken
  exact ⟨hport, htoken⟩

theorem Synthesis.scriptSafe_tokenPairs {bindings : PortBindings}
    (hbindings : bindings.ScriptSafe) :
    ∀ pair ∈ tokenPairs bindings, IsName pair.1 ∧ Destination.SafeToken pair.2 := by
  rintro ⟨port, token⟩ hpair
  obtain ⟨tokens, hentry, htoken⟩ := mem_tokenPairs_iff.1 hpair
  obtain ⟨hport, htokens⟩ := hbindings _ hentry
  exact ⟨hport, htokens token htoken⟩

end Wiring
