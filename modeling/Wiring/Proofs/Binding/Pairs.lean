import Mathlib.Data.List.Basic
import Wiring.Proofs.Binding.Tokens
import Wiring.Proofs.Table

/-!
# Ports paired with tokens

Bindings hold for each port its tokens in order.  Which port is bound to which token how
often does not depend on the order in which specifications are filled in: they add their
pairs to those that were there, `perm_fillAll`, and they are filled in exactly when all of
them can be read, `exists_fillAll_iff`.  The pairs of a specification depend on the
components running on the node.

Reading the tokens of pairs keeps the pairs in their places, so pairs in another order are
read as well, and to the same destinations in another order, `exists_readPairs_of_perm`.
-/

namespace Wiring

/-- The pairs that an entry of a specification stands for. -/
def BindingEntry.pairs (m : Model) (node : String) (entry : BindingEntry) :
    List (String × String) :=
  (entry.destinations m node).map fun token => (entry.sourcePort, token)

namespace PortBindings

open Synthesis

/-- The pairs that a specification stands for; one that is malformed has none. -/
def specPairs (m : Model) (node spec : String) : List (String × String) :=
  match BindingEntry.parseSpec spec with
  | .error _ => []
  | .ok entries => entries.flatMap (BindingEntry.pairs m node)

/-- A specification that can be read. -/
def Readable (spec : String) : Prop := ∃ entries, BindingEntry.parseSpec spec = .ok entries

instance (spec : String) : Decidable (Readable spec) :=
  match h : BindingEntry.parseSpec spec with
  | .error _ => isFalse fun ⟨_, hok⟩ => by rw [h] at hok; contradiction
  | .ok entries => isTrue ⟨entries, h⟩

variable {m : Model} {node : String}

theorem specPairs_congr {m' : Model} {spec : String}
    (h : ∀ entries, BindingEntry.parseSpec spec = .ok entries →
      ∀ entry ∈ entries, m.runningOn entry.typeRef node = m'.runningOn entry.typeRef node) :
    specPairs m node spec = specPairs m' node spec := by
  rw [specPairs, specPairs]
  cases hparse : BindingEntry.parseSpec spec with
  | error failure => rfl
  | ok entries =>
    refine List.flatMap_congr fun entry hentry => ?_
    rw [BindingEntry.pairs, BindingEntry.pairs, BindingEntry.destinations,
      BindingEntry.destinations, h entries hparse entry hentry]

/-! ## Filling in specifications -/

theorem perm_tokenPairs_append (map : PortBindings) (port : String) (tokens : List String) :
    (tokenPairs (map.append port tokens)).Perm
      (tokenPairs map ++ tokens.map fun token => (port, token)) :=
  map.perm_flatMap_append Prod.mk port tokens

theorem perm_tokenPairs_collect (map : PortBindings) (entries : List BindingEntry) :
    (tokenPairs (BindingEntry.collect m node map entries)).Perm
      (tokenPairs map ++ entries.flatMap (BindingEntry.pairs m node)) := by
  induction entries generalizing map with
  | nil =>
    rw [List.flatMap_nil, List.append_nil]
    exact List.Perm.refl _
  | cons entry entries ih =>
    have hfirst := perm_tokenPairs_append map entry.sourcePort (entry.destinations m node)
    rw [List.flatMap_cons, ← List.append_assoc]
    exact (ih _).trans (hfirst.append_right _)

theorem fillAll_cons_eq_ok_iff {map filled : PortBindings} {spec : String}
    {specs : List String} :
    map.fillAll m node (spec :: specs) = .ok filled ↔
      ∃ entries, BindingEntry.parseSpec spec = .ok entries ∧
        (BindingEntry.collect m node map entries).fillAll m node specs = .ok filled := by
  rw [fillAll, fill]
  cases BindingEntry.parseSpec spec with
  | error failure => simp
  | ok entries => simp

/-- Specifications add their pairs to those that were there. -/
theorem perm_fillAll {specs : List String} {map filled : PortBindings}
    (h : map.fillAll m node specs = .ok filled) :
    (tokenPairs filled).Perm (tokenPairs map ++ specs.flatMap (specPairs m node)) := by
  induction specs generalizing map with
  | nil =>
    obtain rfl : map = filled := by simpa [fillAll] using h
    rw [List.flatMap_nil, List.append_nil]
  | cons spec specs ih =>
    obtain ⟨entries, hparse, hrest⟩ := fillAll_cons_eq_ok_iff.1 h
    rw [List.flatMap_cons, specPairs, hparse, ← List.append_assoc]
    exact (ih hrest).trans ((perm_tokenPairs_collect map entries).append_right _)

/-- Specifications are filled in exactly when all of them can be read. -/
theorem exists_fillAll_iff {specs : List String} {map : PortBindings} :
    (∃ filled, map.fillAll m node specs = .ok filled) ↔ ∀ spec ∈ specs, Readable spec := by
  induction specs generalizing map with
  | nil => simp [fillAll]
  | cons spec specs ih =>
    rw [List.forall_mem_cons]
    constructor
    · rintro ⟨filled, h⟩
      obtain ⟨entries, hparse, hrest⟩ := fillAll_cons_eq_ok_iff.1 h
      exact ⟨⟨entries, hparse⟩, ih.1 ⟨filled, hrest⟩⟩
    · rintro ⟨⟨entries, hparse⟩, hspecs⟩
      obtain ⟨filled, hrest⟩ := ih.2 hspecs
      exact ⟨filled, fillAll_cons_eq_ok_iff.2 ⟨entries, hparse, hrest⟩⟩

end PortBindings

/-! ## Reading tokens -/

namespace Synthesis

theorem readPairs_append_eq_ok_iff {s t : List (String × String)}
    {pairs : List (String × Destination)} :
    readPairs (s ++ t) = .ok pairs ↔
      ∃ p q, readPairs s = .ok p ∧ readPairs t = .ok q ∧ pairs = p ++ q := by
  induction s generalizing pairs with
  | nil => simp [readPairs]
  | cons first s ih =>
    rw [List.cons_append, readPairs_cons_eq_ok_iff]
    constructor
    · rintro ⟨d, others, hparse, hrest, rfl⟩
      obtain ⟨p, q, hp, hq, rfl⟩ := ih.1 hrest
      exact ⟨(first.1, d) :: p, q, readPairs_cons_eq_ok_iff.2 ⟨d, p, hparse, hp, rfl⟩, hq, rfl⟩
    · rintro ⟨p, q, hp, hq, rfl⟩
      obtain ⟨d, others, hparse, hothers, rfl⟩ := readPairs_cons_eq_ok_iff.1 hp
      exact ⟨d, others ++ q, hparse, ih.2 ⟨others, q, hothers, hq, rfl⟩, rfl⟩

/-- Pairs in another order are read to the same destinations in another order. -/
theorem exists_readPairs_of_perm {s t : List (String × String)} (hperm : s.Perm t)
    {pairs : List (String × Destination)} (h : readPairs s = .ok pairs) :
    ∃ others, readPairs t = .ok others ∧ pairs.Perm others := by
  induction hperm generalizing pairs with
  | nil => exact ⟨pairs, h, List.Perm.refl _⟩
  | cons first hperm ih =>
    obtain ⟨d, rest, hparse, hrest, rfl⟩ := readPairs_cons_eq_ok_iff.1 h
    obtain ⟨others, hothers, hsame⟩ := ih hrest
    exact ⟨_, readPairs_cons_eq_ok_iff.2 ⟨d, others, hparse, hothers, rfl⟩, hsame.cons _⟩
  | swap first second rest =>
    obtain ⟨d, _, hparse, hrest, rfl⟩ := readPairs_cons_eq_ok_iff.1 h
    obtain ⟨d', others, hparse', hothers, rfl⟩ := readPairs_cons_eq_ok_iff.1 hrest
    refine ⟨_, readPairs_cons_eq_ok_iff.2 ⟨d', _, hparse', ?_, rfl⟩, List.Perm.swap _ _ _⟩
    exact readPairs_cons_eq_ok_iff.2 ⟨d, others, hparse, hothers, rfl⟩
  | trans _ _ ih ih' =>
    obtain ⟨others, hothers, hfirst⟩ := ih h
    obtain ⟨last, hlast, hsecond⟩ := ih' hothers
    exact ⟨last, hlast, hfirst.trans hsecond⟩

end Synthesis

end Wiring
