import Wiring.Proofs.Binding.Pairs

/-!
# Specifications joined by commas

Commas separate the entries of a specification, so specifications that are joined by commas
are one specification with all their entries in order.  Filling it in comes to the same as
filling in the parts one after another, and fails in the same way, `fill_intercalate`.

A port has its tokens in the order of the specifications, `tokensOf_fillAll`.
-/

namespace Wiring

open Wiring.Text

namespace BindingEntry

theorem pieces_intercalate (specs : List String) :
    pieces (",".intercalate specs) = specs.flatMap pieces := by
  induction specs with
  | nil => decide
  | cons spec specs ih =>
    cases specs with
    | nil => simp
    | cons next specs =>
      rw [List.flatMap_cons, ← ih, String.intercalate_cons_cons]
      simp [pieces, fields_append_cons]

theorem parsePieces_append (front back : List (List Char)) :
    parsePieces (front ++ back) =
      (parsePieces front).bind fun entries => (parsePieces back).map (entries ++ ·) := by
  induction front with
  | nil =>
    rw [List.nil_append]
    cases parsePieces back <;> rfl
  | cons piece front ih =>
    rw [List.cons_append, parsePieces, parsePieces, ih]
    cases parse piece with
    | error failure => rfl
    | ok entry => cases parsePieces front <;> cases parsePieces back <;> rfl

theorem collect_append (m : Model) (node : String) (map : PortBindings)
    (front back : List BindingEntry) :
    collect m node map (front ++ back) = collect m node (collect m node map front) back :=
  List.foldl_append

end BindingEntry

namespace PortBindings

open BindingEntry

variable {m : Model} {node : String}

theorem fill_eq (map : PortBindings) (spec : String) :
    map.fill m node spec = (parsePieces (pieces spec)).map (collect m node map) := by
  rw [fill, parseSpec]
  cases parsePieces (pieces spec) <;> rfl

theorem fillAll_cons (map : PortBindings) (spec : String) (specs : List String) :
    map.fillAll m node (spec :: specs) =
      (map.fill m node spec).bind fun filled => filled.fillAll m node specs := by
  rw [fillAll]
  cases map.fill m node spec <;> rfl

/-- Joined specifications are filled in one after another. -/
theorem fill_intercalate (map : PortBindings) (specs : List String) :
    map.fill m node (",".intercalate specs) = map.fillAll m node specs := by
  rw [fill_eq, pieces_intercalate]
  induction specs generalizing map with
  | nil => rfl
  | cons spec specs ih =>
    rw [List.flatMap_cons, parsePieces_append, fillAll_cons, fill_eq]
    cases parsePieces (pieces spec) with
    | error failure => rfl
    | ok entries =>
      show _ = (collect m node map entries).fillAll m node specs
      rw [← ih]
      cases parsePieces (specs.flatMap pieces) with
      | error failure => rfl
      | ok others => simp [Except.bind, Except.map, collect_append]

theorem readable_intercalate_iff {specs : List String} :
    Readable (",".intercalate specs) ↔ ∀ spec ∈ specs, Readable spec := by
  rw [Readable, parseSpec, pieces_intercalate]
  induction specs with
  | nil => simp [parsePieces]
  | cons spec specs ih =>
    rw [List.flatMap_cons, parsePieces_append, List.forall_mem_cons, ← ih, Readable, parseSpec]
    cases parsePieces (pieces spec) with
    | error failure => simp [Except.bind]
    | ok entries => cases parsePieces (specs.flatMap pieces) <;> simp [Except.bind, Except.map]

/-! ## Ports -/

/-- The tokens that bindings hold for a port. -/
def tokensOf (port : String) (bindings : PortBindings) : List String :=
  (bindings.get? port).getD []

/-- The tokens that a specification leads a port to. -/
def specTokens (m : Model) (node port spec : String) : List String :=
  ((specPairs m node spec).filter fun pair => pair.1 = port).map (·.2)

theorem tokensOf_append (port key : String) (map : PortBindings) (tokens : List String) :
    tokensOf port (map.append key tokens) =
      tokensOf port map ++ if key = port then tokens else [] := by
  rw [tokensOf, tokensOf, Table.get?_append]
  by_cases hport : port = key
  · simp [hport]
  · simp [hport, Ne.symm hport]

/-- A port has, behind the tokens that it had, those of its entries in their order. -/
theorem tokensOf_collect (port : String) (map : PortBindings) (entries : List BindingEntry) :
    tokensOf port (collect m node map entries) = tokensOf port map ++
      (entries.filter fun e => e.sourcePort = port).flatMap fun e => e.destinations m node := by
  induction entries generalizing map with
  | nil => simp [collect]
  | cons entry entries ih =>
    have hrest : tokensOf port (collect m node map (entry :: entries)) = _ :=
      ih (map.append entry.sourcePort (entry.destinations m node))
    rw [hrest, tokensOf_append, List.append_assoc, List.filter_cons]
    by_cases hport : entry.sourcePort = port
    · simp [hport]
    · simp [hport]

theorem tokens_filter_pairs (entries : List BindingEntry) (port : String) :
    ((entries.flatMap (BindingEntry.pairs m node)).filter fun pair => pair.1 = port).map (·.2) =
      (entries.filter fun e => e.sourcePort = port).flatMap fun e => e.destinations m node := by
  induction entries with
  | nil => rfl
  | cons entry entries ih =>
    rw [List.flatMap_cons, List.filter_append, List.map_append, ih, List.filter_cons]
    by_cases hport : entry.sourcePort = port
    · simp [pairs, hport, List.filter_map, Function.comp_def]
    · simp [pairs, hport, List.filter_map, Function.comp_def]

/-- A port has its tokens in the order of the specifications. -/
theorem tokensOf_fillAll {specs : List String} {map filled : PortBindings}
    (h : map.fillAll m node specs = .ok filled) (port : String) :
    tokensOf port filled = tokensOf port map ++ specs.flatMap (specTokens m node port) := by
  induction specs generalizing map with
  | nil =>
    obtain rfl : map = filled := by simpa [fillAll] using h
    simp
  | cons spec specs ih =>
    obtain ⟨entries, hparse, hrest⟩ := fillAll_cons_eq_ok_iff.1 h
    rw [ih hrest, tokensOf_collect, List.flatMap_cons, ← List.append_assoc, specTokens,
      specPairs, hparse, tokens_filter_pairs]

end PortBindings

end Wiring
