import Wiring.Proofs.Binding.Joined

/-!
# Filling in place

Bindings can be filled in place, where a failure leaves behind whatever was added before it.
A specification is read as a whole before anything is added, so a malformed one leaves the
bindings as they were, and one that can be read adds all that it asks for, `run_fillInPlace`.

What is added is exact: the ports of the specification are listed, and each port has, behind
the tokens that it had, those of its entries in their order.  Specifications joined by a comma
come to the same as one after the other.  The main statement is `fillInPlace_exact`.
-/

namespace Wiring

open BindingEntry

/-- The tokens of an entry name the port of each component of the node that runs under the
simple name of its type, in the order in which the node lists them. -/
theorem BindingEntry.destinations_eq (e : BindingEntry) (m : Model) (node : String) :
    e.destinations m node =
      ((m.components node).filter fun i =>
        (TypeName.parse i.typeName).simple = (TypeName.parse e.typeRef).simple).map
          fun i => node ++ "." ++ i.name ++ "." ++ e.destPort := by
  rw [destinations, Model.runningOn, List.map_map]
  rfl

namespace PortBindings

/-- Add what an entry leads to in place. -/
def addInPlace (m : Model) (node : String) (entry : BindingEntry) :
    ExceptT Failure (StateM PortBindings) Unit :=
  modify fun map => map.append entry.sourcePort (entry.destinations m node)

/-- Fill in a specification in place. -/
def fillInPlace (m : Model) (node spec : String) :
    ExceptT Failure (StateM PortBindings) Unit := do
  let entries ← ExceptT.mk (pure (parseSpec spec))
  entries.forM (addInPlace m node)

variable {m : Model} {node : String}

theorem run_forM_addInPlace (entries : List BindingEntry) (map : PortBindings) :
    (entries.forM (addInPlace m node)).run.run map = (.ok (), collect m node map entries) := by
  induction entries generalizing map with
  | nil => rfl
  | cons entry entries ih => exact ih (map.append entry.sourcePort (entry.destinations m node))

/-- Nothing is added before all of a specification is read. -/
theorem run_fillInPlace (spec : String) (map : PortBindings) :
    (fillInPlace m node spec).run.run map =
      match map.fill m node spec with
      | .error failure => (.error failure, map)
      | .ok filled => (.ok (), filled) := by
  rw [fill]
  cases hparse : parseSpec spec with
  | error failure => simp only [fillInPlace, hparse]; rfl
  | ok entries =>
    have hrun : (fillInPlace m node spec).run.run map =
        (entries.forM (addInPlace m node)).run.run map := by
      rw [fillInPlace, hparse]
      rfl
    rw [hrun, run_forM_addInPlace]

theorem run_then (first second : ExceptT Failure (StateM PortBindings) Unit)
    (map : PortBindings) :
    (do first; second).run.run map =
      match first.run.run map with
      | (.error failure, left) => (.error failure, left)
      | (.ok (), left) => second.run.run left := by
  have hbind : (do first; second).run.run map =
      ((first.run >>= ExceptT.bindCont fun _ => second) : StateM PortBindings _).run map := rfl
  rw [hbind, StateT.run_bind]
  rcases first.run.run map with ⟨_ | _, left⟩ <;> rfl

/-! ## What is added -/

theorem mem_keys_collect {map : PortBindings} {entries : List BindingEntry} {port : String} :
    port ∈ (collect m node map entries).keys ↔
      port ∈ map.keys ∨ ∃ e ∈ entries, e.sourcePort = port := by
  induction entries generalizing map with
  | nil => simp [collect]
  | cons entry entries ih =>
    have hrest : port ∈ (collect m node map (entry :: entries)).keys ↔
        port ∈ (map.append entry.sourcePort (entry.destinations m node)).keys ∨
          ∃ e ∈ entries, e.sourcePort = port := ih
    rw [hrest, Table.append, Table.mem_keys_insert, eq_comm]
    simp only [List.mem_cons, exists_eq_or_imp, or_assoc, or_left_comm]

/-- A specification behind a comma is filled in after the one before it. -/
theorem fill_comma (map : PortBindings) (spec other : String) :
    map.fill m node (spec ++ "," ++ other) =
      (map.fill m node spec).bind fun filled => filled.fill m node other := by
  have hjoined : spec ++ "," ++ other = ",".intercalate [spec, other] := by simp
  rw [hjoined, fill_intercalate, fillAll_cons]
  congr
  funext filled
  rw [fillAll_cons]
  cases filled.fill m node other <;> rfl

/-- Where the second of two specifications can be read, they are filled in together as one
after the other. -/
theorem fillInPlace_comma (spec : String) {other : String} (hother : Readable other) :
    fillInPlace m node (spec ++ "," ++ other) =
      (do fillInPlace m node spec; fillInPlace m node other) := by
  have hrun : ∀ map, (fillInPlace m node (spec ++ "," ++ other)).run.run map =
      (do fillInPlace m node spec; fillInPlace m node other).run.run map := by
    intro map
    rw [run_then, run_fillInPlace, run_fillInPlace, fill_comma]
    cases map.fill m node spec with
    | error failure => rfl
    | ok filled =>
      obtain ⟨entries, hparse⟩ := hother
      have hfill : filled.fill m node other = .ok (collect m node filled entries) := by
        rw [fill, hparse]
      simp only [Except.bind, run_fillInPlace, hfill]
  exact funext hrun

/-! ## Main statement -/

/-- A malformed specification fails and leaves the bindings as they were.  One that can be read
adds its ports, and to each port the tokens of its entries in order: for every component of the
node that runs under the simple name of the entry's type, in the order in which the node lists
them, the port that the entry names.  Specifications that can be read are filled in together, by
a comma between them, as one after the other. -/
theorem fillInPlace_exact (m : Model) (node : String) (map : PortBindings) (spec : String) :
    (∀ failure, parseSpec spec = .error failure →
        map.fill m node spec = .error failure ∧
          (fillInPlace m node spec).run.run map = (.error failure, map)) ∧
      (∀ entries, parseSpec spec = .ok entries →
        ∃ filled, map.fill m node spec = .ok filled ∧
          (fillInPlace m node spec).run.run map = (.ok (), filled) ∧
          (∀ port, port ∈ filled.keys ↔ port ∈ map.keys ∨ ∃ e ∈ entries, e.sourcePort = port) ∧
          ∀ port, tokensOf port filled = tokensOf port map ++
            (entries.filter fun e => e.sourcePort = port).flatMap fun e =>
              ((m.components node).filter fun i =>
                (TypeName.parse i.typeName).simple = (TypeName.parse e.typeRef).simple).map
                  fun i => node ++ "." ++ i.name ++ "." ++ e.destPort) ∧
      ∀ other, Readable other →
        fillInPlace m node (spec ++ "," ++ other) =
          (do fillInPlace m node spec; fillInPlace m node other) := by
  refine ⟨fun failure h => ?_, fun entries h => ?_, fun other hother => ?_⟩
  · have hfill : map.fill m node spec = .error failure := by rw [fill, h]
    exact ⟨hfill, by rw [run_fillInPlace, hfill]⟩
  · have hfill : map.fill m node spec = .ok (collect m node map entries) := by rw [fill, h]
    refine ⟨collect m node map entries, hfill, ?_, fun port => mem_keys_collect, fun port => ?_⟩
    · rw [run_fillInPlace, hfill]
    · simp only [tokensOf_collect, destinations_eq]
  · exact fillInPlace_comma spec hother

/-- Two lamps and a meter on a node, and a lamp on another one. -/
def twoNodes : Model where
  nodes := [⟨"home1", [⟨"light_a", "org.activehome.Light"⟩, ⟨"meter_a", "Meter"⟩,
      ⟨"light_b", "Light/2.0"⟩]⟩,
    ⟨"home2", [⟨"light_c", "Light"⟩]⟩]

/-- A port with a destination on the other node. -/
def farLamp : PortBindings := .ofList [("o", ["home2.light_c.in"])]

theorem fillInPlace_exact_twoNodes :
    parseSpec "o>Light.in,out" = .error (.invalidBinding "out" .shape) ∧
      (fillInPlace twoNodes "home1" "o>Light.in,out").run.run farLamp =
        (.error (.invalidBinding "out" .shape), farLamp) ∧
      parseSpec "o>Light.in, p>Fan.in,o>x.Light/1.0.dim" =
        .ok [⟨"o", "Light", "in"⟩, ⟨"p", "Fan", "in"⟩, ⟨"o", "x.Light/1.0", "dim"⟩] ∧
      (∃ filled,
        (fillInPlace twoNodes "home1" "o>Light.in, p>Fan.in,o>x.Light/1.0.dim").run.run farLamp =
          (.ok (), filled) ∧ "p" ∈ filled.keys ∧ tokensOf "p" filled = [] ∧
        tokensOf "o" filled = ["home2.light_c.in", "home1.light_a.in", "home1.light_b.in",
          "home1.light_a.dim", "home1.light_b.dim"]) ∧
      Readable "o>Meter.tap" ∧
      fillInPlace twoNodes "home1" ("o>Light.in" ++ "," ++ "o>Meter.tap") =
        (do fillInPlace twoNodes "home1" "o>Light.in"; fillInPlace twoNodes "home1" "o>Meter.tap") := by
  have hfault : parseSpec "o>Light.in,out" = .error (.invalidBinding "out" .shape) := by
    decide +kernel
  have hparse : parseSpec "o>Light.in, p>Fan.in,o>x.Light/1.0.dim" =
      .ok [⟨"o", "Light", "in"⟩, ⟨"p", "Fan", "in"⟩, ⟨"o", "x.Light/1.0", "dim"⟩] := by
    decide +kernel
  have hreadable : Readable "o>Meter.tap" := by decide +kernel
  obtain ⟨filled, -, hrun, hkeys, htokens⟩ :=
    (fillInPlace_exact twoNodes "home1" farLamp _).2.1 _ hparse
  refine ⟨hfault, ((fillInPlace_exact twoNodes "home1" farLamp _).1 _ hfault).2, hparse,
    ⟨filled, hrun, ?_, ?_, ?_⟩, hreadable,
    (fillInPlace_exact twoNodes "home1" farLamp "o>Light.in").2.2 _ hreadable⟩
  · exact (hkeys "p").2 (Or.inr ⟨⟨"p", "Fan", "in"⟩, by simp, rfl⟩)
  · exact (htokens "p").trans (by decide +kernel)
  · exact (htokens "o").trans (by decide +kernel)

end PortBindings

end Wiring
