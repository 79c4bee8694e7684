import Wiring.Proofs.Binding.Grammar
import Wiring.Proofs.Component.FreeKeys
import Wiring.Proofs.Synthesis.Shape

/-!
# What becomes of the steps of a draft

A draft is put together step by step, and a later step can replace what an earlier one gave:
the prefix, and the value of an attribute.  Nothing else is lost, `records_drafted`: the
specifications are there in their order, and each port has its destinations in theirs.

Finishing a draft fails exactly for a blank id or type, a destination that is not three names
between dots, or a malformed specification.  Otherwise the request has the attributes that were
given and, next to them, the specifications under the free keys of the last prefix in turn, and
nothing besides.  The main statement is `finish_drafted`.
-/

namespace Wiring

namespace Draft

/-- A step of putting a request together. -/
inductive Step where
  | setPrefix (p : String)
  | setValue (key value : String)
  | addSpec (spec : String)
  | addToken (port token : String)
deriving DecidableEq, Repr

/-- Take a step. -/
def take (d : Draft) : Step → Draft
  | .setPrefix p => d.withPrefix p
  | .setValue key value => d.withAttribute key value
  | .addSpec spec => d.withSpec spec
  | .addToken port token => d.withDestination port token

/-- The draft that steps make. -/
def drafted (typeName id : String) (steps : List Step) : Draft :=
  steps.foldl take { typeName, id }

/-! ## What the steps say -/

/-- The prefix that a step sets. -/
def Step.newPrefix : Step → Option String
  | setPrefix p => some p
  | _ => none

/-- The attribute that a step gives a value. -/
def Step.newKey : Step → Option String
  | setValue key _ => some key
  | _ => none

/-- The value that a step gives an attribute. -/
def Step.newValue (key : String) : Step → Option String
  | setValue other value => if other = key then some value else none
  | _ => none

/-- The specification that a step adds. -/
def Step.newSpec : Step → Option String
  | addSpec spec => some spec
  | _ => none

/-- The destination that a step adds to a port. -/
def Step.newToken (port : String) : Step → Option String
  | addToken other token => if other = port then some token else none
  | _ => none

/-- The last prefix that was set. -/
def lastPrefix (steps : List Step) : String :=
  (steps.filterMap Step.newPrefix).getLast?.getD ({} : Settings).bindingPrefix

/-- The last value that an attribute was given. -/
def lastValue (steps : List Step) (key : String) : Option String :=
  (steps.filterMap (Step.newValue key)).getLast?

/-- The specifications that were added, in order. -/
def addedSpecs (steps : List Step) : List String := steps.filterMap Step.newSpec

/-- The destinations that a port was given, in order. -/
def addedTokens (steps : List Step) (port : String) : List String :=
  steps.filterMap (Step.newToken port)

/-- A draft holds what steps say. -/
structure Records (typeName id : String) (steps : List Step) (d : Draft) : Prop where
  typeName : d.typeName = typeName
  id : d.id = id
  bindingPrefix : d.bindingPrefix = lastPrefix steps
  attributes : ∀ key, d.attributes.get? key = lastValue steps key
  specs : d.specs = addedSpecs steps
  portBindings : ∀ port, d.portBindings.get? port =
    if addedTokens steps port = [] then none else some (addedTokens steps port)

variable {typeName id : String} {steps : List Step} {d : Draft}

/-! ## One step -/

theorem bindingPrefix_take (d : Draft) (step : Step) :
    (d.take step).bindingPrefix = step.newPrefix.getD d.bindingPrefix := by
  cases step <;> rfl

theorem get?_attributes_take (d : Draft) (step : Step) (key : String) :
    (d.take step).attributes.get? key = (step.newValue key).or (d.attributes.get? key) := by
  cases step with
  | setValue other value =>
    show (d.attributes.insert other value).get? key = _
    rw [Table.get?_insert, Step.newValue]
    by_cases hkey : key = other
    · simp [hkey]
    · simp [hkey, Ne.symm hkey]
  | _ => rfl

theorem specs_take (d : Draft) (step : Step) :
    (d.take step).specs = d.specs ++ step.newSpec.toList := by
  cases step with
  | addSpec spec => rfl
  | _ => exact (List.append_nil d.specs).symm

theorem get?_portBindings_take (d : Draft) (step : Step) (port : String) :
    (d.take step).portBindings.get? port =
      match step.newToken port with
      | none => d.portBindings.get? port
      | some token => some ((d.portBindings.get? port).getD [] ++ [token]) := by
  cases step with
  | addToken other token =>
    show (d.portBindings.append other [token]).get? port = _
    rw [Table.get?_append, Step.newToken]
    by_cases hport : port = other
    · simp [hport]
    · simp [hport, Ne.symm hport]
  | _ => rfl

theorem lastPrefix_append (steps : List Step) (step : Step) :
    lastPrefix (steps ++ [step]) = step.newPrefix.getD (lastPrefix steps) := by
  rw [lastPrefix, lastPrefix, List.filterMap_append]
  cases hnew : step.newPrefix <;> simp [hnew]

theorem lastValue_append (steps : List Step) (step : Step) (key : String) :
    lastValue (steps ++ [step]) key = (step.newValue key).or (lastValue steps key) := by
  rw [lastValue, lastValue, List.filterMap_append]
  cases hvalue : step.newValue key <;> simp [hvalue]

theorem addedSpecs_append (steps : List Step) (step : Step) :
    addedSpecs (steps ++ [step]) = addedSpecs steps ++ step.newSpec.toList := by
  rw [addedSpecs, addedSpecs, List.filterMap_append]
  cases hspec : step.newSpec <;> simp [hspec]

theorem addedTokens_append (steps : List Step) (step : Step) (port : String) :
    addedTokens (steps ++ [step]) port = addedTokens steps port ++ (step.newToken port).toList := by
  rw [addedTokens, addedTokens, List.filterMap_append]
  cases htoken : step.newToken port <;> simp [htoken]

/-- A draft that holds what steps say holds, after one step more, what that one says as well. -/
theorem Records.take (h : Records typeName id steps d) (step : Step) :
    Records typeName id (steps ++ [step]) (d.take step) where
  typeName := by cases step <;> exact h.typeName
  id := by cases step <;> exact h.id
  bindingPrefix := by rw [bindingPrefix_take, lastPrefix_append, h.bindingPrefix]
  attributes key := by rw [get?_attributes_take, lastValue_append, h.attributes]
  specs := by rw [specs_take, addedSpecs_append, h.specs]
  portBindings port := by
    rw [get?_portBindings_take, addedTokens_append, h.portBindings]
    cases step.newToken port with
    | none => simp
    | some token =>
      by_cases hnone : addedTokens steps port = []
      · simp [hnone]
      · simp [hnone]

/-- A draft holds what all its steps say. -/
theorem records_drafted (typeName id : String) (steps : List Step) :
    Records typeName id steps (drafted typeName id steps) := by
  induction steps using List.reverseRecOn with
  | nil => exact ⟨rfl, rfl, rfl, fun _ => rfl, rfl, fun _ => rfl⟩
  | append_singleton steps step ih =>
    have hlast : drafted typeName id (steps ++ [step]) = (drafted typeName id steps).take step := by
      rw [drafted, List.foldl_append]
      rfl
    rw [hlast]
    exact ih.take step

/-! ## What steps gave -/

theorem mem_addedSpecs_iff {spec : String} : spec ∈ addedSpecs steps ↔ .addSpec spec ∈ steps := by
  rw [addedSpecs, List.mem_filterMap]
  constructor
  · rintro ⟨step, hstep, hspec⟩
    cases step <;> simp_all [Step.newSpec]
  · exact fun h => ⟨_, h, rfl⟩

theorem mem_addedTokens_iff {port token : String} :
    token ∈ addedTokens steps port ↔ .addToken port token ∈ steps := by
  rw [addedTokens, List.mem_filterMap]
  constructor
  · rintro ⟨step, hstep, htoken⟩
    cases step <;> simp_all [Step.newToken]
  · exact fun h => ⟨_, h, by simp [Step.newToken]⟩

theorem mem_newKeys_iff {key : String} :
    key ∈ steps.filterMap Step.newKey ↔ ∃ value, .setValue key value ∈ steps := by
  rw [List.mem_filterMap]
  constructor
  · rintro ⟨step, hstep, hkey⟩
    cases step with
    | setValue other value =>
      obtain rfl : other = key := Option.some.inj hkey
      exact ⟨value, hstep⟩
    | _ => contradiction
  · rintro ⟨value, hstep⟩
    exact ⟨_, hstep, rfl⟩

theorem lastValue_eq_none_iff {key : String} :
    lastValue steps key = none ↔ ∀ value, .setValue key value ∉ steps := by
  rw [lastValue, List.getLast?_eq_none_iff, List.filterMap_eq_nil_iff]
  constructor
  · intro hnone value hstep
    simpa [Step.newValue] using hnone _ hstep
  · intro hnone step hstep
    cases step with
    | setValue other value =>
      refine if_neg fun hkey => ?_
      exact hnone value (hkey ▸ hstep)
    | _ => rfl

theorem setValue_mem_of_lastValue {key value : String} (h : lastValue steps key = some value) :
    .setValue key value ∈ steps := by
  obtain ⟨step, hstep, hvalue⟩ := List.mem_filterMap.1 (List.mem_of_getLast? h)
  cases step with
  | setValue other given =>
    rw [Step.newValue] at hvalue
    split at hvalue
    · rename_i hkey
      rwa [← hkey, ← Option.some.inj hvalue]
    · contradiction
  | _ => contradiction

/-- The attributes of a draft were given in steps. -/
theorem Records.setValue_mem (h : Records typeName id steps d) {entry : String × String}
    (hentry : entry ∈ d.attributes.entries) : .setValue entry.1 entry.2 ∈ steps := by
  have hvalue := Table.get?_of_mem hentry
  rw [h.attributes] at hvalue
  exact setValue_mem_of_lastValue hvalue

/-- The tokens of a draft are those that were added. -/
theorem Records.forall_tokens_iff (h : Records typeName id steps d) {P : String → Prop} :
    (∀ entry ∈ d.portBindings.entries, ∀ token ∈ entry.2, P token) ↔
      ∀ port token, .addToken port token ∈ steps → P token := by
  constructor
  · intro hall port token hstep
    have hmem := mem_addedTokens_iff.2 hstep
    have hget := h.portBindings port
    rw [if_neg (List.ne_nil_of_mem hmem)] at hget
    exact hall _ (Table.get?_eq_some_iff.1 hget) token hmem
  · intro hall entry hentry token htoken
    have hget := Table.get?_of_mem hentry
    rw [h.portBindings] at hget
    split at hget
    · contradiction
    · have htokens : addedTokens steps entry.1 = entry.2 := Option.some.inj hget
      exact hall entry.1 token (mem_addedTokens_iff.1 (htokens ▸ htoken))

/-- A draft has one attribute for each key that was given. -/
theorem Records.length_attributes (h : Records typeName id steps d) :
    d.attributes.entries.length = (steps.filterMap Step.newKey).dedup.length := by
  have hnodup : d.attributes.keys.Nodup := d.attributes.nodup_keys
  have hsame : d.attributes.keys.Perm (steps.filterMap Step.newKey).dedup := by
    refine (List.perm_ext_iff_of_nodup hnodup (List.nodup_dedup _)).2 fun key => ?_
    rw [Table.mem_keys_iff, Table.contains, h.attributes, List.mem_dedup, mem_newKeys_iff,
      Option.isSome_iff_ne_none, Ne, lastValue_eq_none_iff, not_forall_not]
  rw [← Table.length_keys, hsame.length_eq]

/-! ## Finishing -/

theorem checkDestinations_eq_ok_iff {tokens : List String} :
    checkDestinations tokens = .ok () ↔ ∀ token ∈ tokens, Destination.IsToken token := by
  induction tokens with
  | nil => simp [checkDestinations]
  | cons token tokens ih =>
    rw [checkDestinations, List.forall_mem_cons, Destination.isToken_iff, ← ih]
    cases Destination.parse token with
    | error failure => simp
    | ok destination => simp

theorem finish_eq_ok_iff {c : Component} :
    d.finish = .ok c ↔
      (¬ Text.isBlankText d.id = true ∧ ¬ Text.isBlankText d.typeName = true) ∧
        (∀ entry ∈ d.portBindings.entries, ∀ token ∈ entry.2, Destination.IsToken token) ∧
        ∃ stored, storeSpecs d.bindingPrefix 0 d.attributes d.specs = .ok stored ∧
          c = ⟨d.typeName, d.id, stored, d.portBindings⟩ := by
  have htokens : checkDestinations (d.portBindings.entries.flatMap (·.2)) = .ok () ↔
      ∀ entry ∈ d.portBindings.entries, ∀ token ∈ entry.2, Destination.IsToken token := by
    rw [checkDestinations_eq_ok_iff]
    simp only [List.mem_flatMap, forall_exists_index, and_imp]
    exact ⟨fun h entry hentry token => h token entry hentry,
      fun h token entry hentry => h entry hentry token⟩
  rw [finish, ← htokens]
  simp only [bind_eq_ok_iff]
  constructor
  · rintro ⟨_, hvalid, _, hchecked, stored, hstored, hc⟩
    exact ⟨Component.validate_eq_ok_iff.1 hvalid, hchecked, stored, hstored,
      (Except.ok.inj hc).symm⟩
  · rintro ⟨hnames, hchecked, stored, hstored, rfl⟩
    exact ⟨(), Component.validate_eq_ok_iff.2 hnames, (), hchecked, stored, hstored, rfl⟩

theorem exists_finish_iff :
    (∃ c, d.finish = .ok c) ↔
      (¬ Text.isBlankText d.id = true ∧ ¬ Text.isBlankText d.typeName = true) ∧
        (∀ entry ∈ d.portBindings.entries, ∀ token ∈ entry.2, Destination.IsToken token) ∧
        ∀ spec ∈ d.specs, PortBindings.Readable spec := by
  simp only [finish_eq_ok_iff]
  constructor
  · rintro ⟨c, hnames, htokens, stored, hstored, -⟩
    exact ⟨hnames, htokens, readable_of_storeSpecs hstored⟩
  · rintro ⟨hnames, htokens, hspecs⟩
    obtain ⟨stored, hstored, -⟩ := exists_storeSpecs hspecs d.bindingPrefix d.attributes
    exact ⟨_, hnames, htokens, stored, hstored, rfl⟩

/-- Next to the attributes of a draft, the request has its specifications under the free keys in
turn, and no other attributes. -/
theorem perm_attributes_of_finish {c : Component} (h : d.finish = .ok c) :
    c.attributes.entries.Perm (d.attributes.entries ++ d.specs.zipIdx.map fun numbered =>
      (specKey d.bindingPrefix (Nat.nth (IsFree d.attributes d.bindingPrefix) numbered.2),
        numbered.1)) := by
  obtain ⟨-, -, stored, hstored, rfl⟩ := finish_eq_ok_iff.1 h
  obtain ⟨stored', hstored', hperm⟩ :=
    exists_storeSpecs (readable_of_storeSpecs hstored) d.bindingPrefix d.attributes
  obtain rfl := Except.ok.inj (hstored.symm.trans hstored')
  exact hperm

theorem mem_attributes_of_finish {c : Component} (h : d.finish = .ok c)
    {entry : String × String} (hentry : entry ∈ c.attributes.entries) :
    entry ∈ d.attributes.entries ∨ PortBindings.Readable entry.2 := by
  obtain ⟨-, -, hreadable⟩ := exists_finish_iff.1 ⟨c, h⟩
  rw [(perm_attributes_of_finish h).mem_iff, List.mem_append] at hentry
  refine hentry.imp_right fun hstored => ?_
  obtain ⟨⟨spec, n⟩, hspec, rfl⟩ := List.mem_map.1 hstored
  exact hreadable spec (List.fst_mem_of_mem_zipIdx hspec)

/-! ## Main statement -/

/-- The key of the specification that was added after `i` others: the `i`-th of the keys of the
last prefix that no attribute was given under. -/
noncomputable def freeKey (steps : List Step) (i : Nat) : String :=
  specKey (lastPrefix steps)
    (Nat.nth (fun n => lastValue steps (specKey (lastPrefix steps) n) = none) i)

theorem Records.isFree_eq (h : Records typeName id steps d) :
    IsFree d.attributes d.bindingPrefix =
      fun n => lastValue steps (specKey (lastPrefix steps) n) = none := by
  funext n
  rw [IsFree, Table.contains, h.attributes, h.bindingPrefix, Option.isSome_eq_false_iff,
    Option.isNone_iff_eq_none]

/-- Finishing fails exactly for a blank id or type, for a destination that is not three names
between dots, and for a malformed specification.  Otherwise all that was given is there: each
port has its destinations in order, each attribute its last value, and the specifications stand
in order under the free keys of the last prefix.  There are no other attributes, and so as many
as different keys were given and specifications added.  The search for a free key always finds
the first one. -/
theorem finish_drafted (typeName id : String) (steps : List Step) :
    ((∃ failure, (drafted typeName id steps).finish = .error failure) ↔
        Text.isBlankText id = true ∨ Text.isBlankText typeName = true ∨
          (∃ port token, .addToken port token ∈ steps ∧ ¬ Destination.IsToken token) ∨
          ∃ spec, .addSpec spec ∈ steps ∧ ¬ BindingEntry.IsSpecification spec) ∧
      (∀ c, (drafted typeName id steps).finish = .ok c →
        c.typeName = typeName ∧ c.id = id ∧
          (∀ port, c.portBindings.get? port =
            if addedTokens steps port = [] then none else some (addedTokens steps port)) ∧
          (∀ key value, c.attributes.get? key = some value ↔
            lastValue steps key = some value ∨
              ∃ i, (addedSpecs steps)[i]? = some value ∧ key = freeKey steps i) ∧
          c.attributes.entries.length =
            (steps.filterMap Step.newKey).dedup.length + (addedSpecs steps).length) ∧
      ∀ used p n, IsLeast {j | n ≤ j ∧ IsFree used p j}
        (freeNumber used p used.entries.length n) := by
  have hrecords := records_drafted typeName id steps
  refine ⟨?_, fun c h => ?_, isLeast_freeNumber⟩
  · have hfailure : (∃ failure, (drafted typeName id steps).finish = .error failure) ↔
        ¬ ∃ c, (drafted typeName id steps).finish = .ok c := by
      cases (drafted typeName id steps).finish <;> simp
    rw [hfailure, ← not_iff_not, not_not, exists_finish_iff, hrecords.forall_tokens_iff,
      hrecords.specs, hrecords.id, hrecords.typeName]
    simp only [mem_addedSpecs_iff, BindingEntry.readable_iff, not_or, not_exists, not_and,
      not_not, and_assoc]
  · have hperm := perm_attributes_of_finish h
    rw [hrecords.isFree_eq, hrecords.bindingPrefix, hrecords.specs] at hperm
    obtain ⟨-, -, stored, -, rfl⟩ := finish_eq_ok_iff.1 h
    refine ⟨hrecords.typeName, hrecords.id, hrecords.portBindings, fun key value => ?_, ?_⟩
    · rw [Table.get?_eq_some_iff, hperm.mem_iff, List.mem_append, ← Table.get?_eq_some_iff,
        hrecords.attributes]
      refine or_congr_right ⟨fun hmem => ?_, ?_⟩
      · obtain ⟨⟨spec, i⟩, hi, hentry⟩ := List.mem_map.1 hmem
        obtain ⟨rfl, rfl⟩ := Prod.mk.inj hentry
        exact ⟨i, List.mem_zipIdx_iff_getElem?.1 hi, rfl⟩
      · rintro ⟨i, hi, rfl⟩
        exact List.mem_map.2 ⟨(value, i), List.mem_zipIdx_iff_getElem?.2 hi, rfl⟩
    · rw [hperm.length_eq, List.length_append, hrecords.length_attributes, List.length_map,
        List.length_zipIdx]

/-- The steps to a request for a switch.  The prefix is set late, an attribute is given twice, and
two others have keys of the prefix. -/
def switchSteps : List Step :=
  [.setValue "wire" "taken", .addSpec "out>Light.in", .setValue "level" "1",
    .addToken "alarm" "home1.siren.trigger", .setPrefix "wire", .addSpec "status>Panel.led",
    .setValue "level" "2", .setValue "wire_2" "taken", .addToken "alarm" "home1.horn.trigger"]

/-- The request for the switch. -/
def switchRequest : Component where
  typeName := "org.activehome.Switch"
  id := "s1"
  attributes := .ofList [("level", "2"), ("wire", "taken"), ("wire_1", "out>Light.in"),
    ("wire_2", "taken"), ("wire_3", "status>Panel.led")]
  portBindings := .ofList [("alarm", ["home1.siren.trigger", "home1.horn.trigger"])]

theorem finish_drafted_switchSteps :
    (drafted "org.activehome.Switch" "s1" switchSteps).finish = .ok switchRequest ∧
      (∀ key value, switchRequest.attributes.get? key = some value ↔
        lastValue switchSteps key = some value ∨
          ∃ i, (addedSpecs switchSteps)[i]? = some value ∧ key = freeKey switchSteps i) ∧
      lastValue switchSteps "level" = some "2" ∧
      addedSpecs switchSteps = ["out>Light.in", "status>Panel.led"] ∧
      switchRequest.attributes.entries.length =
        (switchSteps.filterMap Step.newKey).dedup.length + (addedSpecs switchSteps).length := by
  have hfinish : (drafted "org.activehome.Switch" "s1" switchSteps).finish = .ok switchRequest := by
    decide +kernel
  obtain ⟨-, -, -, hattributes, hcount⟩ :=
    (finish_drafted "org.activehome.Switch" "s1" switchSteps).2.1 _ hfinish
  exact ⟨hfinish, hattributes, by decide +kernel, by decide +kernel, hcount⟩

end Draft

end Wiring
