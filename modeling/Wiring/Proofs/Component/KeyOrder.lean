import Mathlib.Data.String.Basic
import Wiring.Proofs.Binding.Joined
import Wiring.Proofs.Component.FreeKeys
import Wiring.Synthesis

/-!
# The order of drafted specifications

The specifications of a draft are stored under numbered keys and read back in the order of
the keys.  Keys are compared as texts, so the order is that of the digits: up to ten
specifications keep the order in which they were added, and the eleventh, `p_10`, comes back
ahead of the third, `p_2`.

The main statement is `startScript_foldl_withSpec`: adding specifications one by one comes to
the same as adding one that joins them in the order of their keys, `inKeyOrder`.
-/

namespace Wiring

namespace Draft

variable {p : String}

/-! ## Keys -/

/-- Keys of one prefix are ordered as their ends are. -/
theorem specKey_lt {i j : Nat} (h : specKey "" i < specKey "" j) : specKey p i < specKey p j := by
  rw [specKey_eq_append p i, specKey_eq_append p j, String.lt_iff_toList_lt,
    String.toList_append, String.toList_append]
  exact List.append_left_lt (String.lt_iff_toList_lt.1 h)

/-- Numbered specifications, in the order of their keys. -/
def sortedByKey (specs : List String) : List (String × Nat) :=
  specs.zipIdx.mergeSort fun a b => specKey "" a.2 ≤ specKey "" b.2

/-- Specifications in the order of their keys. -/
def inKeyOrder (specs : List String) : List String := (sortedByKey specs).map (·.1)

theorem perm_sortedByKey (specs : List String) : (sortedByKey specs).Perm specs.zipIdx :=
  List.mergeSort_perm _ _

theorem perm_inKeyOrder (specs : List String) : (inKeyOrder specs).Perm specs := by
  have hperm := (perm_sortedByKey specs).map (·.1)
  rwa [List.zipIdx_map_fst] at hperm

theorem pairwise_sortedByKey (specs : List String) :
    (sortedByKey specs).Pairwise fun a b => specKey p a.2 < specKey p b.2 := by
  have hsorted : (sortedByKey specs).Pairwise fun a b => specKey "" a.2 ≤ specKey "" b.2 := by
    have hpairwise := @List.pairwise_mergeSort (String × Nat)
      (fun a b => decide (specKey "" a.2 ≤ specKey "" b.2))
      (fun a b c hab hbc => by simpa using le_trans (of_decide_eq_true hab) (of_decide_eq_true hbc))
      (fun a b => by simpa using le_total (specKey "" a.2) (specKey "" b.2)) specs.zipIdx
    simpa only [sortedByKey, decide_eq_true_eq] using hpairwise
  have hnumbers : ((sortedByKey specs).map (·.2)).Nodup := by
    rw [((perm_sortedByKey specs).map (·.2)).nodup_iff, List.zipIdx_map_snd]
    exact List.nodup_range'
  have hdistinct : (sortedByKey specs).Pairwise fun a b => a.2 ≠ b.2 := List.pairwise_map.1 hnumbers
  refine (hsorted.and hdistinct).imp fun h => specKey_lt (lt_of_le_of_ne h.1 ?_)
  exact fun heq => h.2 (specKey_inj.1 heq)

/-- The first ten keys are in order. -/
theorem inKeyOrder_of_length_le {specs : List String} (h : specs.length ≤ 10) :
    inKeyOrder specs = specs := by
  have hkeys : ∀ j < 10, ∀ i < j, specKey "" i ≤ specKey "" j := by decide +kernel
  have hsorted : specs.zipIdx.Pairwise fun a b =>
      decide (specKey "" a.2 ≤ specKey "" b.2) = true := by
    have hnumbers : (specs.zipIdx.map (·.2)).Pairwise fun i j =>
        decide (specKey "" i ≤ specKey "" j) = true := by
      rw [List.zipIdx_map_snd, ← List.range_eq_range', List.pairwise_iff_getElem]
      intro i j hi hj hij
      rw [List.length_range] at hi hj
      rw [List.getElem_range, List.getElem_range, decide_eq_true_eq]
      exact hkeys j (by omega) i hij
    exact List.pairwise_map.1 hnumbers
  rw [inKeyOrder, sortedByKey, List.mergeSort_of_pairwise hsorted, List.zipIdx_map_fst]

/-- The eleventh key stands ahead of the third, so more than ten different specifications get
another order. -/
theorem inKeyOrder_ne_self {specs : List String} (hnodup : specs.Nodup)
    (hlong : 10 < specs.length) : inKeyOrder specs ≠ specs := by
  intro h
  have hlength : (sortedByKey specs).length = specs.length := by
    rw [(perm_sortedByKey specs).length_eq, List.length_zipIdx]
  -- Each specification stands at the place of its number.
  have hnumber : ∀ i (hi : i < (sortedByKey specs).length), (sortedByKey specs)[i].2 = i := by
    intro i hi
    have hmem := (perm_sortedByKey specs).mem_iff.1 (List.getElem_mem hi)
    have hspec : specs[i]? = some (sortedByKey specs)[i].1 := by
      conv_lhs => rw [← h, inKeyOrder, List.getElem?_map, List.getElem?_eq_getElem hi]
      rfl
    have hsame := (List.mem_zipIdx_iff_getElem?.1 hmem).trans hspec.symm
    have hbound := (List.getElem?_eq_some_iff.1 (List.mem_zipIdx_iff_getElem?.1 hmem)).1
    exact (List.getElem?_inj hbound hnodup).1 hsame
  have hsorted := List.pairwise_iff_getElem.1 (pairwise_sortedByKey (p := "") specs) 2 10 (by omega)
    (by omega) (by omega)
  rw [hnumber, hnumber] at hsorted
  exact absurd hsorted (by decide +kernel)

/-! ## Storing -/

/-- Where all keys are free, the specifications get the first ones in turn. -/
theorem exists_storeSpecs_free {specs : List String}
    (hreadable : ∀ spec ∈ specs, PortBindings.Readable spec) {t : Table String}
    (hfree : ∀ n, IsFree t p n) :
    ∃ stored, storeSpecs p 0 t specs = .ok stored ∧
      stored.entries.Perm
        (t.entries ++ specs.zipIdx.map fun numbered => (specKey p numbered.2, numbered.1)) := by
  have hnumber : ∀ i, Nat.nth (IsFree t p) i = i := fun i => Nat.nth_of_forall fun j _ => hfree j
  obtain ⟨stored, hstored, hperm⟩ := exists_storeSpecs hreadable p t
  simp only [hnumber] at hperm
  exact ⟨stored, hstored, hperm⟩

/-- Next to plain attributes, the specifications are stored in the order of their keys. -/
theorem exists_storeSpecs_plain {specs : List String}
    (hreadable : ∀ spec ∈ specs, PortBindings.Readable spec) {t : Table String}
    (hplain : ∀ entry ∈ t.entries, carries p entry.1 = false) :
    ∃ stored, storeSpecs p 0 t specs = .ok stored ∧
      (stored.entries.filter fun entry => carries p entry.1).map (·.2) = inKeyOrder specs ∧
      (stored.entries.filter fun entry => !carries p entry.1) = t.entries := by
  have hfree : ∀ n, IsFree t p n := by
    intro n
    refine Table.contains_eq_false_iff.2 fun entry hentry hkey => ?_
    have hcarries := hplain entry hentry
    rw [hkey, carries_specKey] at hcarries
    contradiction
  obtain ⟨stored, hstored, hperm⟩ := exists_storeSpecs_free hreadable hfree
  have hcarries : ∀ entry ∈ specs.zipIdx.map (fun numbered => (specKey p numbered.2, numbered.1)),
      carries p entry.1 = true :=
    List.forall_mem_map.2 fun numbered _ => carries_specKey p numbered.2
  have hascending : ∀ keep : String × String → Bool,
      (stored.entries.filter keep).Pairwise fun a b => a.1 < b.1 :=
    fun keep => stored.ascending.filter keep
  refine ⟨stored, hstored, ?_, ?_⟩
  · -- In the order of the keys the specifications ascend, as the table does.
    have hsorted : ((sortedByKey specs).map fun numbered =>
        (specKey p numbered.2, numbered.1)).Pairwise fun a b => a.1 < b.1 :=
      List.pairwise_map.2 (pairwise_sortedByKey specs)
    have hkept : (stored.entries.filter fun entry => carries p entry.1).Perm
        ((sortedByKey specs).map fun numbered => (specKey p numbered.2, numbered.1)) := by
      refine (hperm.filter _).trans ?_
      rw [List.filter_append, List.filter_eq_nil_iff.2 (by simpa using hplain), List.nil_append,
        List.filter_eq_self.2 hcarries]
      exact ((perm_sortedByKey specs).map _).symm
    rw [Table.eq_of_perm (hascending _) hsorted hkept, List.map_map]
    rfl
  · refine Table.eq_of_perm (hascending _) t.ascending ((hperm.filter _).trans ?_)
    rw [List.filter_append, List.filter_eq_self.2 (by simpa using hplain),
      List.filter_eq_nil_iff.2 (by simpa using hcarries), List.append_nil]

/-! ## Finishing -/

theorem foldl_withSpec (d : Draft) (specs : List String) :
    specs.foldl withSpec d = { d with specs := d.specs ++ specs } := by
  induction specs generalizing d with
  | nil => simp
  | cons spec specs ih =>
    rw [List.foldl_cons, ih]
    simp [withSpec]

/-- What a draft comes to when its specifications are stored. -/
theorem finish_of_stored {d : Draft} {stored : Table String}
    (hstored : storeSpecs d.bindingPrefix 0 d.attributes d.specs = .ok stored) :
    d.finish = (Component.validate { typeName := d.typeName, id := d.id }).bind fun _ =>
      (checkDestinations (d.portBindings.entries.flatMap (·.2))).map fun _ =>
        { typeName := d.typeName, id := d.id, attributes := stored,
          portBindings := d.portBindings } := by
  rw [finish]
  cases Component.validate { typeName := d.typeName, id := d.id } with
  | error failure => rfl
  | ok _ =>
    cases checkDestinations (d.portBindings.entries.flatMap (·.2)) with
    | error failure => rfl
    | ok _ =>
      simp only [hstored]
      rfl

end Draft

/-! ## Scripts -/

namespace Synthesis

open Draft PortBindings

variable {s : Synthesis} {c c' : Component}

/-- The script of a start depends on the plain attributes and on what the ports are bound to. -/
theorem startScript_congr (htype : c.typeName = c'.typeName) (hid : c.id = c'.id)
    (hplain : c.plainAttributes s.settings.bindingPrefix =
      c'.plainAttributes s.settings.bindingPrefix)
    (hbindings : s.effectiveBindings c = s.effectiveBindings c') :
    s.startScript c = s.startScript c' := by
  have hvalid : c.validate = c'.validate := by
    rw [Component.validate, Component.validate, htype, hid]
  rw [startScript, startScript, hvalid, hbindings, hplain, htype, Component.path, Component.path,
    hid]

/-- What is read back when specifications are stored next to plain attributes: a component with
the attributes as they were, and with the specifications in the order of their keys. -/
theorem exists_finish_eq {d : Draft} {specs : List String}
    (hsettings : s.settings.bindingPrefix = d.bindingPrefix) (hnone : d.specs = [])
    (hplain : ∀ entry ∈ d.attributes.entries, carries d.bindingPrefix entry.1 = false)
    (hreadable : ∀ spec ∈ specs, Readable spec) :
    ∃ c : Component, c.typeName = d.typeName ∧ c.id = d.id ∧ c.portBindings = d.portBindings ∧
      c.plainAttributes s.settings.bindingPrefix = d.attributes.entries ∧
      s.specs c = inKeyOrder specs ∧
      (specs.foldl withSpec d).finish =
        (Component.validate { typeName := d.typeName, id := d.id }).bind fun _ =>
          (checkDestinations (d.portBindings.entries.flatMap (·.2))).map fun _ => c := by
  obtain ⟨stored, hstored, hspecs, hattributes⟩ := exists_storeSpecs_plain hreadable hplain
  refine ⟨⟨d.typeName, d.id, stored, d.portBindings⟩, rfl, rfl, rfl, ?_, ?_, ?_⟩
  · rw [hsettings]
    exact hattributes
  · rw [Synthesis.specs, Component.bindingAttributes, hsettings]
    exact hspecs
  · rw [foldl_withSpec, hnone, List.nil_append]
    exact finish_of_stored hstored

/-- Adding specifications one by one comes to the same as adding one that joins them in the
order of their keys.  Up to ten are joined in the order in which they were added, and more are
not when they differ. -/
theorem startScript_foldl_withSpec {d : Draft} {specs : List String}
    (hsettings : s.settings.bindingPrefix = d.bindingPrefix) (hnone : d.specs = [])
    (hplain : ∀ entry ∈ d.attributes.entries, carries d.bindingPrefix entry.1 = false)
    (hreadable : ∀ spec ∈ specs, Readable spec) :
    (specs.foldl withSpec d).finish.bind s.startScript =
        (d.withSpec (",".intercalate (inKeyOrder specs))).finish.bind s.startScript ∧
      (specs.length ≤ 10 → inKeyOrder specs = specs) ∧
      (specs.Nodup → 10 < specs.length → inKeyOrder specs ≠ specs) ∧
      ∀ c, (specs.foldl withSpec d).finish = .ok c →
        ∃ bindings, s.effectiveBindings c = .ok bindings ∧ ∀ port,
          tokensOf port bindings = tokensOf port d.portBindings ++
            (inKeyOrder specs).flatMap (specTokens s.model s.node port) := by
  have hsorted : ∀ spec ∈ inKeyOrder specs, Readable spec :=
    fun spec hspec => hreadable spec ((perm_inKeyOrder specs).mem_iff.1 hspec)
  have hjoined : ∀ spec ∈ [",".intercalate (inKeyOrder specs)], Readable spec :=
    List.forall_mem_singleton.2 (readable_intercalate_iff.2 hsorted)
  obtain ⟨c, htype, hid, hports, hattributes, hspecs, hfinish⟩ :=
    exists_finish_eq hsettings hnone hplain hreadable
  obtain ⟨c', htype', hid', hports', hattributes', hspecs', hfinish'⟩ :=
    exists_finish_eq hsettings hnone hplain hjoined
  have hscript : s.startScript c = s.startScript c' := by
    refine startScript_congr (htype.trans htype'.symm) (hid.trans hid'.symm)
      (hattributes.trans hattributes'.symm) ?_
    rw [inKeyOrder_of_length_le (by simp)] at hspecs'
    rw [effectiveBindings, effectiveBindings, hspecs, hspecs', hports, hports', fillAll_cons,
      fill_intercalate]
    cases d.portBindings.fillAll s.model s.node (inKeyOrder specs) <;> rfl
  refine ⟨?_, inKeyOrder_of_length_le, inKeyOrder_ne_self, fun finished hfinished => ?_⟩
  · show _ = ([",".intercalate (inKeyOrder specs)].foldl withSpec d).finish.bind s.startScript
    rw [hfinish, hfinish']
    cases Component.validate { typeName := d.typeName, id := d.id } with
    | error failure => rfl
    | ok _ =>
      cases checkDestinations (d.portBindings.entries.flatMap (·.2)) with
      | error failure => rfl
      | ok _ => exact hscript
  · obtain rfl : finished = c := by
      rw [hfinish] at hfinished
      cases hvalid : Component.validate { typeName := d.typeName, id := d.id } <;>
        cases hchecked : checkDestinations (d.portBindings.entries.flatMap (·.2)) <;>
        simp_all [Except.bind, Except.map]
    obtain ⟨bindings, hbindings⟩ : ∃ filled,
        d.portBindings.fillAll s.model s.node (inKeyOrder specs) = .ok filled :=
      exists_fillAll_iff.2 hsorted
    refine ⟨bindings, ?_, fun port => tokensOf_fillAll hbindings port⟩
    rw [effectiveBindings, hspecs, hports]
    exact hbindings

/-- A node with a meter and a lamp. -/
def meteredLamp : Synthesis where
  model :=
    { nodes := [⟨"home1", [⟨"meter_a", "org.activehome.Meter"⟩,
        ⟨"light_a", "org.activehome.Light"⟩]⟩] }
  settings := .forNode "home1"

/-- The beginning of a request for a switch. -/
def switchDraft : Draft where
  typeName := "org.activehome.Switch"
  id := "s1"
  attributes := .ofList [("level", "3")]

/-- Eleven specifications.  The third leads a port to the meter, and the last one to the lamp. -/
def elevenSpecs : List String :=
  ["p>Fan.in", "p>Fan.in", "o>Meter.in", "p>Fan.in", "p>Fan.in", "p>Fan.in", "p>Fan.in",
    "p>Fan.in", "p>Fan.in", "p>Fan.in", "o>Light.in"]

/-- A script that starts the switch and connects it to the ports of two components in turn. -/
def switchScript (first second : String) : Script :=
  let channel (id : String) : ChannelId := ⟨"chan_in_home1_" ++ id⟩
  [.addComponent ⟨"home1", "s1"⟩ "org.activehome.Switch",
    .setAttribute ⟨"home1", "s1"⟩ "level" "3",
    .addChannel (channel first) "AsyncBroadcast",
    .bind ⟨⟨"home1", first⟩, "in"⟩ (channel first),
    .bind ⟨⟨"home1", "s1"⟩, "o"⟩ (channel first),
    .addChannel (channel second) "AsyncBroadcast",
    .bind ⟨⟨"home1", second⟩, "in"⟩ (channel second),
    .bind ⟨⟨"home1", "s1"⟩, "o"⟩ (channel second)]

theorem startScript_foldl_withSpec_eleven :
    (∀ entry ∈ switchDraft.attributes.entries,
        carries switchDraft.bindingPrefix entry.1 = false) ∧
      (∀ spec ∈ elevenSpecs, Readable spec) ∧
      (elevenSpecs.foldl withSpec switchDraft).finish.bind meteredLamp.startScript =
        .ok (switchScript "light_a" "meter_a") ∧
      (switchDraft.withSpec (",".intercalate (inKeyOrder elevenSpecs))).finish.bind
        meteredLamp.startScript = .ok (switchScript "light_a" "meter_a") := by
  have hplain : ∀ entry ∈ switchDraft.attributes.entries,
      carries switchDraft.bindingPrefix entry.1 = false := by decide +kernel
  have hreadable : ∀ spec ∈ elevenSpecs, Readable spec := by decide +kernel
  have hscript : (elevenSpecs.foldl withSpec switchDraft).finish.bind meteredLamp.startScript =
      .ok (switchScript "light_a" "meter_a") := by decide +kernel
  have hsame := (startScript_foldl_withSpec (s := meteredLamp) rfl rfl hplain hreadable).1
  exact ⟨hplain, hreadable, hscript, hsame.symm.trans hscript⟩

/-- With eleven specifications the port is bound to the lamp first, though its specification
was added last.  The specifications joined as they were added bind it to the meter first. -/
theorem startScript_foldl_withSpec_ne_intercalate :
    (∀ spec ∈ elevenSpecs, Readable spec) ∧
      (elevenSpecs.foldl withSpec switchDraft).finish.bind meteredLamp.startScript =
        .ok (switchScript "light_a" "meter_a") ∧
      (switchDraft.withSpec (",".intercalate elevenSpecs)).finish.bind meteredLamp.startScript =
        .ok (switchScript "meter_a" "light_a") ∧
      switchScript "light_a" "meter_a" ≠ switchScript "meter_a" "light_a" := by
  decide +kernel

end Synthesis

end Wiring
