import Wiring.Files.Memory
import Wiring.Model.Store
import Wiring.Proofs.Files.Path
import Wiring.Proofs.Files.Workplace

/-!
# Models in files

The file that is written first stands in the directory of the one that it replaces, under
another name, `exists_besidePath`.  So a model is saved where both can be written,
`save_eq_ok_iff`, and loading it reads the document that was written, `load_save`.
-/

namespace Wiring.Model

open Wiring.Path (IsFront)
open Wiring.Text

/-- The path beside another one has its front, and another last part with a given ending. -/
theorem exists_besidePath {path : String} {front last : List Char}
    (hpath : path.toList = front ++ last) (hfront : IsFront front) (hlast : '/' ∉ last) :
    ∃ stem, (besidePath path).toList = front ++ (stem ++ ".json.tmp".toList) ∧ '/' ∉ stem ∧
      stem ++ ".json.tmp".toList ≠ last := by
  have hwhole (hbeside : besidePath path = path ++ ".json.tmp") :
      ∃ stem, (besidePath path).toList = front ++ (stem ++ ".json.tmp".toList) ∧ '/' ∉ stem ∧
        stem ++ ".json.tmp".toList ≠ last := by
    refine ⟨last, ?_, hlast, fun h => ?_⟩
    · rw [hbeside, String.toList_append, hpath, List.append_assoc]
    · simp at h
  cases hcut : cutLast '.' path.toList with
  | none => exact hwhole (by rw [besidePath, hcut])
  | some parts =>
    obtain ⟨stem, ending⟩ := parts
    by_cases hcond : '/' ∈ ending ∨ stem = [] ∨ stem.getLast? = some '/'
    · exact hwhole (by simp only [besidePath, hcut, if_pos hcond])
    · have hbeside : besidePath path = String.ofList stem ++ ".json.tmp" := by
        simp only [besidePath, hcut, if_neg hcond]
      simp only [not_or] at hcond
      obtain ⟨hparts, hending⟩ := cutLast_eq_some_iff.1 hcut
      rcases List.append_eq_append_iff.1 (hpath.symm.trans hparts) with
        ⟨name, rfl, rfl⟩ | ⟨others, hfronteq, hendingeq⟩
      · -- The dot stands in the last part, behind a part of the name.
        refine ⟨name, ?_, fun h => hlast (List.mem_append_left _ h), fun h => ?_⟩
        · rw [hbeside, String.toList_append, String.toList_ofList, List.append_assoc]
        · have htail : ".json.tmp".toList = '.' :: ending := List.append_cancel_left h
          have hjson : ending = "json.tmp".toList := (List.cons.inj htail).2.symm
          exact hending (hjson ▸ by decide)
      · -- The dot stands in the front, so a slash stands behind it or right before it.
        exfalso
        cases others with
        | nil =>
          rw [List.append_nil] at hfronteq
          exact hfront.elim (hfronteq ▸ hcond.2.1) (hfronteq ▸ hcond.2.2)
        | cons c others =>
          obtain ⟨rfl, rfl⟩ := List.cons.inj hendingeq
          have hends : (stem ++ '.' :: others).getLast? = some '/' :=
            hfronteq ▸ hfront.resolve_left (by simp [hfronteq])
          rw [List.getLast?_append_of_ne_nil _ (List.cons_ne_nil _ _)] at hends
          have hmem : '/' ∈ '.' :: others := List.mem_of_getLast? hends
          exact hcond.1 (List.mem_append_left _ ((List.mem_cons.1 hmem).resolve_left (by decide)))

theorem besidePath_siblings {path name : String} {p q : Path} (hp : Path.ofText path = .ok p)
    (hq : Path.ofText (besidePath path) = .ok q) (hslash : p.endsInSlash = false)
    (hname : p.steps.getLast? = some (.enter name)) :
    p.Siblings q ∧ ∃ other, other ≠ name ∧ q.steps.getLast? = some (.enter other) := by
  obtain ⟨front, last, hpath, hfront, hlast, hstep⟩ := Path.exists_front_of_getLast? hp hslash hname
  obtain ⟨stem, hbeside, hstem, hne⟩ := exists_besidePath hpath hfront hlast
  have hbesidelast : '/' ∉ stem ++ ".json.tmp".toList := by
    rw [List.mem_append]
    exact fun h => h.elim hstem (by decide)
  have hlong : 2 < (stem ++ ".json.tmp".toList).length := by simp
  have hbesidestep := Path.stepOf?_of_length hlong
  obtain ⟨way, hway⟩ := Path.exists_way hfront
  obtain ⟨habsolute, hsteps, -⟩ := hway hpath hlast hp hstep
  obtain ⟨habsolute', hsteps', -⟩ := hway hbeside hbesidelast hq hbesidestep
  refine ⟨⟨by rw [habsolute, habsolute'], by rw [hsteps, hsteps']; simp⟩, _, ?_,
    by rw [hsteps', List.getLast?_concat]⟩
  rw [Path.eq_ofList_of_stepOf? hstep]
  exact fun heq => hne (String.ofList_inj.1 heq)

section Save

variable {path : String} {memory : Memory}

/-- Where a model can be saved, it is read again from the file. -/
theorem load_save (model : Model) (hpath : memory.disk.CanWrite path)
    (hbeside : memory.disk.CanWrite (besidePath path)) :
    ∃ after : Memory, save (m := InMemory) path model memory = (.ok (), after) ∧
      load (m := InMemory) path after = (Document.read (Document.pages model), after) := by
  obtain ⟨p, place, name, hp, hleads, hname⟩ := Workplace.canWrite_iff.1 hpath
  obtain ⟨q, place', other, hq, hleads', hother⟩ := Workplace.canWrite_iff.1 hbeside
  obtain ⟨hsiblings, other', hne, hlast⟩ := besidePath_siblings hp hq hleads.slash hleads.last
  obtain rfl := hleads.place_eq hsiblings hleads'
  obtain rfl : other = other' := by simpa [hleads'.last] using hlast
  have hwrite := Workplace.write_of_leadsTo hq hleads' hother (Document.pages model)
  have hp' := hleads.put hother (some (.file (Document.pages model)))
  have hq' := hleads'.put hother (some (.file (Document.pages model)))
  have hthere : (memory.disk.put (other :: place') (some (.file (Document.pages model)))).root.look?
      (other :: place') = some (.file (Document.pages model)) := by
    rw [Workplace.put, Tree.look?_put hleads.isDirectory, if_pos rfl]
  have hname' : ¬ (memory.disk.put (other :: place')
      (some (.file (Document.pages model)))).root.IsDirectory (name :: place') := by
    rw [Workplace.put, Tree.IsDirectory, Tree.look?_put hleads.isDirectory, if_neg hne.symm]
    exact hname
  obtain ⟨disk, hmove, hread⟩ := Workplace.read_move hq hp hq' hp' hne.symm hthere hname'
  refine ⟨{ memory with disk }, ?_, ?_⟩
  · simp only [save, Files.write, Files.move, Memory.onDisk, bind, StateT.bind, hwrite, hmove]
    rfl
  · simp only [load, Files.read, bind, StateT.bind, hread]
    rfl

/-- A model is saved where its file and the one beside it can be written, and only there. -/
theorem save_eq_ok_iff (model : Model) :
    (save (m := InMemory) path model memory).1 = .ok () ↔
      memory.disk.CanWrite path ∧ memory.disk.CanWrite (besidePath path) := by
  refine ⟨fun h => ?_, fun ⟨hpath, hbeside⟩ => ?_⟩
  · cases hwrite : memory.disk.write (besidePath path) (Document.pages model) with
    | error fault =>
      simp only [save, Files.write, Memory.onDisk, bind, StateT.bind, hwrite] at h
      cases h
    | ok disk =>
      cases hmove : disk.move (besidePath path) path with
      | error fault =>
        simp only [save, Files.write, Files.move, Memory.onDisk, bind, StateT.bind, hwrite,
          hmove] at h
        cases h
      | ok disk' =>
        rw [Workplace.move, bind_eq_ok_iff] at hmove
        obtain ⟨content, -, hmove⟩ := hmove
        obtain ⟨disk'', hwrite', -⟩ := bind_eq_ok_iff.1 hmove
        obtain ⟨q, place, other, hq, hbeside, hother, rfl⟩ := Workplace.write_eq_ok_iff.1 hwrite
        obtain ⟨p, place', name, hp, hpath, hname, -⟩ := Workplace.write_eq_ok_iff.1 hwrite'
        obtain ⟨hsiblings, other', hne, hlast⟩ := besidePath_siblings hp hq hpath.slash hpath.last
        obtain rfl := (hbeside.put hother _).place_eq hsiblings.symm hpath
        obtain rfl : other = other' := by simpa [hbeside.last] using hlast
        rw [Workplace.put, Tree.IsDirectory, Tree.look?_put hbeside.isDirectory,
          if_neg hne.symm] at hname
        have hleads := hbeside.sibling hsiblings.symm hpath.slash hpath.last hpath.fits
        exact ⟨Workplace.canWrite_iff.2 ⟨p, place', name, hp, hleads, hname⟩,
          Workplace.canWrite_iff.2 ⟨q, place', other, hq, hbeside, hother⟩⟩
  · obtain ⟨after, hsave, -⟩ := load_save model hpath hbeside
    rw [hsave]

end Save

end Wiring.Model
