import Mathlib.Data.List.Basic
import Wiring.Files.Workplace
import Wiring.Proofs.Files.Path
import Wiring.Proofs.Files.Tree
import Wiring.Proofs.Outcomes

/-!
# Files that are written and moved

A path can be written if it ends in a name, the steps before it lead to a directory and no
directory stands under the name, `write_eq_ok_iff`.  A file that is moved within its
directory is read under its new name, `read_move`.
-/

namespace Wiring.Workplace

/-- Whether a path leads to the entry of a name, there or not, in the directory at a place. -/
structure LeadsTo (w : Workplace) (p : Path) (place : Place) (name : String) : Prop where
  slash : p.endsInSlash = false
  last : p.steps.getLast? = some (.enter name)
  follows : w.root.follow (w.start p) (p.steps.dropLast ++ [.stay]) = .ok place
  fits : name.utf8ByteSize ≤ nameLimit

namespace LeadsTo

variable {w : Workplace} {p : Path} {place : Place} {name : String}

theorem isDirectory (h : w.LeadsTo p place name) : w.root.IsDirectory place :=
  (Tree.follow_stay_eq_ok_iff.1 h.follows).2

/-- All steps of the path enter the name in the end. -/
theorem follow_whole (h : w.LeadsTo p place name) :
    w.root.follow (w.start p) p.whole = w.root.enter place name := by
  have hsteps : p.whole = p.steps.dropLast ++ [.enter name] := by
    rw [Path.whole, h.slash, if_neg Bool.false_ne_true]
    exact (List.dropLast_append_getLast? _ h.last).symm
  rw [hsteps, Tree.follow_append, (Tree.follow_stay_eq_ok_iff.1 h.follows).1]
  show w.root.follow place [.enter name] = _
  rw [Tree.follow, Tree.take]
  cases w.root.enter place name <;> rfl

/-- A path leads on to its entry where no directory is lost. -/
theorem put {other : Place} {entry : String} (h : w.LeadsTo p place name)
    (hentry : ¬ w.root.IsDirectory (entry :: other)) (t? : Option Tree) :
    (w.put (entry :: other) t?).LeadsTo p place name where
  slash := h.slash
  last := h.last
  follows := Tree.follow_of_isDirectory (fun _ hkept => hkept.put hentry t?) h.follows
  fits := h.fits

/-- Two paths with the same way lead to entries of the same directory. -/
theorem sibling {q : Path} {other : String} (h : w.LeadsTo p place name) (hpq : p.Siblings q)
    (hslash : q.endsInSlash = false) (hlast : q.steps.getLast? = some (.enter other))
    (hfits : other.utf8ByteSize ≤ nameLimit) : w.LeadsTo q place other where
  slash := hslash
  last := hlast
  follows := by
    rw [start, ← hpq.isAbsolute, ← hpq.way]
    exact h.follows
  fits := hfits

theorem place_eq {q : Path} {other : String} {place' : Place} (h : w.LeadsTo p place name)
    (hpq : p.Siblings q) (h' : w.LeadsTo q place' other) : place' = place :=
  Except.ok.inj (h'.follows.symm.trans (h.sibling hpq h'.slash h'.last h'.fits).follows)

end LeadsTo

theorem beforeLast_eq_ok_iff {w : Workplace} {p : Path} {place : Place} {name : String} :
    w.beforeLast p = .ok (place, .enter name) ↔
      w.root.follow (w.start p) (p.steps.dropLast ++ [.stay]) = .ok place ∧
        p.steps.getLast? = some (.enter name) := by
  have hlast : p.steps.getLast?.getD .stay = .enter name ↔
      p.steps.getLast? = some (.enter name) := by
    cases p.steps.getLast? <;> simp
  rw [beforeLast, bind_eq_ok_iff, ← hlast]
  refine ⟨?_, fun ⟨hplace, hstep⟩ => ⟨place, hplace, by rw [hstep]; rfl⟩⟩
  rintro ⟨place', hplace, heq⟩
  obtain ⟨rfl, hstep⟩ := Prod.mk.inj (Except.ok.inj heq)
  exact ⟨hplace, hstep⟩

/-- Whether a file can be written at a path. -/
def CanWrite (w : Workplace) (text : String) : Prop := ∃ w', w.write text "" = .ok w'

theorem write_of_leadsTo {w : Workplace} {text : String} {p : Path} {place : Place}
    {name : String} (htext : Path.ofText text = .ok p) (h : w.LeadsTo p place name)
    (hname : ¬ w.root.IsDirectory (name :: place)) (content : String) :
    w.write text content = .ok (w.put (name :: place) (some (.file content))) := by
  have hlast : w.beforeLast p = .ok (place, .enter name) :=
    beforeLast_eq_ok_iff.2 ⟨h.follows, h.last⟩
  rw [write, bind_eq_ok_iff]
  refine ⟨p, htext, bind_eq_ok_iff.2 ⟨_, hlast, ?_⟩⟩
  simp only [h.slash, Tree.enter_eq_of_isDirectory h.isDirectory, Nat.not_lt.2 h.fits]
  cases hfound : w.root.look? (name :: place) with
  | none => rfl
  | some t =>
    simp [hfound]
    cases t with
    | file old => rfl
    | directory entries => exact absurd ⟨entries, hfound⟩ hname

theorem write_eq_ok_iff {w w' : Workplace} {text content : String} :
    w.write text content = .ok w' ↔
      ∃ p place name, Path.ofText text = .ok p ∧ w.LeadsTo p place name ∧
        ¬ w.root.IsDirectory (name :: place) ∧
        w' = w.put (name :: place) (some (.file content)) := by
  constructor
  · intro hwrite
    have h := hwrite
    rw [write, bind_eq_ok_iff] at h
    obtain ⟨p, htext, h⟩ := h
    obtain ⟨⟨place, step⟩, hbefore, h⟩ := bind_eq_ok_iff.1 h
    cases step with
    | stay => cases h
    | up => cases h
    | enter name =>
      obtain ⟨hfollows, hlast⟩ := beforeLast_eq_ok_iff.1 hbefore
      dsimp only at h
      split at h
      · cases h
      · rename_i hslash
        rw [Tree.enter_eq_of_isDirectory (Tree.follow_stay_eq_ok_iff.1 hfollows).2] at h
        have hfits : ¬ nameLimit < name.utf8ByteSize := fun hlong => by
          rw [if_pos hlong] at h
          cases h
        have hname : ¬ w.root.IsDirectory (name :: place) := fun ⟨entries, hentries⟩ => by
          rw [if_neg hfits, hentries] at h
          simp only [Option.isNone_some, Bool.false_eq_true, if_false, hentries] at h
          cases h
        have hleads : w.LeadsTo p place name :=
          ⟨Bool.eq_false_iff.2 hslash, hlast, hfollows, Nat.le_of_not_lt hfits⟩
        rw [write_of_leadsTo htext hleads hname content] at hwrite
        exact ⟨p, place, name, htext, hleads, hname, (Except.ok.inj hwrite).symm⟩
  · rintro ⟨p, place, name, htext, hleads, hname, rfl⟩
    exact write_of_leadsTo htext hleads hname content

theorem canWrite_iff {w : Workplace} {text : String} :
    w.CanWrite text ↔ ∃ p place name, Path.ofText text = .ok p ∧ w.LeadsTo p place name ∧
      ¬ w.root.IsDirectory (name :: place) := by
  constructor
  · rintro ⟨w', hwrite⟩
    obtain ⟨p, place, name, htext, hleads, hname, -⟩ := write_eq_ok_iff.1 hwrite
    exact ⟨p, place, name, htext, hleads, hname⟩
  · rintro ⟨p, place, name, htext, hleads, hname⟩
    exact ⟨_, write_of_leadsTo htext hleads hname ""⟩

section Entry

variable {w : Workplace} {text content : String} {p : Path} {place : Place} {name : String}

/-- A path is entered to the end where something stands at it. -/
theorem follow_whole_of_leadsTo (h : w.LeadsTo p place name) {t : Tree}
    (hthere : w.root.look? (name :: place) = some t) :
    w.root.follow (w.start p) p.whole = .ok (name :: place) := by
  rw [h.follow_whole, Tree.enter_eq_ok_iff h.isDirectory, hthere]
  exact ⟨h.fits, rfl, rfl⟩

theorem read_of_leadsTo (htext : Path.ofText text = .ok p) (h : w.LeadsTo p place name)
    (hthere : w.root.look? (name :: place) = some (.file content)) :
    w.read text = .ok content := by
  have hget : w.get text = .ok (.file content) := by
    rw [get, bind_eq_ok_iff]
    refine ⟨p, htext, bind_eq_ok_iff.2 ⟨_, follow_whole_of_leadsTo h hthere, ?_⟩⟩
    rw [hthere]
    rfl
  rw [read, hget]
  rfl

theorem remove_of_leadsTo (htext : Path.ofText text = .ok p) (h : w.LeadsTo p place name)
    {t : Tree} (hthere : w.root.look? (name :: place) = some t) :
    w.remove text = .ok (w.put (name :: place) none) := by
  rw [remove, bind_eq_ok_iff]
  refine ⟨p, htext, bind_eq_ok_iff.2 ⟨_, follow_whole_of_leadsTo h hthere, rfl⟩⟩

end Entry

/-- A file that is moved to another name in its directory can be read there. -/
theorem read_move {w : Workplace} {source target content : String} {p q : Path} {place : Place}
    {name other : String} (hsource : Path.ofText source = .ok p)
    (htarget : Path.ofText target = .ok q) (hp : w.LeadsTo p place name)
    (hq : w.LeadsTo q place other) (hne : other ≠ name)
    (hthere : w.root.look? (name :: place) = some (.file content))
    (hother : ¬ w.root.IsDirectory (other :: place)) :
    ∃ w', w.move source target = .ok w' ∧ w'.read target = .ok content := by
  have hwrite := write_of_leadsTo htarget hq hother content
  -- The new file stands beside the old one, which is removed then.
  have hp' := hp.put hother (some (.file content))
  have hq' := hq.put hother (some (.file content))
  generalize hbeside : w.put (other :: place) (some (.file content)) = beside at hwrite hp' hq'
  have hboth : beside.root.look? (name :: place) = some (.file content) ∧
      beside.root.look? (other :: place) = some (.file content) := by
    subst hbeside
    exact ⟨by rw [put, Tree.look?_put hq.isDirectory, if_neg hne.symm, hthere],
      by rw [put, Tree.look?_put hq.isDirectory, if_pos rfl]⟩
  have hname : ¬ beside.root.IsDirectory (name :: place) := fun ⟨entries, hentries⟩ => by
    rw [hboth.1] at hentries
    cases hentries
  have hthere' : (beside.put (name :: place) none).root.look? (other :: place) =
      some (.file content) := by
    rw [put, Tree.look?_put hq'.isDirectory, if_neg hne, hboth.2]
  refine ⟨beside.put (name :: place) none, ?_, ?_⟩
  · have hremove := remove_of_leadsTo hsource hp' hboth.1
    rw [move, bind_eq_ok_iff]
    exact ⟨content, read_of_leadsTo hsource hp hthere, bind_eq_ok_iff.2 ⟨_, hwrite, hremove⟩⟩
  · exact read_of_leadsTo htarget (hq'.put hname none) hthere'

end Wiring.Workplace
