import Wiring.Linker.Request
import Wiring.Proofs.Binding.Destination
import Wiring.Proofs.Script.Reading

/-!
# Why no script is made

A request for which no script can be made lacks a field, or has bindings that cannot be
read.  Every step of making a script fails in one of these two ways, so planning a start
does, `isRefusal_planStart`, and so do the scripts of a removal and of an update.
-/

namespace Wiring

/-- A request lacks a field, or a binding cannot be read. -/
inductive Failure.IsRefusal : Failure → Prop
  | notFound (what : Missing) : IsRefusal (.notFound what)
  | invalidBinding (entry : String) (fault : BindingFault) :
    IsRefusal (.invalidBinding entry fault)

variable {failure : Failure}

theorem Component.isRefusal_validate {c : Component} (h : c.validate = .error failure) :
    failure.IsRefusal := by
  unfold validate at h
  split at h
  · exact Except.error.inj h ▸ .notFound _
  · split at h
    · exact Except.error.inj h ▸ .notFound _
    · simp at h

/-! ## Bindings -/

theorem BindingEntry.isRefusal_parse {entry : List Char} (h : parse entry = .error failure) :
    failure.IsRefusal := by
  unfold parse at h
  split at h
  · exact Except.error.inj h ▸ .invalidBinding _ _
  · split at h
    · exact Except.error.inj h ▸ .invalidBinding _ _
    · simp at h

theorem BindingEntry.isRefusal_parsePieces {pieces : List (List Char)}
    (h : parsePieces pieces = .error failure) : failure.IsRefusal := by
  induction pieces with
  | nil => simp [parsePieces] at h
  | cons piece others ih =>
    rw [parsePieces] at h
    split at h
    · rename_i hparse
      exact Except.error.inj h ▸ isRefusal_parse hparse
    · split at h
      · rename_i hothers
        exact ih (hothers.trans h)
      · simp at h

theorem PortBindings.isRefusal_fillAll {m : Model} {node : String} {specs : List String}
    {map : PortBindings} (h : map.fillAll m node specs = .error failure) :
    failure.IsRefusal := by
  induction specs generalizing map with
  | nil => simp [fillAll] at h
  | cons spec specs ih =>
    rw [fillAll, fill] at h
    cases hparse : BindingEntry.parseSpec spec with
    | error failure' =>
      simp only [hparse, Except.error.injEq] at h
      exact h ▸ BindingEntry.isRefusal_parsePieces hparse
    | ok entries =>
      simp only [hparse] at h
      exact ih h

theorem Destination.isRefusal_parse {token : String} (h : parse token = .error failure) :
    failure.IsRefusal :=
  eq_of_parse_eq_error h ▸ .invalidBinding _ _

namespace Synthesis

variable {s : Synthesis} {c : Component}

theorem isRefusal_readPairs {tokens : List (String × String)}
    (h : readPairs tokens = .error failure) : failure.IsRefusal := by
  induction tokens with
  | nil => simp [readPairs] at h
  | cons first tokens ih =>
    rw [readPairs] at h
    split at h
    · rename_i hparse
      exact Except.error.inj h ▸ Destination.isRefusal_parse hparse
    · split at h
      · rename_i hothers
        exact ih (hothers.trans h)
      · simp at h

theorem isRefusal_bindPorts {source : ComponentPath} {bindings : PortBindings}
    (h : s.bindPorts source bindings = .error failure) : failure.IsRefusal := by
  unfold bindPorts at h
  split at h
  · rename_i hread
    exact Except.error.inj h ▸ isRefusal_readPairs hread
  · simp at h

/-! ## Scripts -/

theorem isRefusal_startScript (h : s.startScript c = .error failure) : failure.IsRefusal := by
  unfold startScript at h
  simp only [bind_eq_error_iff] at h
  obtain hvalid | ⟨_, -, hbindings | ⟨bindings, -, hports | ⟨connections, -, hscript⟩⟩⟩ := h
  · exact Component.isRefusal_validate hvalid
  · exact PortBindings.isRefusal_fillAll hbindings
  · exact isRefusal_bindPorts hports
  · simp [pure, Except.pure] at hscript

/-- The start of a component fails because of what it says. -/
theorem isRefusal_planStart (h : s.planStart c = .error failure) : failure.IsRefusal := by
  unfold planStart at h
  split at h
  · simp at h
  · dsimp only at h
    split at h
    · rename_i hscript
      exact Except.error.inj h ▸ isRefusal_startScript hscript
    · simp at h

theorem isRefusal_localPath {id : String} (h : s.localPath id = .error failure) :
    failure.IsRefusal := by
  unfold localPath at h
  split at h
  · exact Except.error.inj h ▸ .notFound _
  · simp at h

theorem isRefusal_removeScript {id : String} (h : s.removeScript id = .error failure) :
    failure.IsRefusal := by
  unfold removeScript at h
  obtain hpath | ⟨path, -, hscript⟩ := bind_eq_error_iff.1 h
  · exact isRefusal_localPath hpath
  · simp [pure, Except.pure] at hscript

theorem isRefusal_updateScript {id key value : String}
    (h : s.updateScript id key value = .error failure) : failure.IsRefusal := by
  unfold updateScript at h
  obtain hpath | ⟨path, -, hscript⟩ := bind_eq_error_iff.1 h
  · exact isRefusal_localPath hpath
  · split at hscript
    · simp only [throw, throwThe, MonadExceptOf.throw, bind, Except.bind,
        Except.error.injEq] at hscript
      exact hscript ▸ .notFound _
    · simp [pure, Except.pure] at hscript

end Synthesis

end Wiring
