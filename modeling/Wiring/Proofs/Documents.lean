import Wiring.Proofs.Component.Document
import Wiring.Proofs.Event.Document
import Wiring.Proofs.Json.Written
import Wiring.Proofs.Model.Document
import Wiring.Proofs.Model.Store

/-!
# Documents read back

Writing a document and reading it gives the data back, whatever characters its texts have:
every JSON value is read back from its written forms, and every decoder restores the data
from its value where the value is not too deep.  The documents of components, of settings and
of events never are; that of a model is if its packages are nested too deeply.
-/

namespace Wiring.Document

open Json (Restores depthLimit)

/-- Whether data is read back from its document, on one line and in the form for people. -/
def IsRestored {α : Type} [Document α] (a : α) : Prop :=
  read (line a) = .ok a ∧ read (pages a) = .ok a

theorem isRestored_of_restores {α : Type} [Document α] {a : α}
    (h : Restores decode (encode a) a) (hdepth : (encode a).depth ≤ depthLimit) :
    IsRestored a := by
  have hdecode : decode depthLimit (encode a) = some a := h depthLimit hdepth
  constructor
  · simp only [read, line, Json.decode?, Json.read_compact, hdecode]
  · simp only [read, pages, Json.decode?, Json.read_pretty, hdecode]

/-- A model that can be saved is loaded again, if its document is not too deep, and requested
components, settings and events are read back from their documents. -/
theorem read_written :
    (∀ (model : Model) (path : String) (memory : Memory),
      ((Model.save (m := InMemory) path model memory).1 = .ok () ↔
        memory.disk.CanWrite path ∧ memory.disk.CanWrite (Model.besidePath path)) ∧
      (model.encode.depth ≤ depthLimit →
        (Model.save (m := InMemory) path model memory).1 = .ok () →
        (Model.load (m := InMemory) path
          (Model.save (m := InMemory) path model memory).2).1 = .ok model)) ∧
    (∀ component : Component, IsRestored component) ∧
    (∀ settings : Settings, IsRestored settings) ∧
    (∀ e : DatedEvent, DatedEvent.LinesFit e.event.status → IsRestored e) := by
  refine ⟨fun model path memory => ⟨Model.save_eq_ok_iff model, fun hdepth hsave => ?_⟩,
    fun component => ?_, fun settings => ?_, fun e hlines => ?_⟩
  · obtain ⟨hpath, hbeside⟩ := (Model.save_eq_ok_iff model).1 hsave
    obtain ⟨after, hafter, hload⟩ := Model.load_save model hpath hbeside
    rw [hafter, hload]
    exact (isRestored_of_restores (restores_model model) hdepth).2
  · exact isRestored_of_restores (restores_component component)
      (Nat.le_trans (depth_component_le component) (by decide))
  · exact isRestored_of_restores (restores_settings settings)
      (Nat.le_trans (depth_settings_le settings) (by decide))
  · exact isRestored_of_restores (DatedEvent.restores_event hlines)
      (Nat.le_trans e.depth_encode_le (by decide))

/-- A model with a package in a package, and a type without a version whose attribute has no
default. -/
def attic : Model where
  nodes := [⟨"node0", [⟨"lamp \"1\"", "home.attic.Lamp"⟩]⟩]
  packages := [⟨"home", [⟨"attic", [], [⟨"Lamp", none, [⟨"colour\n", none⟩]⟩]⟩], []⟩]

/-- The event of a script with three operations for a lamp. -/
def lampSubmitted : DatedEvent where
  event := ⟨Uuid.random fun _ => 0, .start, some "lamp \"1\"", .submitted 3⟩
  time := .ofUnix 1704164645 678000000

theorem read_written_attic :
    (attic.encode.depth ≤ depthLimit ∧
      (Model.save (m := InMemory) "home.json" attic {}).1 = .ok () ∧
      (Model.load (m := InMemory) "home.json"
        (Model.save (m := InMemory) "home.json" attic {}).2).1 = .ok attic) ∧
    DatedEvent.LinesFit lampSubmitted.event.status ∧ IsRestored lampSubmitted := by
  have hsave : (Model.save (m := InMemory) "home.json" attic {}).1 = .ok () :=
    (read_written.1 attic "home.json" {}).1.2 ⟨⟨_, rfl⟩, ⟨_, rfl⟩⟩
  have hlines : DatedEvent.LinesFit lampSubmitted.event.status := fun lines heq => by
    obtain rfl := Status.submitted.inj heq
    decide
  exact ⟨⟨by decide, hsave, (read_written.1 attic "home.json" {}).2 (by decide) hsave⟩,
    hlines, read_written.2.2.2 lampSubmitted hlines⟩

end Wiring.Document
