import Wiring.Linker.Run

/-!
# Serving requests with an outside engine

An apply engine outside of the linker answers through some monad.  The linker is
run until it waits for an answer, the engine is asked about the oldest script, and
the linker goes on with its verdict, until no script waits any more.

The linker itself only sees the model, which such an engine changes at its own
pace: `Model.engine` never changes it.
-/

namespace Wiring

/-- An engine that holds a model and leaves it as it is. -/
def Model.engine : Engine Model := ⟨id, fun model _ => (.accept, model), fun model _ _ => model⟩

namespace Linker

variable {σ : Type}

/-- Tell a task the verdict of an outside engine on its script. -/
def reply (l : Linker σ) (task : Nat) (verdict : Verdict) : Linker σ :=
  { l with
    held := l.held.map fun h =>
      if h.task = task then { h with verdict, acted := true } else h : Linker σ }.answer task

/-- Run until no script waits, with the verdicts of an outside engine. -/
def serve {m : Type → Type} [Monad m] (e : Engine σ) (decide : String → m Verdict)
    (l : Linker σ) : m (Linker σ) :=
  let settled := l.settle e
  match settled.held.head? with
  | none => pure settled
  | some h => do
    let verdict ← decide h.text
    let next := settled.reply h.task verdict
    if next.load < l.load then next.serve e decide else pure (next.settle e)
termination_by l.load

end Linker

end Wiring
