import Wiring.Files
import Wiring.Files.Workplace

/-!
# A machine in memory

Files in a directory tree, a clock that goes on by a microsecond whenever it is
looked at, and identifiers that are counted.
-/

namespace Wiring

/-- The state of a machine in memory. -/
structure Memory where
  disk : Workplace := {}
  ticks : Nat := 0

/-- Programs on a machine in memory. -/
abbrev InMemory := StateM Memory

namespace Memory

/-- Do something to the files that may fail. -/
def onDisk (f : Workplace → Except FileFault Workplace) : InMemory (Except FileFault Unit) :=
  fun memory =>
    match f memory.disk with
    | .error fault => (.error fault, memory)
    | .ok disk => (.ok (), { memory with disk })

/-- Give a stamp for the number of stamps given so far. -/
def stamp {α : Type} (f : Nat → α) : InMemory α :=
  fun memory => (f memory.ticks, { memory with ticks := memory.ticks + 1 })

end Memory

instance : Files InMemory where
  read path := fun memory => (memory.disk.read path, memory)
  isThere path := fun memory => (memory.disk.isThere path, memory)
  names path := fun memory => (memory.disk.names path, memory)
  makeDirectories path := Memory.onDisk fun w => w.makeDirectories path
  write path content := Memory.onDisk fun w => w.write path content
  move source target := Memory.onDisk fun w => w.move source target

instance : Stamps InMemory where
  now := Memory.stamp fun ticks =>
    .ofUnix (1000000000 + ticks / 1000000) (ticks % 1000000 * 1000)
  fresh := Memory.stamp fun ticks => .random fun i => ticks >>> (8 * i)

end Wiring
