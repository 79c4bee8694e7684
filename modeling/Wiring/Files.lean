import Wiring.Failure
import Wiring.Instant
import Wiring.Uuid

/-!
# Files and stamps

What a program needs from its surroundings: files and directories, the time, and
fresh identifiers.  The modules that work with files are written for any monad that
has these, so that they run on a disk and also in memory.
-/

namespace Wiring

/-- Access to files and directories.  A path is a text with slashes between its
steps. -/
class Files (m : Type → Type) where
  read : String → m (Except FileFault String)
  isThere : String → m Bool
  /-- The names in a directory, in any order. -/
  names : String → m (Except FileFault (List String))
  /-- Make a directory, with all directories that are missing above it. -/
  makeDirectories : String → m (Except FileFault Unit)
  /-- Write a file, in place of an old one. -/
  write : String → String → m (Except FileFault Unit)
  /-- Give a file another path, in place of an old file there. -/
  move : String → String → m (Except FileFault Unit)

/-- Whether a path can only lead to a directory. -/
def Files.needsDirectory (path : String) : Bool := path.toList.getLast? = some '/'

/-- The path of a name in a directory. -/
def Files.inside (directory name : String) : String :=
  if Files.needsDirectory directory then directory ++ name else directory ++ "/" ++ name

/-- Access to the time and to fresh identifiers. -/
class Stamps (m : Type → Type) where
  now : m Instant
  /-- An identifier that has not been used. -/
  fresh : m Uuid

instance {m n : Type → Type} [MonadLift m n] [Files m] : Files n where
  read path := liftM (m := m) (n := n) (Files.read path)
  isThere path := liftM (m := m) (n := n) (Files.isThere path)
  names path := liftM (m := m) (n := n) (Files.names path)
  makeDirectories path := liftM (m := m) (n := n) (Files.makeDirectories path)
  write path content := liftM (m := m) (n := n) (Files.write path content)
  move source target := liftM (m := m) (n := n) (Files.move source target)

instance {m n : Type → Type} [MonadLift m n] [Stamps m] : Stamps n where
  now := liftM (m := m) (n := n) Stamps.now
  fresh := liftM (m := m) (n := n) Stamps.fresh

end Wiring
