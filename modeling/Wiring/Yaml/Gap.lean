import Wiring.Yaml.Character

/-!
# Folding

A scalar may go on over several lines.  Blanks inside a line stand for themselves.
Where a line ends, the blanks around its end do not count: a line feed alone makes
one blank, and otherwise all ends of lines after the first one stand for themselves.
The first one stands for itself as well unless it is a line feed.  A line end that
is escaped makes nothing.
-/

namespace Wiring.Yaml

/-- Blanks and line ends between two other characters of a scalar. -/
inductive Gap where
  /-- Blanks inside a line, or nothing. -/
  | blanks (cs : List Char)
  /-- A line end, or nothing when it is escaped, and the line ends after it. -/
  | lines (first? : Option Char) (further : List Char)
deriving DecidableEq, Repr

namespace Gap

/-- No gap. -/
def none : Gap := .blanks []

/-- The gap that begins with an escaped line end. -/
def escaped : Gap := .lines Option.none []

/-- Whether a gap is there at all. -/
def isThere (g : Gap) : Bool := g ≠ .none

/-- Whether a line ends in a gap. -/
def hasBreak : Gap → Bool
  | .blanks _ => false
  | .lines _ _ => true

/-- What a gap comes to in the text. -/
def text : Gap → List Char
  | .blanks cs => cs
  | .lines Option.none further => further
  | .lines (some first) further =>
    if first ≠ '\n' then first :: further
    else if further = [] then [' ']
    else further

/-- A gap with one more blank. -/
def addBlank (c : Char) : Gap → Gap
  | .blanks cs => .blanks (cs ++ [c])
  | .lines first? further => .lines first? further

/-- A gap with one more line end. -/
def addBreak (c : Char) : Gap → Gap
  | .blanks _ => .lines (some c) []
  | .lines first? further => .lines first? (further ++ [c])

end Gap

end Wiring.Yaml
