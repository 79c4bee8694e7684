import Wiring.Yaml.Character
import Wiring.Yaml.Token

/-!
# The layout of a text

The columns of a text make blocks: a list or a mapping begins where an item or a key
stands further to the right than those before, and ends before a line that stands
further to the left.  Between brackets columns mean nothing.

That a scalar or a list between brackets was a key is known only when its colon is
found.  So the place of every token that may turn out to be a key is kept for a while:
a key stands on one line with its colon, and not too far from it.  Where a line can
only begin with a key, the colon has to come.
-/

namespace Wiring.Yaml

/-- A place in a text, counted from zero. -/
structure Place where
  index : Nat := 0
  line : Nat := 0
  column : Nat := 0
deriving DecidableEq, Repr

/-- The place behind a character. -/
def Place.after (p : Place) (c : Char) : Place :=
  if isBreak c then ⟨p.index + 1, p.line + 1, 0⟩ else ⟨p.index + 1, p.line, p.column + 1⟩

/-- A token that may turn out to begin a key. -/
structure PossibleKey where
  tokens : Nat
  place : Place
  /-- Whether only a key can stand there. -/
  isRequired : Bool
deriving DecidableEq, Repr

/-- The greatest distance of a key from its colon. -/
def keyReach : Nat := 1024

/-- Whether it is too late for the colon of a key. -/
def PossibleKey.isStale (key : PossibleKey) (p : Place) : Bool :=
  key.place.line < p.line || key.place.index + keyReach < p.index

/-- How far a text has been taken apart. -/
structure Layout where
  rest : List Char
  place : Place := {}
  /-- The tokens, the last one first. -/
  tokens : List Token := []
  /-- The columns of the open blocks, the innermost first. -/
  blocks : List Nat := []
  /-- The possible key of the innermost brackets, or outside of brackets. -/
  key? : Option PossibleKey := none
  /-- The possible keys of the brackets further out, the innermost first. -/
  outer : List (Option PossibleKey) := []
  keyAllowed : Bool := true
  /-- The names of the anchors so far with their numbers. -/
  anchors : List (String × Nat) := []

namespace Layout

/-- The layout of a text of which nothing has been read. -/
def ofText (cs : List Char) : Layout := { rest := cs }

/-- Whether brackets are open. -/
def inFlow (l : Layout) : Bool := !l.outer.isEmpty

/-- The column that the contents of the innermost block stand in or behind. -/
def margin (l : Layout) : Nat :=
  match l.blocks with
  | [] => 0
  | column :: _ => column + 1

/-! ## Going on -/

/-- Go on to an end of the text. -/
def goTo (l : Layout) (rest : List Char) : Layout :=
  let passed := l.rest.take (l.rest.length - rest.length)
  { l with rest, place := passed.foldl Place.after l.place }

/-- Go on by some characters. -/
def skip (l : Layout) (n : Nat) : Layout := l.goTo (l.rest.drop n)

/-- Add a token. -/
def emit (l : Layout) (token : Token) : Layout := { l with tokens := token :: l.tokens }

/-- Put a token behind the first `n` ones. -/
def insert (l : Layout) (n : Nat) (token : Token) : Layout :=
  let later := l.tokens.length - n
  { l with tokens := l.tokens.take later ++ token :: l.tokens.drop later }

/-! ## Keys -/

/-- A possible key, unless it is too late for its colon. -/
def fresh? (l : Layout) (key? : Option PossibleKey) : Option PossibleKey :=
  key?.filter fun key => !key.isStale l.place

/-- Give up the possible keys for which it is too late; that may not be one that is
required. -/
def dropStale (l : Layout) : Option Layout :=
  let keys := (l.key? :: l.outer).filterMap id
  if keys.any fun key => key.isRequired && key.isStale l.place then none
  else some { l with key? := l.fresh? l.key?, outer := l.outer.map l.fresh? }

/-- Give up the possible key here; it may not be required. -/
def dropKey (l : Layout) : Option Layout :=
  if l.key?.any PossibleKey.isRequired then none else some { l with key? := none }

/-- Remember that the next token may begin a key, if one may stand here. -/
def noteKey (l : Layout) : Option Layout :=
  if l.keyAllowed then
    l.dropKey.map fun l =>
      { l with
        key? := some {
          tokens := l.tokens.length
          place := l.place
          isRequired := !l.inFlow && l.margin = l.place.column + 1 } }
  else some l

/-- Say whether a key may begin behind the next token. -/
def allowKey (l : Layout) (allowed : Bool) : Layout := { l with keyAllowed := allowed }

/-! ## Blocks -/

/-- Begin a block in a column, unless one is open there or brackets are; its first
token goes behind the first `n` ones. -/
def beginBlock (l : Layout) (column n : Nat) (token : Token) : Layout :=
  if l.inFlow || column < l.margin then l
  else { l.insert n token with blocks := column :: l.blocks }

/-- End the blocks whose contents stand behind a margin. -/
def endBlocks (l : Layout) (margin : Nat) : Layout :=
  if l.inFlow then l
  else
    let isOver := fun (column : Nat) => margin < column + 1
    { l with
      tokens := (l.blocks.takeWhile isOver).map (fun _ => Token.endBlock) ++ l.tokens
      blocks := l.blocks.dropWhile isOver }

/-! ## Brackets -/

/-- Go into brackets. -/
def enterFlow (l : Layout) : Layout := { l with key? := none, outer := l.key? :: l.outer }

/-- Go out of the innermost brackets, if any are open. -/
def leaveFlow (l : Layout) : Layout :=
  match l.outer with
  | [] => l
  | key? :: outer => { l with key?, outer }

end Layout

end Wiring.Yaml
