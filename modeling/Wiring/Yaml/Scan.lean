import Wiring.Yaml.Block
import Wiring.Yaml.Directive
import Wiring.Yaml.Layout
import Wiring.Yaml.Plain
import Wiring.Yaml.Quoted

/-!
# From a text to YAML tokens

`tokens?` takes a text apart: between tokens there are blanks, comments and the ends
of lines, and the first characters of a token tell what it is.
-/

namespace Wiring.Yaml

namespace Layout

/-! ## Between tokens -/

/-- Pass over blanks, comments and line ends.  Tabs count as blanks only where they
cannot be taken for indentation, and a byte order mark may begin a line.  The answer
is whether a key may begin, which it may on a new line outside of brackets, and what
follows. -/
def passIdle (inFlow : Bool) (allowed atStart inComment : Bool) :
    List Char → Bool × List Char
  | [] => (allowed, [])
  | c :: rest =>
    if isBreak c then passIdle inFlow (allowed || !inFlow) true false rest
    else if inComment then passIdle inFlow allowed false true rest
    else if c = ' ' || (c = '\t' && (inFlow || !allowed)) then
      passIdle inFlow allowed false false rest
    else if c = '#' then passIdle inFlow allowed false true rest
    else if c = '\ufeff' && atStart then passIdle inFlow allowed false false rest
    else (allowed, c :: rest)

/-- Go on to the next token, with the blocks that end before it. -/
def toToken (l : Layout) : Option Layout :=
  let (allowed, rest) := passIdle l.inFlow l.keyAllowed (l.place.column = 0) false l.rest
  ((l.goTo rest).allowKey allowed).dropStale.map fun l => l.endBlocks (l.place.column + 1)

/-! ## Marks -/

/-- Read a mark of some characters. -/
def mark (l : Layout) (length : Nat) (token : Token) : Layout := (l.emit token).skip length

/-- Read a directive. -/
def directive (l : Layout) : Option Layout := do
  let l ← (l.endBlocks 0).dropKey
  let (content, rest) ← readDirective (l.rest.drop 1)
  return ((l.allowKey false).emit (.directive content)).goTo rest

/-- Read a mark that begins or ends a document. -/
def documentMark (l : Layout) (token : Token) : Option Layout :=
  (l.endBlocks 0).dropKey.map fun l => (l.allowKey false).mark 3 token

/-- Read an opening bracket. -/
def openBracket (l : Layout) (token : Token) : Option Layout :=
  l.noteKey.map fun l => (l.enterFlow.allowKey true).mark 1 token

/-- Read a closing bracket. -/
def closeBracket (l : Layout) (token : Token) : Option Layout :=
  l.dropKey.map fun l => (l.leaveFlow.allowKey false).mark 1 token

/-- Read a comma. -/
def comma (l : Layout) : Option Layout :=
  l.dropKey.map fun l => (l.allowKey true).mark 1 .comma

/-- Begin a block with the next token.  Outside of brackets a key must be allowed. -/
def beginHere (l : Layout) (token : Token) : Option Layout :=
  if !l.inFlow && !l.keyAllowed then none
  else some (l.beginBlock l.place.column l.tokens.length token)

/-- Read the hyphen before an item. -/
def item (l : Layout) : Option Layout := do
  let l ← (← l.beginHere .beginList).dropKey
  return (l.allowKey true).mark 1 .item

/-- Read the question mark before a key. -/
def key (l : Layout) : Option Layout := do
  let l ← (← l.beginHere .beginMapping).dropKey
  return (l.allowKey !l.inFlow).mark 1 .key

/-- Read the colon before a value.  If there is a possible key, the colon shows that
it is one. -/
def value (l : Layout) : Option Layout :=
  match l.key? with
  | some key =>
    let l := (l.insert key.tokens .key).beginBlock key.place.column key.tokens .beginMapping
    some (({ l with key? := none }.allowKey false).mark 1 .value)
  | none => (l.beginHere .beginMapping).map fun l => (l.allowKey !l.inFlow).mark 1 .value

/-! ## Names and scalars -/

/-- The name of an anchor, and what follows it. -/
def readName (cs : List Char) : Option (String × List Char) :=
  let name := cs.takeWhile isNameChar
  let rest := cs.dropWhile isNameChar
  if name ≠ [] && (endsWord rest || rest.head?.any "?:,]\x7d%@\u0060".toList.contains) then
    some (String.ofList name, rest)
  else none

/-- Number an anchor.  A name that is used again is forgotten with its old number, and
the new number is that of the names there are. -/
def addAnchor (l : Layout) (name : String) : Layout :=
  let number := l.anchors.length
  let others := l.anchors.filter fun entry => entry.1 ≠ name
  { l with anchors := (name, number) :: others }.emit (.anchor number)

/-- Read an anchor. -/
def anchor (l : Layout) : Option Layout := do
  let l ← l.noteKey
  let (name, rest) ← readName (l.rest.drop 1)
  return ((l.allowKey false).addAnchor name).goTo rest

/-- Read a reference to a node whose anchor has been read. -/
def reference (l : Layout) : Option Layout := do
  let l ← l.noteKey
  let (name, rest) ← readName (l.rest.drop 1)
  let number ← l.anchors.lookup name
  return ((l.allowKey false).emit (.reference number)).goTo rest

/-- Read a tag. -/
def tag (l : Layout) : Option Layout := do
  let l ← l.noteKey
  let (handle?, rest) ← readTag (l.rest.drop 1)
  if endsTag l.inFlow rest then return ((l.allowKey false).emit (.tag handle?)).goTo rest
  else none

/-- Read a block scalar. -/
def blockScalar (l : Layout) (isFolded : Bool) : Option Layout := do
  let l ← l.dropKey
  let (text, rest) ← readBlock isFolded l.margin (l.rest.drop 1)
  return ((l.allowKey true).emit (.scalar false (String.ofList text))).goTo rest

/-- Read a quoted scalar. -/
def quotedScalar (l : Layout) (isDouble : Bool) : Option Layout := do
  let l ← l.noteKey
  let (text, rest) ← readQuoted isDouble (l.rest.drop 1)
  return ((l.allowKey false).emit (.scalar false (String.ofList text))).goTo rest

/-- Read a plain scalar.  Behind the end of a line a key may begin again. -/
def plainScalar (l : Layout) : Option Layout := do
  let l ← l.noteKey
  let (text, ended, rest) ← readPlain l.inFlow l.margin .none 0 l.rest
  return ((l.allowKey ended).emit (.scalar true (String.ofList text))).goTo rest

/-! ## Tokens -/

/-- Read the token that begins with `c`, before `after`. -/
def readToken (l : Layout) (c : Char) (after : List Char) : Option Layout :=
  let atStart : Bool := l.place.column = 0
  if atStart && c = '%' then l.directive
  else if atStart && beginsDocument (c :: after) then l.documentMark .beginDocument
  else if atStart && endsDocument (c :: after) then l.documentMark .endDocument
  else if c = '[' then l.openBracket .openList
  else if c = '\x7b' then l.openBracket .openMapping
  else if c = ']' then l.closeBracket .closeList
  else if c = '\x7d' then l.closeBracket .closeMapping
  else if c = ',' then l.comma
  else if c = '-' && endsWord after then l.item
  else if c = '?' && (l.inFlow || endsWord after) then l.key
  else if c = ':' && (l.inFlow || endsWord after) then l.value
  else if c = '*' then l.reference
  else if c = '&' then l.anchor
  else if c = '!' then l.tag
  else if c = '|' && !l.inFlow then l.blockScalar false
  else if c = '>' && !l.inFlow then l.blockScalar true
  else if c = '\'' then l.quotedScalar false
  else if c = '"' then l.quotedScalar true
  else if beginsPlain l.inFlow (c :: after) then l.plainScalar
  else none

/-- The tokens at the end of a text, in order. -/
def atEnd (l : Layout) : Option (List Token) :=
  (l.endBlocks 0).dropKey.map fun l => (l.emit .endText).tokens.reverse

/-- The tokens of a text from a layout on.  Every token takes some of the text. -/
def run (l : Layout) : Option (List Token) :=
  match l.toToken with
  | none => none
  | some next =>
    match next.rest with
    | [] => next.atEnd
    | c :: after =>
      match next.readToken c after with
      | none => none
      | some further =>
        if _hshorter : further.rest.length < l.rest.length then further.run else none
termination_by l.rest.length

end Layout

/-- The tokens of a text. -/
def tokens? (text : String) : Option (List Token) :=
  let cs := text.toList
  if cs.all isAllowed then (Layout.ofText (withLineFeeds cs)).run else none

end Wiring.Yaml
