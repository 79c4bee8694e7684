/-!
# Characters of YAML texts

The classes of characters that the rest of the reader is written with.  A line ends
at a line feed, or at one of the two separators of lines and paragraphs; all other
ends of lines are taken for line feeds before anything is read.
-/

namespace Wiring.Yaml

/-- A blank inside a line. -/
def isInlineBlank (c : Char) : Bool := c = ' ' || c = '\t'

/-- The end of a line. -/
def isBreak (c : Char) : Bool := c = '\n' || c = '\u2028' || c = '\u2029'

/-- A character that goes into names: an ASCII letter, a digit, a hyphen or a low
line. -/
def isNameChar (c : Char) : Bool := c.isAlphanum || c = '-' || c = '_'

/-- The characters that may stand in a text. -/
def isAllowed (c : Char) : Bool :=
  c = '\t' || c = '\n' || c = '\r' || c = '\u0085' || (' ' ≤ c && c ≤ '~') ||
    ('\u00a0' ≤ c && c ≤ '\ufffd') || 0x10000 ≤ c.toNat

/-- Line feeds for all ends of lines but the two separators. -/
def withLineFeeds : List Char → List Char
  | [] => []
  | '\r' :: '\n' :: rest => '\n' :: withLineFeeds rest
  | c :: rest =>
    (if c = '\r' || c = '\u0085' then '\n' else c) :: withLineFeeds rest

/-- Whether a word ends here: at a blank, at the end of a line, or at that of the
text. -/
def endsWord : List Char → Bool
  | [] => true
  | c :: _ => isInlineBlank c || isBreak c

/-- Whether a line ends here. -/
def endsLine : List Char → Bool
  | [] => true
  | c :: _ => isBreak c

/-- Whether a mark that begins a document stands here. -/
def beginsDocument : List Char → Bool
  | '-' :: '-' :: '-' :: rest => endsWord rest
  | _ => false

/-- Whether a mark that ends a document stands here. -/
def endsDocument : List Char → Bool
  | '.' :: '.' :: '.' :: rest => endsWord rest
  | _ => false

/-- Whether a mark that begins or ends a document stands here. -/
def isDocumentMark (cs : List Char) : Bool := beginsDocument cs || endsDocument cs

/-- A text without the blanks in front. -/
def dropBlanks (cs : List Char) : List Char := cs.dropWhile isInlineBlank

/-- What stands from the end of a line on, when before it there are only blanks and
perhaps a comment; otherwise nothing. -/
def idleEnd (cs : List Char) : Option (List Char) :=
  match dropBlanks cs with
  | [] => some []
  | c :: rest =>
    if isBreak c then some (c :: rest)
    else if c = '#' then some (rest.dropWhile fun c => !isBreak c)
    else none

end Wiring.Yaml
