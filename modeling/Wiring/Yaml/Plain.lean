import Wiring.Yaml.Gap

/-!
# Plain scalars

A scalar without quotes ends where something else begins: at a colon before the end
of a word, at a comment, at a mark that begins or ends a document, and between
brackets at a bracket or a comma.  Outside of brackets it goes on only in lines whose
contents stand in the column `margin` or behind it.
-/

namespace Wiring.Yaml

/-- The brackets and the comma, which end a plain scalar between brackets. -/
def isFlowMark (c : Char) : Bool := "[]\x7b\x7d,".toList.contains c

/-- Whether a plain scalar can begin here.  Most marks begin something else, and
some of them only at the end of a word. -/
def beginsPlain (inFlow : Bool) : List Char → Bool
  | [] => false
  | c :: rest =>
    if c = '-' then !(rest.head?.any isInlineBlank)
    else if c = '?' || c = ':' then !inFlow && !endsWord rest
    else !endsWord [c] && !isFlowMark c && !"#&*!|>'\"%@\u0060".toList.contains c

/-- Whether a plain scalar ends here although no gap is before. -/
def endsPlain (inFlow : Bool) : List Char → Bool
  | [] => true
  | c :: rest => (c = ':' && endsWord rest) || (inFlow && isFlowMark c)

/-- Whether a colon stands here that is out of place between brackets. -/
def strayColon : List Char → Bool
  | ':' :: next :: _ => isFlowMark next || next = '?'
  | _ => false

/-- Whether a plain scalar ends behind a gap, which leads to `column`. -/
def endsBehind (inFlow : Bool) (margin : Nat) (gap : Gap) (column : Nat) (cs : List Char) :
    Bool :=
  gap.isThere &&
    (cs.head? = some '#' ||
      (gap.hasBreak && ((!inFlow && column < margin) || (column = 0 && isDocumentMark cs))))

/-- Read on in a plain scalar behind a gap.  The column is known only once a line has
ended in the gap.  The answer is the text, whether a line ends in the gap behind it,
and what follows that gap; nothing when a tab stands before the margin, or a colon is
out of place. -/
def readPlain (inFlow : Bool) (margin : Nat) (gap : Gap) (column : Nat) :
    List Char → Option (List Char × Bool × List Char)
  | [] => some ([], gap.hasBreak, [])
  | c :: rest =>
    if isInlineBlank c then
      if gap.hasBreak && c = '\t' && column < margin then none
      else readPlain inFlow margin (gap.addBlank c) (column + 1) rest
    else if isBreak c then readPlain inFlow margin (gap.addBreak c) 0 rest
    else if endsBehind inFlow margin gap column (c :: rest) then
      some ([], gap.hasBreak, c :: rest)
    else if inFlow && strayColon (c :: rest) then none
    else if endsPlain inFlow (c :: rest) then some ([], gap.hasBreak, c :: rest)
    else
      (readPlain inFlow margin .none 0 rest).map fun (text, ended, rest) =>
        (gap.text ++ c :: text, ended, rest)

end Wiring.Yaml
