/-!
# Tokens of YAML texts

The marks, names and scalars of a text, with the begin and the end of the blocks that
the columns of its lines make.  Anchors are numbered, and a reference to a node has
the number of its anchor.
-/

namespace Wiring.Yaml

/-- What a directive says in front of a document. -/
inductive Directive where
  | version (major minor : Nat)
  | handle (name : String)
deriving DecidableEq, Repr

/-- A token. -/
inductive Token where
  | directive (content : Directive)
  | beginDocument
  | endDocument
  | endText
  | beginList
  | beginMapping
  /-- The end of a list or a mapping in block form. -/
  | endBlock
  | item
  | openList
  | closeList
  | openMapping
  | closeMapping
  | comma
  | key
  | value
  | anchor (number : Nat)
  | reference (number : Nat)
  /-- A tag, with its handle if that must have been declared. -/
  | tag (handle? : Option String)
  | scalar (isPlain : Bool) (text : String)
deriving DecidableEq, Repr

end Wiring.Yaml
