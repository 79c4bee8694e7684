import Wiring.Yaml.Node
import Wiring.Yaml.Scan

/-!
# From YAML tokens to a document

The tokens are taken one at a time.  What has been read so far is a stack of open
collections, the innermost first, with what may come next.  Where a node is due and
something else comes, the node is empty, so a token can end several collections that
have no end of their own.

A text holds one document or none.
-/

namespace Wiring.Yaml

/-- Whether a directive may follow others.  The version is given once, and a handle is
declared once. -/
def Directive.mayFollow (others : List Directive) : Directive → Bool
  | .version major minor =>
    major = 1 && (minor = 1 || minor = 2) &&
      others.all fun | .version _ _ => false | .handle _ => true
  | .handle name => !others.contains (.handle name)

/-! ## Open collections -/

/-- Where the node that is being read stands, with what stands before it. -/
inductive Slot where
  | item (before : List Node)
  /-- An item of a list in block form whose items stand in the column of the key that
  it is the value of. -/
  | flatItem (before : List Node)
  | key (before : List (Node × Node))
  | value (before : List (Node × Node)) (key : Node)
  | flowItem (before : List Node)
  /-- The key of a single entry that is an item of a list between brackets. -/
  | pairKey (before : List Node)
  /-- The value of a single entry that is an item of a list between brackets. -/
  | pairValue (before : List Node) (key : Node)
  | flowKey (before : List (Node × Node))
  /-- A key of a mapping between brackets that has no value. -/
  | flowAlone (before : List (Node × Node))
  | flowValue (before : List (Node × Node)) (key : Node)

/-- An open collection, with its number if it has one. -/
structure Frame where
  number? : Option Nat
  /-- Where the node that is being read stands in it. -/
  slot : Slot

/-- What stands before a node and belongs to it. -/
structure Properties where
  number? : Option Nat := none
  isTagged : Bool := false
deriving DecidableEq, Repr

/-- Whether a node has any properties. -/
def Properties.areThere (p : Properties) : Bool := p ≠ {}

/-- How far reading has come; `frames` are the open collections. -/
inductive Reading where
  | start
  | directives (contents : List Directive)
  /-- A node is due, of which the properties have been read. -/
  | due (properties : Properties) (frames : List Frame)
  /-- An item of a list between brackets is due, or its end. -/
  | flowItem (number? : Option Nat) (before : List Node) (frames : List Frame)
  /-- An entry of a mapping between brackets is due, or its end. -/
  | flowEntry (number? : Option Nat) (before : List (Node × Node)) (frames : List Frame)
  /-- The hyphen before an item of a list in block form is due, or the end of the
  list. -/
  | item (number? : Option Nat) (before : List Node) (frames : List Frame)
  /-- A key of a mapping in block form is due, or the end of the mapping. -/
  | entry (number? : Option Nat) (before : List (Node × Node)) (frames : List Frame)
  | complete (node : Node) (frames : List Frame)
  | ended (document : Node)
  /-- The text has ended; there may have been no document. -/
  | finished (document? : Option Node)

/-! ## Collections -/

namespace Reading

/-- A node is due in a slot of a collection. -/
def dueIn (number? : Option Nat) (slot : Slot) (frames : List Frame) : Reading :=
  .due {} (⟨number?, slot⟩ :: frames)

/-- A list is complete. -/
def listEnd (number? : Option Nat) (items : List Node) (frames : List Frame) : Reading :=
  .complete (.withNumber number? (.list items)) frames

/-- A mapping is complete. -/
def mappingEnd (number? : Option Nat) (entries : List (Node × Node)) (frames : List Frame) :
    Reading :=
  .complete (.withNumber number? (.mapping entries)) frames

/-- Take a token where an item of a list in block form is due. -/
def stepItem (number? : Option Nat) (before : List Node) (frames : List Frame) :
    Token → Option Reading
  | .item => some (dueIn number? (.item before) frames)
  | .endBlock => some (listEnd number? before frames)
  | _ => none

/-- Take a token where a key of a mapping in block form is due. -/
def stepEntry (number? : Option Nat) (before : List (Node × Node)) (frames : List Frame) :
    Token → Option Reading
  | .key => some (dueIn number? (.key before) frames)
  | .endBlock => some (mappingEnd number? before frames)
  | _ => none

/-- Take a token behind an item of a list between brackets. -/
def stepBehindItem (number? : Option Nat) (before : List Node) (frames : List Frame) :
    Token → Option Reading
  | .comma => some (.flowItem number? before frames)
  | .closeList => some (listEnd number? before frames)
  | _ => none

/-- Take a token behind an entry of a mapping between brackets. -/
def stepBehindEntry (number? : Option Nat) (before : List (Node × Node)) (frames : List Frame) :
    Token → Option Reading
  | .comma => some (.flowEntry number? before frames)
  | .closeMapping => some (mappingEnd number? before frames)
  | _ => none

/-- Take a token behind the last document. -/
def stepBehindDocument (document : Node) : Token → Option Reading
  | .endDocument => some (.ended document)
  | .endText => some (.finished (some document))
  | _ => none

/-- Take a token behind a node.  A key without a colon has an empty value. -/
def stepBehind (node : Node) : List Frame → Token → Option Reading
  | [], token => stepBehindDocument node token
  | ⟨number?, slot⟩ :: frames, token =>
    match slot with
    | .item before => stepItem number? (before ++ [node]) frames token
    | .flatItem before =>
      if token = .item then some (dueIn number? (.flatItem (before ++ [node])) frames)
      else stepBehind (.withNumber number? (.list (before ++ [node]))) frames token
    | .key before =>
      if token = .value then some (dueIn number? (.value before node) frames)
      else stepEntry number? (before ++ [(node, .empty)]) frames token
    | .value before key => stepEntry number? (before ++ [(key, node)]) frames token
    | .flowItem before => stepBehindItem number? (before ++ [node]) frames token
    | .pairKey before =>
      if token = .value then some (dueIn number? (.pairValue before node) frames)
      else stepBehindItem number? (before ++ [.mapping [(node, .empty)]]) frames token
    | .pairValue before key =>
      stepBehindItem number? (before ++ [.mapping [(key, node)]]) frames token
    | .flowKey before =>
      if token = .value then some (dueIn number? (.flowValue before node) frames)
      else stepBehindEntry number? (before ++ [(node, .empty)]) frames token
    | .flowAlone before => stepBehindEntry number? (before ++ [(node, .empty)]) frames token
    | .flowValue before key => stepBehindEntry number? (before ++ [(key, node)]) frames token

/-! ## Nodes -/

/-- Whether a list may stand in a slot whose items stand in the column of the key. -/
def allowsFlat : List Frame → Bool
  | ⟨_, .key _⟩ :: _ | ⟨_, .value _ _⟩ :: _ => true
  | _ => false

/-- Whether a collection in block form may stand in a slot. -/
def allowsBlock : List Frame → Bool
  | [] => true
  | ⟨_, slot⟩ :: _ =>
    match slot with
    | .item _ | .flatItem _ | .key _ | .value _ _ => true
    | _ => false

/-- Take a token where a node has to begin. -/
def beginNode (properties : Properties) (frames : List Frame) (token : Token) :
    Option Reading :=
  let number? := properties.number?
  match token with
  | .anchor number =>
    if number?.isNone then some (.due { properties with number? := some number } frames)
    else none
  | .tag _ =>
    if properties.isTagged then none else some (.due { properties with isTagged := true } frames)
  | .reference number =>
    if properties.areThere then none else some (.complete (.reference number) frames)
  | .scalar isPlain text =>
    some (.complete (.withNumber number? (.scalar isPlain text)) frames)
  | .openList => some (.flowItem number? [] frames)
  | .openMapping => some (.flowEntry number? [] frames)
  | .beginList =>
    if allowsBlock frames then some (.item number? [] frames) else none
  | .beginMapping =>
    if allowsBlock frames then some (.entry number? [] frames) else none
  | .item =>
    if allowsFlat frames then some (dueIn number? (.flatItem []) frames) else none
  | _ => none

/-- Whether a token shows that the node which is due is empty. -/
def showsEmpty : List Frame → Token → Bool
  | [], .directive _ | [], .beginDocument | [], .endDocument | [], .endText => true
  | [], _ => false
  | ⟨_, slot⟩ :: _, token =>
    match slot, token with
    | .item _, .item | .item _, .endBlock => true
    | .flatItem _, .item | .flatItem _, .key | .flatItem _, .value | .flatItem _, .endBlock =>
      true
    | .key _, .key | .key _, .value | .key _, .endBlock => true
    | .value _ _, .key | .value _ _, .value | .value _ _, .endBlock => true
    | .pairKey _, .value | .pairKey _, .comma | .pairKey _, .closeList => true
    | .pairValue _ _, .comma | .pairValue _ _, .closeList => true
    | .flowKey _, .value | .flowKey _, .comma | .flowKey _, .closeMapping => true
    | .flowValue _ _, .comma | .flowValue _ _, .closeMapping => true
    | _, _ => false

/-- Whether the token that shows an empty node is taken with it. -/
def takesEmpty : List Frame → Bool
  | ⟨_, .pairKey _⟩ :: _ => true
  | _ => false

/-- Take a token where a node is due, of which the properties have been read.  Behind
properties anything that begins no node shows that it is empty. -/
def stepDue (properties : Properties) (frames : List Frame) (token : Token) : Option Reading :=
  if properties.areThere then
    match beginNode properties frames token with
    | some next => some next
    | none => stepBehind (.withNumber properties.number? .empty) frames token
  else if showsEmpty frames token then
    if takesEmpty frames then some (.complete .empty frames)
    else stepBehind .empty frames token
  else beginNode properties frames token

/-! ## Documents -/

/-- Take a directive behind others. -/
def stepDirective (others : List Directive) (content : Directive) : Option Reading :=
  if content.mayFollow others then some (.directives (content :: others)) else none

/-- Take one token. -/
def step : Reading → Token → Option Reading
  | .start, .endText => some (.finished none)
  | .start, .beginDocument => some (.due {} [])
  | .start, .directive content => stepDirective [] content
  | .start, token => beginNode {} [] token
  | .directives contents, .directive content => stepDirective contents content
  | .directives _, .beginDocument => some (.due {} [])
  | .directives _, _ => none
  | .due properties frames, token => stepDue properties frames token
  | .flowItem number? before frames, .closeList => some (listEnd number? before frames)
  | .flowItem number? before frames, .key => some (dueIn number? (.pairKey before) frames)
  | .flowItem number? before frames, token =>
    beginNode {} (⟨number?, .flowItem before⟩ :: frames) token
  | .flowEntry number? before frames, .closeMapping => some (mappingEnd number? before frames)
  | .flowEntry number? before frames, .key => some (dueIn number? (.flowKey before) frames)
  | .flowEntry number? before frames, token =>
    beginNode {} (⟨number?, .flowAlone before⟩ :: frames) token
  | .item number? before frames, token => stepItem number? before frames token
  | .entry number? before frames, token => stepEntry number? before frames token
  | .complete node frames, token => stepBehind node frames token
  | .ended document, token => stepBehindDocument document token
  | .finished _, _ => none

/-- Take tokens in order. -/
def run (reading : Reading) : List Token → Option Reading
  | [] => some reading
  | token :: rest =>
    match reading.step token with
    | none => none
    | some next => next.run rest

end Reading

/-- The handles that are declared in front of a document, or need not be. -/
def declaredHandles (tokens : List Token) : List String :=
  ["!", "!!"] ++ tokens.filterMap fun
    | .directive (.handle name) => some name
    | _ => none

/-- Whether all handles of tags are declared. -/
def handlesAreDeclared (tokens : List Token) : Bool :=
  tokens.all fun
    | .tag (some name) => (declaredHandles tokens).contains name
    | _ => true

/-- The document of a text, if there is one; nothing when the text is malformed or
holds several. -/
def read (text : String) : Option (Option Node) :=
  match tokens? text with
  | none => none
  | some tokens =>
    if !handlesAreDeclared tokens then none
    else
      match Reading.start.run tokens with
      | some (.finished document?) => some document?
      | _ => none

end Wiring.Yaml
