import Wiring.Address
import Wiring.Operation
import Wiring.Script.Token

/-!
# Failures

Everything that can go wrong, as causes.  The text of a cause is made in one
place, `Failure.message`; the class that is reported to whoever made a request
is `Failure.kind`.

The causes are grouped by what they are about: fields a request lacks, scripts
the apply engine turned down, binding entries, script lines, settings, files.
-/

namespace Wiring

open Wiring.Text

/-- Something a request must name and does not. -/
inductive Missing where
  | idOfStart (typeName : String)
  | typeOfStart (id : String)
  | idOnNode (node : String)
  | attributeOf (path : ComponentPath)
deriving DecidableEq, Repr

/-- What is missing, in the words of the message. -/
def Missing.noun : Missing → String
  | .idOfStart _ | .idOnNode _ => "component id"
  | .typeOfStart _ => "component type"
  | .attributeOf _ => "attribute name"

/-- Where it is missing. -/
def Missing.place : Missing → String
  | .idOfStart typeName => "start request for type \"" ++ typeName ++ "\""
  | .typeOfStart id => "start request for \"" ++ id ++ "\""
  | .idOnNode node => "request on node " ++ node
  | .attributeOf path => "update of " ++ path.text

/-- A script that the apply engine did not accept, by what it was for. -/
inductive Rejection where
  | start (path : ComponentPath)
  | deferredBinding (path : ComponentPath)
  | removalOfTypes (count : Nat) (types : List String)
  | removal (path : ComponentPath)
  | update (id key : String)
  | push
deriving DecidableEq, Repr

/-- Whether the rejected script was to remove something. -/
def Rejection.isRemoval : Rejection → Bool
  | .removalOfTypes _ _ | .removal _ => true
  | _ => false

/-- What was rejected. -/
def Rejection.text : Rejection → String
  | .start path => "start of " ++ path.text ++ " was rejected"
  | .deferredBinding path => "binding update for " ++ path.text ++ " was rejected"
  | .removalOfTypes count types =>
    "removal of " ++ toString count ++ " instance(s) of " ++ shownList types ++ " was rejected"
  | .removal path => "removal of " ++ path.text ++ " was rejected"
  | .update id key => "update of " ++ id ++ "." ++ key ++ " was rejected"
  | .push => "pushed script was rejected"

/-- What is wrong with a binding entry or a destination. -/
inductive BindingFault where
  /-- The entry is not a port, an arrow and a reference. -/
  | shape
  /-- The reference has no dot. -/
  | noPort
  /-- The reference has nothing before or after its last dot. -/
  | emptyField
  /-- What follows the last dot cannot be a port name. -/
  | portInVersion
  /-- The slash of the type does not stand between a name and a version. -/
  | version
  /-- A destination has another number of fields than three, or an empty one. -/
  | fieldCount (count : Nat)
deriving DecidableEq, Repr

/-- The text of a fault of a binding. -/
def BindingFault.text : BindingFault → String
  | .shape => "expected <port>><Type>.<port>"
  | .noPort => "destination has no port field"
  | .emptyField => "empty type or port field"
  | .portInVersion => "destination port must follow the type and its version"
  | .version => "expected <Type>/<version>"
  | .fieldCount count =>
    "destination needs <node>.<component>.<port>, found " ++ toString count ++ " field(s)"

/-- What is wrong with a line of a script. -/
inductive ScriptFault where
  /-- A character that begins no token; `rest` begins with it. -/
  | stray (rest : List Char)
  /-- A string literal without an end; `inside` is what follows its quote. -/
  | unclosed (inside : List Char)
  | nameExpected (found : Option Script.Token)
  | tokenExpected (wanted : Script.Token) (found : Option Script.Token)
  | literalExpected (found : Option Script.Token)
  /-- The line begins with no keyword. -/
  | keywordExpected (found : Option Script.Token)
  | trailing (token : Script.Token)
  /-- A word that addresses no component. -/
  | notComponent (word : String)
  /-- A word that addresses no port or attribute. -/
  | notMember (word : String)
  | addedTwice (target : Target)
  | alreadyPresent (target : Target)
  /-- A use that stands before the creation, which is on the line given. -/
  | usedBeforeAdded (target : Target) (line : Nat)
  | unknown (target : Target)
deriving DecidableEq, Repr

/-- The number of characters of the rest of a line that a message quotes. -/
def ScriptFault.excerptLength : Nat := 20

/-- The message about the rest of a line that begins no token, with the reason
in parentheses. -/
def ScriptFault.unexpected (rest : List Char) (outcome : String) (input : List Char)
    (expectation : String) : String :=
  "unexpected character at: \"" ++ String.ofList (rest.take excerptLength) ++ "\" (Parsing " ++
    outcome ++ ": Error \x7b input: " ++ shown input ++ ", code: " ++ expectation ++ " \x7d)"

/-- The text of a fault of a script line. -/
def ScriptFault.text : ScriptFault → String
  | .stray rest => unexpected rest "Error" rest "TakeWhile1"
  | .unclosed inside => unexpected ('"' :: inside) "Failure" inside "Char"
  | .nameExpected found => "expected a name, got " ++ Script.Token.shownNext found
  | .tokenExpected wanted found =>
    "expected " ++ wanted.shown ++ ", got " ++ Script.Token.shownNext found
  | .literalExpected found => "expected string literal, got " ++ Script.Token.shownNext found
  | .keywordExpected found =>
    "expected add, set, bind, or remove, got " ++ Script.Token.shownNext found
  | .trailing token => "unexpected trailing " ++ token.shown
  | .notComponent word => "expected <node>.<id>, got \"" ++ word ++ "\""
  | .notMember word => "expected <node>.<id>.<name>, got \"" ++ word ++ "\""
  | .addedTwice target => target.text ++ " is added more than once"
  | .alreadyPresent target => target.text ++ " already exists in the model"
  | .usedBeforeAdded target line =>
    target.text ++ " is used before it is added on line " ++ toString line
  | .unknown target => target.text ++ " is neither in the model nor added by the script"

/-- What is wrong with the settings of a linker. -/
inductive SettingsFault where
  /-- A name that must not be empty. -/
  | empty (field : String)
  /-- A name with a character that would break a script line. -/
  | unusable (field value : String)
  | unreadable
deriving DecidableEq, Repr

/-- The text of a fault of the settings. -/
def SettingsFault.text : SettingsFault → String
  | .empty field => field ++ " must not be empty"
  | .unusable field value =>
    field ++ " \"" ++ value ++ "\" must not contain whitespace or '.'"
  | .unreadable => "cannot parse linker configuration: not a mapping of texts"

/-- Why a file operation failed. -/
inductive FileFault where
  /-- There is no such file or directory. -/
  | missing
  | present
  /-- Something on the path is not a directory. -/
  | notDirectory
  | isDirectory
  /-- A name on the path, or the path, has too many bytes. -/
  | nameTooLong
  /-- Any other reason, in the words of the system. -/
  | other (text : String)
deriving DecidableEq, Repr

/-- The system's text for a failed file operation. -/
def FileFault.text : FileFault → String
  | .missing => "No such file or directory (os error 2)"
  | .present => "File exists (os error 17)"
  | .notDirectory => "Not a directory (os error 20)"
  | .isDirectory => "Is a directory (os error 21)"
  | .nameTooLong => "File name too long (os error 36)"
  | .other text => text

/-- A failure of a request or of a document. -/
inductive Failure where
  | notFound (what : Missing)
  | rejected (what : Rejection)
  /-- The apply engine gave no answer. -/
  | abandoned (operation : Operation)
  | invalidBinding (entry : String) (fault : BindingFault)
  /-- A script line is malformed or would not apply; lines count from one. -/
  | invalidScript (line : Nat) (fault : ScriptFault)
  | invalidSettings (fault : SettingsFault)
  | file (path : String) (fault : FileFault)
  /-- A document is not of the form it must have. -/
  | malformedDocument
deriving DecidableEq, Repr

/-- The class of a failure, as it is reported to whoever made the request. -/
inductive FailureKind where
  | notFound
  | stopError
  /-- Another change was rejected, or no answer came. -/
  | modelUpdateFailed
  | invalidRequest
  /-- The request is not to blame. -/
  | internal
deriving DecidableEq, Repr

/-- The reported text of a class of failures. -/
def FailureKind.text : FailureKind → String
  | .notFound => "NOT_FOUND"
  | .stopError => "STOP_ERROR"
  | .modelUpdateFailed => "MODEL_UPDATE_FAILED"
  | .invalidRequest => "INVALID_REQUEST"
  | .internal => "INTERNAL"

namespace Failure

/-- The class of a failure. -/
def kind : Failure → FailureKind
  | .notFound _ => .notFound
  | .rejected what => if what.isRemoval then .stopError else .modelUpdateFailed
  | .abandoned _ => .modelUpdateFailed
  | .invalidBinding _ _ | .invalidScript _ _ => .invalidRequest
  | .invalidSettings _ | .file _ _ | .malformedDocument => .internal

/-- What is wrong with a malformed document. -/
def malformation : String := "not a document of the expected form"

/-- The message of a failure. -/
def message : Failure → String
  | .notFound what => what.noun ++ " not found: " ++ what.place
  | .rejected what =>
    (if what.isRemoval then "stop failed: " else "model update failed: ") ++ what.text
  | .abandoned operation =>
    "apply engine abandoned " ++ operation.name ++ " without reporting an outcome"
  | .invalidBinding entry fault => "invalid binding \"" ++ entry ++ "\": " ++ fault.text
  | .invalidScript line fault =>
    "invalid script at line " ++ toString line ++ ": " ++ fault.text
  | .invalidSettings fault => "invalid configuration: " ++ fault.text
  | .file path fault => "I/O error at " ++ path ++ ": " ++ fault.text
  | .malformedDocument => "serialization error: " ++ malformation

/-- The messages of a failure and of the causes below it: a file operation that
failed has the system's text as a cause of its own, and a malformed document what is
wrong with it. -/
def chain (failure : Failure) : List String :=
  match failure with
  | .file _ fault => [failure.message, fault.text]
  | .malformedDocument => [failure.message, malformation]
  | _ => [failure.message]

end Failure

end Wiring
