import Pliego.Lib.Bytes

/-!
The errors of `pliego-dom` with the texts they are displayed as.
-/

namespace Pliego

-- What the standard library and `http` put into these texts: a string or a character in its debug form, and a status.
structure Formatting where
  debug : String → String
  debugChar : Char → String
  status : Nat → String

namespace Dom

inductive NameKind where
  | tag
  | attributeName
  | event
  deriving DecidableEq

inductive NameViolation where
  | empty
  | tooLong (actual maximum : Nat)
  | invalidStart (index : Nat) (character : Char)
  | invalidCharacter (index : Nat) (character : Char)
  | invalidNamespaceSeparator (index : Nat)
  | unsupportedNamespacePrefix (namespacePrefix : String)
  deriving DecidableEq

structure NameError where
  kind : NameKind
  valuePreview : String
  inputBytes : Nat
  previewTruncated : Bool
  violation : NameViolation
  deriving DecidableEq

inductive AttributeValueViolation where
  | parserNormalizedCharacter (index : Nat) (character : Char)
  | disallowedUrlScheme (scheme : String)
  deriving DecidableEq

inductive DomError where
  | invalidName (error : NameError)
  | forbiddenElement (tag : String)
  | inlineEventAttribute (name : String)
  | forbiddenAttribute (name : String)
  | duplicateAttribute (name : String)
  | invalidAttributeValue (name : String) (violation : AttributeValueViolation)
  deriving DecidableEq

variable (format : Formatting)

def NameKind.display (kind : NameKind) : String :=
  match kind with
  | .tag => "tag"
  | .attributeName => "attribute"
  | .event => "event"

def NameViolation.display (violation : NameViolation) : String :=
  match violation with
  | .empty => "the name is empty"
  | .tooLong actual maximum => s!"{actual} bytes exceeds the {maximum}-byte limit"
  | .invalidStart index character => s!"character {format.debugChar character} at byte {index} cannot start the name"
  | .invalidCharacter index character => s!"character {format.debugChar character} at byte {index} is not allowed"
  | .invalidNamespaceSeparator index => s!"namespace separator at byte {index} does not separate two names"
  | .unsupportedNamespacePrefix namespacePrefix => s!"namespace prefix {format.debug namespacePrefix} is not supported"

def NameError.display (error : NameError) : String :=
  s!"invalid {error.kind.display} name {format.debug error.valuePreview}"
    ++ (if error.previewTruncated then s!" (truncated from {error.inputBytes} bytes)" else "")
    ++ ": " ++ error.violation.display format

def DomError.display (error : DomError) : String :=
  match error with
  | .invalidName error => error.display format
  | .forbiddenElement tag => s!"element {format.debug tag} requires a future trusted/parser-aware API"
  | .inlineEventAttribute name => s!"inline event attribute {format.debug name} is forbidden; use .on()"
  | .forbiddenAttribute name => s!"attribute {format.debug name} requires a future trusted API"
  | .duplicateAttribute name => s!"duplicate attribute {format.debug name}"
  | .invalidAttributeValue name (.parserNormalizedCharacter index character) =>
    s!"attribute {format.debug name} contains parser-normalized character {format.debugChar character} at byte {index}"
  | .invalidAttributeValue name (.disallowedUrlScheme scheme) =>
    s!"attribute {format.debug name} uses disallowed URL scheme {format.debug scheme}"

end Dom

end Pliego
