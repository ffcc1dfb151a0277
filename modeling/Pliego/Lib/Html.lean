import Mathlib.Data.List.MinMax
import Mathlib.Data.List.Basic

/-!
A tokenizer of HTML documents: the states that the head of a document leads to, with named character references,
titles, and scripts with their escaped parts. A comment, a numeric reference, the identifiers of a doctype and the
end of the input are not covered: the tokenizer stops there.
-/

namespace Html

structure Tag where
  closing : Bool
  name : List Char
  attributes : List (List Char × List Char)
  selfClosing : Bool

inductive Token where
  | doctype (name : List Char) (forceQuirks : Bool)
  | tag (tag : Tag)
  | char (c : Char)

-- The contents that are not markup, and the name of the end tag that closes each.
inductive Content where
  | rcdata (name : List Char)
  | script
  | escaped

inductive State where
  | data
  | tagOpen
  | endTagOpen
  | tagName (tag : Tag)
  | beforeAttributeName (tag : Tag)
  | attributeName (tag : Tag) (name : List Char)
  | afterAttributeName (tag : Tag) (name : List Char)
  | beforeAttributeValue (tag : Tag) (name : List Char)
  | attributeValue (tag : Tag) (name : List Char) (quote : Char) (value : List Char)
  | unquotedValue (tag : Tag) (name value : List Char)
  | afterAttributeValue (tag : Tag)
  | selfClosingTag (tag : Tag)
  | markup
  | doctype
  | beforeDoctypeName
  | doctypeName (name : List Char)
  | afterDoctypeName (name : List Char)
  | within (content : Content)
  | lessThan (content : Content)
  | contentEndTagOpen (content : Content)
  | contentEndTagName (content : Content) (buffer : List Char)
  | escapeStart
  | escapeStartDash
  | escapedDash
  | escapedDashDash
  | doubleEscapeStart (buffer : List Char)
  | doubleEscaped
  | doubleEscapedDash
  | doubleEscapedDashDash
  | doubleEscapedLessThan
  | doubleEscapeEnd (buffer : List Char)

def Content.name (content : Content) : List Char :=
  match content with
  | .rcdata name => name
  | _ => ['s', 'c', 'r', 'i', 'p', 't']

def isWhitespace (c : Char) : Bool :=
  c = '\t' || c = '\n' || c = Char.ofNat 12 || c = ' '

def replacement : Char := Char.ofNat 0xFFFD

def replaceNul (c : Char) : Char :=
  if c = Char.ofNat 0 then replacement else c

-- A second attribute of one name is dropped.
def Tag.add (tag : Tag) (name value : List Char) : Tag :=
  if tag.attributes.any (·.1 = name) then tag else { tag with attributes := tag.attributes ++ [(name, value)] }

def start (name : String) (attributes : List (List Char × List Char)) : Token :=
  .tag ⟨false, name.toList, attributes, false⟩

def stop (name : String) : Token :=
  .tag ⟨true, name.toList, [], false⟩

-- The elements whose content is read in a mode that is not covered.
def elsewhere : List (List Char) :=
  ["textarea", "style", "xmp", "iframe", "noembed", "noframes", "noscript", "plaintext", "svg", "math"].map
    String.toList

-- What the tree builder has the tokenizer go on with after a tag.
def after (tag : Tag) : Option State :=
  if tag.closing then
    some .data
  else if tag.name = ['t', 'i', 't', 'l', 'e'] then
    some (.within (.rcdata tag.name))
  else if tag.name = ['s', 'c', 'r', 'i', 'p', 't'] then
    some (.within .script)
  else if tag.name ∈ elsewhere then
    none
  else
    some .data

-- A move emits tokens and either consumes the character or looks at it again in the new state.
structure Move where
  tokens : List Token
  state : State
  consumes : Bool

def go (state : State) : Option Move := some ⟨[], state, true⟩

def again (state : State) : Option Move := some ⟨[], state, false⟩

def put (chars : List Char) (state : State) : Option Move := some ⟨chars.map .char, state, true⟩

def putAgain (chars : List Char) (state : State) : Option Move := some ⟨chars.map .char, state, false⟩

def finish (tag : Tag) : Option Move :=
  (after tag).map fun state => ⟨[.tag tag], state, true⟩

def moveTag (state : State) (c : Char) : Option Move :=
  match state with
  | .data => if c = '<' then go .tagOpen else put [c] .data
  | .tagOpen =>
    if c = '!' then go .markup
    else if c = '/' then go .endTagOpen
    else if c.isAlpha then again (.tagName ⟨false, [], [], false⟩)
    else if c = '?' then none
    else putAgain ['<'] .data
  | .endTagOpen => if c.isAlpha then again (.tagName ⟨true, [], [], false⟩) else none
  | .tagName tag =>
    if isWhitespace c then go (.beforeAttributeName tag)
    else if c = '/' then go (.selfClosingTag tag)
    else if c = '>' then finish tag
    else go (.tagName { tag with name := tag.name ++ [replaceNul c.toLower] })
  | .beforeAttributeName tag =>
    if isWhitespace c then go (.beforeAttributeName tag)
    else if c = '/' then go (.selfClosingTag tag)
    else if c = '>' then finish tag
    else if c = '=' then go (.attributeName tag ['='])
    else again (.attributeName tag [])
  | .attributeName tag name =>
    if isWhitespace c || c = '/' || c = '>' then again (.afterAttributeName tag name)
    else if c = '=' then go (.beforeAttributeValue tag name)
    else go (.attributeName tag (name ++ [replaceNul c.toLower]))
  | .afterAttributeName tag name =>
    if isWhitespace c then go (.afterAttributeName tag name)
    else if c = '/' then go (.selfClosingTag (tag.add name []))
    else if c = '=' then go (.beforeAttributeValue tag name)
    else if c = '>' then finish (tag.add name [])
    else again (.attributeName (tag.add name []) [])
  | .beforeAttributeValue tag name =>
    if isWhitespace c then go (.beforeAttributeValue tag name)
    else if c = '"' || c = '\'' then go (.attributeValue tag name c [])
    else if c = '>' then finish (tag.add name [])
    else again (.unquotedValue tag name [])
  | .attributeValue tag name quote value =>
    if c = quote then go (.afterAttributeValue (tag.add name value))
    else go (.attributeValue tag name quote (value ++ [replaceNul c]))
  | .unquotedValue tag name value =>
    if isWhitespace c then go (.beforeAttributeName (tag.add name value))
    else if c = '>' then finish (tag.add name value)
    else go (.unquotedValue tag name (value ++ [replaceNul c]))
  | .afterAttributeValue tag =>
    if isWhitespace c then go (.beforeAttributeName tag)
    else if c = '/' then go (.selfClosingTag tag)
    else if c = '>' then finish tag
    else again (.beforeAttributeName tag)
  | .selfClosingTag tag => if c = '>' then finish { tag with selfClosing := true } else again (.beforeAttributeName tag)
  | .doctype => if isWhitespace c then go .beforeDoctypeName else again .beforeDoctypeName
  | .beforeDoctypeName =>
    if isWhitespace c then go .beforeDoctypeName
    else if c = '>' then some ⟨[.doctype [] true], .data, true⟩
    else go (.doctypeName [replaceNul c.toLower])
  | .doctypeName name =>
    if isWhitespace c then go (.afterDoctypeName name)
    else if c = '>' then some ⟨[.doctype name false], .data, true⟩
    else go (.doctypeName (name ++ [replaceNul c.toLower]))
  | .afterDoctypeName name =>
    if isWhitespace c then go (.afterDoctypeName name)
    else if c = '>' then some ⟨[.doctype name false], .data, true⟩
    else none
  | _ => none

def moveContent (state : State) (c : Char) : Option Move :=
  match state with
  | .within content =>
    if c = '<' then go (.lessThan content)
    else match content, c with
      | .escaped, '-' => put [c] .escapedDash
      | _, _ => put [replaceNul c] (.within content)
  | .lessThan content =>
    if c = '/' then go (.contentEndTagOpen content)
    else match content with
      | .rcdata _ => putAgain ['<'] (.within content)
      | .script => if c = '!' then put ['<', '!'] .escapeStart else putAgain ['<'] (.within content)
      | .escaped => if c.isAlpha then putAgain ['<'] (.doubleEscapeStart []) else putAgain ['<'] (.within content)
  | .contentEndTagOpen content =>
    if c.isAlpha then again (.contentEndTagName content []) else putAgain ['<', '/'] (.within content)
  | .contentEndTagName content buffer =>
    let tag : Tag := ⟨true, content.name, [], false⟩
    if c.isAlpha then go (.contentEndTagName content (buffer ++ [c]))
    else if buffer.map Char.toLower ≠ content.name then putAgain ('<' :: '/' :: buffer) (.within content)
    else if isWhitespace c then go (.beforeAttributeName tag)
    else if c = '/' then go (.selfClosingTag tag)
    else if c = '>' then finish tag
    else putAgain ('<' :: '/' :: buffer) (.within content)
  | .escapeStart => if c = '-' then put [c] .escapeStartDash else again (.within .script)
  | .escapeStartDash => if c = '-' then put [c] .escapedDashDash else again (.within .script)
  | .escapedDash =>
    if c = '-' then put [c] .escapedDashDash
    else if c = '<' then go (.lessThan .escaped)
    else put [replaceNul c] (.within .escaped)
  | .escapedDashDash =>
    if c = '-' then put [c] .escapedDashDash
    else if c = '<' then go (.lessThan .escaped)
    else if c = '>' then put [c] (.within .script)
    else put [replaceNul c] (.within .escaped)
  | .doubleEscapeStart buffer =>
    if isWhitespace c || c = '/' || c = '>' then
      put [c] (if buffer = ['s', 'c', 'r', 'i', 'p', 't'] then .doubleEscaped else .within .escaped)
    else if c.isAlpha then put [c] (.doubleEscapeStart (buffer ++ [c.toLower]))
    else again (.within .escaped)
  | .doubleEscaped =>
    if c = '-' then put [c] .doubleEscapedDash
    else if c = '<' then put [c] .doubleEscapedLessThan
    else put [replaceNul c] .doubleEscaped
  | .doubleEscapedDash =>
    if c = '-' then put [c] .doubleEscapedDashDash
    else if c = '<' then put [c] .doubleEscapedLessThan
    else put [replaceNul c] .doubleEscaped
  | .doubleEscapedDashDash =>
    if c = '-' then put [c] .doubleEscapedDashDash
    else if c = '<' then put [c] .doubleEscapedLessThan
    else if c = '>' then put [c] (.within .script)
    else put [replaceNul c] .doubleEscaped
  | .doubleEscapedLessThan => if c = '/' then put [c] (.doubleEscapeEnd []) else again .doubleEscaped
  | .doubleEscapeEnd buffer =>
    if isWhitespace c || c = '/' || c = '>' then
      put [c] (if buffer = ['s', 'c', 'r', 'i', 'p', 't'] then .within .escaped else .doubleEscaped)
    else if c.isAlpha then put [c] (.doubleEscapeEnd (buffer ++ [c.toLower]))
    else again .doubleEscaped
  | _ => none

def move (state : State) (c : Char) : Option Move :=
  match state with
  | .within _ | .lessThan _ | .contentEndTagOpen _ | .contentEndTagName _ _ | .escapeStart | .escapeStartDash
  | .escapedDash | .escapedDashDash | .doubleEscapeStart _ | .doubleEscaped | .doubleEscapedDash
  | .doubleEscapedDashDash | .doubleEscapedLessThan | .doubleEscapeEnd _ => moveContent state c
  | _ => moveTag state c

/-!
The names of the character references, each with what it stands for. A name that ends in a semicolon has it only there.
-/

structure References where
  names : List (List Char × List Char)
  unique : ∀ entry ∈ names, ∀ other ∈ names, entry.1 = other.1 → entry = other
  ended : ∀ entry ∈ names, ';' ∉ entry.1.dropLast
  amp : (['a', 'm', 'p', ';'], ['&']) ∈ names
  lt : (['l', 't', ';'], ['<']) ∈ names
  gt : (['g', 't', ';'], ['>']) ∈ names
  quot : (['q', 'u', 'o', 't', ';'], ['"']) ∈ names

variable (references : References)

def longest (text : List Char) : Option (List Char × List Char) :=
  (references.names.filter (·.1.isPrefixOf text)).argmax (·.1.length)

-- What an ampersand before the text stands for, and what is left of the text.
def reference (inAttribute : Bool) (text : List Char) : Option (List Char × List Char) :=
  match text with
  | [] => some (['&'], [])
  | c :: _ =>
    if c = '#' then
      none
    else if !c.isAlphanum then
      some (['&'], text)
    else
      match longest references text with
      | none => some (['&'], text)
      | some (name, value) =>
        let rest := text.drop name.length
        if inAttribute && name.getLast? ≠ some ';' && rest.head?.any (fun next => next = '=' || next.isAlphanum) then
          some ('&' :: name, rest)
        else
          some (value, rest)

def step (state : State) (input : List Char) : Option (List Token × State × List Char) :=
  match state, input with
  | .markup, input =>
    if (input.take 7).map Char.toLower = ['d', 'o', 'c', 't', 'y', 'p', 'e'] then
      some ([], .doctype, input.drop 7)
    else
      none
  | _, [] => none
  | .data, '&' :: rest =>
    (reference references false rest).map fun (chars, rest) => (chars.map .char, .data, rest)
  | .within (.rcdata name), '&' :: rest =>
    (reference references false rest).map fun (chars, rest) => (chars.map .char, .within (.rcdata name), rest)
  | .attributeValue tag name quote value, '&' :: rest =>
    (reference references true rest).map fun (chars, rest) =>
      ([], .attributeValue tag name quote (value ++ chars), rest)
  | .unquotedValue tag name value, '&' :: rest =>
    (reference references true rest).map fun (chars, rest) => ([], .unquotedValue tag name (value ++ chars), rest)
  | state, c :: rest =>
    (move state c).map fun next => (next.tokens, next.state, if next.consumes then rest else c :: rest)

-- The tokens of the front of an input.
inductive Reads : State → List Char → List Token → State → List Char → Prop where
  | refl {state : State} {input : List Char} : Reads state input [] state input
  | cons {state middle final : State} {input rest left : List Char} {tokens more : List Token}
      (first : step references state input = some (tokens, middle, rest))
      (others : Reads middle rest more final left)
    : Reads state input (tokens ++ more) final left

/-!
The input stream has its line breaks normalized before it is tokenized.
-/

def normalizeNewlines (text : List Char) : List Char :=
  match text with
  | [] => []
  | '\r' :: '\n' :: rest => '\n' :: normalizeNewlines rest
  | '\r' :: rest => '\n' :: normalizeNewlines rest
  | c :: rest => c :: normalizeNewlines rest

end Html
