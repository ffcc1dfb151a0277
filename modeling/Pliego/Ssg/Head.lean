import Pliego.Lib.JsonCompact
import Pliego.Log.CanonicalValue

/-!
Pages of a static site: the head of a document, the checks on its URLs, and the document that `Page::render` writes.
Texts are written as lists of characters.
-/

namespace Pliego

open JsonText

namespace Ssg

inductive BuildError where
  | invalidPath (path : String)
  deriving DecidableEq, Repr

-- A value of `serde_json`: its numbers are spelled as JSON spells them.
structure JsonLd where
  value : Value
  proper : value.Every ProperNumber

-- The maps are kept as their entries, in the order of the names.
structure Head where
  title : String
  description : Option String := none
  canonical : Option String := none
  icons : List String := []
  manifest : Option String := none
  appleTouchIcon : Option String := none
  alternates : List (String × String) := []
  stylesheetPreloads : List String := []
  stylesheets : List String := []
  inlineScripts : List String := []
  moduleScripts : List String := []
  redirect : Option String := none
  metas : List (String × String) := []
  propertyMeta : List (String × String) := []
  jsonLd : List JsonLd := []

structure Page (View : Type) where
  route : String
  language : String
  head : Head
  body : View
  lazyRenderer : Option (Unit → View)

inductive Component where
  | rootDir
  | curDir
  | parentDir
  | normal (name : List Char)
  deriving DecidableEq, Repr

def component (part : List Char) : Option Component :=
  if part = [] ∨ part = ['.'] then none
  else if part = ['.', '.'] then some .parentDir
  else some (.normal part)

def components (path : List Char) : List Component :=
  (if path.head? = some '/' then [.rootDir] else [])
    ++ (if (path.splitOn '/').head? = some ['.'] then [.curDir] else [])
    ++ (path.splitOn '/').filterMap component

def Component.isNormal (part : Component) : Bool :=
  match part with
  | .normal _ => true
  | _ => false

def Component.escapes (part : Component) : Bool :=
  match part with
  | .parentDir | .rootDir => true
  | _ => false

def validateRelativePath (path : List Char) : Except BuildError Unit :=
  if path.head? = some '/' || path.contains '\\' || (components path).any (!·.isNormal) then
    .error (.invalidPath (String.ofList path))
  else
    .ok ()

def validateRoute (route : String) : Except BuildError Unit :=
  let path := route.toList
  if path.head? ≠ some '/' || path.contains '?' || path.contains '#' || Text.containsPair '/' '/' path then
    .error (.invalidPath route)
  else
    validateRelativePath (path.dropWhile (· = '/'))

def safeDocumentUrl (value : List Char) : Bool :=
  if value.isEmpty || Text.trim value ≠ value
      || value.any (fun c => c = '\\' || c = '\n' || c = '\r' || c = Char.ofNat 0)
      || "//".toList.isPrefixOf value then
    false
  else if value.head? = some '/' || "https://".toList.isPrefixOf value || "http://".toList.isPrefixOf value then
    true
  else
    !value.contains ':' && !(components value).any Component.escapes

def Head.urls (head : Head) : List (String × String) :=
  head.canonical.toList.map ("canonical", ·) ++ head.icons.map ("icon", ·) ++ head.manifest.toList.map ("manifest", ·)
    ++ head.appleTouchIcon.toList.map ("apple-touch-icon", ·)
    ++ head.alternates.map (fun (_, value) => ("alternate", value))
    ++ head.stylesheetPreloads.map ("stylesheet-preload", ·) ++ head.stylesheets.map ("stylesheet", ·)
    ++ head.moduleScripts.map ("module-script", ·) ++ head.redirect.toList.map ("redirect", ·)

def checkPreloads (linked seen preloads : List String) : Except BuildError Unit :=
  match preloads with
  | [] => .ok ()
  | preload :: rest =>
    if !linked.contains preload then
      .error (.invalidPath ("stylesheet preload has no matching stylesheet: " ++ preload))
    else if seen.contains preload then
      .error (.invalidPath ("duplicate stylesheet preload: " ++ preload))
    else
      checkPreloads linked (preload :: seen) rest

def validateHeadUrls (head : Head) : Except BuildError Unit := do
  match head.urls.find? (fun (_, value) => !safeDocumentUrl value.toList) with
  | some (field, value) => .error (.invalidPath ("unsafe " ++ field ++ " URL: " ++ value))
  | none => checkPreloads head.stylesheets [] head.stylesheetPreloads

def replaceChar (found : Char) (written : List Char) (text : List Char) : List Char :=
  text.flatMap fun c => if c = found then written else [c]

-- Occurrences are replaced from left to right and do not overlap.
def replaceText (found written text : List Char) : List Char :=
  match text with
  | [] => []
  | c :: rest =>
    if found.isPrefixOf (c :: rest) then
      written ++ replaceText found written (rest.drop (found.length - 1))
    else
      c :: replaceText found written rest
termination_by text.length

def escapeText (value : List Char) : List Char :=
  replaceChar '>' "&gt;".toList (replaceChar '<' "&lt;".toList (replaceChar '&' "&amp;".toList value))

def escapeAttribute (value : List Char) : List Char :=
  replaceChar '"' "&quot;".toList (escapeText value)

-- The loop of `escape_inline_script`.
def escapeScriptEnds (remaining : List Char) : List Char :=
  match remaining with
  | [] => []
  | character :: rest =>
    if (remaining.take 8).map Char.toLower = "</script".toList then
      "<\\/".toList ++ (remaining.take 8).drop 2 ++ escapeScriptEnds (rest.drop 7)
    else
      character :: escapeScriptEnds rest
termination_by remaining.length

def escapeInlineScript (value : List Char) : List Char :=
  replaceText "<!--".toList "<\\!--".toList (escapeScriptEnds value)

-- `serde_json::to_string`, with every less-than sign as an escape.
def jsonLdText (item : JsonLd) : List Char :=
  replaceChar '<' "\\u003c".toList (compact CanonicalJson.escapeChar item.value)

def pushMeta (name content : String) : List Char :=
  "<meta name=\"".toList ++ escapeAttribute name.toList ++ "\" content=\"".toList ++ escapeAttribute content.toList
    ++ "\">".toList

def pushPropertyMeta (property content : String) : List Char :=
  "<meta property=\"".toList ++ escapeAttribute property.toList ++ "\" content=\"".toList
    ++ escapeAttribute content.toList ++ "\">".toList

-- The links that differ in what stands before their target.
def pushLink (opening : String) (href : String) : List Char :=
  opening.toList ++ escapeAttribute href.toList ++ "\">".toList

def pushAlternate (language href : String) : List Char :=
  "<link rel=\"alternate\" hreflang=\"".toList ++ escapeAttribute language.toList ++ "\" href=\"".toList
    ++ escapeAttribute href.toList ++ "\">".toList

def pushInlineScript (script : String) : List Char :=
  "<script>".toList ++ escapeInlineScript script.toList ++ "</script>".toList

def pushModuleScript (script : String) : List Char :=
  "<script type=\"module\" src=\"".toList ++ escapeAttribute script.toList ++ "\"></script>".toList

def pushRedirect (location : String) : List Char :=
  "<meta http-equiv=\"refresh\" content=\"0;url=".toList ++ escapeAttribute location.toList ++ "\">".toList

def pushJsonLd (item : JsonLd) : List Char :=
  "<script type=\"application/ld+json\">".toList ++ jsonLdText item ++ "</script>".toList

def Head.write (head : Head) : List Char :=
  "<title>".toList ++ escapeText head.title.toList ++ "</title>".toList
    ++ head.description.toList.flatMap (pushMeta "description")
    ++ head.metas.flatMap (fun (name, content) => pushMeta name content)
    ++ head.propertyMeta.flatMap (fun (property, content) => pushPropertyMeta property content)
    ++ head.canonical.toList.flatMap (pushLink "<link rel=\"canonical\" href=\"")
    ++ head.icons.flatMap (pushLink "<link rel=\"icon\" href=\"")
    ++ head.manifest.toList.flatMap (pushLink "<link rel=\"manifest\" href=\"")
    ++ head.appleTouchIcon.toList.flatMap (pushLink "<link rel=\"apple-touch-icon\" href=\"")
    ++ head.alternates.flatMap (fun (language, href) => pushAlternate language href)
    ++ head.stylesheetPreloads.flatMap (pushLink "<link rel=\"preload\" as=\"style\" href=\"")
    ++ head.inlineScripts.flatMap pushInlineScript
    ++ head.stylesheets.flatMap (pushLink "<link rel=\"stylesheet\" href=\"")
    ++ head.moduleScripts.flatMap pushModuleScript
    ++ head.redirect.toList.flatMap pushRedirect
    ++ head.jsonLd.flatMap pushJsonLd

namespace Page

variable {View : Type}

def rendered (renderHtml : View → String) (page : Page View) : List Char :=
  (renderHtml ((page.lazyRenderer.map fun renderer => renderer ()).getD page.body)).toList

def render (renderHtml : View → String) (page : Page View) : Except BuildError (List Char) := do
  validateRoute page.route
  validateHeadUrls page.head
  .ok ("<!doctype html><html lang=\"".toList ++ escapeAttribute page.language.toList
    ++ "\"><head><meta charset=\"utf-8\"><meta name=\"viewport\" content=\"width=device-width,initial-scale=1\">".toList
    ++ page.head.write ++ "</head><body>".toList ++ page.rendered renderHtml ++ "</body></html>\n".toList)

end Page

end Ssg

end Pliego
