import Pliego.Dom.Errors

/-!
The errors of rendering, up to the renderers of `pliego-runtime`, with the texts they are displayed as.
-/

namespace Pliego

namespace Render

inductive KeyedKey where
  | signed (value : Int)
  | unsigned (value : Nat)
  | text (value : String)
  deriving DecidableEq

inductive KeyedStage where
  | collection
  | key
  | row
  deriving DecidableEq

inductive KeyedError where
  | itemLimit (limit : Nat)
  | keyBytesLimit (limit : Nat)
  | emptyTextKey
  | textKeyTooLong (bytes limit : Nat)
  | duplicateKey (key : KeyedKey)
  | unsupportedParent (tag : String)
  | callback (stage : KeyedStage) (message : String)
  deriving DecidableEq

inductive RenderLimitKind where
  | depth
  | nodes
  | outputBytes
  deriving DecidableEq

structure RenderLimitsError where
  kind : RenderLimitKind
  requested : Nat
  hardMaximum : Nat
  deriving DecidableEq

inductive RenderError where
  | limitExceeded (kind : RenderLimitKind) (limit : Nat)
  | invalidAttribute (error : Dom.DomError)
  | parserNormalizedText (index : Nat) (character : Char)
  | voidElementChild (tag : String)
  | parserRepair (parent : String) (child : Option String) (rule : String)
  | forbiddenElement (tag : String)
  | adoptionUnsupported (parent view : String)
  | keyed (error : KeyedError)
  deriving DecidableEq

inductive ServerRenderError where
  | invalidDocumentField (field : String)
  | invalidCanonicalUrl
  | invalidAssetPath
  | invalidResponseStatus (status : Nat)
  | invalidChunkLimit (maximum : Nat)
  | invalidBoundaryLimit (field : String) (value : Nat)
  | invalidBoundaryTimeout (milliseconds : Nat)
  | invalidBoundaryId (id : String)
  | duplicateBoundaryId (id : String)
  | invalidLayoutId (id : String)
  | layoutNotDeclared (id : String)
  | duplicateLayout (id : String)
  | missingLayout (id : String)
  | missingDocumentTitle
  | layoutStreamSlotViolation
  | documentMetadataLimit (maximum : Nat)
  | tooManyChunks (maximum : Nat)
  | tooManyBoundaries (maximum : Nat)
  | orderedChunkPanic
  | orderedStreamPanic
  | boundaryTimeout (id : String) (timeoutMs : Nat)
  | boundaryFuturePanic (id : String)
  | boundaryFailed (id : String)
  | boundaryViewPanic (id : String)
  | boundaryStreamPanic
  | boundaryStreamEndedEarly
  | boundaryOrderViolation
  | outputLimitTooSmall
  | invalidLimits (error : RenderLimitsError)
  | dom (error : RenderError)
  deriving DecidableEq

def ServerRenderError.code (error : ServerRenderError) : String :=
  match error with
  | .invalidDocumentField _ => "PLG-REN-001"
  | .outputLimitTooSmall | .invalidLimits _ => "PLG-REN-002"
  | .invalidCanonicalUrl | .invalidAssetPath => "PLG-REN-003"
  | .invalidResponseStatus _ => "PLG-REN-004"
  | .invalidChunkLimit _ => "PLG-REN-005"
  | .invalidBoundaryLimit _ _ | .invalidBoundaryTimeout _ | .invalidBoundaryId _ | .duplicateBoundaryId _ =>
    "PLG-REN-007"
  | .invalidLayoutId _ | .layoutNotDeclared _ | .duplicateLayout _ | .missingLayout _ | .missingDocumentTitle
  | .layoutStreamSlotViolation => "PLG-REN-008"
  | .documentMetadataLimit _ => "PLG-REN-006"
  | .tooManyChunks _ => "PLG-REN-202"
  | .tooManyBoundaries _ => "PLG-REN-205"
  | .orderedChunkPanic => "PLG-REN-203"
  | .orderedStreamPanic => "PLG-REN-204"
  | .boundaryTimeout _ _ => "PLG-REN-206"
  | .boundaryFuturePanic _ => "PLG-REN-207"
  | .boundaryFailed _ => "PLG-REN-210"
  | .boundaryViewPanic _ => "PLG-REN-208"
  | .boundaryStreamPanic | .boundaryStreamEndedEarly | .boundaryOrderViolation => "PLG-REN-209"
  | .dom _ => "PLG-REN-201"

section Display

variable (format : Formatting)

def KeyedKey.display (key : KeyedKey) : String :=
  match key with
  | .signed value => s!"signed:{value}"
  | .unsigned value => s!"unsigned:{value}"
  | .text value => s!"text:{format.debug value}"

def KeyedStage.display (stage : KeyedStage) : String :=
  match stage with
  | .collection => "collection"
  | .key => "key"
  | .row => "row"

def KeyedError.display (error : KeyedError) : String :=
  match error with
  | .itemLimit limit => s!"keyed collection exceeds {limit} rows"
  | .keyBytesLimit limit => s!"keyed collection exceeds {limit} key bytes"
  | .emptyTextKey => "keyed text keys cannot be empty"
  | .textKeyTooLong bytes limit => s!"keyed text key uses {bytes} bytes; limit is {limit}"
  | .duplicateKey key => s!"duplicate keyed identity {key.display format}"
  | .unsupportedParent tag => s!"keyed views are not supported directly under {format.debug tag}"
  | .callback stage message => s!"keyed {stage.display} callback failed: {message}"

def RenderLimitKind.display (kind : RenderLimitKind) : String :=
  match kind with
  | .depth => "depth"
  | .nodes => "nodes"
  | .outputBytes => "output bytes"

def RenderLimitsError.display (error : RenderLimitsError) : String :=
  s!"requested render {error.kind.display} {error.requested} exceeds hard maximum {error.hardMaximum}"

def debugOption (value : Option String) : String :=
  match value with
  | some value => s!"Some({format.debug value})"
  | none => "None"

def RenderError.display (error : RenderError) : String :=
  match error with
  | .limitExceeded kind limit => s!"render {kind.display} exceeded limit {limit}"
  | .invalidAttribute error => error.display format
  | .parserNormalizedText index character =>
    s!"text contains parser-normalized character {format.debugChar character} at byte {index}"
  | .voidElementChild tag => s!"HTML void element {format.debug tag} cannot have children"
  | .parserRepair parent child rule =>
    s!"browser would repair child {debugOption format child} under {format.debug parent}: {rule}"
  | .forbiddenElement tag => s!"element {format.debug tag} requires a future trusted/parser-aware API"
  | .adoptionUnsupported parent view => s!"adoptable SSR does not support {view} directly under {format.debug parent}"
  | .keyed error => error.display format

def ServerRenderError.display (error : ServerRenderError) : String :=
  match error with
  | .invalidDocumentField field => s!"invalid complete document field: {field}"
  | .invalidCanonicalUrl => "invalid complete document canonical URL"
  | .invalidAssetPath => "complete document assets require a local absolute path"
  | .invalidResponseStatus status => s!"HTTP status {format.status status} cannot carry rendered HTML"
  | .invalidChunkLimit maximum => s!"invalid ordered render chunk limit: {maximum}"
  | .invalidBoundaryLimit field value => s!"invalid boundary render {field}: {value}"
  | .invalidBoundaryTimeout milliseconds => s!"invalid boundary timeout: {milliseconds}ms"
  | .invalidBoundaryId id => s!"invalid async boundary identity: {format.debug id}"
  | .duplicateBoundaryId id => s!"duplicate async boundary identity: {id}"
  | .invalidLayoutId id => s!"invalid layout identity: {format.debug id}"
  | .layoutNotDeclared id => s!"layout {id} is not owned by the matched route"
  | .duplicateLayout id => s!"layout {id} was supplied more than once"
  | .missingLayout id => s!"matched route requires missing layout {id}"
  | .missingDocumentTitle => "layout document requires a page or layout title"
  | .layoutStreamSlotViolation => "streaming layout shell did not contain exactly one child slot"
  | .documentMetadataLimit maximum => s!"document metadata exceeded bounded limit {maximum}"
  | .tooManyChunks maximum => s!"ordered render exceeded {maximum} chunks"
  | .tooManyBoundaries maximum => s!"boundary render exceeded {maximum} declarations"
  | .orderedChunkPanic => "ordered render chunk panicked"
  | .orderedStreamPanic => "ordered render input stream panicked"
  | .boundaryTimeout id timeoutMs => s!"async boundary {id} exceeded {timeoutMs}ms"
  | .boundaryFuturePanic id => s!"async boundary {id} panicked while being polled"
  | .boundaryFailed id => s!"async boundary {id} returned an application failure"
  | .boundaryViewPanic id => s!"async boundary {id} panicked while rendering"
  | .boundaryStreamPanic => "boundary scheduler panicked while being polled"
  | .boundaryStreamEndedEarly => "boundary scheduler ended before its declarations"
  | .boundaryOrderViolation => "boundary scheduler violated declaration order"
  | .outputLimitTooSmall => "render output limit cannot contain the HTML doctype"
  | .invalidLimits error => error.display
  | .dom error => error.display format

end Display

end Render

end Pliego
