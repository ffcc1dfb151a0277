import Pliego.Data.Action
import Pliego.Data.Loader
import Pliego.Lib.Hex
import Pliego.Native.Enforcement
import Pliego.Native.Exchange
import Pliego.Render.Errors
import Pliego.Router.Digest

/-!
The identities and diagnostics that the runtime expects to be valid: the identity of a request, and what an error is
turned into. Where such an expectation fails the request panics, which is `none` here.
-/

namespace Pliego

open Bytes

namespace Data

def DataError.display (format : Formatting) (error : DataError) : String :=
  match error with
  | .invalidStableId value => s!"invalid stable data ID {format.debug value}"
  | .duplicateResource value => s!"duplicate resource {value}"
  | .resourceUnavailable value => s!"resource {value} is unavailable"
  | .resourceTypeMismatch value => s!"resource {value} has a different concrete type"
  | .missingCapability resource capability => s!"resource {resource} does not grant capability {capability}"
  | .contextClosed => "data context is closed"
  | .requestValues message => s!"request data values were rejected: {message}"
  | .policyNotGranted message => s!"data policy is not granted: {message}"
  | .cancelled => "data operation was cancelled"
  | .deadline => "data operation exceeded its deadline"
  | .invalidLoaderPolicy message => s!"invalid loader policy: {message}"
  | .loaderInput message => s!"loader input was rejected: {message}"
  | .loaderOutput actual maximum => s!"loader output reached {actual} bytes; maximum is {maximum}"
  | .loaderFailure message => s!"loader failed: {message}"
  | .actionAdmission message => s!"action admission failed: {message}"
  | .actionInput message => s!"action input was rejected: {message}"
  | .actionOutput actual maximum => s!"action output reached {actual} bytes; maximum is {maximum}"
  | .invalidActionState message => s!"invalid action state: {message}"
  | .actionOutcomeUnknown => "action outcome is unknown after commit began"
  | .actionIdempotencyConflict => "idempotency key was reused with different admitted input"
  | .actionInProgress => "idempotent action is already in progress"
  | .actionFailure message => s!"action failed: {message}"
  | .serialization => "data serialization failed"
  | .cleanupLimit maximum => s!"data cleanup limit reached: {maximum}"

def ActionFailure.display (format : Formatting) (failure : ActionFailure) : String :=
  s!"{failure.error.display format} ({failure.commitState.debug})"

end Data

namespace Native

open Data (DataError ActionFailure)
open Render (ServerRenderError)

structure InvalidIdentity where
  field : String
  value : String
  deriving DecidableEq

def isIdentityByte (byte : UInt8) : Bool :=
  isAsciiAlphanumeric byte || byte == 45 || byte == 95 || byte == 46 || byte == 58

def validateIdentity (field value : String) : Except InvalidIdentity Unit :=
  if value = "" || 128 < (utf8 value).length || !(utf8 value).all isIdentityByte then
    .error ⟨field, value⟩
  else
    .ok ()

structure RequestIdentity where
  requestId : String
  deploymentId : String
  deriving DecidableEq

def RequestIdentity.new (requestId deploymentId : String) : Except InvalidIdentity RequestIdentity := do
  validateIdentity "request_id" requestId
  validateIdentity "deployment_id" deploymentId
  return ⟨requestId, deploymentId⟩

structure NativeRuntimeBuilder where
  deploymentId : String

def NativeRuntimeBuilder.new (deploymentId : String) : Except InvalidIdentity NativeRuntimeBuilder := do
  let _ ← RequestIdentity.new "probe" deploymentId
  return ⟨deploymentId⟩

def NativeRuntimeBuilder.requestId (builder : NativeRuntimeBuilder) (sequence : UInt64) : String :=
  builder.deploymentId ++ "-" ++ encodeHex (beBytes 8 sequence.toNat)

-- "deployment identity was validated by the builder"
def NativeRuntimeBuilder.dispatchIdentity (builder : NativeRuntimeBuilder) (sequence : UInt64) : Option RequestIdentity :=
  (RequestIdentity.new (builder.requestId sequence) builder.deploymentId).toOption

def expectDiagnostic (code message : String) : Option RuntimeDiagnostic :=
  (RuntimeDiagnostic.new code message).toOption

def HandlerError.internal (message : String) : Option HandlerError :=
  (expectDiagnostic "PLG-RUN-500" (bounded message 320)).map (⟨500, ·⟩)

def actionFailureStatus (error : DataError) : Nat :=
  match error with
  | .actionAdmission _ => 403
  | .actionInput _ => 422
  | .cancelled | .deadline => 408
  | .actionOutcomeUnknown | .actionIdempotencyConflict => 409
  | .actionInProgress => 425
  | _ => 500

def actionFailureToHandlerError (format : Formatting) (failure : ActionFailure) : Option HandlerError :=
  (expectDiagnostic failure.error.code (bounded (failure.display format) 320)).map
    (⟨actionFailureStatus failure.error, ·⟩)

def intoHandlerError (format : Formatting) (error : ServerRenderError) : Option HandlerError :=
  (expectDiagnostic error.code (bounded (error.display format) 320)).map (⟨500, ·⟩)

def admissionDiagnostic (error : AdmissionError) : Option RuntimeDiagnostic :=
  match error with
  | .draining => expectDiagnostic "PLG-RUN-503" "runtime is draining and cannot admit new requests"
  | .overloaded => expectDiagnostic "PLG-RUN-107" "concurrent request limit reached"
  | .internal error => expectDiagnostic error.code (bounded error.display 320)

-- Why `recover_error` goes on to the next boundary of its own.
inductive BoundaryFailure where
  | panickedBeforeFuture
  | panickedPolled
  | status (returned required : Nat)

def boundaryDiagnostic (format : Formatting) (id : String) (failure : BoundaryFailure) : Option RuntimeDiagnostic :=
  match failure with
  | .panickedBeforeFuture =>
    expectDiagnostic "PLG-RUN-504" ("error boundary " ++ id ++ " panicked before returning its future")
  | .panickedPolled => expectDiagnostic "PLG-RUN-504" ("error boundary " ++ id ++ " panicked while being polled")
  | .status returned required =>
    expectDiagnostic "PLG-RUN-505"
      ("error boundary " ++ id ++ " returned " ++ format.status returned ++ "; required " ++ format.status required)

def breaks (character : Char) : Bool :=
  character == '\r' || character == '\n' || character.toNat == 0

def codeValid (code : String) : Bool :=
  !(code = "" || 32 < (utf8 code).length
    || !(utf8 code).all (fun byte => (65 ≤ byte && byte ≤ 90) || (48 ≤ byte && byte ≤ 57) || byte == 45))

def Accepted (diagnostic : RuntimeDiagnostic) : Prop :=
  RuntimeDiagnostic.new diagnostic.code diagnostic.message = .ok diagnostic

-- The text is not empty, and what of it fits into 320 bytes holds no line break and no NUL.
def Shown (text : String) : Prop :=
  text ≠ "" ∧ ∀ character ∈ boundedChars 320 text.toList, breaks character = false

theorem new_eq_ok {code message : String} {diagnostic : RuntimeDiagnostic} (hcode : codeValid code = true)
    : RuntimeDiagnostic.new code message = .ok diagnostic
      ↔ diagnostic = ⟨code, message⟩ ∧ message ≠ "" ∧ (utf8 message).length ≤ 512
        ∧ ∀ character ∈ message.toList, breaks character = false := by
  have hvalid : ¬ (code = "" || 32 < (utf8 code).length
      || !(utf8 code).all (fun byte => (65 ≤ byte && byte ≤ 90) || (48 ≤ byte && byte ≤ 57) || byte == 45)) = true := by
    intro hinvalid
    unfold codeValid at hcode
    rw [hinvalid] at hcode
    cases hcode
  have hmessage : (message = "" || 512 < (utf8 message).length
      || message.toList.any (fun character => character == '\r' || character == '\n' || character.toNat == 0)) = false
        ↔ message ≠ "" ∧ (utf8 message).length ≤ 512 ∧ ∀ character ∈ message.toList, breaks character = false := by
    rw [Bool.or_eq_false_iff, Bool.or_eq_false_iff, List.any_eq_false, decide_eq_false_iff_not, decide_eq_false_iff_not,
      Nat.not_lt, and_assoc]
    simp only [Bool.not_eq_true]
    rfl
  unfold RuntimeDiagnostic.new
  rw [if_neg hvalid, ← hmessage]
  split
  . next hrefused =>
    apply iff_of_false
    . intro h
      cases h
    . intro h
      rw [hrefused] at h
      cases h.2
  . next haccepted =>
    rw [Bool.not_eq_true] at haccepted
    rw [and_iff_left haccepted]
    constructor
    . intro h
      cases h
      rfl
    . intro h
      rw [h]

theorem expectDiagnostic_eq_some {code message : String} {diagnostic : RuntimeDiagnostic} (hcode : codeValid code = true)
    : expectDiagnostic code message = some diagnostic
      ↔ diagnostic = ⟨code, message⟩ ∧ message ≠ "" ∧ (utf8 message).length ≤ 512
        ∧ ∀ character ∈ message.toList, breaks character = false := by
  rw [← new_eq_ok hcode]
  unfold expectDiagnostic
  cases RuntimeDiagnostic.new code message with
  | error error => simp [Except.toOption]
  | ok made => simp [Except.toOption]

theorem boundedChars_eq_self {room : Nat} {chars : List Char} (h : (utf8 (String.ofList chars)).length ≤ room)
    : boundedChars room chars = chars := by
  induction chars generalizing room with
  | nil => rfl
  | cons c rest ih =>
    rw [utf8_ofList, List.flatMap_cons, List.length_append, ← utf8_ofList, String.length_utf8EncodeChar] at h
    unfold boundedChars
    rw [if_pos (by omega), ih (by omega)]

theorem length_boundedChars_le (room : Nat) (chars : List Char)
    : (utf8 (String.ofList (boundedChars room chars))).length ≤ room := by
  induction chars generalizing room with
  | nil => exact Nat.zero_le _
  | cons c rest ih =>
    unfold boundedChars
    split
    . next hroom =>
      have hrest := ih (room - c.utf8Size)
      rw [utf8_ofList, List.flatMap_cons, List.length_append, ← utf8_ofList, String.length_utf8EncodeChar]
      omega
    . exact Nat.zero_le _

theorem toList_bounded (value : String) (maximum : Nat)
    : (bounded value maximum).toList = boundedChars maximum value.toList := by
  unfold bounded
  split
  . next hshort =>
    rw [boundedChars_eq_self]
    rw [String.ofList_toList]
    exact hshort
  . rw [String.toList_ofList]

theorem length_bounded_le (value : String) (maximum : Nat)
    : (utf8 (bounded value maximum)).length ≤ maximum := by
  have hlength := length_boundedChars_le maximum value.toList
  rw [← toList_bounded, String.ofList_toList] at hlength
  exact hlength

theorem bounded_eq_empty (value : String)
    : bounded value 320 = "" ↔ value = "" := by
  constructor
  . intro h
    have hchars := toList_bounded value 320
    rw [h] at hchars
    cases hvalue : value.toList with
    | nil => exact String.toList_injective hvalue
    | cons c rest =>
      have hsize : c.utf8Size ≤ 320 := Nat.le_trans c.utf8Size_le_four (by decide)
      rw [hvalue] at hchars
      unfold boundedChars at hchars
      rw [if_pos hsize] at hchars
      cases hchars
  . intro h
    rw [h]
    rfl

theorem expectBounded_eq_some {code text : String} {diagnostic : RuntimeDiagnostic} (hcode : codeValid code = true)
    : expectDiagnostic code (bounded text 320) = some diagnostic
      ↔ diagnostic = ⟨code, bounded text 320⟩ ∧ Shown text := by
  rw [expectDiagnostic_eq_some hcode, toList_bounded, Ne, bounded_eq_empty]
  have hlength : (utf8 (bounded text 320)).length ≤ 512 := Nat.le_trans (length_bounded_le text 320) (by decide)
  rw [and_iff_right hlength]
  rfl

theorem DataError.code_valid (error : DataError)
    : codeValid error.code = true := by
  cases error <;> rfl

theorem ServerRenderError.code_valid (error : ServerRenderError)
    : codeValid error.code = true := by
  cases error <;> rfl

theorem validateIdentity_eq_ok {field value : String}
    : validateIdentity field value = .ok ()
      ↔ value ≠ "" ∧ (utf8 value).length ≤ 128 ∧ (utf8 value).all isIdentityByte = true := by
  have hvalid : (value = "" || 128 < (utf8 value).length || !(utf8 value).all isIdentityByte) = false
      ↔ value ≠ "" ∧ (utf8 value).length ≤ 128 ∧ (utf8 value).all isIdentityByte = true := by
    rw [Bool.or_eq_false_iff, Bool.or_eq_false_iff, decide_eq_false_iff_not, decide_eq_false_iff_not, Nat.not_lt,
      Bool.not_eq_false', and_assoc]
  unfold validateIdentity
  rw [← hvalid]
  split
  . next hrefused =>
    rw [hrefused]
    apply iff_of_false <;> nofun
  . next haccepted => exact iff_of_true rfl (Bool.not_eq_true _ ▸ haccepted)

theorem RequestIdentity.new_eq_ok {requestId deploymentId : String} {identity : RequestIdentity}
    : RequestIdentity.new requestId deploymentId = .ok identity
      ↔ identity = ⟨requestId, deploymentId⟩ ∧ validateIdentity "request_id" requestId = .ok ()
        ∧ validateIdentity "deployment_id" deploymentId = .ok () := by
  unfold RequestIdentity.new
  cases validateIdentity "request_id" requestId with
  | error error => simp [bind, Except.bind]
  | ok _ =>
    cases validateIdentity "deployment_id" deploymentId with
    | error error => simp [bind, Except.bind]
    | ok _ => simp [bind, Except.bind, pure, Except.pure, eq_comm]

theorem encodeHex_identity (bytes : List UInt8)
    : (utf8 (encodeHex bytes)).all isIdentityByte = true := by
  have hdigit : ∀ n : Fin 16, (String.utf8EncodeChar (hexDigit n)).all isIdentityByte = true := by decide
  unfold encodeHex
  rw [utf8_ofList, List.flatMap_assoc, List.all_flatMap, List.all_eq_true]
  intro byte _
  have hbyte := byte.toNat_lt
  have hhigh := hdigit ⟨byte.toNat / 16, by omega⟩
  have hlow := hdigit ⟨byte.toNat % 16, by omega⟩
  simp [hhigh, hlow]

theorem NativeRuntimeBuilder.new_eq_ok {deploymentId : String} {builder : NativeRuntimeBuilder}
    (h : NativeRuntimeBuilder.new deploymentId = .ok builder)
    : builder = ⟨deploymentId⟩ ∧ validateIdentity "deployment_id" deploymentId = .ok () := by
  unfold NativeRuntimeBuilder.new at h
  obtain ⟨identity, hidentity, h⟩ := Except.bind_eq_ok.mp h
  cases h
  exact ⟨rfl, (RequestIdentity.new_eq_ok.mp hidentity).2.2⟩

theorem NativeRuntimeBuilder.dispatchIdentity_isSome {deploymentId : String} {builder : NativeRuntimeBuilder}
    (h : NativeRuntimeBuilder.new deploymentId = .ok builder) (sequence : UInt64)
    : (builder.dispatchIdentity sequence).isSome ↔ (utf8 deploymentId).length ≤ 111 := by
  obtain ⟨rfl, hdeployment⟩ := NativeRuntimeBuilder.new_eq_ok h
  obtain ⟨hne, hlength, hbytes⟩ := validateIdentity_eq_ok.mp hdeployment
  have hrequest : utf8 (requestId ⟨deploymentId⟩ sequence)
      = utf8 deploymentId ++ utf8 "-" ++ utf8 (encodeHex (beBytes 8 sequence.toNat)) := by
    unfold requestId
    rw [utf8_append, utf8_append]
  have hrequestLength : (utf8 (requestId ⟨deploymentId⟩ sequence)).length = (utf8 deploymentId).length + 17 := by
    rw [hrequest, List.length_append, List.length_append, length_encodeHex, beBytes_length]
    rfl
  have hrequestBytes : (utf8 (requestId ⟨deploymentId⟩ sequence)).all isIdentityByte = true := by
    rw [hrequest, List.all_append, List.all_append, hbytes, encodeHex_identity]
    rfl
  have hrequestNe : requestId ⟨deploymentId⟩ sequence ≠ "" := by
    intro hempty
    rw [hempty] at hrequestLength
    exact absurd hrequestLength (Nat.ne_of_lt (Nat.succ_pos _))
  have hsome : (dispatchIdentity ⟨deploymentId⟩ sequence).isSome
      ↔ ∃ identity, RequestIdentity.new (requestId ⟨deploymentId⟩ sequence) deploymentId = .ok identity := by
    unfold dispatchIdentity
    cases RequestIdentity.new (requestId ⟨deploymentId⟩ sequence) deploymentId <;> simp [Except.toOption]
  rw [hsome]
  constructor
  . rintro ⟨identity, hidentity⟩
    have hvalid := (RequestIdentity.new_eq_ok.mp hidentity).2.1
    have hbound := (validateIdentity_eq_ok.mp hvalid).2.1
    omega
  . intro hshort
    have hvalid : validateIdentity "request_id" (requestId ⟨deploymentId⟩ sequence) = .ok () :=
      validateIdentity_eq_ok.mpr ⟨hrequestNe, by omega, hrequestBytes⟩
    exact ⟨_, RequestIdentity.new_eq_ok.mpr ⟨rfl, hvalid, hdeployment⟩⟩

def Plain (text : String) : Prop :=
  ∀ character ∈ text.toList, breaks character = false

-- What `http` displays a status as: its number and a short reason, on one line.
def StatusTexts (format : Formatting) : Prop :=
  ∀ status, (utf8 (format.status status)).length ≤ 64 ∧ Plain (format.status status)

theorem plain_of_all {text : String} (h : text.toList.all (fun character => !breaks character) = true)
    : Plain text := by
  intro character hmem
  have hplain := List.all_eq_true.mp h character hmem
  simpa using hplain

theorem Plain.append {first last : String} (hfirst : Plain first) (hlast : Plain last)
    : Plain (first ++ last) := by
  intro character hmem
  rw [String.toList_append, List.mem_append] at hmem
  exact hmem.elim (hfirst character) (hlast character)

theorem mem_of_mem_boundedChars {room : Nat} {chars : List Char} {character : Char}
    (h : character ∈ boundedChars room chars)
    : character ∈ chars := by
  induction chars generalizing room with
  | nil => exact h
  | cons c rest ih =>
    unfold boundedChars at h
    split at h
    . cases List.mem_cons.mp h with
      | inl heq => exact heq ▸ List.mem_cons_self
      | inr hrest => exact List.mem_cons_of_mem _ (ih hrest)
    . exact absurd h List.not_mem_nil

theorem Plain.shown {text : String} (h : Plain text) (hne : text ≠ "")
    : Shown text :=
  ⟨hne, fun character hmem => h character (mem_of_mem_boundedChars hmem)⟩

theorem accepted_bounded {code text : String} (hcode : codeValid code = true) (h : Shown text)
    : Accepted ⟨code, bounded text 320⟩ := by
  apply (new_eq_ok hcode).mpr
  rw [toList_bounded]
  exact ⟨rfl, fun hempty => h.1 ((bounded_eq_empty text).mp hempty),
    Nat.le_trans (length_bounded_le text 320) (by decide), h.2⟩

theorem accepted_capability {text : String} (h : Plain text) (hne : text ≠ "")
    : Accepted (middlewareCapabilityError text).diagnostic :=
  accepted_bounded rfl (h.shown hne)

theorem accepted_forwarded {original request : Request} {capabilities : Router.MiddlewareCapabilities}
    {tracker reads readsAtEntry : Nat} {error : HandlerError}
    (h : validateForwardedRequest original request capabilities tracker reads readsAtEntry = .error error)
    : Accepted error.diagnostic := by
  unfold validateForwardedRequest at h
  split at h
  . cases h
    exact accepted_capability (plain_of_all rfl) (by decide)
  . split at h
    . cases h
      exact accepted_capability (plain_of_all rfl) (by decide)
    . split at h
      . cases h
        exact accepted_capability (plain_of_all rfl) (by decide)
      . split at h
        . cases h
        . split at h
          . cases h
            exact accepted_capability (plain_of_all rfl) (by decide)
          . split at h
            . cases h
              exact accepted_capability (plain_of_all rfl) (by decide)
            . cases h

theorem accepted_status {format : Formatting} (hstatus : StatusTexts format) {status : Nat}
    {capabilities : Router.MiddlewareCapabilities} {error : HandlerError}
    (h : requireStatusCapability format.status status capabilities = .error error)
    : Accepted error.diagnostic := by
  unfold requireStatusCapability at h
  dsimp only at h
  split at h
  . next required _ =>
    split at h
    . cases h
      have hrequired : Plain required.asStr := by
        cases required <;> exact plain_of_all rfl
      apply accepted_capability
      . exact (((plain_of_all rfl).append (hstatus status).2).append (plain_of_all rfl)).append hrequired
      . intro hempty
        have hlength := congrArg String.toList hempty
        rw [String.append_assoc, String.append_assoc, String.toList_append] at hlength
        cases hlength
    . cases h
  . cases h

theorem accepted_effects {format : Formatting} (hstatus : StatusTexts format) {response : Response}
    {enforcement : Option MiddlewareEnforcement} {reads : Nat} {error : HandlerError}
    (h : validateResponseEffects format.status response enforcement reads = .error error)
    : Accepted error.diagnostic := by
  unfold validateResponseEffects at h
  split at h
  . cases h
  . next enforcement =>
    split at h
    . split at h
      . cases h
        exact accepted_capability (plain_of_all rfl) (by decide)
      . cases hrequired : requireStatusCapability format.status response.status enforcement.capabilities with
        | error refused =>
          rw [hrequired] at h
          cases h
          exact accepted_status hstatus hrequired
        | ok _ =>
          rw [hrequired] at h
          cases h
    . split at h
      . cases h
      . split at h
        . cases h
          exact accepted_capability (plain_of_all rfl) (by decide)
        . split at h
          . cases hrequired : requireStatusCapability format.status response.status enforcement.capabilities with
            | error refused =>
              rw [hrequired] at h
              cases h
              exact accepted_status hstatus hrequired
            | ok _ =>
              rw [hrequired] at h
              change (if _ then _ else _) = _ at h
              split at h
              . cases h
                exact accepted_capability (plain_of_all rfl) (by decide)
              . cases h
          . cases h

theorem mem_utf8_of_mem {text : String} {character : Char} (hmem : character ∈ text.toList) {byte : UInt8}
    (hbyte : byte ∈ String.utf8EncodeChar character)
    : byte ∈ utf8 text := by
  rw [← String.ofList_toList (s := text), utf8_ofList]
  exact List.mem_flatMap.mpr ⟨character, hmem, hbyte⟩

theorem plain_routeId {id : String} (h : Router.isRouteId id = true)
    : (utf8 id).length ≤ 64 ∧ Plain id := by
  refine ⟨(Router.isDashed_ok h).1, ?_⟩
  have hclass : ∀ byte : UInt8, (isAsciiLowercase byte || isAsciiDigit byte || byte == 45) = true → byte ≠ 13 ∧ byte ≠ 10 ∧ byte ≠ 0 := by
    intro byte hbyte
    refine ⟨?_, ?_, ?_⟩
    . rintro rfl
      cases hbyte
    . rintro rfl
      cases hbyte
    . rintro rfl
      cases hbyte
  have hbytes : ∀ byte ∈ utf8 id, byte ≠ 13 ∧ byte ≠ 10 ∧ byte ≠ 0 := by
    intro byte hmem
    unfold Router.isRouteId Router.isDashed at h
    split at h
    . cases h
    . next first rest hid =>
      simp only [Bool.and_eq_true] at h
      rw [hid] at hmem
      apply hclass
      cases List.mem_cons.mp hmem with
      | inl heq =>
        rw [heq, h.1.1.1.2]
        rfl
      | inr hrest => exact List.all_eq_true.mp h.1.1.2 byte hrest
  intro character hmem
  have hencoded : ∀ byte ∈ String.utf8EncodeChar character, byte ≠ 13 ∧ byte ≠ 10 ∧ byte ≠ 0 :=
    fun byte hbyte => hbytes byte (mem_utf8_of_mem hmem hbyte)
  rw [Bool.eq_false_iff]
  intro hbreaks
  unfold breaks at hbreaks
  rw [Bool.or_eq_true, Bool.or_eq_true, beq_iff_eq, beq_iff_eq, beq_iff_eq] at hbreaks
  obtain (rfl | rfl) | hnul := hbreaks
  . exact (hencoded 13 (by decide)).1 rfl
  . exact (hencoded 10 (by decide)).2.1 rfl
  . obtain rfl : character = Char.ofNat 0 := Char.toNat_inj.mp hnul
    exact (hencoded 0 (by decide)).2.2 rfl

theorem boundaryDiagnostic_isSome {format : Formatting} (hstatus : StatusTexts format) {id : String}
    (hid : Router.isRouteId id = true) (failure : BoundaryFailure)
    : (boundaryDiagnostic format id failure).isSome := by
  obtain ⟨hlength, hplain⟩ := plain_routeId hid
  have hsome : ∀ {code text : String}, codeValid code = true → text ≠ "" → (utf8 text).length ≤ 512 → Plain text →
      (expectDiagnostic code text).isSome :=
    fun hcode hne hlong htext =>
      Option.isSome_iff_exists.mpr ⟨_, (expectDiagnostic_eq_some hcode).mpr ⟨rfl, hne, hlong, htext⟩⟩
  have hne : ∀ rest : String, "error boundary " ++ rest ≠ "" := by
    intro rest hempty
    have hlength := congrArg String.toList hempty
    rw [String.toList_append] at hlength
    cases hlength
  have hfirst : (utf8 "error boundary ").length = 15 := rfl
  cases failure with
  | panickedBeforeFuture =>
    have hlast : (utf8 " panicked before returning its future").length = 37 := rfl
    apply hsome rfl
    . rw [String.append_assoc]
      apply hne
    . rw [utf8_append, utf8_append, List.length_append, List.length_append]
      omega
    . exact ((plain_of_all rfl).append hplain).append (plain_of_all rfl)
  | panickedPolled =>
    have hlast : (utf8 " panicked while being polled").length = 28 := rfl
    apply hsome rfl
    . rw [String.append_assoc]
      apply hne
    . rw [utf8_append, utf8_append, List.length_append, List.length_append]
      omega
    . exact ((plain_of_all rfl).append hplain).append (plain_of_all rfl)
  | status returned required =>
    have hmiddle : (utf8 " returned ").length = 10 := rfl
    have hlast : (utf8 "; required ").length = 11 := rfl
    have hreturned := (hstatus returned).1
    have hrequired := (hstatus required).1
    apply hsome rfl
    . rw [String.append_assoc, String.append_assoc, String.append_assoc, String.append_assoc]
      apply hne
    . simp only [utf8_append, List.length_append]
      omega
    . exact (((((plain_of_all rfl).append hplain).append (plain_of_all rfl)).append (hstatus returned).2).append
        (plain_of_all rfl)).append (hstatus required).2

theorem admissionDiagnostic_isSome {error : AdmissionError}
    (h : ∀ inner, error = .internal inner → ∃ (scope : RequestScope) (cleanup : InternalCleanup),
      scope.registerInternalCleanup cleanup = .error inner)
    : (admissionDiagnostic error).isSome := by
  cases error with
  | draining => rfl
  | overloaded => rfl
  | internal inner =>
    obtain ⟨scope, cleanup, hrefused⟩ := h inner rfl
    unfold RequestScope.registerInternalCleanup at hrefused
    split at hrefused
    . cases hrefused
      rfl
    . cases hrefused

-- What a handler, an action or a renderer may raise.
inductive Raised where
  | internal (message : String)
  | action (failure : ActionFailure)
  | render (error : ServerRenderError)

def Raised.text (format : Formatting) (raised : Raised) : String :=
  match raised with
  | .internal message => message
  | .action failure => failure.display format
  | .render error => error.display format

def Raised.convert (format : Formatting) (raised : Raised) : Option HandlerError :=
  match raised with
  | .internal message => HandlerError.internal message
  | .action failure => actionFailureToHandlerError format failure
  | .render error => intoHandlerError format error

theorem Raised.convert_iff (format : Formatting) (raised : Raised)
    : (∃ error, raised.convert format = some error ∧ Accepted error.diagnostic) ↔ Shown (raised.text format) := by
  have hmap : ∀ {code text : String} {status : Nat}, codeValid code = true →
      ((∃ error : HandlerError, (expectDiagnostic code (bounded text 320)).map (⟨status, ·⟩) = some error
        ∧ Accepted error.diagnostic) ↔ Shown text) := by
    intro code text status hcode
    constructor
    . intro ⟨error, herror, _⟩
      obtain ⟨diagnostic, hdiagnostic, _⟩ := Option.map_eq_some_iff.mp herror
      exact ((expectBounded_eq_some hcode).mp hdiagnostic).2
    . intro hshown
      have hdiagnostic := (expectBounded_eq_some hcode).mpr ⟨rfl, hshown⟩
      exact ⟨_, Option.map_eq_some_iff.mpr ⟨_, hdiagnostic, rfl⟩, accepted_bounded hcode hshown⟩
  cases raised with
  | internal message => exact hmap rfl
  | action failure => exact hmap (DataError.code_valid failure.error)
  | render error => exact hmap (ServerRenderError.code_valid error)

theorem expectations_hold_iff {format : Formatting} (hstatus : StatusTexts format) {deploymentId : String}
    {builder : NativeRuntimeBuilder} (hbuilder : NativeRuntimeBuilder.new deploymentId = .ok builder)
    : (∀ (sequence : UInt64) (raised : Raised),
        ((builder.dispatchIdentity sequence).isSome
            ∧ ∃ error, raised.convert format = some error ∧ Accepted error.diagnostic)
          ↔ (utf8 deploymentId).length ≤ 111 ∧ Shown (raised.text format))
      ∧ (∀ error : AdmissionError,
        (∀ inner, error = .internal inner → ∃ (scope : RequestScope) (cleanup : InternalCleanup),
          scope.registerInternalCleanup cleanup = .error inner)
        → (admissionDiagnostic error).isSome)
      ∧ (∀ (id : String) (failure : BoundaryFailure), Router.isRouteId id = true →
        (boundaryDiagnostic format id failure).isSome)
      ∧ (∀ (original request : Request) (capabilities : Router.MiddlewareCapabilities)
          (tracker reads readsAtEntry : Nat) (error : HandlerError),
        validateForwardedRequest original request capabilities tracker reads readsAtEntry = .error error →
        Accepted error.diagnostic)
      ∧ ∀ (response : Response) (enforcement : Option MiddlewareEnforcement) (reads : Nat) (error : HandlerError),
        validateResponseEffects format.status response enforcement reads = .error error → Accepted error.diagnostic := by
  refine ⟨?_, fun _ => admissionDiagnostic_isSome, fun _ failure hid => boundaryDiagnostic_isSome hstatus hid failure,
    fun _ _ _ _ _ _ _ => accepted_forwarded, fun _ _ _ _ => accepted_effects hstatus⟩
  intro sequence raised
  rw [NativeRuntimeBuilder.dispatchIdentity_isSome hbuilder sequence, Raised.convert_iff]

def sampleFormatting : Formatting where
  debug := fun text => "\"" ++ text ++ "\""
  debugChar := fun character => "'" ++ String.singleton character ++ "'"
  status := fun status =>
    if status = 404 then "404 Not Found" else if status = 500 then "500 Internal Server Error" else "200 OK"

theorem sampleFormatting_statuses
    : StatusTexts sampleFormatting := by
  intro status
  unfold sampleFormatting
  dsimp only
  split
  . exact ⟨by decide, plain_of_all rfl⟩
  . split
    . exact ⟨by decide, plain_of_all rfl⟩
    . exact ⟨by decide, plain_of_all rfl⟩

theorem expectations_hold_docs
    : ∃ builder, NativeRuntimeBuilder.new "docs" = .ok builder ∧ (builder.dispatchIdentity 7).isSome
        ∧ ∃ error, HandlerError.internal "cache unavailable" = some error ∧ Accepted error.diagnostic := by
  obtain ⟨builder, hbuilder⟩ : ∃ builder, NativeRuntimeBuilder.new "docs" = .ok builder := ⟨_, rfl⟩
  have hholds := (expectations_hold_iff sampleFormatting_statuses hbuilder).1 7 (.internal "cache unavailable")
  exact ⟨builder, hbuilder, hholds.mpr ⟨by decide, (plain_of_all rfl).shown (by decide)⟩⟩

-- A deployment of 112 letters, and errors whose texts are empty or hold a line break.
theorem long_deployment_panics
    : ∃ builder, NativeRuntimeBuilder.new (String.ofList (List.replicate 112 'a')) = .ok builder
        ∧ builder.dispatchIdentity 0 = none
        ∧ HandlerError.internal "" = none
        ∧ HandlerError.internal "line one\nline two" = none
        ∧ actionFailureToHandlerError sampleFormatting ⟨.actionFailure "line one\nline two", .failed⟩ = none
        ∧ intoHandlerError sampleFormatting (.dom (.keyed (.callback .row "line one\nline two"))) = none := by
  have hbuilder : NativeRuntimeBuilder.new (String.ofList (List.replicate 112 'a'))
      = .ok ⟨String.ofList (List.replicate 112 'a')⟩ := rfl
  have hlength : (utf8 (String.ofList (List.replicate 112 'a'))).length = 112 := rfl
  refine ⟨_, hbuilder, ?_, rfl, rfl, rfl, rfl⟩
  apply Option.not_isSome_iff_eq_none.mp
  rw [NativeRuntimeBuilder.dispatchIdentity_isSome hbuilder, hlength]
  decide

end Native

end Pliego
