import Pliego.Log.Basic

/-!
Action policies of `pliego-data`, the admission of a request against one, and the policy grants of
a sealed data context.
-/

namespace Pliego

open Bytes

namespace Data

inductive DataError where
  | invalidStableId (value : String)
  | contextClosed
  | policyNotGranted (message : String)
  | cancelled
  | deadline
  | actionAdmission (message : String)
  | actionOutput (actual maximum : Nat)
  | invalidActionState (message : String)
  | actionOutcomeUnknown
  | actionIdempotencyConflict
  | actionInProgress
  | actionFailure (message : String)
  | serialization
  | duplicateResource (id : String)
  | invalidLoaderPolicy (message : String)
  | loaderOutput (actual maximum : Nat)
  | loaderFailure (message : String)
  | cleanupLimit (maximum : Nat)
  | resourceUnavailable (id : String)
  | resourceTypeMismatch (id : String)
  | missingCapability (resource capability : String)
  | requestValues (message : String)
  | loaderInput (message : String)
  | actionInput (message : String)
  deriving DecidableEq, Repr

def maxStableIdBytes : Nat := 96

def containsDoubleDash (bytes : List UInt8) : Bool :=
  match bytes with
  | a :: b :: rest => (a == 45 && b == 45) || containsDoubleDash (b :: rest)
  | _ => false

def validateStableId (value : String) : Bool :=
  let bytes := utf8 value
  match bytes with
  | [] => false
  | first :: rest =>
    bytes.length ≤ maxStableIdBytes
      && isAsciiLowercase first
      && rest.all (fun byte => isAsciiLowercase byte || isAsciiDigit byte || byte == 45)
      && bytes.getLast? != some 45
      && !containsDoubleDash bytes

inductive ActionMediaType where
  | formUrlencoded
  | json
  | multipartFormData
  deriving DecidableEq, Repr

def ActionMediaType.asStr (mediaType : ActionMediaType) : String :=
  match mediaType with
  | .formUrlencoded => "application/x-www-form-urlencoded"
  | .json => "application/json"
  | .multipartFormData => "multipart/form-data"

inductive ActionContentEncoding where
  | identity
  | gzip
  deriving DecidableEq, Repr

def ActionContentEncoding.asStr (encoding : ActionContentEncoding) : String :=
  match encoding with
  | .identity => "identity"
  | .gzip => "gzip"

inductive OriginPolicy where
  | sameOrigin
  | explicitlyNonBrowser
  deriving DecidableEq, Repr

def OriginPolicy.toByte (policy : OriginPolicy) : UInt8 :=
  match policy with
  | .sameOrigin => 0
  | .explicitlyNonBrowser => 1

inductive CsrfPolicy where
  | sameOrigin
  | sessionBoundToken
  deriving DecidableEq, Repr

def CsrfPolicy.toByte (policy : CsrfPolicy) : UInt8 :=
  match policy with
  | .sameOrigin => 0
  | .sessionBoundToken => 1

inductive InvalidationConsistency where
  | eventual
  | readYourWrites
  deriving DecidableEq, Repr

def InvalidationConsistency.toByte (consistency : InvalidationConsistency) : UInt8 :=
  match consistency with
  | .eventual => 0
  | .readYourWrites => 1

structure ActionInvalidationIntent where
  cachePolicyId : String
  tags : List String
  consistency : InvalidationConsistency
  deriving DecidableEq

structure ResourceRequirement where
  id : String
  capabilities : List String
  deriving DecidableEq

structure ActionPolicy where
  id : String
  semanticRevision : Nat
  inputSchemaId : String
  fieldErrorSchemaId : String
  outputSchemaId : String
  acceptedMediaTypes : List ActionMediaType
  acceptedContentEncodings : List ActionContentEncoding
  maxEncodedBytes : Nat
  maxDecodedBytes : Nat
  maxFormFields : Nat
  maxOutputBytes : Nat
  originPolicy : OriginPolicy
  csrfPolicy : CsrfPolicy
  requireAuthentication : Bool
  requireAuthorization : Bool
  resources : List ResourceRequirement
  postCommitGraceMs : Nat
  idempotencyPolicyId : Option String
  invalidationIntents : List ActionInvalidationIntent
  deriving DecidableEq

def flagByte (flag : Bool) : UInt8 :=
  if flag then 1 else 0

namespace ActionPolicy

def accepts (policy : ActionPolicy) (mediaType : ActionMediaType) : Bool :=
  policy.acceptedMediaTypes.contains mediaType

def contractPreimage (policy : ActionPolicy) : List UInt8 :=
  utf8 "pliego-action-policy-v1" ++ [0]
    ++ [ utf8 policy.id,
         beBytes 4 policy.semanticRevision,
         utf8 policy.inputSchemaId,
         utf8 policy.fieldErrorSchemaId,
         utf8 policy.outputSchemaId,
         beBytes 8 policy.maxEncodedBytes,
         beBytes 8 policy.maxDecodedBytes,
         beBytes 8 policy.maxFormFields,
         beBytes 8 policy.maxOutputBytes,
         beBytes 8 policy.postCommitGraceMs ].flatMap lenPrefixed
    ++ policy.acceptedMediaTypes.flatMap (fun mediaType => utf8 mediaType.asStr ++ [0])
    ++ policy.acceptedContentEncodings.flatMap (fun encoding => utf8 encoding.asStr ++ [0])
    ++ [policy.originPolicy.toByte, policy.csrfPolicy.toByte]
    ++ [flagByte policy.requireAuthentication, flagByte policy.requireAuthorization]
    ++ (policy.resources.mergeSort (fun left right => left.id ≤ right.id)).flatMap
        (fun resource => utf8 resource.id ++ [0]
          ++ resource.capabilities.flatMap (fun capability => utf8 capability ++ [0]))
    ++ (match policy.idempotencyPolicyId with
        | none => []
        | some id => utf8 id)
    ++ policy.invalidationIntents.flatMap
        (fun intent => utf8 intent.cachePolicyId ++ [intent.consistency.toByte]
          ++ intent.tags.flatMap (fun tag => utf8 tag ++ [0]))

def contractDigest (sha256 : Sha256) (policy : ActionPolicy) : String :=
  encodeHex (sha256 policy.contractPreimage).bytes

end ActionPolicy

abbrev Grants := String → Option String

structure DataPolicyGrants where
  loaders : Grants := fun _ => none
  actions : Grants
  caches : Grants := fun _ => none

def permits (grants : Grants) (id digest : String) : Bool :=
  match grants id with
  | none => false
  | some current => current == digest

def DataPolicyGrants.permitsAction (sha256 : Sha256) (grants : DataPolicyGrants) (policy : ActionPolicy) : Bool :=
  permits grants.actions policy.id (policy.contractDigest sha256)

structure DataContext where
  closed : Bool
  policyGrants : Option DataPolicyGrants

def DataContext.requireActionPolicy (sha256 : Sha256) (context : DataContext)
    (policy : ActionPolicy) : Except DataError Unit :=
  match context.policyGrants with
  | none => .ok ()
  | some grants =>
    if !grants.permitsAction sha256 policy then
      .error (.policyNotGranted policy.id)
    else
      .ok ()

structure ActionAdmission where
  mediaType : ActionMediaType
  decodedBytes : Nat
  sameOrigin : Bool
  csrfVerified : Bool
  authenticated : Bool
  authorized : Bool
  deriving DecidableEq

def admitRequest (policy : ActionPolicy) (admission : ActionAdmission) : Except DataError Unit :=
  if !policy.accepts admission.mediaType then
    .error (.actionAdmission "media type is not declared by the action")
  else if admission.decodedBytes > policy.maxDecodedBytes then
    .error (.actionAdmission
      ("decoded input reached " ++ toString admission.decodedBytes ++ " bytes; maximum is "
        ++ toString policy.maxDecodedBytes))
  else if policy.originPolicy = .sameOrigin && !admission.sameOrigin then
    .error (.actionAdmission "same-origin proof is required")
  else if policy.csrfPolicy = .sessionBoundToken && !admission.csrfVerified then
    .error (.actionAdmission "session-bound CSRF proof is required")
  else if policy.requireAuthentication && !admission.authenticated then
    .error (.actionAdmission "authentication is required")
  else if policy.requireAuthorization && !admission.authorized then
    .error (.actionAdmission "authorization is required")
  else
    .ok ()

end Data

end Pliego
