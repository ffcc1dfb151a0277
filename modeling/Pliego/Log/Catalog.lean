import Mathlib.Data.List.DropRight
import Pliego.Log.Basic

/-!
Sealed event catalogs of `pliego-log`: the admission of a stored event, its upcasting to the current
schema version and the decoding of the result.
-/

namespace Pliego

inductive Attempt (ε α : Type) where
  | ok (value : α)
  | err (error : ε)
  | panicked
  deriving DecidableEq, Repr

inductive CatalogError where
  | unknownKind (kind : String)
  | unknownVersion (kind : String) (version : Nat)
  | missingUpcaster (kind : String) (source : Nat)
  | payload (error : CanonicalJsonError)
  | upcastFailed (kind : String) (source : Nat) (reason : String)
  | nondeterministicUpcast (kind : String) (source : Nat)
  | nondeterministicMapping (kind : String) (version : Nat)
  deriving DecidableEq, Repr

def CanonicalJsonError.display (error : CanonicalJsonError) : String :=
  match error with
  | .tooLarge actual limit =>
    "JSON has " ++ toString actual ++ " bytes; limit is " ++ toString limit
  | .duplicateKey key => "duplicate JSON object key `" ++ key ++ "`"
  | .tooDeep actual limit =>
    "JSON depth " ++ toString actual ++ " exceeds limit " ++ toString limit
  | .tooManyNodes actual limit =>
    "JSON node count " ++ toString actual ++ " exceeds limit " ++ toString limit
  | .invalid reason => "invalid JSON: " ++ reason

def CatalogError.display (error : CatalogError) : String :=
  match error with
  | .unknownKind kind => "unknown event kind `" ++ kind ++ "`"
  | .unknownVersion kind version =>
    "unknown event schema `" ++ kind ++ "` version " ++ toString version
  | .missingUpcaster kind source =>
    "event kind `" ++ kind ++ "` is missing upcaster from version " ++ toString source
  | .payload error => "event payload is invalid: " ++ error.display
  | .upcastFailed kind source reason =>
    "upcaster `" ++ kind ++ "` from version " ++ toString source ++ " failed: " ++ reason
  | .nondeterministicUpcast kind source =>
    "upcaster `" ++ kind ++ "` from version " ++ toString source
      ++ " produced different canonical outputs"
  | .nondeterministicMapping kind version =>
    "current-schema mapper `" ++ kind ++ "` version " ++ toString version
      ++ " produced different outputs"

-- What `observed_transform_is_stable` answers to an input and its output.
abbrev TransformStability := CanonicalJson → CanonicalJson → Bool

def unobserved : TransformStability := fun _ _ => true

structure Upcaster where
  target : Nat
  stepId : String
  apply : TransformStability → CanonicalJson → Attempt CatalogError CanonicalJson

structure CurrentSchema (E : Type) where
  version : Nat
  mappingId : String
  decode : TransformStability → CanonicalJson → Attempt CatalogError E

structure CatalogStability where
  upcasters : String → Nat → TransformStability
  mappers : String → TransformStability

/--
`register_upcaster` only admits an edge to the next version.
-/
structure SealedKind (E : Type) where
  schemas : Nat → Option String
  current : CurrentSchema E
  upcasters : Nat → Option Upcaster
  adjacent : ∀ source edge, upcasters source = some edge → edge.target = source + 1

structure SealedEventCatalog (E : Type) where
  kinds : String → Option (SealedKind E)
  digest : Hash

namespace SealedEventCatalog

variable {E : Type}

/--
The `while version < kind.current.version` loop of `decode`, over the number of edges still to take.
-/
def upcast (kind : SealedKind E) (name : String) (stable : Nat → TransformStability) (edges version : Nat)
    (payload : CanonicalJson) : Attempt CatalogError CanonicalJson :=
  match edges with
  | 0 => .ok payload
  | edges + 1 =>
    match kind.upcasters version with
    | none => .err (.missingUpcaster name version)
    | some edge =>
      match edge.apply (stable version) payload with
      | .ok payload => upcast kind name stable edges edge.target payload
      | .err error => .err error
      | .panicked => .panicked

theorem upcast_eq_while (kind : SealedKind E) (name : String) (stable : Nat → TransformStability) (version : Nat)
    (payload : CanonicalJson)
    : upcast kind name stable (kind.current.version - version) version payload
        =
      if version < kind.current.version then
        match kind.upcasters version with
        | none => .err (.missingUpcaster name version)
        | some edge =>
          match edge.apply (stable version) payload with
          | .ok payload =>
            upcast kind name stable (kind.current.version - edge.target) edge.target payload
          | .err error => .err error
          | .panicked => .panicked
      else
        .ok payload := by
  split
  . next hlt =>
    have hedges : kind.current.version - version = kind.current.version - (version + 1) + 1 := by
      omega
    rw [hedges, upcast]
    cases hedge : kind.upcasters version with
    | none => rfl
    | some edge =>
      have htarget := kind.adjacent version edge hedge
      dsimp only
      rw [htarget]
  . next hge =>
    have hedges : kind.current.version - version = 0 := by omega
    rw [hedges, upcast]

def decodeObserved (catalog : SealedEventCatalog E) (stability : CatalogStability) (event : Event)
    : Attempt CatalogError E :=
  match catalog.kinds event.kind with
  | none => .err (.unknownKind event.kind)
  | some kind =>
    if (kind.schemas event.schemaVersion).isNone then
      .err (.unknownVersion event.kind event.schemaVersion)
    else if event.schemaVersion > kind.current.version then
      .err (.unknownVersion event.kind event.schemaVersion)
    else
      let edges := kind.current.version - event.schemaVersion
      match upcast kind event.kind (stability.upcasters event.kind) edges event.schemaVersion event.payload with
      | .ok payload => kind.current.decode (stability.mappers event.kind) payload
      | .err error => .err error
      | .panicked => .panicked

-- The first decoding of a catalog, with no history behind its transforms.
def decode (catalog : SealedEventCatalog E) (event : Event) : Attempt CatalogError E :=
  catalog.decodeObserved ⟨fun _ _ => unobserved, fun _ => unobserved⟩ event

end SealedEventCatalog

def maxTransformObservations : Nat := 256

structure TransformObservations where
  outputs : Hash → Option Hash
  insertionOrder : List Hash

namespace TransformObservations

def empty : TransformObservations := ⟨fun _ => none, []⟩

def accepts (sha256 : Sha256) (observations : TransformObservations) (input output : CanonicalJson)
    : Bool × TransformObservations :=
  let inputDigest := sha256 input.bytes
  let outputDigest := sha256 output.bytes
  match observations.outputs inputDigest with
  | some expected => (expected == outputDigest, observations)
  | none =>
    -- the keys of `outputs` are the digests in `insertionOrder`
    let kept : TransformObservations :=
      match observations.insertionOrder with
      | oldest :: rest =>
        if observations.insertionOrder.length = maxTransformObservations then
          ⟨fun digest => if digest = oldest then none else observations.outputs digest, rest⟩
        else
          observations
      | [] => observations
    (true,
      ⟨fun digest => if digest = inputDigest then some outputDigest else kept.outputs digest,
        kept.insertionOrder ++ [inputDigest]⟩)

variable {sha256 : Sha256} {observations : TransformObservations} {input output : CanonicalJson} {expected : Hash}

def observe (sha256 : Sha256) (observations : TransformObservations) (calls : List (CanonicalJson × CanonicalJson))
    : TransformObservations :=
  calls.foldl (fun observations call => (observations.accepts sha256 call.1 call.2).2) observations

-- The order is that of the digests with an output, so a full history has an oldest one.
structure Sound (observations : TransformObservations) : Prop where
  bound : observations.insertionOrder.length ≤ maxTransformObservations
  nodup : observations.insertionOrder.Nodup
  known : ∀ digest, digest ∈ observations.insertionOrder ↔ (observations.outputs digest).isSome

theorem accepts_known (h : observations.outputs (sha256 input.bytes) = some expected)
    : observations.accepts sha256 input output = (expected == sha256 output.bytes, observations) := by
  unfold accepts
  dsimp only
  rw [h]

theorem accepts_new (h : observations.outputs (sha256 input.bytes) = none)
    : ∃ gone, (gone = if observations.insertionOrder.length = maxTransformObservations then 1 else 0)
      ∧ observations.accepts sha256 input output = (true,
        ⟨fun digest => if digest = sha256 input.bytes then some (sha256 output.bytes)
          else if digest ∈ observations.insertionOrder.take gone then none else observations.outputs digest,
        observations.insertionOrder.drop gone ++ [sha256 input.bytes]⟩) := by
  unfold accepts
  dsimp only
  rw [h]
  refine ⟨_, rfl, ?_⟩
  cases horder : observations.insertionOrder with
  | nil => simp [horder, maxTransformObservations]
  | cons oldest rest =>
    dsimp only
    split
    . simp
    . simp [horder]

-- What stands among the last ones stays for another call.
theorem Sound.accepts (h : observations.Sound) (input output : CanonicalJson)
    : (observations.accepts sha256 input output).2.Sound
      ∧ ∀ last, last <:+ observations.insertionOrder → last.length < maxTransformObservations
        → ∃ new, last ++ new <:+ (observations.accepts sha256 input output).2.insertionOrder ∧ new.length ≤ 1
          ∧ ∀ digest ∈ last, (observations.accepts sha256 input output).2.outputs digest = observations.outputs digest := by
  obtain ⟨hbound, hnodup, hknown⟩ := h
  cases hinput : observations.outputs (sha256 input.bytes) with
  | some expected =>
    rw [accepts_known hinput]
    exact ⟨⟨hbound, hnodup, hknown⟩, fun last hlast _ => ⟨[], by rwa [List.append_nil], Nat.zero_le _, fun _ _ => rfl⟩⟩
  | none =>
    obtain ⟨gone, hgone, haccepts⟩ := @accepts_new sha256 observations input output hinput
    have hnew : sha256 input.bytes ∉ observations.insertionOrder := by simp [hknown, hinput]
    have hapart := List.disjoint_take_drop hnodup (Nat.le_refl gone)
    have hlength := @List.length_drop _ gone observations.insertionOrder
    have hroom : observations.insertionOrder.length - gone < maxTransformObservations := by
      have : 0 < maxTransformObservations := by decide
      split at hgone <;> omega
    rw [haccepts]
    refine ⟨⟨?_, ?_, ?_⟩, ?_⟩
    . rw [List.length_append, List.length_singleton, hlength]
      omega
    . simp only [List.nodup_append]
      grind
    . intro digest
      have hdigest := hknown digest
      rw [← List.take_append_drop gone observations.insertionOrder, List.mem_append] at hdigest
      rw [List.mem_append, List.mem_singleton]
      dsimp only
      split
      . next hinput => simp [hinput]
      . next hother =>
        split
        . next htaken => simpa [hother] using fun hdropped => hapart htaken hdropped
        . next htaken => simpa [hother, htaken] using hdigest
    . intro last hlast hshort
      have hkept : last <:+ observations.insertionOrder.drop gone := by
        apply List.suffix_of_suffix_length_le hlast (List.drop_suffix _ _)
        have := hlast.length_le
        split at hgone <;> omega
      obtain ⟨front, hfront⟩ := hkept
      refine ⟨[sha256 input.bytes], ⟨front, by rw [← hfront, List.append_assoc]⟩, Nat.le_refl _, ?_⟩
      intro digest hdigest
      have hdropped : digest ∈ observations.insertionOrder.drop gone := hfront ▸ List.mem_append_right _ hdigest
      have hother : digest ≠ sha256 input.bytes := ne_of_mem_of_not_mem (hlast.subset hdigest) hnew
      exact (if_neg hother).trans (if_neg (fun htaken => hapart htaken hdropped))

theorem observe_keeps (calls : List (CanonicalJson × CanonicalJson)) (h : observations.Sound)
    : (observations.observe sha256 calls).Sound
      ∧ ∀ last, last <:+ observations.insertionOrder → last.length + calls.length ≤ maxTransformObservations
        → ∀ digest ∈ last, (observations.observe sha256 calls).outputs digest = observations.outputs digest := by
  induction calls generalizing observations with
  | nil => exact ⟨h, fun _ _ _ _ _ => rfl⟩
  | cons call rest ih =>
    obtain ⟨hsound, hkeeps⟩ := @Sound.accepts sha256 _ h call.1 call.2
    obtain ⟨hrest, hlater⟩ := ih hsound
    refine ⟨hrest, ?_⟩
    intro last hlast hroom digest hdigest
    rw [List.length_cons] at hroom
    obtain ⟨new, hnew, hle, hsame⟩ := hkeeps last hlast (by omega)
    rw [← hsame digest hdigest]
    exact hlater _ hnew (by rw [List.length_append]; omega) digest (List.mem_append_left _ hdigest)

theorem outputs_accepts {digest : Hash} (h : (observations.accepts sha256 input output).2.outputs digest = some expected)
    : observations.outputs digest = some expected ∨ (sha256 input.bytes = digest ∧ sha256 output.bytes = expected) := by
  cases hinput : observations.outputs (sha256 input.bytes) with
  | some _ =>
    rw [accepts_known hinput] at h
    exact .inl h
  | none =>
    obtain ⟨gone, -, haccepts⟩ := @accepts_new sha256 observations input output hinput
    rw [haccepts] at h
    dsimp only at h
    split at h
    . next hdigest => exact .inr ⟨hdigest.symm, Option.some.inj h⟩
    . split at h
      . cases h
      . exact .inl h

theorem outputs_observe {digest : Hash} (calls : List (CanonicalJson × CanonicalJson))
    (h : (observations.observe sha256 calls).outputs digest = some expected)
    : observations.outputs digest = some expected
      ∨ ∃ call ∈ calls, sha256 call.1.bytes = digest ∧ sha256 call.2.bytes = expected := by
  induction calls generalizing observations with
  | nil => exact .inl h
  | cons call rest ih =>
    cases ih h with
    | inl hbefore => exact (outputs_accepts hbefore).imp_right (fun hcall => ⟨call, List.mem_cons_self, hcall⟩)
    | inr hrest =>
      obtain ⟨later, hmem, hlater⟩ := hrest
      exact .inr ⟨later, List.mem_cons_of_mem _ hmem, hlater⟩

theorem refused {earlier : List (CanonicalJson × CanonicalJson)}
    (h : ((empty.observe sha256 earlier).accepts sha256 input output).1 = false)
    : ∃ call ∈ earlier, sha256 call.1.bytes = sha256 input.bytes ∧ sha256 call.2.bytes ≠ sha256 output.bytes := by
  cases hinput : (empty.observe sha256 earlier).outputs (sha256 input.bytes) with
  | none =>
    obtain ⟨gone, -, haccepts⟩ := @accepts_new sha256 _ input output hinput
    rw [haccepts] at h
    cases h
  | some expected =>
    obtain ⟨call, hcall, hdigest, rfl⟩ := (outputs_observe earlier hinput).resolve_left nofun
    rw [accepts_known hinput] at h
    exact ⟨call, hcall, hdigest, ne_of_beq_false h⟩

-- The digests of the inputs that are entered, one after another.
def recorded (sha256 : Sha256) (observations : TransformObservations) (calls : List (CanonicalJson × CanonicalJson))
    : List Hash :=
  match calls with
  | [] => []
  | call :: rest =>
    (if (observations.outputs (sha256 call.1.bytes)).isSome then [] else [sha256 call.1.bytes])
      ++ recorded sha256 (observations.accepts sha256 call.1 call.2).2 rest

theorem insertionOrder_observe (calls : List (CanonicalJson × CanonicalJson)) (h : observations.Sound)
    : (observations.observe sha256 calls).insertionOrder
      = (observations.insertionOrder ++ observations.recorded sha256 calls).rtake maxTransformObservations := by
  induction calls generalizing observations with
  | nil =>
    have hbound := h.bound
    rw [recorded, List.append_nil, List.rtake, Nat.sub_eq_zero_of_le hbound]
    rfl
  | cons call rest ih =>
    have hrest := ih (@Sound.accepts sha256 _ h call.1 call.2).1
    rw [observe, List.foldl_cons, ← observe, hrest, recorded]
    cases hinput : observations.outputs (sha256 call.1.bytes) with
    | some expected =>
      rw [accepts_known hinput, Option.isSome_some, if_pos rfl, List.nil_append]
    | none =>
      obtain ⟨gone, hgone, haccepts⟩ := @accepts_new sha256 _ call.1 call.2 hinput
      rw [haccepts, Option.isSome_none, if_neg Bool.false_ne_true]
      dsimp only
      generalize recorded sha256 _ rest = later
      have hle : gone ≤ observations.insertionOrder.length := by
        split at hgone
        . next hfull => rw [hfull, hgone]; decide
        . omega
      have hbound := h.bound
      generalize maxTransformObservations = bound at hgone hbound ⊢
      rw [List.append_assoc, ← List.drop_append_of_le_length hle, List.rtake, List.rtake, List.drop_drop]
      simp only [List.length_drop, List.length_append, List.length_singleton]
      congr 1
      split at hgone <;> omega

theorem divergence_noticed (sha256 : Sha256) (earlier : List (CanonicalJson × CanonicalJson))
    : let observations := empty.observe sha256 earlier
      observations.Sound
        ∧ observations.insertionOrder = (empty.recorded sha256 earlier).rtake maxTransformObservations
        ∧ (∀ input output, (observations.accepts sha256 input output).1 = false
          → ∃ call ∈ earlier, sha256 call.1.bytes = sha256 input.bytes ∧ sha256 call.2.bytes ≠ sha256 output.bytes)
        ∧ ∀ input output later other, observations.outputs (sha256 input.bytes) = none
          → later.length < maxTransformObservations
          → ((observations.observe sha256 ((input, output) :: later)).accepts sha256 input other).1
            = (sha256 output.bytes == sha256 other.bytes) := by
  have hsound := (@observe_keeps sha256 empty earlier ⟨Nat.zero_le _, List.nodup_nil, fun _ => ⟨nofun, nofun⟩⟩).1
  refine ⟨hsound, insertionOrder_observe earlier ⟨Nat.zero_le _, List.nodup_nil, fun _ => ⟨nofun, nofun⟩⟩,
    fun input output => refused, ?_⟩
  . intro input output later other hnew hroom
    obtain ⟨gone, -, haccepts⟩ := @accepts_new sha256 _ input output hnew
    have hseen := (@observe_keeps sha256 _ later (hsound.accepts input output).1).2 [sha256 input.bytes]
      (by rw [haccepts]; exact List.suffix_append _ _) (by simpa [Nat.add_comm] using hroom) _ List.mem_cons_self
    rw [haccepts] at hseen
    rw [observe, List.foldl_cons, haccepts]
    exact congrArg Prod.fst (accepts_known (hseen.trans (if_pos rfl)))

end TransformObservations

def observedTransformIsStable (sha256 : Sha256) (observations : TransformObservations) : TransformStability :=
  fun input output => (observations.accepts sha256 input output).1

end Pliego
