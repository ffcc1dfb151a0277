import Pliego.Lib.JsonValue
import Pliego.Lib.SortedMap
import Pliego.Lib.Text

/-!
The adapter islands that the server emits: the builder, its checks, and the attributes of the element.
-/

namespace Pliego

open Bytes JsonText Text

def adapterApiVersion : Nat := 1

def maxPropsBytes : Nat := 32768

inductive LoadTrigger where
  | immediate
  | visible
  | idle
  | interaction
deriving DecidableEq

def LoadTrigger.asStr (trigger : LoadTrigger) : String :=
  match trigger with
  | .immediate => "immediate"
  | .visible => "visible"
  | .idle => "idle"
  | .interaction => "interaction"

inductive PerformanceTier where
  | universal
  | lite
  | balanced
  | signature
deriving DecidableEq

def PerformanceTier.asStr (tier : PerformanceTier) : String :=
  match tier with
  | .universal => "universal"
  | .lite => "lite"
  | .balanced => "balanced"
  | .signature => "signature"

inductive AdapterCapability where
  | dom
  | motion
  | smoothScroll
  | audio
  | video
  | webGl
  | highFrequencyRaf
  | webGpu
deriving DecidableEq

namespace AdapterCapability

def asStr (capability : AdapterCapability) : String :=
  match capability with
  | .dom => "dom"
  | .motion => "motion"
  | .smoothScroll => "smooth-scroll"
  | .audio => "audio"
  | .video => "video"
  | .webGl => "webgl"
  | .highFrequencyRaf => "high-frequency-raf"
  | .webGpu => "webgpu"

-- The derived order is that of the constructors.
instance linearOrder : LinearOrder AdapterCapability :=
  LinearOrder.lift' AdapterCapability.ctorIdx (fun a b h => by cases a <;> cases b <;> first | rfl | cases h)

end AdapterCapability

inductive MotionPolicy where
  | auto
  | full
  | reduce
  | skipWhenReduced
deriving DecidableEq

def MotionPolicy.asStr (policy : MotionPolicy) : String :=
  match policy with
  | .auto => "auto"
  | .full => "full"
  | .reduce => "reduce"
  | .skipWhenReduced => "skip"

inductive DataPolicy where
  | auto
  | allow
  | skipOnSaveData
deriving DecidableEq

def DataPolicy.asStr (policy : DataPolicy) : String :=
  match policy with
  | .auto => "auto"
  | .allow => "allow"
  | .skipOnSaveData => "skip"

structure AdapterPolicy where
  minTier : PerformanceTier
  motion : MotionPolicy
  data : DataPolicy
  capabilities : SortedSet AdapterCapability

def AdapterPolicy.default : AdapterPolicy := ⟨.universal, .auto, .auto, .empty⟩

def AdapterPolicy.capability (policy : AdapterPolicy) (capability : AdapterCapability) : AdapterPolicy :=
  { policy with capabilities := policy.capabilities.insert capability () }

-- `invalid` has the text in front of the value that it quotes, if any.
inductive AdapterError where
  | invalid (message : String) (value : Option String)
  | json (source : String)

def validateId (value : String) : Except AdapterError Unit :=
  let start := value.toList.head?.any Char.isAlpha
  let tail := value.toList.tail.all fun character =>
    character.isAlphanum || character == '-' || character == '_'
  if 128 < (utf8 value).length || !start || !tail then
    .error (.invalid "invalid adapter identifier: " (some value))
  else
    .ok ()

def isAlphanumericByte (byte : UInt8) : Bool :=
  (48 ≤ byte && byte ≤ 57) || (65 ≤ byte && byte ≤ 90) || (97 ≤ byte && byte ≤ 122)

def isAsciiControl (byte : UInt8) : Bool := byte < 32 || byte == 127

def isModuleByte (byte : UInt8) : Bool :=
  isAlphanumericByte byte || byte == 47 || byte == 45 || byte == 95 || byte == 46

def validateModulePath (module : String) : Except AdapterError Unit :=
  if !"/assets/".toList.isPrefixOf module.toList
      || !(utf8 module).all (fun byte => byte < 128)
      || containsPair '.' '.' module.toList
      || contains module '\\'
      || (contains module '%' || contains module '?' || contains module '#')
      || containsPair '/' '/' module.toList
      || !(utf8 module).all isModuleByte
      || (utf8 module).any (fun byte => isAsciiControl byte || byte == 32)
      || !".js".toList.isSuffixOf module.toList then
    .error (.invalid "adapter module must be a safe immutable /assets/*.js path: " (some module))
  else
    .ok ()

-- A value of `serde_json`.
structure PropValue where
  value : Value
  proper : value.Every ProperNumber
  unique : value.Every UniqueNames

structure AdapterIsland (View : Type) where
  id : String
  module : String
  trigger : LoadTrigger
  policy : AdapterPolicy
  props : SortedMap String PropValue
  child : Option View
  idValid : validateId id = .ok ()
  moduleValid : validateModulePath module = .ok ()
  keysValid : ∀ key ∈ props.keys, validateId key = .ok ()

structure Element (View : Type) where
  name : String
  attrs : List (String × String)
  children : List View

def Element.attr {View : Type} (element : Element View) (name value : String) : Element View :=
  { element with attrs := element.attrs ++ [(name, value)] }

namespace AdapterIsland

variable {View : Type}

def new (id module : String) : Except AdapterError (AdapterIsland View) :=
  match hid : validateId id with
  | .error error => .error error
  | .ok () =>
    match hmodule : validateModulePath module with
    | .error error => .error error
    | .ok () => .ok {
        id, module, trigger := .visible, policy := .default, props := .empty, child := none
        idValid := hid
        moduleValid := hmodule
        keysValid := fun _ hkey => absurd hkey List.not_mem_nil }

def withTrigger (island : AdapterIsland View) (trigger : LoadTrigger) : AdapterIsland View := { island with trigger }

def withPolicy (island : AdapterIsland View) (policy : AdapterPolicy) : AdapterIsland View := { island with policy }

def minTier (island : AdapterIsland View) (tier : PerformanceTier) : AdapterIsland View :=
  { island with policy := { island.policy with minTier := tier } }

def capability (island : AdapterIsland View) (capability : AdapterCapability) : AdapterIsland View :=
  { island with policy := island.policy.capability capability }

def motionPolicy (island : AdapterIsland View) (policy : MotionPolicy) : AdapterIsland View :=
  { island with policy := { island.policy with motion := policy } }

def dataPolicy (island : AdapterIsland View) (policy : DataPolicy) : AdapterIsland View :=
  { island with policy := { island.policy with data := policy } }

def prop (island : AdapterIsland View) (key : String) (value : PropValue)
    : Except AdapterError (AdapterIsland View) :=
  match hkey : validateId key with
  | .error error => .error error
  | .ok () => .ok { island with
      props := island.props.insert key value
      keysValid := by
        intro key' hmem
        rw [SortedMap.mem_keys, SortedMap.get?_insert] at hmem
        split at hmem
        . next hsame =>
          rw [hsame]
          exact hkey
        . exact island.keysValid key' (SortedMap.mem_keys.mpr hmem) }

def withChild (island : AdapterIsland View) (child : View) : AdapterIsland View :=
  { island with child := some child }

-- The writing of the props as JSON and the view of a fragment are parameters.
def intoView (serialize : SortedMap String PropValue → Except String String) (fragment : List View → View)
    (island : AdapterIsland View)
    : Except AdapterError (Element View) :=
  match serialize island.props with
  | .error source => .error (.json source)
  | .ok props =>
    if maxPropsBytes < (utf8 props).length then
      .error (.invalid ("adapter props exceed " ++ toString maxPropsBytes ++ " bytes") none)
    else
      let capabilities := join ',' (island.policy.capabilities.keys.map AdapterCapability.asStr)
      let element : Element View :=
        { name := "pliego-adapter"
          attrs :=
            [("data-pliego-api", toString adapterApiVersion),
              ("data-pliego-id", island.id),
              ("data-pliego-module", island.module),
              ("data-pliego-trigger", island.trigger.asStr),
              ("data-pliego-min-tier", island.policy.minTier.asStr),
              ("data-pliego-motion", island.policy.motion.asStr),
              ("data-pliego-data", island.policy.data.asStr),
              ("data-pliego-props", props)]
          children := [island.child.getD (fragment [])] }
      .ok (if capabilities = "" then element else element.attr "data-pliego-capabilities" capabilities)

end AdapterIsland

end Pliego
