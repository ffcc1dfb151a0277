import Pliego.Lib.Bytes
import Pliego.Lib.Fields
import Pliego.Render.Errors

/-!
Rendering a view of `pliego-dom` to HTML under a limit on its output: what comes out is what the view renders to
without the limit, or nothing at all.
-/

namespace Pliego

open Bytes

namespace Render

def hardRenderMaxDepth : Nat := 256

def hardRenderMaxNodes : Nat := 1000000

def hardRenderMaxOutputBytes : Nat := 64 * 1024 * 1024

structure RenderLimits where
  maxDepth : Nat
  maxNodes : Nat
  maxOutputBytes : Nat
  depth_le : maxDepth ≤ hardRenderMaxDepth
  nodes_le : maxNodes ≤ hardRenderMaxNodes
  output_le : maxOutputBytes ≤ hardRenderMaxOutputBytes

def RenderLimits.new (maxDepth maxNodes maxOutputBytes : Nat) : Except RenderLimitsError RenderLimits :=
  if hdepth : hardRenderMaxDepth < maxDepth then
    .error ⟨.depth, maxDepth, hardRenderMaxDepth⟩
  else if hnodes : hardRenderMaxNodes < maxNodes then
    .error ⟨.nodes, maxNodes, hardRenderMaxNodes⟩
  else if houtput : hardRenderMaxOutputBytes < maxOutputBytes then
    .error ⟨.outputBytes, maxOutputBytes, hardRenderMaxOutputBytes⟩
  else
    .ok ⟨maxDepth, maxNodes, maxOutputBytes, Nat.le_of_not_lt hdepth, Nat.le_of_not_lt hnodes,
      Nat.le_of_not_lt houtput⟩

theorem RenderLimits.new_of_le (limits : RenderLimits) {room : Nat} (h : room ≤ limits.maxOutputBytes)
    : ∃ left, RenderLimits.new limits.maxDepth limits.maxNodes room = .ok left
        ∧ left.maxDepth = limits.maxDepth ∧ left.maxNodes = limits.maxNodes ∧ left.maxOutputBytes = room := by
  have hroom : room ≤ hardRenderMaxOutputBytes := Nat.le_trans h limits.output_le
  unfold RenderLimits.new
  rw [dif_neg (Nat.not_lt.mpr limits.depth_le), dif_neg (Nat.not_lt.mpr limits.nodes_le),
    dif_neg (Nat.not_lt.mpr hroom)]
  exact ⟨_, rfl, rfl, rfl, rfl⟩

-- What `catch_unwind` gives back.
inductive Caught (α : Type) where
  | returned (a : α)
  | panicked
  deriving DecidableEq

structure BoundedHtml where
  value : String
  maximum : Nat

namespace BoundedHtml

def new (maximum : Nat) : BoundedHtml := ⟨"", maximum⟩

def pushStr (output : BoundedHtml) (value : String) : Except RenderError BoundedHtml :=
  if output.maximum < (utf8 output.value).length + (utf8 value).length then
    .error (.limitExceeded .outputBytes output.maximum)
  else
    .ok { output with value := output.value ++ value }

def pushChar (output : BoundedHtml) (value : Char) : Except RenderError BoundedHtml :=
  output.pushStr (String.singleton value)

def pushEscaped (output : BoundedHtml) (value : List Char) (inAttribute : Bool)
    : Except RenderError BoundedHtml := do
  match value with
  | [] => return output
  | character :: rest =>
    let output ← (
      if character = '&' then output.pushStr "&amp;"
      else if character = '<' then output.pushStr "&lt;"
      else if character = '>' then output.pushStr "&gt;"
      else if character = '"' ∧ inAttribute then output.pushStr "&quot;"
      else output.pushChar character)
    output.pushEscaped rest inAttribute

def ensureMinimumInputFits (output : BoundedHtml) (inputBytes : Nat) : Except RenderError Unit :=
  if output.maximum < (utf8 output.value).length + inputBytes then
    .error (.limitExceeded .outputBytes output.maximum)
  else
    .ok ()

end BoundedHtml

-- What the walk over a view asks of the writer and of the budgets, in its order. The rules of the HTML parser and the
-- application's own closures decide what is refused and where there is a panic.
inductive HtmlCall where
  | visit (depth : Nat)
  | pushStr (value : String)
  | text (value : String) (refused : Option RenderError)
  | attributeValue (name value : String) (refused : Option RenderError)
  | refuse (error : RenderError)
  | panic
  deriving DecidableEq

abbrev View := List HtmlCall

structure RenderState where
  limits : RenderLimits
  nodes : Nat

def RenderState.visit (state : RenderState) (depth : Nat) : Except RenderError RenderState :=
  if state.limits.maxDepth < depth then
    .error (.limitExceeded .depth state.limits.maxDepth)
  else if state.limits.maxNodes < state.nodes + 1 then
    .error (.limitExceeded .nodes state.limits.maxNodes)
  else
    .ok { state with nodes := state.nodes + 1 }

def writeText (value : String) (refused : Option RenderError) (output : BoundedHtml)
    : Except RenderError BoundedHtml := do
  output.ensureMinimumInputFits (utf8 value).length
  match refused with
  | some error => .error error
  | none => output.pushEscaped value.toList false

def writeAttribute (name value : String) (refused : Option RenderError) (output : BoundedHtml)
    : Except RenderError BoundedHtml := do
  output.ensureMinimumInputFits (utf8 value).length
  match refused with
  | some error => .error error
  | none =>
    let output ← output.pushChar ' '
    let output ← output.pushStr name
    let output ← output.pushStr "=\""
    let output ← output.pushEscaped value.toList true
    output.pushChar '"'

def writeHtml (view : View) (state : RenderState) (output : BoundedHtml)
    : Caught (Except RenderError BoundedHtml) :=
  match view with
  | [] => .returned (.ok output)
  | .visit depth :: rest =>
    match state.visit depth with
    | .error error => .returned (.error error)
    | .ok state => writeHtml rest state output
  | .pushStr value :: rest =>
    match output.pushStr value with
    | .error error => .returned (.error error)
    | .ok output => writeHtml rest state output
  | .text value refused :: rest =>
    match writeText value refused output with
    | .error error => .returned (.error error)
    | .ok output => writeHtml rest state output
  | .attributeValue name value refused :: rest =>
    match writeAttribute name value refused output with
    | .error error => .returned (.error error)
    | .ok output => writeHtml rest state output
  | .refuse error :: _ => .returned (.error error)
  | .panic :: _ => .panicked

def tryRenderHtml (view : View) (limits : RenderLimits) : Caught (Except RenderError String) :=
  match writeHtml view ⟨limits, 0⟩ (BoundedHtml.new limits.maxOutputBytes) with
  | .panicked => .panicked
  | .returned (.error error) => .returned (.error error)
  | .returned (.ok output) => .returned (.ok output.value)

def entity (character : Char) (inAttribute : Bool) : String :=
  if character = '&' then "&amp;"
  else if character = '<' then "&lt;"
  else if character = '>' then "&gt;"
  else if character = '"' ∧ inAttribute then "&quot;"
  else String.singleton character

def escaped (value : List Char) (inAttribute : Bool) : String :=
  match value with
  | [] => ""
  | character :: rest => entity character inAttribute ++ escaped rest inAttribute

def attributeHtml (name value : String) : String :=
  " " ++ (name ++ ("=\"" ++ (escaped value.toList true ++ "\"")))

def View.html (view : View) (maxDepth maxNodes : Nat) : Option String :=
  match view with
  | [] => some ""
  | .visit depth :: rest =>
    if depth ≤ maxDepth ∧ 0 < maxNodes then View.html rest maxDepth (maxNodes - 1) else none
  | .pushStr value :: rest => (View.html rest maxDepth maxNodes).map (value ++ ·)
  | .text value none :: rest => (View.html rest maxDepth maxNodes).map (escaped value.toList false ++ ·)
  | .attributeValue name value none :: rest =>
    (View.html rest maxDepth maxNodes).map (attributeHtml name value ++ ·)
  | .text _ (some _) :: _ => none
  | .attributeValue _ _ (some _) :: _ => none
  | .refuse _ :: _ => none
  | .panic :: _ => none

def BoundedHtml.Fits (output : BoundedHtml) : Prop :=
  (utf8 output.value).length ≤ output.maximum

def BoundedHtml.append (output : BoundedHtml) (text : String) : BoundedHtml :=
  { output with value := output.value ++ text }

-- The call succeeds exactly when the text fits, and has then written it.
def Appends (write : BoundedHtml → Except RenderError BoundedHtml) (text : String) : Prop :=
  ∀ output result, output.Fits → (write output = .ok result ↔ (output.append text).Fits ∧ result = output.append text)

theorem BoundedHtml.append_append (output : BoundedHtml) (first last : String)
    : (output.append first).append last = output.append (first ++ last) := by
  unfold BoundedHtml.append
  simp only [String.append_assoc]

theorem BoundedHtml.append_empty (output : BoundedHtml)
    : output.append "" = output := by
  unfold BoundedHtml.append
  simp only [String.append_empty]

theorem BoundedHtml.length_append (output : BoundedHtml) (text : String)
    : (utf8 (output.append text).value).length = (utf8 output.value).length + (utf8 text).length := by
  unfold BoundedHtml.append
  simp only [utf8_append, List.length_append]

theorem BoundedHtml.fits_append {output : BoundedHtml} {text : String}
    : (output.append text).Fits ↔ (utf8 output.value).length + (utf8 text).length ≤ output.maximum := by
  unfold BoundedHtml.Fits
  rw [BoundedHtml.length_append]
  rfl

theorem BoundedHtml.Fits.of_append {output : BoundedHtml} {first last : String}
    (h : (output.append (first ++ last)).Fits)
    : (output.append first).Fits := by
  rw [BoundedHtml.fits_append, utf8_append, List.length_append] at h
  rw [BoundedHtml.fits_append]
  omega

theorem appends_pushStr (text : String)
    : Appends (·.pushStr text) text := by
  intro output result _
  rw [BoundedHtml.fits_append]
  unfold BoundedHtml.pushStr
  dsimp only
  split
  . next hover =>
    apply iff_of_false
    . intro h
      cases h
    . intro h
      omega
  . next hroom =>
    rw [and_iff_right (Nat.le_of_not_lt hroom)]
    constructor
    . intro h
      cases h
      rfl
    . intro h
      rw [h]
      rfl

theorem Appends.bind {write next : BoundedHtml → Except RenderError BoundedHtml} {first last : String}
    (hfirst : Appends write first) (hlast : Appends next last)
    : Appends (fun output => write output >>= next) (first ++ last) := by
  intro output result hfits
  dsimp only
  rw [Except.bind_eq_ok, ← BoundedHtml.append_append]
  constructor
  . intro ⟨middle, hmiddle, hresult⟩
    obtain ⟨hroom, rfl⟩ := (hfirst output middle hfits).mp hmiddle
    exact (hlast _ result hroom).mp hresult
  . intro ⟨hroom, hresult⟩
    have hmiddle : (output.append first).Fits := by
      rw [BoundedHtml.append_append] at hroom
      exact hroom.of_append
    exact ⟨_, (hfirst output _ hfits).mpr ⟨hmiddle, rfl⟩, (hlast _ result hmiddle).mpr ⟨hroom, hresult⟩⟩

theorem appends_pure
    : Appends (fun output => .ok output) "" := by
  intro output result hfits
  rw [BoundedHtml.append_empty, and_iff_right hfits]
  constructor
  . intro h
    cases h
    rfl
  . intro h
    rw [h]

theorem Appends.ensure {write : BoundedHtml → Except RenderError BoundedHtml} {text : String} {inputBytes : Nat}
    (h : Appends write text) (hinput : inputBytes ≤ (utf8 text).length)
    : Appends (fun output => output.ensureMinimumInputFits inputBytes >>= fun _ => write output) text := by
  intro output result hfits
  rw [BoundedHtml.fits_append]
  unfold BoundedHtml.ensureMinimumInputFits
  dsimp only
  split
  . next hover =>
    apply iff_of_false
    . intro h
      cases h
    . intro h
      omega
  . next =>
    rw [← BoundedHtml.fits_append]
    exact h output result hfits

theorem appends_entity (character : Char) (inAttribute : Bool)
    : Appends (fun output =>
        if character = '&' then output.pushStr "&amp;"
        else if character = '<' then output.pushStr "&lt;"
        else if character = '>' then output.pushStr "&gt;"
        else if character = '"' ∧ inAttribute then output.pushStr "&quot;"
        else output.pushChar character) (entity character inAttribute) := by
  unfold entity
  split
  . apply appends_pushStr
  . split
    . apply appends_pushStr
    . split
      . apply appends_pushStr
      . split
        . apply appends_pushStr
        . apply appends_pushStr

theorem appends_escaped (value : List Char) (inAttribute : Bool)
    : Appends (·.pushEscaped value inAttribute) (escaped value inAttribute) := by
  induction value with
  | nil => exact appends_pure
  | cons character rest ih => exact (appends_entity character inAttribute).bind ih

theorem utf8Size_le_entity (character : Char) (inAttribute : Bool)
    : (utf8 (String.singleton character)).length ≤ (utf8 (entity character inAttribute)).length := by
  unfold entity
  split
  . next h =>
    rw [h]
    decide
  . split
    . next h =>
      rw [h]
      decide
    . split
      . next h =>
        rw [h]
        decide
      . split
        . next h =>
          rw [h.1]
          decide
        . apply Nat.le_refl

theorem length_le_escaped (value : List Char) (inAttribute : Bool)
    : (utf8 (String.ofList value)).length ≤ (utf8 (escaped value inAttribute)).length := by
  induction value with
  | nil => apply Nat.le_refl
  | cons character rest ih =>
    have hfirst := utf8Size_le_entity character inAttribute
    have hsplit : String.ofList (character :: rest) = String.singleton character ++ String.ofList rest := by
      apply String.toList_injective
      simp
    unfold escaped
    rw [hsplit]
    simp only [utf8_append, List.length_append]
    omega

theorem appends_writeText (value : String)
    : Appends (writeText value none) (escaped value.toList false) := by
  apply (appends_escaped value.toList false).ensure
  have hlength := length_le_escaped value.toList false
  rw [String.ofList_toList] at hlength
  exact hlength

theorem appends_writeAttribute (name value : String)
    : Appends (writeAttribute name value none) (attributeHtml name value) := by
  unfold attributeHtml
  refine Appends.ensure ((appends_pushStr " ").bind ((appends_pushStr name).bind ((appends_pushStr "=\"").bind
    ((appends_escaped value.toList true).bind (appends_pushStr "\""))))) ?_
  have hlength := length_le_escaped value.toList true
  rw [String.ofList_toList] at hlength
  simp only [utf8_append, List.length_append]
  omega

theorem writeText_refused (value : String) (error : RenderError) (output : BoundedHtml)
    : ∃ refusal, writeText value (some error) output = .error refusal := by
  unfold writeText BoundedHtml.ensureMinimumInputFits
  split
  . exact ⟨_, rfl⟩
  . exact ⟨error, rfl⟩

theorem writeAttribute_refused (name value : String) (error : RenderError) (output : BoundedHtml)
    : ∃ refusal, writeAttribute name value (some error) output = .error refusal := by
  unfold writeAttribute BoundedHtml.ensureMinimumInputFits
  split
  . exact ⟨_, rfl⟩
  . exact ⟨error, rfl⟩

theorem Appends.then {write : BoundedHtml → Except RenderError BoundedHtml} {text : String} (hwrite : Appends write text)
    {next : BoundedHtml → Caught (Except RenderError BoundedHtml)} {html? : Option String}
    {output result : BoundedHtml} (hfits : output.Fits)
    (hnext : ∀ middle : BoundedHtml, middle.Fits → (next middle = .returned (.ok result)
      ↔ ∃ html, html? = some html ∧ (middle.append html).Fits ∧ result = middle.append html))
    : (match write output with
        | .error error => .returned (.error error)
        | .ok middle => next middle) = Caught.returned (.ok result)
      ↔ ∃ html, html?.map (text ++ ·) = some html ∧ (output.append html).Fits ∧ result = output.append html := by
  have hall : (∃ html, html?.map (text ++ ·) = some html ∧ (output.append html).Fits ∧ result = output.append html)
      ↔ ∃ html, html? = some html ∧ ((output.append text).append html).Fits
          ∧ result = (output.append text).append html := by
    cases html? with
    | none => simp
    | some html => simp [BoundedHtml.append_append]
  rw [hall]
  cases hwrote : write output with
  | error error =>
    apply iff_of_false
    . intro h
      cases h
    . intro ⟨html, _, hroom, _⟩
      rw [BoundedHtml.append_append] at hroom
      have hok := (hwrite output _ hfits).mpr ⟨hroom.of_append, rfl⟩
      rw [hwrote] at hok
      cases hok
  | ok middle =>
    obtain ⟨hroom, hmiddle⟩ := (hwrite output middle hfits).mp hwrote
    rw [← hmiddle]
    rw [← hmiddle] at hroom
    exact hnext middle hroom

theorem writeHtml_eq_ok {view : View} {state : RenderState} {output result : BoundedHtml} (hfits : output.Fits)
    : writeHtml view state output = .returned (.ok result)
      ↔ ∃ html, View.html view state.limits.maxDepth (state.limits.maxNodes - state.nodes) = some html
        ∧ (output.append html).Fits ∧ result = output.append html := by
  induction view generalizing state output with
  | nil =>
    unfold writeHtml View.html
    constructor
    . intro h
      cases h
      exact ⟨"", rfl, by rw [BoundedHtml.append_empty]; exact hfits, BoundedHtml.append_empty _ |>.symm⟩
    . intro ⟨html, hhtml, _, hresult⟩
      cases hhtml
      rw [hresult, BoundedHtml.append_empty]
  | cons call rest ih =>
    cases call with
    | visit depth =>
      unfold writeHtml View.html RenderState.visit
      by_cases hdepth : state.limits.maxDepth < depth
      . rw [if_pos hdepth, if_neg (fun hboth => absurd hboth.1 (Nat.not_le.mpr hdepth))]
        simp
      . rw [if_neg hdepth]
        by_cases hnodes : state.limits.maxNodes < state.nodes + 1
        . rw [if_pos hnodes, if_neg (fun hboth => absurd hboth.2 (by omega))]
          simp
        . rw [if_neg hnodes, if_pos ⟨Nat.le_of_not_lt hdepth, by omega⟩]
          exact ih hfits
    | pushStr value => exact (appends_pushStr value).then hfits (fun _ hroom => ih hroom)
    | text value refused =>
      cases refused with
      | none => exact (appends_writeText value).then hfits (fun _ hroom => ih hroom)
      | some error =>
        obtain ⟨refusal, hrefused⟩ := writeText_refused value error output
        unfold writeHtml View.html
        rw [hrefused]
        simp
    | attributeValue name value refused =>
      cases refused with
      | none => exact (appends_writeAttribute name value).then hfits (fun _ hroom => ih hroom)
      | some error =>
        obtain ⟨refusal, hrefused⟩ := writeAttribute_refused name value error output
        unfold writeHtml View.html
        rw [hrefused]
        simp
    | refuse error => simp [writeHtml, View.html]
    | panic => simp [writeHtml, View.html]

theorem tryRenderHtml_eq_ok {view : View} {limits : RenderLimits} {text : String}
    : tryRenderHtml view limits = .returned (.ok text)
      ↔ View.html view limits.maxDepth limits.maxNodes = some text ∧ (utf8 text).length ≤ limits.maxOutputBytes := by
  have hnew : (BoundedHtml.new limits.maxOutputBytes).Fits := Nat.zero_le _
  have hvalue : ∀ html, ((BoundedHtml.new limits.maxOutputBytes).append html).value = html := by
    intro html
    apply String.empty_append
  have hroom : ∀ html, ((BoundedHtml.new limits.maxOutputBytes).append html).Fits
      ↔ (utf8 html).length ≤ limits.maxOutputBytes := by
    intro html
    unfold BoundedHtml.Fits
    rw [hvalue]
    rfl
  have hrendered : tryRenderHtml view limits = .returned (.ok text)
      ↔ ∃ output, writeHtml view ⟨limits, 0⟩ (BoundedHtml.new limits.maxOutputBytes) = .returned (.ok output)
        ∧ output.value = text := by
    unfold tryRenderHtml
    cases writeHtml view ⟨limits, 0⟩ (BoundedHtml.new limits.maxOutputBytes) with
    | panicked => simp
    | returned result => cases result <;> simp
  rw [hrendered]
  constructor
  . intro ⟨output, hwrote, htext⟩
    obtain ⟨html, hhtml, hfits, rfl⟩ := (writeHtml_eq_ok hnew).mp hwrote
    rw [hvalue] at htext
    rw [← htext]
    exact ⟨hhtml, (hroom html).mp hfits⟩
  . intro ⟨hhtml, hlength⟩
    exact ⟨_, (writeHtml_eq_ok hnew).mpr ⟨text, hhtml, (hroom text).mpr hlength, rfl⟩, hvalue text⟩

end Render

end Pliego
