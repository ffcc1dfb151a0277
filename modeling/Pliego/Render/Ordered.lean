import Pliego.Lib.Polled
import Pliego.Render.Bounded

/-!
The ordered body stream of `pliego-runtime`: a prefix, the renderings of the chunks of an input stream in their order,
and a suffix, within one limit on the bytes of the whole.
-/

namespace Pliego

open Bytes
open Polled

namespace Render

structure OrderedViewChunk where
  factory : Caught (Except ServerRenderError View)

-- `chunk.render()` and `render_view` in the plain mode, under one `catch_unwind`.
def OrderedViewChunk.render (chunk : OrderedViewChunk) (limits : RenderLimits)
    : Caught (Except ServerRenderError String) :=
  match chunk.factory with
  | .panicked => .panicked
  | .returned (.error error) => .returned (.error error)
  | .returned (.ok view) =>
    match tryRenderHtml view limits with
    | .panicked => .panicked
    | .returned (.error error) => .returned (.error (.dom error))
    | .returned (.ok rendered) => .returned (.ok rendered)

def OrderedViewChunk.html (chunk : OrderedViewChunk) (limits : RenderLimits) : Option String :=
  match chunk.factory with
  | .returned (.ok view) => View.html view limits.maxDepth limits.maxNodes
  | _ => none

theorem OrderedViewChunk.render_eq_ok {chunk : OrderedViewChunk} {limits : RenderLimits} {text : String}
    : chunk.render limits = .returned (.ok text)
      ↔ chunk.html limits = some text ∧ (utf8 text).length ≤ limits.maxOutputBytes := by
  unfold OrderedViewChunk.render OrderedViewChunk.html
  cases chunk.factory with
  | panicked => simp
  | returned result =>
    cases result with
    | error error => simp
    | ok view =>
      dsimp only
      rw [← tryRenderHtml_eq_ok]
      cases tryRenderHtml view limits with
      | panicked => simp
      | returned result => cases result <;> simp

def OrderedViewChunk.renderWithin (chunk : OrderedViewChunk) (limits : RenderLimits) (remaining : Nat)
    (panicked : ServerRenderError) : Except ServerRenderError String :=
  match RenderLimits.new limits.maxDepth limits.maxNodes remaining with
  | .error error => .error (.invalidLimits error)
  | .ok limits =>
    match chunk.render limits with
    | .panicked => .error panicked
    | .returned result => result

theorem OrderedViewChunk.renderWithin_eq_ok {chunk : OrderedViewChunk} {limits : RenderLimits} {remaining : Nat}
    {panicked : ServerRenderError} {text : String} (hroom : remaining ≤ limits.maxOutputBytes)
    : chunk.renderWithin limits remaining panicked = .ok text
      ↔ chunk.html limits = some text ∧ (utf8 text).length ≤ remaining := by
  obtain ⟨left, hleft, hdepth, hnodes, houtput⟩ := limits.new_of_le hroom
  have hhtml : chunk.html left = chunk.html limits := by
    unfold OrderedViewChunk.html
    rw [hdepth, hnodes]
  unfold OrderedViewChunk.renderWithin
  rw [hleft, ← hhtml, ← houtput, ← OrderedViewChunk.render_eq_ok]
  dsimp only
  cases chunk.render left with
  | panicked => simp
  | returned result => simp

abbrev Frame := Except ServerRenderError (List UInt8)

structure OrderedRenderOptions where
  limits : RenderLimits
  maxChunks : Nat
  status : Nat
  chunks_pos : 0 < maxChunks
  chunks_le : maxChunks ≤ 4096

inductive OrderedPhase where
  | prefixed
  | chunks
  | suffixed
  | done
  deriving DecidableEq

inductive InputPoll where
  | pending
  | ready (chunk : OrderedViewChunk)
  | panicked

structure OrderedBodyStream where
  input : List InputPoll
  phase : OrderedPhase
  prefixBytes : Option (List UInt8)
  suffixBytes : Option (List UInt8)
  remaining : Nat
  chunks : Nat
  options : OrderedRenderOptions

namespace OrderedBodyStream

def takePrefix (state : OrderedBodyStream) : Poll Frame × OrderedBodyStream :=
  (match state.prefixBytes with | some bytes => .item (.ok bytes) | none => .done,
    { state with phase := .chunks, prefixBytes := none })

def takeSuffix (state : OrderedBodyStream) : Poll Frame × OrderedBodyStream :=
  (match state.suffixBytes with | some bytes => .item (.ok bytes) | none => .done,
    { state with phase := .done, suffixBytes := none })

def fail (state : OrderedBodyStream) (error : ServerRenderError) : Poll Frame × OrderedBodyStream :=
  (.item (.error error), { state with phase := .done })

-- The loop in the phase of the chunks, over what is left of the input.
def pollChunks (state : OrderedBodyStream) (input : List InputPoll) : Poll Frame × OrderedBodyStream :=
  match input with
  | [] => { state with input := [], phase := .suffixed }.takeSuffix
  | .pending :: rest => (.pending, { state with input := rest })
  | .panicked :: rest => { state with input := rest }.fail .orderedStreamPanic
  | .ready chunk :: rest =>
    let state := { state with input := rest, chunks := state.chunks + 1 }
    if state.options.maxChunks < state.chunks then
      state.fail (.tooManyChunks state.options.maxChunks)
    else
      match chunk.renderWithin state.options.limits state.remaining .orderedChunkPanic with
      | .error error => state.fail error
      | .ok rendered =>
        -- `state.remaining -= rendered.len()` panics where it would go below zero.
        if state.remaining < (utf8 rendered).length then
          (.panicked, state)
        else
          let state := { state with remaining := state.remaining - (utf8 rendered).length }
          if rendered = "" then state.pollChunks rest else (.item (.ok (utf8 rendered)), state)

def pollNext (state : OrderedBodyStream) : Poll Frame × OrderedBodyStream :=
  match state.phase with
  | .prefixed => state.takePrefix
  | .chunks => state.pollChunks state.input
  | .suffixed => state.takeSuffix
  | .done => (.done, state)

def machine : Machine OrderedBodyStream Empty Frame where
  poll := pollNext
  event := fun state _ => state

end OrderedBodyStream

def isInformational (status : Nat) : Bool := 100 ≤ status && status < 200

def validateBodyStatus (status : Nat) : Except ServerRenderError Unit :=
  if isInformational status || status = 204 || status = 205 || status = 304 then
    .error (.invalidResponseStatus status)
  else
    .ok ()

-- `usize` has 64 bits.
def checkedAdd (a b : Nat) : Option Nat :=
  if a + b < 2 ^ 64 then some (a + b) else none

def checkedSub (a b : Nat) : Option Nat :=
  if b ≤ a then some (a - b) else none

theorem checkedAdd_eq_some {a b c : Nat} (h : checkedAdd a b = some c)
    : c = a + b := by
  unfold checkedAdd at h
  split at h
  . exact (Option.some.inj h).symm
  . cases h

theorem checkedSub_eq_some {a b c : Nat} (h : checkedSub a b = some c)
    : c + b = a := by
  unfold checkedSub at h
  split at h
  . next hle =>
    rw [← Option.some.inj h]
    omega
  . cases h

def orderedResponse (prefixText suffixText : String) (chunks : List InputPoll) (options : OrderedRenderOptions)
    : Except ServerRenderError OrderedBodyStream := do
  validateBodyStatus options.status
  match checkedAdd (utf8 prefixText).length (utf8 suffixText).length with
  | none => .error .outputLimitTooSmall
  | some overhead =>
    match checkedSub options.limits.maxOutputBytes overhead with
    | none => .error .outputLimitTooSmall
    | some remaining => .ok {
        input := chunks
        phase := .prefixed
        prefixBytes := some (utf8 prefixText)
        suffixBytes := some (utf8 suffixText)
        remaining := remaining
        chunks := 0
        options := options }

def accepted (room : Nat) (elements : List (Option String)) : List String :=
  match elements with
  | some text :: rest =>
    if (utf8 text).length ≤ room then text :: accepted (room - (utf8 text).length) rest else []
  | none :: _ => []
  | [] => []

-- An empty rendering puts no frame out.
def frameOf (text : String) : List Frame :=
  if text = "" then [] else [.ok (utf8 text)]

def InputPoll.element (limits : RenderLimits) (poll : InputPoll) : Option (Option String) :=
  match poll with
  | .pending => none
  | .ready chunk => some (chunk.html limits)
  | .panicked => some none

-- What the polls of the input stand for: `none` is an element that fails.
def elements (limits : RenderLimits) (input : List InputPoll) : List (Option String) :=
  input.filterMap (·.element limits)

def owedChunks (options : OrderedRenderOptions) (suffixBytes : List UInt8) (remaining chunks : Nat)
    (input : List InputPoll) : List Frame :=
  match input with
  | [] => [.ok suffixBytes]
  | .pending :: rest => owedChunks options suffixBytes remaining chunks rest
  | .panicked :: _ => [.error .orderedStreamPanic]
  | .ready chunk :: rest =>
    if options.maxChunks < chunks + 1 then
      [.error (.tooManyChunks options.maxChunks)]
    else
      match chunk.renderWithin options.limits remaining .orderedChunkPanic with
      | .error error => [.error error]
      | .ok rendered =>
        frameOf rendered
          ++ owedChunks options suffixBytes (remaining - (utf8 rendered).length) (chunks + 1) rest

namespace OrderedBodyStream

def owed (state : OrderedBodyStream) : List Frame :=
  let suffixBytes := state.suffixBytes.getD []
  let body := owedChunks state.options suffixBytes state.remaining state.chunks state.input
  match state.phase with
  | .prefixed => .ok (state.prefixBytes.getD []) :: body
  | .chunks => body
  | .suffixed => [.ok suffixBytes]
  | .done => []

structure Inv (state : OrderedBodyStream) : Prop where
  room : state.remaining ≤ state.options.limits.maxOutputBytes
  first : state.phase = .prefixed → state.prefixBytes.isSome
  last : state.phase ≠ .done → state.suffixBytes.isSome

theorem Inv.fail {state : OrderedBodyStream} (h : state.Inv) (error : ServerRenderError)
    : (state.fail error).2.Inv ∧ Answers (state.fail error).1 [.error error] (state.fail error).2.owed := by
  constructor
  . exact ⟨h.room, nofun, fun hphase => absurd rfl hphase⟩
  . rfl

theorem Inv.takeSuffix {state : OrderedBodyStream} (h : state.Inv) (hphase : state.phase ≠ .done)
    : state.takeSuffix.2.Inv
      ∧ Answers state.takeSuffix.1 [.ok (state.suffixBytes.getD [])] state.takeSuffix.2.owed := by
  obtain ⟨bytes, hbytes⟩ := Option.isSome_iff_exists.mp (h.last hphase)
  constructor
  . exact ⟨h.room, nofun, fun hdone => absurd rfl hdone⟩
  . unfold OrderedBodyStream.takeSuffix
    rw [hbytes]
    rfl

theorem Inv.takePrefix {state : OrderedBodyStream} (h : state.Inv) (hphase : state.phase = .prefixed)
    : state.takePrefix.2.Inv ∧ Answers state.takePrefix.1 state.owed state.takePrefix.2.owed := by
  obtain ⟨bytes, hbytes⟩ := Option.isSome_iff_exists.mp (h.first hphase)
  constructor
  . exact ⟨h.room, nofun, fun _ => h.last (by rw [hphase]; nofun)⟩
  . unfold OrderedBodyStream.takePrefix OrderedBodyStream.owed
    rw [hphase, hbytes]
    rfl

theorem Inv.pollChunks {state : OrderedBodyStream} (h : state.Inv) (hphase : state.phase = .chunks)
    (input : List InputPoll)
    : (state.pollChunks input).2.Inv
      ∧ Answers (state.pollChunks input).1
          (owedChunks state.options (state.suffixBytes.getD []) state.remaining state.chunks input)
          (state.pollChunks input).2.owed := by
  have hrunning : state.phase ≠ .done := by
    rw [hphase]
    nofun
  have hunprefixed : state.phase ≠ .prefixed := by
    rw [hphase]
    nofun
  induction input generalizing state with
  | nil =>
    have hended : Inv { state with input := [], phase := .suffixed } :=
      ⟨h.room, nofun, fun _ => h.last hrunning⟩
    exact hended.takeSuffix nofun
  | cons poll rest ih =>
    have hread : Inv { state with input := rest } := ⟨h.room, fun hfirst => absurd hfirst hunprefixed, fun _ => h.last hrunning⟩
    cases poll with
    | pending =>
      refine ⟨hread, ?_⟩
      unfold OrderedBodyStream.pollChunks owedChunks OrderedBodyStream.owed
      dsimp only
      rw [hphase]
      rfl
    | panicked => exact hread.fail _
    | ready chunk =>
      have hcounted : Inv { state with input := rest, chunks := state.chunks + 1 } :=
        ⟨h.room, fun hfirst => absurd hfirst hunprefixed, fun _ => h.last hrunning⟩
      unfold OrderedBodyStream.pollChunks owedChunks
      dsimp only
      split
      . exact hcounted.fail _
      . cases hrendered : chunk.renderWithin state.options.limits state.remaining .orderedChunkPanic with
        | error error => exact hcounted.fail _
        | ok rendered =>
          dsimp only
          have hroom := (OrderedViewChunk.renderWithin_eq_ok h.room).mp hrendered |>.2
          rw [if_neg (Nat.not_lt.mpr hroom)]
          have hspent : Inv { state with
              input := rest, chunks := state.chunks + 1, remaining := state.remaining - (utf8 rendered).length } :=
            ⟨Nat.le_trans (Nat.sub_le _ _) h.room, fun hfirst => absurd hfirst hunprefixed, fun _ => h.last hrunning⟩
          unfold frameOf
          split
          . exact ih hspent hphase hrunning hunprefixed
          . refine ⟨hspent, ?_⟩
            unfold OrderedBodyStream.owed
            dsimp only
            rw [hphase]
            rfl

theorem owes : machine.Owes Inv owed where
  event := fun _ impossible => nomatch impossible
  poll := by
    intro state h
    change state.pollNext.2.Inv ∧ Answers state.pollNext.1 state.owed state.pollNext.2.owed
    unfold pollNext
    cases hphase : state.phase with
    | prefixed => exact h.takePrefix hphase
    | chunks =>
      have howed : state.owed
          = owedChunks state.options (state.suffixBytes.getD []) state.remaining state.chunks state.input := by
        unfold owed
        rw [hphase]
      rw [howed]
      exact h.pollChunks hphase state.input
    | suffixed =>
      have howed : state.owed = [.ok (state.suffixBytes.getD [])] := by
        unfold owed
        rw [hphase]
      rw [howed]
      exact h.takeSuffix (by rw [hphase]; nofun)
    | done =>
      refine ⟨h, ?_⟩
      have howed : state.owed = [] := by
        unfold owed
        rw [hphase]
      exact ⟨howed, howed⟩

end OrderedBodyStream

def frameBytes (frame : Frame) : Nat :=
  match frame with
  | .ok bytes => bytes.length
  | .error _ => 0

def frameTotal (frames : List Frame) : Nat :=
  (frames.map frameBytes).sum

theorem frameTotal_append (first last : List Frame)
    : frameTotal (first ++ last) = frameTotal first + frameTotal last := by
  unfold frameTotal
  rw [List.map_append, List.sum_append]

theorem frameTotal_take_le (frames : List Frame) (n : Nat)
    : frameTotal (frames.take n) ≤ frameTotal frames := by
  conv_rhs => rw [← List.take_append_drop n frames]
  rw [frameTotal_append]
  omega

theorem frameTotal_frameOf (text : String)
    : frameTotal (frameOf text) = (utf8 text).length := by
  unfold frameOf
  split
  . next hempty =>
    rw [hempty]
    rfl
  . rfl

theorem frameTotal_flatMap (texts : List String)
    : frameTotal (texts.flatMap frameOf) = (texts.map (fun text => (utf8 text).length)).sum := by
  induction texts with
  | nil => rfl
  | cons text rest ih => rw [List.flatMap_cons, frameTotal_append, frameTotal_frameOf, ih, List.map_cons, List.sum_cons]

theorem frameTotal_cons (frame : Frame) (rest : List Frame)
    : frameTotal (frame :: rest) = frameBytes frame + frameTotal rest := by
  unfold frameTotal
  rw [List.map_cons, List.sum_cons]

theorem accepted_some {text : String} {room : Nat} (h : (utf8 text).length ≤ room) (rest : List (Option String))
    : accepted room (some text :: rest) = text :: accepted (room - (utf8 text).length) rest := by
  conv_lhs => unfold accepted
  rw [if_pos h]

theorem accepted_total (room : Nat) (elements : List (Option String))
    : ((accepted room elements).map (fun text => (utf8 text).length)).sum ≤ room := by
  induction elements generalizing room with
  | nil => exact Nat.zero_le _
  | cons element rest ih =>
    cases element with
    | none => exact Nat.zero_le _
    | some text =>
      unfold accepted
      split
      . next hroom =>
        have hrest := ih (room - (utf8 text).length)
        rw [List.map_cons, List.sum_cons]
        omega
      . exact Nat.zero_le _

-- The last frame: the suffix where every element was accepted, or the error at the first one that was not.
def Ends (suffixBytes : List UInt8) (texts : List String) (elements : List (Option String)) (last : Frame) : Prop :=
  (texts.length = elements.length ∧ last = .ok suffixBytes)
    ∨ (texts.length < elements.length ∧ ∃ error, last = .error error)

theorem Ends.frameBytes_le {suffixBytes : List UInt8} {texts : List String} {elements : List (Option String)}
    {last : Frame} (h : Ends suffixBytes texts elements last)
    : frameBytes last ≤ suffixBytes.length := by
  obtain ⟨_, rfl⟩ | ⟨_, _, rfl⟩ := h
  . apply Nat.le_refl
  . apply Nat.zero_le

-- The polls have handed out the frames in their order, one by each poll that did not have to wait, and no more.
structure Hands (polls : List (Poll Frame)) (frames : List Frame) (limit : Nat) : Prop where
  order : delivered polls = frames.take (answers polls)
  total : frameTotal (delivered polls) ≤ limit
  unpanicked : .panicked ∉ polls

theorem Ends.cons {suffixBytes : List UInt8} {texts : List String} {elements : List (Option String)} {last : Frame}
    (h : Ends suffixBytes texts elements last) (text : String) (element : Option String)
    : Ends suffixBytes (text :: texts) (element :: elements) last := by
  cases h with
  | inl hall => exact .inl ⟨by rw [List.length_cons, List.length_cons, hall.1], hall.2⟩
  | inr hsome => exact .inr ⟨by rw [List.length_cons, List.length_cons]; exact Nat.succ_lt_succ hsome.1, hsome.2⟩

theorem accepted_of_error {chunk : OrderedViewChunk} {limits : RenderLimits} {remaining : Nat}
    {panicked error : ServerRenderError} (hroom : remaining ≤ limits.maxOutputBytes)
    (h : chunk.renderWithin limits remaining panicked = .error error) (rest : List (Option String))
    : accepted remaining (chunk.html limits :: rest) = [] := by
  cases hhtml : chunk.html limits with
  | none => rfl
  | some text =>
    unfold accepted
    split
    . next hfits =>
      rw [(OrderedViewChunk.renderWithin_eq_ok hroom).mpr ⟨hhtml, hfits⟩] at h
      cases h
    . rfl

theorem owedChunks_eq (options : OrderedRenderOptions) (suffixBytes : List UInt8) {remaining : Nat}
    (hroom : remaining ≤ options.limits.maxOutputBytes) (chunks : Nat) (input : List InputPoll)
    : ∃ last, owedChunks options suffixBytes remaining chunks input
          = (accepted remaining ((elements options.limits input).take (options.maxChunks - chunks))).flatMap frameOf ++ [last]
        ∧ Ends suffixBytes (accepted remaining ((elements options.limits input).take (options.maxChunks - chunks)))
          (elements options.limits input) last := by
  induction input generalizing remaining chunks with
  | nil =>
    have hnone : accepted remaining ((elements options.limits []).take (options.maxChunks - chunks)) = [] := by
      rw [show elements options.limits [] = [] from rfl, List.take_nil]
      rfl
    rw [hnone]
    exact ⟨.ok suffixBytes, rfl, .inl ⟨rfl, rfl⟩⟩
  | cons poll rest ih =>
    cases poll with
    | pending => exact ih hroom chunks
    | panicked =>
      have helements : elements options.limits (.panicked :: rest) = none :: elements options.limits rest := rfl
      have hnone : accepted remaining ((none :: elements options.limits rest).take (options.maxChunks - chunks)) = [] := by
        cases options.maxChunks - chunks <;> rfl
      rw [helements, hnone]
      exact ⟨_, rfl, .inr ⟨Nat.succ_pos _, _, rfl⟩⟩
    | ready chunk =>
      have helements : elements options.limits (.ready chunk :: rest)
          = chunk.html options.limits :: elements options.limits rest := rfl
      rw [helements]
      unfold owedChunks
      by_cases hmany : options.maxChunks < chunks + 1
      . rw [if_pos hmany, show options.maxChunks - chunks = 0 by omega, List.take_zero]
        exact ⟨_, rfl, .inr ⟨Nat.succ_pos _, _, rfl⟩⟩
      . rw [if_neg hmany, show options.maxChunks - chunks = options.maxChunks - (chunks + 1) + 1 by omega,
          List.take_succ_cons]
        cases hrendered : chunk.renderWithin options.limits remaining .orderedChunkPanic with
        | error error =>
          rw [accepted_of_error hroom hrendered]
          exact ⟨_, rfl, .inr ⟨Nat.succ_pos _, _, rfl⟩⟩
        | ok rendered =>
          obtain ⟨hhtml, hfits⟩ := (OrderedViewChunk.renderWithin_eq_ok hroom).mp hrendered
          obtain ⟨last, howed, hends⟩ := ih (Nat.le_trans (Nat.sub_le remaining (utf8 rendered).length) hroom) (chunks + 1)
          refine ⟨last, ?_, ?_⟩
          . dsimp only
            rw [howed, hhtml, accepted_some hfits, List.flatMap_cons, List.append_assoc]
          . rw [hhtml, accepted_some hfits]
            exact hends.cons rendered (some rendered)

def InputPoll.isPending (poll : InputPoll) : Bool :=
  match poll with
  | .pending => true
  | _ => false

namespace OrderedBodyStream

def waits (state : OrderedBodyStream) : Nat := state.input.countP (·.isPending)

variable (state : OrderedBodyStream)

theorem takePrefix_ready
    : state.takePrefix.1 ≠ .pending := by
  unfold takePrefix
  cases state.prefixBytes <;> nofun

theorem takeSuffix_ready
    : state.takeSuffix.1 ≠ .pending := by
  unfold takeSuffix
  cases state.suffixBytes <;> nofun

theorem pollChunks_waits (input : List InputPoll)
    : (state.pollChunks input).2.waits + (if (state.pollChunks input).1 = .pending then 1 else 0)
        ≤ input.countP (·.isPending) := by
  induction input generalizing state with
  | nil =>
    unfold pollChunks
    rw [if_neg (takeSuffix_ready _)]
    apply Nat.le_refl
  | cons poll rest ih =>
    cases poll with
    | pending =>
      rw [List.countP_cons]
      apply Nat.le_refl
    | panicked =>
      rw [List.countP_cons]
      apply Nat.le_refl
    | ready chunk =>
      rw [List.countP_cons]
      change _ ≤ rest.countP (·.isPending)
      unfold pollChunks
      dsimp only
      split
      . apply Nat.le_refl
      . split
        . apply Nat.le_refl
        . split
          . apply Nat.le_refl
          . split
            . apply ih
            . apply Nat.le_refl

theorem pollNext_waits
    : state.pollNext.2.waits + (if state.pollNext.1 = .pending then 1 else 0) ≤ state.waits := by
  unfold pollNext
  cases state.phase with
  | prefixed =>
    dsimp only
    rw [if_neg (takePrefix_ready state)]
    apply Nat.le_refl
  | chunks => exact pollChunks_waits state state.input
  | suffixed =>
    dsimp only
    rw [if_neg (takeSuffix_ready state)]
    apply Nat.le_refl
  | done => apply Nat.le_refl

theorem run_waits (labels : List (Label Empty))
    : (machine.run state labels).1.length ≤ answers (machine.run state labels).1 + state.waits := by
  induction labels generalizing state with
  | nil => apply Nat.zero_le
  | cons label rest ih =>
    cases label with
    | event impossible => cases impossible
    | poll =>
      have hrest := ih state.pollNext.2
      have hpoll := pollNext_waits state
      change (state.pollNext.1 :: (machine.run state.pollNext.2 rest).1).length
        ≤ answers (state.pollNext.1 :: (machine.run state.pollNext.2 rest).1) + state.waits
      rw [List.length_cons]
      split at hpoll
      . next hpending =>
        rw [hpending]
        change _ ≤ answers (machine.run state.pollNext.2 rest).1 + state.waits
        omega
      . next hready =>
        rw [answers_cons hready]
        omega

variable {prefixText suffixText : String} {input : List InputPoll} {options : OrderedRenderOptions}
    {stream : OrderedBodyStream}

theorem orderedResponse_eq_ok (h : orderedResponse prefixText suffixText input options = .ok stream)
    : ∃ remaining, (utf8 prefixText).length + (utf8 suffixText).length + remaining = options.limits.maxOutputBytes
        ∧ stream = ⟨input, .prefixed, some (utf8 prefixText), some (utf8 suffixText), remaining, 0, options⟩ := by
  unfold orderedResponse at h
  obtain ⟨⟨⟩, _, h⟩ := Except.bind_eq_ok.mp h
  cases hsum : checkedAdd (utf8 prefixText).length (utf8 suffixText).length with
  | none =>
    rw [hsum] at h
    cases h
  | some overhead =>
    rw [hsum] at h
    dsimp only at h
    cases hleft : checkedSub options.limits.maxOutputBytes overhead with
    | none =>
      rw [hleft] at h
      cases h
    | some remaining =>
      rw [hleft] at h
      cases h
      have hoverhead := checkedAdd_eq_some hsum
      have hremaining := checkedSub_eq_some hleft
      exact ⟨remaining, by omega, rfl⟩

-- What the polls of an ordered stream hand out: the prefix, the accepted renderings and its end. A poll makes the consumer
-- wait only where the input does.
def Delivery (prefixText suffixText : String) (input : List InputPoll) (options : OrderedRenderOptions)
    (polls : List (Poll Frame)) : Prop :=
  let declared := elements options.limits input
  let texts := accepted (options.limits.maxOutputBytes - ((utf8 prefixText).length + (utf8 suffixText).length))
    (declared.take options.maxChunks)
  ∃ last, Ends (utf8 suffixText) texts declared last
    ∧ Hands polls (.ok (utf8 prefixText) :: (texts.flatMap frameOf ++ [last])) options.limits.maxOutputBytes
    ∧ polls.length ≤ answers polls + input.countP (·.isPending)

theorem run_delivery (h : orderedResponse prefixText suffixText input options = .ok stream) (labels : List (Label Empty))
    : Delivery prefixText suffixText input options (machine.run stream labels).1 := by
  unfold Delivery
  dsimp only
  obtain ⟨remaining, hroom, rfl⟩ := orderedResponse_eq_ok h
  rw [show options.limits.maxOutputBytes - ((utf8 prefixText).length + (utf8 suffixText).length) = remaining by omega]
  have hinv : Inv ⟨input, .prefixed, some (utf8 prefixText), some (utf8 suffixText), remaining, 0, options⟩ :=
    ⟨by dsimp only; omega, fun _ => rfl, fun _ => rfl⟩
  have hleft : remaining ≤ options.limits.maxOutputBytes := by omega
  obtain ⟨last, howed, hends⟩ := owedChunks_eq options (utf8 suffixText) hleft 0 input
  rw [Nat.sub_zero] at howed hends
  refine ⟨last, hends, ⟨?_, ?_, owes.run_panicked labels hinv⟩, run_waits _ labels⟩
  . rw [owes.run_take labels hinv, ← howed]
    rfl
  . rw [owes.run_take labels hinv]
    apply Nat.le_trans (frameTotal_take_le _ _)
    have htexts := accepted_total remaining ((elements options.limits input).take options.maxChunks)
    have hlast := hends.frameBytes_le
    change frameTotal (.ok (utf8 prefixText) :: owedChunks options (utf8 suffixText) remaining 0 input) ≤ _
    rw [howed, frameTotal_cons, frameTotal_append, frameTotal_flatMap, frameTotal_cons]
    change (utf8 prefixText).length + (_ + (frameBytes last + 0)) ≤ _
    omega

end OrderedBodyStream

end Render

end Pliego
