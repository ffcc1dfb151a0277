import Pliego.Lib.Fields

/-!
Readers of byte strings that keep a position, may refuse what they read and panic where an index is out of range.
-/

namespace ByteReader

open Bytes

def beNat (bytes : List UInt8) : Nat := bytes.foldl (fun n byte => 256 * n + byte.toNat) 0

theorem beNat_concat (bytes : List UInt8) (byte : UInt8) : beNat (bytes ++ [byte]) = 256 * beNat bytes + byte.toNat := by
  unfold beNat
  rw [List.foldl_append]
  rfl

theorem beNat_beBytes {w n : Nat} (hn : n < 256 ^ w) : beNat (beBytes w n) = n := by
  induction w generalizing n with
  | zero =>
    rw [Nat.pow_zero] at hn
    have hzero : n = 0 := by omega
    rw [hzero]
    rfl
  | succ w ih =>
    unfold beBytes
    rw [Nat.pow_succ] at hn
    have hhigh : n / 256 < 256 ^ w := by omega
    have hlow : (UInt8.ofNat n).toNat = n % 256 := UInt8.toNat_ofNat'
    rw [beNat_concat, ih hhigh, hlow]
    omega

theorem beNat_lt (bytes : List UInt8) : beNat bytes < 256 ^ bytes.length := by
  induction bytes using List.reverseRecOn with
  | nil => exact Nat.one_pos
  | append_singleton bytes byte ih =>
    have hbyte := byte.toNat_lt
    rw [beNat_concat, List.length_append, List.length_singleton, Nat.pow_succ]
    omega

theorem beBytes_beNat (bytes : List UInt8) : beBytes bytes.length (beNat bytes) = bytes := by
  induction bytes using List.reverseRecOn with
  | nil => rfl
  | append_singleton bytes byte ih =>
    have hbyte := byte.toNat_lt
    have hhigh : (256 * beNat bytes + byte.toNat) / 256 = beNat bytes := by omega
    have hlow : UInt8.ofNat (256 * beNat bytes + byte.toNat) = byte := by
      apply UInt8.toNat_inj.mp
      rw [UInt8.toNat_ofNat']
      omega
    rw [beNat_concat, List.length_append, List.length_singleton]
    unfold beBytes
    rw [hhigh, hlow, ih]

-- `bytes[start..stop]`; nothing is returned when it panics.
def slice (bytes : List UInt8) (start stop : Nat) : Option (List UInt8) :=
  if start ≤ stop ∧ stop ≤ bytes.length then some ((bytes.drop start).take (stop - start)) else none

def checkedAdd (a b : Nat) : Option Nat := if a + b < 2 ^ 64 then some (a + b) else none

structure Cursor where
  bytes : List UInt8
  offset : Nat

namespace Cursor

structure Good (cursor : Cursor) : Prop where
  inside : cursor.offset ≤ cursor.bytes.length
  small : cursor.bytes.length < 2 ^ 64

def rest (cursor : Cursor) : List UInt8 := cursor.bytes.drop cursor.offset

theorem Good.start {bytes : List UInt8} (h : bytes.length < 2 ^ 64) : Good ⟨bytes, 0⟩ := ⟨Nat.zero_le _, h⟩

end Cursor

-- Nothing is returned when the reader panics.
def Reader (ε α : Type) := Cursor → Option (Except ε (α × Cursor))

variable {ε α β : Type}

namespace Reader

def bind (read : Reader ε α) (next : α → Reader ε β) : Reader ε β := fun cursor =>
  match read cursor with
  | none => none
  | some (.error error) => some (.error error)
  | some (.ok (a, cursor)) => next a cursor

instance monad : Monad (Reader ε) where
  pure a := fun cursor => some (.ok (a, cursor))
  bind := bind

def ensure (condition : Bool) (error : ε) : Reader ε Unit := fun cursor =>
  if condition then some (.ok ((), cursor)) else some (.error error)

def ofOption (value : Option α) (error : ε) : Reader ε α := fun cursor =>
  match value with
  | none => some (.error error)
  | some value => some (.ok (value, cursor))

def take (len : Nat) (truncated : ε) : Reader ε (List UInt8) := fun cursor =>
  match (checkedAdd cursor.offset len).filter (fun stop => stop ≤ cursor.bytes.length) with
  | none => some (.error truncated)
  | some stop =>
    match slice cursor.bytes cursor.offset stop with
    | none => none
    | some value => some (.ok (value, ⟨cursor.bytes, stop⟩))

-- An array of known length from a slice, where another length panics.
def expectLength (len : Nat) (bytes : List UInt8) : Reader ε { bytes : List UInt8 // bytes.length = len } :=
  fun cursor => if h : bytes.length = len then some (.ok (⟨bytes, h⟩, cursor)) else none

def array (len : Nat) (truncated : ε) : Reader ε { bytes : List UInt8 // bytes.length = len } := do
  let bytes ← take len truncated
  expectLength len bytes

def be (w : Nat) (truncated : ε) : Reader ε Nat := do
  let bytes ← array w truncated
  return beNat bytes.val

end Reader

open Reader

structure Inverts (read : Reader ε α) (write : α → List UInt8) (valid : α → Prop) : Prop where
  inRange : ∀ cursor, cursor.Good → read cursor ≠ none
  sound : ∀ cursor a next, cursor.Good → read cursor = some (.ok (a, next)) →
    valid a ∧ next.Good ∧ cursor.rest = write a ++ next.rest
  complete : ∀ cursor a rest, cursor.Good → valid a → cursor.rest = write a ++ rest →
    ∃ next, read cursor = some (.ok (a, next)) ∧ next.Good ∧ next.rest = rest

theorem bind_eq {read : Reader ε α} {next : α → Reader ε β} {cursor after : Cursor} {a : α}
    (h : read cursor = some (.ok (a, after)))
    : (read >>= next) cursor = next a after := by
  change Reader.bind read next cursor = _
  unfold Reader.bind
  rw [h]

theorem bind_eq_ok {read : Reader ε α} {next : α → Reader ε β} {cursor last : Cursor} {b : β}
    (h : (read >>= next) cursor = some (.ok (b, last)))
    : ∃ a after, read cursor = some (.ok (a, after)) ∧ next a after = some (.ok (b, last)) := by
  change Reader.bind read next cursor = _ at h
  unfold Reader.bind at h
  cases hread : read cursor with
  | none =>
    rw [hread] at h
    cases h
  | some result =>
    rw [hread] at h
    cases result with
    | error error => cases h
    | ok pair => exact ⟨pair.1, pair.2, rfl, h⟩

theorem bind_ne_none {read : Reader ε α} {next : α → Reader ε β} {cursor : Cursor} (hread : read cursor ≠ none)
    (hnext : ∀ a after, read cursor = some (.ok (a, after)) → next a after ≠ none)
    : (read >>= next) cursor ≠ none := by
  change Reader.bind read next cursor ≠ _
  unfold Reader.bind
  cases hresult : read cursor with
  | none => exact absurd hresult hread
  | some result =>
    cases result with
    | error error => exact Option.some_ne_none _
    | ok pair => exact hnext pair.1 pair.2 hresult

theorem take_good {len : Nat} {truncated : ε} {cursor : Cursor} (hgood : cursor.Good)
    : take len truncated cursor =
        if cursor.offset + len ≤ cursor.bytes.length then
          some (.ok (cursor.rest.take len, ⟨cursor.bytes, cursor.offset + len⟩))
        else
          some (.error truncated) := by
  have hsmall := hgood.small
  unfold Reader.take checkedAdd
  by_cases hlen : cursor.offset + len ≤ cursor.bytes.length
  . have hslice : slice cursor.bytes cursor.offset (cursor.offset + len) = some (cursor.rest.take len) := by
      unfold slice Cursor.rest
      rw [if_pos ⟨Nat.le_add_right _ _, hlen⟩, Nat.add_sub_cancel_left]
    rw [if_pos hlen, if_pos (by omega), Option.filter_some_pos (by simpa using hlen)]
    dsimp only
    rw [hslice]
  . rw [if_neg hlen]
    have hnone : (if cursor.offset + len < 2 ^ 64 then some (cursor.offset + len) else none).filter
        (fun stop => decide (stop ≤ cursor.bytes.length)) = none := by
      split
      . exact Option.filter_some_neg (by simpa using hlen)
      . rfl
    rw [hnone]

namespace Inverts

theorem bind {read : Reader ε α} {next : α → Reader ε β} {write : α → List UInt8} {others : β → List UInt8}
    {valid : α → Prop} {v : β → Prop} {g : β → α} (hread : Inverts read write valid) (hv : ∀ b, v b → valid (g b))
    (hnext : ∀ a, valid a → Inverts (next a) others (fun b => g b = a ∧ v b))
    : Inverts (read >>= next) (fun b => write (g b) ++ others b) v where
  inRange := by
    intro cursor hgood
    apply bind_ne_none (hread.inRange cursor hgood)
    intro a after hok
    obtain ⟨hvalid, hafter, -⟩ := hread.sound cursor a after hgood hok
    exact (hnext a hvalid).inRange after hafter
  sound := by
    intro cursor b last hgood hok
    obtain ⟨a, after, hok, hrest⟩ := bind_eq_ok hok
    obtain ⟨hvalid, hafter, hbytes⟩ := hread.sound cursor a after hgood hok
    obtain ⟨⟨hfield, hb⟩, hlast, hothers⟩ := (hnext a hvalid).sound after b last hafter hrest
    refine ⟨hb, hlast, ?_⟩
    rw [hbytes, hothers, hfield, List.append_assoc]
  complete := by
    intro cursor b rest hgood hb hbytes
    rw [List.append_assoc] at hbytes
    obtain ⟨after, hok, hafter, hothers⟩ := hread.complete cursor (g b) _ hgood (hv b hb) hbytes
    obtain ⟨last, hlast, hend⟩ := (hnext (g b) (hv b hb)).complete after b rest hafter ⟨rfl, hb⟩ hothers
    exact ⟨last, (bind_eq hok).trans hlast, hend⟩

theorem pure {b : β} {v : β → Prop} (hb : v b) (honly : ∀ other, v other → other = b)
    : Inverts (pure b : Reader ε β) (fun _ => []) v where
  inRange := by
    intro cursor hgood
    exact Option.some_ne_none _
  sound := by
    intro cursor a next hgood hok
    cases hok
    exact ⟨hb, hgood, rfl⟩
  complete := by
    intro cursor a rest hgood ha hbytes
    rw [honly a ha]
    exact ⟨cursor, rfl, hgood, hbytes⟩

theorem ensure (condition : Bool) (error : ε)
    : Inverts (ensure condition error) (fun _ => []) (fun _ => condition = true) where
  inRange := by
    intro cursor hgood
    unfold Reader.ensure
    cases condition with
    | true => exact Option.some_ne_none _
    | false => exact Option.some_ne_none _
  sound := by
    intro cursor a next hgood hok
    unfold Reader.ensure at hok
    cases condition with
    | true =>
      cases hok
      exact ⟨rfl, hgood, rfl⟩
    | false => cases hok
  complete := by
    intro cursor a rest hgood hcondition hbytes
    unfold Reader.ensure
    rw [hcondition]
    exact ⟨cursor, rfl, hgood, hbytes⟩

theorem ofOption {value : Option α} {error : ε} {v : α → Prop} (hvalue : ∀ a, value = some a ↔ v a)
    : Inverts (ofOption value error) (fun _ => []) v where
  inRange := by
    intro cursor hgood
    unfold Reader.ofOption
    cases value with
    | none => exact Option.some_ne_none _
    | some a => exact Option.some_ne_none _
  sound := by
    intro cursor a next hgood hok
    unfold Reader.ofOption at hok
    cases value with
    | none => cases hok
    | some b =>
      cases hok
      exact ⟨(hvalue a).mp rfl, hgood, rfl⟩
  complete := by
    intro cursor a rest hgood ha hbytes
    unfold Reader.ofOption
    rw [(hvalue a).mpr ha]
    exact ⟨cursor, rfl, hgood, hbytes⟩

theorem take (len : Nat) (truncated : ε)
    : Inverts (take len truncated) (fun bytes => bytes) (fun bytes => bytes.length = len) where
  inRange := by
    intro cursor hgood
    rw [take_good hgood]
    split
    . exact Option.some_ne_none _
    . exact Option.some_ne_none _
  sound := by
    intro cursor bytes next hgood hok
    rw [take_good hgood] at hok
    split at hok
    . next hlen =>
      cases hok
      refine ⟨?_, ⟨hlen, hgood.small⟩, ?_⟩
      . unfold Cursor.rest
        rw [List.length_take, List.length_drop]
        omega
      . unfold Cursor.rest
        dsimp only
        rw [← List.drop_drop, List.take_append_drop]
    . cases hok
  complete := by
    intro cursor bytes rest hgood hlen hbytes
    have hinside : cursor.offset + len ≤ cursor.bytes.length := by
      have hlength := congrArg List.length hbytes
      unfold Cursor.rest at hlength
      rw [List.length_drop, List.length_append] at hlength
      have hoffset := hgood.inside
      omega
    refine ⟨⟨cursor.bytes, cursor.offset + len⟩, ?_, ⟨hinside, hgood.small⟩, ?_⟩
    . rw [take_good hgood, if_pos hinside, hbytes, List.take_left' hlen]
    . unfold Cursor.rest at hbytes ⊢
      dsimp only
      rw [← List.drop_drop, hbytes, List.drop_left' hlen]

theorem congr {read : Reader ε α} {write write' : α → List UInt8} {valid : α → Prop} (h : Inverts read write valid)
    (hwrite : ∀ a, write a = write' a)
    : Inverts read write' valid := by
  have hsame : write = write' := funext hwrite
  rw [← hsame]
  exact h

theorem array (len : Nat) (truncated : ε)
    : Inverts (array len truncated) (fun bytes => bytes.val) (fun _ => True) := by
  have hexpect : ∀ bytes : List UInt8, bytes.length = len →
      Inverts (expectLength len bytes : Reader ε _) (fun _ => []) (fun array => array.val = bytes ∧ True) := by
    intro bytes hlen
    have hpure : (expectLength len bytes : Reader ε _) = Pure.pure ⟨bytes, hlen⟩ := by
      funext cursor
      unfold expectLength
      rw [dif_pos hlen]
      rfl
    rw [hpure]
    apply Inverts.pure
    . exact ⟨rfl, trivial⟩
    . intro other hother
      exact Subtype.ext hother.1
  apply (Inverts.bind (take len truncated) (fun array _ => array.property) hexpect).congr
  intro array
  exact List.append_nil _

theorem be (w : Nat) (truncated : ε) : Inverts (be w truncated) (beBytes w) (fun n => n < 256 ^ w) := by
  have hnumber : ∀ bytes : { bytes : List UInt8 // bytes.length = w }, True →
      Inverts (Pure.pure (beNat bytes.val) : Reader ε Nat) (fun _ => [])
        (fun n => ⟨beBytes w n, beBytes_length w n⟩ = bytes ∧ n < 256 ^ w) := by
    intro array _
    obtain ⟨bytes, hlength⟩ := array
    subst hlength
    apply Inverts.pure
    . exact ⟨Subtype.ext (beBytes_beNat bytes), beNat_lt bytes⟩
    . intro n hn
      rw [← hn.1]
      exact (beNat_beBytes hn.2).symm
  apply (Inverts.bind (array w truncated) (fun _ _ => trivial) hnumber).congr
  intro n
  exact List.append_nil _

theorem unique {read : Reader ε α} {write : α → List UInt8} {valid : α → Prop} (h : Inverts read write valid)
    {a b : α} {x y : List UInt8} (ha : valid a) (hb : valid b) (hsmall : (write a ++ x).length < 2 ^ 64)
    (hsame : write a ++ x = write b ++ y)
    : a = b ∧ x = y := by
  have hgood := Cursor.Good.start hsmall
  obtain ⟨next, hok, -, hrest⟩ := h.complete ⟨write a ++ x, 0⟩ a x hgood ha rfl
  obtain ⟨next', hok', -, hrest'⟩ := h.complete ⟨write a ++ x, 0⟩ b y hgood hb hsame
  rw [hok] at hok'
  cases hok'
  exact ⟨rfl, hrest.symm.trans hrest'⟩

end Inverts

end ByteReader
