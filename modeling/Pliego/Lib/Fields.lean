import Pliego.Lib.Bytes

/-!
Writers of byte strings that may refuse a value.
-/

theorem Except.bind_eq_ok {ε α β : Type} {x : Except ε α} {f : α → Except ε β} {b : β}
    : x >>= f = .ok b ↔ ∃ a, x = .ok a ∧ f a = .ok b := by
  cases x with
  | error e =>
    constructor
    . intro h
      cases h
    . rintro ⟨a, h, -⟩
      cases h
  | ok a =>
    constructor
    . intro h
      exact ⟨a, rfl, h⟩
    . rintro ⟨a', h, hf⟩
      cases h
      exact hf

theorem Except.bind_unit_eq_ok {ε β : Type} {x : Except ε Unit} {f : Unit → Except ε β} {b : β}
    : x >>= f = .ok b ↔ x = .ok () ∧ f () = .ok b := by
  rw [Except.bind_eq_ok]
  constructor
  . rintro ⟨⟨⟩, hx, hf⟩
    exact ⟨hx, hf⟩
  . rintro ⟨hx, hf⟩
    exact ⟨(), hx, hf⟩

theorem Except.forM_eq_ok {ε α : Type} {values : List α} {f : α → Except ε Unit}
    : values.forM f = .ok () ↔ ∀ value ∈ values, f value = .ok () := by
  induction values with
  | nil => simp [pure, Except.pure]
  | cons value values ih =>
    rw [List.forall_mem_cons, ← ih]
    exact Except.bind_unit_eq_ok

theorem Except.foldlM_sim {ε ε' α β γ : Type} {f : β → α → Except ε β} {g : γ → α → Except ε' γ}
    {R : β → γ → Prop} {values : List α} (hstep : ∀ value ∈ values, ∀ b c b', R b c → f b value = .ok b' →
      ∃ c', g c value = .ok c' ∧ R b' c')
    {b b' : β} {c : γ} (hstart : R b c) (h : values.foldlM f b = .ok b')
    : ∃ c', values.foldlM g c = .ok c' ∧ R b' c' := by
  induction values generalizing b c with
  | nil =>
    cases h
    exact ⟨c, rfl, hstart⟩
  | cons value values ih =>
    rw [List.foldlM_cons, Except.bind_eq_ok] at h
    obtain ⟨next, hnext, h⟩ := h
    obtain ⟨other, hother, hrel⟩ := hstep value List.mem_cons_self b c next hstart hnext
    obtain ⟨last, hlast, hend⟩ :=
      ih (fun value hvalue => hstep value (List.mem_cons_of_mem _ hvalue)) hrel h
    refine ⟨last, ?_, hend⟩
    rw [List.foldlM_cons, hother]
    exact hlast

theorem Except.foldlM_inv {ε β : Type} {α : Type*} {f : β → α → Except ε β} {P : β → Prop} {values : List α}
    (hstep : ∀ value ∈ values, ∀ b b', P b → f b value = .ok b' → P b')
    {b b' : β} (hstart : P b) (h : values.foldlM f b = .ok b')
    : P b' := by
  induction values generalizing b with
  | nil =>
    cases h
    exact hstart
  | cons value values ih =>
    rw [List.foldlM_cons, Except.bind_eq_ok] at h
    obtain ⟨next, hnext, h⟩ := h
    exact ih (fun value hvalue => hstep value (List.mem_cons_of_mem _ hvalue))
      (hstep value List.mem_cons_self b next hstart hnext) h

theorem Except.toOption_eq_some {ε α : Type} {x : Except ε α} {a : α}
    : x.toOption = some a ↔ x = .ok a := by
  cases x with
  | error e => simp [Except.toOption]
  | ok b => simp [Except.toOption]

theorem Except.mapError_eq_ok {ε ε' α : Type} {f : ε → ε'} {x : Except ε α} {a : α}
    : x.mapError f = .ok a ↔ x = .ok a := by
  cases x with
  | error e =>
    constructor <;> intro h <;> cases h
  | ok a' =>
    constructor <;> intro h <;> cases h <;> rfl

namespace Bytes

variable {ε α β : Type} {write : α → Except ε (List UInt8)}

def Delimited (write : α → Except ε (List UInt8)) : Prop :=
  ∀ a b p q x y, write a = .ok p → write b = .ok q → p ++ x = q ++ y → a = b ∧ x = y

def sized (w : Nat) (overflow : ε) (bytes : List UInt8) : Except ε (List UInt8) :=
  if bytes.length < 256 ^ w then .ok (beBytes w bytes.length ++ bytes) else .error overflow

def writeAll (write : α → Except ε (List UInt8)) (values : List α) : Except ε (List UInt8) :=
  match values with
  | [] => .ok []
  | value :: rest => do
    let first ← write value
    let others ← writeAll write rest
    .ok (first ++ others)

theorem beBytes_append_inj {w n m : Nat} {x y : List UInt8} (hn : n < 256 ^ w) (hm : m < 256 ^ w)
    (h : beBytes w n ++ x = beBytes w m ++ y)
    : n = m ∧ x = y := by
  have hsplit := List.append_inj h (by simp)
  exact ⟨beBytes_inj hn hm hsplit.1, hsplit.2⟩

theorem sized_delimited (w : Nat) (overflow : ε) : Delimited (sized w overflow) := by
  intro a b p q x y ha hb h
  unfold sized at ha hb
  split at ha
  . next hlen =>
    split at hb
    . next hlen' =>
      cases ha
      cases hb
      rw [List.append_assoc, List.append_assoc] at h
      obtain ⟨hsame, hrest⟩ := beBytes_append_inj hlen hlen' h
      exact List.append_inj hrest hsame
    . cases hb
  . cases ha

theorem Delimited.comp (hwrite : Delimited write) {f : β → α} (hf : Function.Injective f)
    : Delimited (fun b => write (f b)) := by
  intro a b p q x y ha hb h
  obtain ⟨hsame, hrest⟩ := hwrite _ _ p q x y ha hb h
  exact ⟨hf hsame, hrest⟩

theorem writeAll_cons_ok {value : α} {rest : List α} {p : List UInt8}
    : writeAll write (value :: rest) = .ok p ↔
        ∃ q r, write value = .ok q ∧ writeAll write rest = .ok r ∧ p = q ++ r := by
  rw [writeAll, Except.bind_eq_ok]
  constructor
  . rintro ⟨q, hq, h⟩
    obtain ⟨r, hr, h⟩ := Except.bind_eq_ok.mp h
    cases h
    exact ⟨q, r, hq, hr, rfl⟩
  . rintro ⟨q, r, hq, hr, rfl⟩
    exact ⟨q, hq, Except.bind_eq_ok.mpr ⟨r, hr, rfl⟩⟩

theorem writeAll_inj {as bs : List α} {p q x y : List UInt8}
    (hwrite : ∀ a ∈ as, ∀ b ∈ bs, ∀ p q x y, write a = .ok p → write b = .ok q → p ++ x = q ++ y →
      a = b ∧ x = y)
    (ha : writeAll write as = .ok p) (hb : writeAll write bs = .ok q)
    (hlen : as.length = bs.length) (h : p ++ x = q ++ y)
    : as = bs ∧ x = y := by
  induction as generalizing bs p q with
  | nil =>
    cases bs with
    | nil =>
      cases ha
      cases hb
      exact ⟨rfl, h⟩
    | cons b bs => cases hlen
  | cons a as ih =>
    cases bs with
    | nil => cases hlen
    | cons b bs =>
      obtain ⟨p₁, p₂, hp₁, hp₂, rfl⟩ := writeAll_cons_ok.mp ha
      obtain ⟨q₁, q₂, hq₁, hq₂, rfl⟩ := writeAll_cons_ok.mp hb
      rw [List.append_assoc, List.append_assoc] at h
      obtain ⟨hfirst, hrest⟩ := hwrite a (by simp) b (by simp) p₁ q₁ _ _ hp₁ hq₁ h
      have hothers : ∀ a ∈ as, ∀ b ∈ bs, ∀ p q x y, write a = .ok p → write b = .ok q →
          p ++ x = q ++ y → a = b ∧ x = y :=
        fun a ha b hb => hwrite a (by simp [ha]) b (by simp [hb])
      obtain ⟨htail, hend⟩ := ih hothers hp₂ hq₂ (Nat.succ.inj hlen) hrest
      exact ⟨by rw [hfirst, htail], hend⟩

theorem Delimited.all (hwrite : Delimited write) {as bs : List α} {p q x y : List UInt8}
    (ha : writeAll write as = .ok p) (hb : writeAll write bs = .ok q)
    (hlen : as.length = bs.length) (h : p ++ x = q ++ y)
    : as = bs ∧ x = y :=
  writeAll_inj (fun a _ b _ => hwrite a b) ha hb hlen h

section Entries

variable {γ : Type} {entry : α → List UInt8} {entry' : γ → List UInt8} {R : α → γ → Prop} {as : List α} {bs : List γ}
  {x y : List UInt8}

theorem entries_inj_of_length (hlen : as.length = bs.length)
    (hentry : ∀ a ∈ as, ∀ b ∈ bs, ∀ x y, entry a ++ x = entry' b ++ y → R a b ∧ x = y)
    (h : as.flatMap entry ++ x = bs.flatMap entry' ++ y)
    : List.Forall₂ R as bs ∧ x = y := by
  induction as generalizing bs with
  | nil =>
    cases bs with
    | nil => exact ⟨.nil, h⟩
    | cons b bs => cases hlen
  | cons a as ih =>
    cases bs with
    | nil => cases hlen
    | cons b bs =>
      rw [List.flatMap_cons, List.flatMap_cons, List.append_assoc, List.append_assoc] at h
      obtain ⟨hfirst, hrest⟩ := hentry a List.mem_cons_self b List.mem_cons_self _ _ h
      obtain ⟨htail, hend⟩ := ih (Nat.succ.inj hlen)
        (fun a ha b hb => hentry a (List.mem_cons_of_mem _ ha) b (List.mem_cons_of_mem _ hb)) hrest
      exact ⟨.cons hfirst htail, hend⟩

theorem entries_inj_of_end (hentry : ∀ a ∈ as, ∀ b ∈ bs, ∀ x y, entry a ++ x = entry' b ++ y → R a b ∧ x = y)
    (hx : ∀ b ∈ bs, ∀ z, x ≠ entry' b ++ z) (hy : ∀ a ∈ as, ∀ z, y ≠ entry a ++ z)
    (h : as.flatMap entry ++ x = bs.flatMap entry' ++ y)
    : List.Forall₂ R as bs ∧ x = y := by
  induction as generalizing bs with
  | nil =>
    cases bs with
    | nil => exact ⟨.nil, h⟩
    | cons b bs =>
      rw [List.flatMap_nil, List.nil_append, List.flatMap_cons, List.append_assoc] at h
      exact absurd h (hx b List.mem_cons_self _)
  | cons a as ih =>
    cases bs with
    | nil =>
      rw [List.flatMap_nil, List.nil_append, List.flatMap_cons, List.append_assoc] at h
      exact absurd h.symm (hy a List.mem_cons_self _)
    | cons b bs =>
      rw [List.flatMap_cons, List.flatMap_cons, List.append_assoc, List.append_assoc] at h
      obtain ⟨hfirst, hrest⟩ := hentry a List.mem_cons_self b List.mem_cons_self _ _ h
      obtain ⟨htail, hend⟩ := ih
        (fun a ha b hb => hentry a (List.mem_cons_of_mem _ ha) b (List.mem_cons_of_mem _ hb))
        (fun b hb => hx b (List.mem_cons_of_mem _ hb))
        (fun a ha => hy a (List.mem_cons_of_mem _ ha)) hrest
      exact ⟨.cons hfirst htail, hend⟩

end Entries

end Bytes
