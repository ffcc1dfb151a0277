import Mathlib

/-!
Byte strings built by concatenating fixed width and length prefixed fields, and the cancellation
lemmas that recover the fields from the concatenation.
-/

namespace Bytes

def beBytes (w : Nat) (n : Nat) : List UInt8 :=
  match w with
  | 0 => []
  | w + 1 => beBytes w (n / 256) ++ [UInt8.ofNat n]

@[simp]
theorem beBytes_length (w n : Nat) : (beBytes w n).length = w := by
  induction w generalizing n with
  | zero => rfl
  | succ w ih => simp [beBytes, ih]

theorem beBytes_inj {w n m : Nat} (hn : n < 256 ^ w) (hm : m < 256 ^ w) (h : beBytes w n = beBytes w m)
    : n = m := by
  induction w generalizing n m with
  | zero =>
    rw [Nat.pow_zero] at hn hm
    omega
  | succ w ih =>
    unfold beBytes at h
    have hsplit := List.append_inj h (by simp)
    have hlow : n % 256 = m % 256 := by
      have := congrArg UInt8.toNat (List.singleton_inj.mp hsplit.2)
      simpa using this
    have hhigh : n / 256 = m / 256 := by
      apply ih
      . apply Nat.div_lt_of_lt_mul
        rw [Nat.pow_succ, Nat.mul_comm] at hn
        exact hn
      . apply Nat.div_lt_of_lt_mul
        rw [Nat.pow_succ, Nat.mul_comm] at hm
        exact hm
      . exact hsplit.1
    omega

def lenPrefixed (bytes : List UInt8) : List UInt8 :=
  beBytes 8 bytes.length ++ bytes

theorem lenPrefixed_append_inj {a b x y : List UInt8} (ha : a.length < 256 ^ 8)
    (hb : b.length < 256 ^ 8) (h : lenPrefixed a ++ x = lenPrefixed b ++ y)
    : a = b ∧ x = y := by
  unfold lenPrefixed at h
  rw [List.append_assoc, List.append_assoc] at h
  have hlen := List.append_inj h (by simp)
  have := beBytes_inj ha hb hlen.1
  exact List.append_inj hlen.2 this

theorem lenPrefixed_ne_nil (bytes : List UInt8) : lenPrefixed bytes ≠ [] := by
  intro h
  have := congrArg List.length h
  simp [lenPrefixed] at this

theorem flatMap_lenPrefixed_inj {as bs : List (List UInt8)} (ha : ∀ a ∈ as, a.length < 256 ^ 8)
    (hb : ∀ b ∈ bs, b.length < 256 ^ 8) (h : as.flatMap lenPrefixed = bs.flatMap lenPrefixed)
    : as = bs := by
  induction as generalizing bs with
  | nil =>
    cases bs with
    | nil => rfl
    | cons b bs =>
      rw [List.flatMap_nil, List.flatMap_cons] at h
      have := List.append_eq_nil_iff.mp h.symm
      exact absurd this.1 (lenPrefixed_ne_nil b)
  | cons a as ih =>
    cases bs with
    | nil =>
      rw [List.flatMap_nil, List.flatMap_cons] at h
      have := List.append_eq_nil_iff.mp h
      exact absurd this.1 (lenPrefixed_ne_nil a)
    | cons b bs =>
      rw [List.flatMap_cons, List.flatMap_cons] at h
      have hsplit := lenPrefixed_append_inj (ha a (by simp)) (hb b (by simp)) h
      rw [hsplit.1, ih (fun x hx => ha x (by simp [hx])) (fun x hx => hb x (by simp [hx])) hsplit.2]

theorem flatMap_lenPrefixed_append_inj {as bs : List (List UInt8)} {x y : List UInt8}
    (hlen : as.length = bs.length) (ha : ∀ a ∈ as, a.length < 256 ^ 8) (hb : ∀ b ∈ bs, b.length < 256 ^ 8)
    (h : as.flatMap lenPrefixed ++ x = bs.flatMap lenPrefixed ++ y)
    : as = bs ∧ x = y := by
  induction as generalizing bs with
  | nil =>
    cases bs with
    | nil => exact ⟨rfl, h⟩
    | cons b bs => simp at hlen
  | cons a as ih =>
    cases bs with
    | nil => simp at hlen
    | cons b bs =>
      rw [List.flatMap_cons, List.flatMap_cons, List.append_assoc, List.append_assoc] at h
      have hsplit := lenPrefixed_append_inj (ha a (by simp)) (hb b (by simp)) h
      simp only [List.length_cons, Nat.add_right_cancel_iff] at hlen
      have hrest := ih hlen (fun x hx => ha x (by simp [hx])) (fun x hx => hb x (by simp [hx]))
        hsplit.2
      exact ⟨by rw [hsplit.1, hrest.1], hrest.2⟩

def marked (words : List (List UInt8 × UInt8)) : List UInt8 :=
  words.flatMap (fun word => word.1 ++ [word.2])

theorem append_mark_inj {α : Type} {sep : α → Prop} {w v x y : List α} {s t : α}
    (hw : ∀ b ∈ w, ¬ sep b) (hv : ∀ b ∈ v, ¬ sep b) (hs : sep s) (ht : sep t) (h : w ++ s :: x = v ++ t :: y)
    : w = v ∧ s = t ∧ x = y := by
  induction w generalizing v with
  | nil =>
    cases v with
    | nil =>
      rw [List.nil_append, List.nil_append, List.cons.injEq] at h
      exact ⟨rfl, h⟩
    | cons b v =>
      rw [List.nil_append, List.cons_append, List.cons.injEq] at h
      exact absurd (h.1 ▸ hs) (hv b (by simp))
  | cons a w ih =>
    cases v with
    | nil =>
      rw [List.nil_append, List.cons_append, List.cons.injEq] at h
      exact absurd (h.1.symm ▸ ht) (hw a (by simp))
    | cons b v =>
      rw [List.cons_append, List.cons_append, List.cons.injEq] at h
      have hrest := ih (fun x hx => hw x (by simp [hx])) (fun x hx => hv x (by simp [hx])) h.2
      exact ⟨by rw [h.1, hrest.1], hrest.2⟩

theorem map_append_map_inj {α β γ : Type} {f : α → γ} {g : β → γ} (hf : Function.Injective f)
    (hg : Function.Injective g) (hfg : ∀ a b, f a ≠ g b) {as as' : List α} {bs bs' : List β}
    (h : as.map f ++ bs.map g = as'.map f ++ bs'.map g)
    : as = as' ∧ bs = bs' := by
  induction as generalizing as' with
  | nil =>
    cases as' with
    | nil => exact ⟨rfl, List.map_injective_iff.mpr hg h⟩
    | cons a as' =>
      cases bs with
      | nil => simp at h
      | cons b bs =>
        simp only [List.map_nil, List.map_cons, List.nil_append, List.cons_append, List.cons.injEq] at h
        exact absurd h.1.symm (hfg a b)
  | cons a as ih =>
    cases as' with
    | nil =>
      cases bs' with
      | nil => simp at h
      | cons b bs' =>
        simp only [List.map_nil, List.map_cons, List.nil_append, List.cons_append, List.cons.injEq] at h
        exact absurd h.1 (hfg a b)
    | cons a' as' =>
      simp only [List.map_cons, List.cons_append, List.cons.injEq] at h
      have hrest := ih h.2
      exact ⟨by rw [hf h.1, hrest.1], hrest.2⟩

theorem marked_append_inj {sep : UInt8 → Prop} {ws vs : List (List UInt8 × UInt8)}
    {x y : List UInt8} (hw : ∀ w ∈ ws, (∀ b ∈ w.1, ¬ sep b) ∧ sep w.2)
    (hv : ∀ v ∈ vs, (∀ b ∈ v.1, ¬ sep b) ∧ sep v.2) (hx : ∀ b ∈ x, ¬ sep b)
    (hy : ∀ b ∈ y, ¬ sep b) (h : marked ws ++ x = marked vs ++ y)
    : ws = vs ∧ x = y := by
  -- the first mark on one side is the first mark on the other
  have hend : ∀ {w : List UInt8 × UInt8} {z x : List UInt8}, sep w.2 → (∀ b ∈ x, ¬ sep b) →
      w.1 ++ w.2 :: z ≠ x := by
    intro w z x hsep hx heq
    apply hx w.2 _ hsep
    rw [← heq]
    simp
  induction ws generalizing vs with
  | nil =>
    cases vs with
    | nil => exact ⟨rfl, h⟩
    | cons v vs =>
      simp only [marked, List.flatMap_nil, List.nil_append, List.flatMap_cons, List.append_assoc,
        List.cons_append] at h
      exact absurd h.symm (hend (hv v (by simp)).2 hx)
  | cons w ws ih =>
    cases vs with
    | nil =>
      simp only [marked, List.flatMap_nil, List.nil_append, List.flatMap_cons, List.append_assoc,
        List.cons_append] at h
      exact absurd h (hend (hw w (by simp)).2 hy)
    | cons v vs =>
      simp only [marked, List.flatMap_cons, List.append_assoc, List.cons_append, List.nil_append] at h
      obtain ⟨hword, hmark, hrest⟩ := append_mark_inj (hw w (by simp)).1 (hv v (by simp)).1
        (hw w (by simp)).2 (hv v (by simp)).2 h
      have htail := ih (fun u hu => hw u (by simp [hu])) (fun u hu => hv u (by simp [hu])) hrest
      exact ⟨by rw [Prod.ext hword hmark, htail.1], htail.2⟩

def utf8 (s : String) : List UInt8 :=
  s.toByteArray.data.toList

theorem utf8_inj {s t : String} (h : utf8 s = utf8 t) : s = t := by
  unfold utf8 at h
  apply String.toByteArray_inj.mp
  apply ByteArray.ext
  exact Array.toList_inj.mp h

@[simp]
theorem utf8_append (s t : String) : utf8 (s ++ t) = utf8 s ++ utf8 t := by
  simp [utf8]

theorem utf8_ofList (chars : List Char)
    : utf8 (String.ofList chars) = chars.flatMap String.utf8EncodeChar := by
  simp [utf8, List.utf8Encode]

theorem length_utf8_ofList {chars : List Char} (h : ∀ c ∈ chars, (String.utf8EncodeChar c).length = 1)
    : (utf8 (String.ofList chars)).length = chars.length := by
  rw [utf8_ofList, List.length_flatMap, List.map_congr_left h]
  simp

theorem utf8_eq_nil_iff {s : String} : utf8 s = [] ↔ s = "" := by
  constructor
  . intro h
    exact utf8_inj h
  . rintro rfl
    rfl

end Bytes
