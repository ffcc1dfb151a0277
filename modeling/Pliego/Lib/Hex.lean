import Pliego.Lib.Bytes

/-!
Lowercase hexadecimal text of byte strings.
-/

namespace Bytes

def hexDigit (n : Nat) : Char :=
  if n < 10 then Char.ofNat (48 + n) else Char.ofNat (87 + n)

def encodeHex (bytes : List UInt8) : String :=
  String.ofList
    (bytes.flatMap (fun byte => [hexDigit (byte.toNat / 16), hexDigit (byte.toNat % 16)]))

theorem hexDigit_inj {n m : Nat} (hn : n < 16) (hm : m < 16) (h : hexDigit n = hexDigit m)
    : n = m := by
  have hall : ∀ a b : Fin 16, hexDigit a = hexDigit b → a = b := by decide
  exact congrArg Fin.val (hall ⟨n, hn⟩ ⟨m, hm⟩ h)

theorem toNat_eq_of_hex {a b : UInt8} (hhigh : hexDigit (a.toNat / 16) = hexDigit (b.toNat / 16))
    (hlow : hexDigit (a.toNat % 16) = hexDigit (b.toNat % 16))
    : a = b := by
  have ha := a.toNat_lt
  have hb := b.toNat_lt
  have h₁ := hexDigit_inj (by omega) (by omega) hhigh
  have h₂ := hexDigit_inj (by omega) (by omega) hlow
  apply UInt8.toNat_inj.mp
  omega

theorem encodeHex_inj {as bs : List UInt8} (h : encodeHex as = encodeHex bs) : as = bs := by
  unfold encodeHex at h
  replace h := String.ofList_injective h
  induction as generalizing bs with
  | nil =>
    cases bs with
    | nil => rfl
    | cons b bs => simp at h
  | cons a as ih =>
    cases bs with
    | nil => simp at h
    | cons b bs =>
      simp only [List.flatMap_cons, List.cons_append, List.nil_append, List.cons.injEq] at h
      obtain ⟨hhigh, hlow, hrest⟩ := h
      rw [toNat_eq_of_hex hhigh hlow, ih hrest]

theorem length_encodeHex (bytes : List UInt8)
    : (utf8 (encodeHex bytes)).length = 2 * bytes.length := by
  have hdigit : ∀ n : Fin 16, (String.utf8EncodeChar (hexDigit n)).length = 1 := by decide
  unfold encodeHex
  rw [length_utf8_ofList]
  . simp [List.length_flatMap, Nat.mul_comm]
  . intro c hc
    obtain ⟨byte, -, hc⟩ := List.mem_flatMap.mp hc
    have hlt := byte.toNat_lt
    simp only [List.mem_cons, List.not_mem_nil, or_false] at hc
    rcases hc with rfl | rfl
    . exact hdigit ⟨byte.toNat / 16, by omega⟩
    . exact hdigit ⟨byte.toNat % 16, by omega⟩

end Bytes
