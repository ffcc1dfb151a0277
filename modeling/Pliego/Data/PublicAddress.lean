import Pliego.Lib.IpAddr

/-!
Which addresses an outbound request may reach: the check of the source, what it is for, and the addresses on which the
two differ.
-/

namespace Pliego

namespace Data

open Ipv4Addr (octet ofOctets)
open Ipv6Addr (segment ofSegments embedded)

def isPublicIpv4 (address : BitVec 32) : Bool :=
  let a := octet address 0
  let b := octet address 1
  let c := octet address 2
  !(Ipv4Addr.isUnspecified address
    || Ipv4Addr.isLoopback address
    || Ipv4Addr.isPrivate address
    || Ipv4Addr.isLinkLocal address
    || Ipv4Addr.isMulticast address
    || Ipv4Addr.isBroadcast address
    || a == 0
    || (a == 100 && (decide (64 ≤ b) && decide (b ≤ 127)))
    || (a == 192 && b == 0 && c == 0)
    || (a == 192 && b == 0 && c == 2)
    || (a == 198 && (b == 18 || b == 19))
    || (a == 198 && b == 51 && c == 100)
    || (a == 203 && b == 0 && c == 113)
    || decide (240 ≤ a))

def isPublicIp (address : IpAddr) : Bool :=
  match address with
  | .v4 address => isPublicIpv4 address
  | .v6 address =>
    match Ipv6Addr.toIpv4Mapped address with
    | some mapped => isPublicIpv4 mapped
    | none =>
      !Ipv6Addr.isUnspecified address
        && !Ipv6Addr.isLoopback address
        && !Ipv6Addr.isMulticast address
        && segment address 0 &&& 0xfe00 != 0xfc00
        && segment address 0 &&& 0xffc0 != 0xfe80
        && segment address 0 &&& 0xffc0 != 0xfec0
        && !(segment address 0 == 0x2001 && segment address 1 == 0x0db8)

/-
Reserved blocks
-/

def reservedIpv4 : List (Block 32) :=
  [⟨ofOctets 0 0 0 0, 8⟩, -- this network
    ⟨ofOctets 10 0 0 0, 8⟩, ⟨ofOctets 172 16 0 0, 12⟩, ⟨ofOctets 192 168 0 0, 16⟩, -- private use
    ⟨ofOctets 100 64 0 0, 10⟩, -- shared by carriers
    ⟨ofOctets 127 0 0 0, 8⟩, -- loopback
    ⟨ofOctets 169 254 0 0, 16⟩, -- link-local
    ⟨ofOctets 192 0 0 0, 24⟩, -- protocol assignments
    ⟨ofOctets 192 0 2 0, 24⟩, ⟨ofOctets 198 51 100 0, 24⟩, ⟨ofOctets 203 0 113 0, 24⟩, -- documentation
    ⟨ofOctets 198 18 0 0, 15⟩, -- benchmarking
    ⟨ofOctets 224 0 0 0, 4⟩, -- multicast
    ⟨ofOctets 240 0 0 0, 4⟩] -- reserved, with the broadcast address

def checkedIpv6 : List (Block 128) :=
  [⟨ofSegments [0, 0, 0, 0, 0, 0, 0, 0], 128⟩, -- unspecified
    ⟨ofSegments [0, 0, 0, 0, 0, 0, 0, 1], 128⟩, -- loopback
    ⟨ofSegments [0xff00, 0, 0, 0, 0, 0, 0, 0], 8⟩, -- multicast
    ⟨ofSegments [0xfc00, 0, 0, 0, 0, 0, 0, 0], 7⟩, -- unique local
    ⟨ofSegments [0xfe80, 0, 0, 0, 0, 0, 0, 0], 10⟩, -- link-local
    ⟨ofSegments [0xfec0, 0, 0, 0, 0, 0, 0, 0], 10⟩, -- site-local
    ⟨ofSegments [0x2001, 0xdb8, 0, 0, 0, 0, 0, 0], 32⟩] -- documentation

def uncheckedIpv6 : List (Block 128) :=
  [⟨ofSegments [0x64, 0xff9b, 1, 0, 0, 0, 0, 0], 48⟩, -- local translation
    ⟨ofSegments [0x100, 0, 0, 0, 0, 0, 0, 0], 64⟩, -- discard
    ⟨ofSegments [0x2001, 0, 0, 0, 0, 0, 0, 0], 23⟩, -- protocol assignments, with benchmarking
    ⟨ofSegments [0x3fff, 0, 0, 0, 0, 0, 0, 0], 20⟩, -- documentation
    ⟨ofSegments [0x5f00, 0, 0, 0, 0, 0, 0, 0], 16⟩] -- segment routing

def PublicIpv4 (address : BitVec 32) : Prop := ∀ block ∈ reservedIpv4, ¬ block.Holds address

-- A public address is in no reserved block, and embeds no address that is not public.
def PublicIp (address : IpAddr) : Prop :=
  match address with
  | .v4 address => PublicIpv4 address
  | .v6 address =>
    (∀ block ∈ checkedIpv6 ++ uncheckedIpv6, ¬ block.Holds address)
      ∧ ∀ inner, embedded address = some inner → PublicIpv4 inner

def SlipsThrough (address : IpAddr) : Prop :=
  match address with
  | .v4 _ => False
  | .v6 address =>
    (∃ block ∈ uncheckedIpv6, block.Holds address)
      ∨ (Ipv6Addr.compatibleBlock.Holds address ∨ Ipv6Addr.translatedBlock.Holds address) ∧
          ¬ PublicIpv4 (Ipv6Addr.lastAddress address)
      ∨ Ipv6Addr.sixToFourBlock.Holds address ∧ ¬ PublicIpv4 (Ipv6Addr.siteAddress address)

section Ipv4

variable {address : BitVec 32} {a b c : Nat}

theorem holds_octet (ha : a < 256) : (⟨ofOctets a 0 0 0, 8⟩ : Block 32).Holds address ↔ octet address 0 = a := by
  have hlt := address.isLt
  unfold Block.Holds ofOctets octet
  rw [BitVec.toNat_ofNat]
  dsimp only
  omega

theorem holds_octets (ha : a < 256) (hb : b < 256)
    : (⟨ofOctets a b 0 0, 16⟩ : Block 32).Holds address ↔ octet address 0 = a ∧ octet address 1 = b := by
  have hlt := address.isLt
  unfold Block.Holds ofOctets octet
  rw [BitVec.toNat_ofNat]
  dsimp only
  omega

theorem holds_three_octets (ha : a < 256) (hb : b < 256) (hc : c < 256)
    : (⟨ofOctets a b c 0, 24⟩ : Block 32).Holds address
      ↔ octet address 0 = a ∧ octet address 1 = b ∧ octet address 2 = c := by
  have hlt := address.isLt
  unfold Block.Holds ofOctets octet
  rw [BitVec.toNat_ofNat]
  dsimp only
  omega

theorem holds_part {bits : Nat} (ha : a < 256) (hb : b < 256) (hbits : bits ≤ 8)
    : (⟨ofOctets a b 0 0, 8 + bits⟩ : Block 32).Holds address
      ↔ octet address 0 = a ∧ octet address 1 / 2 ^ (8 - bits) = b / 2 ^ (8 - bits) := by
  have hlt := address.isLt
  unfold Block.Holds ofOctets octet
  rw [BitVec.toNat_ofNat]
  dsimp only
  interval_cases bits <;> omega

theorem holds_front (ha : a < 256)
    : (⟨ofOctets a 0 0 0, 4⟩ : Block 32).Holds address ↔ octet address 0 / 16 = a / 16 := by
  have hlt := address.isLt
  unfold Block.Holds ofOctets octet
  rw [BitVec.toNat_ofNat]
  dsimp only
  omega

theorem isPrivate_iff : Ipv4Addr.isPrivate address = true
    ↔ octet address 0 = 10 ∨ (octet address 0 = 172 ∧ octet address 1 / 2 ^ 4 = 16 / 2 ^ 4)
      ∨ (octet address 0 = 192 ∧ octet address 1 = 168) := by
  unfold Ipv4Addr.isPrivate
  simp only [Bool.or_eq_true, Bool.and_eq_true, beq_iff_eq, decide_eq_true_eq]
  omega

theorem shared_iff : (octet address 0 == 100 && (decide (64 ≤ octet address 1) && decide (octet address 1 ≤ 127))) = true
    ↔ octet address 0 = 100 ∧ octet address 1 / 2 ^ 6 = 64 / 2 ^ 6 := by
  simp only [Bool.and_eq_true, beq_iff_eq, decide_eq_true_eq]
  omega

theorem benchmarking_iff : (octet address 0 == 198 && (octet address 1 == 18 || octet address 1 == 19)) = true
    ↔ octet address 0 = 198 ∧ octet address 1 / 2 ^ 1 = 18 / 2 ^ 1 := by
  simp only [Bool.and_eq_true, Bool.or_eq_true, beq_iff_eq]
  omega

theorem isMulticast_iff : Ipv4Addr.isMulticast address = true ↔ octet address 0 / 16 = 224 / 16 := by
  unfold Ipv4Addr.isMulticast
  simp only [Bool.and_eq_true, decide_eq_true_eq]
  omega

theorem reserved_iff : decide (240 ≤ octet address 0) = true ↔ octet address 0 / 16 = 240 / 16 := by
  have hlt : octet address 0 < 256 := Nat.mod_lt _ (by decide)
  rw [decide_eq_true_eq]
  omega

theorem isUnspecified_octet (h : Ipv4Addr.isUnspecified address = true) : octet address 0 = 0 := by
  unfold Ipv4Addr.isUnspecified at h
  rw [decide_eq_true_eq] at h
  unfold octet
  omega

theorem isBroadcast_octet (h : Ipv4Addr.isBroadcast address = true) : octet address 0 / 16 = 240 / 16 := by
  unfold Ipv4Addr.isBroadcast at h
  rw [decide_eq_true_eq] at h
  unfold octet
  omega

theorem isPublicIpv4_iff : isPublicIpv4 address = true ↔ PublicIpv4 address := by
  have hunspecified := @isUnspecified_octet address
  have hbroadcast := @isBroadcast_octet address
  unfold PublicIpv4 reservedIpv4
  simp only [List.forall_mem_cons, List.not_mem_nil, false_implies, implies_true, and_true]
  rw [holds_octet (by decide), holds_octet (by decide), @holds_part _ _ _ 4 (by decide) (by decide) (by decide),
    holds_octets (by decide) (by decide), @holds_part _ _ _ 2 (by decide) (by decide) (by decide), holds_octet (by decide),
    holds_octets (by decide) (by decide), holds_three_octets (by decide) (by decide) (by decide),
    holds_three_octets (by decide) (by decide) (by decide), holds_three_octets (by decide) (by decide) (by decide),
    holds_three_octets (by decide) (by decide) (by decide), @holds_part _ _ _ 7 (by decide) (by decide) (by decide),
    holds_front (by decide), holds_front (by decide)]
  unfold isPublicIpv4 Ipv4Addr.isLoopback Ipv4Addr.isLinkLocal
  dsimp only
  rw [Bool.not_eq_true', ← Bool.not_eq_true]
  simp only [Bool.or_eq_true _ (_ && _), Bool.or_eq_true _ (decide _), Bool.or_eq_true _ (Ipv4Addr.isBroadcast _),
    Bool.or_eq_true _ (Ipv4Addr.isMulticast _), Bool.or_eq_true _ (Ipv4Addr.isPrivate _), Bool.or_eq_true _ (_ == _)]
  rw [shared_iff, benchmarking_iff, isPrivate_iff, isMulticast_iff, reserved_iff]
  simp only [Bool.and_eq_true, beq_iff_eq, and_assoc, not_or, Nat.reduceSub]
  constructor
  . intro h
    obtain ⟨-, hloopback, hten, hmiddle, hsmall, hlocal, hmulticast, -, hzero, hshared, hassigned, hfirst, hbench, hsecond,
      hthird, hreserved⟩ := h
    exact ⟨hzero, hten, hmiddle, hsmall, hshared, hloopback, hlocal, hassigned, hfirst, hsecond, hthird, hbench, hmulticast,
      hreserved⟩
  . intro h
    obtain ⟨hzero, hten, hmiddle, hsmall, hshared, hloopback, hlocal, hassigned, hfirst, hsecond, hthird, hbench,
      hmulticast, hreserved⟩ := h
    exact ⟨fun h => hzero (hunspecified h), hloopback, hten, hmiddle, hsmall, hlocal, hmulticast,
      fun h => hreserved (hbroadcast h), hzero, hshared, hassigned, hfirst, hbench, hsecond, hthird, hreserved⟩

end Ipv4

section Ipv6

variable {address : BitVec 128}

theorem and_leading {s k : Nat} (hs : s < 2 ^ 16) (hk : k ≤ 16) : s &&& (2 ^ 16 - 2 ^ k) = s / 2 ^ k * 2 ^ k := by
  have hmask : 2 ^ 16 - 2 ^ k = (2 ^ (16 - k) - 1) <<< k := by
    rw [Nat.shiftLeft_eq, Nat.sub_mul, one_mul, ← Nat.pow_add, Nat.sub_add_cancel hk]
  rw [hmask, ← Nat.shiftRight_eq_div_pow, ← Nat.shiftLeft_eq]
  apply Nat.eq_of_testBit_eq
  intro i
  rw [Nat.testBit_and, Nat.testBit_shiftLeft, Nat.testBit_shiftLeft, Nat.testBit_shiftRight, Nat.testBit_two_pow_sub_one]
  by_cases hik : k ≤ i
  . have hback : k + (i - k) = i := by omega
    by_cases hi : i < 16
    . have hinside : i - k < 16 - k := by omega
      simp [hik, hinside, hback]
    . have hbit : s.testBit i = false :=
        Nat.testBit_lt_two_pow (hs.trans_le (Nat.pow_le_pow_right (by decide) (not_lt.mp hi)))
      simp [hik, hbit, hback]
  . simp [hik]

theorem segment_lt (i : Nat) : segment address i < 2 ^ 16 := Nat.mod_lt _ (by decide)

theorem leading_iff {k mask value : Nat} (hk : k ≤ 16) (hmask : mask = 2 ^ 16 - 2 ^ k)
    : (segment address 0 &&& mask == value * 2 ^ k) = true ↔ segment address 0 / 2 ^ k = value := by
  rw [hmask, and_leading (segment_lt 0) hk, beq_iff_eq]
  exact Nat.mul_left_inj (Nat.two_pow_pos k).ne'

theorem foldl_zeros (number n : Nat)
    : (List.replicate n 0).foldl (fun number segment => number * 65536 + segment) number = number * 65536 ^ n := by
  induction n generalizing number with
  | zero => exact (Nat.mul_one _).symm
  | succ n ih =>
    rw [List.replicate_succ, List.foldl_cons, ih, Nat.add_zero, Nat.pow_succ', Nat.mul_assoc]

theorem ofSegments_zeros {front : List Nat} {n : Nat}
    (h : front.foldl (fun number segment => number * 65536 + segment) 0 * 65536 ^ n < 2 ^ 128)
    : (ofSegments (front ++ List.replicate n 0)).toNat
      = front.foldl (fun number segment => number * 65536 + segment) 0 * 65536 ^ n := by
  unfold ofSegments
  rw [BitVec.toNat_ofNat, List.foldl_append, foldl_zeros, Nat.mod_eq_of_lt h]

theorem ofSegments_first {s : Nat} (hs : s < 2 ^ 16) : (ofSegments [s, 0, 0, 0, 0, 0, 0, 0]).toNat = s * 2 ^ 112 := by
  have hpow : 65536 ^ 7 = 2 ^ 112 := by decide
  have hbound : (0 * 65536 + s) * 65536 ^ 7 < 2 ^ 128 := by
    rw [Nat.zero_mul, Nat.zero_add, hpow]
    exact Nat.mul_lt_mul_of_pos_right hs (Nat.two_pow_pos 112)
  have hnumber := @ofSegments_zeros [s] 7 hbound
  rw [List.foldl_cons, List.foldl_nil, Nat.zero_mul, Nat.zero_add, hpow] at hnumber
  exact hnumber

theorem segment_zero_eq : segment address 0 = address.toNat / 2 ^ 112 := by
  have hpow : 65536 ^ (7 - 0) = 2 ^ 112 := by decide
  have hlt : address.toNat / 2 ^ 112 < 65536 := Nat.div_lt_of_lt_mul address.isLt
  unfold Ipv6Addr.segment
  rw [hpow, Nat.mod_eq_of_lt hlt]

theorem holds_leading {s k : Nat} (hs : s < 2 ^ 16) (hk : k ≤ 16)
    : (⟨ofSegments [s, 0, 0, 0, 0, 0, 0, 0], 16 - k⟩ : Block 128).Holds address
      ↔ segment address 0 / 2 ^ k = s / 2 ^ k := by
  have hwidth : 128 - (16 - k) = 112 + k := by omega
  unfold Block.Holds
  dsimp only
  rw [hwidth, pow_add, ofSegments_first hs, ← Nat.div_div_eq_div_mul, ← Nat.div_div_eq_div_mul,
    Nat.mul_div_cancel _ (Nat.two_pow_pos 112), segment_zero_eq]

theorem holds_two_segments {s t : Nat} (hs : s < 2 ^ 16) (ht : t < 2 ^ 16)
    : (⟨ofSegments [s, t, 0, 0, 0, 0, 0, 0], 32⟩ : Block 128).Holds address
      ↔ segment address 0 = s ∧ segment address 1 = t := by
  have hpow : 65536 ^ 6 = 2 ^ 96 := by decide
  have hbound : ((0 * 65536 + s) * 65536 + t) * 65536 ^ 6 < 2 ^ 128 := by
    rw [Nat.zero_mul, Nat.zero_add, hpow]
    exact Nat.mul_lt_mul_of_pos_right (by omega : s * 65536 + t < 2 ^ 32) (Nat.two_pow_pos 96)
  have hnumber := @ofSegments_zeros [s, t] 6 hbound
  rw [List.foldl_cons, List.foldl_cons, List.foldl_nil, Nat.zero_mul, Nat.zero_add, hpow] at hnumber
  have hfirst : address.toNat / 2 ^ 112 = address.toNat / 2 ^ 96 / 65536 := by
    rw [Nat.div_div_eq_div_mul, show 2 ^ 96 * 65536 = 2 ^ 112 by decide]
  have hsecond : segment address 1 = address.toNat / 2 ^ 96 % 65536 := by
    unfold Ipv6Addr.segment
    rw [← hpow]
  have hblock : (⟨ofSegments [s, t, 0, 0, 0, 0, 0, 0], 32⟩ : Block 128).Holds address
      ↔ address.toNat / 2 ^ 96 = s * 65536 + t := by
    unfold Block.Holds
    dsimp only
    rw [show ofSegments [s, t, 0, 0, 0, 0, 0, 0] = ofSegments ([s, t] ++ List.replicate 6 0) from rfl, hnumber,
      Nat.mul_div_cancel _ (Nat.two_pow_pos 96)]
  rw [hblock, segment_zero_eq, hfirst, hsecond]
  generalize address.toNat / 2 ^ 96 = number
  omega

theorem checkedIpv6_iff
    : (!Ipv6Addr.isUnspecified address && !Ipv6Addr.isLoopback address && !Ipv6Addr.isMulticast address
        && segment address 0 &&& 0xfe00 != 0xfc00 && segment address 0 &&& 0xffc0 != 0xfe80
        && segment address 0 &&& 0xffc0 != 0xfec0 && !(segment address 0 == 0x2001 && segment address 1 == 0x0db8)) = true
      ↔ ∀ block ∈ checkedIpv6, ¬ block.Holds address := by
  have hunspecified : (⟨ofSegments [0, 0, 0, 0, 0, 0, 0, 0], 128⟩ : Block 128).Holds address ↔ address.toNat = 0 := by
    unfold Block.Holds
    dsimp only
    rw [Nat.sub_self, pow_zero, Nat.div_one, Nat.div_one, ofSegments_first (by decide), Nat.zero_mul]
  have hloopback : (⟨ofSegments [0, 0, 0, 0, 0, 0, 0, 1], 128⟩ : Block 128).Holds address ↔ address.toNat = 1 := by
    unfold Block.Holds
    dsimp only
    rw [Nat.sub_self, pow_zero, Nat.div_one, Nat.div_one]
    rfl
  have hmulticast : (segment address 0 &&& 0xff00 == 0xff00) = true ↔ segment address 0 / 2 ^ 8 = 0xff00 / 2 ^ 8 :=
    @leading_iff address 8 0xff00 0xff (by decide) rfl
  have hlocal : (segment address 0 &&& 0xfe00 == 0xfc00) = true ↔ segment address 0 / 2 ^ 9 = 0xfc00 / 2 ^ 9 :=
    @leading_iff address 9 0xfe00 0x7e (by decide) rfl
  have hlink : (segment address 0 &&& 0xffc0 == 0xfe80) = true ↔ segment address 0 / 2 ^ 6 = 0xfe80 / 2 ^ 6 :=
    @leading_iff address 6 0xffc0 0x3fa (by decide) rfl
  have hsite : (segment address 0 &&& 0xffc0 == 0xfec0) = true ↔ segment address 0 / 2 ^ 6 = 0xfec0 / 2 ^ 6 :=
    @leading_iff address 6 0xffc0 0x3fb (by decide) rfl
  unfold checkedIpv6
  simp only [List.forall_mem_cons, List.not_mem_nil, false_implies, implies_true, and_true]
  rw [hunspecified, hloopback, @holds_leading address 0xff00 8 (by decide) (by decide),
    @holds_leading address 0xfc00 9 (by decide) (by decide), @holds_leading address 0xfe80 6 (by decide) (by decide),
    @holds_leading address 0xfec0 6 (by decide) (by decide), holds_two_segments (by decide) (by decide)]
  unfold Ipv6Addr.isUnspecified Ipv6Addr.isLoopback Ipv6Addr.isMulticast bne
  simp only [Bool.and_eq_true, Bool.not_eq_true', ← Bool.not_eq_true, decide_eq_true_eq]
  rw [hmulticast, hlocal, hlink, hsite, beq_iff_eq, beq_iff_eq]
  simp only [and_assoc]

theorem mapped_apart (h : Ipv6Addr.mappedBlock.Holds address)
    : (∀ block ∈ checkedIpv6 ++ uncheckedIpv6, ¬ block.Holds address) ∧ ¬ Ipv6Addr.compatibleBlock.Holds address
      ∧ ¬ Ipv6Addr.translatedBlock.Holds address ∧ ¬ Ipv6Addr.sixToFourBlock.Holds address := by
  have hapart : ∀ block ∈ checkedIpv6 ++ uncheckedIpv6, Ipv6Addr.mappedBlock.Apart block ∧ block.length ≤ 128 := by
    decide
  refine ⟨fun block hblock => ?_, ?_, ?_, ?_⟩
  . exact (hapart block hblock).1.not_holds (by decide) (hapart block hblock).2 h
  . exact Block.Apart.not_holds (by decide) (by decide) (by decide) h
  . exact Block.Apart.not_holds (by decide) (by decide) (by decide) h
  . exact Block.Apart.not_holds (by decide) (by decide) (by decide) h

theorem sixToFour_apart (h : Ipv6Addr.sixToFourBlock.Holds address)
    : ¬ Ipv6Addr.mappedBlock.Holds address ∧ ¬ Ipv6Addr.compatibleBlock.Holds address
      ∧ ¬ Ipv6Addr.translatedBlock.Holds address := by
  refine ⟨?_, ?_, ?_⟩
  . exact Block.Apart.not_holds (by decide) (by decide) (by decide) h
  . exact Block.Apart.not_holds (by decide) (by decide) (by decide) h
  . exact Block.Apart.not_holds (by decide) (by decide) (by decide) h

theorem publicIp_iff (address : IpAddr) : PublicIp address ↔ isPublicIp address = true ∧ ¬ SlipsThrough address := by
  cases address with
  | v4 address => exact ⟨fun h => ⟨isPublicIpv4_iff.mpr h, not_false⟩, fun h => isPublicIpv4_iff.mp h.1⟩
  | v6 address =>
    unfold PublicIp isPublicIp SlipsThrough
    dsimp only
    rw [Ipv6Addr.toIpv4Mapped_eq]
    by_cases hmapped : Ipv6Addr.mappedBlock.Holds address
    . obtain ⟨hblocks, hcompatible, htranslated, hsixToFour⟩ := mapped_apart hmapped
      have hembedded : embedded address = some (Ipv6Addr.lastAddress address) := if_pos (.inl hmapped)
      rw [if_pos hmapped, hembedded]
      dsimp only
      rw [isPublicIpv4_iff]
      constructor
      . intro h
        refine ⟨h.2 _ rfl, ?_⟩
        rintro (⟨block, hblock, hholds⟩ | ⟨hother, -⟩ | ⟨hother, -⟩)
        . exact hblocks block (List.mem_append_right _ hblock) hholds
        . exact hother.elim hcompatible htranslated
        . exact hsixToFour hother
      . intro h
        refine ⟨hblocks, fun inner hinner => ?_⟩
        cases hinner
        exact h.1
    . rw [if_neg hmapped]
      dsimp only
      rw [checkedIpv6_iff, List.forall_mem_append, not_or, not_or, and_assoc]
      apply and_congr_right
      intro _
      have hunchecked : (∀ block ∈ uncheckedIpv6, ¬ block.Holds address) ↔ ¬ ∃ block ∈ uncheckedIpv6, block.Holds address := by
        simp only [not_exists, not_and]
      rw [hunchecked]
      apply and_congr_right
      intro _
      unfold embedded
      by_cases hlast : Ipv6Addr.compatibleBlock.Holds address ∨ Ipv6Addr.translatedBlock.Holds address
      . have hsixToFour : ¬ Ipv6Addr.sixToFourBlock.Holds address := by
          intro h
          obtain ⟨-, hcompatible, htranslated⟩ := sixToFour_apart h
          exact hlast.elim hcompatible htranslated
        rw [if_pos (.inr hlast)]
        constructor
        . exact fun h => ⟨fun hslips => hslips.2 (h _ rfl), fun hslips => hsixToFour hslips.1⟩
        . intro h inner hinner
          cases hinner
          by_contra hprivate
          exact h.1 ⟨hlast, hprivate⟩
      . rw [if_neg (not_or.mpr ⟨hmapped, hlast⟩)]
        by_cases hsixToFour : Ipv6Addr.sixToFourBlock.Holds address
        . rw [if_pos hsixToFour]
          constructor
          . exact fun h => ⟨fun hslips => hlast hslips.1, fun hslips => hslips.2 (h _ rfl)⟩
          . intro h inner hinner
            cases hinner
            by_contra hprivate
            exact h.2 ⟨hsixToFour, hprivate⟩
        . rw [if_neg hsixToFour]
          exact ⟨fun _ => ⟨fun hslips => hlast hslips.1, fun hslips => hsixToFour hslips.1⟩, fun _ => nofun⟩

end Ipv6

end Data

end Pliego
