import Mathlib

/-!
Internet addresses as numbers, the blocks of addresses that share their first bits, and the IPv4 addresses that IPv6
addresses embed.
-/

inductive IpAddr where
  | v4 (address : BitVec 32)
  | v6 (address : BitVec 128)
deriving DecidableEq

namespace Ipv4Addr

def ofOctets (a b c d : Nat) : BitVec 32 := BitVec.ofNat 32 (((a * 256 + b) * 256 + c) * 256 + d)

def octet (address : BitVec 32) (i : Nat) : Nat := address.toNat / 256 ^ (3 - i) % 256

def isUnspecified (address : BitVec 32) : Bool := decide (address.toNat = 0)

def isLoopback (address : BitVec 32) : Bool := octet address 0 == 127

def isPrivate (address : BitVec 32) : Bool :=
  octet address 0 == 10
    || (octet address 0 == 172 && decide (16 ≤ octet address 1) && decide (octet address 1 ≤ 31))
    || (octet address 0 == 192 && octet address 1 == 168)

def isLinkLocal (address : BitVec 32) : Bool := octet address 0 == 169 && octet address 1 == 254

def isMulticast (address : BitVec 32) : Bool := decide (224 ≤ octet address 0) && decide (octet address 0 ≤ 239)

def isBroadcast (address : BitVec 32) : Bool := decide (address.toNat = 2 ^ 32 - 1)

def display (address : BitVec 32) : String :=
  s!"{octet address 0}.{octet address 1}.{octet address 2}.{octet address 3}"

end Ipv4Addr

namespace Ipv6Addr

def ofSegments (segments : List Nat) : BitVec 128 :=
  BitVec.ofNat 128 (segments.foldl (fun number segment => number * 65536 + segment) 0)

def segment (address : BitVec 128) (i : Nat) : Nat := address.toNat / 65536 ^ (7 - i) % 65536

def segments (address : BitVec 128) : List Nat := (List.range 8).map (segment address)

def isUnspecified (address : BitVec 128) : Bool := decide (address.toNat = 0)

def isLoopback (address : BitVec 128) : Bool := decide (address.toNat = 1)

def isMulticast (address : BitVec 128) : Bool := segment address 0 &&& 0xff00 == 0xff00

def toIpv4Mapped (address : BitVec 128) : Option (BitVec 32) :=
  match segments address with
  | [0, 0, 0, 0, 0, 0xffff, ab, cd] => some (BitVec.ofNat 32 (ab * 65536 + cd))
  | _ => none

def hexSegments (parts : List Nat) : String :=
  ":".intercalate (parts.map fun part => String.ofList (Nat.toDigits 16 part))

-- The longest run of zero segments from a position on, as its start and its length.
def zeroRun (parts : List Nat) : Nat × Nat :=
  ((List.range 8).map fun start => (start, ((parts.drop start).takeWhile (· == 0)).length)).foldl
    (fun longest run => if longest.2 < run.2 then run else longest) (0, 0)

def display (address : BitVec 128) : String :=
  match toIpv4Mapped address with
  | some mapped => "::ffff:" ++ Ipv4Addr.display mapped
  | none =>
    let parts := segments address
    let run := zeroRun parts
    if 1 < run.2 then
      hexSegments (parts.take run.1) ++ "::" ++ hexSegments (parts.drop (run.1 + run.2))
    else
      hexSegments parts

end Ipv6Addr

-- The addresses that agree with a network on its first bits.
structure Block (width : Nat) where
  network : BitVec width
  length : Nat

namespace Block

variable {width : Nat}

def Holds (block : Block width) (address : BitVec width) : Prop :=
  address.toNat / 2 ^ (width - block.length) = block.network.toNat / 2 ^ (width - block.length)

instance (block : Block width) (address : BitVec width) : Decidable (block.Holds address) :=
  inferInstanceAs (Decidable (_ = _))

def Apart (a b : Block width) : Prop :=
  a.network.toNat / 2 ^ (width - min a.length b.length) ≠ b.network.toNat / 2 ^ (width - min a.length b.length)

instance (a b : Block width) : Decidable (a.Apart b) := inferInstanceAs (Decidable (_ ≠ _))

theorem Holds.front {block : Block width} {address : BitVec width} (h : block.Holds address) {bits : Nat}
    (hbits : bits ≤ block.length) (hlength : block.length ≤ width)
    : address.toNat / 2 ^ (width - bits) = block.network.toNat / 2 ^ (width - bits) := by
  have hsplit : width - bits = (width - block.length) + (block.length - bits) := by omega
  unfold Holds at h
  rw [hsplit, pow_add, ← Nat.div_div_eq_div_mul, ← Nat.div_div_eq_div_mul, h]

theorem Apart.not_holds {a b : Block width} {address : BitVec width} (h : a.Apart b) (ha : a.length ≤ width)
    (hb : b.length ≤ width) (hholds : a.Holds address)
    : ¬ b.Holds address := by
  intro hother
  apply h
  rw [← hholds.front (min_le_left _ _) ha, ← hother.front (min_le_right _ _) hb]

end Block

namespace Ipv6Addr

def mappedBlock : Block 128 := ⟨ofSegments [0, 0, 0, 0, 0, 0xffff, 0, 0], 96⟩

def compatibleBlock : Block 128 := ⟨ofSegments [0, 0, 0, 0, 0, 0, 0, 0], 96⟩

def translatedBlock : Block 128 := ⟨ofSegments [0x64, 0xff9b, 0, 0, 0, 0, 0, 0], 96⟩

def sixToFourBlock : Block 128 := ⟨ofSegments [0x2002, 0, 0, 0, 0, 0, 0, 0], 16⟩

def lastAddress (address : BitVec 128) : BitVec 32 := BitVec.ofNat 32 address.toNat

-- The address of the site of a 6to4 address: the two segments after the first.
def siteAddress (address : BitVec 128) : BitVec 32 := BitVec.ofNat 32 (address.toNat / 2 ^ 80)

-- The embedded address of an IPv4-mapped, IPv4-compatible, translated (NAT64) or 6to4 address.
def embedded (address : BitVec 128) : Option (BitVec 32) :=
  if mappedBlock.Holds address ∨ compatibleBlock.Holds address ∨ translatedBlock.Holds address then
    some (lastAddress address)
  else if sixToFourBlock.Holds address then
    some (siteAddress address)
  else
    none

section Mapped

variable {address : BitVec 128}

theorem segments_eq : segments address = [segment address 0, segment address 1, segment address 2, segment address 3,
    segment address 4, segment address 5, segment address 6, segment address 7] := rfl

theorem toIpv4Mapped_eq
    : toIpv4Mapped address = if mappedBlock.Holds address then some (lastAddress address) else none := by
  have hlt := address.isLt
  have hsegments : mappedBlock.Holds address ↔ segments address
      = [0, 0, 0, 0, 0, 0xffff, segment address 6, segment address 7] := by
    have hnetwork : mappedBlock.network.toNat = 0xffff * 2 ^ 32 := by decide
    rw [segments_eq]
    unfold Block.Holds segment
    rw [hnetwork]
    simp only [mappedBlock, List.cons.injEq, and_true]
    omega
  split
  . next hmapped =>
    have hlast : BitVec.ofNat 32 (segment address 6 * 65536 + segment address 7) = lastAddress address := by
      unfold lastAddress segment
      apply BitVec.eq_of_toNat_eq
      rw [BitVec.toNat_ofNat, BitVec.toNat_ofNat]
      omega
    unfold toIpv4Mapped
    rw [hsegments.mp hmapped]
    exact congrArg some hlast
  . next hother =>
    unfold toIpv4Mapped
    split
    . next ab cd hparts =>
      apply absurd (hsegments.mpr _) hother
      rw [segments_eq] at hparts ⊢
      simp only [List.cons.injEq, and_true] at hparts ⊢
      omega
    . rfl

end Mapped

end Ipv6Addr
