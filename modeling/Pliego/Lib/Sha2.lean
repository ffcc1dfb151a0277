import Pliego.Lib.Bytes

/-!
SHA-256 on byte lists, over natural numbers reduced modulo `2 ^ 32`.
-/

namespace Sha2

open Bytes

def word (n : Nat) : Nat := n % 2 ^ 32

def rotr (n x : Nat) : Nat := word ((x >>> n) ||| (x <<< (32 - n)))

def complement (x : Nat) : Nat := x ^^^ 0xffffffff

def ch (e f g : Nat) : Nat := (e &&& f) ^^^ (complement e &&& g)

def maj (a b c : Nat) : Nat := (a &&& b) ^^^ (a &&& c) ^^^ (b &&& c)

def bigSigma0 (x : Nat) : Nat := rotr 2 x ^^^ rotr 13 x ^^^ rotr 22 x

def bigSigma1 (x : Nat) : Nat := rotr 6 x ^^^ rotr 11 x ^^^ rotr 25 x

def smallSigma0 (x : Nat) : Nat := rotr 7 x ^^^ rotr 18 x ^^^ (x >>> 3)

def smallSigma1 (x : Nat) : Nat := rotr 17 x ^^^ rotr 19 x ^^^ (x >>> 10)

def roundConstants : List Nat :=
  [0x428a2f98, 0x71374491, 0xb5c0fbcf, 0xe9b5dba5, 0x3956c25b, 0x59f111f1, 0x923f82a4, 0xab1c5ed5,
   0xd807aa98, 0x12835b01, 0x243185be, 0x550c7dc3, 0x72be5d74, 0x80deb1fe, 0x9bdc06a7, 0xc19bf174,
   0xe49b69c1, 0xefbe4786, 0x0fc19dc6, 0x240ca1cc, 0x2de92c6f, 0x4a7484aa, 0x5cb0a9dc, 0x76f988da,
   0x983e5152, 0xa831c66d, 0xb00327c8, 0xbf597fc7, 0xc6e00bf3, 0xd5a79147, 0x06ca6351, 0x14292967,
   0x27b70a85, 0x2e1b2138, 0x4d2c6dfc, 0x53380d13, 0x650a7354, 0x766a0abb, 0x81c2c92e, 0x92722c85,
   0xa2bfe8a1, 0xa81a664b, 0xc24b8b70, 0xc76c51a3, 0xd192e819, 0xd6990624, 0xf40e3585, 0x106aa070,
   0x19a4c116, 0x1e376c08, 0x2748774c, 0x34b0bcb5, 0x391c0cb3, 0x4ed8aa4a, 0x5b9cca4f, 0x682e6ff3,
   0x748f82ee, 0x78a5636f, 0x84c87814, 0x8cc70208, 0x90befffa, 0xa4506ceb, 0xbef9a3f7, 0xc67178f2]

structure Regs where
  a : Nat
  b : Nat
  c : Nat
  d : Nat
  e : Nat
  f : Nat
  g : Nat
  h : Nat

def initialRegs : Regs :=
  ⟨0x6a09e667, 0xbb67ae85, 0x3c6ef372, 0xa54ff53a, 0x510e527f, 0x9b05688c, 0x1f83d9ab, 0x5be0cd19⟩

def round (regs : Regs) (k w : Nat) : Regs :=
  let t1 := regs.h + bigSigma1 regs.e + ch regs.e regs.f regs.g + k + w
  let t2 := bigSigma0 regs.a + maj regs.a regs.b regs.c
  ⟨word (t1 + t2), regs.a, regs.b, regs.c, word (regs.d + t1), regs.e, regs.f, regs.g⟩

-- the schedule keeps a window of the last sixteen words
def nextWord (window : List Nat) : Nat :=
  word (smallSigma1 (window.getD 14 0) + window.getD 9 0 + smallSigma0 (window.getD 1 0)
    + window.getD 0 0)

def rounds (constants : List Nat) (window : List Nat) (regs : Regs) : Regs :=
  match constants with
  | [] => regs
  | k :: rest =>
    match window with
    | [] => regs
    | w :: tail => rounds rest (tail ++ [nextWord window]) (round regs k w)

def addRegs (x y : Regs) : Regs :=
  ⟨word (x.a + y.a), word (x.b + y.b), word (x.c + y.c), word (x.d + y.d),
    word (x.e + y.e), word (x.f + y.f), word (x.g + y.g), word (x.h + y.h)⟩

def toWords (bytes : List UInt8) : List Nat :=
  match bytes with
  | b0 :: b1 :: b2 :: b3 :: rest =>
    (((b0.toNat * 256 + b1.toNat) * 256 + b2.toNat) * 256 + b3.toNat) :: toWords rest
  | _ => []

def compress (regs : Regs) (block : List UInt8) : Regs :=
  addRegs regs (rounds roundConstants (toWords block) regs)

def blocks (n : Nat) (bytes : List UInt8) (regs : Regs) : Regs :=
  match n with
  | 0 => regs
  | n + 1 => blocks n (bytes.drop 64) (compress regs (bytes.take 64))

def pad (bytes : List UInt8) : List UInt8 :=
  bytes ++ [0x80] ++ List.replicate ((119 - bytes.length % 64) % 64) 0
    ++ beBytes 8 (bytes.length * 8)

def digest (bytes : List UInt8) : List UInt8 :=
  let padded := pad bytes
  let regs := blocks (padded.length / 64) padded initialRegs
  [regs.a, regs.b, regs.c, regs.d, regs.e, regs.f, regs.g, regs.h].flatMap (beBytes 4)

theorem digest_length (bytes : List UInt8) : (digest bytes).length = 32 := by
  unfold digest
  simp

example : (digest (utf8 "abc")).take 8 = [0xba, 0x78, 0x16, 0xbf, 0x8f, 0x01, 0xcf, 0xea] := by
  decide

end Sha2
