import Pliego.Assets.Adaptive
import Pliego.Lib.Bytes
import Pliego.Lib.Windows

/-!
The search of a generated file for the codec that it should advertise.
-/

namespace Pliego

namespace Assets

open Bytes Windows

def readBuffer : Nat := 64 * 1024

-- What going back to the start of the file and the reads after it give. A read past the last one returns no bytes.
structure Reader where
  seek : Except String Unit
  reads : List (Except String (List UInt8))

-- The loop, with the end of what it has read, and how many reads it makes.
def fileContains.go (path : String) (needle previous : List UInt8) (reads : List (Except String (List UInt8)))
    : Except AssetError Bool × Nat :=
  match reads with
  | [] => (.ok false, 1)
  | .error source :: _ => (.error (.io path source), 1)
  | .ok read :: reads =>
    if read.length = 0 then
      (.ok false, 1)
    else if (windows needle.length (previous ++ read)).any (fun window => window == needle) then
      (.ok true, 1)
    else
      let keep := min (needle.length - 1) (previous ++ read).length
      let rest := fileContains.go path needle ((previous ++ read).drop ((previous ++ read).length - keep)) reads
      (rest.1, rest.2 + 1)

def fileContains (reader : Reader) (path : String) (needle : List UInt8) : Except AssetError Bool × Nat :=
  match reader.seek with
  | .error source => (.error (.io path source), 0)
  | .ok () => fileContains.go path needle [] reader.reads

inductive VideoFormat where
  | mp4H264
  | mp4Av1
  | webmVp9
  deriving DecidableEq

def VideoFormat.needles (format : VideoFormat) : List (List UInt8) :=
  match format with
  | .mp4H264 => [utf8 "avc1", utf8 "avc3"]
  | .mp4Av1 => [utf8 "av01"]
  | .webmVp9 => [utf8 "V_VP9"]

-- `readers` is what each search reads, the first one first.
def matchesCodec (readers : List Reader) (path : String) (needles : List (List UInt8)) : Except AssetError Bool :=
  match readers, needles with
  | reader :: readers, needle :: needles =>
    match (fileContains reader path needle).1 with
    | .error error => .error error
    | .ok true => .ok true
    | .ok false => matchesCodec readers path needles
  | _, _ => .ok false

-- A file is split into reads of at least one byte and at most a buffer.
structure Reader.Splits (reader : Reader) (content : List UInt8) (pieces : List (List UInt8)) : Prop where
  seek : reader.seek = .ok ()
  reads : reader.reads = pieces.map .ok
  sizes : ∀ piece ∈ pieces, 1 ≤ piece.length ∧ piece.length ≤ readBuffer
  content : pieces.flatten = content

section

variable {path : String} {needle : List UInt8} (hne : needle ≠ [])

include hne

theorem go_pieces {pieces : List (List UInt8)} (hsizes : ∀ piece ∈ pieces, 1 ≤ piece.length) {seen : List UInt8}
    (hseen : ¬ needle <:+: seen)
    : ∃ found count,
        fileContains.go path needle (lastOf (needle.length - 1) seen) (pieces.map .ok) = (.ok found, count)
          ∧ (found = true ↔ needle <:+: seen ++ pieces.flatten)
          ∧ count ≤ pieces.length + if found then 0 else 1 := by
  induction pieces generalizing seen with
  | nil =>
    refine ⟨false, 1, rfl, ?_, by simp⟩
    rw [List.flatten_nil, List.append_nil]
    exact iff_of_false Bool.false_ne_true hseen
  | cons piece pieces ih =>
    obtain ⟨hpiece, hpieces⟩ := List.forall_mem_cons.mp hsizes
    have hread : piece.length ≠ 0 := by omega
    have hwindow : (windows needle.length (lastOf (needle.length - 1) seen ++ piece)).any (· == needle) = true
        ↔ needle <:+: seen ++ piece := by
      rw [infix_append_iff hne hseen, ← mem_windows hne]
      simp
    rw [List.map_cons, fileContains.go, if_neg hread, List.flatten_cons, ← List.append_assoc]
    by_cases hfound : needle <:+: seen ++ piece
    . rw [if_pos (hwindow.mpr hfound)]
      refine ⟨true, 1, rfl, ?_, by simp⟩
      exact iff_of_true rfl (hfound.trans (List.prefix_append _ _).isInfix)
    . rw [if_neg (fun h => hfound (hwindow.mp h))]
      have hkept : (lastOf (needle.length - 1) seen ++ piece).drop ((lastOf (needle.length - 1) seen ++ piece).length
          - min (needle.length - 1) (lastOf (needle.length - 1) seen ++ piece).length)
          = lastOf (needle.length - 1) (seen ++ piece) := by
        rw [← lastOf_append]
        unfold lastOf
        congr 1
        omega
      obtain ⟨found, count, hgo, hiff, hcount⟩ := ih hpieces hfound
      dsimp only
      rw [hkept, hgo]
      refine ⟨found, count + 1, rfl, hiff, ?_⟩
      rw [List.length_cons]
      omega

end

theorem fileContains_eq {reader : Reader} {content : List UInt8} {pieces : List (List UInt8)}
    (hsplits : reader.Splits content pieces) (path : String) (needle : List UInt8)
    : fileContains reader path needle
      = fileContains.go path needle (lastOf (needle.length - 1) []) (pieces.map .ok) := by
  have hstart : lastOf (needle.length - 1) [] = ([] : List UInt8) := List.drop_nil
  unfold fileContains
  rw [hsplits.seek, hsplits.reads, hstart]

-- The search finds every occurrence, however the file is split, and reads each piece once.
theorem fileContains_iff {reader : Reader} {content needle : List UInt8} {pieces : List (List UInt8)} (path : String)
    (hne : needle ≠ []) (hsplits : reader.Splits content pieces)
    : ∃ found count, fileContains reader path needle = (.ok found, count)
        ∧ (found = true ↔ needle <:+: content) ∧ count ≤ pieces.length + if found then 0 else 1 := by
  rw [fileContains_eq hsplits, ← hsplits.content]
  apply go_pieces hne (fun piece hpiece => (hsplits.sizes piece hpiece).1)
  exact fun h => hne (List.infix_nil.mp h)

theorem fileContains_iff_straddling
    : ∃ found count, fileContains ⟨.ok (), [.ok (utf8 "ftypa"), .ok (utf8 "vc"), .ok (utf8 "1mp4")]⟩ "clip.mp4" (utf8 "avc1")
        = (.ok found, count)
        ∧ (found = true ↔ utf8 "avc1" <:+: utf8 "ftypavc1mp4") ∧ count ≤ 3 + if found then 0 else 1 :=
  @fileContains_iff _ _ _ [utf8 "ftypa", utf8 "vc", utf8 "1mp4"] "clip.mp4" (by decide)
    ⟨rfl, rfl, by decide, by decide⟩

theorem matchesCodec_iff {readers : List Reader} {content : List UInt8} {needles : List (List UInt8)} (path : String)
    (hneedles : ∀ needle ∈ needles, needle ≠ []) (hlength : readers.length = needles.length)
    (hsplits : ∀ reader ∈ readers, ∃ pieces, reader.Splits content pieces)
    : ∃ found, matchesCodec readers path needles = .ok found
        ∧ (found = true ↔ ∃ needle ∈ needles, needle <:+: content) := by
  induction needles generalizing readers with
  | nil =>
    refine ⟨false, ?_, by simp⟩
    cases readers <;> rfl
  | cons needle needles ih =>
    cases readers with
    | nil => cases hlength
    | cons reader readers =>
      obtain ⟨hne, hneedles⟩ := List.forall_mem_cons.mp hneedles
      obtain ⟨⟨pieces, hpieces⟩, hsplits⟩ := List.forall_mem_cons.mp hsplits
      obtain ⟨first, _, hsearch, hfirst, -⟩ := @go_pieces path needle hne pieces
        (fun piece hpiece => (hpieces.sizes piece hpiece).1) [] (fun h => hne (List.infix_nil.mp h))
      rw [List.nil_append, hpieces.content] at hfirst
      obtain ⟨found, hrest, hfound⟩ := ih hneedles (Nat.succ.inj hlength) hsplits
      simp only [List.mem_cons, exists_eq_or_imp, ← hfirst]
      unfold matchesCodec
      rw [fileContains_eq hpieces, hsearch]
      cases first with
      | true => exact ⟨true, rfl, by simp⟩
      | false => exact ⟨found, hrest, by simpa using hfound⟩

theorem needles_ne_nil (format : VideoFormat) : ∀ needle ∈ format.needles, needle ≠ [] := by
  cases format <;> decide

end Assets

end Pliego
