import Pliego.Lib.Hex
import Pliego.Lib.Sha2
import Pliego.Pboc.Manifest

/-!
The digest of the contracts that a runtime is bound to, and when it tells two runtimes apart.
-/

namespace Pliego

namespace Pboc

open Bytes

structure RuntimeContractBinding where
  id : String
  sha256 : String
  deriving DecidableEq

def RuntimeContractBinding.bytes (entry : RuntimeContractBinding) : List UInt8 :=
  lenPrefixed (utf8 entry.id) ++ utf8 entry.sha256

-- The arguments of one call of `runtime_contract_sha256_v1`.
structure RuntimeContract where
  routeGraphSha256 : String
  actions : List RuntimeContractBinding
  loaders : List RuntimeContractBinding
  caches : List RuntimeContractBinding
  deriving DecidableEq

namespace RuntimeContract

def preimage (contract : RuntimeContract) : List UInt8 :=
  utf8 "pliego-runtime-contract-v1" ++ [0] ++ utf8 contract.routeGraphSha256
    ++ [contract.actions, contract.loaders, contract.caches].flatMap fun entries =>
      entries.flatMap RuntimeContractBinding.bytes

def runtimeContractSha256V1 (sha256 : List UInt8 → List UInt8) (contract : RuntimeContract) : String :=
  encodeHex (sha256 contract.preimage)

def entries (contract : RuntimeContract) : List RuntimeContractBinding :=
  contract.actions ++ contract.loaders ++ contract.caches

end RuntimeContract

structure RuntimeContractBinding.Valid (entry : RuntimeContractBinding) : Prop where
  nonempty : entry.id ≠ ""
  noNul : 0 ∉ utf8 entry.id
  length : (utf8 entry.id).length < 256
  digest : (utf8 entry.sha256).length = 64 ∧ (utf8 entry.sha256).all isLowerHex

-- What `bounded_id` and `sha256` accept is valid.
theorem RuntimeContractBinding.valid_of_checks {entry : RuntimeContractBinding} {label label' : String}
    (hid : boundedId entry.id label = .ok ()) (hdigest : Pboc.sha256 entry.sha256 label' = .ok ())
    : entry.Valid := by
  obtain ⟨_, _, hportable⟩ := Except.bind_eq_ok.mp hid
  rw [ensure_ok] at hportable
  unfold Pboc.sha256 at hdigest
  rw [ensure_ok, Bool.and_eq_true, decide_eq_true_eq] at hdigest
  unfold isPortableId at hportable
  split at hportable
  . cases hportable
  . next first rest hbytes =>
    simp only [Bool.and_eq_true, decide_eq_true_eq, List.all_eq_true] at hportable
    obtain ⟨⟨⟨⟨⟨⟨hlength, hfirst⟩, hrest⟩, _⟩, _⟩, _⟩, _⟩ := hportable
    refine ⟨?_, ?_, by omega, hdigest⟩
    . intro hempty
      rw [hempty] at hbytes
      cases hbytes
    . intro hzero
      rw [hbytes, List.mem_cons] at hzero
      cases hzero with
      | inl hzero =>
        rw [← hzero] at hfirst
        exact absurd hfirst (by decide)
      | inr hzero => exact absurd (hrest 0 hzero) (by decide)

section Framing

variable {entry : RuntimeContractBinding} {first second : List RuntimeContractBinding}

def framed (entries : List RuntimeContractBinding) : List UInt8 := entries.flatMap RuntimeContractBinding.bytes

theorem RuntimeContract.preimage_eq (contract : RuntimeContract)
    : contract.preimage
      = utf8 "pliego-runtime-contract-v1" ++ [0] ++ utf8 contract.routeGraphSha256 ++ framed contract.entries := by
  unfold preimage entries framed
  rw [List.flatMap_append, List.flatMap_append, List.flatMap_cons, List.flatMap_cons, List.flatMap_singleton,
    List.append_assoc (contract.actions.flatMap _)]

theorem beBytes_of_small {n : Nat} (h : n < 256) : beBytes 8 n = List.replicate 7 0 ++ [UInt8.ofNat n] := by
  have hzero : n / 256 = 0 := by omega
  unfold beBytes
  rw [hzero]
  rfl

theorem RuntimeContractBinding.Valid.bytes_eq (h : entry.Valid)
    : entry.bytes = List.replicate 7 0 ++ (UInt8.ofNat (utf8 entry.id).length :: (utf8 entry.id ++ utf8 entry.sha256)) := by
  unfold RuntimeContractBinding.bytes lenPrefixed
  rw [beBytes_of_small h.length, List.append_assoc, List.append_assoc, List.singleton_append]

theorem RuntimeContractBinding.Valid.zeros (h : entry.Valid)
    : ∃ tail, entry.bytes = List.replicate 7 0 ++ tail ∧ tail ≠ [] ∧ ∀ byte ∈ tail, byte ≠ 0 := by
  refine ⟨_, h.bytes_eq, List.cons_ne_nil _ _, ?_⟩
  intro byte hbyte hzero
  subst hzero
  cases List.mem_cons.mp hbyte with
  | inl hlength =>
    have hmod := congrArg UInt8.toNat hlength
    have hsmall := h.length
    rw [UInt8.toNat_ofNat'] at hmod
    have hempty : (utf8 entry.id).length = 0 := by
      rw [← Nat.mod_eq_of_lt hsmall, ← hmod]
      rfl
    exact h.nonempty (utf8_eq_nil_iff.mp (List.eq_nil_of_length_eq_zero hempty))
  | inr hrest =>
    cases List.mem_append.mp hrest with
    | inl hid => exact h.noNul hid
    | inr hdigest => cases List.all_eq_true.mp h.digest.2 0 hdigest

theorem RuntimeContractBinding.Valid.append_inj {other : RuntimeContractBinding} (h : entry.Valid)
    (hother : other.Valid) {x y : List UInt8} (hsame : entry.bytes ++ x = other.bytes ++ y)
    : entry = other ∧ x = y := by
  unfold RuntimeContractBinding.bytes at hsame
  rw [List.append_assoc, List.append_assoc] at hsame
  have hshort := h.length
  have hshort' := hother.length
  obtain ⟨hid, hrest⟩ := lenPrefixed_append_inj (by omega) (by omega) hsame
  obtain ⟨hdigest, hrest⟩ := List.append_inj hrest (h.digest.1.trans hother.digest.1.symm)
  refine ⟨?_, hrest⟩
  cases entry
  cases other
  exact congrArg₂ _ (utf8_inj hid) (utf8_inj hdigest)

theorem RuntimeContractBinding.Valid.begins (h : entry.Valid) {front back rest : List UInt8} (hfront : front ≠ [])
    (hback : back ≠ []) (hsplit : entry.bytes = front ++ back) {other : RuntimeContractBinding} (hother : other.Valid)
    {later : List UInt8} (hsame : back ++ rest = other.bytes ++ later)
    : False := by
  obtain ⟨tail, hbytes, htail, hnonzero⟩ := h.zeros
  obtain ⟨tail', hbytes', _, _⟩ := hother.zeros
  rw [hbytes] at hsplit
  rw [hbytes'] at hsame
  have hdrop := congrArg (List.drop front.length) hsplit
  rw [List.drop_left, List.drop_append, List.length_replicate, List.drop_replicate] at hdrop
  have hpos := List.length_pos_iff.mpr hfront
  have hlength := congrArg List.length hsplit
  rw [List.length_append, List.length_append, List.length_replicate] at hlength
  have hlater := List.length_pos_iff.mpr hback
  have hfull := List.length_pos_iff.mpr htail
  cases hend : tail.drop (front.length - 7) with
  | nil =>
    have hshort := List.drop_eq_nil_iff.mp hend
    omega
  | cons byte bytes =>
    have hbyte : byte ∈ tail := by
      apply List.mem_of_mem_drop (i := front.length - 7)
      rw [hend]
      exact .head _
    rw [← hdrop, hend] at hsame
    have hleft : (List.replicate (7 - front.length) 0 ++ byte :: bytes ++ rest)[7 - front.length]? = some byte := by
      rw [List.append_assoc, List.getElem?_append_right (by simp), List.length_replicate, Nat.sub_self]
      rfl
    have hright : (List.replicate 7 0 ++ tail' ++ later)[7 - front.length]? = some 0 := by
      rw [List.append_assoc, List.getElem?_append_left (by rw [List.length_replicate]; omega)]
      exact List.getElem?_replicate_of_lt (by omega)
    rw [hsame, hright] at hleft
    exact hnonzero byte hbyte (Option.some.inj hleft).symm

theorem framed_cons (entry : RuntimeContractBinding) (rest : List RuntimeContractBinding)
    : framed (entry :: rest) = entry.bytes ++ framed rest := List.flatMap_cons

theorem RuntimeContractBinding.Valid.bytes_ne_nil (h : entry.Valid) : entry.bytes ≠ [] := by
  rw [h.bytes_eq]
  nofun

section

variable (hfirst : ∀ entry ∈ first, entry.Valid)

include hfirst

theorem framed_eq_nil (h : framed first = []) : first = [] := by
  cases first with
  | nil => rfl
  | cons entry rest => cases (hfirst entry (.head _)).bytes_ne_nil (List.append_eq_nil_iff.mp h).1

theorem framed_inj (hsecond : ∀ entry ∈ second, entry.Valid) (hsame : framed first = framed second)
    : first = second := by
  induction first generalizing second with
  | nil => exact (framed_eq_nil hsecond hsame.symm).symm
  | cons entry rest ih =>
    cases second with
    | nil => exact framed_eq_nil hfirst hsame
    | cons other later =>
      rw [framed_cons, framed_cons] at hsame
      obtain ⟨hentry, hrest⟩ := (hfirst entry (.head _)).append_inj (hsecond other (.head _)) hsame
      rw [hentry, ih (fun entry hentry => hfirst entry (.tail _ hentry)) (fun entry hentry => hsecond entry (.tail _ hentry)) hrest]

theorem framed_split (hsecond : ∀ entry ∈ second, entry.Valid)
    {front : List UInt8} (hsame : framed first = front ++ framed second)
    : ∃ k ≤ first.length, front = framed (first.take k) ∧ second = first.drop k := by
  induction first generalizing front with
  | nil =>
    obtain ⟨hfront, hempty⟩ := List.append_eq_nil_iff.mp hsame.symm
    exact ⟨0, Nat.le_refl 0, hfront, framed_eq_nil hsecond hempty⟩
  | cons entry rest ih =>
    by_cases hnil : front = []
    . refine ⟨0, Nat.zero_le _, hnil, ?_⟩
      rw [hnil, List.nil_append] at hsame
      exact (framed_inj hfirst hsecond hsame).symm
    . have hentry := hfirst entry (.head _)
      rw [framed_cons] at hsame
      cases List.append_eq_append_iff.mp hsame with
      | inl hlong =>
        obtain ⟨middle, hfront, hmiddle⟩ := hlong
        obtain ⟨k, hk, hfronts, hdropped⟩ := ih (fun other hother => hfirst other (.tail _ hother)) hmiddle
        refine ⟨k + 1, Nat.succ_le_succ hk, ?_, hdropped⟩
        rw [hfront, hfronts]
        exact (framed_cons entry _).symm
      | inr hshort =>
        obtain ⟨back, hbytes, hback⟩ := hshort
        by_cases hend : back = []
        . refine ⟨1, Nat.succ_le_succ (Nat.zero_le _), ?_, ?_⟩
          . rw [hend, List.append_nil] at hbytes
            rw [← hbytes]
            exact (List.append_nil _).symm
          . rw [hend, List.nil_append] at hback
            exact framed_inj hsecond (fun other hother => hfirst other (.tail _ hother)) hback
        . cases second with
          | nil =>
            unfold framed at hback
            cases hend (List.append_eq_nil_iff.mp hback.symm).1
          | cons other later =>
            rw [framed_cons] at hback
            cases hentry.begins hnil hend hbytes (hsecond other (.head _)) hback.symm

end

end Framing

namespace RuntimeContract

structure Valid (contract : RuntimeContract) : Prop where
  entries : ∀ entry ∈ contract.entries, entry.Valid

-- The route graph digest of `second` goes on with the first bindings of `first`.
def Continues (first second : RuntimeContract) : Prop :=
  ∃ k, 0 < k ∧ k ≤ first.entries.length
    ∧ utf8 second.routeGraphSha256 = utf8 first.routeGraphSha256 ++ framed (first.entries.take k)
    ∧ second.entries = first.entries.drop k

-- The same bindings in a row play the same roles, and no route graph digest has bindings in it.
structure Apart (first second : RuntimeContract) : Prop where
  unextended : ¬ Continues first second
  unshortened : ¬ Continues second first
  roles : first.routeGraphSha256 = second.routeGraphSha256 → first.entries = second.entries →
    first.actions.length = second.actions.length ∧ first.loaders.length = second.loaders.length

variable {first second : RuntimeContract}

theorem Continues.preimage (h : Continues first second) : first.preimage = second.preimage := by
  obtain ⟨k, _, _, hroute, hentries⟩ := h
  rw [preimage_eq, preimage_eq, hroute, hentries, List.append_assoc, List.append_assoc _ (utf8 _ ++ _),
    List.append_assoc (utf8 first.routeGraphSha256)]
  unfold framed
  rw [← List.flatMap_append, List.take_append_drop]

theorem framed_take_ne_nil (hvalid : first.Valid) {k : Nat} (hpos : 0 < k) (hk : k ≤ first.entries.length)
    : framed (first.entries.take k) ≠ [] := by
  intro hframed
  have hnil := framed_eq_nil (fun entry hentry => hvalid.entries entry (List.mem_of_mem_take hentry)) hframed
  have hlength := congrArg List.length hnil
  rw [List.length_take, List.length_nil] at hlength
  omega

theorem Continues.ne (hvalid : first.Valid) (h : Continues first second) : first ≠ second := by
  intro hsame
  obtain ⟨k, hpos, hk, hroute, _⟩ := h
  rw [← hsame] at hroute
  exact framed_take_ne_nil hvalid hpos hk (List.append_right_eq_self.mp hroute.symm)

-- Digests of one length have no bindings in them.
theorem unextended_of_length (hvalid : first.Valid)
    (hlength : (utf8 first.routeGraphSha256).length = (utf8 second.routeGraphSha256).length)
    : ¬ Continues first second := by
  rintro ⟨k, hpos, hk, hroute, _⟩
  rw [hroute, List.length_append] at hlength
  apply framed_take_ne_nil hvalid hpos hk
  apply List.eq_nil_of_length_eq_zero
  omega

theorem apart_iff_of_length (hfirst : first.Valid) (hsecond : second.Valid)
    (hlength : (utf8 first.routeGraphSha256).length = (utf8 second.routeGraphSha256).length)
    : Apart first second
      ↔ (first.routeGraphSha256 = second.routeGraphSha256 → first.entries = second.entries →
          first.actions.length = second.actions.length ∧ first.loaders.length = second.loaders.length) :=
  ⟨Apart.roles, fun hroles =>
    ⟨unextended_of_length hfirst hlength, unextended_of_length hsecond hlength.symm, hroles⟩⟩

theorem eq_of_roles (hroute : first.routeGraphSha256 = second.routeGraphSha256)
    (hentries : first.entries = second.entries) (hactions : first.actions.length = second.actions.length)
    (hloaders : first.loaders.length = second.loaders.length)
    : first = second := by
  cases first
  cases second
  unfold entries at hentries
  dsimp only at *
  rw [List.append_assoc, List.append_assoc] at hentries
  obtain ⟨rfl, hrest⟩ := List.append_inj hentries hactions
  obtain ⟨rfl, rfl⟩ := List.append_inj hrest hloaders
  rw [hroute]

theorem same_route_or_continues (hfirst : first.Valid) (hsecond : second.Valid)
    (h : first.preimage = second.preimage)
    : (first.routeGraphSha256 = second.routeGraphSha256 ∧ first.entries = second.entries)
      ∨ Continues first second ∨ Continues second first := by
  have hcase : ∀ {a b : RuntimeContract}, a.Valid → b.Valid → ∀ front,
      utf8 b.routeGraphSha256 = utf8 a.routeGraphSha256 ++ front →
      framed a.entries = front ++ framed b.entries →
      (a.routeGraphSha256 = b.routeGraphSha256 ∧ a.entries = b.entries) ∨ Continues a b := by
    intro a b ha hb front hroute hframed
    obtain ⟨k, hk, hfront, hdropped⟩ := framed_split ha.entries hb.entries hframed
    cases k with
    | zero =>
      refine .inl ⟨?_, hdropped.symm⟩
      rw [hfront] at hroute
      exact (utf8_inj (hroute.trans (List.append_nil _))).symm
    | succ k => exact .inr ⟨k + 1, Nat.succ_pos k, hk, hfront ▸ hroute, hdropped⟩
  rw [preimage_eq, preimage_eq, List.append_assoc, List.append_assoc _ _ (framed second.entries)] at h
  have hrest := List.append_cancel_left h
  cases List.append_eq_append_iff.mp hrest with
  | inl hlong =>
    obtain ⟨front, hroute, hframed⟩ := hlong
    exact (hcase hfirst hsecond front hroute hframed).imp_right .inl
  | inr hshort =>
    obtain ⟨front, hroute, hframed⟩ := hshort
    exact (hcase hsecond hfirst front hroute hframed).imp (fun h => ⟨h.1.symm, h.2.symm⟩) .inr

theorem runtime_contract_binds_iff {sha256 : List UInt8 → List UInt8} (hfirst : first.Valid)
    (hsecond : second.Valid)
    (hinjective : sha256 first.preimage = sha256 second.preimage → first.preimage = second.preimage)
    : (first.runtimeContractSha256V1 sha256 = second.runtimeContractSha256V1 sha256 → first = second)
      ↔ Apart first second := by
  have hdigest : first.runtimeContractSha256V1 sha256 = second.runtimeContractSha256V1 sha256
      ↔ first.preimage = second.preimage := by
    constructor
    . exact fun hsame => hinjective (encodeHex_inj hsame)
    . intro hsame
      unfold runtimeContractSha256V1
      rw [hsame]
  rw [hdigest]
  constructor
  . intro hbinds
    constructor
    . exact fun hcontinues => hcontinues.ne hfirst (hbinds hcontinues.preimage)
    . exact fun hcontinues => hcontinues.ne hsecond (hbinds hcontinues.preimage.symm).symm
    . intro hroute hentries
      have hsame := hbinds (by rw [preimage_eq, preimage_eq, hroute, hentries])
      rw [hsame]
      exact ⟨rfl, rfl⟩
  . intro hapart hsame
    cases same_route_or_continues hfirst hsecond hsame with
    | inl hboth =>
      obtain ⟨hroute, hentries⟩ := hboth
      obtain ⟨hactions, hloaders⟩ := hapart.roles hroute hentries
      exact eq_of_roles hroute hentries hactions hloaders
    | inr hcontinues =>
      cases hcontinues with
      | inl hcontinues => cases hapart.unextended hcontinues
      | inr hcontinues => cases hapart.unshortened hcontinues

def sampleBinding : RuntimeContractBinding := ⟨"save-note", String.ofList (List.replicate 64 'a')⟩

theorem sampleBinding_valid : sampleBinding.Valid where
  nonempty := by decide
  noNul := by decide
  length := by decide
  digest := ⟨rfl, rfl⟩

def asAction : RuntimeContract := ⟨"graph", [sampleBinding], [], []⟩

def asLoader : RuntimeContract := ⟨"graph", [], [sampleBinding], []⟩

def asBoth : RuntimeContract := ⟨"graph", [sampleBinding], [sampleBinding], []⟩

theorem asContract_valid : asAction.Valid ∧ asLoader.Valid ∧ asBoth.Valid := by
  refine ⟨⟨?_⟩, ⟨?_⟩, ⟨?_⟩⟩
  all_goals
    intro entry hentry
    have hsame : entry = sampleBinding := by simpa [entries, asAction, asLoader, asBoth] using hentry
    rw [hsame]
    exact sampleBinding_valid

theorem asAction_preimage : asAction.preimage = asLoader.preimage := by
  rw [preimage_eq, preimage_eq]
  rfl

-- One pair under one digest and one pair told apart.
theorem runtime_contract_binds_iff_samples
    : ¬ Apart asAction asLoader
      ∧ Apart asAction asBoth
      ∧ (asAction.runtimeContractSha256V1 Sha2.digest = asBoth.runtimeContractSha256V1 Sha2.digest
          → asAction = asBoth) := by
  obtain ⟨haction, hloader, hboth⟩ := asContract_valid
  have hapart : Apart asAction asBoth := by
    rw [apart_iff_of_length haction hboth rfl]
    intro _ hentries
    cases congrArg List.length hentries
  have hdiffer : Sha2.digest asAction.preimage ≠ Sha2.digest asBoth.preimage := by decide +kernel
  refine ⟨?_, hapart, ?_⟩
  . intro hclaimed
    have hdigest : asAction.runtimeContractSha256V1 Sha2.digest = asLoader.runtimeContractSha256V1 Sha2.digest := by
      unfold runtimeContractSha256V1
      rw [asAction_preimage]
    have hsame := (runtime_contract_binds_iff haction hloader fun _ => asAction_preimage).mpr hclaimed hdigest
    exact absurd (congrArg RuntimeContract.actions hsame) (by decide)
  . exact (runtime_contract_binds_iff haction hboth fun hsame => absurd hsame hdiffer).mpr hapart

-- The contract of an action is that of a loader under the same digest.
theorem action_passes_as_loader
    : asAction.Valid ∧ asLoader.Valid ∧ asAction.preimage = asLoader.preimage
      ∧ asAction.runtimeContractSha256V1 Sha2.digest = asLoader.runtimeContractSha256V1 Sha2.digest
      ∧ asAction.actions ≠ asLoader.actions := by
  obtain ⟨haction, hloader, _⟩ := asContract_valid
  refine ⟨haction, hloader, asAction_preimage, ?_, by decide⟩
  unfold runtimeContractSha256V1
  rw [asAction_preimage]

end RuntimeContract

end Pboc

end Pliego
