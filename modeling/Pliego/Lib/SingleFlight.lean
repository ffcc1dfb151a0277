import Mathlib.Logic.Function.Basic
import Mathlib.Data.List.Basic

/-!
Shared flights: a table with at most one flight for each key, the tasks that fly them, and the results they leave.
-/

namespace SingleFlight

structure Flight (κ : Type) where
  key : κ
  number : Nat
  landed : Bool

@[ext]
structure Flights (κ ι ρ : Type) where
  table : κ → Option Nat
  flying : ι → Option (Flight κ)
  results : List (Option ρ)

variable {κ ι ρ : Type} [DecidableEq κ] [DecidableEq ι]

namespace Flights

def takeOff (flights : Flights κ ι ρ) (i : ι) (key : κ) : Flights κ ι ρ where
  table := Function.update flights.table key (some flights.results.length)
  flying := Function.update flights.flying i (some ⟨key, flights.results.length, false⟩)
  results := flights.results ++ [none]

def land (flights : Flights κ ι ρ) (i : ι) (flight : Flight κ) (result : ρ) : Flights κ ι ρ where
  table := flights.table
  flying := Function.update flights.flying i (some { flight with landed := true })
  results := flights.results.set flight.number (some result)

def clear (flights : Flights κ ι ρ) (i : ι) (flight : Flight κ) : Flights κ ι ρ where
  table := Function.update flights.table flight.key none
  flying := Function.update flights.flying i none
  results := flights.results

inductive Step (flights : Flights κ ι ρ) : Flights κ ι ρ → Prop where
  | rest : Step flights flights
  | takeOff {i : ι} {key : κ} (hfree : flights.table key = none) (hidle : flights.flying i = none)
    : Step flights (flights.takeOff i key)
  | land {i : ι} {flight : Flight κ} {result : ρ} (hflying : flights.flying i = some flight)
    (haloft : flight.landed = false)
    : Step flights (flights.land i flight result)
  | clear {i : ι} {flight : Flight κ} (hflying : flights.flying i = some flight) (hlanded : flight.landed = true)
    : Step flights (flights.clear i flight)

structure Sound (flights : Flights κ ι ρ) : Prop where
  listed : ∀ i flight, flights.flying i = some flight → flights.table flight.key = some flight.number
  flown : ∀ key number, flights.table key = some number →
    ∃ i flight, flights.flying i = some flight ∧ flight.key = key ∧ flight.number = number
  alone : ∀ i j flight other, flights.flying i = some flight → flights.flying j = some other →
    flight.number = other.number → i = j
  aloft : ∀ i flight, flights.flying i = some flight → flight.landed = false →
    flights.results[flight.number]? = some none
  landed : ∀ i flight, flights.flying i = some flight → flight.landed = true →
    ∃ result, flights.results[flight.number]? = some (some result)
  unfinished : ∀ number, flights.results[number]? = some none →
    ∃ i flight, flights.flying i = some flight ∧ flight.number = number ∧ flight.landed = false

section Sound

variable {flights next : Flights κ ι ρ} {i j : ι} {key : κ} {flight other : Flight κ} {result : ρ}

omit [DecidableEq κ] [DecidableEq ι] in
theorem Sound.once (h : flights.Sound) (hi : flights.flying i = some flight) (hj : flights.flying j = some other)
    (hkey : flight.key = other.key)
    : i = j := by
  have hlisted := h.listed i flight hi
  rw [hkey, h.listed j other hj, Option.some.injEq] at hlisted
  exact h.alone i j flight other hi hj hlisted.symm

omit [DecidableEq κ] [DecidableEq ι] in
theorem Sound.number_lt (h : flights.Sound) (hi : flights.flying i = some flight)
    : flight.number < flights.results.length := by
  cases hlanded : flight.landed with
  | false => exact (List.getElem?_eq_some_iff.mp (h.aloft i flight hi hlanded)).1
  | true =>
    obtain ⟨result, hresult⟩ := h.landed i flight hi hlanded
    exact (List.getElem?_eq_some_iff.mp hresult).1

omit [DecidableEq κ] in
theorem flying_update {flying : ι → Option (Flight κ)} {value : Option (Flight κ)}
    (h : Function.update flying i value j = some flight)
    : (j = i ∧ value = some flight) ∨ (j ≠ i ∧ flying j = some flight) := by
  by_cases hsame : j = i
  . rw [hsame, Function.update_self] at h
    exact .inl ⟨hsame, h⟩
  . rw [Function.update_of_ne hsame] at h
    exact .inr ⟨hsame, h⟩

theorem Sound.takeOff (h : flights.Sound) (hfree : flights.table key = none) (hidle : flights.flying i = none)
    : (flights.takeOff i key).Sound where
  listed := by
    intro j flight hj
    obtain ⟨-, hnew⟩ | ⟨-, hold⟩ := flying_update hj
    . cases hnew
      exact Function.update_self _ _ _
    . have hlisted := h.listed j flight hold
      have hkey : flight.key ≠ key := by
        rintro rfl
        rw [hfree] at hlisted
        cases hlisted
      exact (Function.update_of_ne hkey _ _).trans hlisted
  flown := by
    intro key' number hnumber
    by_cases hkey : key' = key
    . have hself : (flights.takeOff i key).table key = some flights.results.length := Function.update_self _ _ _
      rw [hkey, hself] at hnumber
      cases hnumber
      exact ⟨i, _, Function.update_self _ _ _, hkey.symm, rfl⟩
    . have hold : flights.table key' = some number := (Function.update_of_ne hkey _ _).symm.trans hnumber
      obtain ⟨j, flight, hj, hsame⟩ := h.flown key' number hold
      refine ⟨j, flight, (Function.update_of_ne ?_ _ _).trans hj, hsame⟩
      rintro rfl
      rw [hidle] at hj
      cases hj
  alone := by
    intro j j' flight other hj hj' hnumber
    obtain ⟨hi, hnew⟩ | ⟨hi, hold⟩ := flying_update hj
    . obtain ⟨hi', -⟩ | ⟨-, hold'⟩ := flying_update hj'
      . rw [hi, hi']
      . cases hnew
        exact absurd (h.number_lt hold') (by rw [← hnumber]; exact Nat.lt_irrefl _)
    . obtain ⟨-, hnew'⟩ | ⟨-, hold'⟩ := flying_update hj'
      . cases hnew'
        exact absurd (h.number_lt hold) (by rw [hnumber]; exact Nat.lt_irrefl _)
      . exact h.alone j j' flight other hold hold' hnumber
  aloft := by
    intro j flight hj hlanded
    obtain ⟨-, hnew⟩ | ⟨-, hold⟩ := flying_update hj
    . cases hnew
      exact List.getElem?_concat_length
    . exact (List.getElem?_append_left (h.number_lt hold)).trans (h.aloft j flight hold hlanded)
  landed := by
    intro j flight hj hlanded
    obtain ⟨-, hnew⟩ | ⟨-, hold⟩ := flying_update hj
    . cases hnew
      cases hlanded
    . obtain ⟨result, hresult⟩ := h.landed j flight hold hlanded
      exact ⟨result, (List.getElem?_append_left (h.number_lt hold)).trans hresult⟩
  unfinished := by
    intro number hnumber
    by_cases hlt : number < flights.results.length
    . have hold : flights.results[number]? = some none := (List.getElem?_append_left hlt).symm.trans hnumber
      obtain ⟨j, flight, hj, hsame⟩ := h.unfinished number hold
      refine ⟨j, flight, (Function.update_of_ne ?_ _ _).trans hj, hsame⟩
      rintro rfl
      rw [hidle] at hj
      cases hj
    . refine ⟨i, _, Function.update_self _ _ _, ?_, rfl⟩
      have hbound : number < (flights.results ++ [none]).length := (List.getElem?_eq_some_iff.mp hnumber).1
      rw [List.length_append, List.length_singleton] at hbound
      dsimp only
      omega

omit [DecidableEq κ] in
theorem Sound.land (h : flights.Sound) (hflying : flights.flying i = some flight)
    : (flights.land i flight result).Sound where
  listed := by
    intro j other hj
    obtain ⟨-, hnew⟩ | ⟨-, hold⟩ := flying_update hj
    . cases hnew
      exact h.listed i flight hflying
    . exact h.listed j other hold
  flown := by
    intro key number hnumber
    obtain ⟨j, other, hj, hkey, hsame⟩ := h.flown key number hnumber
    by_cases hi : j = i
    . rw [hi, hflying] at hj
      cases hj
      exact ⟨i, _, Function.update_self _ _ _, hkey, hsame⟩
    . exact ⟨j, other, (Function.update_of_ne hi _ _).trans hj, hkey, hsame⟩
  alone := by
    intro j j' other other' hj hj' hnumber
    obtain ⟨hi, hnew⟩ | ⟨hi, hold⟩ := flying_update hj
    . obtain ⟨hi', -⟩ | ⟨-, hold'⟩ := flying_update hj'
      . rw [hi, hi']
      . cases hnew
        rw [hi]
        exact h.alone i j' flight other' hflying hold' hnumber
    . obtain ⟨hi', hnew'⟩ | ⟨-, hold'⟩ := flying_update hj'
      . cases hnew'
        rw [hi']
        exact h.alone j i other flight hold hflying hnumber
      . exact h.alone j j' other other' hold hold' hnumber
  aloft := by
    intro j other hj hlanded
    obtain ⟨-, hnew⟩ | ⟨hi, hold⟩ := flying_update hj
    . cases hnew
      cases hlanded
    . have hne : flight.number ≠ other.number := fun hsame => hi (h.alone j i other flight hold hflying hsame.symm)
      exact (List.getElem?_set_ne hne).trans (h.aloft j other hold hlanded)
  landed := by
    intro j other hj hlanded
    obtain ⟨-, hnew⟩ | ⟨hi, hold⟩ := flying_update hj
    . cases hnew
      exact ⟨result, List.getElem?_set_self (h.number_lt hflying)⟩
    . have hne : flight.number ≠ other.number := fun hsame => hi (h.alone j i other flight hold hflying hsame.symm)
      obtain ⟨result', hresult⟩ := h.landed j other hold hlanded
      exact ⟨result', (List.getElem?_set_ne hne).trans hresult⟩
  unfinished := by
    intro number hnumber
    have hne : flight.number ≠ number := by
      rintro rfl
      have hself : (flights.results.set flight.number (some result))[flight.number]? = some (some result) :=
        List.getElem?_set_self (h.number_lt hflying)
      cases hself.symm.trans hnumber
    obtain ⟨j, other, hj, hsame, hlanded⟩ := h.unfinished number ((List.getElem?_set_ne hne).symm.trans hnumber)
    refine ⟨j, other, (Function.update_of_ne ?_ _ _).trans hj, hsame, hlanded⟩
    rintro rfl
    rw [hflying] at hj
    cases hj
    exact hne hsame

theorem Sound.clear (h : flights.Sound) (hflying : flights.flying i = some flight) (hlanded : flight.landed = true)
    : (flights.clear i flight).Sound where
  listed := by
    intro j other hj
    obtain ⟨-, hnew⟩ | ⟨hi, hold⟩ := flying_update hj
    . cases hnew
    . have hkey : other.key ≠ flight.key := fun hsame => hi (h.once hold hflying hsame)
      exact (Function.update_of_ne hkey _ _).trans (h.listed j other hold)
  flown := by
    intro key number hnumber
    by_cases hkey : key = flight.key
    . have hself : (flights.clear i flight).table flight.key = none := Function.update_self _ _ _
      rw [hkey, hself] at hnumber
      cases hnumber
    . obtain ⟨j, other, hj, hsame, hn⟩ := h.flown key number ((Function.update_of_ne hkey _ _).symm.trans hnumber)
      refine ⟨j, other, (Function.update_of_ne ?_ _ _).trans hj, hsame, hn⟩
      rintro rfl
      rw [hflying] at hj
      cases hj
      exact hkey hsame.symm
  alone := by
    intro j j' other other' hj hj' hnumber
    obtain ⟨-, hnew⟩ | ⟨-, hold⟩ := flying_update hj
    . cases hnew
    . obtain ⟨-, hnew'⟩ | ⟨-, hold'⟩ := flying_update hj'
      . cases hnew'
      . exact h.alone j j' other other' hold hold' hnumber
  aloft := by
    intro j other hj haloft
    obtain ⟨-, hnew⟩ | ⟨-, hold⟩ := flying_update hj
    . cases hnew
    . exact h.aloft j other hold haloft
  landed := by
    intro j other hj hlanded'
    obtain ⟨-, hnew⟩ | ⟨-, hold⟩ := flying_update hj
    . cases hnew
    . exact h.landed j other hold hlanded'
  unfinished := by
    intro number hnumber
    obtain ⟨j, other, hj, hsame, haloft⟩ := h.unfinished number hnumber
    refine ⟨j, other, (Function.update_of_ne ?_ _ _).trans hj, hsame, haloft⟩
    rintro rfl
    rw [hflying] at hj
    cases hj
    rw [hlanded] at haloft
    cases haloft

theorem Sound.step (h : flights.Sound) (hstep : flights.Step next) : next.Sound := by
  cases hstep with
  | rest => exact h
  | takeOff hfree hidle => exact h.takeOff hfree hidle
  | land hflying _ => exact h.land hflying
  | clear hflying hlanded => exact h.clear hflying hlanded

end Sound

end Flights

end SingleFlight
