import Mathlib.Logic.Function.Basic
import Mathlib.Data.List.FinRange
import Mathlib.Data.Fin.Tuple.Basic

/-!
# SlotTable — records under keys in a fixed number of slots

A record that is free has no key.  A search goes from the first slot on.
-/

namespace NotProton.Library

variable {n : Nat} {σ κ : Type}

/-- The first slot that passes a test. -/
def firstSlot (p : Fin n → Bool) : Option (Fin n) := (List.finRange n).find? p

theorem firstSlot_eq_some {p : Fin n → Bool} {i : Fin n} : firstSlot p = some i ↔ p i = true ∧ ∀ j < i, p j = false := by
  rw [firstSlot, ← Fin.find?_eq_find?_finRange]
  exact Fin.find?_eq_some_iff

theorem firstSlot_eq_none {p : Fin n → Bool} : firstSlot p = none ↔ ∀ i, p i = false := by
  rw [firstSlot, ← Fin.find?_eq_find?_finRange]
  exact Fin.find?_eq_none_iff

/-- No key is in two slots. -/
def KeyedOnce (key : σ → Option κ) (t : Fin n → σ) : Prop :=
  ∀ i j k, key (t i) = some k → key (t j) = some k → i = j

section

variable {key : σ → Option κ} {t : Fin n → σ}

/-- A slot that gets no key, or one that no other slot has, leaves every key in one slot at most. -/
theorem KeyedOnce.update (h : KeyedOnce key t) {i : Fin n} {s : σ}
    (hfresh : ∀ j k, j ≠ i → key s = some k → key (t j) ≠ some k) : KeyedOnce key (Function.update t i s) := by
  intro a b k ha hb
  rw [Function.update_apply] at ha hb
  by_cases hai : a = i
  · by_cases hbi : b = i
    · rw [hai, hbi]
    · rw [if_pos hai] at ha
      rw [if_neg hbi] at hb
      exact absurd hb (hfresh b k hbi ha)
  · rw [if_neg hai] at ha
    by_cases hbi : b = i
    · rw [if_pos hbi] at hb
      exact absurd ha (hfresh a k hai hb)
    · rw [if_neg hbi] at hb
      exact h a b k ha hb

/-- Where no key is in two slots, the search for a key finds the slot that has it. -/
theorem KeyedOnce.firstSlot_eq_some (h : KeyedOnce key t) {p : Fin n → Bool} {i : Fin n} {k : κ}
    (hp : ∀ j, p j = true → key (t j) = some k) : firstSlot p = some i ↔ p i = true := by
  rw [Library.firstSlot_eq_some]
  apply and_iff_left_of_imp
  intro hi j hj
  rw [← Bool.not_eq_true]
  intro hpj
  exact absurd (h j i k (hp j hpj) (hp i hi)) (Fin.ne_of_lt hj)

end

end NotProton.Library
