import NotProton.Library.Lists

/-!
# Chain — following a link as long as it holds

A walk from one point to the next, cut off after a number of steps.  When the points it may pass are
few, a cut-off at their number is as good as any later one.
-/

namespace NotProton.Library

section chain

variable {α : Type*} (good : α → Bool) (next : α → Option α)

/-- Every point is good and the walk ends, within `fuel` points. -/
def ends : Nat → α → Bool
  | 0, _ => false
  | fuel + 1, a =>
      good a && match next a with
        | none => true
        | some b => ends fuel b

variable {good next}

theorem ends_succ {fuel : Nat} {a : α} : ends good next (fuel + 1) a = true ↔
    good a = true ∧ ∀ b, next a = some b → ends good next fuel b = true := by
  rw [ends, Bool.and_eq_true]
  cases next a <;> simp

theorem ends_mono {m n : Nat} {a : α} (h : ends good next m a = true) (hmn : m ≤ n) :
    ends good next n a = true := by
  induction m generalizing n a with
  | zero => cases h
  | succ m ih =>
    obtain ⟨n, rfl⟩ : ∃ k, n = k + 1 := ⟨n - 1, by omega⟩
    obtain ⟨hgood, hnext⟩ := ends_succ.mp h
    exact ends_succ.mpr ⟨hgood, fun b hb ↦ ih (hnext b hb) (by omega)⟩

/-- The walk ends within `n` points and not within fewer. -/
def EndsAt (good : α → Bool) (next : α → Option α) (n : Nat) (a : α) : Prop :=
  ends good next n a = true ∧ ∀ m < n, ends good next m a = false

/-- Below a point that ends at `n` there is one for every smaller number. -/
theorem EndsAt.below {n : Nat} {a : α} (h : EndsAt good next n a) {j : Nat} (hj : 0 < j) (hjn : j ≤ n) :
    ∃ b, good b = true ∧ EndsAt good next j b := by
  induction n generalizing a with
  | zero => omega
  | succ n ih =>
    by_cases hlast : j = n + 1
    · exact ⟨a, (ends_succ.mp h.1).1, hlast ▸ h⟩
    · cases hnext : next a with
      | none =>
        -- a walk that stops here would have ended at once
        have hone : ends good next 1 a = true :=
          ends_succ.mpr ⟨(ends_succ.mp h.1).1, fun b hb ↦ by rw [hnext] at hb; cases hb⟩
        rw [h.2 1 (by omega)] at hone
        cases hone
      | some b =>
        apply ih
        · constructor
          · exact (ends_succ.mp h.1).2 b hnext
          · intro m hm
            rw [← Bool.not_eq_true]
            intro hb
            have hsooner : ends good next (m + 1) a = true := by
              refine ends_succ.mpr ⟨(ends_succ.mp h.1).1, fun c hc ↦ ?_⟩
              rw [hnext] at hc
              rwa [← Option.some.inj hc]
            rw [h.2 (m + 1) (by omega)] at hsooner
            cases hsooner
        · omega

theorem EndsAt.unique {m n : Nat} {a : α} (hm : EndsAt good next m a) (hn : EndsAt good next n a) : m = n := by
  by_contra hne
  obtain hlt | hlt := Nat.lt_or_gt_of_ne hne
  · exact Bool.false_ne_true ((hn.2 m hlt).symm.trans hm.1)
  · exact Bool.false_ne_true ((hm.2 n hlt).symm.trans hn.1)

theorem exists_endsAt {n : Nat} {a : α} (h : ends good next n a = true) : ∃ m ≤ n, EndsAt good next m a := by
  classical
  have hex : ∃ m, ends good next m a = true := ⟨n, h⟩
  refine ⟨Nat.find hex, Nat.find_min' hex h, Nat.find_spec hex, fun m hm ↦ ?_⟩
  rw [← Bool.not_eq_true]
  exact Nat.find_min hex hm

/-- Among `L.length` points no walk is longer. -/
theorem ends_length {L : List α} (hL : ∀ a, good a = true → a ∈ L) {n : Nat} {a : α}
    (h : ends good next n a = true) : ends good next L.length a = true := by
  obtain ⟨m, -, hm⟩ := exists_endsAt h
  apply ends_mono hm.1
  -- the points below `a` are told apart by where they end
  choose point hgood hpoint using fun j : Fin m ↦ hm.below j.1.succ_pos (by omega : j.1 + 1 ≤ m)
  have hinj : Function.Injective point := by
    intro i j hij
    have hi := hpoint i
    rw [hij] at hi
    exact Fin.ext (by have := hi.unique (hpoint j); omega)
  classical
  calc m = (Finset.univ.image point).card := by rw [Finset.card_image_of_injective _ hinj, Finset.card_fin]
    _ ≤ L.toFinset.card := by
      apply Finset.card_le_card
      intro b hb
      obtain ⟨j, -, rfl⟩ := Finset.mem_image.mp hb
      exact List.mem_toFinset.mpr (hL _ (hgood j))
    _ ≤ L.length := L.toFinset_card_le

/-- Walks that agree at every good point agree. -/
theorem ends_congr {good' : α → Bool} {next' : α → Option α} (hgood : ∀ a, good a = good' a)
    (hnext : ∀ a, good a = true → next a = next' a) (n : Nat) (a : α) :
    ends good next n a = ends good' next' n a := by
  induction n generalizing a with
  | zero => rfl
  | succ n ih =>
    rw [ends, ends, ← hgood]
    cases h : good a with
    | false => rfl
    | true =>
      rw [← hnext a h]
      cases next a with
      | none => rfl
      | some b => exact congrArg (true && ·) (ih b)

end chain

end NotProton.Library
