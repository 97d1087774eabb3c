import Mathlib

/-! Finding the one element of a list that fits, assignments made one after another, and the first name that is free. -/

namespace NotProton.Library

variable {α β : Type}

theorem find?_eq_some_of_unique {l : List α} {p : α → Bool} {a : α} (ha : a ∈ l)
    (hp : p a = true) (hu : ∀ b ∈ l, p b = true → b = a) : l.find? p = some a := by
  cases h : l.find? p with
  | none => exact absurd hp (by simpa using List.find?_eq_none.mp h a ha)
  | some b => rw [hu b (List.mem_of_find?_eq_some h) (List.find?_some h)]

theorem nodup_eq_singleton_iff {l : List α} (h : l.Nodup) (a : α) : l = [a] ↔ a ∈ l ∧ ∀ b ∈ l, b = a := by
  apply Iff.intro
  · rintro rfl
    simp
  · rintro ⟨ha, hall⟩
    have hrep := List.eq_replicate_of_mem hall
    rw [hrep, List.nodup_replicate] at h
    have hpos := List.length_pos_of_mem ha
    rw [hrep, show l.length = 1 by omega]
    rfl

theorem lookup_of_mem [BEq α] [LawfulBEq α] {l : List (α × β)} (hnodup : (l.map Prod.fst).Nodup)
    {k : α} {v : β} (h : (k, v) ∈ l) : l.lookup k = some v := by
  induction l with
  | nil => cases h
  | cons p l ih =>
    rw [List.map_cons, List.nodup_cons] at hnodup
    rcases List.mem_cons.mp h with rfl | h
    · simp
    · have hne : k ≠ p.1 := fun e ↦ hnodup.1 (e ▸ List.mem_map_of_mem (f := Prod.fst) h)
      rw [List.lookup_cons, beq_false_of_ne hne]
      exact ih hnodup.2 h

/-- Where a key has one value however often it stands there, finding it is being in the list. -/
theorem lookup_eq_some_iff_mem [BEq α] [LawfulBEq α] {l : List (α × β)}
    (h : ∀ k v w, (k, v) ∈ l → (k, w) ∈ l → v = w) {k : α} {v : β} : l.lookup k = some v ↔ (k, v) ∈ l := by
  have hmem : ∀ w, l.lookup k = some w → (k, w) ∈ l := by
    intro w hw
    obtain ⟨l₁, l₂, rfl, -⟩ := List.lookup_eq_some_iff.mp hw
    exact List.mem_append_right _ List.mem_cons_self
  constructor
  · exact hmem v
  · intro hv
    cases hl : l.lookup k with
    | none => exact absurd (List.lookup_eq_none_iff.mp hl _ hv) (by simp)
    | some w => rw [h k w v (hmem w hl) hv]

/-- Where all that `g` finds is one thing, finding it is its being found somewhere. -/
theorem findSome?_eq_some_iff {l : List α} {g : α → Option β}
    (h : ∀ a ∈ l, ∀ b ∈ l, ∀ x y, g a = some x → g b = some y → x = y) {x : β} :
    l.findSome? g = some x ↔ ∃ a ∈ l, g a = some x := by
  constructor
  · exact List.exists_of_findSome?_eq_some
  · rintro ⟨a, ha, hx⟩
    cases hl : l.findSome? g with
    | none => exact absurd (List.findSome?_eq_none_iff.mp hl a ha) (by rw [hx]; exact Option.some_ne_none x)
    | some y =>
      obtain ⟨b, hb, hy⟩ := List.exists_of_findSome?_eq_some hl
      rw [h a ha b hb x y hx hy]

/-- The last that `g` finds. -/
theorem foldl_last_or (g : α → Option β) (l : List α) (d : Option β) :
    l.foldl (fun d a ↦ (g a).or d) d = (l.reverse.findSome? g).or d := by
  induction l generalizing d with
  | nil => rfl
  | cons a l ih =>
    rw [List.foldl_cons, ih, List.reverse_cons, List.findSome?_append, List.findSome?_singleton, Option.or_assoc]

/-- The first of the names from the `i`-th on that is not taken, after at most so many that are. -/
def firstFree (taken : α → Bool) (name : Nat → α) : Nat → Nat → Nat
  | 0, i => i
  | tries + 1, i => if taken (name i) then firstFree taken name tries (i + 1) else i

theorem firstFree_taken {taken : α → Bool} {name : Nat → α} {tries i : Nat}
    (h : taken (name (firstFree taken name tries i)) = true) {k : Nat} (hk : k ≤ tries) : taken (name (i + k)) = true := by
  induction tries generalizing i k with
  | zero =>
    obtain rfl := Nat.le_zero.mp hk
    exact h
  | succ tries ih =>
    rw [firstFree] at h
    split_ifs at h with hi
    · cases k with
      | zero => exact hi
      | succ k =>
        rw [show i + (k + 1) = i + 1 + k by omega]
        exact ih h (by omega)
    · exact absurd h hi

/-- Among names that are all different one is free when there were more tries than names are taken. -/
theorem firstFree_free {taken : α → Bool} {name : Nat → α} (hinj : Function.Injective name) {l : List α}
    (hl : ∀ i, taken (name i) = true → name i ∈ l) {tries : Nat} (h : l.length ≤ tries) (i : Nat) :
    taken (name (firstFree taken name tries i)) = false := by
  by_contra hne
  have hall : ∀ k ≤ tries, taken (name (i + k)) = true := fun k ↦ firstFree_taken (Bool.eq_true_of_not_eq_false hne)
  have hnodup : ((List.range (tries + 1)).map fun k ↦ name (i + k)).Nodup :=
    List.Nodup.map (fun k k' hk ↦ Nat.add_left_cancel (hinj hk)) List.nodup_range
  have hsub : ((List.range (tries + 1)).map fun k ↦ name (i + k)) ⊆ l := by
    intro a ha
    obtain ⟨k, hk, rfl⟩ := List.mem_map.mp ha
    exact hl _ (hall k (by have := List.mem_range.mp hk; omega))
  have hlen := (List.subperm_of_subset hnodup hsub).length_le
  rw [List.length_map, List.length_range] at hlen
  omega

variable [DecidableEq α]

end NotProton.Library
