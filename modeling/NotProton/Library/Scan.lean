import NotProton.Library.Lists

/-!
# Scan — patterns found in a text from the left

A scan goes on behind each match, so the matches of one pattern never overlap.  A pass over several
patterns takes the first that matches at a place.  Such a pass finds every match the patterns' own
scans find exactly when no two of them overlap.
-/

namespace NotProton.Library

variable {α β γ : Type}

/-- What matches at a place, from the element before it and the text on: its length and its data. -/
abbrev Matcher (α β : Type) := Option α → List α → Option (Nat × β)

/-- The match that starts at each place, with `k` places left to pass over. -/
def scan (m : Matcher α β) : Option α → Nat → List α → List (Option (Nat × β))
  | _, _, [] => []
  | _, k + 1, c :: s => none :: scan m (some c) k s
  | prev, 0, c :: s =>
      match m prev (c :: s) with
      | some h => some h :: scan m (some c) (h.1 - 1) s
      | none => none :: scan m (some c) 0 s

/-- A scan of the text finds `h` at `i`. -/
def Finds (m : Matcher α β) (s : List α) (i : Nat) (h : Nat × β) : Prop :=
  (scan m none 0 s)[i]? = some (some h)

@[simp] theorem scan_length (m : Matcher α β) (prev : Option α) (k : Nat) (s : List α) :
    (scan m prev k s).length = s.length := by
  induction s generalizing prev k with
  | nil => rfl
  | cons c s ih =>
    cases k with
    | succ k => rw [scan, List.length_cons, ih, List.length_cons]
    | zero =>
      rw [scan]
      cases m prev (c :: s) with
      | none => rw [List.length_cons, ih, List.length_cons]
      | some h => rw [List.length_cons, ih, List.length_cons]

/-- The element before a place. -/
def prevAt (prev : Option α) (s : List α) : Nat → Option α
  | 0 => prev
  | i + 1 => s[i]?

theorem prevAt_cons (prev : Option α) (c : α) (s : List α) (i : Nat) :
    prevAt prev (c :: s) (i + 1) = prevAt (some c) s i := by
  cases i with
  | zero => rfl
  | succ i => rfl

/-- A place behind the first, in a scan whose tail goes on with `k'` places to pass over. -/
private theorem scan_step {m : Matcher α β} {prev : Option α} {c : α} {s : List α} {k k' : Nat}
    {first : Option (Nat × β)} (hscan : scan m prev k (c :: s) = first :: scan m (some c) k' s)
    (hk : ∀ i, k' ≤ i ↔ k ≤ i + 1 ∧ ∀ h, first = some h → h.1 ≤ i + 1) {i : Nat} {h : Nat × β}
    (ih : (scan m (some c) k' s)[i]? = some (some h) ↔ i < s.length ∧ k' ≤ i ∧
      m (prevAt (some c) s i) (s.drop i) = some h ∧
        ∀ j < i, ∀ h', (scan m (some c) k' s)[j]? = some (some h') → j + h'.1 ≤ i) :
    (scan m prev k (c :: s))[i + 1]? = some (some h) ↔ i + 1 < (c :: s).length ∧ k ≤ i + 1 ∧
      m (prevAt prev (c :: s) (i + 1)) ((c :: s).drop (i + 1)) = some h ∧
        ∀ j < i + 1, ∀ h', (scan m prev k (c :: s))[j]? = some (some h') → j + h'.1 ≤ i + 1 := by
  rw [hscan, List.getElem?_cons_succ, ih, prevAt_cons, List.drop_succ_cons, hk, List.length_cons]
  constructor
  · rintro ⟨hi, ⟨hki, hfirst⟩, hm, hrest⟩
    refine ⟨by omega, hki, hm, fun j hj h' hh' ↦ ?_⟩
    cases j with
    | zero =>
      rw [List.getElem?_cons_zero, Option.some.injEq] at hh'
      have := hfirst h' hh'
      omega
    | succ j =>
      rw [List.getElem?_cons_succ] at hh'
      have := hrest j (by omega) h' hh'
      omega
  · rintro ⟨hi, hki, hm, hrest⟩
    refine ⟨by omega, ⟨hki, fun h' hh' ↦ ?_⟩, hm, fun j hj h' hh' ↦ ?_⟩
    · have := hrest 0 (by omega) h' (by rw [List.getElem?_cons_zero, hh'])
      omega
    · have := hrest (j + 1) (by omega) h' (by rw [List.getElem?_cons_succ, hh'])
      omega

/-- A scan finds what matches at a place no earlier match goes past. -/
theorem scan_iff (m : Matcher α β) (prev : Option α) (k : Nat) (s : List α) (i : Nat) (h : Nat × β) :
    (scan m prev k s)[i]? = some (some h) ↔ i < s.length ∧ k ≤ i ∧
      m (prevAt prev s i) (s.drop i) = some h ∧
        ∀ j < i, ∀ h', (scan m prev k s)[j]? = some (some h') → j + h'.1 ≤ i := by
  induction s generalizing prev k i with
  | nil => simp [scan]
  | cons c s ih =>
    cases i with
    | zero =>
      cases k with
      | succ k => simp [scan]
      | zero =>
        rw [scan]
        cases hm : m prev (c :: s) with
        | none => simp [prevAt, hm]
        | some h0 => simp [prevAt, hm]
    | succ i =>
      cases k with
      | succ k =>
        refine scan_step (by rw [scan]) (fun i ↦ ?_) (ih (some c) k i)
        simp
      | zero =>
        cases hm : m prev (c :: s) with
        | none =>
          refine scan_step (by rw [scan, hm]) (fun i ↦ ?_) (ih (some c) 0 i)
          simp
        | some h0 =>
          refine scan_step (by rw [scan, hm]) (fun i ↦ ?_) (ih (some c) (h0.1 - 1) i)
          simp

theorem finds_iff (m : Matcher α β) (s : List α) (i : Nat) (h : Nat × β) :
    Finds m s i h ↔ i < s.length ∧ m (prevAt none s i) (s.drop i) = some h ∧
      ∀ j < i, ∀ h', Finds m s j h' → j + h'.1 ≤ i := by
  rw [Finds, scan_iff]
  simp only [Nat.zero_le, true_and]
  rfl

/-- How many matches a scan finds. -/
def countScan (m : Matcher α β) (s : List α) : Nat := (scan m none 0 s).countP Option.isSome

/-! ## Several patterns in one pass -/

/-- The first of the patterns that matches. -/
def firstMatch (m : γ → Matcher α β) (gs : List γ) : Matcher α (γ × β) := fun prev s ↦
  gs.findSome? fun g ↦ (m g prev s).map fun h ↦ (h.1, g, h.2)

theorem firstMatch_some {m : γ → Matcher α β} {gs : List γ} {prev : Option α} {s : List α} {u : Nat}
    {g : γ} {d : β} (h : firstMatch m gs prev s = some (u, g, d)) :
    g ∈ gs ∧ m g prev s = some (u, d) := by
  obtain ⟨g', hg', hm⟩ := List.exists_of_findSome?_eq_some h
  obtain ⟨h', hh', heq⟩ := Option.map_eq_some_iff.mp hm
  cases heq
  exact ⟨hg', hh'⟩

/-- No two matches of different patterns overlap. -/
def NoOverlap (m : γ → Matcher α β) (gs : List γ) (s : List α) : Prop :=
  ∀ g ∈ gs, ∀ g' ∈ gs, g ≠ g' → ∀ i h i' h', Finds (m g) s i h → Finds (m g') s i' h' →
    i + h.1 ≤ i' ∨ i' + h'.1 ≤ i

section
variable {m : γ → Matcher α β} {gs : List γ} {s : List α}

/-- The one pass finds what the patterns' own scans find. -/
theorem finds_firstMatch (hpos : ∀ g prev s u d, m g prev s = some (u, d) → 0 < u)
    (happart : NoOverlap m gs s) (i u : Nat) (g : γ) (d : β) :
    Finds (firstMatch m gs) s i (u, g, d) ↔ g ∈ gs ∧ Finds (m g) s i (u, d) := by
  induction i using Nat.strong_induction_on generalizing u g d with
  | _ i ih =>
  have hto : ∀ u g d, Finds (firstMatch m gs) s i (u, g, d) → g ∈ gs ∧ Finds (m g) s i (u, d) := by
    intro u g d hfind
    obtain ⟨hi, hm, hfree⟩ := (finds_iff _ _ _ _).mp hfind
    obtain ⟨hg, hmg⟩ := firstMatch_some hm
    refine ⟨hg, (finds_iff _ _ _ _).mpr ⟨hi, hmg, fun j hj h' hh' ↦ ?_⟩⟩
    exact hfree j hj (h'.1, g, h'.2) ((ih j hj _ _ _).mpr ⟨hg, hh'⟩)
  refine ⟨hto u g d, fun ⟨hg, hfind⟩ ↦ ?_⟩
  obtain ⟨hi, hmg, -⟩ := (finds_iff _ _ _ _).mp hfind
  -- The pass comes by the place: what it took before ends there, or would overlap.
  have hfree : ∀ j < i, ∀ h', Finds (firstMatch m gs) s j h' → j + h'.1 ≤ i := by
    rintro j hj ⟨u', g', d'⟩ hfind'
    obtain ⟨hg', hfindg'⟩ := (ih j hj _ _ _).mp hfind'
    by_cases hgg : g' = g
    · subst hgg
      exact ((finds_iff _ _ _ _).mp hfind).2.2 j hj _ hfindg'
    · rcases happart g' hg' g hg hgg _ _ _ _ hfindg' hfind with h | h
      · exact h
      · simp only at h
        omega
  cases hhit : firstMatch m gs (prevAt none s i) (s.drop i) with
  | none =>
    have hnone := List.findSome?_eq_none_iff.mp hhit g hg
    rw [hmg] at hnone
    cases hnone
  | some hit =>
    obtain ⟨u', g', d'⟩ := hit
    have hfind' : Finds (firstMatch m gs) s i (u', g', d') := (finds_iff _ _ _ _).mpr ⟨hi, hhit, hfree⟩
    obtain ⟨hg', hfindg'⟩ := hto u' g' d' hfind'
    -- Two patterns that both match here would overlap.
    have hgg : g' = g := by
      by_contra hne
      have hu := hpos g _ _ _ _ hmg
      have hu' := hpos g' _ _ _ _ (firstMatch_some hhit).2
      rcases happart g' hg' g hg hne _ _ _ _ hfindg' hfind with h | h
      · simp only at h
        omega
      · simp only at h
        omega
    subst hgg
    rw [(firstMatch_some hhit).2] at hmg
    cases hmg
    exact hfind'

end

/-! ## Replacing -/

/-- The text with each match replaced, given the match that starts at each place. -/
def rewrite (text : β → List α) : Nat → List (Option (Nat × β)) → List α → List α
  | k + 1, _ :: hits, _ :: s => rewrite text k hits s
  | 0, some h :: hits, _ :: s => text h.2 ++ rewrite text (h.1 - 1) hits s
  | 0, none :: hits, c :: s => c :: rewrite text 0 hits s
  | _, _, _ => []

end NotProton.Library
