import Mathlib.Data.Tree.Basic
import Mathlib.Order.Lattice

/-!
# SearchTree — a search tree whose nodes are places of an array

A node links to its children by their places, a negative link being none.  A search goes down from a link with a
bound on the nodes it looks at.  Where the links spell a tree in order the search is complete.  Of any links at all,
it is known that each place looked at is one the place before links to.
-/

namespace NotProton.Library

variable {κ : Type} [LinearOrder κ]

structure LinkedNode (κ : Type) where
  key : κ
  left : Int
  right : Int

/-- Where a search found its key, and the places it looked at. -/
structure Descent where
  found : Option Nat
  visited : List Nat

/-- The search for a key below a link, over `fuel` nodes at most. -/
def descend (node : Nat → LinkedNode κ) (k : κ) : Nat → Int → Descent
  | 0, _ => ⟨none, []⟩
  | fuel + 1, i =>
      if i < 0 then ⟨none, []⟩
      else if (node i.toNat).key = k then ⟨some i.toNat, [i.toNat]⟩
      else
        let below := descend node k fuel (if k < (node i.toNat).key then (node i.toNat).left else (node i.toNat).right)
        ⟨below.found, i.toNat :: below.visited⟩

/-- Each place is linked from the one before it, the first from `i`. -/
def Linked (node : Nat → LinkedNode κ) : Int → List Nat → Prop
  | _, [] => True
  | i, j :: rest => i = j ∧ (Linked node (node j).left rest ∨ Linked node (node j).right rest)

/-- The links from `i` on spell a tree of places below `count`. -/
def Spells (node : Nat → LinkedNode κ) (count : Nat) : Int → BinaryTree Nat → Prop
  | i, .nil => i < 0
  | i, .node j l r => i = j ∧ j < count ∧ Spells node count (node j).left l ∧ Spells node count (node j).right r

def InTree : BinaryTree Nat → Nat → Prop
  | .nil, _ => False
  | .node j l r, i => i = j ∨ InTree l i ∨ InTree r i

/-- The keys of a tree are in order. -/
def Ordered (node : Nat → LinkedNode κ) : BinaryTree Nat → Prop
  | .nil => True
  | .node j l r => Ordered node l ∧ Ordered node r ∧ (∀ i, InTree l i → (node i).key < (node j).key) ∧
      ∀ i, InTree r i → (node j).key < (node i).key

section

variable {node : Nat → LinkedNode κ} {k : κ} {count fuel : Nat} {i : Int}

theorem descend_visited_length (fuel : Nat) (i : Int) : (descend node k fuel i).visited.length ≤ fuel := by
  induction fuel generalizing i with
  | zero => exact Nat.le_refl 0
  | succ fuel ih =>
    rw [descend]
    split
    next => exact Nat.zero_le _
    next =>
      split
      next => exact Nat.succ_le_succ (Nat.zero_le _)
      next => exact Nat.succ_le_succ (ih _)

theorem descend_linked (fuel : Nat) (i : Int) : Linked node i (descend node k fuel i).visited := by
  induction fuel generalizing i with
  | zero => trivial
  | succ fuel ih =>
    rw [descend]
    split
    next => trivial
    next hpos =>
      have hi : i = i.toNat := by omega
      split
      next => exact ⟨hi, .inl trivial⟩
      next =>
        refine ⟨hi, ?_⟩
        split
        next => exact .inl (ih _)
        next => exact .inr (ih _)

omit [LinearOrder κ] in
/-- Links that stay below a bound lead to places below it only. -/
theorem Linked.lt {places : List Nat} (h : Linked node i places) (hi : i < count)
    (hlinks : ∀ j < count, (node j).left < count ∧ (node j).right < count) : ∀ j ∈ places, j < count := by
  induction places generalizing i with
  | nil => nofun
  | cons j rest ih =>
    have hj : j < count := by
      have heq := h.1
      omega
    intro x hx
    cases hx with
    | head => exact hj
    | tail _ hx =>
      cases h.2 with
      | inl hleft => exact ih hleft (hlinks j hj).1 x hx
      | inr hright => exact ih hright (hlinks j hj).2 x hx

omit [LinearOrder κ] in
theorem Spells.lt {t : BinaryTree Nat} (h : Spells node count i t) {j : Nat} (hj : InTree t j) : j < count := by
  induction t generalizing i with
  | nil => cases hj
  | node x l r ihl ihr =>
    obtain rfl | hj | hj := hj
    · exact h.2.1
    · exact ihl h.2.2.1 hj
    · exact ihr h.2.2.2 hj

/-- A search in a tree in order finds the node of its key, where the tree has one, and looks at nodes of the tree only. -/
theorem descend_spec {t : BinaryTree Nat} (hspells : Spells node count i t) (hordered : Ordered node t)
    (hheight : t.height ≤ fuel) : (∀ j, (descend node k fuel i).found = some j ↔ InTree t j ∧ (node j).key = k) ∧
      ∀ j ∈ (descend node k fuel i).visited, InTree t j := by
  induction t generalizing i fuel with
  | nil =>
    have hnone : descend node k fuel i = ⟨none, []⟩ := by
      cases fuel with
      | zero => rfl
      | succ fuel => rw [descend, if_pos (show i < 0 from hspells)]
    rw [hnone]
    exact ⟨fun j ↦ iff_of_false nofun fun h ↦ h.1, nofun⟩
  | node x l r ihl ihr =>
    obtain ⟨rfl, -, hleft, hright⟩ := hspells
    obtain ⟨hl, hr, hbelow, habove⟩ := hordered
    cases fuel with
    | zero => exact absurd hheight (Nat.not_succ_le_zero _)
    | succ fuel =>
      have hheights : max l.height r.height ≤ fuel := Nat.le_of_succ_le_succ hheight
      have hx : ¬ ((x : Int) < 0) := by omega
      rw [descend, if_neg hx, Int.toNat_natCast]
      by_cases hkey : (node x).key = k
      · rw [if_pos hkey]
        apply And.intro
        · intro j
          apply Iff.intro
          · intro heq
            cases heq
            exact ⟨.inl rfl, hkey⟩
          · rintro ⟨rfl | hj | hj, heq⟩
            · rfl
            · exact absurd (hkey.trans heq.symm) (ne_of_gt (hbelow j hj))
            · exact absurd (hkey.trans heq.symm) (ne_of_lt (habove j hj))
        · intro j hj
          exact .inl (List.mem_singleton.mp hj)
      · rw [if_neg hkey]
        -- The order keeps the key out of the other branch.
        by_cases hlt : k < (node x).key
        · obtain ⟨hfound, hvisited⟩ := @ihl fuel _ hleft hl (by omega)
          rw [if_pos hlt]
          apply And.intro
          · intro j
            rw [hfound]
            apply Iff.intro
            · exact fun h ↦ ⟨.inr (.inl h.1), h.2⟩
            · rintro ⟨rfl | hj | hj, heq⟩
              · exact absurd heq hkey
              · exact ⟨hj, heq⟩
              · exact absurd (heq ▸ habove j hj) (not_lt_of_gt hlt)
          · intro j hj
            obtain rfl | hj := List.mem_cons.mp hj
            · exact .inl rfl
            · exact .inr (.inl (hvisited j hj))
        · obtain ⟨hfound, hvisited⟩ := @ihr fuel _ hright hr (by omega)
          rw [if_neg hlt]
          apply And.intro
          · intro j
            rw [hfound]
            apply Iff.intro
            · exact fun h ↦ ⟨.inr (.inr h.1), h.2⟩
            · rintro ⟨rfl | hj | hj, heq⟩
              · exact absurd heq hkey
              · exact absurd (heq ▸ hbelow j hj) hlt
              · exact ⟨hj, heq⟩
          · intro j hj
            obtain rfl | hj := List.mem_cons.mp hj
            · exact .inl rfl
            · exact .inr (.inr (hvisited j hj))

end

end NotProton.Library
