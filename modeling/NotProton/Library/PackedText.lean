import NotProton.Library.Splice

/-!
# PackedText — C strings one behind the other in a buffer

An access that leaves its buffer has no value.
-/

namespace NotProton.Library

/-- `memcpy(buf + off, s, s.length)` -/
def memcpy (buf : Bytes) (off : Nat) (s : Bytes) : Option Bytes :=
  if off + s.length ≤ buf.length then some (splice buf off s) else none

/-- The C string at a place, read up to its zero byte. -/
def cStringAt (buf : Bytes) (p : Nat) : Option Bytes :=
  match splitAt 0 (buf.drop p) with
  | (s, some _) => some s
  | (_, none) => none

def pack (l : List Bytes) : Bytes := l.flatMap fun s ↦ s ++ [0]

/-- What `for (p = buf; *p; p += strlen(p) + 1)` goes through. -/
def packedStrings : Nat → Bytes → Option (List Bytes)
  | 0, _ => none
  | n + 1, buf =>
      match splitAt 0 buf with
      | (_, none) => none
      | (s, some rest) => if s = [] then some [] else (packedStrings n rest).map (s :: ·)

/-! ## Writing -/

theorem memcpy_append {a x s b : Bytes} {off : Nat} (hoff : off = a.length) (hx : x.length = s.length) :
    memcpy (a ++ (x ++ b)) off s = some (a ++ (s ++ b)) := by
  have hroom : 0 + s.length ≤ x.length := by omega
  rw [memcpy, if_pos (by rw [List.length_append, List.length_append]; omega), hoff, ← Nat.add_zero a.length,
    splice_append_right, splice_append_left hroom, splice, List.take_zero, List.nil_append, Nat.zero_add,
    List.drop_eq_nil_of_le (by omega), List.append_nil]

/-! ## Reading -/

theorem cStringAt_append {a s b : Bytes} {p : Nat} (hp : p = a.length) (h : 0 ∉ s) :
    cStringAt (a ++ (s ++ 0 :: b)) p = some s := by
  rw [cStringAt, hp, List.drop_left, splitAt_append h]

theorem pack_nil : pack [] = [] := rfl

theorem pack_append (l l' : List Bytes) : pack (l ++ l') = pack l ++ pack l' := List.flatMap_append

theorem pack_cons (s : Bytes) (l : List Bytes) : pack (s :: l) = s ++ 0 :: pack l := by
  rw [pack, List.flatMap_cons, List.append_assoc, List.singleton_append]
  rfl

theorem pack_singleton (s : Bytes) : pack [s] = s ++ [0] := pack_cons s []

theorem length_le_pack (l : List Bytes) : l.length ≤ (pack l).length := by
  induction l with
  | nil => exact Nat.zero_le _
  | cons s l ih =>
    rw [pack_cons, List.length_append, List.length_cons, List.length_cons]
    omega

/-- Strings that a list ended by an empty one can hold. -/
def Packable (l : List Bytes) : Prop := ∀ s ∈ l, s ≠ [] ∧ 0 ∉ s

theorem packedStrings_pack {l : List Bytes} (h : Packable l) {n : Nat} (hn : l.length < n) (rest : Bytes) :
    packedStrings n (pack l ++ 0 :: rest) = some l := by
  induction l generalizing n with
  | nil =>
    obtain ⟨n, rfl⟩ : ∃ k, n = k + 1 := ⟨n - 1, by rw [List.length_nil] at hn; omega⟩
    rfl
  | cons s l ih =>
    obtain ⟨n, rfl⟩ : ∃ k, n = k + 1 := ⟨n - 1, by rw [List.length_cons] at hn; omega⟩
    obtain ⟨hs, hl⟩ := List.forall_mem_cons.mp h
    rw [pack_cons, List.append_assoc, List.cons_append, packedStrings, splitAt_append hs.2]
    simp only
    rw [if_neg hs.1, ih hl (by rw [List.length_cons] at hn; omega), Option.map_some]

/-! ## A list in a buffer -/

/-- A buffer that was cleared and then filled from its start, with room left. -/
structure Holds (buf : Bytes) (size : Nat) (l : List Bytes) : Prop where
  room : (pack l).length < size
  text : buf = pack l ++ List.replicate (size - (pack l).length) 0
  packable : Packable l

theorem holds_replicate {size : Nat} (h : 0 < size) : Holds (List.replicate size 0) size [] where
  room := h
  text := rfl
  packable := fun _ hs ↦ absurd hs List.not_mem_nil

/-- One more string, with its zero byte and room for another. -/
theorem Holds.push {buf s : Bytes} {size : Nat} {l : List Bytes} (h : Holds buf size l) (hs : s ≠ [] ∧ 0 ∉ s)
    (hroom : (pack l).length + s.length + 1 < size) :
    ∃ buf', memcpy buf (pack l).length (s ++ [0]) = some buf' ∧ Holds buf' size (l ++ [s]) := by
  have hlength : (pack (l ++ [s])).length = (pack l).length + s.length + 1 := by
    rw [pack_append, pack_singleton, List.length_append, List.length_append, List.length_singleton]
    rfl
  have hsplit : List.replicate (size - (pack l).length) (0 : UInt8) =
      List.replicate (s.length + 1) 0 ++ List.replicate (size - (pack (l ++ [s])).length) 0 := by
    rw [List.replicate_append_replicate, hlength]
    congr 1
    omega
  have hwrite : memcpy buf (pack l).length (s ++ [0]) =
      some (pack l ++ (s ++ [0] ++ List.replicate (size - (pack (l ++ [s])).length) 0)) := by
    rw [h.text, hsplit]
    apply memcpy_append rfl
    rw [List.length_replicate, List.length_append, List.length_singleton]
  refine ⟨_, hwrite, ?_, ?_, ?_⟩
  · omega
  · rw [pack_append, pack_singleton, ← List.append_assoc]
  · intro s' hs'
    rcases List.mem_append.mp hs' with hl | hnew
    · exact h.packable s' hl
    · rw [List.mem_singleton.mp hnew]
      exact hs

/-- The list ends in an empty string and its reader sees what was put there. -/
theorem Holds.strings {buf : Bytes} {size : Nat} {l : List Bytes} (h : Holds buf size l) :
    packedStrings size buf = some l := by
  obtain ⟨n, hn⟩ : ∃ n, size - (pack l).length = n + 1 := ⟨size - (pack l).length - 1, by have := h.room; omega⟩
  rw [h.text, hn, List.replicate_succ]
  exact packedStrings_pack h.packable (Nat.lt_of_le_of_lt (length_le_pack l) h.room) _

end NotProton.Library
