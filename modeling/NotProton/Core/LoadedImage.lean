import NotProton.Core.FunctionBounds
import NotProton.Core.ImportStubs

/-!
# LoadedImage — segments, sections and functions of a mapped image (`macho.c`)
-/

open NotProton.Library

namespace NotProton.Core

def vmsize (lc : Bytes) : Nat := u64 lc 32

def sectname (sect : Bytes) : Bytes := cString (sect.take 16)

/-- The loop of `np_find_segment`: it ends at the segment, before the commands behind it. -/
def findSegment (slide : Nat) (name : Bytes) : Nat → Bytes → Option (Nat × Nat)
  | 0, _ => none
  | remaining + 1, rest =>
      match lcAt rest with
      | none => none
      | some lc =>
          if IsCommand lcSegment64 72 lc && segname lc == name then
            some ((vmaddr lc + slide) % 2 ^ 64, vmsize lc)
          else findSegment slide name remaining (rest.drop lc.length)

/-- `np_find_segment`, its base and its size. -/
def npFindSegment (mh : MachHeader) (slide : Nat) (name : Bytes) : Option (Nat × Nat) :=
  findSegment slide name mh.ncmds mh.commands

/-- The loop of `np_find_section`. -/
def findSection (slide : Nat) (seg sect : Bytes) : Nat → Bytes → Option (Nat × Nat)
  | 0, _ => none
  | remaining + 1, rest =>
      match lcAt rest with
      | none => none
      | some lc =>
          if IsCommand lcSegment64 72 lc = false then findSection slide seg sect remaining (rest.drop lc.length)
          else
            match segmentSections lc with
            | none => none
            | some sects =>
                match (if segname lc = seg then sects.find? (sectname · == sect) else none) with
                | some s => some (sectBase slide s, sectSize s)
                | none => findSection slide seg sect remaining (rest.drop lc.length)

/-- `np_find_section`, its base and its size. -/
def npFindSection (mh : MachHeader) (slide : Nat) (seg sect : Bytes) : Option (Nat × Nat) :=
  findSection slide seg sect mh.ncmds mh.commands

/-! ## Memory in pieces -/

/-- What the pieces hold at an address. -/
def pieceByte (pieces : List (Nat × Bytes)) (a : Nat) : Option UInt8 :=
  pieces.findSome? fun piece ↦ if piece.1 ≤ a then piece.2[a - piece.1]? else none

/-- The memory that holds the pieces, each at its address. -/
def Memory.ofPieces (pieces : List (Nat × Bytes)) (hpos : ∀ piece ∈ pieces, 0 < piece.1)
    (hfits : ∀ piece ∈ pieces, piece.1 + piece.2.length < 2 ^ 64) : Memory where
  byte := pieceByte pieces
  null := by
    apply List.findSome?_eq_none_iff.mpr
    intro piece hpiece
    have := hpos piece hpiece
    rw [if_neg (by omega)]
  below := by
    intro a ha
    obtain ⟨b, hb⟩ := Option.ne_none_iff_exists'.mp ha
    obtain ⟨piece, hpiece, hbyte⟩ := List.exists_of_findSome?_eq_some hb
    have hfit := hfits piece hpiece
    split at hbyte
    · obtain ⟨hlt, -⟩ := List.getElem?_eq_some_iff.mp hbyte
      omega
    · cases hbyte

/-! ## Images -/

/-- An image where it is mapped: its table of function starts can be read. -/
structure LoadedImage where
  mh : MachHeader
  slide : Nat
  mem : Memory
  starts_mapped : ∀ p size, fnStartsTable mh slide = some (p, size) → ∀ a, p ≤ a → a < p + size → mem.byte a ≠ none

namespace LoadedImage

def byte (image : LoadedImage) (a : Nat) : UInt8 := (image.mem.byte a).getD 0

/-- The instruction at `pc`. -/
def word (image : LoadedImage) (pc : Nat) : Nat := read32 image.byte pc

/-- `np_function_bounds`, without the read that fails. -/
def functionBounds (image : LoadedImage) (addr : Nat) : Option (Nat × Nat) :=
  (npFunctionBounds image.mh image.slide image.mem addr).getD none

variable {image : LoadedImage} {addr a b : Nat}

theorem npFunctionBounds_eq (image : LoadedImage) (addr : Nat) :
    npFunctionBounds image.mh image.slide image.mem addr = some (image.functionBounds addr) := by
  have hread : npFunctionBounds image.mh image.slide image.mem addr ≠ none := npFunctionBounds_mapped image.starts_mapped
  obtain ⟨bounds, hbounds⟩ := Option.ne_none_iff_exists'.mp hread
  rw [functionBounds, hbounds]
  rfl

theorem functionBounds_around (h : image.functionBounds addr = some (a, b)) : a ≤ addr ∧ addr < b := by
  have hbounds := image.npFunctionBounds_eq addr
  rw [h] at hbounds
  exact npFunctionBounds_around hbounds

theorem functionBounds_same {addr' : Nat} (h : image.functionBounds addr = some (a, b)) (hle : addr ≤ addr')
    (hlt : addr' < b) : image.functionBounds addr' = some (a, b) := by
  have hbounds := image.npFunctionBounds_eq addr
  rw [h] at hbounds
  rw [functionBounds, npFunctionBounds_same hle hlt hbounds]
  rfl

end LoadedImage

end NotProton.Core
