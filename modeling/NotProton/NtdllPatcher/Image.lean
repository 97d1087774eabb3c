import NotProton.Library.Splice

/-!
# Image — where a loaded image's bytes stand in its file (`NtdllPatcher.swift`)

Header reads, the walk from an RVA to a file offset, and what a loader maps from the section table.
File offsets are `Nat`; RVAs and lengths come from the patch record as signed integers.
-/

open NotProton.Library

namespace NotProton.NtdllPatcher

/-- What ends a call early: an error thrown, or the runtime stopping the program. -/
inductive Failure
  | stepFailure (detail : String)
  | trap
  deriving DecidableEq

/-- `throw StepFailure(step: step, detail: …)`. -/
def fail {α : Type} (detail : String) : Except Failure α := .error (.stepFailure detail)

inductive WineArch
  | x86_64Windows
  | i386Windows
  | aarch64Windows
  deriving DecidableEq

def WineArch.rawValue : WineArch → String
  | x86_64Windows => "x86_64-windows"
  | i386Windows => "i386-windows"
  | aarch64Windows => "aarch64-windows"

structure NtdllHook where
  rva : Int
  /-- The bytes that are supposed to be at `rva`. -/
  stolen : Bytes
  deriving DecidableEq

inductive CavePlacement
  | padding
  | section_
  deriving DecidableEq

structure NtdllPatch where
  arch : WineArch
  caveRVA : Int
  payloadRVA : Int
  hooks : List NtdllHook
  caveSize : Int
  cavePad : UInt8
  machine : Nat
  magic : Nat
  imageBase : Nat
  placement : CavePlacement
  deriving DecidableEq

def hex (value : Int) : String :=
  "0x" ++ (if value < 0 then "-" else "") ++ String.ofList (Nat.toDigits 16 value.natAbs)

def hexBytes (bytes : Bytes) : String :=
  String.join (bytes.map fun b ↦
    String.ofList [Nat.digitChar (b.toNat / 16), Nat.digitChar (b.toNat % 16)])

def requireRange (offset length : Int) (bytes : Bytes) (what : String) : Except Failure Unit :=
  if 0 ≤ offset ∧ 0 ≤ length ∧ offset ≤ bytes.length - length then .ok ()
  else fail (what ++ " at " ++ hex offset ++ " spans " ++ toString length ++
    " bytes, past the end of a " ++ toString bytes.length ++ " byte file.")

/-- The little-endian number in the `w` bytes at `offset`. -/
def field (w : Nat) (bytes : Bytes) (offset : Nat) : Nat := leNat (slice bytes offset w)

-- `u16`, `u32` and `u64` differ in their width only.
def readField (w : Nat) (bytes : Bytes) (offset : Nat) : Except Failure Nat := do
  requireRange offset w bytes "A header field"
  return field w bytes offset

def u16 : Bytes → Nat → Except Failure Nat := readField 2
def u32 : Bytes → Nat → Except Failure Nat := readField 4
def u64 : Bytes → Nat → Except Failure Nat := readField 8

/-! ## Sections -/

structure Section where
  virtualSize : Nat
  virtualAddress : Nat
  rawSize : Nat
  rawOffset : Nat
  deriving DecidableEq

def readSection (bytes : Bytes) (entry : Nat) : Except Failure Section := do
  let virtualSize ← u32 bytes (entry + 8)
  let virtualAddress ← u32 bytes (entry + 12)
  let rawSize ← u32 bytes (entry + 16)
  let rawOffset ← u32 bytes (entry + 20)
  return ⟨virtualSize, virtualAddress, rawSize, rawOffset⟩

def Section.span (s : Section) : Nat := max s.virtualSize s.rawSize

/-- The addresses a section takes. -/
def Section.Holds (s : Section) (rva : Int) : Prop :=
  s.virtualAddress ≤ rva ∧ rva < s.virtualAddress + s.span

instance (s : Section) (rva : Int) : Decidable (s.Holds rva) :=
  inferInstanceAs (Decidable (_ ∧ _))

/-- The file offset that goes with an address under a section. -/
def Section.offset (s : Section) (rva : Int) : Nat := s.rawOffset + (rva - s.virtualAddress).toNat

/-- The loop of `fileOffset` over the `count` entries from `entry` on. -/
def findOffset (rva : Int) (bytes : Bytes) (what : String) : Nat → Nat → Except Failure (Option Nat)
  | 0, _ => return none
  | count + 1, entry => do
      let s ← readSection bytes entry
      if (s.rawSize = 0 ∨ s.rawOffset = 0) ∨ ¬s.Holds rva then
        findOffset rva bytes what count (entry + 40)
      else
        requireRange (s.offset rva) 1 bytes ("The " ++ what)
        return some (s.offset rva)

def fileOffset (rva : Int) (bytes : Bytes) (what : String) (patch : NtdllPatch) :
    Except Failure Nat := do
  let pe ← u32 bytes 0x3c
  let sections ← u16 bytes (pe + 6)
  let optionalSize ← u16 bytes (pe + 20)
  let table := pe + 24 + optionalSize
  match ← findOffset rva bytes what sections table with
  | some offset => return offset
  | none => fail ("RVA " ++ hex rva ++ " falls in no mapped section of the " ++ patch.arch.rawValue ++
      " ntdll, so the " ++ what ++ " cannot be located.")

/-! ## What gets mapped -/

def peOffset (bytes : Bytes) : Nat := field 4 bytes 0x3c
def sectionCount (bytes : Bytes) : Nat := field 2 bytes (peOffset bytes + 6)
def optionalHeaderSize (bytes : Bytes) : Nat := field 2 bytes (peOffset bytes + 20)
def sizeOfImage (bytes : Bytes) : Nat := field 4 bytes (peOffset bytes + 24 + 56)
def tableOffset (bytes : Bytes) : Nat := peOffset bytes + 24 + optionalHeaderSize bytes
def tableEnd (bytes : Bytes) : Nat := tableOffset bytes + sectionCount bytes * 40

def sectionAt (bytes : Bytes) (entry : Nat) : Section where
  virtualSize := field 4 bytes (entry + 8)
  virtualAddress := field 4 bytes (entry + 12)
  rawSize := field 4 bytes (entry + 16)
  rawOffset := field 4 bytes (entry + 20)

/-- The `count` sections whose headers start at `entry`. -/
def sectionsFrom (bytes : Bytes) : Nat → Nat → List Section
  | 0, _ => []
  | count + 1, entry => sectionAt bytes entry :: sectionsFrom bytes count (entry + 40)

def sectionTable (bytes : Bytes) : List Section :=
  sectionsFrom bytes (sectionCount bytes) (tableOffset bytes)

/-- The byte the loader maps at an address: raw bytes up to the raw size and zeros after. -/
def mapped (bytes : Bytes) (rva : Int) : Option UInt8 :=
  match (sectionTable bytes).find? fun s ↦ decide (s.Holds rva) with
  | none => none
  | some s => if rva - s.virtualAddress < s.rawSize then bytes[s.offset rva]? else some 0

/-- The addresses whose bytes a section has in the file. -/
def Section.Backs (s : Section) (rva : Int) : Prop :=
  s.virtualAddress ≤ rva ∧ rva < s.virtualAddress + s.rawSize

def Section.RawHolds (s : Section) (i : Nat) : Prop := s.rawOffset ≤ i ∧ i < s.rawOffset + s.rawSize

/-- No two sections share an address or a file byte, and the file has all raw data. -/
structure PeImage (bytes : Bytes) : Prop where
  inFile : ∀ s ∈ sectionTable bytes, ∀ i, s.RawHolds i → i < bytes.length
  virtual_disjoint : (sectionTable bytes).Pairwise (Apart Section.Holds)
  raw_disjoint : (sectionTable bytes).Pairwise (Apart Section.RawHolds)

/-- The bytes `fileOffset` reads of `count` section headers from `entry` on. -/
def EntryReads (entry count i : Nat) : Prop :=
  ∃ n < count, entry + n * 40 + 8 ≤ i ∧ i < entry + n * 40 + 24

/-- The bytes `fileOffset` reads where there are `count` sections: `e_lfanew`, `NumberOfSections`,
`SizeOfOptionalHeader` and the sections' sizes and places. -/
def LookupReads (bytes : Bytes) (count i : Nat) : Prop :=
  (0x3c ≤ i ∧ i < 0x40) ∨ (peOffset bytes + 6 ≤ i ∧ i < peOffset bytes + 8) ∨
    (peOffset bytes + 20 ≤ i ∧ i < peOffset bytes + 22) ∨ EntryReads (tableOffset bytes) count i

end NotProton.NtdllPatcher
