import NotProton.Library.LittleEndian

/-!
# LoadCommands — walking the load commands of an image (`macho.c`)

A header is followed by its commands, each with its own size.  What the walks look for is the last command of a
kind, and a table inside `__LINKEDIT`.
-/

open NotProton.Library

namespace NotProton.Core

/-- `struct mach_header_64` where it is loaded, with the `sizeofcmds` bytes behind it. -/
structure MachHeader where
  address : Nat
  ncmds : Nat
  commands : Bytes

/-- What is mapped of a process's memory: nothing at NULL, nothing at the very end. -/
structure Memory where
  byte : Nat → Option UInt8
  null : byte 0 = none
  below : ∀ a, byte a ≠ none → a + 1 < 2 ^ 64

def Memory.Holds (mem : Memory) : Nat → Bytes → Prop
  | _, [] => True
  | p, b :: s => mem.byte p = some b ∧ mem.Holds (p + 1) s

theorem Memory.holds_append {mem : Memory} {p : Nat} {s t : Bytes} :
    mem.Holds p (s ++ t) ↔ mem.Holds p s ∧ mem.Holds (p + s.length) t := by
  induction s generalizing p with
  | nil => simp only [List.nil_append, Memory.Holds, List.length_nil, Nat.add_zero, true_and]
  | cons b s ih =>
    rw [List.cons_append, Memory.Holds, Memory.Holds, ih, List.length_cons, and_assoc, Nat.add_assoc, Nat.add_comm 1]

theorem Memory.Holds.mapped {mem : Memory} {p : Nat} {s : Bytes} (h : mem.Holds p s) :
    ∀ a, p ≤ a → a < p + s.length → mem.byte a ≠ none := by
  induction s generalizing p with
  | nil =>
    intro a hle hlt
    rw [List.length_nil] at hlt
    omega
  | cons b s ih =>
    intro a hle hlt
    rw [List.length_cons] at hlt
    by_cases ha : a = p
    · rw [ha, h.1]
      nofun
    · exact ih h.2 a (by omega) (by omega)

def u32 (lc : Bytes) (off : Nat) : Nat := leNat ((lc.drop off).take 4)

def u64 (lc : Bytes) (off : Nat) : Nat := leNat ((lc.drop off).take 8)

/-- `lc_at`, the command at the cursor of which `rest` is what is left. -/
def lcAt (rest : Bytes) : Option Bytes :=
  if rest.length < 8 then none
  else
    let cmdsize := u32 rest 4
    if cmdsize < 8 ∨ rest.length < cmdsize then none else some (rest.take cmdsize)

/-- `ncmds` steps of the cursor. -/
def walk : Nat → Bytes → Option (List Bytes)
  | 0, _ => some []
  | remaining + 1, rest =>
      match lcAt rest with
      | none => none
      | some lc => (walk remaining (rest.drop lc.length)).map (lc :: ·)

def MachHeader.loadCommands (mh : MachHeader) : Option (List Bytes) := walk mh.ncmds mh.commands

def lcSymtab : Nat := 0x2
def lcDysymtab : Nat := 0xB
def lcSegment64 : Nat := 0x19
def lcFunctionStarts : Nat := 0x26

/-- A command of this kind, with room for its structure. -/
def IsCommand (cmd size : Nat) (lc : Bytes) : Bool := u32 lc 0 == cmd && decide (size ≤ lc.length)

def segname (lc : Bytes) : Bytes := cString ((lc.drop 8).take 16)
def vmaddr (lc : Bytes) : Nat := u64 lc 24
def fileoff (lc : Bytes) : Nat := u64 lc 40
def filesize (lc : Bytes) : Nat := u64 lc 48

def IsLinkedit (lc : Bytes) : Bool := IsCommand lcSegment64 72 lc && segname lc == ascii "__LINKEDIT"

/-- A walk that keeps the last command it comes upon. -/
def lastCommand (p : Bytes → Bool) (cmds : List Bytes) : Option Bytes :=
  cmds.foldl (fun found lc ↦ if p lc then some lc else found) none

/-- `in_linkedit`. -/
def inLinkedit (le : Bytes) (off len : Nat) : Bool :=
  if off < fileoff le then false
  else
    let rel := off - fileoff le
    decide (rel ≤ filesize le ∧ len ≤ filesize le - rel)

end NotProton.Core
