import Mathlib.Data.List.Sort
import Mathlib.Data.String.Basic
import NotProton.Library.Splice

/-!
# MachOBuild — the images of a file without what signing changes (`MachOBuild.swift`)

A universal file is a table of the places of its images.  `none` stands for an index outside the data, where the
program would stop; `some none` is the `nil` of the source.
-/

open NotProton.Library

namespace NotProton.MachOBuild

def fat32 : Nat := 0xcafebabe
def fat64 : Nat := 0xcafebabf
def thin64 : Nat := 0xfeedfacf
def thin32 : Nat := 0xfeedface
def swapped64 : Nat := 0xcffaedfe
def swapped32 : Nat := 0xcefaedfe

def byteSwapped (n : Nat) : Nat := leNat (leBytes 4 n).reverse

/-- `read`, on a little-endian machine -/
def read (bytes : Bytes) (offset : Nat) (bigEndian : Bool) : Option Nat :=
  if offset + 4 ≤ bytes.length then
    let value := leNat (slice bytes offset 4)
    some (if bigEndian then byteSwapped value else value)
  else none

/-- `bytes[start..<fin]` -/
def subdata (bytes : Bytes) (start fin : Nat) : Option Bytes :=
  if start ≤ fin ∧ fin ≤ bytes.length then some (slice bytes start (fin - start)) else none

/-- `replaceSubrange(start..<fin, with:)`, by as many bytes -/
def replaceSubrange (bytes : Bytes) (start fin : Nat) (new : Bytes) : Option Bytes :=
  if start ≤ fin ∧ fin ≤ bytes.length then some (splice bytes start new) else none

def overlaps (a b : Nat × Nat) : Bool := a.1 < a.2 && b.1 < b.2 && a.1 < b.2 && b.1 < a.2

def isFlipped (magic : Option Nat) : Bool := magic == some swapped64 || magic == some swapped32

def stride (wide : Bool) : Nat := if wide then 32 else 20

/-- The range of one entry of the table. -/
def fatRange (bytes : Bytes) (wide : Bool) (count index : Nat) (ranges : List (Nat × Nat)) : Option (Nat × Nat) :=
  let entry := 8 + index * stride wide
  if wide ∧ (read bytes (entry + 8) true ≠ some 0 ∨ read bytes (entry + 16) true ≠ some 0) then none
  else
    match read bytes (entry + if wide then 12 else 8) true, read bytes (entry + if wide then 20 else 12) true with
    | some offset, some size =>
        if 0 < size ∧ 8 + count * stride wide ≤ offset ∧ offset + size ≤ bytes.length then
          let range := (offset, offset + size)
          if ranges.any fun r ↦ overlaps r range then none
          else
            let flipped := isFlipped (read bytes offset false)
            if read bytes entry true = read bytes (offset + 4) flipped ∧
                read bytes (entry + 4) true = read bytes (offset + 8) flipped then some range
            else none
        else none
    | _, _ => none

/-- The loop over the table, with the entries that are left. -/
def rangesLoop (bytes : Bytes) (wide : Bool) (count : Nat) : Nat → Nat → List (Nat × Nat) → Option (List (Nat × Nat))
  | 0, _, ranges => some ranges
  | left + 1, index, ranges =>
      match fatRange bytes wide count index ranges with
      | none => none
      | some range => rangesLoop bytes wide count left (index + 1) (ranges ++ [range])

def rangesOf (bytes : Bytes) : Option (List (Nat × Nat)) :=
  match read bytes 0 false with
  | none => none
  | some magic =>
      if byteSwapped magic = fat32 ∨ byteSwapped magic = fat64 then
        let wide := byteSwapped magic == fat64
        match read bytes 4 true with
        | none => none
        | some count =>
            if 0 < count ∧ count ≤ (bytes.length - 8) / stride wide then rangesLoop bytes wide count count 0 []
            else none
      else some [(0, bytes.length)]

def linkedit : Bytes := ascii "__LINKEDIT"

/-- The same letters with the Kelvin sign, U+212A, for the K. -/
def kelvinLinkedit : Bytes := ascii "__LIN" ++ [0xe2, 0x84, 0xaa] ++ ascii "EDIT"

/-- `String(decoding: name, as: UTF8.self) == "__LINKEDIT"`: of the characters that are canonically equivalent to one
of these letters, the Kelvin sign is the only one besides the letter. -/
def readsLinkedit (name : Bytes) : Bool := name == linkedit || name == kelvinLinkedit

def minSize (command : Nat) : Nat := if command = 0x19 then 72 else 56

def vmsizeAt (command : Nat) : Nat := if command = 0x19 then 32 else 28

def vmsizeWidth (command : Nat) : Nat := if command = 0x19 then 8 else 4

/-- One round of the loop over the load commands: the size of the command and what the slice is then. -/
def commandStep (flipped : Bool) (fin cursor : Nat) (bytes : Bytes) : Option (Option (Nat × Bytes)) :=
  match read bytes cursor flipped, read bytes (cursor + 4) flipped with
  | some command, some size =>
      if 8 ≤ size ∧ cursor + size ≤ fin then
        if command = 0x19 ∨ command = 0x1 then
          if minSize command ≤ size then
            match subdata bytes (cursor + 8) (cursor + 24) with
            | none => none
            | some name =>
                if readsLinkedit (cString name) then
                  let start := cursor + vmsizeAt command
                  let width := vmsizeWidth command
                  match replaceSubrange bytes start (start + width) (List.replicate width 0) with
                  | none => none
                  | some bytes => some (some (size, bytes))
                else some (some (size, bytes))
          else some none
        else some (some (size, bytes))
      else some none
  | _, _ => some none

def commandLoop (flipped : Bool) (fin : Nat) : Nat → Nat → Bytes → Option (Option Bytes)
  | 0, _, bytes => some (some bytes)
  | left + 1, cursor, bytes =>
      match commandStep flipped fin cursor bytes with
      | none => none
      | some none => some none
      | some (some (size, bytes)) => commandLoop flipped fin left (cursor + size) bytes

/-- What becomes of one slice. -/
def unsignedSlice (bytes : Bytes) : Option (Option Bytes) :=
  match read bytes 0 false with
  | none => some none
  | some magic =>
      if magic = thin64 ∨ magic = thin32 ∨ magic = swapped64 ∨ magic = swapped32 then
        let flipped := isFlipped (some magic)
        let cursor := if magic = thin64 ∨ magic = swapped64 then 32 else 28
        match read bytes 16 flipped, read bytes 20 flipped with
        | some count, some length =>
            if cursor + length ≤ bytes.length ∧ count ≤ length / 8 then
              commandLoop flipped (cursor + length) count cursor bytes
            else some none
        | _, _ => some none
      else some none

def slicesLoop (bytes : Bytes) : List (Nat × Nat) → Option (Option (List Bytes))
  | [] => some (some [])
  | range :: ranges =>
      match subdata bytes range.1 range.2 with
      | none => none
      | some part =>
          match unsignedSlice part with
          | none => none
          | some none => some none
          | some (some part) =>
              match slicesLoop bytes ranges with
              | none => none
              | some none => some none
              | some (some result) => some (some (part :: result))

def unsignedSlices (bytes : Bytes) : Option (Option (List Bytes)) :=
  match rangesOf bytes with
  | none => some none
  | some ranges => slicesLoop bytes ranges

/-- What `hashesIgnoringSignature` returns for a file whose signature has been removed. -/
def hashes (sha256 : Bytes → String) (bytes : Bytes) : Option (Option (List String)) :=
  match unsignedSlices bytes with
  | none => none
  | some none => some none
  | some (some slices) => some (some ((slices.map sha256).mergeSort fun a b ↦ a ≤ b))

/-! ## Images -/

/-- The `w` bytes of `n` in one of the two orders. -/
def word (bigEndian : Bool) (w n : Nat) : Bytes := if bigEndian then (leBytes w n).reverse else leBytes w n

/-- A load command; a segment has room for the fields of a segment. -/
structure Command where
  type : Nat
  body : Bytes
  type_lt : type < 2 ^ 32
  size_lt : 8 + body.length < 2 ^ 32
  segment : type = 0x19 ∨ type = 0x1 → minSize type ≤ 8 + body.length

namespace Command

def size (c : Command) : Nat := 8 + c.body.length

def bytes (flipped : Bool) (c : Command) : Bytes := word flipped 4 c.type ++ word flipped 4 c.size ++ c.body

def IsSegment (c : Command) : Prop := c.type = 0x19 ∨ c.type = 0x1

instance (c : Command) : Decidable c.IsSegment := inferInstanceAs (Decidable (_ ∨ _))

def segname (c : Command) : Bytes := cString (c.body.take 16)

theorem vmsize_le {c : Command} (h : c.IsSegment) : vmsizeAt c.type - 8 + vmsizeWidth c.type ≤ c.body.length := by
  have hsize := c.segment h
  by_cases hc : c.type = 0x19
  · rw [minSize, if_pos hc] at hsize
    rw [vmsizeAt, vmsizeWidth, if_pos hc, if_pos hc]
    omega
  · rw [minSize, if_neg hc] at hsize
    rw [vmsizeAt, vmsizeWidth, if_neg hc, if_neg hc]
    omega

theorem length_cleared {c : Command} (h : c.IsSegment) :
    (splice c.body (vmsizeAt c.type - 8) (List.replicate (vmsizeWidth c.type) 0)).length = c.body.length := by
  rw [splice_length]
  rw [List.length_replicate]
  exact vmsize_le h

/-- The command with a `vmsize` of zero, when it is a segment with such a name. -/
def zeroed (named : Bytes → Bool) (c : Command) : Command :=
  if h : c.IsSegment ∧ named c.segname then
    { c with
      body := splice c.body (vmsizeAt c.type - 8) (List.replicate (vmsizeWidth c.type) 0)
      size_lt := by rw [length_cleared h.1]; exact c.size_lt
      segment := by rw [length_cleared h.1]; exact c.segment }
  else c

@[simp] theorem zeroed_type (named : Bytes → Bool) (c : Command) : (c.zeroed named).type = c.type := by
  unfold zeroed
  split <;> rfl

@[simp] theorem zeroed_size (named : Bytes → Bool) (c : Command) : (c.zeroed named).size = c.size := by
  unfold zeroed
  split
  · rename_i h
    rw [size, size, length_cleared h.1]
  · rfl

end Command

def total (commands : List Command) : Nat := (commands.map Command.size).sum

theorem total_zeroed (named : Bytes → Bool) (commands : List Command) :
    total (commands.map (Command.zeroed named)) = total commands := by
  rw [total, total, List.map_map]
  congr 1
  exact List.map_congr_left fun c _ ↦ c.zeroed_size named

/-- A thin Mach-O file.  `length` is the size its header gives to the commands, `rest` what is behind them. -/
structure Image where
  wide : Bool
  flipped : Bool
  cpuType : Nat
  cpuSubtype : Nat
  fileType : Bytes
  length : Nat
  flags : Bytes
  commands : List Command
  rest : Bytes
  cpuType_lt : cpuType < 2 ^ 32
  cpuSubtype_lt : cpuSubtype < 2 ^ 32
  fileType_length : fileType.length = 4
  flags_length : flags.length = if wide then 8 else 4
  length_lt : length < 2 ^ 32
  total_le : total commands ≤ length
  length_le : length ≤ total commands + rest.length

def magicOf (flipped wide : Bool) : Nat :=
  if flipped then if wide then swapped64 else swapped32 else if wide then thin64 else thin32

namespace Image

def magic (i : Image) : Nat := magicOf i.flipped i.wide

def header (i : Image) : Bytes :=
  leBytes 4 i.magic ++ word i.flipped 4 i.cpuType ++ word i.flipped 4 i.cpuSubtype ++ i.fileType ++
    word i.flipped 4 i.commands.length ++ word i.flipped 4 i.length ++ i.flags

def bytes (i : Image) : Bytes := i.header ++ i.commands.flatMap (Command.bytes i.flipped) ++ i.rest

def zeroedWhere (named : Bytes → Bool) (i : Image) : Image :=
  { i with
    commands := i.commands.map (Command.zeroed named)
    total_le := by rw [total_zeroed]; exact i.total_le
    length_le := by rw [total_zeroed]; exact i.length_le }

/-- The image with a `vmsize` of zero in its `__LINKEDIT` segment. -/
def zeroed (i : Image) : Image := i.zeroedWhere (· == linkedit)

/-- No segment has the name that only looks like `__LINKEDIT`. -/
def Plain (i : Image) : Prop := ∀ c ∈ i.commands, c.IsSegment → c.segname ≠ kelvinLinkedit

end Image

/-! ## Universal files -/

/-- An image with its place and the end of its entry in the table, the alignment. -/
structure Slot where
  image : Image
  offset : Nat
  align : Bytes

def fieldWidth (wide : Bool) : Nat := if wide then 8 else 4

def Slot.size (s : Slot) : Nat := s.image.bytes.length

def Slot.range (s : Slot) : Nat × Nat := (s.offset, s.offset + s.size)

def Slot.entry (wide : Bool) (s : Slot) : Bytes :=
  word true 4 s.image.cpuType ++ word true 4 s.image.cpuSubtype ++ word true (fieldWidth wide) s.offset ++
    word true (fieldWidth wide) s.size ++ s.align

def table (wide : Bool) (slots : List Slot) : Bytes :=
  word true 4 (if wide then fat64 else fat32) ++ word true 4 slots.length ++ slots.flatMap (Slot.entry wide)

def Disjoint (a b : Nat × Nat) : Prop := a.2 ≤ b.1 ∨ b.2 ≤ a.1

/-- A universal file with these images: the table, and every image somewhere behind it, with any bytes between. -/
structure Packed (wide : Bool) (slots : List Slot) (bytes : Bytes) : Prop where
  table : table wide slots <+: bytes
  count : slots.length < 2 ^ 32
  align : ∀ s ∈ slots, s.align.length = fieldWidth wide
  fields : ∀ s ∈ slots, s.offset < 256 ^ fieldWidth wide ∧ s.size < 256 ^ fieldWidth wide
  behind : ∀ s ∈ slots, 8 + slots.length * stride wide ≤ s.offset
  placed : ∀ s ∈ slots, s.image.bytes <+: bytes.drop s.offset
  apart : slots.Pairwise fun s t ↦ Disjoint s.range t.range

/-! ## Reading -/

theorem word_length (flipped : Bool) (w n : Nat) : (word flipped w n).length = w := by
  unfold word
  split
  · rw [List.length_reverse, leBytes_length]
  · exact leBytes_length w n

theorem byteSwapped_leNat {s : Bytes} (h : s.length = 4) : byteSwapped (leNat s) = leNat s.reverse := by
  rw [byteSwapped, leBytes_leNat h]

theorem leNat_lt_word {s : Bytes} (h : s.length = 4) : leNat s < 2 ^ 32 := by
  have hlt := leNat_lt s
  rw [h] at hlt
  omega

theorem leNat_leBytes_word {n : Nat} (h : n < 2 ^ 32) : leNat (leBytes 4 n) = n := leNat_leBytes (by omega)

theorem read_of_start {bytes : Bytes} {offset n : Nat} {flipped : Bool} (hn : n < 2 ^ 32)
    (h : word flipped 4 n <+: bytes.drop offset) : read bytes offset flipped = some n := by
  have hlen : (word flipped 4 n).length = 4 := word_length flipped 4 n
  have hne : word flipped 4 n ≠ [] := List.ne_nil_of_length_pos (by omega)
  have hle := add_length_le_of_start h hne
  have hslice := slice_of_start h
  rw [hlen] at hle hslice
  rw [read, if_pos hle, hslice]
  cases flipped with
  | false =>
    show some (leNat (leBytes 4 n)) = some n
    rw [leNat_leBytes_word hn]
  | true =>
    show some (byteSwapped (leNat (leBytes 4 n).reverse)) = some n
    rw [byteSwapped_leNat (by rw [List.length_reverse, leBytes_length]), List.reverse_reverse, leNat_leBytes_word hn]

theorem of_read {bytes : Bytes} {offset n : Nat} {flipped : Bool} (h : read bytes offset flipped = some n) :
    offset + 4 ≤ bytes.length ∧ n < 2 ^ 32 ∧ word flipped 4 n = slice bytes offset 4 := by
  unfold read at h
  split at h
  · rename_i hle
    have hlen : (slice bytes offset 4).length = 4 := slice_length hle
    have hrev : (slice bytes offset 4).reverse.length = 4 := by rw [List.length_reverse, hlen]
    rw [← Option.some.inj h]
    cases flipped with
    | false => exact ⟨hle, leNat_lt_word hlen, leBytes_leNat hlen⟩
    | true =>
      rw [if_pos rfl, byteSwapped_leNat hlen]
      refine ⟨hle, leNat_lt_word hrev, ?_⟩
      show (leBytes 4 _).reverse = _
      rw [leBytes_leNat hrev, List.reverse_reverse]
  · cases h

/-- The two orders are each other's swap. -/
theorem read_true (bytes : Bytes) (offset : Nat) :
    read bytes offset true = (read bytes offset false).map byteSwapped := by
  unfold read
  split <;> rfl

/-! ## Load commands -/

namespace Command

@[simp] theorem length_bytes (flipped : Bool) (c : Command) : (c.bytes flipped).length = c.size := by
  rw [bytes, List.length_append, List.length_append, word_length, word_length, size]

theorem size_lt' (c : Command) : c.size < 2 ^ 32 := c.size_lt

theorem zeroed_of_pos {named : Bytes → Bool} {c : Command} (hc : c.IsSegment) (hnamed : named c.segname) :
    (c.zeroed named).body = splice c.body (vmsizeAt c.type - 8) (List.replicate (vmsizeWidth c.type) 0) := by
  rw [zeroed, dif_pos ⟨hc, hnamed⟩]

theorem zeroed_of_neg {named : Bytes → Bool} {c : Command} (h : ¬(c.IsSegment ∧ named c.segname)) :
    c.zeroed named = c := dif_neg h

theorem bytes_prefix {flipped : Bool} {c : Command} {bytes : Bytes} {o : Nat} :
    c.bytes flipped <+: bytes.drop o ↔ word flipped 4 c.type <+: bytes.drop o ∧
      word flipped 4 c.size <+: bytes.drop (o + 4) ∧ c.body <+: bytes.drop (o + 8) := by
  rw [Command.bytes, prefix_drop_append, prefix_drop_append, List.length_append, word_length, word_length, and_assoc]

theorem eight_le_vmsizeAt (n : Nat) : 8 ≤ vmsizeAt n := by
  unfold vmsizeAt
  split <;> omega

end Command

variable (flipped : Bool) {fin : Nat}

/-- A command at the cursor loses its `vmsize`, and nothing else changes. -/
theorem commandStep_append (c : Command) (s t : Bytes) (hfin : s.length + c.size ≤ fin) :
    commandStep flipped fin s.length (s ++ c.bytes flipped ++ t) =
      some (some (c.size, s ++ (c.zeroed readsLinkedit).bytes flipped ++ t)) := by
  have hhead : (word flipped 4 c.type ++ word flipped 4 c.size).length = 8 := by
    rw [List.length_append, word_length, word_length]
  have hat : c.bytes flipped <+: (s ++ c.bytes flipped ++ t).drop s.length := by
    rw [List.append_assoc, List.drop_left]
    exact List.prefix_append _ _
  obtain ⟨htype, hsize, -⟩ := Command.bytes_prefix.mp hat
  have hbytes : s ++ c.bytes flipped ++ t =
      (s ++ (word flipped 4 c.type ++ word flipped 4 c.size)) ++ (c.body ++ t) := by
    rw [Command.bytes]
    simp only [List.append_assoc]
  have hplace : ∀ k, s.length + (8 + k) = (s ++ (word flipped 4 c.type ++ word flipped 4 c.size)).length + k := by
    intro k
    rw [List.length_append, hhead]
    omega
  have hlen : (s ++ c.bytes flipped ++ t).length = s.length + c.size + t.length := by
    rw [List.length_append, List.length_append, Command.length_bytes]
  rw [commandStep, read_of_start c.type_lt htype, read_of_start c.size_lt' hsize]
  simp only
  rw [if_pos ⟨by rw [Command.size]; omega, hfin⟩]
  -- Only a segment named `__LINKEDIT` is written to.
  by_cases hseg : c.IsSegment
  · have hvm := Command.vmsize_le hseg
    have hmin := c.segment hseg
    have hge := Command.eight_le_vmsizeAt c.type
    have hroom : 16 ≤ c.body.length := by
      unfold minSize at hmin
      split at hmin <;> omega
    have hname : subdata (s ++ c.bytes flipped ++ t) (s.length + 8) (s.length + 24) = some (c.body.take 16) := by
      rw [subdata, if_pos ⟨by omega, by rw [hlen, Command.size]; omega⟩,
        show s.length + 24 - (s.length + 8) = 16 by omega, hbytes, show s.length + 8 = s.length + (8 + 0) by omega,
        hplace, slice_append_right, slice_append_left (by omega)]
      rfl
    rw [if_pos (show c.type = 0x19 ∨ c.type = 0x1 from hseg), if_pos (show minSize c.type ≤ c.size from hmin), hname]
    simp only
    by_cases hnamed : readsLinkedit (cString (c.body.take 16))
    · have hreplace : replaceSubrange (s ++ c.bytes flipped ++ t) (s.length + vmsizeAt c.type)
          (s.length + vmsizeAt c.type + vmsizeWidth c.type) (List.replicate (vmsizeWidth c.type) 0) =
          some (s ++ (c.zeroed readsLinkedit).bytes flipped ++ t) := by
        rw [replaceSubrange, if_pos ⟨by omega, by rw [hlen, Command.size]; omega⟩, hbytes,
          show s.length + vmsizeAt c.type = s.length + (8 + (vmsizeAt c.type - 8)) by omega, hplace,
          splice_append_right, splice_append_left (by rw [List.length_replicate]; exact hvm), Command.bytes,
          Command.zeroed_of_pos hseg hnamed, Command.zeroed_type, Command.zeroed_size]
        simp only [List.append_assoc]
      rw [if_pos hnamed, hreplace]
    · rw [if_neg hnamed, Command.zeroed_of_neg fun h ↦ hnamed h.2]
  · rw [if_neg (show ¬(c.type = 0x19 ∨ c.type = 0x1) from hseg), Command.zeroed_of_neg fun h ↦ hseg h.1]

/-- A step that is taken had a command at the cursor. -/
theorem commandStep_sound (cursor : Nat) {bytes : Bytes} (hfin : fin ≤ bytes.length) :
    commandStep flipped fin cursor bytes = some none ∨
      ∃ c : Command, c.bytes flipped <+: bytes.drop cursor ∧ cursor + c.size ≤ fin := by
  rw [commandStep]
  cases htype : read bytes cursor flipped with
  | none => exact .inl rfl
  | some type =>
    cases hsize : read bytes (cursor + 4) flipped with
    | none => exact .inl rfl
    | some size =>
      simp only
      by_cases hroom : 8 ≤ size ∧ cursor + size ≤ fin
      · rw [if_pos hroom]
        by_cases hshort : (type = 0x19 ∨ type = 0x1) ∧ ¬minSize type ≤ size
        · rw [if_pos hshort.1, if_neg hshort.2]
          exact .inl rfl
        · obtain ⟨-, htype_lt, htype⟩ := of_read htype
          obtain ⟨-, hsize_lt, hsize⟩ := of_read hsize
          have hbody : (slice bytes (cursor + 8) (size - 8)).length = size - 8 := slice_length (by omega)
          -- The command is its type and what its size covers; a segment has room for its own fields.
          obtain ⟨c, hctype, hcbody⟩ : ∃ c : Command, c.type = type ∧ c.body = slice bytes (cursor + 8) (size - 8) :=
            ⟨⟨type, slice bytes (cursor + 8) (size - 8), htype_lt, by rw [hbody]; omega, fun h ↦ by
              have hmin := not_and_not_right.mp hshort h
              rw [hbody]
              omega⟩, rfl, rfl⟩
          have hcsize : c.size = size := by rw [Command.size, hcbody, hbody]; omega
          refine .inr ⟨c, ?_, by omega⟩
          rw [Command.bytes_prefix, hcsize, hctype, hcbody, htype, hsize]
          exact ⟨slice_start .., slice_start .., slice_start ..⟩
      · rw [if_neg hroom]
        exact .inl rfl

theorem length_flatMap_bytes (commands : List Command) :
    (commands.flatMap (Command.bytes flipped)).length = total commands := by
  induction commands with
  | nil => rfl
  | cons c commands ih =>
    rw [List.flatMap_cons, List.length_append, Command.length_bytes, ih]
    rfl

theorem total_cons (c : Command) (commands : List Command) : total (c :: commands) = c.size + total commands := rfl

theorem commandLoop_append (commands : List Command) (s t : Bytes) (hfin : s.length + total commands ≤ fin) :
    commandLoop flipped fin commands.length s.length (s ++ commands.flatMap (Command.bytes flipped) ++ t) =
      some (some (s ++ (commands.map (Command.zeroed readsLinkedit)).flatMap (Command.bytes flipped) ++ t)) := by
  induction commands generalizing s with
  | nil => rfl
  | cons c commands ih =>
    rw [total_cons] at hfin
    have hstep := commandStep_append flipped c s (commands.flatMap (Command.bytes flipped) ++ t)
      (show s.length + c.size ≤ fin by omega)
    have hs : s.length + c.size = (s ++ (c.zeroed readsLinkedit).bytes flipped).length := by
      rw [List.length_append, Command.length_bytes, Command.zeroed_size]
    rw [List.flatMap_cons, show s ++ (c.bytes flipped ++ commands.flatMap (Command.bytes flipped)) ++ t =
      s ++ c.bytes flipped ++ (commands.flatMap (Command.bytes flipped) ++ t) by simp only [List.append_assoc],
      List.length_cons, commandLoop, hstep]
    simp only
    rw [← List.append_assoc _ _ t, hs, ih _ (by omega), List.map_cons, List.flatMap_cons]
    simp only [List.append_assoc]

/-- A loop that gets through went over a row of commands. -/
theorem commandLoop_sound (n : Nat) (s rest : Bytes) (hs : s.length ≤ fin) (hfin : fin ≤ (s ++ rest).length) :
    commandLoop flipped fin n s.length (s ++ rest) = some none ∨
      ∃ commands t, commands.length = n ∧ rest = commands.flatMap (Command.bytes flipped) ++ t ∧
        s.length + total commands ≤ fin := by
  induction n generalizing s rest with
  | zero => exact .inr ⟨[], rest, rfl, rfl, hs⟩
  | succ n ih =>
    rw [commandLoop]
    obtain hstep | ⟨c, ⟨t, hc⟩, hle⟩ := commandStep_sound flipped s.length hfin
    · rw [hstep]
      exact .inl rfl
    · rw [List.drop_left] at hc
      subst hc
      have hs' : s.length + c.size = (s ++ (c.zeroed readsLinkedit).bytes flipped).length := by
        rw [List.length_append, Command.length_bytes, Command.zeroed_size]
      have hlen : fin ≤ (s ++ (c.zeroed readsLinkedit).bytes flipped ++ t).length := by
        rw [List.length_append, ← hs']
        rw [List.length_append, List.length_append, Command.length_bytes] at hfin
        omega
      rw [← List.append_assoc, commandStep_append flipped c s t hle]
      simp only
      rw [hs']
      obtain hnone | ⟨commands, t', hn, ht, htotal⟩ := ih _ t (by omega) hlen
      · exact .inl hnone
      · refine .inr ⟨c :: commands, t', by rw [List.length_cons, hn], ?_, ?_⟩
        · rw [ht, List.flatMap_cons, List.append_assoc]
        · rw [total_cons]
          omega

/-! ## Slices -/

theorem isFlipped_magicOf : ∀ flipped wide, isFlipped (some (magicOf flipped wide)) = flipped := by decide

theorem magicOf_lt : ∀ flipped wide, magicOf flipped wide < 2 ^ 32 := by decide

theorem magicOf_mem : ∀ flipped wide, magicOf flipped wide = thin64 ∨ magicOf flipped wide = thin32 ∨
    magicOf flipped wide = swapped64 ∨ magicOf flipped wide = swapped32 := by decide

theorem magicOf_wide : ∀ flipped wide, magicOf flipped wide = thin64 ∨ magicOf flipped wide = swapped64 ↔ wide := by
  decide

theorem exists_magicOf {magic : Nat} (h : magic = thin64 ∨ magic = thin32 ∨ magic = swapped64 ∨ magic = swapped32) :
    ∃ flipped wide, magic = magicOf flipped wide := by
  obtain rfl | rfl | rfl | rfl := h
  · exact ⟨false, true, rfl⟩
  · exact ⟨false, false, rfl⟩
  · exact ⟨true, true, rfl⟩
  · exact ⟨true, false, rfl⟩

def headerSize (wide : Bool) : Nat := if wide then 32 else 28

theorem headerSize_ge (wide : Bool) : 28 ≤ headerSize wide := by cases wide <;> decide

theorem cursor_eq (flipped wide : Bool) :
    (if magicOf flipped wide = thin64 ∨ magicOf flipped wide = swapped64 then 32 else 28) = headerSize wide :=
  if_congr (magicOf_wide flipped wide) rfl rfl

namespace Image

theorem length_header (i : Image) : i.header.length = headerSize i.wide := by
  have hflags := i.flags_length
  rw [header]
  simp only [List.length_append, word_length, leBytes_length, i.fileType_length, hflags]
  rw [headerSize]
  split <;> rfl

theorem length_bytes (i : Image) : i.bytes.length = headerSize i.wide + total i.commands + i.rest.length := by
  rw [bytes, List.length_append, List.length_append, length_header, length_flatMap_bytes]

theorem bytes_ne_nil (i : Image) : i.bytes ≠ [] := by
  have := i.length_bytes
  have := headerSize_ge i.wide
  exact List.ne_nil_of_length_pos (by omega)

/-- The fields of the header, at their places. -/
theorem header_prefix {i : Image} {bytes : Bytes} (h : i.bytes <+: bytes) :
    word false 4 i.magic <+: bytes.drop 0 ∧ word i.flipped 4 i.cpuType <+: bytes.drop 4 ∧
      word i.flipped 4 i.cpuSubtype <+: bytes.drop 8 ∧ word i.flipped 4 i.commands.length <+: bytes.drop 16 ∧
      word i.flipped 4 i.length <+: bytes.drop 20 := by
  have hheader : i.header <+: bytes.drop 0 := by
    refine List.IsPrefix.trans ?_ h
    rw [Image.bytes, List.append_assoc]
    exact List.prefix_append _ _
  rw [header] at hheader
  simp only [prefix_drop_append, List.length_append, word_length, leBytes_length, i.fileType_length] at hheader
  exact ⟨hheader.1.1.1.1.1.1, hheader.1.1.1.1.1.2, hheader.1.1.1.1.2, hheader.1.1.2, hheader.1.2⟩

theorem eight_mul_le_total (commands : List Command) : 8 * commands.length ≤ total commands := by
  induction commands with
  | nil => exact Nat.le_refl 0
  | cons c commands ih =>
    rw [total_cons, List.length_cons, Command.size]
    omega

theorem commands_le (i : Image) : i.commands.length ≤ i.length / 8 := by
  have := eight_mul_le_total i.commands
  have := i.total_le
  omega

end Image

theorem unsignedSlice_bytes (i : Image) : unsignedSlice i.bytes = some (some (i.zeroedWhere readsLinkedit).bytes) := by
  obtain ⟨hmagic, -, -, hcount, hlength⟩ := i.header_prefix List.prefix_rfl
  have hcommands := i.commands_le
  have hlt := i.length_lt
  have hle := i.length_le
  have htotal := i.total_le
  have hheader : (i.zeroedWhere readsLinkedit).header = i.header := by
    rw [Image.header, Image.header, Image.zeroedWhere]
    simp only [List.length_map]
    rfl
  rw [Image.magic] at hmagic
  rw [unsignedSlice, read_of_start (magicOf_lt _ _) hmagic]
  simp only
  rw [if_pos (magicOf_mem _ _), isFlipped_magicOf, cursor_eq, read_of_start (by omega) hcount,
    read_of_start hlt hlength]
  simp only
  rw [if_pos ⟨by rw [i.length_bytes]; omega, hcommands⟩, Image.bytes, ← i.length_header,
    commandLoop_append _ _ _ _ (by rw [i.length_header]; omega), Image.bytes, hheader]
  rfl

theorem exists_read {bytes : Bytes} {offset : Nat} (h : offset + 4 ≤ bytes.length) :
    ∃ n, read bytes offset flipped = some n := ⟨_, if_pos h⟩

/-- A header with a row of commands behind it is an image. -/
theorem exists_image {wide : Bool} {bytes t : Bytes} {length : Nat} {commands : List Command}
    (hmagic : read bytes 0 false = some (magicOf flipped wide))
    (hcount : read bytes 16 flipped = some commands.length) (hlength : read bytes 20 flipped = some length)
    (hfit : headerSize wide + length ≤ bytes.length) (htotal : total commands ≤ length)
    (hrest : bytes.drop (headerSize wide) = commands.flatMap (Command.bytes flipped) ++ t) :
    ∃ i : Image, i.bytes = bytes := by
  have hge := headerSize_ge wide
  obtain ⟨cpuType, hcpu⟩ := exists_read flipped (show 4 + 4 ≤ bytes.length by omega)
  obtain ⟨cpuSubtype, hsub⟩ := exists_read flipped (show 8 + 4 ≤ bytes.length by omega)
  obtain ⟨-, -, hmagic⟩ := of_read hmagic
  obtain ⟨-, hcpu_lt, hcpu⟩ := of_read hcpu
  obtain ⟨-, hsub_lt, hsub⟩ := of_read hsub
  obtain ⟨-, -, hcount⟩ := of_read hcount
  obtain ⟨-, hlength_lt, hlength⟩ := of_read hlength
  have hrest_length : headerSize wide + (total commands + t.length) = bytes.length := by
    rw [← length_flatMap_bytes flipped, ← List.length_append, ← hrest, List.length_drop]
    omega
  have hflags : (slice bytes 24 (if wide then 8 else 4)).length = if wide then 8 else 4 := by
    have hroom : 24 + (if wide then 8 else 4) = headerSize wide := by cases wide <;> rfl
    exact slice_length (by omega)
  let i : Image := ⟨wide, flipped, cpuType, cpuSubtype, slice bytes 12 4, length,
    slice bytes 24 (if wide then 8 else 4), commands, t, hcpu_lt, hsub_lt, slice_length (by omega), hflags,
    hlength_lt, htotal, by omega⟩
  -- The header's fields, each read back as it was written.
  have hheader : i.header <+: bytes.drop 0 := by
    simp only [Image.header, prefix_drop_append, List.length_append, word_length, leBytes_length, i.fileType_length]
    refine ⟨⟨⟨⟨⟨⟨?_, ?_⟩, ?_⟩, slice_start ..⟩, ?_⟩, ?_⟩, slice_start ..⟩
    · show word false 4 (magicOf flipped wide) <+: _
      exact hmagic ▸ slice_start ..
    · show word flipped 4 cpuType <+: _
      exact hcpu ▸ slice_start ..
    · show word flipped 4 cpuSubtype <+: _
      exact hsub ▸ slice_start ..
    · show word flipped 4 commands.length <+: _
      exact hcount ▸ slice_start ..
    · show word flipped 4 length <+: _
      exact hlength ▸ slice_start ..
  have htake : i.header = bytes.take (headerSize wide) := by
    rw [List.prefix_iff_eq_take.mp hheader, i.length_header, List.drop_zero]
  refine ⟨i, ?_⟩
  rw [Image.bytes, htake, List.append_assoc]
  show bytes.take (headerSize wide) ++ (commands.flatMap (Command.bytes flipped) ++ t) = bytes
  rw [← hrest, List.take_append_drop]

/-- A slice that is accepted is an image. -/
theorem unsignedSlice_sound (bytes : Bytes) : unsignedSlice bytes = some none ∨ ∃ i : Image, i.bytes = bytes := by
  rw [unsignedSlice]
  cases hmagic : read bytes 0 false with
  | none => exact .inl rfl
  | some magic =>
    simp only
    by_cases hmem : magic = thin64 ∨ magic = thin32 ∨ magic = swapped64 ∨ magic = swapped32
    · obtain ⟨flipped, wide, rfl⟩ := exists_magicOf hmem
      rw [if_pos hmem, isFlipped_magicOf, cursor_eq]
      cases hcount : read bytes 16 flipped with
      | none => exact .inl rfl
      | some count =>
        cases hlength : read bytes 20 flipped with
        | none => exact .inl rfl
        | some length =>
          simp only
          by_cases hfit : headerSize wide + length ≤ bytes.length ∧ count ≤ length / 8
          · rw [if_pos hfit]
            have htake : (bytes.take (headerSize wide)).length = headerSize wide := by
              rw [List.length_take]
              omega
            -- The commands fill what `sizeofcmds` says, as far as the loop gets.
            have hsound := commandLoop_sound flipped count (bytes.take (headerSize wide)) (bytes.drop (headerSize wide))
              (show _ ≤ headerSize wide + length by omega) (by rw [List.take_append_drop]; exact hfit.1)
            rw [htake, List.take_append_drop] at hsound
            obtain hnone | ⟨commands, t, rfl, hrest, htotal⟩ := hsound
            · exact .inl hnone
            · exact .inr (exists_image flipped hmagic hcount hlength hfit.1 (by omega) hrest)
          · rw [if_neg hfit]
            exact .inl rfl
    · rw [if_neg hmem]
      exact .inl rfl

/-! ## The table -/

variable {wide : Bool} {slots : List Slot} {bytes : Bytes}

theorem length_entry {s : Slot} (h : s.align.length = fieldWidth wide) : (s.entry wide).length = stride wide := by
  simp only [Slot.entry, List.length_append, word_length, h]
  cases wide <;> rfl

/-- The upper half of an eight-byte number comes first. -/
theorem word_eight (n : Nat) : word true 8 n = word true 4 (n / 2 ^ 32) ++ word true 4 (n % 2 ^ 32) := by
  have hpow : 2 ^ 32 = 256 ^ 4 := by norm_num
  show (leBytes (4 + 4) n).reverse = (leBytes 4 (n / 2 ^ 32)).reverse ++ (leBytes 4 (n % 2 ^ 32)).reverse
  rw [hpow, leBytes_mod, leBytes_add, List.reverse_append]

theorem length_flatMap_entry (h : ∀ s ∈ slots, s.align.length = fieldWidth wide) :
    (slots.flatMap (Slot.entry wide)).length = slots.length * stride wide := by
  induction slots with
  | nil => rw [List.flatMap_nil, List.length_nil, List.length_nil, Nat.zero_mul]
  | cons s slots ih =>
    rw [List.forall_mem_cons] at h
    rw [List.flatMap_cons, List.length_append, length_entry h.1, ih h.2, List.length_cons, Nat.add_mul, Nat.one_mul,
      Nat.add_comm]

namespace Packed

variable {before after : List Slot} {s : Slot}

theorem table_parts (h : Packed wide slots bytes) : word true 4 (if wide then fat64 else fat32) <+: bytes.drop 0 ∧
    word true 4 slots.length <+: bytes.drop 4 ∧ slots.flatMap (Slot.entry wide) <+: bytes.drop 8 := by
  have htable : MachOBuild.table wide slots <+: bytes.drop 0 := h.table
  rw [MachOBuild.table, prefix_drop_append, prefix_drop_append, List.length_append, word_length, word_length,
    and_assoc] at htable
  exact htable

/-- The entry with that number. -/
theorem entry_prefix (h : Packed wide (before ++ s :: after) bytes) :
    s.entry wide <+: bytes.drop (8 + before.length * stride wide) := by
  have halign : ∀ t ∈ before, t.align.length = fieldWidth wide := fun t ht ↦ h.align t (List.mem_append_left _ ht)
  have hentries := h.table_parts.2.2
  rw [List.flatMap_append, List.flatMap_cons, prefix_drop_append, prefix_drop_append, length_flatMap_entry halign]
    at hentries
  exact hentries.2.1

theorem le_length (h : Packed wide slots bytes) (hs : s ∈ slots) : s.offset + s.size ≤ bytes.length :=
  add_length_le_of_start (h.placed s hs) s.image.bytes_ne_nil

end Packed

variable {before after : List Slot} {s : Slot} {entry : Nat}

theorem entry_cpu (h : s.entry wide <+: bytes.drop entry) :
    read bytes entry true = some s.image.cpuType ∧ read bytes (entry + 4) true = some s.image.cpuSubtype := by
  rw [Slot.entry] at h
  simp only [prefix_drop_append, List.length_append, word_length] at h
  exact ⟨read_of_start s.image.cpuType_lt h.1.1.1.1, read_of_start s.image.cpuSubtype_lt h.1.1.1.2⟩

theorem entry_narrow (h : s.entry false <+: bytes.drop entry) (hoffset : s.offset < 2 ^ 32) (hsize : s.size < 2 ^ 32) :
    read bytes (entry + 8) true = some s.offset ∧ read bytes (entry + 12) true = some s.size := by
  rw [Slot.entry] at h
  simp only [prefix_drop_append, List.length_append, word_length] at h
  exact ⟨read_of_start hoffset h.1.1.2, read_of_start hsize h.1.2⟩

theorem entry_wide (h : s.entry true <+: bytes.drop entry) (hoffset : s.offset < 2 ^ 64) (hsize : s.size < 2 ^ 64) :
    read bytes (entry + 8) true = some (s.offset / 2 ^ 32) ∧
      read bytes (entry + 12) true = some (s.offset % 2 ^ 32) ∧
      read bytes (entry + 16) true = some (s.size / 2 ^ 32) ∧
      read bytes (entry + 20) true = some (s.size % 2 ^ 32) := by
  rw [Slot.entry, show fieldWidth true = 8 from rfl, word_eight, word_eight] at h
  simp only [prefix_drop_append, List.length_append, word_length] at h
  obtain ⟨⟨⟨-, hoff₁, hoff₂⟩, hsize₁, hsize₂⟩, -⟩ := h
  exact ⟨read_of_start (by omega) hoff₁, read_of_start (by omega) hoff₂, read_of_start (by omega) hsize₁,
    read_of_start (by omega) hsize₂⟩

/-- What an entry says of a place below 4 GiB. -/
theorem entry_place (h : s.entry wide <+: bytes.drop entry) (hoffset : s.offset < 2 ^ 32) (hsize : s.size < 2 ^ 32) :
    ¬(wide ∧ (read bytes (entry + 8) true ≠ some 0 ∨ read bytes (entry + 16) true ≠ some 0)) ∧
      read bytes (entry + if wide then 12 else 8) true = some s.offset ∧
      read bytes (entry + if wide then 20 else 12) true = some s.size := by
  cases wide with
  | false =>
    obtain ⟨h₁, h₂⟩ := entry_narrow h hoffset hsize
    exact ⟨fun h ↦ Bool.false_ne_true h.1, h₁, h₂⟩
  | true =>
    obtain ⟨h₁, h₂, h₃, h₄⟩ := entry_wide h (by omega) (by omega)
    rw [Nat.div_eq_of_lt hoffset] at h₁
    rw [Nat.mod_eq_of_lt hoffset] at h₂
    rw [Nat.div_eq_of_lt hsize] at h₃
    rw [Nat.mod_eq_of_lt hsize] at h₄
    exact ⟨fun h ↦ h.2.elim (fun h ↦ h h₁) fun h ↦ h h₃, h₂, h₄⟩

/-- An image names its own cpu type, in its own byte order. -/
theorem image_cpu {i : Image} {o : Nat} (h : i.bytes <+: bytes.drop o) :
    isFlipped (read bytes o false) = i.flipped ∧ read bytes (o + 4) i.flipped = some i.cpuType ∧
      read bytes (o + 8) i.flipped = some i.cpuSubtype := by
  obtain ⟨hmagic, hcpu, hsub, -, -⟩ := i.header_prefix h
  rw [List.drop_drop] at hmagic hcpu hsub
  rw [Image.magic] at hmagic
  rw [read_of_start (magicOf_lt _ _) (Nat.add_zero o ▸ hmagic), isFlipped_magicOf]
  exact ⟨rfl, read_of_start i.cpuType_lt hcpu, read_of_start i.cpuSubtype_lt hsub⟩

theorem overlaps_eq_false {a b : Nat × Nat} (h : Disjoint a b) : overlaps a b = false := by
  rw [overlaps, Bool.and_eq_false_iff]
  by_cases hab : a.1 < b.2
  · refine .inr ?_
    obtain h | h := h
    · exact decide_eq_false (by omega)
    · omega
  · exact .inl (by rw [decide_eq_false hab, Bool.and_false])

theorem size_pos (s : Slot) : 0 < s.size := List.length_pos_iff.mpr s.image.bytes_ne_nil

theorem fatRange_packed (h : Packed wide slots bytes) (heq : slots = before ++ s :: after) (hoffset : s.offset < 2 ^ 32)
    (hsize : s.size < 2 ^ 32) :
    fatRange bytes wide slots.length before.length (before.map Slot.range) = some s.range := by
  subst heq
  have hs : s ∈ before ++ s :: after := List.mem_append_right _ List.mem_cons_self
  obtain ⟨hhigh, hoff, hsz⟩ := entry_place h.entry_prefix hoffset hsize
  obtain ⟨hcpu, hsub⟩ := entry_cpu h.entry_prefix
  obtain ⟨hflipped, hicpu, hisub⟩ := image_cpu (h.placed s hs)
  have hnone : ¬((before.map Slot.range).any fun r ↦ overlaps r (s.offset, s.offset + s.size)) := by
    rw [List.any_map, Bool.not_eq_true, List.any_eq_false]
    intro t ht
    rw [Bool.not_eq_true]
    exact overlaps_eq_false ((List.pairwise_append.mp h.apart).2.2 t ht s List.mem_cons_self)
  rw [fatRange]
  simp only
  rw [if_neg hhigh, hoff, hsz]
  simp only
  rw [if_pos ⟨size_pos s, h.behind s hs, h.le_length hs⟩, if_neg hnone, hflipped, if_pos ⟨by rw [hcpu, hicpu], by
    rw [hsub, hisub]⟩]
  rfl

/-- The loop finds the place of every image. -/
theorem rangesLoop_packed (h : Packed wide slots bytes) (hlow : ∀ s ∈ slots, s.offset < 2 ^ 32 ∧ s.size < 2 ^ 32)
    (heq : slots = before ++ after) :
    rangesLoop bytes wide slots.length after.length before.length (before.map Slot.range) =
      some (slots.map Slot.range) := by
  induction after generalizing before with
  | nil => rw [heq, List.append_nil, List.length_nil, rangesLoop]
  | cons s after ih =>
    have hs := hlow s (heq ▸ List.mem_append_right _ List.mem_cons_self)
    have hnext := ih (show slots = (before ++ [s]) ++ after by rw [heq, List.append_assoc, List.singleton_append])
    rw [List.length_append, List.map_append] at hnext
    rw [List.length_cons, rangesLoop, fatRange_packed h heq hs.1 hs.2]
    exact hnext

theorem byteSwapped_magic (h : Packed wide slots bytes) :
    ∃ magic, read bytes 0 false = some magic ∧ byteSwapped magic = if wide then fat64 else fat32 := by
  have hread := read_of_start (by cases wide <;> decide) h.table_parts.1
  rw [read_true, Option.map_eq_some_iff] at hread
  exact hread

theorem rangesOf_eq_loop (h : Packed wide slots bytes) (hne : slots ≠ []) :
    rangesOf bytes = rangesLoop bytes wide slots.length slots.length 0 [] := by
  obtain ⟨magic, hmagic, hswapped⟩ := byteSwapped_magic h
  have hpos := List.length_pos_iff.mpr hne
  obtain ⟨s, hs⟩ := List.exists_mem_of_ne_nil slots hne
  have hroom := h.le_length hs
  have hbehind := h.behind s hs
  have hstride : 0 < stride wide := by cases wide <;> decide
  have hmul : slots.length * stride wide ≤ bytes.length - 8 := by omega
  have hwide : (byteSwapped magic == fat64) = wide := by
    rw [hswapped]
    cases wide <;> decide
  rw [rangesOf, hmagic]
  simp only
  rw [if_pos (by rw [hswapped]; cases wide; exacts [.inl rfl, .inr rfl]), hwide,
    read_of_start h.count h.table_parts.2.1]
  simp only
  rw [if_pos ⟨hpos, (Nat.le_div_iff_mul_le hstride).mpr hmul⟩]

theorem rangesOf_packed (h : Packed wide slots bytes) (hne : slots ≠ [])
    (hlow : ∀ s ∈ slots, s.offset < 2 ^ 32 ∧ s.size < 2 ^ 32) : rangesOf bytes = some (slots.map Slot.range) := by
  rw [rangesOf_eq_loop h hne]
  exact rangesLoop_packed h hlow (List.nil_append slots).symm

/-- An offset from 4 GiB on is refused. -/
theorem rangesOf_far (h : Packed true (s :: after) bytes) (hfar : 2 ^ 32 ≤ s.offset) : rangesOf bytes = none := by
  have hentry : s.entry true <+: bytes.drop (8 + 0 * stride true) := @Packed.entry_prefix true bytes [] after s h
  obtain ⟨hoffset, hsize⟩ : s.offset < 256 ^ 8 ∧ s.size < 256 ^ 8 := h.fields s List.mem_cons_self
  obtain ⟨hhigh, -⟩ := entry_wide hentry (by omega) (by omega)
  have hne : read bytes (8 + 0 * stride true + 8) true ≠ some 0 := by
    intro h0
    rw [h0] at hhigh
    have := Option.some.inj hhigh
    omega
  rw [rangesOf_eq_loop h (List.cons_ne_nil _ _), List.length_cons, rangesLoop, fatRange]
  simp only
  rw [if_pos ⟨trivial, .inl hne⟩]

/-! ## What is returned -/

theorem subdata_range (h : Packed wide slots bytes) (hs : s ∈ slots) :
    subdata bytes s.range.1 s.range.2 = some s.image.bytes := by
  have hroom := h.le_length hs
  rw [subdata, if_pos ⟨Nat.le_add_right _ _, hroom⟩, Slot.range, Nat.add_sub_cancel_left]
  exact congrArg some (slice_of_start (h.placed s hs))

theorem slicesLoop_packed (h : Packed wide slots bytes) {part : List Slot} (hpart : part ⊆ slots) :
    slicesLoop bytes (part.map Slot.range) =
      some (some (part.map fun s ↦ (s.image.zeroedWhere readsLinkedit).bytes)) := by
  induction part with
  | nil => rfl
  | cons s part ih =>
    rw [List.cons_subset] at hpart
    rw [List.map_cons, slicesLoop, subdata_range h hpart.1]
    simp only
    rw [unsignedSlice_bytes, ih hpart.2]
    rfl

theorem Command.zeroed_congr {named named' : Bytes → Bool} {c : Command}
    (h : c.IsSegment → named c.segname = named' c.segname) : c.zeroed named = c.zeroed named' := by
  by_cases hc : c.IsSegment
  · unfold zeroed
    simp only [h hc]
  · rw [zeroed_of_neg fun h ↦ hc h.1, zeroed_of_neg fun h ↦ hc h.1]

theorem zeroedWhere_plain {i : Image} (h : i.Plain) : i.zeroedWhere readsLinkedit = i.zeroed := by
  have hcommands : i.commands.map (Command.zeroed readsLinkedit) = i.commands.map (Command.zeroed (· == linkedit)) := by
    refine List.map_congr_left fun c hc ↦ Command.zeroed_congr fun hseg ↦ ?_
    rw [readsLinkedit, beq_eq_false_iff_ne.mpr (h c hc hseg), Bool.or_false]
  rw [Image.zeroed, Image.zeroedWhere, Image.zeroedWhere]
  simp only [hcommands]

theorem length_zeroedWhere (named : Bytes → Bool) (i : Image) :
    (i.zeroedWhere named).bytes.length = i.bytes.length := by
  rw [Image.length_bytes, Image.length_bytes]
  show headerSize i.wide + total (i.commands.map (Command.zeroed named)) + i.rest.length = _
  rw [total_zeroed]

def InRange (bytes : Bytes) (r : Nat × Nat) : Prop := r.1 < r.2 ∧ r.2 ≤ bytes.length

theorem disjoint_of_overlaps {a b : Nat × Nat} (ha : a.1 < a.2) (hb : b.1 < b.2) (h : ¬overlaps a b) :
    Disjoint a b := by
  unfold Disjoint
  by_contra hd
  refine h ?_
  rw [overlaps, decide_eq_true ha, decide_eq_true hb, decide_eq_true (show a.1 < b.2 by omega),
    decide_eq_true (show b.1 < a.2 by omega)]
  rfl

theorem fatRange_sound {count index : Nat} {ranges : List (Nat × Nat)} {range : Nat × Nat}
    (h : fatRange bytes wide count index ranges = some range) :
    InRange bytes range ∧ ∀ r ∈ ranges, InRange bytes r → Disjoint r range := by
  rw [fatRange] at h
  simp only at h
  split at h
  · cases h
  · split at h
    · rename_i offset size _ _
      split at h
      · rename_i hsize
        split at h
        · cases h
        · rename_i hany
          split at h
          · cases h
            have hrange : InRange bytes (offset, offset + size) := ⟨Nat.lt_add_of_pos_right hsize.1, hsize.2.2⟩
            refine ⟨hrange, fun r hr hin ↦ disjoint_of_overlaps hin.1 hrange.1 fun hover ↦ ?_⟩
            exact hany (List.any_eq_true.mpr ⟨r, hr, hover⟩)
          · cases h
      · cases h
    · cases h

theorem rangesLoop_sound {count left index : Nat} {ranges result : List (Nat × Nat)}
    (h : rangesLoop bytes wide count left index ranges = some result) (hin : ∀ r ∈ ranges, InRange bytes r)
    (hapart : ranges.Pairwise Disjoint) : (∀ r ∈ result, InRange bytes r) ∧ result.Pairwise Disjoint := by
  induction left generalizing index ranges with
  | zero =>
    cases h
    exact ⟨hin, hapart⟩
  | succ left ih =>
    rw [rangesLoop] at h
    split at h
    · cases h
    · rename_i range hrange
      obtain ⟨hrange, hnew⟩ := fatRange_sound hrange
      apply ih h
      · intro r hr
        obtain hr | rfl := (List.mem_append.mp hr).imp_right List.mem_singleton.mp
        · exact hin r hr
        · exact hrange
      · rw [List.pairwise_append]
        refine ⟨hapart, List.pairwise_singleton _ _, fun r hr t ht ↦ ?_⟩
        rw [List.mem_singleton.mp ht]
        exact hnew r hr (hin r hr)

theorem rangesOf_sound {ranges : List (Nat × Nat)} (h : rangesOf bytes = some ranges) :
    (∀ r ∈ ranges, r.1 ≤ r.2 ∧ r.2 ≤ bytes.length) ∧ ranges.Pairwise Disjoint := by
  rw [rangesOf] at h
  split at h
  · cases h
  · split at h
    · simp only at h
      split at h
      · cases h
      · split at h
        · obtain ⟨hin, hapart⟩ := rangesLoop_sound h (fun r hr ↦ nomatch hr) .nil
          exact ⟨fun r hr ↦ ⟨Nat.le_of_lt (hin r hr).1, (hin r hr).2⟩, hapart⟩
        · cases h
    · cases h
      refine ⟨fun r hr ↦ ?_, List.pairwise_singleton _ _⟩
      rw [List.mem_singleton.mp hr]
      exact ⟨Nat.zero_le _, Nat.le_refl _⟩

/-- What came of one range. -/
def Unsigned (bytes : Bytes) (r : Nat × Nat) (part : Bytes) : Prop :=
  ∃ i : Image, subdata bytes r.1 r.2 = some i.bytes ∧ part = (i.zeroedWhere readsLinkedit).bytes

theorem slicesLoop_sound {ranges : List (Nat × Nat)} (hin : ∀ r ∈ ranges, r.1 ≤ r.2 ∧ r.2 ≤ bytes.length) :
    slicesLoop bytes ranges = some none ∨
      ∃ slices, slicesLoop bytes ranges = some (some slices) ∧ List.Forall₂ (Unsigned bytes) ranges slices := by
  induction ranges with
  | nil => exact .inr ⟨[], rfl, .nil⟩
  | cons r ranges ih =>
    rw [List.forall_mem_cons] at hin
    have hsub : subdata bytes r.1 r.2 = some (slice bytes r.1 (r.2 - r.1)) := if_pos hin.1
    rw [slicesLoop, hsub]
    simp only
    obtain hnone | ⟨i, hi⟩ := unsignedSlice_sound (slice bytes r.1 (r.2 - r.1))
    · rw [hnone]
      exact .inl rfl
    · rw [← hi, unsignedSlice_bytes]
      simp only
      obtain hnone | ⟨slices, hslices, hall⟩ := ih hin.2
      · rw [hnone]
        exact .inl rfl
      · rw [hslices]
        exact .inr ⟨_, rfl, .cons ⟨i, by rw [hsub, hi], rfl⟩ hall⟩

/-- The images of the table, below 4 GiB and with no name that only looks like `__LINKEDIT`. -/
def Accepted (slots : List Slot) : Prop :=
  slots ≠ [] ∧ ∀ s ∈ slots, s.offset < 2 ^ 32 ∧ s.size < 2 ^ 32 ∧ s.image.Plain

def zeroedImages (slots : List Slot) : List Bytes := slots.map fun s ↦ s.image.zeroed.bytes

theorem unsignedSlices_packed (h : Packed wide slots bytes) (haccepted : Accepted slots) :
    unsignedSlices bytes = some (some (zeroedImages slots)) := by
  rw [unsignedSlices, rangesOf_packed h haccepted.1 fun s hs ↦ ⟨(haccepted.2 s hs).1, (haccepted.2 s hs).2.1⟩]
  simp only
  rw [slicesLoop_packed h (List.Subset.refl slots), zeroedImages]
  congr 2
  refine List.map_congr_left fun s hs ↦ ?_
  rw [zeroedWhere_plain (haccepted.2 s hs).2.2]

theorem mergeSort_eq_iff {a b : List String} :
    (a.mergeSort fun x y ↦ x ≤ y) = (b.mergeSort fun x y ↦ x ≤ y) ↔ a.Perm b := by
  constructor
  · intro h
    exact ((List.mergeSort_perm a _).symm.trans (List.Perm.of_eq h)).trans (List.mergeSort_perm b _)
  · intro h
    have hperm := ((List.mergeSort_perm a fun x y ↦ x ≤ y).trans h).trans (List.mergeSort_perm b fun x y ↦ x ≤ y).symm
    exact hperm.eq_of_pairwise' (List.pairwise_mergeSort' (· ≤ ·) a) (List.pairwise_mergeSort' (· ≤ ·) b)

theorem hashes_eq_iff {sha256 : Bytes → String} (hsha : Function.Injective sha256) {a b : Bytes} {s t : List Bytes}
    (ha : unsignedSlices a = some (some s)) (hb : unsignedSlices b = some (some t)) :
    hashes sha256 a = hashes sha256 b ↔ s.Perm t := by
  rw [hashes, ha, hashes, hb]
  simp only [Option.some.injEq]
  rw [mergeSort_eq_iff, List.map_perm_map_iff hsha]

theorem unsignedSlices_spec :
    (∀ wide slots bytes, Packed wide slots bytes → Accepted slots →
      unsignedSlices bytes = some (some (zeroedImages slots))) ∧
    (∀ sha256 : Bytes → String, Function.Injective sha256 →
      ∀ wide slots bytes wide' slots' bytes', Packed wide slots bytes → Accepted slots → Packed wide' slots' bytes' →
        Accepted slots' →
          (hashes sha256 bytes = hashes sha256 bytes' ↔ (zeroedImages slots).Perm (zeroedImages slots'))) ∧
    ∀ bytes, unsignedSlices bytes = some none ∨
      ∃ ranges slices, unsignedSlices bytes = some (some slices) ∧ (∀ r ∈ ranges, r.1 ≤ r.2 ∧ r.2 ≤ bytes.length) ∧
        ranges.Pairwise Disjoint ∧
        List.Forall₂ (fun r part ↦ ∃ i : Image, subdata bytes r.1 r.2 = some i.bytes ∧ part.length = i.bytes.length ∧
          (i.Plain → part = i.zeroed.bytes)) ranges slices := by
  refine ⟨fun _ _ _ h ↦ unsignedSlices_packed h, ?_, fun bytes ↦ ?_⟩
  · intro sha256 hsha _ _ _ _ _ _ h haccepted h' haccepted'
    exact hashes_eq_iff hsha (unsignedSlices_packed h haccepted) (unsignedSlices_packed h' haccepted')
  · rw [unsignedSlices]
    cases hranges : rangesOf bytes with
    | none => exact .inl rfl
    | some ranges =>
      obtain ⟨hin, hapart⟩ := rangesOf_sound hranges
      obtain hnone | ⟨slices, hslices, hall⟩ := slicesLoop_sound hin
      · exact .inl hnone
      · refine .inr ⟨ranges, slices, hslices, hin, hapart, hall.imp fun r part ⟨i, hi, hpart⟩ ↦ ⟨i, hi, ?_, ?_⟩⟩
        · rw [hpart, length_zeroedWhere]
        · intro hplain
          rw [hpart, zeroedWhere_plain hplain]

/-! ## What is refused or changed besides -/

/-- A header alone. -/
def bareImage : Image where
  wide := false
  flipped := false
  cpuType := 7
  cpuSubtype := 3
  fileType := [6, 0, 0, 0]
  length := 0
  flags := [0, 0, 0, 0]
  commands := []
  rest := []
  cpuType_lt := by decide
  cpuSubtype_lt := by decide
  fileType_length := rfl
  flags_length := rfl
  length_lt := by decide
  total_le := Nat.le_refl 0
  length_le := Nat.le_refl 0

theorem kelvinType_lt : 0x1 < 2 ^ 32 := by decide

/-- A segment whose name has the Kelvin sign, with a `vmsize` of one. -/
def kelvinSegment : Command where
  type := 0x1
  body := kelvinLinkedit ++ [0, 0, 0, 0] ++ [0, 0, 0, 0] ++ [1, 0, 0, 0] ++ List.replicate 24 0
  type_lt := kelvinType_lt
  size_lt := by decide +kernel
  segment _ := by decide +kernel

def kelvinImage : Image :=
  { bareImage with
    length := 56
    commands := [kelvinSegment]
    length_lt := by decide
    total_le := by decide
    length_le := by decide }

def farSlot : Slot := ⟨bareImage, 2 ^ 32, List.replicate 8 0⟩

def farFile : Bytes := table true [farSlot] ++ List.replicate (2 ^ 32 - 40) 0 ++ bareImage.bytes

def kelvinSlot : Slot := ⟨kelvinImage, 28, List.replicate 4 0⟩

def kelvinFile : Bytes := table false [kelvinSlot] ++ kelvinImage.bytes

theorem packed_nil : Packed false [] (table false []) where
  table := List.prefix_rfl
  count := by decide
  align := List.forall_mem_nil _
  fields := List.forall_mem_nil _
  behind := List.forall_mem_nil _
  placed := List.forall_mem_nil _
  apart := .nil

theorem packed_farFile : Packed true [farSlot] farFile where
  table := by
    rw [farFile, List.append_assoc]
    exact List.prefix_append _ _
  count := by decide
  align := List.forall_mem_singleton.mpr rfl
  fields := List.forall_mem_singleton.mpr (by decide)
  behind := List.forall_mem_singleton.mpr (by decide)
  placed := by
    have htable : (table true [farSlot]).length = 40 := by decide
    have hlen : (table true [farSlot] ++ List.replicate (2 ^ 32 - 40) (0 : UInt8)).length = farSlot.offset := by
      rw [List.length_append, List.length_replicate, htable]
      show 40 + (2 ^ 32 - 40) = 2 ^ 32
      norm_num
    rw [List.forall_mem_singleton, farFile, ← hlen, List.drop_left]
    exact List.prefix_rfl
  apart := List.pairwise_singleton _ _

theorem packed_kelvinFile : Packed false [kelvinSlot] kelvinFile where
  table := List.prefix_append _ _
  count := by decide
  align := List.forall_mem_singleton.mpr rfl
  fields := List.forall_mem_singleton.mpr (by decide)
  behind := List.forall_mem_singleton.mpr (by decide)
  placed := List.forall_mem_singleton.mpr (by decide)
  apart := List.pairwise_singleton _ _

/-- A file of no image, an image from 4 GiB on and a name that only looks like `__LINKEDIT`. -/
theorem packed_not_returned :
    (Packed false [] (table false []) ∧ unsignedSlices (table false []) ≠ some (some (zeroedImages []))) ∧
    (Packed true [farSlot] farFile ∧ unsignedSlices farFile ≠ some (some (zeroedImages [farSlot]))) ∧
    Packed false [kelvinSlot] kelvinFile ∧ unsignedSlices kelvinFile ≠ some (some (zeroedImages [kelvinSlot])) := by
  refine ⟨⟨packed_nil, by decide⟩, ⟨packed_farFile, ?_⟩, packed_kelvinFile, by decide⟩
  have hfar : 2 ^ 32 ≤ farSlot.offset := by rw [farSlot]
  rw [unsignedSlices, rangesOf_far packed_farFile hfar]
  exact fun h ↦ nomatch h

/-- A big 64-bit image with its `__LINKEDIT`, of a `vmsize` below 256. -/
def linkeditSegment (vmsize : UInt8) : Command where
  type := 0x19
  body := linkedit ++ List.replicate 6 0 ++ List.replicate 8 1 ++ (vmsize :: List.replicate 7 0) ++ List.replicate 32 2
  type_lt := by decide
  size_lt := by
    simp only [List.length_append, List.length_replicate, List.length_cons, show linkedit.length = 10 from rfl]
    norm_num
  segment := fun _ ↦ by
    simp only [List.length_append, List.length_replicate, List.length_cons, show linkedit.length = 10 from rfl]
    decide

def linkeditImage (vmsize : UInt8) : Image where
  wide := true
  flipped := true
  cpuType := 0x100000C
  cpuSubtype := 0
  fileType := [0, 0, 0, 6]
  length := 72
  flags := List.replicate 8 0
  commands := [linkeditSegment vmsize]
  rest := [5, 6, 7]
  cpuType_lt := by decide
  cpuSubtype_lt := by decide
  fileType_length := rfl
  flags_length := rfl
  length_lt := by decide
  total_le := Nat.le_refl 72
  length_le := Nat.le_add_right 72 3

def firstSlots : List Slot := [⟨bareImage, 48, List.replicate 4 0⟩, ⟨linkeditImage 3, 80, List.replicate 4 0⟩]

/-- The two images with four bytes between them. -/
def firstFile : Bytes := table false firstSlots ++ bareImage.bytes ++ [9, 9, 9, 9] ++ (linkeditImage 3).bytes

def secondSlots : List Slot := [⟨linkeditImage 4, 72, List.replicate 8 0⟩, ⟨bareImage, 179, List.replicate 8 0⟩]

/-- The same two the other way round behind a wide table, with another `vmsize`. -/
def secondFile : Bytes := table true secondSlots ++ (linkeditImage 4).bytes ++ bareImage.bytes

theorem packed_first : Packed false firstSlots firstFile where
  table := by
    rw [firstFile, List.append_assoc, List.append_assoc]
    exact List.prefix_append _ _
  count := by decide
  align := by decide
  fields := by decide
  behind := by decide
  placed := by decide
  apart := List.pairwise_pair.mpr (.inl (by decide))

theorem packed_second : Packed true secondSlots secondFile where
  table := by
    rw [secondFile, List.append_assoc]
    exact List.prefix_append _ _
  count := by decide
  align := by decide
  fields := by decide
  behind := by decide
  placed := by decide
  apart := List.pairwise_pair.mpr (.inl (by decide))

def someDigest (b : Bytes) : String := String.ofList (b.map fun c ↦ Char.ofNat c.toNat)

theorem someDigest_injective : Function.Injective someDigest := by
  have hback (c : UInt8) : UInt8.ofNat (Char.ofNat c.toNat).toNat = c := by
    have hvalid : c.toNat.isValidChar := .inl (by have := c.toNat_lt; omega)
    rw [Char.toNat_ofNat, if_pos hvalid, UInt8.ofNat_toNat]
  have hchar : Function.Injective fun c : UInt8 ↦ Char.ofNat c.toNat :=
    Function.LeftInverse.injective (g := fun c : Char ↦ UInt8.ofNat c.toNat) hback
  intro a b h
  exact List.map_injective_iff.mpr hchar (String.ofList_injective h)

/-- Both files hold the same images up to a `vmsize`, and have the same digests. -/
theorem unsignedSlices_spec_two :
    unsignedSlices firstFile = some (some [bareImage.bytes, (linkeditImage 0).bytes]) ∧
      hashes someDigest firstFile = hashes someDigest secondFile := by
  obtain ⟨hslices, hhashes, -⟩ := unsignedSlices_spec
  have hfirst : Accepted firstSlots := ⟨List.cons_ne_nil _ _, by unfold Image.Plain; decide⟩
  have hsecond : Accepted secondSlots := ⟨List.cons_ne_nil _ _, by unfold Image.Plain; decide⟩
  have hzeroed : zeroedImages firstSlots = [bareImage.bytes, (linkeditImage 0).bytes] := by decide
  have hzeroed' : zeroedImages secondSlots = [(linkeditImage 0).bytes, bareImage.bytes] := by decide
  apply And.intro
  · rw [hslices false firstSlots firstFile packed_first hfirst, hzeroed]
  · apply (hhashes someDigest someDigest_injective _ _ _ _ _ _ packed_first hfirst packed_second hsecond).mpr
    rw [hzeroed, hzeroed']
    exact .swap _ _ _

end NotProton.MachOBuild
