import NotProton.NtdllPatcher.Reads

/-! # Append — the image with a section added for the detour -/

open NotProton.Library

namespace NotProton.NtdllPatcher

/-- The header bytes `appendSection` writes: the slot, `NumberOfSections` and `SizeOfImage`. -/
def headerEdits (patch : NtdllPatch) (image : Bytes) (rawOffset : Nat) : List (Nat × Bytes) :=
  [(tableEnd image, sectionEntry patch.caveRVA.toNat rawOffset),
    (peOffset image + 6, leBytes 2 (sectionCount image + 1)),
    (peOffset image + 24 + 56, leBytes 4 (sizeOfImage image + sectionSize))]

/-- The bytes these go over. -/
def Edited (image : Bytes) (i : Nat) : Prop :=
  (tableEnd image ≤ i ∧ i < tableEnd image + 40) ∨
    (peOffset image + 6 ≤ i ∧ i < peOffset image + 8) ∨
      (peOffset image + 80 ≤ i ∧ i < peOffset image + 84)

/-- No edit goes over `e_lfanew`, and `SizeOfImage` over nothing a section header says, the new
one's included. -/
structure EditsApart (image : Bytes) : Prop where
  lfanew : ∀ i, 0x3c ≤ i → i < 0x40 → ¬Edited image i
  entries : ∀ i, EntryReads (tableOffset image) (sectionCount image + 1) i →
    ¬(peOffset image + 80 ≤ i ∧ i < peOffset image + 84)

/-- `base` is `image` with the detour's section at `rawOffset`. -/
structure Appended (patch : NtdllPatch) (image base : Bytes) (rawOffset : Nat) : Prop where
  caveRVA : (sizeOfImage image : Int) = patch.caveRVA
  caveSize : patch.caveSize = sectionSize
  dos_le : 0x40 ≤ image.length
  optional_le : peOffset image + 84 ≤ image.length
  slot_le : tableEnd image + 40 ≤ image.length
  slot : ∀ b ∈ slice image (tableEnd image) 40, b = 0
  le_rawOffset : image.length ≤ rawOffset
  rawOffset_lt : rawOffset < 2 ^ 32
  count_lt : sectionCount image + 1 < 2 ^ 16
  size_lt : sizeOfImage image + sectionSize < 2 ^ 32
  eq : base = spliceAll image (headerEdits patch image rawOffset) ++
    List.replicate (rawOffset + sectionSize - image.length) 0

theorem sectionEntry_length (caveRVA rawOffset : Nat) : (sectionEntry caveRVA rawOffset).length = 40 :=
  rfl

theorem headerEdits_bounds {patch : NtdllPatch} {image : Bytes}
    (hoptional : peOffset image + 84 ≤ image.length) (hslot : tableEnd image + 40 ≤ image.length)
    (rawOffset : Nat) : ∀ w ∈ headerEdits patch image rawOffset, w.1 + w.2.length ≤ image.length := by
  rintro w (_ | ⟨_, _ | ⟨_, _ | ⟨_, ⟨⟩⟩⟩⟩)
  · rw [sectionEntry_length]
    exact hslot
  · rw [leBytes_length]
    omega
  · rw [leBytes_length]
    omega

theorem appendSection_ok {patch : NtdllPatch} {image base : Bytes}
    (h : appendSection patch image = .ok base) : ∃ rawOffset, Appended patch image base rawOffset := by
  obtain ⟨pe, hpeo, h⟩ := bind_ok h
  obtain ⟨count, hcount, h⟩ := bind_ok h
  obtain ⟨size, hsize, h⟩ := bind_ok h
  obtain ⟨alignment, -, h⟩ := bind_ok h
  obtain ⟨imageSize, himage, h⟩ := bind_ok h
  obtain ⟨headersSize, -, h⟩ := bind_ok h
  obtain ⟨hdos_le, hpeo⟩ := readField_ok hpeo
  have hcount := (readField_ok hcount).2
  have hsize := (readField_ok hsize).2
  obtain ⟨hoptional_le, himage⟩ := readField_ok himage
  subst hpeo hcount hsize himage
  obtain ⟨_, hpinned, h⟩ := bind_ok h
  obtain ⟨_, hrange, h⟩ := bind_ok h
  obtain ⟨_, hslot, h⟩ := bind_ok h
  obtain ⟨_, hpower, h⟩ := bind_ok h
  obtain ⟨rawOffset, hraw, h⟩ := bind_ok h
  obtain ⟨newCount, hnewCount, h⟩ := bind_ok h
  obtain ⟨newSize, hnewSize, h⟩ := bind_ok h
  -- What the checks on the way have settled.
  obtain ⟨hcaveSize, hcaveRVA⟩ := guard_ok hpinned
  have hslot_le : tableEnd image + 40 ≤ image.length := by
    have hend : ((tableEnd image : Nat) : Int) ≤ image.length - 40 := (requireRange_ok hrange).2.2
    omega
  obtain ⟨-, hslot⟩ := guard_ok hslot
  obtain ⟨hpos, -⟩ := guard_ok hpower
  obtain ⟨rfl, hraw_lt⟩ := exactly_ok hraw
  obtain ⟨rfl, hcount_lt⟩ := exactly_ok hnewCount
  obtain ⟨rfl, hsize_lt⟩ := exactly_ok hnewSize
  cases h
  have hoptional : peOffset image + 84 ≤ image.length := by
    have hend : field 4 image 60 + 24 + 56 + 4 ≤ image.length := hoptional_le
    rw [peOffset]
    omega
  refine ⟨_, hcaveRVA, hcaveSize, hdos_le, hoptional, hslot_le, hslot, ?_, hraw_lt, hcount_lt, hsize_lt, ?_⟩
  · have := le_ldiff_add (image.length + alignment - 1) (alignment - 1)
    omega
  · have hlength : (spliceAll image (headerEdits patch image
        (Nat.ldiff (image.length + alignment - 1) (alignment - 1)))).length = image.length :=
      spliceAll_length (headerEdits_bounds hoptional hslot_le _)
    show spliceAll image (headerEdits patch image _) ++ List.replicate (_ - List.length
      (spliceAll image (headerEdits patch image _))) 0 = _
    rw [hlength]

/-! ## The headers afterwards -/

theorem sectionsFrom_concat (bytes : Bytes) (count entry : Nat) :
    sectionsFrom bytes (count + 1) entry =
      sectionsFrom bytes count entry ++ [sectionAt bytes (entry + count * 40)] := by
  induction count generalizing entry with
  | zero => rfl
  | succ count ih =>
    rw [sectionsFrom, ih, sectionsFrom, List.cons_append]
    congr 4
    omega

/-- The section a patch adds. -/
def newSection (patch : NtdllPatch) (rawOffset : Nat) : Section where
  virtualSize := sectionSize
  virtualAddress := patch.caveRVA.toNat
  rawSize := sectionSize
  rawOffset := rawOffset

section
variable {patch : NtdllPatch} {image base : Bytes} {rawOffset : Nat}
  (ha : Appended patch image base rawOffset)
include ha

theorem Appended.bounds :
    ∀ w ∈ headerEdits patch image rawOffset, w.1 + w.2.length ≤ image.length :=
  headerEdits_bounds ha.optional_le ha.slot_le rawOffset

theorem Appended.edited_length :
    (spliceAll image (headerEdits patch image rawOffset)).length = image.length :=
  spliceAll_length ha.bounds

theorem Appended.length_eq : base.length = rawOffset + sectionSize := by
  have := ha.le_rawOffset
  rw [ha.eq, List.length_append, ha.edited_length, List.length_replicate]
  omega

theorem Appended.added {i : Nat} (hlo : image.length ≤ i) (hhi : i < base.length) :
    base[i]? = some 0 := by
  have hlength := ha.length_eq
  rw [ha.eq, List.getElem?_append_right (by rw [ha.edited_length]; exact hlo), ha.edited_length,
    List.getElem?_replicate, if_pos (by omega)]

/-- Only the slot, the section count and the image size differ. -/
theorem Appended.unchanged {i : Nat} (hi : i < image.length) (hedit : ¬Edited image i) :
    base[i]? = image[i]? := by
  rw [ha.eq, List.getElem?_append_left (by rw [ha.edited_length]; exact hi)]
  apply spliceAll_getElem?_of_notMem ha.bounds
  rintro w (_ | ⟨_, _ | ⟨_, _ | ⟨_, ⟨⟩⟩⟩⟩) hcov
  · exact hedit (.inl hcov)
  · exact hedit (.inr (.inl hcov))
  · exact hedit (.inr (.inr hcov))

/-- A part of an edit that no later one goes over is read back. -/
theorem Appended.slice_edit (before after : List (Nat × Bytes)) {w : Nat × Bytes}
    (heq : headerEdits patch image rawOffset = before ++ w :: after) {k n : Nat}
    (hk : k + n ≤ w.2.length) (hd : ∀ v ∈ after, ∀ i, w.1 + k ≤ i → i < w.1 + k + n → ¬Covers v i) :
    slice base (w.1 + k) n = slice w.2 k n := by
  have hbounds := ha.bounds
  have hmem : w ∈ headerEdits patch image rawOffset := by
    rw [heq]
    exact List.mem_append_right _ List.mem_cons_self
  have hend := hbounds w hmem
  rw [ha.eq, slice_append_left (by rw [ha.edited_length]; omega)]
  rw [heq] at hbounds ⊢
  exact slice_spliceAll_last hbounds hk hd

variable (hedits : EditsApart image)
include hedits

theorem Appended.peOffset_eq : peOffset base = peOffset image := by
  have := ha.dos_le
  exact field_congr fun i hlo hhi ↦ ha.unchanged (by omega) (hedits.lfanew i hlo hhi)

theorem Appended.sectionCount_eq : sectionCount base = sectionCount image + 1 := by
  have hcount : slice base (peOffset image + 6 + 0) 2 = slice (leBytes 2 (sectionCount image + 1)) 0 2 := by
    refine ha.slice_edit [_] [_] (w := (_, _)) rfl (by rw [leBytes_length]) ?_
    rintro v (_ | ⟨_, ⟨⟩⟩) i hlo hhi ⟨hsize, -⟩
    have : peOffset image + 24 + 56 ≤ i := hsize
    have : i < peOffset image + 6 + 0 + 2 := hhi
    omega
  rw [Nat.add_zero] at hcount
  rw [sectionCount, field, ha.peOffset_eq hedits, hcount]
  show leNat (leBytes 2 _) = _
  exact leNat_leBytes ha.count_lt

theorem Appended.sizeOfImage_eq : sizeOfImage base = sizeOfImage image + sectionSize := by
  have hsize : slice base (peOffset image + 24 + 56 + 0) 4 =
      slice (leBytes 4 (sizeOfImage image + sectionSize)) 0 4 :=
    ha.slice_edit [_, _] [] (w := (_, _)) rfl (by rw [leBytes_length])
      fun v hv ↦ absurd hv List.not_mem_nil
  rw [Nat.add_zero] at hsize
  rw [sizeOfImage, field, ha.peOffset_eq hedits, hsize]
  show leNat (leBytes 4 _) = _
  exact leNat_leBytes ha.size_lt

theorem Appended.tableOffset_eq : tableOffset base = tableOffset image := by
  have hle := ha.optional_le
  have hsize : optionalHeaderSize base = optionalHeaderSize image := by
    rw [optionalHeaderSize, ha.peOffset_eq hedits]
    refine field_congr fun i hlo hhi ↦ ha.unchanged (by omega) ?_
    rintro (⟨hslot, -⟩ | hcount | hsize)
    · rw [tableEnd, tableOffset] at hslot
      omega
    · omega
    · omega
  rw [tableOffset, tableOffset, ha.peOffset_eq hedits, hsize]

/-- The header written into the slot reads as the section it stands for. -/
theorem Appended.newSection_eq : sectionAt base (tableEnd image) = newSection patch rawOffset := by
  have hfield : ∀ k, 8 ≤ k → k + 4 ≤ 24 → field 4 base (tableEnd image + k) =
      leNat (slice (sectionEntry patch.caveRVA.toNat rawOffset) k 4) := by
    intro k hlo hhi
    rw [field, ha.slice_edit [] [_, _] (w := (_, sectionEntry _ _)) rfl
      (by rw [sectionEntry_length]; omega)]
    intro v hv i hvlo hvhi hcov
    have hslot : tableEnd image + k ≤ i := hvlo
    have hend : i < tableEnd image + k + 4 := hvhi
    rcases List.mem_cons.mp hv with rfl | hv
    · have hcount : i < peOffset image + 6 + 2 := hcov.2
      rw [tableEnd, tableOffset] at hslot
      omega
    · rw [List.mem_singleton.mp hv] at hcov
      have hentry : EntryReads (tableOffset image) (sectionCount image + 1) i := by
        rw [tableEnd] at hslot hend
        exact ⟨sectionCount image, by omega, by omega, by omega⟩
      exact hedits.entries i hentry hcov
  have hcave : patch.caveRVA.toNat = sizeOfImage image := by
    rw [← ha.caveRVA]
    exact Int.toNat_natCast _
  have hcave_lt : patch.caveRVA.toNat < 256 ^ 4 := by
    have := ha.size_lt
    omega
  rw [sectionAt, hfield 8 (by omega) (by omega), hfield 12 (by omega) (by omega),
    hfield 16 (by omega) (by omega), hfield 20 (by omega) (by omega)]
  show Section.mk (leNat (leBytes 4 sectionSize)) (leNat (leBytes 4 patch.caveRVA.toNat))
    (leNat (leBytes 4 sectionSize)) (leNat (leBytes 4 rawOffset)) = _
  have hraw : leNat (leBytes 4 rawOffset) = rawOffset := leNat_leBytes ha.rawOffset_lt
  rw [leNat_leBytes hcave_lt, hraw, leNat_leBytes (by decide)]
  rfl

theorem Appended.sectionTable_eq :
    sectionTable base = sectionTable image ++ [newSection patch rawOffset] := by
  have hsame : sectionsFrom base (sectionCount image) (tableOffset image) = sectionTable image := by
    have hle := ha.slot_le
    refine sectionsFrom_congr ?_
    rintro i ⟨n, hn, hlo, hhi⟩
    have hend : tableOffset image + n * 40 + 40 ≤ tableEnd image := by
      rw [tableEnd]
      omega
    refine ha.unchanged (by omega) ?_
    rintro (hslot | hcount | hsize)
    · omega
    · rw [tableOffset] at hlo
      omega
    · exact hedits.entries i ⟨n, by omega, hlo, hhi⟩ hsize
  rw [sectionTable, ha.sectionCount_eq hedits, ha.tableOffset_eq hedits, sectionsFrom_concat, hsame]
  exact congrArg (fun s ↦ _ ++ [s]) (ha.newSection_eq hedits)

/-- What the look-up reads now is what it read, and the new header. -/
theorem Appended.lookupReads (i : Nat) :
    LookupReads base (sectionCount base) i ↔ LookupReads image (sectionCount image + 1) i := by
  rw [LookupReads, LookupReads, ha.peOffset_eq hedits, ha.tableOffset_eq hedits, ha.sectionCount_eq hedits]

omit hedits

/-- The new section takes the cave's addresses. -/
theorem Appended.newSection_holds (rva : Int) : (newSection patch rawOffset).Holds rva ↔
    patch.caveRVA ≤ rva ∧ rva < patch.caveRVA + patch.caveSize := by
  have hva : ((newSection patch rawOffset).virtualAddress : Int) = patch.caveRVA := by
    show ((patch.caveRVA.toNat : Nat) : Int) = _
    rw [← ha.caveRVA]
    rfl
  have hspan : ((newSection patch rawOffset).span : Int) = patch.caveSize := by
    rw [ha.caveSize, Section.span]
    exact congrArg Nat.cast (Nat.max_self _)
  rw [Section.Holds, hva, hspan]

omit ha in
theorem newSection_backs {rva : Int} (h : (newSection patch rawOffset).Holds rva) :
    (newSection patch rawOffset).Backs rva := h

include hedits

/-- What is added keeps the image one, where its addresses are free. -/
theorem Appended.peImage (hpe : PeImage image)
    (hfree : ∀ s ∈ sectionTable image, ∀ rva, s.Holds rva → ¬(newSection patch rawOffset).Holds rva) :
    PeImage base := by
  have htable := ha.sectionTable_eq hedits
  have hlength := ha.length_eq
  have hle := ha.le_rawOffset
  refine ⟨?_, ?_, ?_⟩
  · rw [htable]
    intro s hs i hi
    rcases List.mem_append.mp hs with hs | hs
    · have := hpe.inFile s hs i hi
      omega
    · rw [List.mem_singleton.mp hs] at hi
      rw [hlength]
      exact hi.2
  · rw [htable, List.pairwise_append]
    refine ⟨hpe.virtual_disjoint, List.pairwise_singleton _ _, fun s hs t ht ↦ ?_⟩
    rw [List.mem_singleton.mp ht]
    exact hfree s hs
  · rw [htable, List.pairwise_append]
    refine ⟨hpe.raw_disjoint, List.pairwise_singleton _ _, fun s hs t ht i hsi hti ↦ ?_⟩
    -- The old raw data ends with the old file, where the new starts.
    rw [List.mem_singleton.mp ht] at hti
    have := hpe.inFile s hs i hsi
    exact absurd (hle.trans hti.1) (by omega)

end

end NotProton.NtdllPatcher
