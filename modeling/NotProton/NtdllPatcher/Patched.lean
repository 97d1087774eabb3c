import NotProton.NtdllPatcher.Call

/-! # Patched — what a patched image holds, and that it is not patched again -/

open NotProton.Library

namespace NotProton.NtdllPatcher

/-! ## The patch as a whole -/

/-- The cave lies in one section's addresses: in the added one alone where there is one. -/
def CaveInSection (patch : NtdllPatch) (image : Bytes) : Prop :=
  match patch.placement with
  | .padding => ∃ s ∈ sectionTable image, ∀ rva, SiteHolds (caveSite patch) rva → s.Holds rva
  | .section_ => ∀ s ∈ sectionTable image, ∀ rva, SiteHolds (caveSite patch) rva → ¬s.Holds rva

/-- The header bytes an added section changes. -/
def HeaderEdit (patch : NtdllPatch) (image : Bytes) (i : Nat) : Prop :=
  patch.placement = .section_ ∧ Edited image i

/-- What a patched image is. -/
structure Patched (patch : NtdllPatch) (image payload out : Bytes) : Prop where
  detour : ∀ k < payload.length, mapped out (patch.payloadRVA + k) = payload[k]?
  hooks : ∀ hook ∈ patch.hooks, ∃ code : Bytes, code.length = hook.stolen.length ∧
    (∀ k < code.length, mapped out (hook.rva + k) = code[k]?) ∧
      branchTarget patch.machine hook.rva code = some patch.payloadRVA
  unchanged : ∀ i < image.length, out[i]? ≠ image[i]? →
    BehindSite out (writeSite patch.payloadRVA payload) i ∨
      (∃ hook ∈ patch.hooks, BehindSite out (hookSite hook) i) ∨ HeaderEdit patch image i
  slot : patch.placement = .section_ →
    ∀ i, tableEnd image ≤ i → i < tableEnd image + 40 → image[i]? = some 0
  length_le : image.length ≤ out.length
  added : ∀ i, image.length ≤ i → i < out.length → patch.placement = .section_ ∧
    (BehindSite out (writeSite patch.payloadRVA payload) i ∨ out[i]? = some 0)
  overwritten : ∀ i, BehindSite out (writeSite patch.payloadRVA payload) i →
    (image[i]?).getD 0 = patch.cavePad
  again : Throws (apply patch out payload)

/-! ### When an image gets patched -/

/-- The file bytes the payload and the branches go over; those of an added section are past the end. -/
def Written (patch : NtdllPatch) (image payload : Bytes) (i : Nat) : Prop :=
  (patch.placement = .padding ∧ WrittenFor image (writeSite patch.payloadRVA payload) i) ∨
    ∃ hook ∈ patch.hooks, WrittenFor image (hookSite hook) i

/-- The header bytes that get read once the image is patched. -/
def Relied (patch : NtdllPatch) (image : Bytes) (i : Nat) : Prop :=
  match patch.placement with
  | .padding => LookupReads image (sectionCount image) i
  | .section_ => LookupReads image (sectionCount image + 1) i ∨
      (peOffset image + 80 ≤ i ∧ i < peOffset image + 84)

/-- Nothing is written over the header bytes that get read. -/
structure HeadersKept (patch : NtdllPatch) (image payload : Bytes) : Prop where
  edits : patch.placement = .section_ → EditsApart image
  written : ∀ i, Relied patch image i → ¬Written patch image payload i

/-- The bytes a patch writes all have a place in the file, and do not all stand there already. -/
structure Writable (patch : NtdllPatch) (image payload : Bytes) : Prop where
  detour : patch.placement = .padding → SiteBacked image (writeSite patch.payloadRVA payload)
  hooks : ∀ hook ∈ patch.hooks, SiteBacked image (hookSite hook)
  fresh : patch.placement = .padding → (∃ b ∈ payload, b ≠ patch.cavePad) ∨
    ∃ hook ∈ patch.hooks, branch patch hook.rva hook.stolen.length ≠ .ok hook.stolen

/-- What of it a patched image shows: every byte but a zero has a place in the file. -/
structure Needed (patch : NtdllPatch) (image payload : Bytes) : Prop where
  detour : patch.placement = .padding → ∀ k < payload.length, payload[k]? ≠ some 0 →
    ∃ s ∈ sectionTable image, s.Backs (patch.payloadRVA + k)
  hooks : ∀ hook ∈ patch.hooks, ∀ code, branch patch hook.rva hook.stolen.length = .ok code →
    ∀ k < code.length, code[k]? ≠ some 0 → ∃ s ∈ sectionTable image, s.Backs (hook.rva + k)
  fresh : patch.placement = .padding → (∃ b ∈ payload, b ≠ patch.cavePad) ∨
    ∃ hook ∈ patch.hooks, branch patch hook.rva hook.stolen.length ≠ .ok hook.stolen

theorem place_padding {patch : NtdllPatch} (hplacement : patch.placement = .padding) (bytes : Bytes) :
    place patch bytes = .ok bytes := by
  rw [place, hplacement]
  rfl

theorem place_section {patch : NtdllPatch} (hplacement : patch.placement = .section_) (bytes : Bytes) :
    place patch bytes = appendSection patch bytes := by
  rw [place, hplacement]

theorem backs_of_mapped_code {bytes code : Bytes} {rva : Int} {k : Nat} (hk : k < code.length)
    (hmapped : mapped bytes (rva + k) = code[k]?) (hzero : code[k]? ≠ some 0) :
    ∃ s ∈ sectionTable bytes, s.Backs (rva + k) := by
  rw [List.getElem?_eq_getElem hk] at hmapped hzero
  exact backs_of_mapped hmapped fun h ↦ hzero (congrArg some h)

section
variable {patch : NtdllPatch} {image payload out : Bytes} (hpe : PeImage image) (hne : payload ≠ [])
  (hcave : CaveInSection patch image) (hsites : (sites patch).Pairwise (Apart SiteHolds))
  (hkept : HeadersKept patch image payload) (hok : apply patch image payload = .ok out)

/-- A branch the image shows is the one that was written. -/
theorem Patched.hook_backs (hp : Patched patch image payload out) {hook : NtdllHook}
    (hmem : hook ∈ patch.hooks) {code : Bytes}
    (hcode : branch patch hook.rva hook.stolen.length = .ok code) {k : Nat} (hk : k < code.length)
    (hzero : code[k]? ≠ some 0) : ∃ s ∈ sectionTable out, s.Backs (hook.rva + k) := by
  obtain ⟨code', hlength', hmapped, htarget'⟩ := hp.hooks hook hmem
  obtain ⟨hlength, htarget⟩ := branch_ok hcode
  obtain rfl : code = code' := branchTarget_inj htarget htarget' (hlength.trans hlength'.symm)
  exact backs_of_mapped_code hk (hmapped k hk) hzero

/-! ### In the padding of a section -/

section
variable (hplacement : patch.placement = .padding)
include hpe hne hsites hkept hok hplacement

theorem call_padding : ∃ payloadOffset branches, Call patch image payload out payloadOffset branches := by
  obtain ⟨base, payloadOffset, branches, hplace, hcheck, hbranches, hwrite⟩ := apply_ok hok
  rw [place_padding hplacement] at hplace
  cases hplace
  refine ⟨payloadOffset, branches, call_of_ok hpe hne hsites hcheck hbranches hwrite fun i hi ↦ ?_⟩
  have hrelied : Relied patch image i := by
    rw [Relied, hplacement]
    exact hi
  have hnot := hkept.written i hrelied
  exact ⟨fun h ↦ hnot (.inl ⟨hplacement, h⟩), fun hook hmem h ↦ hnot (.inr ⟨hook, hmem, h⟩)⟩

include hcave

theorem patched_padding (hwritable : Writable patch image payload) : Patched patch image payload out := by
  obtain ⟨payloadOffset, branches, hc⟩ := call_padding hpe hne hsites hkept hok hplacement
  rw [CaveInSection, hplacement] at hcave
  have hpayload := hwritable.detour hplacement
  have hhooks := hwritable.hooks
  refine ⟨hc.mapped_payload hhooks hpayload, fun hook hmem ↦ hc.mapped_hook hhooks hpayload hmem, ?_, ?_,
    hc.wrote.length_eq.ge, ?_, ?_, ?_⟩
  · intro i _ hi
    rcases hc.frame hhooks hpayload hi with h | h
    · exact .inl h
    · exact .inr (.inl h)
  · rw [hplacement]
    rintro ⟨⟩
  · intro i hlo hhi
    rw [hc.wrote.length_eq] at hhi
    omega
  · intro i hi
    rw [hc.overwrites hcave hi]
    rfl
  · refine apply_throws (by rw [place_padding hplacement]; exact .pure _) fun bytes hbytes ↦ ?_
    rw [place_padding hplacement] at hbytes
    cases hbytes
    rcases hwritable.fresh hplacement with hfresh | ⟨hook, hmem, hfresh⟩
    · exact .inl (hc.check_again hcave hhooks hpayload hfresh _)
    · exact .inr (hc.hooks_again hhooks hpayload hmem hfresh)

theorem needed_padding (hp : Patched patch image payload out) : Needed patch image payload := by
  obtain ⟨payloadOffset, branches, hc⟩ := call_padding hpe hne hsites hkept hok hplacement
  rw [CaveInSection, hplacement] at hcave
  have htable := hc.wrote.table_eq
  refine ⟨fun _ k hk hzero ↦ ?_, fun hook hmem code hcode k hk hzero ↦ ?_, fun _ ↦ ?_⟩
  · rw [htable]
    exact backs_of_mapped_code hk (hp.detour k hk) hzero
  · rw [htable]
    exact hp.hook_backs hmem hcode hk hzero
  · by_contra hstale
    simp only [not_or, not_exists, not_and, not_not] at hstale
    have hsame := hc.unchanged_of_stale hcave hstale.1 hstale.2
    -- The same call on the same image, which went through.
    obtain ⟨detail, hthrows⟩ := hp.again
    rw [hsame, hok] at hthrows
    cases hthrows

end

/-! ### In a section of its own -/

section
variable {base : Bytes} {rawOffset : Nat} (ha : Appended patch image base rawOffset)
  (hedits : EditsApart image)
include ha

theorem Appended.holds_cave (rva : Int) :
    (newSection patch rawOffset).Holds rva ↔ SiteHolds (caveSite patch) rva := ha.newSection_holds rva

include hedits

theorem Appended.mem_new : newSection patch rawOffset ∈ sectionTable base := by
  rw [ha.sectionTable_eq hedits]
  exact List.mem_append_right _ (List.mem_singleton.mpr rfl)

theorem Appended.mem_old {s : Section} (hs : s ∈ sectionTable image) : s ∈ sectionTable base := by
  rw [ha.sectionTable_eq hedits]
  exact List.mem_append_left _ hs

/-- What has an address of a hook site is an old section. -/
theorem Appended.mem_of_hook (hsites : (sites patch).Pairwise (Apart SiteHolds)) {hook : NtdllHook}
    (hmem : hook ∈ patch.hooks) {rva : Int} (hrva : SiteHolds (hookSite hook) rva) {s : Section}
    (hs : s ∈ sectionTable base) (hholds : s.Holds rva) : s ∈ sectionTable image := by
  rw [ha.sectionTable_eq hedits] at hs
  rcases List.mem_append.mp hs with hs | hs
  · exact hs
  · rw [List.mem_singleton.mp hs] at hholds
    have hcaveApart := (List.pairwise_cons.mp hsites).1 _ (List.mem_map_of_mem hmem)
    exact absurd hrva (hcaveApart rva ((ha.holds_cave rva).mp hholds))

/-- So the branches go where they go in the old image. -/
theorem Appended.writtenFor_hook (hsites : (sites patch).Pairwise (Apart SiteHolds)) {hook : NtdllHook}
    (hmem : hook ∈ patch.hooks) {i : Nat} (h : WrittenFor base (hookSite hook) i) :
    WrittenFor image (hookSite hook) i := by
  obtain ⟨s, hs, hholds, hlo, hhi⟩ := h
  have hfrom : s.offset hook.rva ≤ i := hlo
  have hto : (i : Int) < s.offset hook.rva + (hook.stolen.length : Int) := hhi
  have hstart : SiteHolds (hookSite hook) hook.rva := by
    constructor
    · exact le_refl hook.rva
    · show hook.rva < hook.rva + (hook.stolen.length : Int)
      omega
  exact ⟨s, ha.mem_of_hook hedits hsites hmem hstart hs hholds, hholds, hlo, hhi⟩

theorem Appended.peImage_of_cave (hpe : PeImage image) (hplacement : patch.placement = .section_)
    (hcave : CaveInSection patch image) : PeImage base := by
  rw [CaveInSection, hplacement] at hcave
  exact ha.peImage hedits hpe fun s hs rva hholds hnew ↦
    hcave s hs rva ((ha.holds_cave rva).mp hnew) hholds

omit hedits in
/-- The payload goes into the added section. -/
theorem Appended.backs_payload {payloadOffset : Nat} {branches : List (Nat × Bytes)}
    (hc : Call patch base payload out payloadOffset branches) {rva : Int}
    (h : SiteHolds (writeSite patch.payloadRVA payload) rva) : (newSection patch rawOffset).Backs rva :=
  newSection_backs ((ha.holds_cave rva).mpr (hc.in_cave h))

theorem Appended.payload_backed (hne : payload ≠ []) {payloadOffset : Nat} {branches : List (Nat × Bytes)}
    (hc : Call patch base payload out payloadOffset branches) : SiteBacked base (writeSite patch.payloadRVA payload) := by
  refine ⟨(newSection patch rawOffset).offset patch.payloadRVA, fun k hk ↦ ?_⟩
  have hback := ha.backs_payload hc (siteHolds_add (Int.ofNat_lt.mp hk))
  have hstart := ha.backs_payload hc (siteHolds_add (List.length_pos_of_ne_nil hne))
  rw [Int.natCast_zero, Int.add_zero] at hstart
  exact ⟨_, ha.mem_new hedits, hback, Section.offset_add hstart.1 k⟩

omit hedits in
/-- The headers end before the old file does. -/
theorem Appended.lookupReads_lt {i : Nat} (h : LookupReads image (sectionCount image + 1) i) :
    i < image.length := by
  have := ha.dos_le
  have := ha.optional_le
  have hslot := ha.slot_le
  rcases h with h | h | h | ⟨n, hn, -, hhi⟩
  · omega
  · omega
  · omega
  · rw [tableEnd] at hslot
    omega

end

section
variable (hplacement : patch.placement = .section_)
include hpe hne hcave hsites hkept hok hplacement

theorem call_section : ∃ base rawOffset payloadOffset branches, Appended patch image base rawOffset ∧
    Call patch base payload out payloadOffset branches := by
  obtain ⟨base, payloadOffset, branches, hplace, hcheck, hbranches, hwrite⟩ := apply_ok hok
  rw [place_section hplacement] at hplace
  obtain ⟨rawOffset, ha⟩ := appendSection_ok hplace
  have hedits := hkept.edits hplacement
  have hbase := ha.peImage_of_cave hedits hpe hplacement hcave
  refine ⟨base, rawOffset, payloadOffset, branches, ha,
    call_of_ok hbase hne hsites hcheck hbranches hwrite fun i hi ↦ ?_⟩
  rw [ha.lookupReads hedits] at hi
  constructor
  · -- The payload goes past the end of the old file.
    rintro ⟨s, hs, hholds, hlo, -⟩
    obtain ⟨-, -, -, hcaveLo, hcaveHi, -⟩ := checkCave_ok hcheck
    have hlen : 0 < payload.length := List.length_pos_of_ne_nil hne
    have hin : SiteHolds (caveSite patch) patch.payloadRVA := by
      constructor
      · exact hcaveLo
      · show patch.payloadRVA < patch.caveRVA + patch.caveSize
        omega
    obtain rfl := hbase.section_unique hs (ha.mem_new hedits) hholds ((ha.holds_cave _).mpr hin)
    have hpast : rawOffset ≤ i := (Nat.le_add_right _ _).trans hlo
    have := ha.le_rawOffset
    have := ha.lookupReads_lt hi
    omega
  · intro hook hmem hwritten
    have hrelied : Relied patch image i := by
      rw [Relied, hplacement]
      exact .inl hi
    exact hkept.written i hrelied (.inr ⟨hook, hmem, ha.writtenFor_hook hedits hsites hmem hwritten⟩)

omit hpe hcave hok in
/-- The image no longer ends where the section was pinned. -/
theorem again_section {base : Bytes} {rawOffset payloadOffset : Nat} {branches : List (Nat × Bytes)}
    (ha : Appended patch image base rawOffset) (hc : Call patch base payload out payloadOffset branches) :
    Throws (apply patch out payload) := by
  have hedits := hkept.edits hplacement
  have hsize : sizeOfImage out = sizeOfImage base := by
    rw [sizeOfImage, sizeOfImage, ← peOffset_congr hc.wrote.kept]
    refine field_congr fun i hlo hhi ↦ hc.wrote.unchanged fun w hmem hcov ↦ ?_
    rw [ha.peOffset_eq hedits] at hlo hhi
    have hoptional := ha.optional_le
    have hle := ha.le_rawOffset
    rcases List.mem_cons.mp hmem with rfl | hmem
    · obtain ⟨rva, hrva, s, hs, hback, rfl⟩ :=
        (hc.placed (ha.payload_backed hedits hne hc)).behind hcov
      obtain rfl := hc.wrote.pe.section_unique hs (ha.mem_new hedits) hback.holds (ha.backs_payload hc hrva).holds
      have hpast : rawOffset ≤ (newSection patch rawOffset).offset rva := hback.rawHolds.1
      omega
    · obtain ⟨hook, -, hhook⟩ := exists_of_forall₂ hc.hooks.flip hmem
      have hrelied : Relied patch image i := by
        rw [Relied, hplacement]
        exact .inr ⟨by omega, by omega⟩
      have hwritten := ha.writtenFor_hook hedits hsites hhook.mem (hhook.writtenFor hcov)
      exact hkept.written i hrelied (.inr ⟨hook, hhook.mem, hwritten⟩)
  have hthrows : Throws (place patch out) := by
    rw [place_section hplacement]
    apply appendSection_throws
    rw [hsize, ha.sizeOfImage_eq hedits, ← ha.caveRVA, sectionSize]
    omega
  exact .bind (validateHeaders_noTrap ..) fun _ _ ↦ .bind_left hthrows

theorem patched_section (hwritable : Writable patch image payload) : Patched patch image payload out := by
  obtain ⟨base, rawOffset, payloadOffset, branches, ha, hc⟩ :=
    call_section hpe hne hcave hsites hkept hok hplacement
  have hedits := hkept.edits hplacement
  have hbase := hc.wrote.pe
  have hlength := ha.length_eq
  have hle := ha.le_rawOffset
  have hsection : ∃ s ∈ sectionTable base, ∀ rva, SiteHolds (caveSite patch) rva → s.Holds rva :=
    ⟨_, ha.mem_new hedits, fun rva h ↦ (ha.holds_cave rva).mpr h⟩
  have hpayload := ha.payload_backed hedits hne hc
  have hhooks : ∀ hook ∈ patch.hooks, SiteBacked base (hookSite hook) := by
    intro hook hmem
    obtain ⟨offset, hback⟩ := hwritable.hooks hook hmem
    refine ⟨offset, fun k hk ↦ ?_⟩
    obtain ⟨s, hs, hrest⟩ := hback k hk
    exact ⟨s, ha.mem_old hedits hs, hrest⟩
  refine ⟨hc.mapped_payload hhooks hpayload, fun hook hmem ↦ hc.mapped_hook hhooks hpayload hmem, ?_, ?_,
    ?_, ?_, ?_, again_section hne hsites hkept hplacement ha hc⟩
  · -- Bytes of the old file: a site's, or a header field's.
    intro i hi hdiff
    by_cases hedit : Edited image i
    · exact .inr (.inr ⟨hplacement, hedit⟩)
    rw [← ha.unchanged hi hedit] at hdiff
    rcases hc.frame hhooks hpayload hdiff with h | h
    · exact .inl h
    · exact .inr (.inl h)
  · intro _ i hlo hhi
    have hend := ha.slot_le
    have hbyte : image[i]? = some (image.get ⟨i, by omega⟩) := List.getElem?_eq_getElem (by omega)
    have hslice : (slice image (tableEnd image) 40)[i - tableEnd image]? = image[i]? := by
      rw [slice_getElem? _ _ (by omega)]
      congr 1
      omega
    rw [hbyte] at hslice ⊢
    rw [ha.slot _ (List.mem_of_getElem? hslice)]
  · rw [hc.wrote.length_eq, hlength]
    omega
  · -- Bytes of the added part: the payload's, or the padding `appendSection` made.
    intro i hlo hhi
    refine ⟨hplacement, ?_⟩
    rw [hc.wrote.length_eq] at hhi
    have hzero := ha.added hlo hhi
    by_cases hdiff : out[i]? = base[i]?
    · rw [hdiff]
      exact .inr hzero
    · rcases hc.frame hhooks hpayload hdiff with h | h
      · exact .inl h
      · -- No hook site has a byte in the added part.
        obtain ⟨hook, hmem, rva, hrva, s, hs, hback, rfl⟩ := h
        rw [← hc.wrote.table_eq] at hs
        have hold := ha.mem_of_hook hedits hsites hmem hrva hs hback.holds
        have := hpe.inFile s hold _ hback.rawHolds
        omega
  · intro i hi
    have hpad := hc.overwrites hsection hi
    obtain ⟨rva, hrva, s, hs, hback, rfl⟩ := hi
    rw [← hc.wrote.table_eq] at hs
    obtain rfl := hbase.section_unique hs (ha.mem_new hedits) hback.holds (ha.backs_payload hc hrva).holds
    have hlo : image.length ≤ (newSection patch rawOffset).offset rva := hle.trans hback.rawHolds.1
    rw [ha.added hlo (hbase.inFile _ hs _ hback.rawHolds)] at hpad
    rw [List.getElem?_eq_none hlo]
    exact Option.some.inj hpad

theorem needed_section (hp : Patched patch image payload out) : Needed patch image payload := by
  obtain ⟨base, rawOffset, payloadOffset, branches, ha, hc⟩ :=
    call_section hpe hne hcave hsites hkept hok hplacement
  have hnot : patch.placement ≠ .padding := by
    rw [hplacement]
    rintro ⟨⟩
  refine ⟨fun h ↦ absurd h hnot, fun hook hmem code hcode k hk hzero ↦ ?_, fun h ↦ absurd h hnot⟩
  obtain ⟨s, hs, hback⟩ := hp.hook_backs hmem hcode hk hzero
  rw [← hc.wrote.table_eq] at hs
  have hrva : SiteHolds (hookSite hook) (hook.rva + k) := by
    rw [(branch_ok hcode).1] at hk
    constructor
    · show hook.rva ≤ _
      omega
    · show _ < hook.rva + (hook.stolen.length : Int)
      omega
  exact ⟨s, ha.mem_of_hook (hkept.edits hplacement) hsites hmem hrva hs hback.holds, hback⟩

end

include hpe hne hcave hsites hkept hok

/-- A patch whose bytes all have a place in the file does what it is for, and only once; where it does,
all but zeros have one. -/
theorem apply_patched : (Writable patch image payload → Patched patch image payload out) ∧
    (Patched patch image payload out → Needed patch image payload) := by
  cases hplacement : patch.placement with
  | padding =>
    exact ⟨patched_padding hpe hne hcave hsites hkept hok hplacement,
      needed_padding hpe hne hcave hsites hkept hok hplacement⟩
  | section_ =>
    exact ⟨patched_section hpe hne hcave hsites hkept hok hplacement,
      needed_section hpe hne hcave hsites hkept hok hplacement⟩

end

/-- An x86-64 image with one section at `0x1000`, whose raw data is the first `rawSize` bytes of
`data`. -/
def stubImage (virtualSize rawSize : Nat) (data : Bytes) : Bytes :=
  List.replicate 60 0 ++ leBytes 4 64 ++ leBytes 4 0x4550 ++ leBytes 2 0x8664 ++ leBytes 2 1 ++
    List.replicate 12 0 ++ leBytes 2 64 ++ leBytes 2 0 ++ leBytes 2 0x20b ++ List.replicate 22 0 ++
    leBytes 8 0x170000000 ++ List.replicate 4 0 ++ leBytes 4 0x20 ++ List.replicate 16 0 ++
    leBytes 4 0x2000 ++ leBytes 4 192 ++ ascii ".text" ++ [0, 0, 0] ++ leBytes 4 virtualSize ++
    leBytes 4 0x1000 ++ leBytes 4 rawSize ++ leBytes 4 192 ++ List.replicate 16 0 ++ data

/-- A patch that puts its payload at `rva` and jumps there from `0x1000`. -/
def stubPatch (rva : Int) : NtdllPatch where
  arch := .x86_64Windows
  caveRVA := rva
  payloadRVA := rva
  hooks := [⟨0x1000, List.replicate 6 0x90⟩]
  caveSize := 8
  cavePad := 0
  machine := 0x8664
  magic := 0x20b
  imageBase := 0x170000000
  placement := .padding

def stubData : Bytes := List.replicate 6 0x90 ++ List.replicate 58 0

theorem stub_table {virtualSize : Nat} (h : virtualSize = 32 ∨ virtualSize = 64) :
    sectionTable (stubImage virtualSize 32 stubData) = [⟨virtualSize, 0x1000, 32, 192⟩] := by
  rcases h with rfl | rfl
  · decide
  · decide

theorem stub_peImage {virtualSize : Nat} (h : virtualSize = 32 ∨ virtualSize = 64) :
    PeImage (stubImage virtualSize 32 stubData) := by
  have htable := stub_table h
  have hlength : (stubImage virtualSize 32 stubData).length = 256 := by
    rcases h with rfl | rfl
    · decide +kernel
    · decide +kernel
  refine ⟨?_, ?_, ?_⟩
  · rw [htable, hlength]
    rintro s (_ | ⟨_, ⟨⟩⟩) i hi
    have : i < 192 + 32 := hi.2
    omega
  · rw [htable]
    exact List.pairwise_singleton _ _
  · rw [htable]
    exact List.pairwise_singleton _ _

/-- The headers end at 192, where the section's bytes start. -/
theorem stub_headersKept (rva : Int) :
    HeadersKept (stubPatch rva) (stubImage 32 32 stubData) [0xc3] := by
  have htable : tableOffset (stubImage 32 32 stubData) = 152 := by decide
  have hpe : peOffset (stubImage 32 32 stubData) = 64 := by decide
  have hcount : sectionCount (stubImage 32 32 stubData) = 1 := by decide
  refine ⟨(fun h ↦ by cases h), fun i hi hwritten ↦ ?_⟩
  have hhead : i < 192 := by
    have hreads : LookupReads (stubImage 32 32 stubData) (sectionCount (stubImage 32 32 stubData)) i := hi
    rw [LookupReads, htable, hpe, hcount] at hreads
    rcases hreads with h | h | h | ⟨n, hn, -, h⟩
    · omega
    · omega
    · omega
    · omega
  have hbehind : ∀ site, WrittenFor (stubImage 32 32 stubData) site i → 192 ≤ i := by
    rintro site ⟨s, hs, -, hlo, -⟩
    rw [stub_table (.inl rfl)] at hs
    rw [List.mem_singleton.mp hs] at hlo
    exact (Nat.le_add_right 192 _).trans hlo
  rcases hwritten with ⟨-, h⟩ | ⟨hook, -, h⟩
  · have := hbehind _ h
    omega
  · have := hbehind _ h
    omega

theorem stub_sites {rva : Int} (h : 0x1006 ≤ rva) :
    (sites (stubPatch rva)).Pairwise (Apart SiteHolds) := by
  refine .cons ?_ (List.pairwise_singleton _ _)
  rintro site (_ | ⟨_, ⟨⟩⟩) a hcave hhook
  have h1 : rva ≤ a := hcave.1
  have h2 : a < 0x1000 + 6 := hhook.2
  omega

theorem stub_cave {virtualSize : Nat} (h : virtualSize = 32 ∨ virtualSize = 64) {rva : Int}
    (hlo : 0x1000 ≤ rva) (hhi : rva + 8 ≤ 0x1000 + virtualSize) :
    CaveInSection (stubPatch rva) (stubImage virtualSize 32 stubData) := by
  show ∃ s ∈ sectionTable (stubImage virtualSize 32 stubData), _
  rw [stub_table h]
  refine ⟨_, .head _, fun a ha ↦ ?_⟩
  have h1 : rva ≤ a := ha.1
  have h2 : a < rva + 8 := ha.2
  have h3 : virtualSize ≤ max virtualSize 32 := Nat.le_max_left _ _
  constructor
  · show (0x1000 : Int) ≤ a
    omega
  · show a < 0x1000 + (max virtualSize 32 : Nat)
    omega

def stubOut (rva : Int) (image : Bytes) : Bytes :=
  match apply (stubPatch rva) image [0xc3] with
  | .ok out => out
  | .error _ => []

/-- The section's one stretch of the file has what is in its raw data. -/
theorem stub_backed {site : Int × Int} (hlo : 0x1000 ≤ site.1) (hhi : site.1 + site.2 ≤ 0x1000 + 32) :
    SiteBacked (stubImage 32 32 stubData) site := by
  rw [SiteBacked, stub_table (.inl rfl)]
  refine ⟨192 + (site.1 - 0x1000).toNat, fun k hk ↦ ⟨_, .head _, ⟨?_, ?_⟩, ?_⟩⟩
  · show (0x1000 : Int) ≤ site.1 + k
    omega
  · show site.1 + k < 0x1000 + 32
    omega
  · show 192 + (site.1 + k - 0x1000).toNat = _
    omega

/-- A cave inside the raw data. -/
theorem apply_patched_stub : Patched (stubPatch 0x1010) (stubImage 32 32 stubData) [0xc3]
    (stubOut 0x1010 (stubImage 32 32 stubData)) ∧
      Needed (stubPatch 0x1010) (stubImage 32 32 stubData) [0xc3] := by
  have hok : apply (stubPatch 0x1010) (stubImage 32 32 stubData) [0xc3] =
      .ok (stubOut 0x1010 (stubImage 32 32 stubData)) := by decide +kernel
  have hpatched := apply_patched (stub_peImage (.inl rfl)) (List.cons_ne_nil _ _)
    (stub_cave (.inl rfl) (by decide) (by decide)) (stub_sites (by decide)) (stub_headersKept 0x1010) hok
  have hdone := hpatched.1 ⟨fun _ ↦ stub_backed (by decide) (by decide), ?_,
    fun _ ↦ .inl ⟨0xc3, .head _, by decide⟩⟩
  · exact ⟨hdone, hpatched.2 hdone⟩
  · rintro hook (_ | ⟨_, ⟨⟩⟩)
    exact stub_backed (by decide) (by decide)

/-- A cave the section holds in memory only: what follows its raw data in the file gets patched. -/
theorem unbacked_cave_not_patched : ¬∀ (patch : NtdllPatch) (image payload out : Bytes),
    PeImage image → payload ≠ [] → CaveInSection patch image →
      (sites patch).Pairwise (Apart SiteHolds) → apply patch image payload = .ok out →
        Patched patch image payload out := by
  intro h
  have hpatched := h (stubPatch 0x1030) (stubImage 64 32 stubData) [0xc3]
    (stubOut 0x1030 (stubImage 64 32 stubData)) (stub_peImage (.inr rfl)) (List.cons_ne_nil _ _)
    (stub_cave (.inr rfl) (by decide) (by decide)) (stub_sites (by decide)) (by decide +kernel)
  have hmapped := hpatched.detour 0 (by decide)
  exact absurd hmapped (by decide +kernel)

end NotProton.NtdllPatcher
