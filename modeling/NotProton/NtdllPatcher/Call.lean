import NotProton.NtdllPatcher.Append
import NotProton.NtdllPatcher.Branch

/-! # Call — what a call that succeeds has written, and where a second one throws -/

open NotProton.Library

namespace NotProton.NtdllPatcher

/-! ## What a call that succeeds has done -/

theorem checkCave_ok {patch : NtdllPatch} {bytes payload : Bytes} {payloadOffset : Nat}
    (h : checkCave patch bytes payload = .ok payloadOffset) :
    ∃ caveOffset, fileOffset patch.caveRVA bytes "cave" patch = .ok caveOffset ∧
      fileOffset patch.payloadRVA bytes "payload" patch = .ok payloadOffset ∧
      patch.caveRVA ≤ patch.payloadRVA ∧
      patch.payloadRVA + payload.length ≤ patch.caveRVA + patch.caveSize ∧
      ∀ b ∈ slice bytes caveOffset patch.caveSize.toNat, b = patch.cavePad := by
  obtain ⟨caveOffset, hcave, h⟩ := bind_ok h
  obtain ⟨offset, hpayload, h⟩ := bind_ok h
  obtain ⟨_, hinto, h⟩ := bind_ok h
  obtain ⟨_, hroom, h⟩ := bind_ok h
  obtain ⟨_, -, h⟩ := bind_ok h
  obtain ⟨_, hpad, h⟩ := bind_ok h
  cases h
  have hinto := guard_ok hinto
  have hroom := guard_ok hroom
  exact ⟨caveOffset, hcave, hpayload, by omega, by omega, guard_ok hpad⟩

theorem hookBranch_ok {patch : NtdllPatch} {bytes : Bytes} {hook : NtdllHook} {w : Nat × Bytes}
    (h : hookBranch patch bytes hook = .ok w) :
    fileOffset hook.rva bytes "hook site" patch = .ok w.1 ∧
      slice bytes w.1 hook.stolen.length = hook.stolen ∧
      branch patch hook.rva hook.stolen.length = .ok w.2 := by
  obtain ⟨offset, hoffset, h⟩ := bind_ok h
  obtain ⟨_, -, h⟩ := bind_ok h
  obtain ⟨_, hpresent, h⟩ := bind_ok h
  obtain ⟨code, hcode, h⟩ := bind_ok h
  cases h
  exact ⟨hoffset, guard_ok hpresent, hcode⟩

theorem hookBranches_ok {patch : NtdllPatch} {bytes : Bytes} {P : NtdllHook → Nat × Bytes → Prop}
    {hooks : List NtdllHook} {ws : List (Nat × Bytes)} (h : hookBranches patch bytes hooks = .ok ws)
    (hP : ∀ hook ∈ hooks, ∀ w, hookBranch patch bytes hook = .ok w → P hook w) :
    List.Forall₂ P hooks ws := by
  induction hooks generalizing ws with
  | nil =>
    cases h
    exact .nil
  | cons hook hooks ih =>
    obtain ⟨w, hw, h⟩ := bind_ok h
    obtain ⟨ws, hws, h⟩ := bind_ok h
    obtain ⟨hhook, hhooks⟩ := List.forall_mem_cons.mp hP
    cases h
    exact .cons (hhook w hw) (ih hws hhooks)

theorem writeBranches_ok {bytes out : Bytes} {ws : List (Nat × Bytes)}
    (h : writeBranches bytes ws = .ok out) :
    (∀ w ∈ ws, w.1 + w.2.length ≤ bytes.length) ∧ out = spliceAll bytes ws := by
  induction ws generalizing bytes with
  | nil =>
    cases h
    exact ⟨fun w hw ↦ absurd hw List.not_mem_nil, rfl⟩
  | cons w ws ih =>
    obtain ⟨next, hnext, h⟩ := bind_ok h
    unfold replaceSubrange at hnext
    split at hnext
    next hw =>
      cases hnext
      obtain ⟨hws, rfl⟩ := ih h
      rw [splice_length hw] at hws
      exact ⟨List.forall_mem_cons.mpr ⟨hw, hws⟩, rfl⟩
    next => cases hnext

theorem apply_ok {patch : NtdllPatch} {image payload out : Bytes}
    (h : apply patch image payload = .ok out) :
    ∃ base payloadOffset branches, place patch image = .ok base ∧
      checkCave patch base payload = .ok payloadOffset ∧
      hookBranches patch base patch.hooks = .ok branches ∧
      writeBranches base ((payloadOffset, payload) :: branches) = .ok out := by
  obtain ⟨_, -, h⟩ := bind_ok h
  obtain ⟨base, hbase, h⟩ := bind_ok h
  obtain ⟨payloadOffset, hcave, h⟩ := bind_ok h
  obtain ⟨branches, hbranches, h⟩ := bind_ok h
  exact ⟨base, payloadOffset, branches, hbase, hcave, hbranches, h⟩

/-! ## Writes behind addresses -/

/-- The addresses of a site, given as its start and its length. -/
def SiteHolds (site : Int × Int) (rva : Int) : Prop := site.1 ≤ rva ∧ rva < site.1 + site.2

/-- The file has a site's bytes one after another, each where it is mapped from. -/
def SiteBacked (bytes : Bytes) (site : Int × Int) : Prop :=
  ∃ offset : Nat, ∀ k : Nat, k < site.2 →
    ∃ s ∈ sectionTable bytes, s.Backs (site.1 + k) ∧ s.offset (site.1 + k) = offset + k

/-- The file offsets behind a site's addresses. -/
def BehindSite (bytes : Bytes) (site : Int × Int) (i : Nat) : Prop :=
  ∃ rva, SiteHolds site rva ∧ ∃ s ∈ sectionTable bytes, s.Backs rva ∧ i = s.offset rva

/-- The file bytes a write for a site goes over, from where its start is looked up. -/
def WrittenFor (bytes : Bytes) (site : Int × Int) (i : Nat) : Prop :=
  ∃ s ∈ sectionTable bytes, s.Holds site.1 ∧ s.offset site.1 ≤ i ∧ i < s.offset site.1 + site.2

def writeSite (rva : Int) (code : Bytes) : Int × Int := (rva, code.length)

theorem siteHolds_add {rva : Int} {code : Bytes} {k : Nat} (hk : k < code.length) :
    SiteHolds (writeSite rva code) (rva + k) := by
  constructor
  · show rva ≤ _
    omega
  · show _ < rva + (code.length : Int)
    omega

theorem writtenFor_of_covers {bytes : Bytes} {rva : Int} {what : String} {patch : NtdllPatch}
    {w : Nat × Bytes} (hoffset : fileOffset rva bytes what patch = .ok w.1) {i : Nat} (hi : Covers w i) :
    WrittenFor bytes (writeSite rva w.2) i := by
  obtain ⟨s, hs, -, -, hholds, hoff⟩ := fileOffset_ok hoffset
  have hlo := hi.1
  have hhi := hi.2
  refine ⟨s, hs, hholds, ?_, ?_⟩
  · show s.offset rva ≤ i
    omega
  · show (i : Int) < s.offset rva + (w.2.length : Int)
    omega

/-- A write that goes where the loader maps `rva` from. -/
structure Placed (bytes : Bytes) (rva : Int) (w : Nat × Bytes) : Prop where
  placed : ∀ k < w.2.length, ∃ s ∈ sectionTable bytes, s.Backs (rva + k) ∧ s.offset (rva + k) = w.1 + k

theorem Placed.behind {bytes : Bytes} {rva : Int} {w : Nat × Bytes} (h : Placed bytes rva w) {i : Nat}
    (hi : Covers w i) : BehindSite bytes (writeSite rva w.2) i := by
  have hlo := hi.1
  have hhi := hi.2
  obtain ⟨s, hs, hback, hoff⟩ := h.placed (i - w.1) (by omega)
  refine ⟨_, siteHolds_add (by omega), s, hs, hback, ?_⟩
  omega

section
variable {bytes : Bytes} (hpe : PeImage bytes)
include hpe

theorem placed_of_backed {rva : Int} {what : String} {patch : NtdllPatch} {w : Nat × Bytes}
    (hoffset : fileOffset rva bytes what patch = .ok w.1) (hne : w.2 ≠ [])
    (hbacked : SiteBacked bytes (writeSite rva w.2)) : Placed bytes rva w := by
  obtain ⟨s, hs, -, -, hholds, hoff⟩ := fileOffset_ok hoffset
  obtain ⟨offset, hbacked⟩ := hbacked
  have hlen : 0 < w.2.length := List.length_pos_of_ne_nil hne
  have hat : ∀ k < w.2.length, ∃ s ∈ sectionTable bytes, s.Backs (rva + k) ∧
      s.offset (rva + k) = offset + k := by
    intro k hk
    exact hbacked k (Int.ofNat_lt.mpr hk)
  -- The section the lookup found is the one that has the first byte.
  obtain ⟨t, ht, hback, hstart⟩ := hat 0 hlen
  rw [Int.natCast_zero, Int.add_zero] at hback hstart
  obtain rfl := hpe.section_unique hs ht hholds hback.holds
  refine ⟨fun k hk ↦ ?_⟩
  rw [hoff, hstart]
  exact hat k hk

theorem Placed.apart {a b : Int} {v w : Nat × Bytes} (hv : Placed bytes a v) (hw : Placed bytes b w)
    (h : Apart SiteHolds (writeSite a v.2) (writeSite b w.2)) : Apart Covers v w := by
  intro i hvi hwi
  obtain ⟨rva, hsite, s, hs, hback, hi⟩ := hv.behind hvi
  obtain ⟨rva', hsite', t, ht, hback', hi'⟩ := hw.behind hwi
  -- One file byte is in one section only, and so behind one address.
  have hraw := hback.rawHolds
  have hraw' := hback'.rawHolds
  rw [← hi] at hraw
  rw [← hi'] at hraw'
  obtain rfl := hpe.raw_unique hs ht hraw hraw'
  have hrva : rva = rva' := by
    have := hback.1
    have := hback'.1
    rw [hi, Section.offset, Section.offset] at hi'
    omega
  subst hrva
  exact h rva hsite hsite'

end

/-! ## Where a call throws -/

theorem hookBranches_throws {patch : NtdllPatch} {bytes : Bytes} {hooks : List NtdllHook}
    {hook : NtdllHook} (hmem : hook ∈ hooks)
    (h : ∀ offset, fileOffset hook.rva bytes "hook site" patch = .ok offset →
      slice bytes offset hook.stolen.length ≠ hook.stolen) :
    Throws (hookBranches patch bytes hooks) := by
  induction hooks with
  | nil => cases hmem
  | cons first hooks ih =>
    rcases List.mem_cons.mp hmem with rfl | hmem
    · refine .bind_left (.bind (fileOffset_noTrap ..) fun offset hoffset ↦ ?_)
      refine .bind (requireRange_noTrap ..) fun _ _ ↦ .bind_left ?_
      exact guard_throws (h offset hoffset) _
    · exact .bind (hookBranch_noTrap ..) fun _ _ ↦ .bind_left (ih hmem)

theorem checkCave_throws {patch : NtdllPatch} {bytes payload : Bytes}
    (h : ∀ offset, fileOffset patch.caveRVA bytes "cave" patch = .ok offset →
      ¬∀ b ∈ slice bytes offset patch.caveSize.toNat, b = patch.cavePad) :
    Throws (checkCave patch bytes payload) :=
  .bind (fileOffset_noTrap ..) fun offset hoffset ↦ .bind (fileOffset_noTrap ..) fun _ _ ↦
    .bind (guard_noTrap ..) fun _ _ ↦ .bind (guard_noTrap ..) fun _ _ ↦
    .bind (requireRange_noTrap ..) fun _ _ ↦ .bind_left (guard_throws (h offset hoffset) _)

theorem appendSection_throws {patch : NtdllPatch} {bytes : Bytes}
    (h : (sizeOfImage bytes : Int) ≠ patch.caveRVA) : Throws (appendSection patch bytes) := by
  refine .bind (readField_noTrap ..) fun pe hpe ↦ ?_
  refine .bind (readField_noTrap ..) fun _ _ ↦ .bind (readField_noTrap ..) fun _ _ ↦
    .bind (readField_noTrap ..) fun _ _ ↦ .bind (readField_noTrap ..) fun size hsize ↦ ?_
  refine .bind (readField_noTrap ..) fun _ _ ↦ .bind_left (guard_throws ?_ _)
  rintro ⟨-, hpinned⟩
  have hpe := (readField_ok hpe).2
  have hsize := (readField_ok hsize).2
  subst hpe hsize
  exact h hpinned

theorem apply_throws {patch : NtdllPatch} {image payload : Bytes} (hplace : NoTrap (place patch image))
    (h : ∀ base, place patch image = .ok base →
      Throws (checkCave patch base payload) ∨ Throws (hookBranches patch base patch.hooks)) :
    Throws (apply patch image payload) := by
  refine .bind (validateHeaders_noTrap ..) fun _ _ ↦ .bind hplace fun base hbase ↦ ?_
  rcases h base hbase with hcave | hhooks
  · exact .bind_left hcave
  · exact .bind (checkCave_noTrap ..) fun _ _ ↦ .bind_left hhooks

/-! ## An image after its writes -/

/-- `ws` are written into `base`, none of them over what the look-up reads. -/
structure Wrote (base out : Bytes) (ws : List (Nat × Bytes)) : Prop where
  pe : PeImage base
  headers : ∀ i, LookupReads base (sectionCount base) i → ∀ w ∈ ws, ¬Covers w i
  bounds : ∀ w ∈ ws, w.1 + w.2.length ≤ base.length
  out_eq : out = spliceAll base ws

section
variable {base out : Bytes} {ws : List (Nat × Bytes)} (hw : Wrote base out ws)
include hw

theorem Wrote.length_eq : out.length = base.length := by
  rw [hw.out_eq, spliceAll_length hw.bounds]

theorem Wrote.unchanged {i : Nat} (hi : ∀ w ∈ ws, ¬Covers w i) : out[i]? = base[i]? := by
  rw [hw.out_eq]
  exact spliceAll_getElem?_of_notMem hw.bounds hi

theorem Wrote.kept : ∀ i, LookupReads base (sectionCount base) i → base[i]? = out[i]? := fun i hi ↦
  (hw.unchanged (hw.headers i hi)).symm

theorem Wrote.table_eq : sectionTable base = sectionTable out := sectionTable_congr hw.kept

theorem Wrote.peImage : PeImage out := hw.pe.congr hw.kept hw.length_eq.symm

variable (hapart : ws.Pairwise (Apart Covers))
include hapart

theorem Wrote.slice_eq {w : Nat × Bytes} (hmem : w ∈ ws) : slice out w.1 w.2.length = w.2 := by
  rw [hw.out_eq]
  exact slice_spliceAll hw.bounds hapart hmem

/-- What was written for a site is mapped there. -/
theorem Wrote.mapped_eq {rva : Int} {w : Nat × Bytes} (hmem : w ∈ ws) (h : Placed base rva w) :
    ∀ k < w.2.length, mapped out (rva + k) = w.2[k]? := by
  intro k hk
  obtain ⟨s, hs, hback, hoff⟩ := h.placed k hk
  rw [hw.table_eq] at hs
  rw [hw.peImage.mapped_of_backs hs hback, hoff, ← slice_getElem? out w.1 hk, hw.slice_eq hapart hmem]

end

/-! ## The sites of a patch -/

def caveSite (patch : NtdllPatch) : Int × Int := (patch.caveRVA, patch.caveSize)

def hookSite (hook : NtdllHook) : Int × Int := (hook.rva, hook.stolen.length)

def sites (patch : NtdllPatch) : List (Int × Int) := caveSite patch :: patch.hooks.map hookSite

theorem branch_ne_nil {patch : NtdllPatch} {rva : Int} {width : Nat} {code : Bytes}
    (h : branch patch rva width = .ok code) : code ≠ [] := by
  rintro rfl
  have htarget := (branch_ok h).2
  unfold branchTarget branchLinkTarget jumpTarget at htarget
  split at htarget
  · rw [if_neg (by decide)] at htarget
    cases htarget
  · rw [if_neg (by simp)] at htarget
    cases htarget

/-- A hook, and the branch that is written for it. -/
structure HookWrite (patch : NtdllPatch) (base : Bytes) (hook : NtdllHook) (w : Nat × Bytes) : Prop where
  mem : hook ∈ patch.hooks
  ok : hookBranch patch base hook = .ok w

section
variable {patch : NtdllPatch} {base : Bytes} {hook : NtdllHook} {w : Nat × Bytes}
  (h : HookWrite patch base hook w)
include h

theorem HookWrite.code : branch patch hook.rva hook.stolen.length = .ok w.2 := (hookBranch_ok h.ok).2.2

theorem HookWrite.site : writeSite hook.rva w.2 = hookSite hook := by
  rw [writeSite, (branch_ok h.code).1, hookSite]

theorem HookWrite.placed (hpe : PeImage base) (hbacked : SiteBacked base (hookSite hook)) :
    Placed base hook.rva w := by
  rw [← h.site] at hbacked
  exact placed_of_backed hpe (hookBranch_ok h.ok).1 (branch_ne_nil h.code) hbacked

theorem HookWrite.writtenFor {i : Nat} (hi : Covers w i) : WrittenFor base (hookSite hook) i := by
  rw [← h.site]
  exact writtenFor_of_covers (hookBranch_ok h.ok).1 hi

end

/-- A call from the checks on, on the image the addresses are looked up in. -/
structure Call (patch : NtdllPatch) (base payload out : Bytes) (payloadOffset : Nat)
    (branches : List (Nat × Bytes)) : Prop where
  check : checkCave patch base payload = .ok payloadOffset
  hooks : List.Forall₂ (HookWrite patch base) patch.hooks branches
  wrote : Wrote base out ((payloadOffset, payload) :: branches)
  ne : payload ≠ []
  sites : (sites patch).Pairwise (Apart SiteHolds)

theorem call_of_ok {patch : NtdllPatch} {base payload out : Bytes} {payloadOffset : Nat}
    {branches : List (Nat × Bytes)} (hpe : PeImage base) (hne : payload ≠ [])
    (hsites : (sites patch).Pairwise (Apart SiteHolds))
    (hcheck : checkCave patch base payload = .ok payloadOffset)
    (hbranches : hookBranches patch base patch.hooks = .ok branches)
    (hwrite : writeBranches base ((payloadOffset, payload) :: branches) = .ok out)
    (hkept : ∀ i, LookupReads base (sectionCount base) i →
      ¬WrittenFor base (writeSite patch.payloadRVA payload) i ∧
        ∀ hook ∈ patch.hooks, ¬WrittenFor base (hookSite hook) i) :
    Call patch base payload out payloadOffset branches := by
  obtain ⟨hbounds, hout⟩ := writeBranches_ok hwrite
  obtain ⟨-, -, hoffset, -⟩ := checkCave_ok hcheck
  have hhooks : List.Forall₂ (HookWrite patch base) patch.hooks branches :=
    hookBranches_ok hbranches fun hook hmem w hok ↦ ⟨hmem, hok⟩
  refine ⟨hcheck, hhooks, ⟨hpe, fun i hi w hmem hcov ↦ ?_, hbounds, hout⟩, hne, hsites⟩
  obtain ⟨hpayload, hsites⟩ := hkept i hi
  rcases List.mem_cons.mp hmem with rfl | hmem
  · exact hpayload (writtenFor_of_covers hoffset hcov)
  · obtain ⟨hook, -, hhook⟩ := exists_of_forall₂ hhooks.flip hmem
    exact hsites hook hhook.mem (hhook.writtenFor hcov)

section
variable {patch : NtdllPatch} {base payload out : Bytes} {payloadOffset : Nat}
  {branches : List (Nat × Bytes)} (hc : Call patch base payload out payloadOffset branches)
include hc

/-- The payload is in the cave. -/
theorem Call.in_cave {rva : Int} (h : SiteHolds (writeSite patch.payloadRVA payload) rva) :
    SiteHolds (caveSite patch) rva := by
  obtain ⟨-, -, -, hlo, hhi, -⟩ := checkCave_ok hc.check
  have h1 : patch.payloadRVA ≤ rva := h.1
  have h2 : rva < patch.payloadRVA + (payload.length : Int) := h.2
  constructor
  · show patch.caveRVA ≤ rva
    omega
  · show rva < patch.caveRVA + patch.caveSize
    omega

theorem Call.hook_write {hook : NtdllHook} (hmem : hook ∈ patch.hooks) :
    ∃ w ∈ branches, HookWrite patch base hook w := exists_of_forall₂ hc.hooks hmem

/-- The lookup in the patched image goes to the same place. -/
theorem Call.same_offset {rva : Int} {what what' : String} {offset offset' : Nat}
    (h : fileOffset rva base what patch = .ok offset) (h' : fileOffset rva out what' patch = .ok offset') :
    offset' = offset := by
  obtain ⟨s, hs, -, -, hholds, heq⟩ := fileOffset_ok h
  obtain ⟨t, ht, -, -, hholds', heq'⟩ := fileOffset_ok h'
  rw [← hc.wrote.table_eq] at ht
  obtain rfl := hc.wrote.pe.section_unique hs ht hholds hholds'
  rw [heq, heq']

/-! ### Where every byte has a place -/

section
variable (hhooks : ∀ hook ∈ patch.hooks, SiteBacked base (hookSite hook))
  (hpayload : SiteBacked base (writeSite patch.payloadRVA payload))
include hhooks hpayload

omit hhooks in
theorem Call.placed : Placed base patch.payloadRVA (payloadOffset, payload) := by
  obtain ⟨-, -, hoffset, -⟩ := checkCave_ok hc.check
  exact placed_of_backed hc.wrote.pe hoffset hc.ne hpayload

theorem Call.apart : ((payloadOffset, payload) :: branches).Pairwise (Apart Covers) := by
  have hpairs : (writeSite patch.payloadRVA payload :: patch.hooks.map hookSite).Pairwise
      (Apart SiteHolds) := by
    obtain ⟨hcaveApart, hhooksApart⟩ := List.pairwise_cons.mp hc.sites
    exact .cons (fun site hsite rva hrva ↦ hcaveApart site hsite rva (hc.in_cave hrva)) hhooksApart
  have hboth : List.Forall₂ (fun site w ↦ ∃ rva, Placed base rva w ∧ site = writeSite rva w.2)
      (writeSite patch.payloadRVA payload :: patch.hooks.map hookSite)
      ((payloadOffset, payload) :: branches) :=
    .cons ⟨_, hc.placed hpayload, rfl⟩ (List.forall₂_map_left_iff.mpr
      (hc.hooks.imp fun hook w h ↦ ⟨hook.rva, h.placed hc.wrote.pe (hhooks hook h.mem), h.site.symm⟩))
  refine pairwise_of_forall₂ hboth hpairs ?_
  rintro _ v _ w ⟨a, hv, rfl⟩ ⟨b, hw, rfl⟩ h
  exact hv.apart hc.wrote.pe hw h

theorem Call.mapped_payload :
    ∀ k < payload.length, mapped out (patch.payloadRVA + k) = payload[k]? :=
  hc.wrote.mapped_eq (hc.apart hhooks hpayload) List.mem_cons_self (hc.placed hpayload)

theorem Call.mapped_hook {hook : NtdllHook} (hmem : hook ∈ patch.hooks) :
    ∃ code : Bytes, code.length = hook.stolen.length ∧
      (∀ k < code.length, mapped out (hook.rva + k) = code[k]?) ∧
        branchTarget patch.machine hook.rva code = some patch.payloadRVA := by
  obtain ⟨w, hw, h⟩ := hc.hook_write hmem
  obtain ⟨hlength, htarget⟩ := branch_ok h.code
  have hplaced := h.placed hc.wrote.pe (hhooks hook hmem)
  exact ⟨w.2, hlength, hc.wrote.mapped_eq (hc.apart hhooks hpayload) (List.mem_cons_of_mem _ hw) hplaced, htarget⟩

/-- Only what stands behind the payload and the hook sites changes. -/
theorem Call.frame {i : Nat} (h : out[i]? ≠ base[i]?) :
    BehindSite out (writeSite patch.payloadRVA payload) i ∨
      ∃ hook ∈ patch.hooks, BehindSite out (hookSite hook) i := by
  have hbehind : ∀ site, BehindSite base site i → BehindSite out site i := by
    intro site hi
    unfold BehindSite at hi ⊢
    rwa [← hc.wrote.table_eq]
  by_contra hnot
  rw [not_or] at hnot
  refine h (hc.wrote.unchanged fun w hmem hcov ↦ ?_)
  rcases List.mem_cons.mp hmem with rfl | hmem
  · exact hnot.1 (hbehind _ ((hc.placed hpayload).behind hcov))
  · obtain ⟨hook, -, hhook⟩ := exists_of_forall₂ hc.hooks.flip hmem
    have hi := (hhook.placed hc.wrote.pe (hhooks hook hhook.mem)).behind hcov
    rw [hhook.site] at hi
    exact hnot.2 ⟨hook, hhook.mem, hbehind _ hi⟩

/-- A hook's site no longer holds the bytes it is supposed to, unless these were the branch. -/
theorem Call.hooks_again {hook : NtdllHook} (hmem : hook ∈ patch.hooks)
    (hfresh : branch patch hook.rva hook.stolen.length ≠ .ok hook.stolen) :
    Throws (hookBranches patch out patch.hooks) := by
  obtain ⟨w, hw, h⟩ := hc.hook_write hmem
  have hslice := hc.wrote.slice_eq (hc.apart hhooks hpayload) (List.mem_cons_of_mem _ hw)
  rw [(branch_ok h.code).1] at hslice
  refine hookBranches_throws hmem fun offset hoffset hstolen ↦ hfresh ?_
  rw [hc.same_offset (hookBranch_ok h.ok).1 hoffset, hslice] at hstolen
  rw [h.code, hstolen]

end

/-! ### Where the cave is in one section -/

variable (hsection : ∃ s ∈ sectionTable base, ∀ rva, SiteHolds (caveSite patch) rva → s.Holds rva)
include hsection

/-- Addresses in the cave are as far apart in the file as in memory. -/
theorem Call.cave_offset {caveOffset : Nat}
    (hoffset : fileOffset patch.caveRVA base "cave" patch = .ok caveOffset) {rva : Int}
    (hrva : SiteHolds (writeSite patch.payloadRVA payload) rva) {s : Section}
    (hs : s ∈ sectionTable base) (hholds : s.Holds rva) :
    s.offset rva = caveOffset + (rva - patch.caveRVA).toNat ∧
      (rva - patch.caveRVA).toNat < patch.caveSize.toNat := by
  have hpe := hc.wrote.pe
  have hin := hc.in_cave hrva
  have hlo : patch.caveRVA ≤ rva := hin.1
  have hhi : rva < patch.caveRVA + patch.caveSize := hin.2
  have hstart : SiteHolds (caveSite patch) patch.caveRVA := by
    constructor
    · exact le_refl patch.caveRVA
    · show patch.caveRVA < patch.caveRVA + patch.caveSize
      omega
  obtain ⟨c, hmem, hcave⟩ := hsection
  obtain ⟨t, ht, -, -, htc, heq⟩ := fileOffset_ok hoffset
  obtain rfl := hpe.section_unique ht hmem htc (hcave _ hstart)
  obtain rfl := hpe.section_unique hs hmem hholds (hcave _ hin)
  constructor
  · rw [heq, ← Section.offset_add htc.1]
    congr 1
    omega
  · omega

/-- The payload's place in the cave, and the padding it finds there. -/
theorem Call.cave_slice : ∃ caveOffset, fileOffset patch.caveRVA base "cave" patch = .ok caveOffset ∧
    payloadOffset = caveOffset + (patch.payloadRVA - patch.caveRVA).toNat ∧
      (patch.payloadRVA - patch.caveRVA).toNat + payload.length ≤ patch.caveSize.toNat ∧
        ∀ b ∈ slice base caveOffset patch.caveSize.toNat, b = patch.cavePad := by
  obtain ⟨caveOffset, hcave, hoffset, hlo, hhi, hpad⟩ := checkCave_ok hc.check
  obtain ⟨s, hs, -, -, hholds, heq⟩ := fileOffset_ok hoffset
  have hlen : 0 < payload.length := List.length_pos_of_ne_nil hc.ne
  have hstart : SiteHolds (writeSite patch.payloadRVA payload) patch.payloadRVA := by
    constructor
    · exact le_refl patch.payloadRVA
    · show patch.payloadRVA < patch.payloadRVA + (payload.length : Int)
      omega
  obtain ⟨hplace, -⟩ := hc.cave_offset hsection hcave hstart hs hholds
  exact ⟨caveOffset, hcave, heq.trans hplace, by omega, hpad⟩

/-- The payload goes over cave padding only. -/
theorem Call.overwrites {i : Nat} (hi : BehindSite out (writeSite patch.payloadRVA payload) i) :
    base[i]? = some patch.cavePad := by
  obtain ⟨caveOffset, hoffset, -, -, hpad⟩ := hc.cave_slice hsection
  obtain ⟨rva, hrva, s, hs, hback, rfl⟩ := hi
  rw [← hc.wrote.table_eq] at hs
  obtain ⟨heq, hlt⟩ := hc.cave_offset hsection hoffset hrva hs hback.holds
  have hlen := hc.wrote.pe.inFile s hs _ hback.rawHolds
  obtain ⟨b, hbyte⟩ : ∃ b, base[s.offset rva]? = some b := ⟨_, List.getElem?_eq_getElem hlen⟩
  rw [heq, ← slice_getElem? _ _ hlt] at hbyte
  rw [heq, ← slice_getElem? _ _ hlt, hbyte, hpad _ (List.mem_of_getElem? hbyte)]

/-- A payload byte that is no padding keeps the cave from passing for empty. -/
theorem Call.check_again (hhooks : ∀ hook ∈ patch.hooks, SiteBacked base (hookSite hook))
    (hpayload : SiteBacked base (writeSite patch.payloadRVA payload))
    (hfresh : ∃ b ∈ payload, b ≠ patch.cavePad) (payload' : Bytes) :
    Throws (checkCave patch out payload') := by
  obtain ⟨b, hb, hbne⟩ := hfresh
  obtain ⟨caveOffset, hoffset, hplace, hroom, -⟩ := hc.cave_slice hsection
  refine checkCave_throws fun offset hagain hpad ↦ hbne (hpad b ?_)
  rw [hc.same_offset hoffset hagain]
  have hslice : slice out payloadOffset payload.length = payload :=
    hc.wrote.slice_eq (hc.apart hhooks hpayload) List.mem_cons_self
  rw [hplace, ← slice_slice hroom] at hslice
  rw [← hslice] at hb
  exact List.mem_of_mem_drop (List.mem_of_mem_take hb)

/-- Padding over padding and branches over themselves leave the image as it is. -/
theorem Call.unchanged_of_stale (hpayload : ∀ b ∈ payload, b = patch.cavePad)
    (hhooks : ∀ hook ∈ patch.hooks, branch patch hook.rva hook.stolen.length = .ok hook.stolen) :
    out = base := by
  obtain ⟨caveOffset, -, hplace, hroom, hpad⟩ := hc.cave_slice hsection
  rw [hc.wrote.out_eq]
  refine spliceAll_eq_self hc.wrote.bounds fun w hmem ↦ ?_
  rcases List.mem_cons.mp hmem with rfl | hmem
  · have hbound := hc.wrote.bounds _ List.mem_cons_self
    have hpadding : ∀ b ∈ slice base payloadOffset payload.length, b = patch.cavePad := by
      rw [hplace, ← slice_slice hroom]
      intro b hb
      exact hpad b (List.mem_of_mem_drop (List.mem_of_mem_take hb))
    have hstands := List.eq_replicate_of_mem hpadding
    rw [slice_length hbound] at hstands
    show slice base payloadOffset payload.length = payload
    rw [hstands]
    exact (List.eq_replicate_of_mem hpayload).symm
  · obtain ⟨hook, -, hhook⟩ := exists_of_forall₂ hc.hooks.flip hmem
    obtain ⟨-, hstolen, hcode⟩ := hookBranch_ok hhook.ok
    have hsame : w.2 = hook.stolen := Except.ok.inj (hcode.symm.trans (hhooks hook hhook.mem))
    rw [hsame]
    exact hstolen

end

end NotProton.NtdllPatcher
