import NotProton.Resolver.Anchor
import NotProton.Resolver.Aob

/-!
# Signatures — the addresses of a module's signatures (`resolver.c`)

An entry has an anchor, a byte pattern, or both.  The pattern stands in where the anchor gives nothing, and what it
finds has to look like a place for the hook.  `np_locate_anchor` is the variable `locate`.
-/

open NotProton.Library NotProton.Core

namespace NotProton.Resolver

/-- `np_sig_entry_t` -/
structure SigEntry where
  name : Bytes
  module : Bytes
  aobHex : Bytes
  deprecated : Bool
  optional : Bool
  matchOffset : Int
  anchor : NpAnchor

/-- `np_resolved_t` -/
structure Resolved where
  name : Bytes
  site : Nat
  deriving DecidableEq

/-- `np_resolve_result_t`, with the number that is returned. -/
structure Resolution where
  items : List Resolved
  resolved : Nat

/-- An image with its `__TEXT`, where it has one. -/
structure TextImage extends LoadedImage where
  text : Option CodeRegion
  text_found : npFindSegment mh slide (ascii "__TEXT") = text.map fun r ↦ (r.base, r.bytes.length)
  text_held : ∀ r ∈ text, mem.Holds r.base r.bytes

def prologueForms : List (Nat × Nat) :=
  [(0xFF0003FF, 0xD10003FF), (0xFFC07FFF, 0xA9007BFD), (0xFFC07FFF, 0xA9807BFD), (0xFFFFFFFF, 0xD503237F),
    (0xFFFFFFFF, 0x910003FD), (0xFFC003E0, 0xA98003E0), (0xFFC003E0, 0xA90003E0)]

def npLooksLikePrologue (image : LoadedImage) (addr : Nat) : Bool :=
  if addr = 0 then false
  else prologueForms.any fun form ↦ image.word addr &&& form.1 == form.2

def usableCodeAddress (text : CodeRegion) (addr : Nat) : Bool :=
  if addr &&& 3 ≠ 0 then false
  else if addr < text.base ∨ (text.base + text.bytes.length + 2 ^ 64 - 4) % 2 ^ 64 < addr then false
  else true

def npAobSite (text : CodeRegion) (sig : SigEntry) : Nat :=
  if cString sig.aobHex = [] then 0
  else if text.bytes.length < 4 then 0
  else
    match npCompilePattern sig.aobHex with
    | none => 0
    | some pat =>
        let hit := npScanSoleMatch text pat
        if hit = 0 then 0
        else
          let site := ((hit - sig.matchOffset) % 2 ^ 64).toNat
          if usableCodeAddress text site = false then 0 else site

def anchorTargetsFunctionEntry : MatchKind → Bool
  | .string => true
  | .vtableSlot => true
  | .callTarget => true
  | .calls => true
  | .rttiSlot => true
  | .none => false
  | .insnAfterString => false
  | .insnPairInFn => false
  | .aob => false

def aobSitePlausible (image : LoadedImage) (sig : SigEntry) (addr : Nat) : Bool :=
  let bounds := image.functionBounds addr
  if anchorTargetsFunctionEntry sig.anchor.kind = false then bounds.isSome
  else
    match bounds with
    | some (start, _) => if start ≠ addr then false else true
    | none => if npLooksLikePrologue image addr = false then false else true

def npRequiredForModule (sigs : List SigEntry) (module : Bytes) : Nat :=
  sigs.foldl (fun n sig ↦
    if sig.deprecated = false ∧ sig.optional = false ∧ cString sig.module = cString module then n + 1 else n) 0

section

variable (locate : NpAnchor → Nat)

def tryAnchor (image : LoadedImage) (text : CodeRegion) (sig : SigEntry) : Nat :=
  if sig.anchor.kind = .aob then
    let addr := npAobSite text sig
    if addr = 0 then 0
    else if aobSitePlausible image sig addr = false then 0
    else addr
  else
    let addr := if sig.anchor.kind ≠ .none then locate sig.anchor else 0
    let alt := npAobSite text sig
    if addr = 0 then
      if alt = 0 then 0
      else if aobSitePlausible image sig alt = false then 0
      else alt
    else addr

/-- The loop of `np_resolve_signatures`. -/
def resolveLoop (image : LoadedImage) (text : CodeRegion) (module : Bytes) : List SigEntry → Resolution → Resolution
  | [], out => out
  | sig :: sigs, out =>
      if cString sig.module ≠ cString module then resolveLoop image text module sigs out
      else if sig.deprecated then
        resolveLoop image text module sigs { out with items := out.items ++ [⟨sig.name, 0⟩] }
      else
        let addr := tryAnchor locate image text sig
        let addr := if addr ≠ 0 ∧ usableCodeAddress text addr = false then 0 else addr
        let resolved :=
          if sig.optional then out.resolved else if addr ≠ 0 then out.resolved + 1 else out.resolved
        resolveLoop image text module sigs ⟨out.items ++ [⟨sig.name, addr⟩], resolved⟩

def npResolveSignatures (image : TextImage) (sigs : List SigEntry) (module : Bytes) : Resolution :=
  match image.text with
  | none => ⟨[], 0⟩
  | some text => resolveLoop locate image.toLoadedImage text module sigs ⟨[], 0⟩

end

/-! ## What an item is -/

/-- The entries of a module, in order. -/
def entriesOf (sigs : List SigEntry) (module : Bytes) : List SigEntry :=
  sigs.filter fun sig ↦ cString sig.module == cString module

/-- A whole instruction of `__TEXT`. -/
def InText (text : CodeRegion) (addr : Nat) : Prop :=
  addr % 4 = 0 ∧ text.base ≤ addr ∧ addr + 4 ≤ text.base + text.bytes.length

/-- What the anchor of an entry gives: two of the kinds have none to locate. -/
def anchorAddress (locate : NpAnchor → Nat) (sig : SigEntry) : Nat :=
  if sig.anchor.kind = .none ∨ sig.anchor.kind = .aob then 0 else locate sig.anchor

/-- The sole match of the byte pattern, less the offset. -/
def PatternSite (text : CodeRegion) (sig : SigEntry) (addr : Nat) : Prop :=
  ∃ pat pos, npCompilePattern sig.aobHex = some pat ∧ SoleMatch text pat pos ∧
    (addr : Int) = ((text.base + pos : Nat) - sig.matchOffset) % 2 ^ 64

/-- The place fits the kind of the anchor: a function's start, or inside a function. -/
def FitsKind (image : LoadedImage) (kind : MatchKind) (addr : Nat) : Prop :=
  if anchorTargetsFunctionEntry kind then
    (∃ fin, image.functionBounds addr = some (addr, fin)) ∨
      (image.functionBounds addr = none ∧ npLooksLikePrologue image addr = true)
  else ∃ start fin, image.functionBounds addr = some (start, fin) ∧ start ≤ addr ∧ addr < fin

/-! ## Sites -/

section

variable {image : LoadedImage} {text : CodeRegion} {sig : SigEntry} {addr : Nat}

theorem usableCodeAddress_iff (hsize : 4 ≤ text.bytes.length) :
    usableCodeAddress text addr = true ↔ InText text addr := by
  have hfits := text.fits
  have hlast : (text.base + text.bytes.length + 2 ^ 64 - 4) % 2 ^ 64 = text.base + text.bytes.length - 4 := by omega
  have hlow : addr &&& 3 = addr % 4 := Nat.and_two_pow_sub_one_eq_mod addr 2
  unfold usableCodeAddress InText
  rw [hlast, hlow]
  split
  · apply iff_of_false nofun
    omega
  · split
    · apply iff_of_false nofun
      omega
    · apply iff_of_true rfl
      omega

/-- The scan finds a place only where it is the one that matches. -/
theorem soleMatch_of_scan {pat : BytePattern} (h : npScanSoleMatch text pat ≠ 0) :
    ∃ pos, SoleMatch text pat pos ∧ npScanSoleMatch text pat = text.base + pos := by
  have hconcrete : 0xFF ∈ pat.mask := by
    by_contra hno
    have hnone : concreteByte pat = none := by
      unfold concreteByte
      rw [List.findIdx?_eq_none_iff.mpr]
      intro m hm
      exact beq_eq_false_iff_ne.mpr fun hff ↦ hno (hff ▸ hm)
    apply h
    unfold npScanSoleMatch
    rw [hnone]
    exact ite_self 0
  obtain ⟨hfound, hzero⟩ := npScanSoleMatch_spec text pat hconcrete
  have hsome : ∃ pos, SoleMatch text pat pos := by
    by_contra hno
    exact h (hzero.mpr fun pos hpos ↦ hno ⟨pos, hpos⟩)
  obtain ⟨pos, hpos⟩ := hsome
  exact ⟨pos, hpos, (hfound pos).mpr hpos⟩

theorem npAobSite_spec (h : npAobSite text sig = addr) (hne : addr ≠ 0) : PatternSite text sig addr := by
  unfold npAobSite at h
  split at h
  · exact absurd h.symm hne
  · split at h
    · exact absurd h.symm hne
    · split at h
      · exact absurd h.symm hne
      · rename_i pat hpat
        simp only at h
        split at h
        · exact absurd h.symm hne
        · rename_i hhit
          split at h
          · exact absurd h.symm hne
          · obtain ⟨pos, hpos, hscan⟩ := soleMatch_of_scan hhit
            refine ⟨pat, pos, hpat, hpos, ?_⟩
            rw [← h, hscan, Int.toNat_of_nonneg (Int.emod_nonneg _ (by decide))]

theorem aobSitePlausible_iff : aobSitePlausible image sig addr = true ↔ FitsKind image sig.anchor.kind addr := by
  unfold aobSitePlausible FitsKind
  cases anchorTargetsFunctionEntry sig.anchor.kind with
  | false =>
    rw [if_pos rfl, if_neg Bool.false_ne_true]
    cases hbounds : image.functionBounds addr with
    | none => exact iff_of_false nofun nofun
    | some f => exact iff_of_true rfl ⟨f.1, f.2, rfl, LoadedImage.functionBounds_around hbounds⟩
  | true =>
    rw [if_neg (Ne.symm Bool.false_ne_true), if_pos rfl]
    cases hbounds : image.functionBounds addr with
    | none => cases hlooks : npLooksLikePrologue image addr <;> simp
    | some f =>
      obtain ⟨start, fin⟩ := f
      by_cases hstart : start = addr <;> simp [hstart]

variable {locate : NpAnchor → Nat}

/-- A pattern's site that is taken. -/
theorem pattern_taken
    (h : (if npAobSite text sig = 0 then 0
      else if aobSitePlausible image sig (npAobSite text sig) = false then 0 else npAobSite text sig) = addr)
    (hne : addr ≠ 0) : PatternSite text sig addr ∧ FitsKind image sig.anchor.kind addr := by
  by_cases hsite : npAobSite text sig = 0
  · rw [if_pos hsite] at h
    exact absurd h.symm hne
  · rw [if_neg hsite] at h
    cases hfits : aobSitePlausible image sig (npAobSite text sig) with
    | false =>
      rw [hfits, if_pos rfl] at h
      exact absurd h.symm hne
    | true =>
      rw [hfits, if_neg (Ne.symm Bool.false_ne_true)] at h
      exact ⟨npAobSite_spec h hne, aobSitePlausible_iff.mp (h ▸ hfits)⟩

/-- An address comes from the anchor, or from the pattern where the anchor gives none. -/
theorem tryAnchor_spec (h : tryAnchor locate image text sig = addr) (hne : addr ≠ 0) :
    addr = anchorAddress locate sig ∨
      (anchorAddress locate sig = 0 ∧ PatternSite text sig addr ∧ FitsKind image sig.anchor.kind addr) := by
  unfold tryAnchor at h
  unfold anchorAddress
  by_cases haob : sig.anchor.kind = .aob
  · rw [if_pos haob] at h
    rw [if_pos (.inr haob)]
    exact .inr ⟨rfl, pattern_taken h hne⟩
  · rw [if_neg haob] at h
    have hgives : (if sig.anchor.kind ≠ .none then locate sig.anchor else 0) =
        if sig.anchor.kind = .none ∨ sig.anchor.kind = .aob then 0 else locate sig.anchor := by
      by_cases hnone : sig.anchor.kind = .none
      · rw [if_neg (not_not.mpr hnone), if_pos (.inl hnone)]
      · rw [if_pos hnone, if_neg (by tauto)]
    simp only [hgives] at h
    generalize (if sig.anchor.kind = .none ∨ sig.anchor.kind = .aob then 0 else locate sig.anchor) = gives at h ⊢
    by_cases hzero : gives = 0
    · rw [if_pos hzero] at h
      exact .inr ⟨hzero, pattern_taken h hne⟩
    · rw [if_neg hzero] at h
      exact .inl h.symm

/-! ## The run -/

/-- The item of an entry. -/
def itemOf (locate : NpAnchor → Nat) (image : LoadedImage) (text : CodeRegion) (sig : SigEntry) : Resolved :=
  let addr := tryAnchor locate image text sig
  ⟨sig.name, if sig.deprecated = true ∨ (addr ≠ 0 ∧ usableCodeAddress text addr = false) then 0 else addr⟩

/-- An entry that has to resolve. -/
def SigEntry.Required (sig : SigEntry) : Bool := !sig.deprecated && !sig.optional

def Hooked (locate : NpAnchor → Nat) (image : LoadedImage) (text : CodeRegion) (sig : SigEntry) : Bool :=
  sig.Required && (itemOf locate image text sig).site != 0

/-- What a whole run leaves: an item for each entry of the module, and the number of required ones that have an address. -/
theorem resolveLoop_eq (module : Bytes) (sigs : List SigEntry) (out : Resolution) :
    resolveLoop locate image text module sigs out =
      ⟨out.items ++ (entriesOf sigs module).map (itemOf locate image text),
        out.resolved + (entriesOf sigs module).countP (Hooked locate image text)⟩ := by
  induction sigs generalizing out with
  | nil => simp only [resolveLoop, entriesOf, List.filter_nil, List.map_nil, List.append_nil, List.countP_nil, Nat.add_zero]
  | cons sig sigs ih =>
    rw [resolveLoop]
    by_cases hmodule : cString sig.module = cString module
    · have hentries : entriesOf (sig :: sigs) module = sig :: entriesOf sigs module :=
        List.filter_cons_of_pos (beq_iff_eq.mpr hmodule)
      rw [if_neg (not_not.mpr hmodule), hentries, List.map_cons, List.countP_cons,
        List.append_cons out.items (itemOf locate image text sig)]
      -- A deprecated entry has its item, with no address, and is not counted.
      cases hdeprecated : sig.deprecated with
      | true =>
        have hitem : itemOf locate image text sig = ⟨sig.name, 0⟩ := by rw [itemOf, if_pos (.inl hdeprecated)]
        have hno : Hooked locate image text sig = false := by
          rw [Hooked, SigEntry.Required, hdeprecated]
          rfl
        rw [if_pos rfl, ih, hitem, hno, if_neg Bool.false_ne_true, Nat.add_zero]
      | false =>
        have hitem : itemOf locate image text sig =
            ⟨sig.name, if tryAnchor locate image text sig ≠ 0 ∧
              usableCodeAddress text (tryAnchor locate image text sig) = false then 0
              else tryAnchor locate image text sig⟩ := by
          rw [itemOf, hdeprecated]
          simp only [Bool.false_eq_true, false_or]
        have hhooked : Hooked locate image text sig =
            (!sig.optional && (itemOf locate image text sig).site != 0) := by
          rw [Hooked, SigEntry.Required, hdeprecated, Bool.not_false, Bool.true_and]
        rw [if_neg Bool.false_ne_true, ih, hhooked, hitem]
        simp only [Resolution.mk.injEq]
        generalize (if tryAnchor locate image text sig ≠ 0 ∧
          usableCodeAddress text (tryAnchor locate image text sig) = false then 0
          else tryAnchor locate image text sig) = addr
        rw [true_and]
        cases sig.optional with
        | true => simp
        | false =>
          by_cases haddr : addr = 0
          · simp [haddr]
          · simp [haddr]
            omega
    · have hentries : entriesOf (sig :: sigs) module = entriesOf sigs module :=
        List.filter_cons_of_neg (by rw [beq_iff_eq]; exact hmodule)
      rw [if_pos hmodule, hentries, ih]

theorem npRequiredForModule_eq (sigs : List SigEntry) (module : Bytes) :
    npRequiredForModule sigs module = (entriesOf sigs module).countP SigEntry.Required := by
  have hfold (n : Nat) : sigs.foldl (fun n sig ↦
      if sig.deprecated = false ∧ sig.optional = false ∧ cString sig.module = cString module then n + 1 else n) n =
      n + (entriesOf sigs module).countP SigEntry.Required := by
    induction sigs generalizing n with
    | nil => rfl
    | cons sig sigs ih =>
      rw [List.foldl_cons, ih]
      by_cases hmodule : cString sig.module = cString module
      · have hentries : entriesOf (sig :: sigs) module = sig :: entriesOf sigs module :=
          List.filter_cons_of_pos (beq_iff_eq.mpr hmodule)
        rw [hentries, List.countP_cons]
        cases hdeprecated : sig.deprecated <;> cases hoptional : sig.optional <;>
          simp [hmodule, SigEntry.Required, hdeprecated, hoptional]
        omega
      · have hentries : entriesOf (sig :: sigs) module = entriesOf sigs module :=
          List.filter_cons_of_neg (by rw [beq_iff_eq]; exact hmodule)
        rw [hentries, if_neg fun h ↦ hmodule h.2.2]
  rw [npRequiredForModule, hfold, Nat.zero_add]

end

/-- Where a non-zero address of an entry comes from. -/
def Justified (locate : NpAnchor → Nat) (image : LoadedImage) (text : CodeRegion) (sig : SigEntry) (addr : Nat) : Prop :=
  InText text addr ∧
    (addr = anchorAddress locate sig ∨
      (anchorAddress locate sig = 0 ∧ PatternSite text sig addr ∧ FitsKind image sig.anchor.kind addr))

theorem itemOf_justified {locate : NpAnchor → Nat} {image : LoadedImage} {text : CodeRegion} {sig : SigEntry}
    (hsize : 4 ≤ text.bytes.length) (h : (itemOf locate image text sig).site ≠ 0) :
    Justified locate image text sig (itemOf locate image text sig).site := by
  unfold itemOf at h ⊢
  simp only at h ⊢
  split at h
  · exact absurd rfl h
  · rename_i htaken
    rw [if_neg htaken]
    have husable : usableCodeAddress text (tryAnchor locate image text sig) = true := by
      by_contra hno
      exact htaken (.inr ⟨h, eq_false_of_ne_true hno⟩)
    exact ⟨(usableCodeAddress_iff hsize).mp husable, tryAnchor_spec rfl h⟩

theorem countP_eq_countP_iff {α : Type} {p q : α → Bool} {l : List α} (himp : ∀ a ∈ l, p a = true → q a = true) :
    l.countP p = l.countP q ↔ ∀ a ∈ l, q a = true → p a = true := by
  induction l with
  | nil => exact iff_of_true rfl nofun
  | cons a l ih =>
    have hle : l.countP p ≤ l.countP q := List.countP_mono_left fun b hb ↦ himp b (List.mem_cons_of_mem a hb)
    have hrest := ih fun b hb ↦ himp b (List.mem_cons_of_mem a hb)
    have hhead := himp a List.mem_cons_self
    rw [List.countP_cons, List.countP_cons, List.forall_mem_cons, ← hrest]
    cases hp : p a <;> cases hq : q a <;> simp_all
    omega

/-- The addresses of a module: an item for each entry, in order, whatever the order; the number that decides whether the
hooks go in; and where each address comes from. -/
theorem npResolveSignatures_spec (locate : NpAnchor → Nat) (image : TextImage) (sigs : List SigEntry) (module : Bytes)
    (text : CodeRegion) (htext : image.text = some text) (hsize : 4 ≤ text.bytes.length) :
    (npResolveSignatures locate image sigs module).items.map Resolved.name = (entriesOf sigs module).map SigEntry.name ∧
      ((npResolveSignatures locate image sigs module).resolved = npRequiredForModule sigs module ↔
        ∀ p ∈ (entriesOf sigs module).zip (npResolveSignatures locate image sigs module).items,
          p.1.deprecated = false → p.1.optional = false → p.2.site ≠ 0) ∧
      (∀ sigs', sigs.Perm sigs' →
        ((entriesOf sigs module).zip (npResolveSignatures locate image sigs module).items).Perm
            ((entriesOf sigs' module).zip (npResolveSignatures locate image sigs' module).items) ∧
          (npResolveSignatures locate image sigs' module).resolved =
            (npResolveSignatures locate image sigs module).resolved) ∧
      ∀ p ∈ (entriesOf sigs module).zip (npResolveSignatures locate image sigs module).items,
        p.2.site ≠ 0 → Justified locate image.toLoadedImage text p.1 p.2.site := by
  have hrun (sigs : List SigEntry) : npResolveSignatures locate image sigs module =
      ⟨(entriesOf sigs module).map (itemOf locate image.toLoadedImage text),
        (entriesOf sigs module).countP (Hooked locate image.toLoadedImage text)⟩ := by
    rw [npResolveSignatures, htext]
    simp only [resolveLoop_eq, List.nil_append, Nat.zero_add]
  have hzip (sigs : List SigEntry) :
      (entriesOf sigs module).zip (npResolveSignatures locate image sigs module).items =
        (entriesOf sigs module).map fun sig ↦ (sig, itemOf locate image.toLoadedImage text sig) := by
    have hboth := List.zip_map' (f := id) (g := itemOf locate image.toLoadedImage text) (l := entriesOf sigs module)
    rw [List.map_id] at hboth
    rw [hrun]
    exact hboth
  refine ⟨?_, ?_, ?_, ?_⟩
  · rw [hrun, List.map_map]
    rfl
  · rw [hzip, hrun, npRequiredForModule_eq, List.forall_mem_map]
    -- The number counts the required entries with an address, so it is theirs only if all have one.
    have hrequired : ∀ sig ∈ entriesOf sigs module, Hooked locate image.toLoadedImage text sig = true → sig.Required = true :=
      fun sig _ hhooked ↦ (Bool.and_eq_true_iff.mp hhooked).1
    rw [countP_eq_countP_iff hrequired]
    apply forall₂_congr
    intro sig _
    unfold Hooked SigEntry.Required
    cases sig.deprecated <;> cases sig.optional <;> simp
  · intro sigs' hperm
    have hentries : (entriesOf sigs module).Perm (entriesOf sigs' module) := hperm.filter _
    rw [hzip, hzip, hrun, hrun]
    exact ⟨hentries.map _, (hentries.countP_eq _).symm⟩
  · rw [hzip, List.forall_mem_map]
    intro sig _ hne
    exact itemOf_justified hsize hne

/-- The second of four instructions is a prologue. -/
def fourWordBytes : Bytes := [0xC0, 0x03, 0x5F, 0xD6, 0xFD, 0x7B, 0xBF, 0xA9, 0x1F, 0x20, 0x03, 0xD5, 0xC0, 0x03, 0x5F, 0xD6]

def fourWordText : CodeRegion := ⟨0x1000, fourWordBytes, by decide, by decide, by decide⟩

/-- An image with four instructions of `__TEXT` and no function starts. -/
def fourWords : TextImage where
  mh :=
    { address := 0x1000
      ncmds := 1
      commands :=
        leBytes 4 lcSegment64 ++ leBytes 4 72 ++ (ascii "__TEXT" ++ List.replicate 10 0) ++ leBytes 8 0x1000 ++
          leBytes 8 16 ++ List.replicate 32 0 }
  slide := 0
  mem := Memory.ofPieces [(0x1000, fourWordBytes)] (by decide) (by decide)
  starts_mapped := by
    intro p size htable
    rw [show fnStartsTable _ 0 = none by decide] at htable
    cases htable
  text := some fourWordText
  text_found := by decide
  text_held := by
    intro r hr
    obtain rfl := Option.some.inj hr
    refine ⟨?_, ?_, ?_, ?_, ?_, ?_, ?_, ?_, ?_, ?_, ?_, ?_, ?_, ?_, ?_, ?_, trivial⟩ <;> decide

/-- An entry whose anchor gives an address, and one whose anchor gives none but has the bytes of the prologue. -/
def anchoredEntry : SigEntry := ⟨ascii "a", ascii "m", [], false, false, 0, { kind := .string }⟩

def patternEntry : SigEntry := ⟨ascii "b", ascii "m", ascii "C0 ?? 5F D6 FD 7B BF A9", false, false, -4, { kind := .calls }⟩

/-- Two modules, with a deprecated entry and an optional one that has nothing to go by. -/
def fiveEntries : List SigEntry :=
  [anchoredEntry, ⟨ascii "x", ascii "n", [], false, false, 0, { kind := .calls }⟩, patternEntry,
    ⟨ascii "c", ascii "m", ascii "FD 7B BF A9", true, false, 0, { kind := .calls }⟩,
    -- two places match
    ⟨ascii "d", ascii "m", ascii "C0 03 5F D6", false, true, 0, { kind := .none }⟩]

def locateStrings (anchor : NpAnchor) : Nat := if anchor.kind = .string then 0x100C else 0

theorem fiveEntries_items : (npResolveSignatures locateStrings fourWords fiveEntries (ascii "m")).items =
    [⟨ascii "a", 0x100C⟩, ⟨ascii "b", 0x1004⟩, ⟨ascii "c", 0⟩, ⟨ascii "d", 0⟩] := by decide

/-- The pattern stands in for the anchor of the second entry, and the hooks go in though the last one has no address. -/
theorem npResolveSignatures_spec_five :
    (npResolveSignatures locateStrings fourWords fiveEntries (ascii "m")).resolved = npRequiredForModule fiveEntries (ascii "m") ∧
      PatternSite fourWordText patternEntry 0x1004 ∧ FitsKind fourWords.toLoadedImage .calls 0x1004 := by
  have hspec := npResolveSignatures_spec locateStrings fourWords fiveEntries (ascii "m") fourWordText rfl (by decide)
  obtain ⟨-, hresolved, -, hjustified⟩ := hspec
  rw [fiveEntries_items] at hresolved hjustified
  apply And.intro
  · exact hresolved.mpr (by decide)
  · have hitem := hjustified (patternEntry, ⟨ascii "b", 0x1004⟩) (List.mem_cons_of_mem _ List.mem_cons_self) (by decide)
    obtain hanchor | ⟨-, hpattern, hfits⟩ := hitem.2
    · exact absurd hanchor (by decide)
    · exact ⟨hpattern, hfits⟩

end NotProton.Resolver
