import Mathlib.Data.List.Forall2
import NotProton.Library.Lists
import NotProton.Core.LoadedImage

/-!
# Anchor — the function that makes a list of calls (`anchor.c`)

A call-shape anchor names the calls of a function.  The search goes from call to call of the first of them, to the
function around each.  A decoder says 0 for "no such instruction", which is also what it says for a target at 0.
-/

open NotProton.Library NotProton.Core

namespace NotProton.Resolver

/-- `np_match_kind_t` -/
inductive MatchKind
  | none
  | string
  | vtableSlot
  | insnAfterString
  | insnPairInFn
  | aob
  | callTarget
  | calls
  | rttiSlot
  deriving DecidableEq

/-- `np_insn_pair_t` -/
structure InsnPair where
  first : Nat := 0
  firstMask : Nat := 0
  second : Nat := 0
  secondMask : Nat := 0
  tieMask : Nat := 0
  landOnSecond : Bool := false

/-- `np_anchor_t`, its texts those before the NUL. -/
structure NpAnchor where
  kind : MatchKind
  str : Bytes := []
  va : Nat := 0
  insn : Nat := 0
  insnMask : Nat := 0
  nth : Int := 0
  nthXref : Int := 0
  pair : InsnPair := {}
  indirect : Bool := false
  callerHops : Int := 0
  callerTail : Bool := false
  callPath : List Int := []
  calls : List Bytes := []
  callsExact : Bool := false
  noDataRefs : Bool := false
  slot : Int := 0

/-! ## Instructions -/

/-- The page an `ADRP` at `pc` loads. -/
def adrpPage (pc w : Nat) : Nat :=
  let lo := (w >>> 29) &&& 3
  let hi := (w >>> 5) &&& 0x7FFFF
  let raw := (hi <<< 2) ||| lo
  let imm : Int := ((raw ^^^ 0x100000 : Nat) : Int) - 0x100000
  (((pc - pc % 0x1000 : Nat) + imm * 0x1000) % 2 ^ 64).toNat

def IsAdrp (w : Nat) : Bool := w &&& 0x9F000000 == 0x90000000

/-- `adrp_target`; its register is the low five bits. -/
def adrpTarget (pc w : Nat) : Nat := if IsAdrp w then adrpPage pc w else 0

/-- `ldr_slot_addr` -/
def ldrSlotAddr (w expectedRn page : Nat) : Nat :=
  if w &&& 0xFFC00000 ≠ 0xF9400000 then 0
  else if (w >>> 5) &&& 0x1F ≠ expectedRn then 0
  else
    let imm12 := (w >>> 10) &&& 0xFFF
    (page + imm12 * 8) % 2 ^ 64

/-- Where a branch at `pc` goes. -/
def branch26 (pc w : Nat) : Nat :=
  let raw := w &&& 0x03FFFFFF
  let imm : Int := ((raw ^^^ 0x2000000 : Nat) : Int) - 0x2000000
  ((pc + imm * 4) % 2 ^ 64).toNat

def IsBl (w : Nat) : Bool := w &&& 0xFC000000 == 0x94000000

/-- `bl_target` -/
def blTarget (pc w : Nat) : Nat := if IsBl w then branch26 pc w else 0

/-- `BLR` and its signed forms. -/
def isIndirectCall (w : Nat) : Bool := w &&& 0xFEFFF000 == 0xD63F0000

/-! ## Stubs and their names -/

def read64 (mem : Nat → UInt8) (a : Nat) : Nat := leNat ((List.range 8).map fun i ↦ mem ((a + i) % 2 ^ 64))

/-- `objc_stub_selector`, where the selector's name is. -/
def objcStubSelector (image : LoadedImage) (stub selrefs selrefsSize : Nat) : Option Nat :=
  if selrefsSize < 8 then none
  else
    let w := image.word stub
    let page := adrpTarget stub w
    if page = 0 then none
    else
      let slot := ldrSlotAddr (image.word ((stub + 4) % 2 ^ 64)) (w &&& 0x1F) page
      if slot = 0 ∨ slot < selrefs then none
      else if selrefsSize - 8 < slot - selrefs then none
      else if (slot - selrefs) % 8 ≠ 0 then none
      else
        let sel := read64 image.byte slot
        if sel = 0 then none else some sel

/-- `find_selrefs` -/
def findSelrefs (image : LoadedImage) : Option (Nat × Nat) :=
  npFindSection image.mh image.slide (ascii "__DATA_CONST") (ascii "__objc_selrefs") <|>
    npFindSection image.mh image.slide (ascii "__DATA") (ascii "__objc_selrefs")

def selectorIs (image : LoadedImage) (selrefs : Nat × Nat) (stub : Nat) (selector : Bytes) : Bool :=
  match objcStubSelector image stub selrefs.1 selrefs.2 with
  | none => false
  | some sel => strcmpEq image.byte sel selector

/-- The loop of `objc_stub_for_selector`. -/
def soleStub (carries : Nat → Bool) : List Nat → Nat → Nat
  | [], found => found
  | pc :: pcs, found =>
      if carries pc = false then soleStub carries pcs found
      else if found ≠ 0 then 0
      else soleStub carries pcs pc

def objcStubForSelector (image : LoadedImage) (selector : Bytes) : Nat :=
  match npFindSection image.mh image.slide (ascii "__TEXT") (ascii "__objc_stubs"), findSelrefs image with
  | some (stubs, stubsSize), some selrefs =>
      if stubsSize < 8 then 0
      else
        soleStub (selectorIs image selrefs · selector) ((List.range (stubsSize / 4 - 1)).map (stubs + 4 * ·)) 0
  | _, _ => 0

/-- `NP_SELECTOR_MARK` -/
def selectorMark : UInt8 := 64

def stubForName (image : LoadedImage) (name : Bytes) : Nat :=
  match name with
  | [] => npImportStubForSymbol image.mh image.slide image.byte []
  | c :: selector =>
      if c = selectorMark then objcStubForSelector image selector
      else npImportStubForSymbol image.mh image.slide image.byte name

/-- `stub_tables_t` -/
structure StubTables where
  objcBase : Nat
  objcSize : Nat
  selrefs : Nat × Nat

/-- `load_stub_tables`, `none` without `have_objc`. -/
def loadStubTables (image : LoadedImage) : Option StubTables :=
  match npFindSection image.mh image.slide (ascii "__TEXT") (ascii "__objc_stubs"), findSelrefs image with
  | some (base, size), some selrefs => some ⟨base, size, selrefs⟩
  | _, _ => none

/-- The import stub at `callee` carries the name. -/
def importIs (image : LoadedImage) (callee : Nat) (name : Bytes) : Bool :=
  match image.mh.loadCommands with
  | none => false
  | some cmds =>
      match loadSymbols cmds image.slide image.byte with
      | none => false
      | some syms =>
          match importStubSymbol cmds image.slide syms callee with
          | none => false
          | some sym => strcmpEq syms.strings sym name

def calleeIsNamed (image : LoadedImage) (tables : Option StubTables) (callee : Nat) (name : Bytes) : Bool :=
  match name with
  | [] => importIs image callee []
  | c :: selector =>
      if c = selectorMark then
        match tables with
        | none => false
        | some t =>
            if callee < t.objcBase then false
            else if (t.objcBase + t.objcSize) % 2 ^ 64 < (callee + 8) % 2 ^ 64 then false
            else selectorIs image t.selrefs callee selector
      else importIs image callee name

/-! ## The search -/

/-- The instructions from `fn` on that end by `fin`. -/
def instructions (fn fin : Nat) : List Nat := (List.range ((fin - fn) / 4)).map (fn + 4 * ·)

/-- `__TEXT`, where a call may land. -/
structure TextRange where
  base : Nat
  size : Nat
  base_pos : 0 < base
  fits : base + size < 2 ^ 64

/-- The loop of `body_matches_calls`. -/
def bodyLoop (image : LoadedImage) (text : TextRange) (tables : Option StubTables) (anchor : NpAnchor) :
    List Nat → Nat → Bool
  | [], wanted => wanted == anchor.calls.length
  | pc :: pcs, wanted =>
      let w := image.word pc
      if anchor.noDataRefs ∧ adrpTarget pc w ≠ 0 then false
      else if anchor.callsExact ∧ isIndirectCall w then false
      else
        let callee := blTarget pc w
        if callee = 0 then bodyLoop image text tables anchor pcs wanted
        else if callee < text.base ∨ text.base + text.size - 4 < callee then false
        else if (anchor.calls[wanted]?).any (calleeIsNamed image tables callee) then
          bodyLoop image text tables anchor pcs (wanted + 1)
        else if anchor.callsExact then false
        else bodyLoop image text tables anchor pcs wanted

def bodyMatchesCalls (image : LoadedImage) (fn fin : Nat) (text : TextRange) (tables : Option StubTables)
    (anchor : NpAnchor) : Bool :=
  bodyLoop image text tables anchor (instructions fn fin) 0

/-- The bounds lie in `__text`, on instructions. -/
def Usable (code codeEnd fn fin : Nat) : Prop := code ≤ fn ∧ fin ≤ codeEnd ∧ (fn ||| fin) &&& 3 = 0

instance (code codeEnd fn fin : Nat) : Decidable (Usable code codeEnd fn fin) := instDecidableAnd

/-- The loop of `sole_fn_by_calls`. -/
def callerLoop (image : LoadedImage) (text : TextRange) (tables : Option StubTables) (anchor : NpAnchor)
    (seed code codeEnd : Nat) : List Nat → Nat → Nat → Nat
  | [], found, _ => found
  | pc :: pcs, found, prevEnd =>
      if pc < prevEnd then callerLoop image text tables anchor seed code codeEnd pcs found prevEnd
      else if blTarget pc (image.word pc) ≠ seed then
        callerLoop image text tables anchor seed code codeEnd pcs found prevEnd
      else
        match image.functionBounds pc with
        | none => 0
        | some (fn, fin) =>
            if ¬ Usable code codeEnd fn fin then 0
            else if bodyMatchesCalls image fn fin text tables anchor = false then
              callerLoop image text tables anchor seed code codeEnd pcs found fin
            else if found ≠ 0 then 0
            else callerLoop image text tables anchor seed code codeEnd pcs fn fin

/-- `sole_fn_by_calls`, 0 for none. -/
def soleFnByCalls (image : LoadedImage) (text : TextRange) (anchor : NpAnchor) : Nat :=
  match anchor.calls with
  | [] => 0
  | first :: _ =>
      let seed := stubForName image first
      if seed = 0 then 0
      else
        match npFindSection image.mh image.slide (ascii "__TEXT") (ascii "__text") with
        | none => 0
        | some (code, codeSize) =>
            if code < text.base ∨ text.size < code - text.base ∨ text.size - (code - text.base) < codeSize then 0
            else
              let codeEnd := code + (codeSize - codeSize % 4)
              callerLoop image text (loadStubTables image) anchor seed code codeEnd (instructions code codeEnd) 0 0

/-! ## What the anchor says -/

section

variable (image : LoadedImage) (text : TextRange) (tables : Option StubTables) (anchor : NpAnchor)

/-- The targets of the direct calls among the instructions. -/
def directCalls (pcs : List Nat) : List Nat :=
  (pcs.filter fun pc ↦ IsBl (image.word pc)).map fun pc ↦ branch26 pc (image.word pc)

def Named (name : Bytes) (callee : Nat) : Prop := calleeIsNamed image tables callee name = true

/-- The shape of the anchor, with these names for its calls. -/
structure ShapeWith (names : List Bytes) (pcs : List Nat) : Prop where
  no_adrp : anchor.noDataRefs = true → ∀ pc ∈ pcs, IsAdrp (image.word pc) = false
  no_indirect : anchor.callsExact = true → ∀ pc ∈ pcs, isIndirectCall (image.word pc) = false
  lands : ∀ callee ∈ directCalls image pcs, text.base ≤ callee ∧ callee + 4 ≤ text.base + text.size
  whole : anchor.callsExact = true → List.Forall₂ (Named image tables) names (directCalls image pcs)
  in_order : List.SublistForall₂ (Named image tables) names (directCalls image pcs)

def HasShape (pcs : List Nat) : Prop := ShapeWith image text tables anchor anchor.calls pcs

/-- An instruction the decoders do not see: a call of the address 0, an `ADRP` of the page 0. -/
def targetsZero (pc : Nat) : Bool :=
  IsBl (image.word pc) && branch26 pc (image.word pc) == 0 ||
    anchor.noDataRefs && IsAdrp (image.word pc) && adrpPage pc (image.word pc) == 0

def seen (pcs : List Nat) : List Nat := pcs.filter fun pc ↦ !targetsZero image anchor pc

end

/-! ## One body -/

theorem and_of_and {w m v : Nat} (k : Nat) (h : w &&& m = v) : w &&& (m &&& k) = v &&& k := by
  rw [← h, Nat.and_assoc]

theorem not_isAdrp_of_isBl {w : Nat} (h : IsBl w = true) : IsAdrp w = false := by
  by_contra hadrp
  have hbl := and_of_and 0x04000000 (beq_iff_eq.mp h)
  have hzero := and_of_and 0x04000000 (beq_iff_eq.mp (eq_true_of_ne_false hadrp))
  exact absurd (hbl.symm.trans hzero) (by decide)

theorem not_isIndirectCall_of_isBl {w : Nat} (h : IsBl w = true) : isIndirectCall w = false := by
  by_contra hcall
  have hbl := and_of_and 0x40000000 (beq_iff_eq.mp h)
  have hone := and_of_and 0x40000000 (beq_iff_eq.mp (eq_true_of_ne_false hcall))
  exact absurd (hbl.symm.trans hone) (by decide)

theorem not_isIndirectCall_of_isAdrp {w : Nat} (h : IsAdrp w = true) : isIndirectCall w = false := by
  by_contra hcall
  have hzero := and_of_and 0x04000000 (beq_iff_eq.mp h)
  have hone := and_of_and 0x04000000 (beq_iff_eq.mp (eq_true_of_ne_false hcall))
  exact absurd (hzero.symm.trans hone) (by decide)

section

variable {image : LoadedImage} {text : TextRange} {tables : Option StubTables} {anchor : NpAnchor}

theorem directCalls_cons (pc : Nat) (pcs : List Nat) :
    directCalls image (pc :: pcs) =
      if IsBl (image.word pc) then branch26 pc (image.word pc) :: directCalls image pcs else directCalls image pcs := by
  unfold directCalls
  rw [List.filter_cons]
  split <;> rfl

theorem sublistForall₂_tail {α β : Type} {R : α → β → Prop} {a : α} {l : List α} {m : List β}
    (h : List.SublistForall₂ R (a :: l) m) : List.SublistForall₂ R l m := by
  obtain ⟨found, hfound, hsub⟩ := List.sublistForall₂_iff.mp h
  cases hfound with
  | cons _ hrest => exact List.sublistForall₂_iff.mpr ⟨_, hrest, (List.sublist_cons_self _ _).trans hsub⟩

/-- Taking the first callee that fits loses no ordered occurrence. -/
theorem sublistForall₂_cons_of {α β : Type} {R : α → β → Prop} {a : α} {b : β} {l : List α} {m : List β} (h : R a b) :
    List.SublistForall₂ R (a :: l) (b :: m) ↔ List.SublistForall₂ R l m := by
  apply Iff.intro
  · intro hsub
    cases hsub with
    | cons _ hrest => exact hrest
    | cons_right hrest => exact sublistForall₂_tail hrest
  · exact List.SublistForall₂.cons h

theorem sublistForall₂_cons_of_not {α β : Type} {R : α → β → Prop} {b : β} {l : List α} {m : List β}
    (h : ∀ a ∈ l.head?, ¬ R a b) : List.SublistForall₂ R l (b :: m) ↔ List.SublistForall₂ R l m := by
  apply Iff.intro
  · intro hsub
    cases hsub with
    | nil => exact .nil
    | cons hab _ => exact absurd hab (h _ rfl)
    | cons_right hrest => exact hrest
  · exact List.SublistForall₂.cons_right

/-- An instruction that is no direct call. -/
theorem shapeWith_other {names : List Bytes} {pc : Nat} {pcs : List Nat} (hbl : IsBl (image.word pc) = false) :
    ShapeWith image text tables anchor names (pc :: pcs) ↔
      ((anchor.noDataRefs = true → IsAdrp (image.word pc) = false) ∧
        (anchor.callsExact = true → isIndirectCall (image.word pc) = false)) ∧
      ShapeWith image text tables anchor names pcs := by
  have hcalls : directCalls image (pc :: pcs) = directCalls image pcs := by
    rw [directCalls_cons, hbl]
    rfl
  apply Iff.intro
  · intro h
    exact ⟨⟨fun hno ↦ h.no_adrp hno pc List.mem_cons_self, fun hexact ↦ h.no_indirect hexact pc List.mem_cons_self⟩,
      fun hno a ha ↦ h.no_adrp hno a (List.mem_cons_of_mem pc ha),
      fun hexact a ha ↦ h.no_indirect hexact a (List.mem_cons_of_mem pc ha),
      hcalls ▸ h.lands, hcalls ▸ h.whole, hcalls ▸ h.in_order⟩
  · intro h
    exact ⟨fun hno ↦ List.forall_mem_cons.mpr ⟨h.1.1 hno, h.2.no_adrp hno⟩,
      fun hexact ↦ List.forall_mem_cons.mpr ⟨h.1.2 hexact, h.2.no_indirect hexact⟩,
      hcalls ▸ h.2.lands, hcalls ▸ h.2.whole, hcalls ▸ h.2.in_order⟩

/-- A direct call: it lands in `__TEXT`, and it is the next name or, unless all are named, none. -/
theorem shapeWith_call {names : List Bytes} {pc : Nat} {pcs : List Nat} (hbl : IsBl (image.word pc) = true) :
    ShapeWith image text tables anchor names (pc :: pcs) ↔
      (text.base ≤ branch26 pc (image.word pc) ∧ branch26 pc (image.word pc) + 4 ≤ text.base + text.size) ∧
        if names.head?.any (calleeIsNamed image tables (branch26 pc (image.word pc))) then
          ShapeWith image text tables anchor names.tail pcs
        else anchor.callsExact = false ∧ ShapeWith image text tables anchor names pcs := by
  have hcalls : directCalls image (pc :: pcs) = branch26 pc (image.word pc) :: directCalls image pcs := by
    rw [directCalls_cons, if_pos hbl]
  have hadrp := not_isAdrp_of_isBl hbl
  have hindirect := not_isIndirectCall_of_isBl hbl
  -- Everything but the names is asked of the call and of the rest.
  have hsplit : ShapeWith image text tables anchor names (pc :: pcs) ↔
      (text.base ≤ branch26 pc (image.word pc) ∧ branch26 pc (image.word pc) + 4 ≤ text.base + text.size) ∧
      (((anchor.noDataRefs = true → ∀ a ∈ pcs, IsAdrp (image.word a) = false) ∧
        (anchor.callsExact = true → ∀ a ∈ pcs, isIndirectCall (image.word a) = false) ∧
        ∀ callee ∈ directCalls image pcs, text.base ≤ callee ∧ callee + 4 ≤ text.base + text.size) ∧
      (anchor.callsExact = true →
        List.Forall₂ (Named image tables) names (branch26 pc (image.word pc) :: directCalls image pcs)) ∧
      List.SublistForall₂ (Named image tables) names (branch26 pc (image.word pc) :: directCalls image pcs)) := by
    apply Iff.intro
    · intro h
      have hlands := List.forall_mem_cons.mp (hcalls ▸ h.lands)
      exact ⟨hlands.1, ⟨fun hno ↦ (List.forall_mem_cons.mp (h.no_adrp hno)).2,
        fun hexact ↦ (List.forall_mem_cons.mp (h.no_indirect hexact)).2, hlands.2⟩, hcalls ▸ h.whole, hcalls ▸ h.in_order⟩
    · intro h
      exact ⟨fun hno ↦ List.forall_mem_cons.mpr ⟨hadrp, h.2.1.1 hno⟩,
        fun hexact ↦ List.forall_mem_cons.mpr ⟨hindirect, h.2.1.2.1 hexact⟩,
        hcalls ▸ List.forall_mem_cons.mpr ⟨h.1, h.2.1.2.2⟩, hcalls ▸ h.2.2.1, hcalls ▸ h.2.2.2⟩
  rw [hsplit]
  apply and_congr_right
  intro _
  cases names with
  | nil =>
    rw [List.head?_nil, Option.any_none, if_neg (by decide)]
    apply Iff.intro
    · intro h
      have hloose : anchor.callsExact = false := by
        by_contra hexact
        cases h.2.1 (eq_true_of_ne_false hexact)
      exact ⟨hloose, h.1.1, h.1.2.1, h.1.2.2, fun hexact ↦ absurd hexact (by rw [hloose]; decide), .nil⟩
    · intro h
      exact ⟨⟨h.2.no_adrp, h.2.no_indirect, h.2.lands⟩, fun hexact ↦ absurd hexact (by rw [h.1]; decide), .nil⟩
  | cons name names =>
    rw [List.head?_cons, Option.any_some, List.tail_cons]
    by_cases hnamed : calleeIsNamed image tables (branch26 pc (image.word pc)) name = true
    · have hfirst : Named image tables name (branch26 pc (image.word pc)) := hnamed
      rw [if_pos hnamed, sublistForall₂_cons_of hfirst, List.forall₂_cons]
      apply Iff.intro
      · intro h
        exact ⟨h.1.1, h.1.2.1, h.1.2.2, fun hexact ↦ (h.2.1 hexact).2, h.2.2⟩
      · intro h
        exact ⟨⟨h.no_adrp, h.no_indirect, h.lands⟩, fun hexact ↦ ⟨hnamed, h.whole hexact⟩, h.in_order⟩
    · have hother : ∀ a ∈ (name :: names).head?, ¬ Named image tables a (branch26 pc (image.word pc)) := by
        intro a ha
        obtain rfl := Option.some.inj ha
        exact hnamed
      rw [if_neg hnamed, sublistForall₂_cons_of_not hother, List.forall₂_cons]
      apply Iff.intro
      · intro h
        have hloose : anchor.callsExact = false := by
          by_contra hexact
          exact hnamed (h.2.1 (eq_true_of_ne_false hexact)).1
        exact ⟨hloose, h.1.1, h.1.2.1, h.1.2.2, fun hexact ↦ absurd hexact (by rw [hloose]; decide), h.2.2⟩
      · intro h
        exact ⟨⟨h.2.no_adrp, h.2.no_indirect, h.2.lands⟩, fun hexact ↦ absurd hexact (by rw [h.1]; decide), h.2.in_order⟩

theorem shapeWith_nil {names : List Bytes} : ShapeWith image text tables anchor names [] ↔ names = [] := by
  apply Iff.intro
  · intro h
    cases h.in_order
    rfl
  · rintro rfl
    exact ⟨fun _ ↦ nofun, fun _ ↦ nofun, nofun, fun _ ↦ .nil, .nil⟩

theorem seen_cons (pc : Nat) (pcs : List Nat) :
    seen image anchor (pc :: pcs) =
      if targetsZero image anchor pc then seen image anchor pcs else pc :: seen image anchor pcs := by
  unfold seen
  rw [List.filter_cons]
  cases targetsZero image anchor pc <;> rfl

/-- The loop finds the shape among what it sees. -/
theorem bodyLoop_iff (hsize : 4 ≤ text.size) {pcs : List Nat} {wanted : Nat} (hwanted : wanted ≤ anchor.calls.length) :
    bodyLoop image text tables anchor pcs wanted = true ↔
      ShapeWith image text tables anchor (anchor.calls.drop wanted) (seen image anchor pcs) := by
  induction pcs generalizing wanted with
  | nil =>
    rw [bodyLoop, beq_iff_eq, seen, List.filter_nil, shapeWith_nil, List.drop_eq_nil_iff]
    omega
  | cons pc pcs ih =>
    rw [bodyLoop, seen_cons]
    by_cases hbl : IsBl (image.word pc) = true
    · -- A BL. One whose target is 0 is taken for no call at all.
      have hadrp : adrpTarget pc (image.word pc) = 0 := by rw [adrpTarget, not_isAdrp_of_isBl hbl]; rfl
      have hcall : blTarget pc (image.word pc) = branch26 pc (image.word pc) := by rw [blTarget, if_pos hbl]
      simp only [hadrp, hcall, not_isIndirectCall_of_isBl hbl]
      rw [if_neg (by simp), if_neg (by simp)]
      by_cases hzero : branch26 pc (image.word pc) = 0
      · rw [if_pos hzero, if_pos (by simp [targetsZero, hbl, hzero])]
        exact ih hwanted
      · have hsee : targetsZero image anchor pc = false := by
          simp [targetsZero, hbl, hzero, not_isAdrp_of_isBl hbl]
        rw [if_neg hzero, hsee, if_neg Bool.false_ne_true, shapeWith_call hbl, List.head?_drop]
        by_cases hout : branch26 pc (image.word pc) < text.base ∨
            text.base + text.size - 4 < branch26 pc (image.word pc)
        · rw [if_pos hout]
          apply iff_of_false nofun
          omega
        · rw [if_neg hout, and_iff_right (by omega), List.tail_drop]
          split
          · rename_i hnext
            have hlt : wanted < anchor.calls.length := by
              by_contra hge
              rw [List.getElem?_eq_none (by omega)] at hnext
              cases hnext
            exact ih hlt
          · cases anchor.callsExact with
            | true => simp
            | false => simpa using ih hwanted
    · have hcall : blTarget pc (image.word pc) = 0 := by rw [blTarget, if_neg hbl]
      simp only [hcall, if_true]
      by_cases hadrp : anchor.noDataRefs = true ∧ IsAdrp (image.word pc) = true
      · -- An ADRP, where the shape allows none. Page 0 is taken for none.
        have hpage : adrpTarget pc (image.word pc) = adrpPage pc (image.word pc) := by rw [adrpTarget, if_pos hadrp.2]
        rw [hpage, not_isIndirectCall_of_isAdrp hadrp.2]
        by_cases hzero : adrpPage pc (image.word pc) = 0
        · rw [if_neg (by simp [hzero]), if_neg (by simp), if_pos (by simp [targetsZero, hadrp, hzero])]
          exact ih hwanted
        · have hsee : targetsZero image anchor pc = false := by simp [targetsZero, hbl, hzero]
          rw [if_pos ⟨hadrp.1, hzero⟩, hsee, if_neg Bool.false_ne_true, shapeWith_other (eq_false_of_ne_true hbl)]
          apply iff_of_false nofun
          intro h
          exact absurd (h.1.1 hadrp.1) (by rw [hadrp.2]; decide)
      · have hnone : ¬ (anchor.noDataRefs = true ∧ adrpTarget pc (image.word pc) ≠ 0) := by
          intro h
          by_cases his : IsAdrp (image.word pc) = true
          · exact hadrp ⟨h.1, his⟩
          · exact h.2 (if_neg his)
        have hsee : targetsZero image anchor pc = false := by
          rw [targetsZero, eq_false_of_ne_true hbl, Bool.false_and, Bool.false_or]
          by_contra hz
          have hz := eq_true_of_ne_false hz
          rw [Bool.and_eq_true, Bool.and_eq_true] at hz
          exact hadrp hz.1
        rw [if_neg hnone, hsee, if_neg Bool.false_ne_true, shapeWith_other (eq_false_of_ne_true hbl)]
        by_cases hindirect : anchor.callsExact = true ∧ isIndirectCall (image.word pc) = true
        · rw [if_pos hindirect]
          apply iff_of_false nofun
          intro h
          exact absurd (h.1.2 hindirect.1) (by rw [hindirect.2]; decide)
        · rw [if_neg hindirect, ih hwanted, and_iff_right]
          apply And.intro
          · exact fun hno ↦ eq_false_of_ne_true fun his ↦ hadrp ⟨hno, his⟩
          · exact fun hexact ↦ eq_false_of_ne_true fun his ↦ hindirect ⟨hexact, his⟩

end

/-! ## The callers -/

section

variable (image : LoadedImage) (seed code codeEnd : Nat) (shape : List Nat → Prop) (pcs : List Nat)

/-- A direct call of the seed. -/
def CallsSeed (pc : Nat) : Prop := IsBl (image.word pc) = true ∧ branch26 pc (image.word pc) = seed

/-- Every caller lies in a function with usable bounds. -/
def AllUsable : Prop :=
  ∀ pc ∈ pcs, CallsSeed image seed pc →
    ∃ fn fin, image.functionBounds pc = some (fn, fin) ∧ Usable code codeEnd fn fin

/-- A function, from its start to its end, with a caller in its body and the shape. -/
def Candidate (f : Nat × Nat) : Prop :=
  (∃ pc ∈ pcs, CallsSeed image seed pc ∧ image.functionBounds pc = some f) ∧ shape (instructions f.1 f.2)

def SoleCandidate (f : Nat × Nat) : Prop :=
  Candidate image seed shape pcs f ∧ ∀ g, Candidate image seed shape pcs g → g = f

/-- What the search knows of the instructions behind it. -/
structure Searched (found prevEnd : Nat) : Prop where
  usable : AllUsable image seed code codeEnd pcs
  no_candidate : found = 0 → ∀ f, ¬ Candidate image seed shape pcs f
  one_candidate : found ≠ 0 → ∃ fin, SoleCandidate image seed shape pcs (found, fin)
  behind : ∀ pc ∈ pcs, CallsSeed image seed pc → ∀ f, image.functionBounds pc = some f → f.2 ≤ prevEnd
  covered : ∀ pc, (∀ q ∈ pcs, q < pc) → pc < prevEnd →
    ∃ q ∈ pcs, CallsSeed image seed q ∧ image.functionBounds pc = image.functionBounds q

end

section

variable {image : LoadedImage} {seed code codeEnd : Nat} {shape : List Nat → Prop} {pcs : List Nat}

theorem blTarget_eq_iff {pc : Nat} (hseed : seed ≠ 0) :
    blTarget pc (image.word pc) = seed ↔ CallsSeed image seed pc := by
  unfold blTarget CallsSeed
  cases IsBl (image.word pc) with
  | false => exact iff_of_false hseed.symm nofun
  | true => exact (and_iff_right rfl).symm

/-- One more instruction whose function, if it is a caller, is already known. -/
theorem Searched.append {found prevEnd pc : Nat} (h : Searched image seed code codeEnd shape pcs found prevEnd)
    (hpc : CallsSeed image seed pc →
      ∃ q ∈ pcs, CallsSeed image seed q ∧ image.functionBounds pc = image.functionBounds q) :
    Searched image seed code codeEnd shape (pcs ++ [pc]) found prevEnd := by
  have hcandidate (f : Nat × Nat) : Candidate image seed shape (pcs ++ [pc]) f ↔ Candidate image seed shape pcs f := by
    apply and_congr_left
    intro _
    simp only [List.mem_append, List.mem_singleton]
    apply Iff.intro
    · rintro ⟨q, hq | rfl, hcalls, hbounds⟩
      · exact ⟨q, hq, hcalls, hbounds⟩
      · obtain ⟨d, hd, hcalls', hsame⟩ := hpc hcalls
        exact ⟨d, hd, hcalls', hsame ▸ hbounds⟩
    · rintro ⟨q, hq, hcalls, hbounds⟩
      exact ⟨q, .inl hq, hcalls, hbounds⟩
  have hmem {p : Nat → Prop} (hold : ∀ q ∈ pcs, p q) (hnew : p pc) : ∀ q ∈ pcs ++ [pc], p q :=
    List.forall_mem_append.mpr ⟨hold, List.forall_mem_singleton.mpr hnew⟩
  exact {
    usable := hmem h.usable fun hcalls ↦ by
      obtain ⟨q, hq, hcalls', hsame⟩ := hpc hcalls
      rw [hsame]
      exact h.usable q hq hcalls'
    no_candidate := by simpa only [hcandidate] using h.no_candidate
    one_candidate := by simpa only [SoleCandidate, hcandidate] using h.one_candidate
    behind := hmem h.behind fun hcalls f hf ↦ by
      obtain ⟨q, hq, hcalls', hsame⟩ := hpc hcalls
      exact h.behind q hq hcalls' f (hsame ▸ hf)
    covered := by
      intro a ha hlt
      obtain ⟨q, hq, hq'⟩ := h.covered a (fun q hq ↦ ha q (List.mem_append_left _ hq)) hlt
      exact ⟨q, List.mem_append_left _ hq, hq'⟩ }

/-- A caller of a function that is not known yet: it ends behind all that are. -/
theorem candidate_append {pc fn fin : Nat} (hcalls : CallsSeed image seed pc)
    (hbounds : image.functionBounds pc = some (fn, fin)) (f : Nat × Nat) :
    Candidate image seed shape (pcs ++ [pc]) f ↔
      Candidate image seed shape pcs f ∨ (f = (fn, fin) ∧ shape (instructions fn fin)) := by
  apply Iff.intro
  · rintro ⟨⟨q, hq, hq', hf⟩, hshape⟩
    obtain hq | hq := List.mem_append.mp hq
    · exact .inl ⟨⟨q, hq, hq', hf⟩, hshape⟩
    · obtain rfl := List.mem_singleton.mp hq
      obtain rfl := Option.some.inj (hbounds.symm.trans hf)
      exact .inr ⟨rfl, hshape⟩
  · rintro (⟨⟨q, hq, hq', hf⟩, hshape⟩ | ⟨rfl, hshape⟩)
    · exact ⟨⟨q, List.mem_append_left _ hq, hq', hf⟩, hshape⟩
    · exact ⟨⟨pc, List.mem_append_right _ (List.mem_singleton_self pc), hcalls, hbounds⟩, hshape⟩

theorem Searched.extend {found found' prevEnd pc fn fin : Nat} (h : Searched image seed code codeEnd shape pcs found prevEnd)
    (hcalls : CallsSeed image seed pc) (hbounds : image.functionBounds pc = some (fn, fin))
    (husable : Usable code codeEnd fn fin) (hpast : prevEnd ≤ pc)
    (hnone : found' = 0 → ∀ f, ¬ Candidate image seed shape (pcs ++ [pc]) f)
    (hone : found' ≠ 0 → ∃ fin, SoleCandidate image seed shape (pcs ++ [pc]) (found', fin)) :
    Searched image seed code codeEnd shape (pcs ++ [pc]) found' fin := by
  have haround := LoadedImage.functionBounds_around hbounds
  have hmem {p : Nat → Prop} (hold : ∀ q ∈ pcs, p q) (hnew : p pc) : ∀ q ∈ pcs ++ [pc], p q :=
    List.forall_mem_append.mpr ⟨hold, List.forall_mem_singleton.mpr hnew⟩
  exact {
    usable := hmem h.usable fun _ ↦ ⟨fn, fin, hbounds, husable⟩
    no_candidate := hnone
    one_candidate := hone
    behind := by
      apply hmem
      · intro q hq hq' f hf
        have := h.behind q hq hq' f hf
        omega
      · intro _ f hf
        obtain rfl := Option.some.inj (hbounds.symm.trans hf)
        exact Nat.le_refl fin
    covered := by
      intro a ha hlt
      have hlast := List.mem_append_right pcs (List.mem_singleton_self pc)
      have := ha pc hlast
      have hsame := LoadedImage.functionBounds_same hbounds (by omega) hlt
      exact ⟨pc, hlast, hcalls, hsame.trans hbounds.symm⟩ }

variable {text : TextRange} {tables : Option StubTables} {anchor : NpAnchor}

/-- From what is behind it, the search answers for all instructions: nothing unless every caller is usable and one
function is the candidate. -/
theorem callerLoop_eq_iff (hbody : ∀ fn fin, Usable code codeEnd fn fin →
      (bodyMatchesCalls image fn fin text tables anchor = true ↔ shape (instructions fn fin)))
    (hseed : seed ≠ 0) (hcode : 0 < code) {found prevEnd : Nat} (rest : List Nat)
    (h : Searched image seed code codeEnd shape pcs found prevEnd) (hsorted : (pcs ++ rest).Pairwise (· < ·))
    {r : Nat} (hr : r ≠ 0) :
    callerLoop image text tables anchor seed code codeEnd rest found prevEnd = r ↔
      AllUsable image seed code codeEnd (pcs ++ rest) ∧ ∃ fin, SoleCandidate image seed shape (pcs ++ rest) (r, fin) := by
  induction rest generalizing pcs found prevEnd with
  | nil =>
    rw [callerLoop, List.append_nil, and_iff_right h.usable]
    apply Iff.intro
    · rintro rfl
      exact h.one_candidate hr
    · rintro ⟨fin, hsole⟩
      by_cases hfound : found = 0
      · exact absurd hsole.1 (h.no_candidate hfound _)
      · obtain ⟨fin', hsole'⟩ := h.one_candidate hfound
        exact (Prod.mk.inj (hsole.2 _ hsole'.1)).1
  | cons pc rest ih =>
    have hassoc : pcs ++ pc :: rest = pcs ++ [pc] ++ rest := List.append_cons pcs pc rest
    have hbefore : ∀ q ∈ pcs, q < pc := fun q hq ↦ (List.pairwise_append.mp hsorted).2.2 q hq pc List.mem_cons_self
    rw [hassoc] at hsorted ⊢
    rw [callerLoop]
    by_cases hskip : pc < prevEnd
    · rw [if_pos hskip]
      exact ih (h.append fun _ ↦ h.covered pc hbefore hskip) hsorted
    · rw [if_neg hskip]
      by_cases hcalls : CallsSeed image seed pc
      · have hlast : pc ∈ pcs ++ [pc] ++ rest :=
          List.mem_append_left rest (List.mem_append_right pcs (List.mem_singleton_self pc))
        rw [if_neg (not_not.mpr ((blTarget_eq_iff hseed).mpr hcalls))]
        cases hbounds : image.functionBounds pc with
        | none =>
          apply iff_of_false hr.symm
          intro hall
          obtain ⟨fn, fin, hsome, -⟩ := hall.1 pc hlast hcalls
          rw [hbounds] at hsome
          cases hsome
        | some f =>
          obtain ⟨fn, fin⟩ := f
          show (if ¬ Usable code codeEnd fn fin then 0 else _) = r ↔ _
          by_cases husable : Usable code codeEnd fn fin
          · have hcandidate (f : Nat × Nat) : Candidate image seed shape (pcs ++ [pc]) f ↔
                Candidate image seed shape pcs f ∨ (f = (fn, fin) ∧ shape (instructions fn fin)) :=
              candidate_append hcalls hbounds f
            rw [if_neg (not_not.mpr husable)]
            by_cases hshape : shape (instructions fn fin)
            · rw [if_neg (by rw [(hbody fn fin husable).mpr hshape]; decide)]
              by_cases hfound : found = 0
              · -- The first one found: no candidate stands behind it.
                rw [if_neg (not_not.mpr hfound)]
                have hsole : SoleCandidate image seed shape (pcs ++ [pc]) (fn, fin) := by
                  refine ⟨(hcandidate _).mpr (.inr ⟨rfl, hshape⟩), ?_⟩
                  intro g hg
                  obtain hg | hg := (hcandidate g).mp hg
                  · exact absurd hg (h.no_candidate hfound g)
                  · exact hg.1
                have hfn : fn ≠ 0 := by
                  have := husable.1
                  omega
                exact ih (h.extend hcalls hbounds husable (by omega) (fun hno ↦ absurd hno hfn) fun _ ↦ ⟨fin, hsole⟩)
                  hsorted
              · -- The second one found: it ends behind the first.
                rw [if_pos hfound]
                apply iff_of_false hr.symm
                rintro ⟨-, fin', -, hunique⟩
                obtain ⟨fin₀, hsole, -⟩ := h.one_candidate hfound
                obtain ⟨⟨q, hq, hq', hf⟩, hshape₀⟩ := hsole
                have hfirst := hunique (found, fin₀)
                  ⟨⟨q, List.mem_append_left rest (List.mem_append_left _ hq), hq', hf⟩, hshape₀⟩
                have hsecond := hunique (fn, fin) ⟨⟨pc, hlast, hcalls, hbounds⟩, hshape⟩
                have hends := (Prod.mk.inj (hfirst.trans hsecond.symm)).2
                have hbehind := h.behind q hq hq' _ hf
                have haround := LoadedImage.functionBounds_around hbounds
                simp only at hbehind
                omega
            · have hno : bodyMatchesCalls image fn fin text tables anchor = false :=
                eq_false_of_ne_true fun hyes ↦ hshape ((hbody fn fin husable).mp hyes)
              have hsame (f : Nat × Nat) :
                  Candidate image seed shape (pcs ++ [pc]) f ↔ Candidate image seed shape pcs f := by
                rw [hcandidate, or_iff_left fun h ↦ hshape h.2]
              rw [if_pos hno]
              apply ih (h.extend hcalls hbounds husable (by omega) ?_ ?_) hsorted
              · simpa only [hsame] using h.no_candidate
              · simpa only [SoleCandidate, hsame] using h.one_candidate
          · rw [if_pos husable]
            apply iff_of_false hr.symm
            intro hall
            obtain ⟨fn', fin', hsome, husable'⟩ := hall.1 pc hlast hcalls
            obtain ⟨rfl, rfl⟩ := Prod.mk.inj (Option.some.inj (hbounds.symm.trans hsome))
            exact husable husable'
      · rw [if_pos (mt (blTarget_eq_iff hseed).mp hcalls)]
        exact ih (h.append fun hyes ↦ absurd hyes hcalls) hsorted

end

/-! ## The function of an anchor -/

section

variable (image : LoadedImage) (text : TextRange) (anchor : NpAnchor) (seed code codeSize : Nat)

def codeEndOf : Nat := code + (codeSize - codeSize % 4)

/-- A candidate as far as the decoders see. -/
def Apparent (f : Nat × Nat) : Prop :=
  Candidate image seed (fun pcs ↦ HasShape image text (loadStubTables image) anchor (seen image anchor pcs))
    (instructions code (codeEndOf code codeSize)) f

/-- The search returns the start of the one function with the shape, and no function where there is none, or where a
caller has no usable bounds. -/
def FindsSoleFn : Prop :=
  ∀ fn ≠ 0, soleFnByCalls image text anchor = fn ↔
    AllUsable image seed code (codeEndOf code codeSize) (instructions code (codeEndOf code codeSize)) ∧
      ∃ fin, SoleCandidate image seed (HasShape image text (loadStubTables image) anchor)
        (instructions code (codeEndOf code codeSize)) (fn, fin)

def TargetsNoZero (f : Nat × Nat) : Prop := ∀ pc ∈ instructions f.1 f.2, targetsZero image anchor pc = false

/-- Where every caller is usable, the targets at 0 decide nothing: no candidate has one, or two have none, or two have
one and none is without. -/
def ZerosDecideNothing : Prop :=
  AllUsable image seed code (codeEndOf code codeSize) (instructions code (codeEndOf code codeSize)) →
    (∀ f, Apparent image text anchor seed code codeSize f → TargetsNoZero image anchor f) ∨
    (∃ f g, f ≠ g ∧ (Apparent image text anchor seed code codeSize f ∧ TargetsNoZero image anchor f) ∧
      Apparent image text anchor seed code codeSize g ∧ TargetsNoZero image anchor g) ∨
    ((∀ f, Apparent image text anchor seed code codeSize f → ¬ TargetsNoZero image anchor f) ∧
      ∃ f g, f ≠ g ∧ Apparent image text anchor seed code codeSize f ∧ Apparent image text anchor seed code codeSize g)

end

theorem instructions_sorted (fn fin : Nat) : (instructions fn fin).Pairwise (· < ·) := by
  rw [instructions, List.pairwise_map]
  apply List.pairwise_lt_range.imp
  intro i j hij
  omega

theorem mem_instructions {fn fin pc : Nat} (h : pc ∈ instructions fn fin) : fn ≤ pc ∧ pc + 4 ≤ fin := by
  obtain ⟨i, hi, rfl⟩ := List.mem_map.mp h
  rw [List.mem_range] at hi
  omega

section

variable {image : LoadedImage} {text : TextRange} {anchor : NpAnchor} {seed code codeSize : Nat}

/-- A body with the shape has nothing that the decoders do not see. -/
theorem hasShape_iff_seen {tables : Option StubTables} {pcs : List Nat} :
    HasShape image text tables anchor pcs ↔
      HasShape image text tables anchor (seen image anchor pcs) ∧ ∀ pc ∈ pcs, targetsZero image anchor pc = false := by
  have hall (hzero : ∀ pc ∈ pcs, targetsZero image anchor pc = false) : seen image anchor pcs = pcs := by
    apply List.filter_eq_self.mpr
    intro pc hpc
    rw [hzero pc hpc]
    rfl
  apply Iff.intro
  · intro h
    have hzero : ∀ pc ∈ pcs, targetsZero image anchor pc = false := by
      intro pc hpc
      by_contra hone
      have hone := eq_true_of_ne_false hone
      rw [targetsZero, Bool.or_eq_true, Bool.and_eq_true, Bool.and_eq_true, Bool.and_eq_true, beq_iff_eq] at hone
      obtain ⟨hbl, htarget⟩ | ⟨⟨hno, hadrp⟩, -⟩ := hone
      · have hmem : branch26 pc (image.word pc) ∈ directCalls image pcs :=
          List.mem_map_of_mem (List.mem_filter.mpr ⟨hpc, hbl⟩)
        have hlands := (h.lands _ hmem).1
        have := text.base_pos
        omega
      · have := h.no_adrp hno pc hpc
        rw [hadrp] at this
        cases this
    exact ⟨(hall hzero).symm ▸ h, hzero⟩
  · intro h
    exact hall h.2 ▸ h.1

theorem candidate_iff_apparent (f : Nat × Nat) :
    Candidate image seed (HasShape image text (loadStubTables image) anchor)
        (instructions code (codeEndOf code codeSize)) f ↔
      Apparent image text anchor seed code codeSize f ∧ TargetsNoZero image anchor f := by
  unfold Candidate Apparent Candidate TargetsNoZero
  rw [hasShape_iff_seen, and_assoc]

/-- What the search does with the decoders it has. -/
theorem soleFnByCalls_eq_iff {first : Bytes} {rest : List Bytes} (hcalls : anchor.calls = first :: rest)
    (hseed : stubForName image first ≠ 0)
    (hcode : npFindSection image.mh image.slide (ascii "__TEXT") (ascii "__text") = some (code, codeSize))
    (hin : text.base ≤ code ∧ code + codeSize ≤ text.base + text.size) {fn : Nat} (hfn : fn ≠ 0) :
    soleFnByCalls image text anchor = fn ↔
      AllUsable image (stubForName image first) code (codeEndOf code codeSize)
          (instructions code (codeEndOf code codeSize)) ∧
        ∃ fin, Apparent image text anchor (stubForName image first) code codeSize (fn, fin) ∧
          ∀ g, Apparent image text anchor (stubForName image first) code codeSize g → g = (fn, fin) := by
  have hpos := text.base_pos
  unfold soleFnByCalls
  simp only [hcalls, hcode]
  rw [if_neg hseed, if_neg (by omega)]
  by_cases hsize : 4 ≤ text.size
  · have hbody (fn fin : Nat) : bodyMatchesCalls image fn fin text (loadStubTables image) anchor = true ↔
        HasShape image text (loadStubTables image) anchor (seen image anchor (instructions fn fin)) :=
      bodyLoop_iff hsize (Nat.zero_le _)
    have hstart : Searched image (stubForName image first) code (codeEndOf code codeSize)
        (fun pcs ↦ HasShape image text (loadStubTables image) anchor (seen image anchor pcs)) [] 0 0 :=
      { usable := nofun
        no_candidate := by rintro - f ⟨⟨pc, hpc, -⟩, -⟩; cases hpc
        one_candidate := fun h ↦ absurd rfl h
        behind := nofun
        covered := fun pc _ hlt ↦ absurd hlt (Nat.not_lt_zero pc) }
    exact callerLoop_eq_iff (fun fn fin _ ↦ hbody fn fin) hseed (by omega) _ hstart (instructions_sorted _ _) hfn
  · -- No instruction fits into `__text`.
    have hnil : instructions code (codeEndOf code codeSize) = [] := by
      apply List.eq_nil_iff_forall_not_mem.mpr
      intro pc hpc
      have := mem_instructions hpc
      rw [codeEndOf] at this
      omega
    rw [show code + (codeSize - codeSize % 4) = codeEndOf code codeSize from rfl, hnil]
    apply iff_of_false hfn.symm
    rintro ⟨-, fin, ⟨⟨pc, hpc, -⟩, -⟩, -⟩
    rw [hnil] at hpc
    cases hpc

end

/-- The search for the one function that makes the calls of an anchor, in every image: it is right exactly when no target
at 0 decides about it. -/
theorem soleFnByCalls_iff (image : LoadedImage) (text : TextRange) (anchor : NpAnchor) (first : Bytes)
    (rest : List Bytes) (code codeSize : Nat) (hcalls : anchor.calls = first :: rest)
    (hseed : stubForName image first ≠ 0)
    (hcode : npFindSection image.mh image.slide (ascii "__TEXT") (ascii "__text") = some (code, codeSize))
    (hin : text.base ≤ code ∧ code + codeSize ≤ text.base + text.size) :
    FindsSoleFn image text anchor (stubForName image first) code codeSize ↔
      ZerosDecideNothing image text anchor (stubForName image first) code codeSize := by
  have hfinds := fun (fn : Nat) (hfn : fn ≠ 0) ↦ soleFnByCalls_eq_iff hcalls hseed hcode hin hfn
  unfold FindsSoleFn ZerosDecideNothing
  simp only [SoleCandidate, candidate_iff_apparent]
  generalize stubForName image first = seed at *
  apply Iff.intro
  · intro hright hall
    have hright (fn : Nat) (hfn : fn ≠ 0) := (hfinds fn hfn).symm.trans (hright fn hfn)
    simp only [and_iff_right hall] at hright
    -- The start of a candidate is in `__text`, and no address there is 0.
    have hstart (f : Nat × Nat) (hf : Apparent image text anchor seed code codeSize f) : f.1 ≠ 0 := by
      obtain ⟨⟨pc, hpc, hpc', hbounds⟩, -⟩ := hf
      obtain ⟨fn, fin, hsome, husable, -⟩ := hall pc hpc hpc'
      obtain rfl := Option.some.inj (hbounds.symm.trans hsome)
      have := text.base_pos
      show fn ≠ 0
      omega
    by_contra hno
    simp only [not_or, not_exists, not_and, not_forall] at hno
    obtain ⟨⟨f, hf, hzero⟩, htwo, hnone⟩ := hno
    by_cases hproper : ∃ g, Apparent image text anchor seed code codeSize g ∧ TargetsNoZero image anchor g
    · obtain ⟨g, hg, hgzero⟩ := hproper
      have hsole := (hright g.1 (hstart g hg)).mpr ⟨g.2, ⟨hg, hgzero⟩, fun k hk ↦ by
        by_contra hne
        exact htwo g k (Ne.symm hne) ⟨hg, hgzero⟩ hk.1 hk.2⟩
      obtain ⟨fin, -, hunique⟩ := hsole
      have hsame : f = g := (hunique f hf).trans (hunique g hg).symm
      exact hzero (hsame ▸ hgzero)
    · have hnoProper : ∀ k, Apparent image text anchor seed code codeSize k → ¬ TargetsNoZero image anchor k :=
        fun k hk hkzero ↦ hproper ⟨k, hk, hkzero⟩
      obtain ⟨fin, hsole, -⟩ := (hright f.1 (hstart f hf)).mp ⟨f.2, hf, fun k hk ↦ by
        by_contra hne
        exact hnone hnoProper f k (Ne.symm hne) hf hk⟩
      exact hnoProper _ hsole.1 hsole.2
  · intro hharmless fn hfn
    rw [hfinds fn hfn]
    apply and_congr_right
    intro hall
    obtain hseen | ⟨f, g, hne, hf, hg⟩ | ⟨hnone, f, g, hne, hf, hg⟩ := hharmless hall
    · have hsame (g : Nat × Nat) : Apparent image text anchor seed code codeSize g ∧ TargetsNoZero image anchor g ↔
          Apparent image text anchor seed code codeSize g := and_iff_left_of_imp (hseen g)
      simp only [hsame]
    · apply iff_of_false
      · rintro ⟨fin, -, hunique⟩
        exact hne ((hunique f hf.1).trans (hunique g hg.1).symm)
      · rintro ⟨fin, -, hunique⟩
        exact hne ((hunique f hf).trans (hunique g hg).symm)
    · apply iff_of_false
      · rintro ⟨fin, -, hunique⟩
        exact hne ((hunique f hf).trans (hunique g hg).symm)
      · rintro ⟨fin, hfin, -⟩
        exact hnone _ hfin.1 hfin.2

/-! ## A page at 0 -/

/-- `__TEXT` at the bottom of the address space of a process, with one function. -/
def zeroPageHeader : MachHeader where
  address := 0x100000000
  ncmds := 4
  commands :=
    let sect (name seg : Bytes) (addr size : Nat) : Bytes :=
      name ++ List.replicate (16 - name.length) 0 ++ (seg ++ List.replicate (16 - seg.length) 0) ++ leBytes 8 addr ++
        leBytes 8 size ++ List.replicate 32 0
    let segment (name : Bytes) (addr size off nsects : Nat) : Bytes :=
      leBytes 4 lcSegment64 ++ leBytes 4 (72 + 80 * nsects) ++ (name ++ List.replicate (16 - name.length) 0) ++
        leBytes 8 addr ++ leBytes 8 size ++ leBytes 8 off ++ leBytes 8 size ++ List.replicate 8 0 ++
        leBytes 4 nsects ++ List.replicate 4 0
    segment (ascii "__TEXT") 0x100000000 0x1000 0 2 ++
      sect (ascii "__text") (ascii "__TEXT") 0x100000400 16 ++
      sect (ascii "__objc_stubs") (ascii "__TEXT") 0x100000410 8 ++
      segment (ascii "__DATA") 0x100001000 0x1000 0x1000 1 ++
      sect (ascii "__objc_selrefs") (ascii "__DATA") 0x100001000 8 ++
      segment (ascii "__LINKEDIT") 0x100002000 0x1000 0x2000 0 ++
      (leBytes 4 lcFunctionStarts ++ leBytes 4 16 ++ leBytes 4 0x2000 ++ leBytes 4 8)

/-- The function loads the page 0 and calls the stub of `a`, which stands behind it. -/
def zeroPageMemory : Memory :=
  Memory.ofPieces
    [(0x100000400, [0x90800000, 0x94000003, 0xD65F03C0, 0xD503201F, 0xB0000001, 0xF9400021].flatMap (leBytes 4)),
      (0x100001000, leBytes 8 0x100001008 ++ ascii "a" ++ [0]),
      (0x100002000, [0x80, 0x08, 0x10, 0, 0, 0, 0, 0])] (by decide) (by decide)

theorem zeroPage_table : FunctionStarts zeroPageHeader 0 0x100002000 8 := by
  refine ⟨zeroPageHeader.loadCommands.getD [], leBytes 4 lcFunctionStarts ++ leBytes 4 16 ++ leBytes 4 0x2000 ++ leBytes 4 8,
    (zeroPageHeader.commands.drop 384).take 72, ?_, ?_, ?_, ?_, ?_, ?_⟩ <;> decide +kernel

theorem zeroPage_starts : zeroPageMemory.Holds 0x100002000 ([0x80, 0x08, 0x10] ++ List.replicate 5 0) := by
  refine ⟨?_, ?_, ?_, ?_, ?_, ?_, ?_, ?_, trivial⟩ <;> decide

def zeroPage : LoadedImage where
  mh := zeroPageHeader
  slide := 0
  mem := zeroPageMemory
  starts_mapped := by
    intro p size htable a hle hlt
    rw [zeroPage_table.fnStartsTable_eq] at htable
    obtain ⟨rfl, rfl⟩ := Prod.mk.inj (Option.some.inj htable)
    exact zeroPage_starts.mapped a hle hlt

def zeroPageText : TextRange := ⟨0x100000000, 0x1000, by decide, by decide⟩

def zeroPageAnchor (noDataRefs : Bool) : NpAnchor :=
  { kind := .calls, calls := [ascii "@a"], noDataRefs := noDataRefs }

theorem zeroPage_bounds : ∀ pc ∈ instructions 0x100000400 0x100000410,
    zeroPage.functionBounds pc = some (0x100000400, 0x100000410) := by
  have henc : EncodesDeltas 0x100000000 [0x100000400, 0x100000410] (uleb 0x400 ++ (uleb 0x10 ++ [])) :=
    .cons (uleb_encodes _) (.cons (uleb_encodes _) .nil)
  have hbytes : uleb 0x400 ++ (uleb 0x10 ++ []) = [0x80, 0x08, 0x10] := by simp [uleb]
  rw [hbytes] at henc
  intro pc hpc
  have hin := mem_instructions hpc
  have hbracket : npFunctionBounds zeroPageHeader 0 zeroPageMemory pc = some (bracket pc 0 [0x100000400, 0x100000410]) :=
    npFunctionBounds_bracket zeroPage_table rfl zeroPage_starts henc (by decide) (by decide)
  rw [LoadedImage.functionBounds, show zeroPage.mem = zeroPageMemory from rfl, show zeroPage.mh = zeroPageHeader from rfl,
    show zeroPage.slide = 0 from rfl, hbracket, bracket, if_pos hin.1, bracket, if_neg (by omega), if_neg (by decide)]
  rfl

theorem zeroPage_seed : stubForName zeroPage (ascii "@a") = 0x100000410 := by decide +kernel

theorem zeroPage_text :
    npFindSection zeroPage.mh zeroPage.slide (ascii "__TEXT") (ascii "__text") = some (0x100000400, 16) := by
  decide +kernel

theorem zeroPage_candidate {shape : List Nat → Prop} {f : Nat × Nat}
    (h : Candidate zeroPage 0x100000410 shape (instructions 0x100000400 (codeEndOf 0x100000400 16)) f) :
    f = (0x100000400, 0x100000410) := by
  obtain ⟨⟨pc, hpc, -, hbounds⟩, -⟩ := h
  exact Option.some.inj (hbounds.symm.trans (zeroPage_bounds pc hpc))

/-- With data references allowed the `ADRP` is of no account. -/
theorem soleFnByCalls_iff_zeroPage : FindsSoleFn zeroPage zeroPageText (zeroPageAnchor false)
    (stubForName zeroPage (ascii "@a")) 0x100000400 16 := by
  apply (soleFnByCalls_iff zeroPage zeroPageText (zeroPageAnchor false) (ascii "@a") [] 0x100000400 16 rfl
    (by rw [zeroPage_seed]; decide) zeroPage_text (by decide)).mpr
  rw [zeroPage_seed]
  intro _
  refine .inl fun f hf ↦ ?_
  rw [zeroPage_candidate hf]
  exact List.all_iff_forall_prop.mp (by decide)

/-- An anchor that rejects `ADRP` resolves to a function with one, of the page 0. -/
theorem zeroPage_misses : ¬ FindsSoleFn zeroPage zeroPageText (zeroPageAnchor true)
    (stubForName zeroPage (ascii "@a")) 0x100000400 16 := by
  intro hfinds
  have hshape : HasShape zeroPage zeroPageText (loadStubTables zeroPage) (zeroPageAnchor true)
      (seen zeroPage (zeroPageAnchor true) (instructions 0x100000400 0x100000410)) :=
    (bodyLoop_iff (by decide) (Nat.zero_le _)).mp (by decide +kernel)
  have hcall : (0x100000404 : Nat) ∈ instructions 0x100000400 0x100000410 := by decide
  have hfound : soleFnByCalls zeroPage zeroPageText (zeroPageAnchor true) = 0x100000400 := by
    apply (soleFnByCalls_eq_iff rfl (by rw [zeroPage_seed]; decide) zeroPage_text (by decide) (by decide)).mpr
    rw [zeroPage_seed]
    refine ⟨fun pc hpc _ ↦ ⟨_, _, zeroPage_bounds pc hpc, by decide⟩, 0x100000410, ⟨⟨0x100000404, hcall, ?_,
      zeroPage_bounds _ hcall⟩, hshape⟩, fun g hg ↦ zeroPage_candidate hg⟩
    unfold CallsSeed
    decide
  obtain ⟨-, fin, ⟨⟨⟨pc, hpc, -, hbounds⟩, hproper⟩, -⟩⟩ := (hfinds 0x100000400 (by decide)).mp hfound
  obtain rfl : fin = 0x100000410 := (Prod.mk.inj (Option.some.inj (hbounds.symm.trans (zeroPage_bounds pc hpc)))).2
  have hadrp := hproper.no_adrp rfl 0x100000400 (by decide)
  exact absurd hadrp (by decide)

end NotProton.Resolver
