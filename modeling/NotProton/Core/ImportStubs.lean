import NotProton.Core.LoadCommands
import NotProton.Library.Lists

/-!
# ImportStubs — between the stubs of an image and the names they stand for (`macho.c`)

A stub's place in its section gives an entry of the indirect symbol table, that one a symbol, the symbol an offset
into the string table.  `np_import_stub_symbol` goes this way from an address, `np_import_stub_for_symbol` looks for
the one stub that carries a name.
-/

open NotProton.Library

namespace NotProton.Core

/-- `symbols_t`: three tables where memory has them.  What a read past a table's end gives is part of it. -/
structure Symbols where
  nsyms : Nat
  strx : Nat → Nat
  strsize : Nat
  strings : Nat → UInt8
  nindirect : Nat
  indirect : Nat → Nat

def symoff (lc : Bytes) : Nat := u32 lc 8
def nsyms (lc : Bytes) : Nat := u32 lc 12
def stroff (lc : Bytes) : Nat := u32 lc 16
def strsize (lc : Bytes) : Nat := u32 lc 20
def indirectsymoff (lc : Bytes) : Nat := u32 lc 56
def nindirectsyms (lc : Bytes) : Nat := u32 lc 60

def read32 (mem : Nat → UInt8) (a : Nat) : Nat :=
  leNat ((List.range 4).map fun i ↦ mem ((a + i) % 2 ^ 64))

/-- The tables are inside `__LINKEDIT`, and there are indirect symbols. -/
def TablesInLinkedit (symtab dysymtab linkedit : Bytes) : Prop :=
  nindirectsyms dysymtab ≠ 0 ∧ inLinkedit linkedit (symoff symtab) (nsyms symtab * 16) = true ∧
    inLinkedit linkedit (stroff symtab) (strsize symtab) = true ∧
    inLinkedit linkedit (indirectsymoff dysymtab) (nindirectsyms dysymtab * 4) = true

instance (symtab dysymtab linkedit : Bytes) : Decidable (TablesInLinkedit symtab dysymtab linkedit) :=
  instDecidableAnd

/-- `load_symbols`, behind the walk over the commands. -/
def loadSymbols (cmds : List Bytes) (slide : Nat) (mem : Nat → UInt8) : Option Symbols :=
  match lastCommand (IsCommand lcSymtab 24) cmds, lastCommand (IsCommand lcDysymtab 80) cmds,
      lastCommand IsLinkedit cmds with
  | some symtab, some dysymtab, some linkedit =>
      if TablesInLinkedit symtab dysymtab linkedit then
        let base := slide + vmaddr linkedit + (2 ^ 64 - fileoff linkedit)
        some
          { nsyms := nsyms symtab
            strx := fun i ↦ read32 mem (base + symoff symtab + 16 * i)
            strsize := strsize symtab
            strings := fun i ↦ mem ((base + stroff symtab + i) % 2 ^ 64)
            nindirect := nindirectsyms dysymtab
            indirect := fun i ↦ read32 mem (base + indirectsymoff dysymtab + 4 * i) }
      else none
  | _, _, _ => none

/-- `INDIRECT_SYMBOL_LOCAL | INDIRECT_SYMBOL_ABS` -/
def indirectSpecial : Nat := 0xC0000000

/-- `indirect_symbol_name`, the name by its offset into the string table. -/
def indirectSymbolName (syms : Symbols) (slot : Nat) : Option Nat :=
  if syms.nindirect ≤ slot then none
  else
    let index := syms.indirect slot
    if index &&& indirectSpecial ≠ 0 then none
    else if syms.nsyms ≤ index then none
    else
      let strx := syms.strx index
      if syms.strsize ≤ strx then none else some strx

def sectAddr (sect : Bytes) : Nat := u64 sect 32
def sectSize (sect : Bytes) : Nat := u64 sect 40
def sectFlags (sect : Bytes) : Nat := u32 sect 64
def reserved1 (sect : Bytes) : Nat := u32 sect 68
def reserved2 (sect : Bytes) : Nat := u32 sect 72

/-- `S_SYMBOL_STUBS`, with a stride. -/
def isStubSection (sect : Bytes) : Bool := sectFlags sect &&& 0xFF == 8 && reserved2 sect != 0

def segmentSections (lc : Bytes) : Option (List Bytes) :=
  if lc.length < 72 then none
  else
    let nsects := u32 lc 64
    if lc.length - 72 < nsects * 80 then none
    else some ((List.range nsects).map fun j ↦ (lc.drop (72 + 80 * j)).take 80)

def sectBase (slide : Nat) (sect : Bytes) : Nat := (sectAddr sect + slide) % 2 ^ 64

/-- The entry of the indirect symbol table of a section's `k`-th stub. -/
def slotIndex (sect : Bytes) (k : Nat) : Nat := (reserved1 sect + k) % 2 ^ 64

/-! ## From a stub to its symbol -/

/-- The sections of one segment, `none` when the stub is in none of them. -/
def symbolInSections (syms : Symbols) (slide stub : Nat) : List Bytes → Option (Option Nat)
  | [] => none
  | sect :: rest =>
      if isStubSection sect = false then symbolInSections syms slide stub rest
      else if stub < sectBase slide sect ∨ (sectBase slide sect + sectSize sect) % 2 ^ 64 ≤ stub then
        symbolInSections syms slide stub rest
      else
        let offset := stub - sectBase slide sect
        if offset % reserved2 sect ≠ 0 then some none
        else some (indirectSymbolName syms (slotIndex sect (offset / reserved2 sect)))

def symbolInCommands (syms : Symbols) (slide stub : Nat) : List Bytes → Option Nat
  | [] => none
  | lc :: rest =>
      if u32 lc 0 ≠ lcSegment64 then symbolInCommands syms slide stub rest
      else
        match segmentSections lc with
        | none => none
        | some sects =>
            match symbolInSections syms slide stub sects with
            | some name => name
            | none => symbolInCommands syms slide stub rest

def importStubSymbol (cmds : List Bytes) (slide : Nat) (syms : Symbols) (stub : Nat) : Option Nat :=
  if stub = 0 then none else symbolInCommands syms slide stub cmds

def npImportStubSymbol (mh : MachHeader) (slide : Nat) (mem : Nat → UInt8) (stub : Nat) : Option Nat :=
  match mh.loadCommands with
  | none => none
  | some cmds =>
      match loadSymbols cmds slide mem with
      | none => none
      | some syms => importStubSymbol cmds slide syms stub

/-! ## From a symbol to its stub -/

/-- `strcmp(name, symbol) == 0` -/
def strcmpEq (strings : Nat → UInt8) : Nat → Bytes → Bool
  | p, [] => strings p == 0
  | p, c :: s => if strings p ≠ c then false else strcmpEq strings (p + 1) s

/-- The stubs of one section, `none` when a second one carries the symbol. -/
def stubsInSection (syms : Symbols) (slide : Nat) (symbol sect : Bytes) : List Nat → Nat → Option Nat
  | [], found => some found
  | k :: ks, found =>
      match indirectSymbolName syms (slotIndex sect k) with
      | none => stubsInSection syms slide symbol sect ks found
      | some name =>
          if strcmpEq syms.strings name symbol = false then stubsInSection syms slide symbol sect ks found
          else if found ≠ 0 then none
          else stubsInSection syms slide symbol sect ks ((sectBase slide sect + k * reserved2 sect) % 2 ^ 64)

def stubsInSections (syms : Symbols) (slide : Nat) (symbol : Bytes) : List Bytes → Nat → Option Nat
  | [], found => some found
  | sect :: rest, found =>
      if isStubSection sect = false then stubsInSections syms slide symbol rest found
      else
        match stubsInSection syms slide symbol sect (List.range (sectSize sect / reserved2 sect)) found with
        | none => none
        | some found => stubsInSections syms slide symbol rest found

def stubsInCommands (syms : Symbols) (slide : Nat) (symbol : Bytes) : List Bytes → Nat → Nat
  | [], found => found
  | lc :: rest, found =>
      if u32 lc 0 ≠ lcSegment64 then stubsInCommands syms slide symbol rest found
      else
        match segmentSections lc with
        | none => 0
        | some sects =>
            match stubsInSections syms slide symbol sects found with
            | none => 0
            | some found => stubsInCommands syms slide symbol rest found

def importStubForSymbol (cmds : List Bytes) (slide : Nat) (syms : Symbols) (symbol : Bytes) : Nat :=
  if symbol = [] then 0 else stubsInCommands syms slide symbol cmds 0

/-- 0 for none. -/
def npImportStubForSymbol (mh : MachHeader) (slide : Nat) (mem : Nat → UInt8) (symbol : Bytes) : Nat :=
  match mh.loadCommands with
  | none => 0
  | some cmds =>
      match loadSymbols cmds slide mem with
      | none => 0
      | some syms => importStubForSymbol cmds slide syms symbol

/-! ## Images -/

def commandSections (lc : Bytes) : List Bytes :=
  if u32 lc 0 = lcSegment64 then (segmentSections lc).getD [] else []

def stubSections (cmds : List Bytes) : List Bytes := (cmds.flatMap commandSections).filter isStubSection

/-- An image with its tables: its segments hold their sections, and its stub sections are in memory, apart. -/
structure StubImage where
  header : MachHeader
  slide : Nat
  mem : Nat → UInt8
  cmds : List Bytes
  syms : Symbols
  walks : header.loadCommands = some cmds
  loads : loadSymbols cmds slide mem = some syms
  held : ∀ lc ∈ cmds, u32 lc 0 = lcSegment64 → segmentSections lc ≠ none
  placed : ∀ sect ∈ stubSections cmds, 0 < sectBase slide sect ∧ sectBase slide sect + sectSize sect < 2 ^ 64
  apart : (stubSections cmds).Pairwise fun s t ↦
    sectBase slide s + sectSize s ≤ sectBase slide t ∨ sectBase slide t + sectSize t ≤ sectBase slide s

/-- The C string at an offset. -/
def CStringAt (strings : Nat → UInt8) (p : Nat) (name : Bytes) : Prop := 0 ∉ name ∧ strcmpEq strings p name = true

/-- A multiple of the stride inside a stub section, the piece of a stub at its end among them. -/
def StubAt (cmds : List Bytes) (slide : Nat) (sect : Bytes) (k a : Nat) : Prop :=
  sect ∈ stubSections cmds ∧ k * reserved2 sect < sectSize sect ∧ a = sectBase slide sect + k * reserved2 sect

/-- A stub at `a` carries the name. -/
def Carries (cmds : List Bytes) (slide : Nat) (syms : Symbols) (a : Nat) (name : Bytes) : Prop :=
  ∃ sect k, StubAt cmds slide sect k a ∧
    ∃ strx, indirectSymbolName syms (slotIndex sect k) = some strx ∧ CStringAt syms.strings strx name

/-- A stub of a whole stride does. -/
def WholeCarries (cmds : List Bytes) (slide : Nat) (syms : Symbols) (a : Nat) (name : Bytes) : Prop :=
  ∃ sect k, (StubAt cmds slide sect k a ∧ k < sectSize sect / reserved2 sect) ∧
    ∃ strx, indirectSymbolName syms (slotIndex sect k) = some strx ∧ CStringAt syms.strings strx name

theorem strcmpEq_cons {strings : Nat → UInt8} {p : Nat} {c : UInt8} {s : Bytes} :
    strcmpEq strings p (c :: s) = true ↔ strings p = c ∧ strcmpEq strings (p + 1) s = true := by
  rw [strcmpEq]
  by_cases hc : strings p = c
  · rw [if_neg (not_not.mpr hc)]
    exact (and_iff_right hc).symm
  · rw [if_pos hc]
    exact iff_of_false nofun fun h ↦ hc h.1

/-! ## The two look-ups -/

/-- The section a stub's address is in. -/
def holdsStub (slide stub : Nat) (sect : Bytes) : Bool :=
  isStubSection sect && decide (sectBase slide sect ≤ stub ∧ stub < (sectBase slide sect + sectSize sect) % 2 ^ 64)

def stubName (syms : Symbols) (slide stub : Nat) (sect : Bytes) : Option Nat :=
  let offset := stub - sectBase slide sect
  if offset % reserved2 sect ≠ 0 then none
  else indirectSymbolName syms (slotIndex sect (offset / reserved2 sect))

theorem symbolInSections_eq (syms : Symbols) (slide stub : Nat) (sects : List Bytes) :
    symbolInSections syms slide stub sects = (sects.find? (holdsStub slide stub)).map (stubName syms slide stub) := by
  induction sects with
  | nil => rfl
  | cons sect rest ih =>
    rw [symbolInSections]
    by_cases hstub : isStubSection sect = false
    · rw [if_pos hstub, ih, List.find?_cons_of_neg (by rw [holdsStub, hstub, Bool.false_and]; decide)]
    · rw [if_neg hstub]
      rw [Bool.not_eq_false] at hstub
      by_cases hout : stub < sectBase slide sect ∨ (sectBase slide sect + sectSize sect) % 2 ^ 64 ≤ stub
      · rw [if_pos hout, ih, List.find?_cons_of_neg]
        rw [holdsStub, hstub, Bool.true_and, decide_eq_true_iff]
        omega
      · rw [if_neg hout, List.find?_cons_of_pos, Option.map_some, stubName]
        · exact (apply_ite some _ _ _).symm
        · rw [holdsStub, hstub, Bool.true_and, decide_eq_true_iff]
          omega

theorem symbolInCommands_eq (syms : Symbols) (slide stub : Nat) {cmds : List Bytes}
    (held : ∀ lc ∈ cmds, u32 lc 0 = lcSegment64 → segmentSections lc ≠ none) :
    symbolInCommands syms slide stub cmds =
      ((cmds.flatMap commandSections).find? (holdsStub slide stub)).bind (stubName syms slide stub) := by
  induction cmds with
  | nil => rfl
  | cons lc rest ih =>
    have hrest := ih fun lc hlc ↦ held lc (List.mem_cons_of_mem _ hlc)
    rw [symbolInCommands, List.flatMap_cons, List.find?_append]
    by_cases hseg : u32 lc 0 = lcSegment64
    · obtain ⟨sects, hsects⟩ := Option.ne_none_iff_exists'.mp (held lc List.mem_cons_self hseg)
      have hcmd : commandSections lc = sects := by rw [commandSections, if_pos hseg, hsects, Option.getD_some]
      rw [if_neg (not_not.mpr hseg), hsects, hcmd]
      simp only [symbolInSections_eq, hrest]
      cases sects.find? (holdsStub slide stub) <;> rfl
    · rw [if_pos hseg, hrest, commandSections, if_neg hseg, List.find?_nil, Option.none_or]

theorem reserved2_pos {sect : Bytes} (h : isStubSection sect = true) : 0 < reserved2 sect := by
  rw [isStubSection, Bool.and_eq_true, bne_iff_ne] at h
  exact Nat.pos_of_ne_zero h.2

theorem mem_stubSections {cmds : List Bytes} {sect : Bytes} :
    sect ∈ stubSections cmds ↔ sect ∈ cmds.flatMap commandSections ∧ isStubSection sect = true := List.mem_filter

namespace StubImage

variable (image : StubImage)

/-- Sections apart from each other have no stub in common. -/
theorem section_unique {s t : Bytes} {stub : Nat} (hs : s ∈ stubSections image.cmds) (ht : t ∈ stubSections image.cmds)
    (hin : sectBase image.slide s ≤ stub ∧ stub < sectBase image.slide s + sectSize s)
    (hin' : sectBase image.slide t ≤ stub ∧ stub < sectBase image.slide t + sectSize t) : s = t := by
  by_contra hne
  have hsymm : Std.Symm fun s t ↦ sectBase image.slide s + sectSize s ≤ sectBase image.slide t ∨
      sectBase image.slide t + sectSize t ≤ sectBase image.slide s := ⟨fun _ _ h ↦ Or.symm h⟩
  have := image.apart.forall hs ht hne
  omega

theorem holdsStub_iff {sect : Bytes} {stub : Nat} (hsect : sect ∈ stubSections image.cmds) :
    holdsStub image.slide stub sect = true ↔
      sectBase image.slide sect ≤ stub ∧ stub < sectBase image.slide sect + sectSize sect := by
  have hplaced := image.placed sect hsect
  rw [holdsStub, (mem_stubSections.mp hsect).2, Bool.true_and, decide_eq_true_iff, Nat.mod_eq_of_lt hplaced.2]

theorem stubAt_inside {sect : Bytes} {k a : Nat} (h : StubAt image.cmds image.slide sect k a) :
    sectBase image.slide sect ≤ a ∧ a < sectBase image.slide sect + sectSize sect := by
  obtain ⟨-, hlt, rfl⟩ := h
  omega

theorem find_section {sect : Bytes} {stub : Nat} (hsect : sect ∈ stubSections image.cmds)
    (hin : sectBase image.slide sect ≤ stub ∧ stub < sectBase image.slide sect + sectSize sect) :
    (image.cmds.flatMap commandSections).find? (holdsStub image.slide stub) = some sect := by
  apply find?_eq_some_of_unique (mem_stubSections.mp hsect).1 ((image.holdsStub_iff hsect).mpr hin)
  intro other hother hholds
  have hstub : isStubSection other = true := by
    rw [holdsStub, Bool.and_eq_true] at hholds
    exact hholds.1
  have hmem := mem_stubSections.mpr ⟨hother, hstub⟩
  exact image.section_unique hmem hsect ((image.holdsStub_iff hmem).mp hholds) hin

/-- The first look-up names the address of a stub by the stub's entry, and no other address. -/
theorem importStubSymbol_eq_some (syms : Symbols) (a strx : Nat) :
    importStubSymbol image.cmds image.slide syms a = some strx ↔
      ∃ sect k, StubAt image.cmds image.slide sect k a ∧ indirectSymbolName syms (slotIndex sect k) = some strx := by
  rw [importStubSymbol]
  apply Iff.intro
  · intro h
    split at h
    · cases h
    · rw [symbolInCommands_eq _ _ _ image.held] at h
      obtain ⟨sect, hfind, hname⟩ := Option.bind_eq_some_iff.mp h
      have hholds := List.find?_some hfind
      have hstub : isStubSection sect = true := by
        rw [holdsStub, Bool.and_eq_true] at hholds
        exact hholds.1
      have hsect := mem_stubSections.mpr ⟨List.mem_of_find?_eq_some hfind, hstub⟩
      have hin := (image.holdsStub_iff hsect).mp hholds
      rw [stubName] at hname
      by_cases hmod : (a - sectBase image.slide sect) % reserved2 sect = 0
      · rw [if_neg (not_not.mpr hmod)] at hname
        have hmul := Nat.div_mul_cancel (Nat.dvd_of_mod_eq_zero hmod)
        exact ⟨sect, _, ⟨hsect, by omega, by omega⟩, hname⟩
      · rw [if_pos hmod] at hname
        cases hname
  · rintro ⟨sect, k, hstub, hname⟩
    have hin := stubAt_inside image hstub
    obtain ⟨hsect, hlt, rfl⟩ := hstub
    have hplaced := image.placed sect hsect
    have hstride := reserved2_pos (mem_stubSections.mp hsect).2
    rw [if_neg (by omega), symbolInCommands_eq _ _ _ image.held, image.find_section hsect hin, Option.bind_some,
      stubName, Nat.add_sub_cancel_left, Nat.mul_mod_left, if_neg (by decide), Nat.mul_div_cancel _ hstride]
    exact hname

end StubImage

/-- Keeping the first and giving up at a second. -/
def soleFrom : List Nat → Nat → Option Nat
  | [], found => some found
  | a :: as, found => if found ≠ 0 then none else soleFrom as a

theorem soleFrom_append (l m : List Nat) (found : Nat) :
    soleFrom (l ++ m) found = (soleFrom l found).bind (soleFrom m) := by
  induction l generalizing found with
  | nil => rfl
  | cons a as ih =>
    rw [List.cons_append, soleFrom, soleFrom]
    by_cases hfound : found = 0
    · rw [if_neg (not_not.mpr hfound), if_neg (not_not.mpr hfound), ih]
    · rw [if_pos hfound, if_pos hfound, Option.bind_none]

theorem soleFrom_eq {l : List Nat} (h : ∀ a ∈ l, a ≠ 0) (a : Nat) (ha : a ≠ 0) :
    (soleFrom l 0).getD 0 = a ↔ l = [a] := by
  match l with
  | [] => exact iff_of_false (fun h ↦ ha h.symm) nofun
  | [b] =>
    rw [List.singleton_inj]
    rfl
  | b :: c :: l =>
    rw [soleFrom, if_neg (not_not.mpr rfl), soleFrom, if_pos (h b List.mem_cons_self)]
    exact iff_of_false (fun h ↦ ha h.symm) nofun

/-- A slot's name is the symbol. -/
def slotCarries (syms : Symbols) (symbol sect : Bytes) (k : Nat) : Bool :=
  match indirectSymbolName syms (slotIndex sect k) with
  | none => false
  | some name => strcmpEq syms.strings name symbol

def stubAddress (slide : Nat) (sect : Bytes) (k : Nat) : Nat := (sectBase slide sect + k * reserved2 sect) % 2 ^ 64

/-- The addresses of a section's whole stubs that carry the symbol. -/
def carriers (syms : Symbols) (slide : Nat) (symbol sect : Bytes) : List Nat :=
  ((List.range (sectSize sect / reserved2 sect)).filter (slotCarries syms symbol sect)).map (stubAddress slide sect)

theorem stubsInSection_eq (syms : Symbols) (slide : Nat) (symbol sect : Bytes) (ks : List Nat) (found : Nat) :
    stubsInSection syms slide symbol sect ks found =
      soleFrom ((ks.filter (slotCarries syms symbol sect)).map (stubAddress slide sect)) found := by
  induction ks generalizing found with
  | nil => rfl
  | cons k ks ih =>
    rw [stubsInSection]
    cases hname : indirectSymbolName syms (slotIndex sect k) with
    | none =>
      have hno : slotCarries syms symbol sect k = false := by rw [slotCarries, hname]
      rw [List.filter_cons_of_neg (by rw [hno]; decide)]
      exact ih found
    | some name =>
      have hcarries : slotCarries syms symbol sect k = strcmpEq syms.strings name symbol := by rw [slotCarries, hname]
      cases heq : strcmpEq syms.strings name symbol with
      | false =>
        rw [List.filter_cons_of_neg (by rw [hcarries, heq]; decide)]
        simp only [heq, if_true]
        exact ih found
      | true =>
        rw [List.filter_cons_of_pos (hcarries.trans heq), List.map_cons, soleFrom]
        simp only [heq, Bool.true_eq_false, if_false, ih]
        rfl

theorem stubsInSections_eq (syms : Symbols) (slide : Nat) (symbol : Bytes) (sects : List Bytes) (found : Nat) :
    stubsInSections syms slide symbol sects found =
      soleFrom ((sects.filter isStubSection).flatMap (carriers syms slide symbol)) found := by
  induction sects generalizing found with
  | nil => rfl
  | cons sect rest ih =>
    rw [stubsInSections]
    by_cases hstub : isStubSection sect = false
    · rw [if_pos hstub, List.filter_cons_of_neg (by rw [hstub]; decide), ih]
    · rw [if_neg hstub, List.filter_cons_of_pos ((Bool.not_eq_false _).mp hstub), List.flatMap_cons, soleFrom_append,
        stubsInSection_eq]
      simp only [ih]
      rw [carriers]
      cases soleFrom _ found <;> rfl

theorem stubsInCommands_eq (syms : Symbols) (slide : Nat) (symbol : Bytes) {cmds : List Bytes} (found : Nat)
    (held : ∀ lc ∈ cmds, u32 lc 0 = lcSegment64 → segmentSections lc ≠ none) :
    stubsInCommands syms slide symbol cmds found =
      (soleFrom ((stubSections cmds).flatMap (carriers syms slide symbol)) found).getD 0 := by
  induction cmds generalizing found with
  | nil => rfl
  | cons lc rest ih =>
    have hrest (found : Nat) := ih found fun lc hlc ↦ held lc (List.mem_cons_of_mem _ hlc)
    rw [stubsInCommands, stubSections, List.flatMap_cons, List.filter_append, List.flatMap_append, soleFrom_append]
    by_cases hseg : u32 lc 0 = lcSegment64
    · obtain ⟨sects, hsects⟩ := Option.ne_none_iff_exists'.mp (held lc List.mem_cons_self hseg)
      have hcmd : commandSections lc = sects := by rw [commandSections, if_pos hseg, hsects, Option.getD_some]
      rw [if_neg (not_not.mpr hseg), hsects, hcmd]
      simp only [stubsInSections_eq, hrest]
      cases soleFrom _ found <;> rfl
    · rw [if_pos hseg, hrest, commandSections, if_neg hseg]
      rfl

namespace StubImage

variable (image : StubImage)

theorem stubAddress_eq {sect : Bytes} {k : Nat} (hsect : sect ∈ stubSections image.cmds)
    (hk : k < sectSize sect / reserved2 sect) :
    stubAddress image.slide sect k = sectBase image.slide sect + k * reserved2 sect ∧ k * reserved2 sect < sectSize sect := by
  have hplaced := image.placed sect hsect
  have hstride := reserved2_pos (mem_stubSections.mp hsect).2
  have hlt : k * reserved2 sect < sectSize sect := by
    calc k * reserved2 sect < (k + 1) * reserved2 sect := by rw [Nat.succ_mul]; omega
      _ ≤ sectSize sect := (Nat.le_div_iff_mul_le hstride).mp hk
  exact ⟨Nat.mod_eq_of_lt (by omega), hlt⟩

omit image in
theorem slotCarries_iff (syms : Symbols) {symbol : Bytes} (hnul : 0 ∉ symbol) (sect : Bytes) (k : Nat) :
    slotCarries syms symbol sect k = true ↔
      ∃ strx, indirectSymbolName syms (slotIndex sect k) = some strx ∧ CStringAt syms.strings strx symbol := by
  rw [slotCarries]
  cases hname : indirectSymbolName syms (slotIndex sect k) with
  | none => exact iff_of_false nofun (by rintro ⟨_, h, -⟩; cases h)
  | some name =>
    apply Iff.intro
    · intro h
      exact ⟨name, rfl, hnul, h⟩
    · rintro ⟨strx, hstrx, -, h⟩
      rw [Option.some.inj hstrx]
      exact h

theorem mem_carriers (syms : Symbols) {symbol : Bytes} (hnul : 0 ∉ symbol) (a : Nat) :
    a ∈ (stubSections image.cmds).flatMap (carriers syms image.slide symbol) ↔
      WholeCarries image.cmds image.slide syms a symbol := by
  rw [List.mem_flatMap]
  apply Iff.intro
  · rintro ⟨sect, hsect, ha⟩
    obtain ⟨k, hk, rfl⟩ := List.mem_map.mp ha
    obtain ⟨hrange, hcarries⟩ := List.mem_filter.mp hk
    have hwhole := List.mem_range.mp hrange
    obtain ⟨haddr, hlt⟩ := image.stubAddress_eq hsect hwhole
    exact ⟨sect, k, ⟨⟨hsect, hlt, haddr⟩, hwhole⟩, (slotCarries_iff syms hnul sect k).mp hcarries⟩
  · rintro ⟨sect, k, ⟨⟨hsect, -, rfl⟩, hwhole⟩, hname⟩
    refine ⟨sect, hsect, List.mem_map.mpr ⟨k, ?_, (image.stubAddress_eq hsect hwhole).1⟩⟩
    exact List.mem_filter.mpr ⟨List.mem_range.mpr hwhole, (slotCarries_iff syms hnul sect k).mpr hname⟩

theorem carriers_inside {syms : Symbols} {symbol sect : Bytes} {a : Nat} (hsect : sect ∈ stubSections image.cmds)
    (ha : a ∈ carriers syms image.slide symbol sect) :
    sectBase image.slide sect ≤ a ∧ a < sectBase image.slide sect + sectSize sect := by
  obtain ⟨k, hk, rfl⟩ := List.mem_map.mp ha
  obtain ⟨haddr, hlt⟩ := image.stubAddress_eq hsect (List.mem_range.mp (List.mem_filter.mp hk).1)
  omega

theorem nodup_carriers (syms : Symbols) (symbol : Bytes) :
    ((stubSections image.cmds).flatMap (carriers syms image.slide symbol)).Nodup := by
  apply List.nodup_flatMap.mpr
  apply And.intro
  · intro sect hsect
    apply List.Nodup.map_on ?_ (List.nodup_range.filter _)
    intro k hk j hj heq
    have hstride := reserved2_pos (mem_stubSections.mp hsect).2
    rw [(image.stubAddress_eq hsect (List.mem_range.mp (List.mem_filter.mp hk).1)).1,
      (image.stubAddress_eq hsect (List.mem_range.mp (List.mem_filter.mp hj).1)).1] at heq
    exact Nat.eq_of_mul_eq_mul_right hstride (Nat.add_left_cancel heq)
  · apply image.apart.imp_of_mem
    intro s t hs ht hapart a has hat
    have := image.carriers_inside hs has
    have := image.carriers_inside ht hat
    omega

/-- The second look-up finds a stub exactly when it is the one whole stub that carries the symbol. -/
theorem importStubForSymbol_eq (syms : Symbols) {symbol : Bytes} (hnul : 0 ∉ symbol) (hne : symbol ≠ []) {a : Nat}
    (ha : a ≠ 0) :
    importStubForSymbol image.cmds image.slide syms symbol = a ↔
      WholeCarries image.cmds image.slide syms a symbol ∧
        ∀ b, WholeCarries image.cmds image.slide syms b symbol → b = a := by
  have hpos : ∀ b ∈ (stubSections image.cmds).flatMap (carriers syms image.slide symbol), b ≠ 0 := by
    intro b hb
    obtain ⟨sect, hsect, hb⟩ := List.mem_flatMap.mp hb
    have := image.carriers_inside hsect hb
    have := image.placed sect hsect
    omega
  rw [importStubForSymbol, if_neg hne, stubsInCommands_eq _ _ _ _ image.held, soleFrom_eq hpos a ha,
    nodup_eq_singleton_iff (image.nodup_carriers syms symbol), image.mem_carriers syms hnul]
  simp only [image.mem_carriers syms hnul]

/-- An address the first look-up gives a name. -/
def Named (syms : Symbols) (a : Nat) (name : Bytes) : Prop :=
  ∃ strx, importStubSymbol image.cmds image.slide syms a = some strx ∧ CStringAt syms.strings strx name

theorem named_iff (syms : Symbols) (a : Nat) (name : Bytes) :
    image.Named syms a name ↔ Carries image.cmds image.slide syms a name := by
  apply Iff.intro
  · rintro ⟨strx, hsymbol, hname⟩
    obtain ⟨sect, k, hstub, hslot⟩ := (image.importStubSymbol_eq_some syms a strx).mp hsymbol
    exact ⟨sect, k, hstub, strx, hslot, hname⟩
  · rintro ⟨sect, k, hstub, strx, hslot, hname⟩
    exact ⟨strx, (image.importStubSymbol_eq_some syms a strx).mpr ⟨sect, k, hstub, hslot⟩, hname⟩

theorem npImportStubSymbol_eq (a : Nat) :
    npImportStubSymbol image.header image.slide image.mem a = importStubSymbol image.cmds image.slide image.syms a := by
  simp only [npImportStubSymbol, image.walks, image.loads]

theorem npImportStubForSymbol_eq (symbol : Bytes) :
    npImportStubForSymbol image.header image.slide image.mem symbol =
      importStubForSymbol image.cmds image.slide image.syms symbol := by
  simp only [npImportStubForSymbol, image.walks, image.loads]

end StubImage

/-! ## Reading inside the tables -/

/-- The two differ at most in what is read outside the tables. -/
structure Symbols.SameTables (syms other : Symbols) : Prop where
  nsyms : other.nsyms = syms.nsyms
  strsize : other.strsize = syms.strsize
  nindirect : other.nindirect = syms.nindirect
  strx : ∀ i < syms.nsyms, other.strx i = syms.strx i
  strings : ∀ i < syms.strsize, other.strings i = syms.strings i
  indirect : ∀ i < syms.nindirect, other.indirect i = syms.indirect i

theorem Symbols.SameTables.indirectSymbolName {syms other : Symbols} (h : syms.SameTables other) (slot : Nat) :
    indirectSymbolName other slot = indirectSymbolName syms slot := by
  unfold NotProton.Core.indirectSymbolName
  rw [h.nindirect, h.nsyms, h.strsize]
  by_cases hslot : syms.nindirect ≤ slot
  · rw [if_pos hslot, if_pos hslot]
  · rw [if_neg hslot, if_neg hslot, h.indirect slot (by omega)]
    by_cases hindex : syms.nsyms ≤ syms.indirect slot
    · simp only [hindex, if_true]
    · simp only [h.strx (syms.indirect slot) (by omega)]

theorem lt_strsize {syms : Symbols} {slot strx : Nat} (h : indirectSymbolName syms slot = some strx) :
    strx < syms.strsize := by
  simp only [indirectSymbolName] at h
  split_ifs at h with _ _ _ hsize
  obtain rfl := Option.some.inj h
  omega

/-- A name that ends inside the table is the same whatever is behind it. -/
theorem cStringAt_congr {strings other : Nat → UInt8} {size p stop : Nat} {name : Bytes}
    (h : ∀ i < size, other i = strings i) (hp : p ≤ stop) (hstop : stop < size) (hzero : strings stop = 0) :
    CStringAt other p name ↔ CStringAt strings p name := by
  apply and_congr_right
  intro hnul
  induction name generalizing p with
  | nil => rw [strcmpEq, strcmpEq, h p (by omega)]
  | cons c s ih =>
    rw [strcmpEq_cons, strcmpEq_cons, h p (by omega)]
    apply and_congr_right
    intro hc
    have hne : p ≠ stop := by
      rintro rfl
      rw [hzero] at hc
      exact hnul (hc ▸ List.mem_cons_self)
    exact ih (by omega) fun h0 ↦ hnul (List.mem_cons_of_mem c h0)

def bytesAt (strings : Nat → UInt8) : Nat → Nat → Bytes
  | _, 0 => []
  | p, n + 1 => strings p :: bytesAt strings (p + 1) n

theorem zero_notMem_bytesAt {strings : Nat → UInt8} {p n : Nat} (h : ∀ i, p ≤ i → i < p + n → strings i ≠ 0) :
    0 ∉ bytesAt strings p n := by
  induction n generalizing p with
  | zero => exact List.not_mem_nil
  | succ n ih =>
    rw [bytesAt, List.mem_cons, not_or]
    exact ⟨(h p (by omega) (by omega)).symm, ih fun i hle hlt ↦ h i (by omega) (by omega)⟩

theorem strcmpEq_bytesAt {strings : Nat → UInt8} {p n : Nat} (h : strings (p + n) = 0) :
    strcmpEq strings p (bytesAt strings p n) = true := by
  induction n generalizing p with
  | zero => exact beq_iff_eq.mpr h
  | succ n ih => exact strcmpEq_cons.mpr ⟨rfl, ih (by rwa [Nat.add_assoc, Nat.add_comm 1])⟩

/-- Where no NUL follows there is no string. -/
theorem strcmpEq_endless {strings : Nat → UInt8} {p : Nat} (h : ∀ i, p ≤ i → strings i ≠ 0) (name : Bytes) :
    strcmpEq strings p name = false := by
  rw [← Bool.not_eq_true]
  induction name generalizing p with
  | nil => exact fun hzero ↦ h p (Nat.le_refl p) (beq_iff_eq.mp hzero)
  | cons c s ih => exact fun hc ↦ ih (fun i hle ↦ h i (by omega)) (strcmpEq_cons.mp hc).2

/-! ## Both ways -/

namespace StubImage

variable (image : StubImage)

/-- The first look-up gives the address a name. -/
def Names (a : Nat) (name : Bytes) : Prop :=
  ∃ strx, npImportStubSymbol image.header image.slide image.mem a = some strx ∧ CStringAt image.syms.strings strx name

/-- The look-ups are inverse to each other, and neither depends on anything outside the tables. -/
structure Inverse : Prop where
  back : ∀ name, 0 ∉ name → ∀ a ≠ 0,
    npImportStubForSymbol image.header image.slide image.mem name = a → image.Names a name
  forth : ∀ name ≠ [], ∀ a, image.Names a name → (∀ b, image.Names b name → b = a) →
    npImportStubForSymbol image.header image.slide image.mem name = a
  twice : ∀ name a b, a ≠ b → image.Names a name → image.Names b name →
    npImportStubForSymbol image.header image.slide image.mem name = 0
  inside : ∀ other, image.syms.SameTables other →
    (∀ a name, image.Named other a name ↔ image.Named image.syms a name) ∧
      ∀ name, 0 ∉ name → importStubForSymbol image.cmds image.slide other name =
        importStubForSymbol image.cmds image.slide image.syms name

/-- Every stub's name ends in the string table, and what a section's size leaves of a stub at its end does not
matter for which names are on one stub. -/
structure StubsWhole : Prop where
  ended : ∀ sect k a strx, StubAt image.cmds image.slide sect k a →
    indirectSymbolName image.syms (slotIndex sect k) = some strx →
    ∃ stop, strx ≤ stop ∧ stop < image.syms.strsize ∧ image.syms.strings stop = 0
  pieces : ∀ name ≠ [], (∃! a, Carries image.cmds image.slide image.syms a name) ↔
    ∃! a, WholeCarries image.cmds image.slide image.syms a name

theorem names_iff (a : Nat) (name : Bytes) :
    image.Names a name ↔ Carries image.cmds image.slide image.syms a name := by
  rw [← image.named_iff, Names, npImportStubSymbol_eq, Named]

omit image in
theorem carries_of_whole {cmds : List Bytes} {slide : Nat} {syms : Symbols} {a : Nat} {name : Bytes}
    (h : WholeCarries cmds slide syms a name) : Carries cmds slide syms a name := by
  obtain ⟨sect, k, ⟨hstub, -⟩, hname⟩ := h
  exact ⟨sect, k, hstub, hname⟩

omit image in
/-- A section of a whole number of strides has no piece of a stub. -/
theorem carries_iff_whole {cmds : List Bytes} (h : ∀ sect ∈ stubSections cmds, reserved2 sect ∣ sectSize sect) (slide : Nat)
    (syms : Symbols) (a : Nat) (name : Bytes) : Carries cmds slide syms a name ↔ WholeCarries cmds slide syms a name := by
  refine ⟨?_, carries_of_whole⟩
  rintro ⟨sect, k, hstub, hname⟩
  have hwhole : k < sectSize sect / reserved2 sect := by
    rw [Nat.lt_div_iff_mul_lt_of_dvd (reserved2_pos (mem_stubSections.mp hstub.1).2).ne' (h sect hstub.1)]
    exact hstub.2.1
  exact ⟨sect, k, ⟨hstub, hwhole⟩, hname⟩

theorem carries_ne_zero {syms : Symbols} {a : Nat} {name : Bytes} (h : Carries image.cmds image.slide syms a name) :
    a ≠ 0 := by
  obtain ⟨sect, k, hstub, -⟩ := h
  have := stubAt_inside image hstub
  have := image.placed sect hstub.1
  omega

omit image in
theorem carries_no_nul {cmds : List Bytes} {slide : Nat} {syms : Symbols} {a : Nat} {name : Bytes}
    (h : Carries cmds slide syms a name) : 0 ∉ name := by
  obtain ⟨_, _, _, _, _, hname⟩ := h
  exact hname.1

/-- The second look-up, by the whole stubs. -/
theorem forSymbol_eq {name : Bytes} (hnul : 0 ∉ name) (hne : name ≠ []) {a : Nat} (ha : a ≠ 0) :
    npImportStubForSymbol image.header image.slide image.mem name = a ↔
      WholeCarries image.cmds image.slide image.syms a name ∧
        ∀ b, WholeCarries image.cmds image.slide image.syms b name → b = a := by
  rw [npImportStubForSymbol_eq, importStubForSymbol_eq image image.syms hnul hne ha]

/-- A name that ran past the table would change with what is behind it. -/
theorem Inverse.ended (h : image.Inverse) {sect : Bytes} {k a strx : Nat}
    (hstub : StubAt image.cmds image.slide sect k a)
    (hslot : indirectSymbolName image.syms (slotIndex sect k) = some strx) :
    ∃ stop, strx ≤ stop ∧ stop < image.syms.strsize ∧ image.syms.strings stop = 0 := by
  by_contra hno
  have hnonzero (i : Nat) (hle : strx ≤ i) (hlt : i < image.syms.strsize) : image.syms.strings i ≠ 0 :=
    fun hzero ↦ hno ⟨i, hle, hlt, hzero⟩
  let behind (c : UInt8) : Symbols :=
    { image.syms with strings := fun i ↦ if i < image.syms.strsize then image.syms.strings i else c }
  have hsame (c : UInt8) : image.syms.SameTables (behind c) :=
    ⟨rfl, rfl, rfl, fun _ _ ↦ rfl, fun i hi ↦ if_pos hi, fun _ _ ↦ rfl⟩
  have hname (c : UInt8) : importStubSymbol image.cmds image.slide (behind c) a = some strx :=
    (image.importStubSymbol_eq_some _ a strx).mpr ⟨sect, k, hstub, by rw [(hsame c).indirectSymbolName, hslot]⟩
  have hstrx := lt_strsize hslot
  -- With a NUL behind the table the name is all that is left of the table.
  have hended : image.Named (behind 0) a (bytesAt (behind 0).strings strx (image.syms.strsize - strx)) := by
    refine ⟨strx, hname 0, zero_notMem_bytesAt ?_, strcmpEq_bytesAt ?_⟩
    · intro i hle hlt
      show (if i < image.syms.strsize then image.syms.strings i else 0) ≠ 0
      rw [if_pos (by omega)]
      exact hnonzero i hle (by omega)
    · show (if strx + (image.syms.strsize - strx) < image.syms.strsize then _ else _) = _
      rw [if_neg (by omega)]
  -- With none there is no name.
  obtain ⟨strx', hstrx', hother⟩ :=
    (((h.inside _ (hsame 1)).1 a _).trans ((h.inside _ (hsame 0)).1 a _).symm).mpr hended
  obtain rfl := Option.some.inj ((hname 1).symm.trans hstrx')
  have hendless : strcmpEq (behind 1).strings strx (bytesAt (behind 0).strings strx (image.syms.strsize - strx)) = false := by
    apply strcmpEq_endless
    intro i hle
    show (if i < image.syms.strsize then image.syms.strings i else 1) ≠ 0
    split
    · exact hnonzero i hle ‹_›
    · decide
  exact absurd hother.2 (by rw [hendless]; decide)

theorem Inverse.stubsWhole (h : image.Inverse) : image.StubsWhole where
  ended _ _ _ _ hstub hslot := h.ended image hstub hslot
  pieces name hne := by
    apply Iff.intro
    · rintro ⟨a, hcarries, hunique⟩
      have hfound : npImportStubForSymbol image.header image.slide image.mem name = a := by
        apply h.forth name hne a ((image.names_iff a name).mpr hcarries)
        intro b hb
        exact hunique b ((image.names_iff b name).mp hb)
      exact ⟨a, (image.forSymbol_eq (carries_no_nul hcarries) hne (image.carries_ne_zero hcarries)).mp hfound⟩
    · rintro ⟨w, hwhole, hunique⟩
      have hcarries := carries_of_whole hwhole
      have hfound : npImportStubForSymbol image.header image.slide image.mem name = w :=
        (image.forSymbol_eq (carries_no_nul hcarries) hne (image.carries_ne_zero hcarries)).mpr ⟨hwhole, hunique⟩
      refine ⟨w, hcarries, ?_⟩
      intro b hb
      by_contra hbw
      have hzero := h.twice name b w hbw ((image.names_iff b name).mpr hb) ((image.names_iff w name).mpr hcarries)
      exact image.carries_ne_zero hcarries (hfound.symm.trans hzero)

theorem StubsWhole.carries_congr (h : image.StubsWhole) {other : Symbols} (hsame : image.syms.SameTables other)
    {sect : Bytes} {k a : Nat} (hstub : StubAt image.cmds image.slide sect k a) (name : Bytes) :
    (∃ strx, indirectSymbolName other (slotIndex sect k) = some strx ∧ CStringAt other.strings strx name) ↔
      ∃ strx, indirectSymbolName image.syms (slotIndex sect k) = some strx ∧
        CStringAt image.syms.strings strx name := by
  rw [hsame.indirectSymbolName]
  apply exists_congr
  intro strx
  apply and_congr_right
  intro hslot
  obtain ⟨stop, hle, hlt, hzero⟩ := h.ended sect k a strx hstub hslot
  exact cStringAt_congr hsame.strings hle hlt hzero

theorem StubsWhole.wholeCarries_congr (h : image.StubsWhole) {other : Symbols} (hsame : image.syms.SameTables other)
    (a : Nat) (name : Bytes) :
    WholeCarries image.cmds image.slide other a name ↔ WholeCarries image.cmds image.slide image.syms a name := by
  apply exists_congr
  intro sect
  apply exists_congr
  intro k
  apply and_congr_right
  intro hstub
  exact h.carries_congr image hsame hstub.1 name

theorem StubsWhole.inverse (h : image.StubsWhole) : image.Inverse where
  back name hnul a ha hfound := by
    have hne : name ≠ [] := by
      rintro rfl
      rw [npImportStubForSymbol_eq] at hfound
      exact ha hfound.symm
    exact (image.names_iff a name).mpr (carries_of_whole ((image.forSymbol_eq hnul hne ha).mp hfound).1)
  forth name hne a hnames hunique := by
    have hcarries := (image.names_iff a name).mp hnames
    obtain ⟨w, hwhole, hw⟩ := (h.pieces name hne).mp
      ⟨a, hcarries, fun b hb ↦ hunique b ((image.names_iff b name).mpr hb)⟩
    obtain rfl := hunique w ((image.names_iff w name).mpr (carries_of_whole hwhole))
    exact (image.forSymbol_eq (carries_no_nul hcarries) hne (image.carries_ne_zero hcarries)).mpr ⟨hwhole, hw⟩
  twice name a b hab ha hb := by
    have hcarries := (image.names_iff a name).mp ha
    by_contra hfound
    have hne : name ≠ [] := by
      rintro rfl
      rw [npImportStubForSymbol_eq] at hfound
      exact hfound rfl
    obtain ⟨w, hw, hunique⟩ := (h.pieces name hne).mpr
      ⟨_, (image.forSymbol_eq (carries_no_nul hcarries) hne hfound).mp rfl⟩
    exact hab ((hunique a hcarries).trans (hunique b ((image.names_iff b name).mp hb)).symm)
  inside other hsame := by
    apply And.intro
    · intro a name
      rw [named_iff, named_iff]
      apply exists_congr
      intro sect
      apply exists_congr
      intro k
      apply and_congr_right
      intro hstub
      exact h.carries_congr image hsame hstub name
    · intro name hnul
      by_cases hne : name = []
      · rw [hne]
        rfl
      · -- Both images find a stub where it alone carries the name, whatever is behind the pieces.
        have hsole (a : Nat) (ha : a ≠ 0) : importStubForSymbol image.cmds image.slide other name = a ↔
            importStubForSymbol image.cmds image.slide image.syms name = a := by
          rw [image.importStubForSymbol_eq other hnul hne ha, image.importStubForSymbol_eq image.syms hnul hne ha]
          simp only [h.wholeCarries_congr image hsame]
        by_cases hzero : importStubForSymbol image.cmds image.slide other name = 0
        · by_contra hdiff
          have hfound : importStubForSymbol image.cmds image.slide image.syms name ≠ 0 := fun h0 ↦ hdiff (hzero.trans h0.symm)
          exact hdiff ((hsole _ hfound).mpr rfl)
        · exact ((hsole _ hzero).mp rfl).symm

/-- The look-ups are inverse and stay inside the tables exactly when every stub's name ends in the string table and
no piece of a stub at a section's end decides whether a name is on one stub. -/
theorem inverse_iff : image.Inverse ↔ image.StubsWhole := ⟨Inverse.stubsWhole image, StubsWhole.inverse image⟩

end StubImage

/-- A stub section of 16 bytes with a stride of 12.  Its first stub is local, what is left for a second one goes to
`_f`, the only symbol. -/
def pieceHeader : MachHeader where
  address := 0x1000
  ncmds := 4
  commands :=
    (leBytes 4 lcSegment64 ++ leBytes 4 152 ++ (ascii "__TEXT" ++ List.replicate 10 0) ++ leBytes 8 0x1000 ++
      leBytes 8 0x1000 ++ leBytes 8 0 ++ leBytes 8 0x1000 ++ leBytes 8 0 ++ leBytes 4 1 ++ leBytes 4 0 ++
      (List.replicate 32 0 ++ leBytes 8 0x1800 ++ leBytes 8 16 ++ List.replicate 16 0 ++ leBytes 4 8 ++ leBytes 4 0 ++
        leBytes 4 12 ++ leBytes 4 0)) ++
    (leBytes 4 lcSegment64 ++ leBytes 4 72 ++ (ascii "__LINKEDIT" ++ List.replicate 6 0) ++ leBytes 8 0x2000 ++
      leBytes 8 256 ++ leBytes 8 0x1000 ++ leBytes 8 256 ++ List.replicate 16 0) ++
    (leBytes 4 lcSymtab ++ leBytes 4 24 ++ leBytes 4 0x1000 ++ leBytes 4 1 ++ leBytes 4 0x1010 ++ leBytes 4 4) ++
    (leBytes 4 lcDysymtab ++ leBytes 4 80 ++ List.replicate 48 0 ++ leBytes 4 0x1014 ++ leBytes 4 2 ++
      List.replicate 16 0)

def pieceMemory (a : Nat) : UInt8 :=
  (leBytes 4 1 ++ List.replicate 12 0 ++ (0 :: ascii "_f" ++ [0]) ++ leBytes 4 0x80000000 ++ leBytes 4 0).getD
    (a - 0x2000) 0

def pieceCommands : List Bytes :=
  [pieceHeader.commands.take 152, (pieceHeader.commands.drop 152).take 72, (pieceHeader.commands.drop 224).take 24,
    pieceHeader.commands.drop 248]

def pieceSection : Bytes := (pieceHeader.commands.drop 72).take 80

theorem piece_loads : (loadSymbols pieceCommands 0 pieceMemory).isSome = true := by decide

theorem piece_sections : stubSections pieceCommands = [pieceSection] := by decide +kernel

def pieceImage : StubImage where
  header := pieceHeader
  slide := 0
  mem := pieceMemory
  cmds := pieceCommands
  syms := (loadSymbols pieceCommands 0 pieceMemory).get piece_loads
  walks := by decide +kernel
  loads := (Option.some_get piece_loads).symm
  held := by decide +kernel
  placed := by
    rw [piece_sections]
    decide
  apart := by
    rw [piece_sections]
    exact List.pairwise_singleton _ _

/-- `_f` is the name of 0x180C and of no other address, and has no stub. -/
theorem inverse_misses_piece : ¬ pieceImage.Inverse := by
  intro h
  have hnone : npImportStubForSymbol pieceImage.header pieceImage.slide pieceImage.mem (ascii "_f") = 0 := by
    decide +kernel
  have hsecond : npImportStubSymbol pieceImage.header pieceImage.slide pieceImage.mem 0x180C = some 1 := by
    decide +kernel
  have hname : CStringAt pieceImage.syms.strings 1 (ascii "_f") := by
    unfold CStringAt
    decide
  have hfound := h.forth (ascii "_f") (by decide) 0x180C ⟨1, hsecond, hname⟩ (by
    intro b hb
    obtain ⟨sect, k, ⟨hsect, hk, rfl⟩, strx, hslot, -⟩ := (pieceImage.names_iff b _).mp hb
    rw [show pieceImage.cmds = pieceCommands from rfl, piece_sections, List.mem_singleton] at hsect
    rw [hsect] at hk hslot ⊢
    have hsize : sectSize pieceSection = 16 := by decide
    have hstride : reserved2 pieceSection = 12 := by decide
    have hbase : sectBase 0 pieceSection = 0x1800 := by decide
    have hlocal : indirectSymbolName pieceImage.syms (slotIndex pieceSection 0) = none := by decide
    rw [hsize, hstride] at hk
    have hk1 : k = 1 := by
      have : k ≠ 0 := by
        rintro rfl
        rw [hlocal] at hslot
        cases hslot
      omega
    show sectBase 0 pieceSection + k * reserved2 pieceSection = 0x180C
    rw [hbase, hstride, hk1])
  have hbad : (0 : Nat) = 0x180C := hnone.symm.trans hfound
  omega

/-- The section has 24 bytes, so that the second stub is whole. -/
def wholeHeader : MachHeader :=
  { pieceHeader with commands := pieceHeader.commands.take 112 ++ (leBytes 8 24 ++ pieceHeader.commands.drop 120) }

def wholeCommands : List Bytes :=
  [wholeHeader.commands.take 152, (wholeHeader.commands.drop 152).take 72, (wholeHeader.commands.drop 224).take 24,
    wholeHeader.commands.drop 248]

def wholeSection : Bytes := (wholeHeader.commands.drop 72).take 80

theorem whole_loads : (loadSymbols wholeCommands 0 pieceMemory).isSome = true := by decide

theorem whole_sections : stubSections wholeCommands = [wholeSection] := by decide +kernel

def wholeImage : StubImage where
  header := wholeHeader
  slide := 0
  mem := pieceMemory
  cmds := wholeCommands
  syms := (loadSymbols wholeCommands 0 pieceMemory).get whole_loads
  walks := by decide +kernel
  loads := (Option.some_get whole_loads).symm
  held := by decide +kernel
  placed := by
    rw [whole_sections]
    decide
  apart := by
    rw [whole_sections]
    exact List.pairwise_singleton _ _

/-- The look-ups are inverse there, and `_f` has the second stub. -/
theorem inverse_whole : wholeImage.Inverse ∧
    npImportStubForSymbol wholeImage.header wholeImage.slide wholeImage.mem (ascii "_f") = 0x180C := by
  have hsections : stubSections wholeImage.cmds = [wholeSection] := whole_sections
  have hstride : reserved2 wholeSection = 12 := by decide
  have hsize : sectSize wholeSection = 24 := by decide
  have hinverse : wholeImage.Inverse := by
    apply wholeImage.inverse_iff.mpr
    constructor
    · rintro sect k a strx ⟨hsect, hk, -⟩ hslot
      rw [hsections, List.mem_singleton] at hsect
      rw [hsect, hstride, hsize] at hk
      have hname : indirectSymbolName wholeImage.syms (slotIndex wholeSection k) = none ∨
          indirectSymbolName wholeImage.syms (slotIndex wholeSection k) = some 1 := by
        have hk2 : k < 2 := by omega
        clear hk hslot
        revert k
        decide
      rw [hsect] at hslot
      cases hname with
      | inl hnone =>
        rw [hnone] at hslot
        cases hslot
      | inr hsome =>
        rw [hsome] at hslot
        obtain rfl := Option.some.inj hslot
        exact ⟨3, by decide, by decide, by decide⟩
    · intro name _
      have hwhole : ∀ sect ∈ stubSections wholeImage.cmds, reserved2 sect ∣ sectSize sect := by
        rw [hsections, List.forall_mem_singleton, hstride, hsize]
        decide
      simp only [StubImage.carries_iff_whole hwhole]
  refine ⟨hinverse, ?_⟩
  decide +kernel

end NotProton.Core
