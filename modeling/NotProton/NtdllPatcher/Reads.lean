import NotProton.NtdllPatcher.Apply
import NotProton.Library.Lists

/-! # Reads — what a call that succeeds has found, and which steps can only throw -/

open NotProton.Library

namespace NotProton.NtdllPatcher

/-! ## Single checks -/

theorem requireRange_ok {offset length : Int} {bytes : Bytes} {what : String} {u : Unit}
    (h : requireRange offset length bytes what = .ok u) :
    0 ≤ offset ∧ 0 ≤ length ∧ offset ≤ bytes.length - length := by
  unfold requireRange at h
  split at h
  next hok => exact hok
  next => cases h

theorem guard_ok {c : Prop} [Decidable c] {detail : String} {u : Unit}
    (h : guard_ c detail = .ok u) : c := by
  unfold guard_ at h
  split at h
  next hc => exact hc
  next => cases h

theorem exactly_ok {w n m : Nat} (h : exactly w n = .ok m) : m = n ∧ n < 2 ^ w := by
  unfold exactly at h
  split at h
  next hlt =>
    cases h
    exact ⟨rfl, hlt⟩
  next => cases h

theorem readField_ok {w : Nat} {bytes : Bytes} {offset v : Nat}
    (h : readField w bytes offset = .ok v) :
    offset + w ≤ bytes.length ∧ v = field w bytes offset := by
  obtain ⟨_, hrange, hv⟩ := bind_ok h
  have hr := requireRange_ok hrange
  cases hv
  exact ⟨by omega, rfl⟩

/-! ## Steps that do not stop the program -/

structure NoTrap {α : Type} (x : Except Failure α) : Prop where
  ne : x ≠ .error .trap

def Throws {α : Type} (x : Except Failure α) : Prop := ∃ detail, x = fail detail

section
variable {α β : Type} {x : Except Failure α} {f : α → Except Failure β}

theorem NoTrap.pure (a : α) : NoTrap (.ok a) := ⟨fun h ↦ by cases h⟩

theorem NoTrap.fail (detail : String) : NoTrap (α := α) (fail detail) := ⟨fun h ↦ by cases h⟩

theorem NoTrap.bind (hx : NoTrap x) (hf : ∀ a, NoTrap (f a)) : NoTrap (x >>= f) := by
  cases x with
  | ok a => exact hf a
  | error e =>
    refine ⟨fun h ↦ hx.ne ?_⟩
    cases h
    rfl

theorem Throws.bind (hx : NoTrap x) (hf : ∀ a, x = .ok a → Throws (f a)) : Throws (x >>= f) := by
  cases x with
  | ok a => exact hf a rfl
  | error e =>
    cases e with
    | stepFailure detail => exact ⟨detail, rfl⟩
    | trap => exact absurd rfl hx.ne

theorem Throws.bind_left (hx : Throws x) : Throws (x >>= f) := by
  obtain ⟨detail, rfl⟩ := hx
  exact ⟨detail, rfl⟩

theorem guard_noTrap (c : Prop) [Decidable c] (detail : String) : NoTrap (guard_ c detail) := by
  unfold guard_
  split
  · exact .pure _
  · exact .fail _

theorem guard_throws {c : Prop} [Decidable c] (h : ¬c) (detail : String) :
    Throws (guard_ c detail) := ⟨detail, if_neg h⟩

theorem requireRange_noTrap (offset length : Int) (bytes : Bytes) (what : String) :
    NoTrap (requireRange offset length bytes what) := by
  unfold requireRange
  split
  · exact .pure _
  · exact .fail _

theorem readField_noTrap (w : Nat) (bytes : Bytes) (offset : Nat) :
    NoTrap (readField w bytes offset) := .bind (requireRange_noTrap ..) fun _ ↦ .pure _

theorem readSection_noTrap (bytes : Bytes) (entry : Nat) : NoTrap (readSection bytes entry) :=
  .bind (readField_noTrap ..) fun _ ↦ .bind (readField_noTrap ..) fun _ ↦
    .bind (readField_noTrap ..) fun _ ↦ .bind (readField_noTrap ..) fun _ ↦ .pure _

theorem findOffset_noTrap (rva : Int) (bytes : Bytes) (what : String) (count entry : Nat) :
    NoTrap (findOffset rva bytes what count entry) := by
  induction count generalizing entry with
  | zero => exact .pure _
  | succ count ih =>
    refine .bind (readSection_noTrap ..) fun s ↦ ?_
    split
    · exact ih _
    · exact .bind (requireRange_noTrap ..) fun _ ↦ .pure _

theorem fileOffset_noTrap (rva : Int) (bytes : Bytes) (what : String) (patch : NtdllPatch) :
    NoTrap (fileOffset rva bytes what patch) := by
  refine .bind (readField_noTrap ..) fun pe ↦ .bind (readField_noTrap ..) fun sections ↦
    .bind (readField_noTrap ..) fun size ↦ .bind (findOffset_noTrap ..) fun found ↦ ?_
  cases found with
  | none => exact .fail _
  | some offset => exact .pure _

theorem validateHeaders_noTrap (patch : NtdllPatch) (bytes : Bytes) :
    NoTrap (validateHeaders patch bytes) := by
  refine .bind (readField_noTrap ..) fun pe ↦ .bind (readField_noTrap ..) fun signature ↦
    .bind (guard_noTrap ..) fun _ ↦ .bind (readField_noTrap ..) fun machine ↦
    .bind (guard_noTrap ..) fun _ ↦ .bind (readField_noTrap ..) fun magic ↦
    .bind (guard_noTrap ..) fun _ ↦ .bind ?_ fun base ↦ guard_noTrap ..
  unfold readImageBase
  split
  · exact readField_noTrap ..
  · exact readField_noTrap ..

theorem checkCave_noTrap (patch : NtdllPatch) (bytes payload : Bytes) :
    NoTrap (checkCave patch bytes payload) :=
  .bind (fileOffset_noTrap ..) fun _ ↦ .bind (fileOffset_noTrap ..) fun _ ↦
    .bind (guard_noTrap ..) fun _ ↦ .bind (guard_noTrap ..) fun _ ↦
    .bind (requireRange_noTrap ..) fun _ ↦ .bind (guard_noTrap ..) fun _ ↦ .pure _

theorem branch_noTrap (patch : NtdllPatch) (rva : Int) (width : Nat) :
    NoTrap (branch patch rva width) := by
  unfold branch
  split
  · exact .bind (guard_noTrap ..) fun _ ↦ .bind (guard_noTrap ..) fun _ ↦ .pure _
  · exact .bind (guard_noTrap ..) fun _ ↦ .bind (guard_noTrap ..) fun _ ↦ .pure _

theorem hookBranch_noTrap (patch : NtdllPatch) (bytes : Bytes) (hook : NtdllHook) :
    NoTrap (hookBranch patch bytes hook) :=
  .bind (fileOffset_noTrap ..) fun _ ↦ .bind (requireRange_noTrap ..) fun _ ↦
    .bind (guard_noTrap ..) fun _ ↦ .bind (branch_noTrap ..) fun _ ↦ .pure _

end

/-! ## Looking an address up -/

theorem readSection_ok {bytes : Bytes} {entry : Nat} {s : Section}
    (h : readSection bytes entry = .ok s) : s = sectionAt bytes entry := by
  obtain ⟨vs, hvs, h⟩ := bind_ok h
  obtain ⟨va, hva, h⟩ := bind_ok h
  obtain ⟨rs, hrs, h⟩ := bind_ok h
  obtain ⟨ro, hro, h⟩ := bind_ok h
  cases h
  rw [(readField_ok hvs).2, (readField_ok hva).2, (readField_ok hrs).2, (readField_ok hro).2]
  rfl

theorem findOffset_ok {rva : Int} {bytes : Bytes} {what : String} {count entry offset : Nat}
    (h : findOffset rva bytes what count entry = .ok (some offset)) :
    ∃ s ∈ sectionsFrom bytes count entry, s.rawSize ≠ 0 ∧ s.rawOffset ≠ 0 ∧ s.Holds rva ∧
      offset = s.offset rva := by
  induction count generalizing entry with
  | zero => cases h
  | succ count ih =>
    obtain ⟨s, hs, h⟩ := bind_ok h
    rw [sectionsFrom, ← readSection_ok hs]
    split at h
    · obtain ⟨t, ht, hrest⟩ := ih h
      exact ⟨t, List.mem_cons_of_mem _ ht, hrest⟩
    next hhere =>
      obtain ⟨_, _, h⟩ := bind_ok h
      cases h
      simp only [not_or, not_not] at hhere
      exact ⟨s, List.mem_cons_self, hhere.1.1, hhere.1.2, hhere.2, rfl⟩

/-- An address is looked up in a section of the table that holds it and has raw data. -/
theorem fileOffset_ok {rva : Int} {bytes : Bytes} {what : String} {patch : NtdllPatch} {offset : Nat}
    (h : fileOffset rva bytes what patch = .ok offset) :
    ∃ s ∈ sectionTable bytes, s.rawSize ≠ 0 ∧ s.rawOffset ≠ 0 ∧ s.Holds rva ∧
      offset = s.offset rva := by
  obtain ⟨pe, hpe, h⟩ := bind_ok h
  obtain ⟨count, hcount, h⟩ := bind_ok h
  obtain ⟨size, hsize, h⟩ := bind_ok h
  obtain ⟨found, hfound, h⟩ := bind_ok h
  cases found with
  | none => cases h
  | some found =>
    cases h
    have hpe := (readField_ok hpe).2
    have hcount := (readField_ok hcount).2
    have hsize := (readField_ok hsize).2
    subst hpe hcount hsize
    exact findOffset_ok hfound

/-! ## Sections that do not overlap -/

section
variable {bytes : Bytes}

theorem PeImage.section_unique (hpe : PeImage bytes) {s t : Section} (hs : s ∈ sectionTable bytes)
    (ht : t ∈ sectionTable bytes) {rva : Int} (hsr : s.Holds rva) (htr : t.Holds rva) : s = t :=
  eq_of_apart hpe.virtual_disjoint hs ht hsr htr

theorem PeImage.raw_unique (hpe : PeImage bytes) {s t : Section} (hs : s ∈ sectionTable bytes)
    (ht : t ∈ sectionTable bytes) {i : Nat} (hsi : s.RawHolds i) (hti : t.RawHolds i) : s = t :=
  eq_of_apart hpe.raw_disjoint hs ht hsi hti

theorem Section.Backs.holds {s : Section} {rva : Int} (h : s.Backs rva) : s.Holds rva := by
  have hspan : s.rawSize ≤ s.span := le_max_right _ _
  exact ⟨h.1, by have := h.2; omega⟩

theorem Section.Backs.rawHolds {s : Section} {rva : Int} (h : s.Backs rva) :
    s.RawHolds (s.offset rva) := by
  have h1 := h.1
  have h2 := h.2
  constructor
  · exact Nat.le_add_right _ _
  · rw [Section.offset]
    omega

theorem Section.offset_add {s : Section} {rva : Int} (h : s.virtualAddress ≤ rva) (k : Nat) :
    s.offset (rva + k) = s.offset rva + k := by
  rw [Section.offset, Section.offset]
  omega

/-- The loader maps a section's file byte at each address that has one. -/
theorem PeImage.mapped_of_backs (hpe : PeImage bytes) {s : Section} (hs : s ∈ sectionTable bytes)
    {rva : Int} (h : s.Backs rva) : mapped bytes rva = bytes[s.offset rva]? := by
  have hfind : (sectionTable bytes).find? (fun s ↦ decide (s.Holds rva)) = some s := by
    refine find?_eq_some_of_unique hs (decide_eq_true h.holds) fun t ht hold ↦ ?_
    exact hpe.section_unique ht hs (of_decide_eq_true hold) h.holds
  have hraw : rva - s.virtualAddress < s.rawSize := by
    have := h.2
    omega
  rw [mapped, hfind]
  exact if_pos hraw

/-- A byte other than zero is mapped from the file. -/
theorem backs_of_mapped {rva : Int} {b : UInt8} (h : mapped bytes rva = some b) (hb : b ≠ 0) :
    ∃ s ∈ sectionTable bytes, s.Backs rva := by
  unfold mapped at h
  split at h
  next => cases h
  next s hfind =>
    have hpred := List.find?_some hfind
    have hholds : s.Holds rva := of_decide_eq_true hpred
    refine ⟨s, List.mem_of_find?_eq_some hfind, hholds.1, ?_⟩
    split at h
    next hraw => omega
    next =>
      cases h
      exact absurd rfl hb

end

/-! ## Images with the same headers -/

theorem field_congr {a b : Bytes} {w o : Nat} (h : ∀ i, o ≤ i → i < o + w → a[i]? = b[i]?) :
    field w a o = field w b o := by
  rw [field, field, slice_congr h]

theorem sectionAt_congr {a b : Bytes} {entry : Nat}
    (h : ∀ i, entry + 8 ≤ i → i < entry + 24 → a[i]? = b[i]?) : sectionAt a entry = sectionAt b entry := by
  have hfield : ∀ k, 8 ≤ k → k + 4 ≤ 24 → field 4 a (entry + k) = field 4 b (entry + k) := by
    intro k hlo hhi
    exact field_congr fun i hi hik ↦ h i (by omega) (by omega)
  rw [sectionAt, sectionAt, hfield 8 (by omega) (by omega), hfield 12 (by omega) (by omega),
    hfield 16 (by omega) (by omega), hfield 20 (by omega) (by omega)]

theorem sectionsFrom_congr {a b : Bytes} {count entry : Nat}
    (h : ∀ i, EntryReads entry count i → a[i]? = b[i]?) :
    sectionsFrom a count entry = sectionsFrom b count entry := by
  induction count generalizing entry with
  | zero => rfl
  | succ count ih =>
    have hfirst : sectionAt a entry = sectionAt b entry :=
      sectionAt_congr fun i hlo hhi ↦ h i ⟨0, by omega, by omega, by omega⟩
    have hrest : sectionsFrom a count (entry + 40) = sectionsFrom b count (entry + 40) := by
      apply ih
      rintro i ⟨n, hn, hlo, hhi⟩
      exact h i ⟨n + 1, by omega, by omega, by omega⟩
    rw [sectionsFrom, sectionsFrom, hfirst, hrest]

section
variable {a b : Bytes} (h : ∀ i, LookupReads a (sectionCount a) i → a[i]? = b[i]?)
include h

theorem peOffset_congr : peOffset a = peOffset b :=
  field_congr fun i hlo hhi ↦ h i (.inl ⟨hlo, hhi⟩)

theorem sectionCount_congr : sectionCount a = sectionCount b := by
  rw [sectionCount, sectionCount, ← peOffset_congr h]
  exact field_congr fun i hlo hhi ↦ h i (.inr (.inl ⟨hlo, hhi⟩))

theorem tableOffset_congr : tableOffset a = tableOffset b := by
  rw [tableOffset, tableOffset, optionalHeaderSize, optionalHeaderSize, ← peOffset_congr h,
    field_congr fun i hlo hhi ↦ h i (.inr (.inr (.inl ⟨hlo, hhi⟩)))]

theorem sectionTable_congr : sectionTable a = sectionTable b := by
  rw [sectionTable, sectionTable, ← sectionCount_congr h, ← tableOffset_congr h]
  exact sectionsFrom_congr fun i hi ↦ h i (.inr (.inr (.inr hi)))

/-- What the look-up reads is what makes the image one. -/
theorem PeImage.congr (hpe : PeImage a) (hl : a.length = b.length) : PeImage b := by
  have htable := sectionTable_congr h
  refine ⟨?_, ?_, ?_⟩
  · rw [← htable, ← hl]
    exact hpe.inFile
  · rw [← htable]
    exact hpe.virtual_disjoint
  · rw [← htable]
    exact hpe.raw_disjoint

end

end NotProton.NtdllPatcher
