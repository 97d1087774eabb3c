import NotProton.Library.Text

/-!
# Rtti — from a type's name to its vtable (`anchor.c`)

The name leads to the typeinfos that point at it, and a typeinfo to the vtable slots that point at it.  Both are
found by looking at every word of the data segments.
-/

open NotProton.Library

namespace NotProton.Resolver

/-- A data segment, word by word. -/
structure DataSegment where
  base : Nat
  words : List Nat

def DataSegment.Apart (s t : DataSegment) : Prop :=
  s.base + 8 * s.words.length ≤ t.base ∨ t.base + 8 * t.words.length ≤ s.base

instance (s t : DataSegment) : Decidable (s.Apart t) := instDecidableOr

instance : Std.Symm DataSegment.Apart := ⟨fun _ _ h ↦ Or.symm h⟩

/-- A loaded image: `__TEXT`, and `__DATA_CONST` and `__DATA` where it has them. -/
structure Image where
  textBase : Nat
  text : Bytes
  data : List DataSegment
  apart : data.Pairwise DataSegment.Apart

/-- A mangled name. -/
structure TypeName where
  text : Bytes
  ne_nil : text ≠ []
  no_nul : (0 : UInt8) ∉ text

/-- The name stands at `off`, between two NULs. -/
def NameAt (text name : Bytes) (off : Nat) : Prop :=
  text[off - 1]? = some 0 ∧ (text.drop off).take name.length = name ∧ text[off + name.length]? = some 0

instance (text name : Bytes) (off : Nat) : Decidable (NameAt text name off) := instDecidableAnd

/-- The loop of `type_name_va`, `fuel` counting down the bytes. -/
def typeNameLoop (text name : Bytes) : Nat → Nat → Option Nat → Option Nat
  | 0, _, found => found
  | fuel + 1, off, found =>
      if off + name.length < text.length then
        if NameAt text name off then
          match found with
          | some _ => none
          | none => typeNameLoop text name fuel (off + name.length + 1) (some off)
        else typeNameLoop text name fuel (off + 1) found
      else found

def typeNameVa (image : Image) (name : Bytes) : Option Nat :=
  if image.text.length ≤ name.length + 1 then none
  else (typeNameLoop image.text name image.text.length 1 none).map (image.textBase + ·)

/-- A zero word below, and above it an address in `__TEXT` that an instruction may have. -/
def IsPrimary (image : Image) (seg : DataSegment) (ti i : Nat) : Prop :=
  1 ≤ i ∧ i + 1 < seg.words.length ∧ seg.words.getD i 0 = ti ∧ seg.words.getD (i - 1) 0 = 0 ∧
    (image.textBase ≤ seg.words.getD (i + 1) 0 ∧ seg.words.getD (i + 1) 0 < image.textBase + image.text.length) ∧
    seg.words.getD (i + 1) 0 % 4 = 0

instance (image : Image) (seg : DataSegment) (ti i : Nat) : Decidable (IsPrimary image seg ti i) :=
  instDecidableAnd

/-- The word after each primary vtable slot of a typeinfo, in the order they are come upon. -/
def vtableSlots (image : Image) (ti : Nat) : List Nat :=
  image.data.flatMap fun seg ↦
    ((List.range seg.words.length).filter (IsPrimary image seg ti)).map fun i ↦ seg.base + (i + 1) * 8

/-- `if (found) return 0;` at the second one. -/
def soleLoop : List Nat → Option Nat → Option Nat
  | [], found => found
  | slot :: slots, none => soleLoop slots (some slot)
  | _ :: _, some _ => none

def vptrFromTypeinfo (image : Image) (ti : Nat) : Option Nat := soleLoop (vtableSlots image ti) none

/-- The typeinfos whose name word is `name`, in order. -/
def typeinfos (image : Image) (name : Nat) : List Nat :=
  image.data.flatMap fun seg ↦
    ((List.range seg.words.length).filter fun i ↦ 1 ≤ i ∧ seg.words.getD i 0 = name).map fun i ↦
      seg.base + (i - 1) * 8

/-- The loop over what each typeinfo gave. -/
def vptrLoop : List (Option Nat) → Option Nat → Option Nat
  | [], found => found
  | none :: rest, found => vptrLoop rest found
  | some vptr :: rest, none => vptrLoop rest (some vptr)
  | some vptr :: rest, some found => if found ≠ vptr then none else vptrLoop rest (some vptr)

def npRttiVptr (image : Image) (typeName : Option Bytes) : Option Nat :=
  match typeName with
  | none => none
  | some typeName =>
      if typeName = [] ∨ image.text = [] then none
      else
        match typeNameVa image typeName with
        | none => none
        | some name => vptrLoop ((typeinfos image name).map (vptrFromTypeinfo image)) none

/-! ## The name -/

/-- The name stands in the text once, at `off`. -/
def NameOnce (text name : Bytes) (off : Nat) : Prop :=
  (1 ≤ off ∧ NameAt text name off) ∧ ∀ other, 1 ≤ other ∧ NameAt text name other → other = off

theorem NameAt.inside {text name : Bytes} {off : Nat} (h : NameAt text name off) : off + name.length < text.length := by
  obtain ⟨hlt, -⟩ := List.getElem?_eq_some_iff.mp h.2.2
  exact hlt

/-- Inside a name there is no NUL for another one to begin behind. -/
theorem NameAt.next {text : Bytes} {name : TypeName} {off other : Nat} (h : NameAt text name.text off)
    (hother : NameAt text name.text other) (hlt : off < other) : off + name.text.length + 1 ≤ other := by
  by_contra hnear
  have hbyte : text[other - 1]? = name.text[other - 1 - off]? := by
    conv_rhs => rw [← h.2.1]
    rw [List.getElem?_take_of_lt (by omega), List.getElem?_drop, show off + (other - 1 - off) = other - 1 by omega]
  rw [hother.1] at hbyte
  exact name.no_nul (List.mem_of_getElem? hbyte.symm)

section loop

variable {text : Bytes} {name : TypeName} {fuel off : Nat}

-- with one found, another one ends the search
theorem typeNameLoop_some (hfuel : text.length ≤ off + fuel) (found result : Nat) :
    typeNameLoop text name.text fuel off (some found) = some result ↔
      found = result ∧ ∀ other, off ≤ other → ¬ NameAt text name.text other := by
  -- By the offsets left; a second name anywhere ends the search with none.
  induction fuel generalizing off with
  | zero =>
    have hnone : ∀ other, off ≤ other → ¬ NameAt text name.text other := by
      intro other hother h
      have hin := h.inside
      omega
    rw [typeNameLoop, Option.some.injEq]
    exact ⟨fun e ↦ ⟨e, hnone⟩, And.left⟩
  | succ fuel ih =>
    rw [typeNameLoop]
    split
    next hlt =>
      split
      next hat =>
        constructor
        · intro e
          cases e
        · intro h
          exact absurd hat (h.2 off le_rfl)
      next hnot =>
        rw [ih (by omega)]
        apply and_congr_right
        intro _
        constructor
        · intro h other hother
          by_cases he : other = off
          · exact he ▸ hnot
          · exact h other (by omega)
        · exact fun h other hother ↦ h other (by omega)
    next hge =>
      have hnone : ∀ other, off ≤ other → ¬ NameAt text name.text other := by
        intro other hother h
        have hin := h.inside
        omega
      rw [Option.some.injEq]
      exact ⟨fun e ↦ ⟨e, hnone⟩, And.left⟩

theorem typeNameLoop_none (hfuel : text.length ≤ off + fuel) (result : Nat) :
    typeNameLoop text name.text fuel off none = some result ↔
      (off ≤ result ∧ NameAt text name.text result) ∧
        ∀ other, off ≤ other ∧ NameAt text name.text other → other = result := by
  induction fuel generalizing off with
  | zero =>
    rw [typeNameLoop]
    constructor
    · intro e
      cases e
    · rintro ⟨⟨hle, hat⟩, -⟩
      have hin := hat.inside
      omega
  | succ fuel ih =>
    rw [typeNameLoop]
    split
    next hlt =>
      split
      -- A name here: the rest of the loop has only to find no second one.
      next hat =>
        rw [typeNameLoop_some (by omega)]
        constructor
        · rintro ⟨rfl, hnone⟩
          refine ⟨⟨le_rfl, hat⟩, ?_⟩
          rintro other ⟨hle, hother⟩
          by_contra hne
          exact hnone other (hat.next hother (by omega)) hother
        · rintro ⟨-, hall⟩
          have hself := hall off ⟨le_rfl, hat⟩
          refine ⟨hself, ?_⟩
          intro other hle hother
          have hsame := hall other ⟨by omega, hother⟩
          omega
      next hnot =>
        rw [ih (by omega)]
        constructor
        · rintro ⟨⟨hle, hat⟩, hall⟩
          refine ⟨⟨by omega, hat⟩, ?_⟩
          rintro other ⟨hother, h⟩
          by_cases he : other = off
          · exact absurd (he ▸ h) hnot
          · exact hall other ⟨by omega, h⟩
        · rintro ⟨⟨hle, hat⟩, hall⟩
          have hne : result ≠ off := fun e ↦ hnot (e ▸ hat)
          exact ⟨⟨by omega, hat⟩, fun other h ↦ hall other ⟨by omega, h.2⟩⟩
    next hge =>
      constructor
      · intro e
        cases e
      · rintro ⟨⟨hle, hat⟩, -⟩
        have hin := hat.inside
        omega

end loop

theorem typeNameVa_iff (image : Image) (name : TypeName) (va : Nat) :
    typeNameVa image name.text = some va ↔ ∃ off, NameOnce image.text name.text off ∧ va = image.textBase + off := by
  unfold typeNameVa
  split
  next hshort =>
    constructor
    · intro e
      cases e
    · rintro ⟨off, ⟨⟨hoff, hat⟩, -⟩, -⟩
      have hin := hat.inside
      omega
  next =>
    rw [Option.map_eq_some_iff]
    constructor
    · rintro ⟨off, hloop, rfl⟩
      exact ⟨off, (typeNameLoop_none (by omega) off).mp hloop, rfl⟩
    · rintro ⟨off, honce, rfl⟩
      exact ⟨off, (typeNameLoop_none (by omega) off).mpr honce, rfl⟩

/-! ## The vtables -/

theorem soleLoop_iff {slots : List Nat} {slot : Nat} : soleLoop slots none = some slot ↔ slots = [slot] := by
  cases slots with
  | nil => simp [soleLoop]
  | cons first rest =>
    cases rest with
    | nil => simp [soleLoop]
    | cons second rest => simp [soleLoop]

/-- A segment that holds a slot, and the slot's place in it. -/
theorem mem_vtableSlots {image : Image} {ti slot : Nat} : slot ∈ vtableSlots image ti ↔
    ∃ seg ∈ image.data, ∃ i, IsPrimary image seg ti i ∧ slot = seg.base + (i + 1) * 8 := by
  rw [vtableSlots, List.mem_flatMap]
  apply exists_congr
  intro seg
  apply and_congr_right
  intro _
  rw [List.mem_map]
  constructor
  · rintro ⟨i, hi, rfl⟩
    exact ⟨i, of_decide_eq_true (List.mem_filter.mp hi).2, rfl⟩
  · rintro ⟨i, hi, rfl⟩
    refine ⟨i, List.mem_filter.mpr ⟨?_, decide_eq_true hi⟩, rfl⟩
    rw [List.mem_range]
    have := hi.2.1
    omega

/-- Two segments that hold the word at one address are one, and the words are one. -/
theorem Image.place_unique (image : Image) {seg seg' : DataSegment} (hseg : seg ∈ image.data) (hseg' : seg' ∈ image.data)
    {i i' : Nat} (hi : i + 1 < seg.words.length) (hi' : i' + 1 < seg'.words.length)
    (h : seg.base + (i + 1) * 8 = seg'.base + (i' + 1) * 8) : seg = seg' ∧ i = i' := by
  by_cases hsame : seg = seg'
  · subst hsame
    exact ⟨rfl, by omega⟩
  · have hapart : seg.Apart seg' := image.apart.forall hseg hseg' hsame
    unfold DataSegment.Apart at hapart
    omega

/-- A slot holds one typeinfo. -/
theorem vtableSlots_disjoint {image : Image} {ti ti' slot : Nat} (h : slot ∈ vtableSlots image ti)
    (h' : slot ∈ vtableSlots image ti') : ti = ti' := by
  obtain ⟨seg, hseg, i, hi, rfl⟩ := mem_vtableSlots.mp h
  obtain ⟨seg', hseg', i', hi', hsame⟩ := mem_vtableSlots.mp h'
  obtain ⟨rfl, rfl⟩ := image.place_unique hseg hseg' hi.2.1 hi'.2.1 hsame
  exact hi.2.2.1.symm.trans hi'.2.2.1

theorem vtableSlots_nodup (image : Image) (ti : Nat) : (vtableSlots image ti).Nodup := by
  rw [vtableSlots, List.nodup_flatMap]
  constructor
  · intro seg _
    apply List.Nodup.map_on
    · intro i _ j _ he
      omega
    · exact (List.nodup_range).filter _
  · apply image.apart.imp
    intro s t hst slot hs ht
    obtain ⟨i, hi, rfl⟩ := List.mem_map.mp hs
    obtain ⟨j, hj, he⟩ := List.mem_map.mp ht
    have hi := (of_decide_eq_true (List.mem_filter.mp hi).2 : IsPrimary image s ti i).2.1
    have hj := (of_decide_eq_true (List.mem_filter.mp hj).2 : IsPrimary image t ti j).2.1
    unfold DataSegment.Apart at hst
    omega

theorem vptrLoop_some {results : List (Option Nat)} {found vptr : Nat} : vptrLoop results (some found) = some vptr ↔
    found = vptr ∧ ∀ other, some other ∈ results → other = vptr := by
  induction results generalizing found with
  | nil => simp [vptrLoop]
  | cons first results ih =>
    cases first with
    | none =>
      rw [vptrLoop, ih]
      simp
    | some other =>
      rw [vptrLoop]
      by_cases he : found = other
      · rw [if_neg (not_not.mpr he), ih]
        constructor
        · rintro ⟨rfl, hall⟩
          refine ⟨he, ?_⟩
          intro x hx
          obtain hx | hx := List.mem_cons.mp hx
          · exact Option.some.inj hx
          · exact hall x hx
        · rintro ⟨rfl, hall⟩
          exact ⟨he.symm, fun x hx ↦ hall x (List.mem_cons_of_mem _ hx)⟩
      · rw [if_pos he]
        constructor
        · intro e
          cases e
        · rintro ⟨rfl, hall⟩
          exact absurd (hall other List.mem_cons_self).symm he

theorem vptrLoop_none {results : List (Option Nat)} {vptr : Nat} : vptrLoop results none = some vptr ↔
    some vptr ∈ results ∧ ∀ other, some other ∈ results → other = vptr := by
  induction results with
  | nil => simp [vptrLoop]
  | cons first results ih =>
    cases first with
    | none =>
      rw [vptrLoop, ih]
      simp
    | some other =>
      rw [vptrLoop, vptrLoop_some]
      constructor
      · rintro ⟨rfl, hall⟩
        refine ⟨List.mem_cons_self, ?_⟩
        intro x hx
        obtain hx | hx := List.mem_cons.mp hx
        · exact Option.some.inj hx
        · exact hall x hx
      · rintro ⟨-, hall⟩
        exact ⟨hall other List.mem_cons_self, fun x hx ↦ hall x (List.mem_cons_of_mem _ hx)⟩

/-! ## From the name to the vtable -/

/-- The one primary vtable slot, in all data segments, that holds a typeinfo of the name; `vptr` is behind it. -/
def SoleVptr (image : Image) (name vptr : Nat) : Prop :=
  (∃ ti ∈ typeinfos image name, vptr ∈ vtableSlots image ti) ∧
    ∀ ti ∈ typeinfos image name, ∀ other ∈ vtableSlots image ti, other = vptr

/-- One typeinfo of the name has one primary vtable and no other has one just so, but another has several. -/
def Shadowed (image : Image) (name : Nat) : Prop :=
  ∃ ti ∈ typeinfos image name, (vtableSlots image ti).length = 1 ∧
    (∀ other ∈ typeinfos image name, (vtableSlots image other).length = 1 → other = ti) ∧
    ∃ other ∈ typeinfos image name, 2 ≤ (vtableSlots image other).length

theorem mem_results {image : Image} {name vptr : Nat} :
    some vptr ∈ (typeinfos image name).map (vptrFromTypeinfo image) ↔
      ∃ ti ∈ typeinfos image name, vtableSlots image ti = [vptr] := by
  rw [List.mem_map]
  apply exists_congr
  intro ti
  rw [vptrFromTypeinfo, soleLoop_iff]

/-- What is returned is the vtable of the one typeinfo that has one. -/
theorem npRttiVptr_iff (image : Image) (name : TypeName) (vptr : Nat) :
    npRttiVptr image (some name.text) = some vptr ↔ ∃ off, NameOnce image.text name.text off ∧
      (∃ ti ∈ typeinfos image (image.textBase + off), vtableSlots image ti = [vptr]) ∧
        ∀ ti ∈ typeinfos image (image.textBase + off), ∀ other, vtableSlots image ti = [other] → other = vptr := by
  -- The loop over the typeinfos of a name.
  have hresult : ∀ va, vptrLoop ((typeinfos image va).map (vptrFromTypeinfo image)) none = some vptr ↔
      (∃ ti ∈ typeinfos image va, vtableSlots image ti = [vptr]) ∧
        ∀ ti ∈ typeinfos image va, ∀ other, vtableSlots image ti = [other] → other = vptr := by
    intro va
    rw [vptrLoop_none, mem_results]
    apply and_congr_right
    intro _
    constructor
    · exact fun h ti hti other hother ↦ h other (mem_results.mpr ⟨ti, hti, hother⟩)
    · intro h other hother
      obtain ⟨ti, hti, hslots⟩ := mem_results.mp hother
      exact h ti hti other hslots
  simp only [npRttiVptr]
  split
  next hempty =>
    constructor
    · intro e
      cases e
    · rintro ⟨off, ⟨⟨-, hat⟩, -⟩, -⟩
      have hin := hat.inside
      obtain hnil | hnil := hempty
      · exact absurd hnil name.ne_nil
      · rw [hnil] at hin
        exact absurd hin (Nat.not_lt_zero _)
  next =>
    cases hva : typeNameVa image name.text with
    | none =>
      constructor
      · intro e
        cases e
      · rintro ⟨off, honce, -⟩
        have hsome := (typeNameVa_iff image name _).mpr ⟨off, honce, rfl⟩
        rw [hva] at hsome
        cases hsome
    | some va =>
      obtain ⟨off, honce, rfl⟩ := (typeNameVa_iff image name va).mp hva
      simp only [hresult]
      constructor
      · exact fun h ↦ ⟨off, honce, h⟩
      · rintro ⟨off', honce', h⟩
        rw [honce'.2 off honce.1]
        exact h

/-- An address is returned just for a name with one primary vtable, unless the name is there once and one of its
typeinfos has the only single vtable beside another with several. -/
theorem npRttiVptr_sole_iff (image : Image) (name : TypeName) :
    (∀ vptr, npRttiVptr image (some name.text) = some vptr ↔
      ∃ off, NameOnce image.text name.text off ∧ SoleVptr image (image.textBase + off) vptr) ↔
    ¬ ∃ off, NameOnce image.text name.text off ∧ Shadowed image (image.textBase + off) := by
  constructor
  · rintro hall ⟨off, honce, ti, hti, hlength, hsole, other, hother, hseveral⟩
    obtain ⟨vptr, hslots⟩ := List.length_eq_one_iff.mp hlength
    have hfound : npRttiVptr image (some name.text) = some vptr := by
      rw [npRttiVptr_iff]
      refine ⟨off, honce, ⟨ti, hti, hslots⟩, ?_⟩
      intro ti' hti' vptr' hslots'
      have hsame := hsole ti' hti' (by rw [hslots']; rfl)
      rw [hsame, hslots] at hslots'
      exact (List.singleton_inj.mp hslots').symm
    obtain ⟨off', honce', hvptr⟩ := (hall vptr).mp hfound
    have hoff : off = off' := honce'.2 off honce.1
    subst hoff
    -- several slots cannot all be the one
    have hnodup := vtableSlots_nodup image other
    have hone := hvptr.2 other hother
    generalize vtableSlots image other = slots at hseveral hnodup hone
    match slots, hseveral with
    | a :: b :: _, _ =>
      have ha := hone a (by simp)
      have hb := hone b (by simp)
      rw [ha, hb] at hnodup
      simp at hnodup
  · intro hnot vptr
    rw [npRttiVptr_iff]
    apply exists_congr
    intro off
    apply and_congr_right
    intro honce
    constructor
    · rintro ⟨⟨ti, hti, hslots⟩, hall⟩
      refine ⟨⟨ti, hti, by rw [hslots]; exact List.mem_singleton_self vptr⟩, ?_⟩
      intro other hother slot hslot
      by_contra hne
      -- another slot makes its typeinfo one with several
      have hseveral : 2 ≤ (vtableSlots image other).length := by
        have hpos := List.length_pos_of_mem hslot
        by_contra hfew
        obtain ⟨single, hsingle⟩ := List.length_eq_one_iff.mp (show (vtableSlots image other).length = 1 by omega)
        rw [hsingle, List.mem_singleton] at hslot
        exact hne (hslot.trans (hall other hother single hsingle))
      apply hnot
      refine ⟨off, honce, ti, hti, by rw [hslots]; rfl, ?_, other, hother, hseveral⟩
      intro ti' hti' hlength
      obtain ⟨vptr', hslots'⟩ := List.length_eq_one_iff.mp hlength
      have hsame := hall ti' hti' vptr' hslots'
      have hmem' : vptr ∈ vtableSlots image ti' := by
        rw [hslots', hsame]
        exact List.mem_singleton_self vptr
      have hmem : vptr ∈ vtableSlots image ti := by
        rw [hslots]
        exact List.mem_singleton_self vptr
      exact vtableSlots_disjoint hmem' hmem
    · rintro ⟨⟨ti, hti, hslot⟩, hall⟩
      have hslots : vtableSlots image ti = [vptr] := by
        have hnodup := vtableSlots_nodup image ti
        have hone := hall ti hti
        generalize vtableSlots image ti = slots at hslot hnodup hone
        match slots with
        | [] => cases hslot
        | [a] => rw [List.mem_singleton.mp hslot]
        | a :: b :: _ =>
          have ha := hone a (by simp)
          have hb := hone b (by simp)
          rw [ha, hb] at hnodup
          simp at hnodup
      refine ⟨⟨ti, hti, hslots⟩, ?_⟩
      intro ti' hti' other hother
      exact hall ti' hti' other (by rw [hother]; exact List.mem_singleton_self other)

/-! ## Two typeinfos of one name -/

/-- The first typeinfo has two primary vtables, the second has one. -/
def twoTypeinfos : Image where
  textBase := 4096
  text := 0 :: ascii "11CAPIJobFoo" ++ [0]
  data := [⟨8192, [36864, 4097, 36864, 4097, 0, 8192, 4100, 0, 8192, 4104, 0, 8208, 4108]⟩]
  apart := List.pairwise_singleton _ _

def fooName : TypeName where
  text := ascii "11CAPIJobFoo"
  ne_nil := by decide
  no_nul := by decide

theorem npRttiVptr_shadowed : ¬ ∀ vptr, npRttiVptr twoTypeinfos (some fooName.text) = some vptr ↔
    ∃ off, NameOnce twoTypeinfos.text fooName.text off ∧ SoleVptr twoTypeinfos (twoTypeinfos.textBase + off) vptr := by
  intro hall
  have hfound : npRttiVptr twoTypeinfos (some fooName.text) = some 8288 := by decide
  obtain ⟨off, honce, -, hsole⟩ := (hall 8288).mp hfound
  have hva : typeNameVa twoTypeinfos fooName.text = some 4097 := by decide
  have hoff := (typeNameVa_iff twoTypeinfos fooName _).mpr ⟨off, honce, rfl⟩
  rw [hva, Option.some.injEq] at hoff
  rw [← hoff] at hsole
  have hti : 8192 ∈ typeinfos twoTypeinfos 4097 := by decide
  have hslot : 8240 ∈ vtableSlots twoTypeinfos 8192 := by decide
  exact absurd (hsole 8192 hti 8240 hslot) (by decide)

end NotProton.Resolver
