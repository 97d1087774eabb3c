import NotProton.Core.LoadCommands
import NotProton.Library.Uleb

/-!
# FunctionBounds — the function around an address (`macho.c`)

`LC_FUNCTION_STARTS` is a table of ULEB128 deltas from the header on, ended by a zero one.  `np_function_bounds`
adds them up until it is past the address.  A read of a byte that is not mapped ends the process: the outer `none`
of the results here.
-/

open NotProton.Library

namespace NotProton.Core

def dataoff (lc : Bytes) : Nat := u32 lc 8
def datasize (lc : Bytes) : Nat := u32 lc 12

/-- `fn_starts_table`: the address of the table and its size. -/
def fnStartsTable (mh : MachHeader) (slide : Nat) : Option (Nat × Nat) :=
  match mh.loadCommands with
  | none => none
  | some cmds =>
      match lastCommand (IsCommand lcFunctionStarts 16) cmds, lastCommand IsLinkedit cmds with
      | some fs, some le =>
          if datasize fs = 0 then none
          else if dataoff fs < fileoff le then none
          else
            let rel := dataoff fs - fileoff le
            if rel > filesize le ∨ datasize fs > filesize le - rel then none
            else
              let p := (vmaddr le + rel + slide) % 2 ^ 64
              if p = 0 then none else some (p, datasize fs)
      | _, _ => none

/-- The inner loop: the cursor behind the number, and the number unless the table ends inside it. -/
def ulebLoop (mem : Memory) (fin p delta shift : Nat) : Option (Nat × Option Nat) :=
  if p < fin then
    match mem.byte p with
    | none => none
    | some b =>
        let delta := if shift < 64 then delta ||| ((b &&& 0x7F).toNat <<< shift) % 2 ^ 64 else delta
        if b &&& 0x80 = 0 then some (p + 1, some delta)
        else ulebLoop mem fin (p + 1) delta ((shift + 7) % 2 ^ 32)
  else some (p, none)
termination_by fin - p

theorem lt_of_ulebLoop {mem : Memory} {fin p delta shift q d : Nat}
    (h : ulebLoop mem fin p delta shift = some (q, some d)) : p < q ∧ p < fin := by
  fun_induction ulebLoop mem fin p delta shift with
  | case1 p delta shift hlt hbyte => cases h
  | case2 p delta shift hlt b hbyte delta' hlast =>
    injection Option.some.inj h with hq
    omega
  | case3 p delta shift hlt b hbyte delta' hmore ih =>
    have := ih h
    omega
  | case4 p delta shift hge =>
    injection Option.some.inj h with _ hd
    cases hd

/-- The outer loop, `start` 0 as long as there is none. -/
def boundsLoop (mem : Memory) (fin addr p va start : Nat) : Option (Option (Nat × Nat)) :=
  if p < fin then
    match hnum : ulebLoop mem fin p 0 0 with
    | none => none
    | some (_, none) => some none
    | some (q, some delta) =>
        if delta = 0 then some none
        else
          let va := (va + delta) % 2 ^ 64
          if va ≤ addr then boundsLoop mem fin addr q va va
          else if start = 0 then some none
          else some (some (start, va))
  else some none
termination_by fin - p
decreasing_by
  have := lt_of_ulebLoop hnum
  omega

def npFunctionBounds (mh : MachHeader) (slide : Nat) (mem : Memory) (addr : Nat) :
    Option (Option (Nat × Nat)) :=
  match fnStartsTable mh slide with
  | none => some none
  | some (p, size) => boundsLoop mem ((p + size) % 2 ^ 64) addr p mh.address 0

/-! ## The table -/

/-- An `LC_FUNCTION_STARTS` table lies inside `__LINKEDIT`, in memory at `p`. -/
def FunctionStarts (mh : MachHeader) (slide p size : Nat) : Prop :=
  ∃ cmds fs le, mh.loadCommands = some cmds ∧
    lastCommand (IsCommand lcFunctionStarts 16) cmds = some fs ∧ lastCommand IsLinkedit cmds = some le ∧
    datasize fs = size ∧ (fileoff le ≤ dataoff fs ∧ dataoff fs + size ≤ fileoff le + filesize le) ∧
    p = (vmaddr le + (dataoff fs - fileoff le) + slide) % 2 ^ 64

theorem FunctionStarts.fnStartsTable_eq {mh : MachHeader} {slide p size : Nat} (h : FunctionStarts mh slide p size) :
    fnStartsTable mh slide = if size = 0 ∨ p = 0 then none else some (p, size) := by
  obtain ⟨cmds, fs, le, hcmds, hfs, hle, rfl, hin, rfl⟩ := h
  unfold fnStartsTable
  simp only [hcmds, hfs, hle]
  by_cases hsize : datasize fs = 0
  · rw [if_pos hsize, if_pos (.inl hsize)]
  · rw [if_neg hsize, if_neg (by omega), if_neg (by omega)]
    simp only [hsize, false_or]

/-! ## The numbers -/

section

variable {mem : Memory} {fin : Nat}

theorem ulebLoop_byte {p delta shift : Nat} {b : UInt8} (hbyte : mem.byte p = some b) (hlt : p < fin) :
    ulebLoop mem fin p delta shift =
      let delta := if shift < 64 then delta ||| ((b.toNat % 128) <<< shift) % 2 ^ 64 else delta
      if b.toNat < 128 then some (p + 1, some delta)
      else ulebLoop mem fin (p + 1) delta ((shift + 7) % 2 ^ 32) := by
  rw [ulebLoop, if_pos hlt, hbyte]
  simp only [toNat_and_low, and_high_eq_zero]

/-- Zero digits change nothing, wherever the shift has got to. -/
theorem ulebLoop_zero {p delta shift n : Nat} {s : Bytes} (hs : Uleb n s) (hn : n = 0) (hheld : mem.Holds p s)
    (hin : p + s.length ≤ fin) : ulebLoop mem fin p delta shift = some (p + s.length, some delta) := by
  induction hs generalizing p shift with
  | last h =>
    rw [List.length_singleton] at hin
    rw [ulebLoop_byte hheld.1 (by omega), hn]
    simp
  | @more b n s h hs ih =>
    rw [List.length_cons] at hin
    rw [ulebLoop_byte hheld.1 (by omega), if_neg (by omega), show b.toNat % 128 = 0 by omega, Nat.zero_shiftLeft,
      Nat.zero_mod, Nat.or_zero, ite_self, ih (by omega) hheld.2 (by omega), List.length_cons, Nat.add_right_comm]
    rfl

/-- The loop adds the digits of the number above what it has. -/
theorem ulebLoop_value {p delta shift n : Nat} {s : Bytes} (hs : Uleb n s) (hheld : mem.Holds p s)
    (hin : p + s.length ≤ fin) (hshift : shift < 64) (hdelta : delta < 2 ^ shift)
    (hfits : delta + n * 2 ^ shift < 2 ^ 64) :
    ulebLoop mem fin p delta shift = some (p + s.length, some (delta + n * 2 ^ shift)) := by
  induction hs generalizing p delta shift with
  | @last b h =>
    rw [List.length_singleton] at hin
    rw [ulebLoop_byte hheld.1 (by omega), if_pos h, if_pos hshift, Nat.mod_eq_of_lt h,
      Nat.mod_eq_of_lt (by rw [Nat.shiftLeft_eq]; omega), or_shiftLeft hdelta, List.length_singleton]
  | @more b n s h hs ih =>
    have hb := b.toNat_lt
    rw [List.length_cons] at hin
    have hsplit : delta + (b.toNat - 128 + 128 * n) * 2 ^ shift =
        delta + (b.toNat - 128) * 2 ^ shift + n * 2 ^ (shift + 7) := by
      rw [pow_add]
      ring
    have hdigit : b.toNat % 128 = b.toNat - 128 := by omega
    rw [hsplit] at hfits
    have hbit : (b.toNat - 128) * 2 ^ shift ≤ 127 * 2 ^ shift := Nat.mul_le_mul_right _ (by omega)
    rw [ulebLoop_byte hheld.1 (by omega), if_neg (by omega), if_pos hshift, hdigit,
      Nat.mod_eq_of_lt (by rw [Nat.shiftLeft_eq]; omega), or_shiftLeft hdelta, Nat.mod_eq_of_lt (by omega), hsplit,
      List.length_cons]
    by_cases hmore : shift + 7 < 64
    · have hlow : delta + (b.toNat - 128) * 2 ^ shift < 2 ^ (shift + 7) := by
        rw [pow_add]
        omega
      rw [ih hheld.2 (by omega) hmore hlow hfits, Nat.add_right_comm p]
      rfl
    · -- No further digit fits into 64 bits.
      have hn : n = 0 := by
        by_contra hne
        have hle : 2 ^ 64 ≤ n * 2 ^ (shift + 7) := by
          calc 2 ^ 64 ≤ 2 ^ (shift + 7) := Nat.pow_le_pow_right (by decide) (by omega)
            _ ≤ n * 2 ^ (shift + 7) := Nat.le_mul_of_pos_left _ (Nat.pos_of_ne_zero hne)
        omega
      rw [ulebLoop_zero hs hn hheld.2 (by omega), hn, Nat.zero_mul, Nat.add_zero, Nat.add_right_comm p]
      rfl

theorem ulebLoop_mapped {p delta shift : Nat} (h : ∀ a, p ≤ a → a < fin → mem.byte a ≠ none) :
    ulebLoop mem fin p delta shift ≠ none := by
  fun_induction ulebLoop mem fin p delta shift with
  | case1 p delta shift hlt hbyte => exact absurd hbyte (h p (Nat.le_refl p) hlt)
  | case2 => nofun
  | case3 p delta shift hlt b hbyte delta' hmore ih => exact ih fun a hle hlt ↦ h a (by omega) hlt
  | case4 => nofun

end

/-! ## The starts -/

/-- The bytes encode the distances between the starts, the first one from `prev`. -/
inductive EncodesDeltas : Nat → List Nat → Bytes → Prop
  | nil {prev} : EncodesDeltas prev [] []
  | cons {prev a as s t} (hs : Uleb (a - prev) s) (ht : EncodesDeltas a as t) : EncodesDeltas prev (a :: as) (s ++ t)

/-- The first start past the address, with the one before it. -/
def bracket (addr : Nat) : Nat → List Nat → Option (Nat × Nat)
  | _, [] => none
  | start, a :: as => if a ≤ addr then bracket addr a as else if start = 0 then none else some (start, a)

section

variable {mem : Memory} {fin addr : Nat}

/-- What the loop does with a number. -/
theorem boundsLoop_number {p va start q delta : Nat} (hnum : ulebLoop mem fin p 0 0 = some (q, some delta)) :
    boundsLoop mem fin addr p va start =
      if delta = 0 then some none
      else if (va + delta) % 2 ^ 64 ≤ addr then
        boundsLoop mem fin addr q ((va + delta) % 2 ^ 64) ((va + delta) % 2 ^ 64)
      else if start = 0 then some none
      else some (some (start, (va + delta) % 2 ^ 64)) := by
  rw [boundsLoop, if_pos (lt_of_ulebLoop hnum).2]
  split
  · rename_i hother
    rw [hnum] at hother
    cases hother
  · rename_i hother
    rw [hnum] at hother
    cases hother
  · rename_i hother
    rw [hnum] at hother
    cases hother
    rfl

/-- Where the numbers end, the loop ends. -/
theorem boundsLoop_zeros {p va start n : Nat} (hheld : mem.Holds p (List.replicate n 0)) (hfin : fin = p + n) :
    boundsLoop mem fin addr p va start = some none := by
  cases n with
  | zero => rw [boundsLoop, if_neg (by omega)]
  | succ n =>
    have hzero : ulebLoop mem fin p 0 0 = some (p + 1, some 0) := by
      rw [List.replicate_succ] at hheld
      rw [ulebLoop_byte hheld.1 (by omega)]
      rfl
    rw [boundsLoop_number hzero, if_pos rfl]

/-- Over the table of a list of starts the loop brackets the address. -/
theorem boundsLoop_starts {prev p start n : Nat} {starts : List Nat} {s : Bytes} (henc : EncodesDeltas prev starts s)
    (hincr : (prev :: starts).IsChain (· < ·)) (htop : ∀ a ∈ starts, a < 2 ^ 64)
    (hheld : mem.Holds p (s ++ List.replicate n 0)) (hfin : fin = p + (s ++ List.replicate n 0).length) :
    boundsLoop mem fin addr p prev start = some (bracket addr start starts) := by
  induction henc generalizing p start with
  | nil =>
    rw [List.nil_append, List.length_replicate] at hfin
    exact boundsLoop_zeros hheld hfin
  | @cons prev a as s t hs ht ih =>
    obtain ⟨hlt, hincr⟩ := List.isChain_cons_cons.mp hincr
    have ha := htop a List.mem_cons_self
    rw [List.append_assoc, Memory.holds_append] at hheld
    rw [List.append_assoc, List.length_append] at hfin
    have hnum : ulebLoop mem fin p 0 0 = some (p + s.length, some (0 + (a - prev) * 2 ^ 0)) :=
      ulebLoop_value hs hheld.1 (by omega) (by decide) (by decide) (by omega)
    rw [Nat.zero_add, pow_zero, Nat.mul_one] at hnum
    have hva : (prev + (a - prev)) % 2 ^ 64 = a := by omega
    rw [boundsLoop_number hnum, if_neg (by omega), hva, bracket]
    by_cases hle : a ≤ addr
    · rw [if_pos hle, if_pos hle]
      exact ih hincr (fun b hb ↦ htop b (List.mem_cons_of_mem a hb)) hheld.2 (by omega)
    · rw [if_neg hle, if_neg hle]
      split <;> rfl

theorem boundsLoop_mapped {p va start : Nat} (h : ∀ a, p ≤ a → a < fin → mem.byte a ≠ none) :
    boundsLoop mem fin addr p va start ≠ none := by
  fun_induction boundsLoop mem fin addr p va start with
  | case1 p va start hlt hnum => exact absurd hnum (ulebLoop_mapped h)
  | case4 p va start hlt q delta hnum hdelta va' hle ih =>
    have hq := lt_of_ulebLoop hnum
    exact ih fun a hle hlt ↦ h a (by omega) hlt
  | _ => nofun

/-- Bounds that come out are around the address. -/
theorem boundsLoop_around {p va start a b : Nat} (hstart : start ≤ addr)
    (h : boundsLoop mem fin addr p va start = some (some (a, b))) : a ≤ addr ∧ addr < b := by
  fun_induction boundsLoop mem fin addr p va start with
  | case4 p va start hlt q delta hnum hdelta va' hle ih => exact ih hle h
  | case6 p va start hlt q delta hnum hdelta va' hgt hstarted =>
    obtain ⟨rfl, rfl⟩ := Prod.mk.inj (Option.some.inj (Option.some.inj h))
    omega
  | _ => cases h

end

/-! ## The brackets -/

theorem bracket_consecutive {addr start a b : Nat} {starts : List Nat} (h : bracket addr start starts = some (a, b)) :
    [a, b] <:+: start :: starts := by
  induction starts generalizing start with
  | nil => cases h
  | cons c cs ih =>
    rw [bracket] at h
    split at h
    · exact (ih h).trans (List.suffix_cons start (c :: cs)).isInfix
    · split at h
      · cases h
      · obtain ⟨rfl, rfl⟩ := Prod.mk.inj (Option.some.inj h)
        exact ⟨[], cs, rfl⟩

/-- Once there is a start, only an address from the last one on has no bracket. -/
theorem exists_bracket {addr start : Nat} {starts : List Nat} (hincr : (start :: starts).IsChain (· < ·))
    (hpos : 0 < start) (hle : start ≤ addr) :
    (∃ r, bracket addr start starts = some r) ↔ ∃ last ∈ (start :: starts).getLast?, addr < last := by
  induction starts generalizing start with
  | nil =>
    apply iff_of_false
    · rintro ⟨r, hr⟩
      cases hr
    · rintro ⟨last, hlast, hlt⟩
      obtain rfl : start = last := Option.some.inj hlast
      omega
  | cons a as ih =>
    obtain ⟨hlt, hincr⟩ := List.isChain_cons_cons.mp hincr
    rw [bracket, List.getLast?_cons_cons]
    by_cases ha : a ≤ addr
    · rw [if_pos ha]
      exact ih hincr (by omega) ha
    · rw [if_neg ha, if_neg (by omega)]
      apply iff_of_true ⟨_, rfl⟩
      refine ⟨_, List.getLast?_eq_some_getLast (List.cons_ne_nil a as), ?_⟩
      have hmem := List.getLast_mem (List.cons_ne_nil a as)
      obtain hlast | hlast := List.mem_cons.mp hmem
      · omega
      · have := List.rel_of_pairwise_cons (List.isChain_iff_pairwise.mp hincr) hlast
        omega

/-- From no start at all: only an address at or above the first start and below the last one has a bracket. -/
theorem exists_bracket_zero {addr : Nat} {starts : List Nat} (hincr : starts.IsChain (· < ·)) (hpos : ∀ a ∈ starts, 0 < a) :
    (∃ r, bracket addr 0 starts = some r) ↔
      ∃ first ∈ starts.head?, ∃ last ∈ starts.getLast?, first ≤ addr ∧ addr < last := by
  cases starts with
  | nil =>
    apply iff_of_false
    · rintro ⟨r, hr⟩
      cases hr
    · rintro ⟨first, hfirst, -⟩
      cases hfirst
  | cons a as =>
    rw [bracket, List.head?_cons]
    by_cases ha : a ≤ addr
    · rw [if_pos ha, exists_bracket hincr (hpos a List.mem_cons_self) ha]
      apply Iff.intro
      · rintro ⟨last, hlast, hlt⟩
        exact ⟨a, rfl, last, hlast, ha, hlt⟩
      · rintro ⟨first, -, last, hlast, -, hlt⟩
        exact ⟨last, hlast, hlt⟩
    · rw [if_neg ha, if_pos rfl]
      apply iff_of_false
      · rintro ⟨r, hr⟩
        cases hr
      · rintro ⟨first, hfirst, last, hlast, hle, hlt⟩
        obtain rfl := Option.some.inj hfirst
        exact ha hle

theorem bracket_zero_consecutive {addr a b : Nat} {starts : List Nat} (h : bracket addr 0 starts = some (a, b)) :
    [a, b] <:+: starts := by
  cases starts with
  | nil => cases h
  | cons c cs =>
    rw [bracket] at h
    split at h
    · exact bracket_consecutive h
    · cases h

theorem npFunctionBounds_bracket {mh : MachHeader} {slide p size zeros addr : Nat} {mem : Memory} {starts : List Nat}
    {s : Bytes} (htable : FunctionStarts mh slide p size) (hsize : (s ++ List.replicate zeros 0).length = size)
    (hheld : mem.Holds p (s ++ List.replicate zeros 0)) (henc : EncodesDeltas mh.address starts s)
    (hincr : (mh.address :: starts).IsChain (· < ·)) (htop : ∀ a ∈ starts, a < 2 ^ 64) :
    npFunctionBounds mh slide mem addr = some (bracket addr 0 starts) := by
  have hloop : boundsLoop mem (p + size) addr p mh.address 0 = some (bracket addr 0 starts) :=
    boundsLoop_starts henc hincr htop hheld (by rw [hsize])
  rw [npFunctionBounds, htable.fnStartsTable_eq]
  by_cases hnone : size = 0
  · rw [boundsLoop, if_neg (by omega)] at hloop
    rw [if_pos (.inl hnone)]
    exact hloop
  · have hmapped := hheld.mapped
    rw [hsize] at hmapped
    have hp : p ≠ 0 := by
      rintro rfl
      exact hmapped 0 (Nat.le_refl 0) (by omega) mem.null
    have hbelow := mem.below (p + size - 1) (hmapped _ (by omega) (by omega))
    rw [if_neg (by omega)]
    show boundsLoop mem ((p + size) % 2 ^ 64) addr p mh.address 0 = some (bracket addr 0 starts)
    rw [Nat.mod_eq_of_lt (by omega)]
    exact hloop

theorem npFunctionBounds_around {mh : MachHeader} {slide addr a b : Nat} {mem : Memory}
    (h : npFunctionBounds mh slide mem addr = some (some (a, b))) : a ≤ addr ∧ addr < b := by
  rw [npFunctionBounds] at h
  split at h
  · cases h
  · exact boundsLoop_around (Nat.zero_le addr) h

/-- A mapped table is read without a fault. -/
theorem npFunctionBounds_mapped {mh : MachHeader} {slide addr : Nat} {mem : Memory}
    (hmapped : ∀ p size, fnStartsTable mh slide = some (p, size) → ∀ a, p ≤ a → a < p + size → mem.byte a ≠ none) :
    npFunctionBounds mh slide mem addr ≠ none := by
  rw [npFunctionBounds]
  split
  · nofun
  · rename_i p size htable
    apply boundsLoop_mapped
    intro a hle hlt
    exact hmapped p size htable a hle (Nat.lt_of_lt_of_le hlt (Nat.mod_le _ _))

/-- An address further on, still before the end, has the same bounds, whatever the table holds. -/
theorem boundsLoop_same {mem : Memory} {fin addr addr' p va start a b : Nat} (hle : addr ≤ addr') (hlt : addr' < b)
    (h : boundsLoop mem fin addr p va start = some (some (a, b))) :
    boundsLoop mem fin addr' p va start = some (some (a, b)) := by
  fun_induction boundsLoop mem fin addr p va start with
  | case4 p va start hin q delta hnum hdelta va' hva ih =>
    rw [boundsLoop_number hnum, if_neg hdelta, if_pos (Nat.le_trans hva hle)]
    exact ih h
  | case6 p va start hin q delta hnum hdelta va' hva hstart =>
    obtain ⟨rfl, rfl⟩ := Prod.mk.inj (Option.some.inj (Option.some.inj h))
    rw [boundsLoop_number hnum, if_neg hdelta, if_neg (Nat.not_le.mpr hlt), if_neg hstart]
  | _ => cases h

theorem npFunctionBounds_same {mh : MachHeader} {slide addr addr' a b : Nat} {mem : Memory} (hle : addr ≤ addr')
    (hlt : addr' < b) (h : npFunctionBounds mh slide mem addr = some (some (a, b))) :
    npFunctionBounds mh slide mem addr' = some (some (a, b)) := by
  rw [npFunctionBounds] at h ⊢
  split at h
  · cases h
  · exact boundsLoop_same hle hlt h

/-- The bounds of an address are the two starts around it, and a table of any bytes is read to its end at most. -/
theorem npFunctionBounds_spec :
    (∀ (mh : MachHeader) (slide p size : Nat) (mem : Memory) (starts : List Nat) (s : Bytes) (zeros addr : Nat),
      FunctionStarts mh slide p size → (s ++ List.replicate zeros 0).length = size →
      mem.Holds p (s ++ List.replicate zeros 0) → EncodesDeltas mh.address starts s →
      (mh.address :: starts).IsChain (· < ·) → (∀ a ∈ starts, a < 2 ^ 64) →
      ∃ bounds, npFunctionBounds mh slide mem addr = some bounds ∧
        ((∃ r, bounds = some r) ↔ ∃ first ∈ starts.head?, ∃ last ∈ starts.getLast?, first ≤ addr ∧ addr < last) ∧
        ∀ a b, bounds = some (a, b) → [a, b] <:+: starts ∧ a ≤ addr ∧ addr < b) ∧
      ∀ (mh : MachHeader) (slide : Nat) (mem : Memory) (addr : Nat),
        (∀ p size, fnStartsTable mh slide = some (p, size) → ∀ a, p ≤ a → a < p + size → mem.byte a ≠ none) →
        ∃ bounds, npFunctionBounds mh slide mem addr = some bounds ∧
          ∀ a b, bounds = some (a, b) → a ≤ addr ∧ addr < b := by
  apply And.intro
  · intro mh slide p size mem starts s zeros addr htable hsize hheld henc hincr htop
    have hbounds : npFunctionBounds mh slide mem addr = some (bracket addr 0 starts) :=
      npFunctionBounds_bracket htable hsize hheld henc hincr htop
    have hpos : ∀ a ∈ starts, 0 < a := by
      intro a ha
      have := List.rel_of_pairwise_cons (List.isChain_iff_pairwise.mp hincr) ha
      omega
    refine ⟨_, hbounds, exists_bracket_zero hincr.tail hpos, ?_⟩
    intro a b hab
    rw [hab] at hbounds
    exact ⟨bracket_zero_consecutive hab, npFunctionBounds_around hbounds⟩
  · intro mh slide mem addr hmapped
    obtain ⟨bounds, hbounds⟩ := Option.ne_none_iff_exists'.mp (npFunctionBounds_mapped hmapped)
    refine ⟨bounds, hbounds, ?_⟩
    rintro a b rfl
    exact npFunctionBounds_around hbounds

/-- A table of three starts with three zeros behind it, in a `__LINKEDIT` of 256 bytes. -/
def threeStarts : MachHeader where
  address := 0x1000
  ncmds := 2
  commands :=
    (leBytes 4 lcSegment64 ++ leBytes 4 72 ++ (ascii "__LINKEDIT" ++ List.replicate 6 0) ++ leBytes 8 0x8000 ++
      leBytes 8 256 ++ leBytes 8 0x4000 ++ leBytes 8 256 ++ List.replicate 16 0) ++
    (leBytes 4 lcFunctionStarts ++ leBytes 4 16 ++ leBytes 4 0x4010 ++ leBytes 4 8)

def threeStartsMemory : Memory where
  byte a := if 0x8010 ≤ a then [0x80, 0x04, 0x08, 0xF8, 0x01, 0, 0, 0][a - 0x8010]? else none
  null := rfl
  below := by
    intro a ha
    split at ha
    · rw [ne_eq, List.getElem?_eq_none_iff, List.length_cons] at ha
      simp only [List.length_cons, List.length_nil] at ha
      omega
    · exact absurd rfl ha

theorem threeStarts_table : FunctionStarts threeStarts 0 0x8010 8 := by
  refine ⟨[threeStarts.commands.take 72, threeStarts.commands.drop 72], threeStarts.commands.drop 72,
    threeStarts.commands.take 72, ?_, ?_, ?_, ?_, ?_, ?_⟩ <;> decide

theorem npFunctionBounds_spec_three :
    (∃ a b, npFunctionBounds threeStarts 0 threeStartsMemory 0x1204 = some (some (a, b)) ∧
      [a, b] <:+: [0x1200, 0x1208, 0x1300] ∧ a ≤ 0x1204 ∧ 0x1204 < b) ∧
      ∃ bounds, npFunctionBounds threeStarts 0 threeStartsMemory 0x1300 = some bounds := by
  have henc : EncodesDeltas 0x1000 [0x1200, 0x1208, 0x1300] (uleb 0x200 ++ (uleb 8 ++ (uleb 0xF8 ++ []))) :=
    .cons (uleb_encodes _) (.cons (uleb_encodes _) (.cons (uleb_encodes _) .nil))
  have hbytes : uleb 0x200 ++ (uleb 8 ++ (uleb 0xF8 ++ [])) = [0x80, 0x04, 0x08, 0xF8, 0x01] := by
    simp [uleb]
  rw [hbytes] at henc
  apply And.intro
  · obtain ⟨bounds, hbounds, hiff, hpair⟩ := npFunctionBounds_spec.1 threeStarts 0 0x8010 8 threeStartsMemory
      [0x1200, 0x1208, 0x1300] [0x80, 0x04, 0x08, 0xF8, 0x01] 3 0x1204 threeStarts_table rfl
      (by simp [Memory.Holds, threeStartsMemory, List.replicate]) henc (by decide) (by decide)
    obtain ⟨⟨a, b⟩, rfl⟩ := hiff.mpr ⟨0x1200, rfl, 0x1300, rfl, by decide, by decide⟩
    exact ⟨a, b, hbounds, hpair a b rfl⟩
  · obtain ⟨bounds, hbounds, -⟩ := npFunctionBounds_spec.2 threeStarts 0 threeStartsMemory 0x1300 (by
      intro p size htable a hle hlt
      rw [threeStarts_table.fnStartsTable_eq] at htable
      obtain ⟨rfl, rfl⟩ := Prod.mk.inj (Option.some.inj htable)
      have hall : ∀ i < 8, threeStartsMemory.byte (0x8010 + i) ≠ none := by decide
      obtain ⟨i, rfl⟩ := Nat.exists_eq_add_of_le hle
      exact hall i (by omega))
    exact ⟨bounds, hbounds⟩

end NotProton.Core
