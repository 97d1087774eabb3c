import Mathlib

/-!
# Text — byte strings as C and the shell read them

Byte strings are lists of `UInt8`.  A C string ends at its first zero byte, `snprintf` keeps what
fits its buffer, `fgets` hands out one buffer-sized piece of a line at a time.
-/

namespace NotProton.Library

abbrev Bytes := List UInt8

instance : LawfulBEq Bytes := inferInstance

/-- The bytes of an ASCII literal. -/
def ascii (s : String) : Bytes := s.toList.map fun c ↦ UInt8.ofNat c.toNat

/-- The UTF-8 bytes of a literal. -/
def utf8 (s : String) : Bytes := s.toByteArray.data.toList

def isUpper (c : UInt8) : Bool := 65 ≤ c && c ≤ 90
def isLower (c : UInt8) : Bool := 97 ≤ c && c ≤ 122
def isDigit (c : UInt8) : Bool := 48 ≤ c && c ≤ 57

def toLower (c : UInt8) : UInt8 := if isUpper c then c + 32 else c

/-- A fact about every byte, checked number by number. -/
theorem forall_byte {p : UInt8 → Prop} (h : ∀ n < 256, p (UInt8.ofNat n)) (c : UInt8) : p c := by
  have hc := h c.toNat c.toNat_lt
  rwa [UInt8.ofNat_toNat] at hc

/-- What a C string function sees of a buffer. -/
def cString (s : Bytes) : Bytes := s.takeWhile (· ≠ 0)

/-- `snprintf(buf, cap, "%s", s)`: the text that is in `buf` afterwards. -/
def snprintf (cap : Nat) (s : Bytes) : Bytes := s.take (cap - 1)

theorem snprintf_of_lt {cap : Nat} {s : Bytes} (h : s.length < cap) : snprintf cap s = s := by
  apply List.take_of_length_le
  omega

theorem snprintf_length_lt {cap : Nat} (s : Bytes) (h : 0 < cap) : (snprintf cap s).length < cap := by
  simp only [snprintf, List.length_take]
  omega

/-! ## Splitting at a byte -/

/-- The text before the first `c`, and the text after it when there is one (`strchr`). -/
def splitAt (c : UInt8) : Bytes → Bytes × Option Bytes
  | [] => ([], none)
  | b :: s => if b = c then ([], some s) else
      let r := splitAt c s
      (b :: r.1, r.2)

@[simp] theorem splitAt_nil (c : UInt8) : splitAt c [] = ([], none) := rfl

theorem splitAt_cons_self (c : UInt8) (s : Bytes) : splitAt c (c :: s) = ([], some s) := by
  simp [splitAt]

theorem splitAt_cons_ne {b c : UInt8} (h : b ≠ c) (s : Bytes) :
    splitAt c (b :: s) = (b :: (splitAt c s).1, (splitAt c s).2) := by
  simp [splitAt, h]

theorem splitAt_of_not_mem {c : UInt8} {s : Bytes} (h : c ∉ s) : splitAt c s = (s, none) := by
  induction s with
  | nil => rfl
  | cons b s ih =>
    have hb : b ≠ c := fun e ↦ h (by simp [e])
    rw [splitAt_cons_ne hb, ih fun hs ↦ h (List.mem_cons_of_mem b hs)]

theorem splitAt_append {c : UInt8} {s : Bytes} (h : c ∉ s) (t : Bytes) :
    splitAt c (s ++ c :: t) = (s, some t) := by
  induction s with
  | nil => exact splitAt_cons_self c t
  | cons b s ih =>
    have hb : b ≠ c := fun e ↦ h (by simp [e])
    rw [List.cons_append, splitAt_cons_ne hb, ih fun hs ↦ h (List.mem_cons_of_mem b hs)]

theorem splitAt_fst_not_mem (c : UInt8) (s : Bytes) : c ∉ (splitAt c s).1 := by
  induction s with
  | nil => simp
  | cons b s ih =>
    by_cases hb : b = c
    · simp [splitAt, hb]
    · rw [splitAt_cons_ne hb]
      simp [ih, Ne.symm hb]

/-- Cutting a text at its first `c` loses nothing but the `c`. -/
theorem splitAt_spec (c : UInt8) (s : Bytes) :
    s = match (splitAt c s).2 with
        | none => (splitAt c s).1
        | some t => (splitAt c s).1 ++ c :: t := by
  induction s with
  | nil => rfl
  | cons b s ih =>
    by_cases hb : b = c
    · simp [splitAt, hb]
    · rw [splitAt_cons_ne hb]
      cases h : (splitAt c s).2 with
      | none => rw [h] at ih; simpa using ih
      | some t => rw [h] at ih; simpa using ih

/-! ## Splitting at every byte -/

theorem splitOn_cons_ne {b c : UInt8} (h : b ≠ c) (s : Bytes) :
    (b :: s).splitOn c = (s.splitOn c).modifyHead (b :: ·) := by
  rw [List.splitOn_cons_eq_if_modifyHead, if_neg (by simpa using h)]

theorem splitOn_cons_self (c : UInt8) (s : Bytes) : (c :: s).splitOn c = [] :: s.splitOn c := by
  rw [List.splitOn_cons_eq_if_modifyHead, if_pos (by simp)]

/-- A text has the bytes of its pieces and the one it was split at. -/
theorem all_of_splitOn {p : UInt8 → Bool} {c : UInt8} {s : Bytes} (hc : p c = true)
    (h : ∀ piece ∈ s.splitOn c, piece.all p = true) : s.all p = true := by
  induction s with
  | nil => rfl
  | cons b s ih =>
    by_cases hb : b = c
    · subst hb
      rw [splitOn_cons_self] at h
      rw [List.all_cons, hc, ih fun piece hm ↦ h piece (List.mem_cons_of_mem _ hm)]
      rfl
    · rw [splitOn_cons_ne hb] at h
      cases hs : s.splitOn c with
      | nil => exact absurd hs (List.splitOn_ne_nil c s)
      | cons piece pieces =>
        rw [hs, List.modifyHead_cons] at h
        obtain ⟨hhead, htail⟩ := List.forall_mem_cons.mp h
        rw [List.all_cons, Bool.and_eq_true] at hhead
        rw [List.all_cons, hhead.1, ih (by rw [hs]; exact List.forall_mem_cons.mpr ⟨hhead.2, htail⟩)]
        rfl

theorem notMem_of_mem_splitOn {c : UInt8} {s piece : Bytes} (h : piece ∈ s.splitOn c) :
    c ∉ piece := by
  induction s generalizing piece with
  | nil =>
    rw [List.splitOn_nil, List.mem_singleton] at h
    rw [h]
    exact List.not_mem_nil
  | cons b s ih =>
    by_cases hb : b = c
    · subst hb
      rw [splitOn_cons_self, List.mem_cons] at h
      rcases h with rfl | h
      · exact List.not_mem_nil
      · exact ih h
    · rw [splitOn_cons_ne hb] at h
      cases hs : s.splitOn c with
      | nil => exact absurd hs (List.splitOn_ne_nil c s)
      | cons head tail =>
        rw [hs, List.modifyHead_cons, List.mem_cons] at h
        rcases h with rfl | h
        · have := ih (hs ▸ List.mem_cons_self (a := head) (l := tail))
          simp [Ne.symm hb, this]
        · exact ih (hs ▸ List.mem_cons_of_mem head h)

/-- Every piece and the byte after it, less the byte after the last. -/
theorem splitOn_length (c : UInt8) (s : Bytes) :
    ((s.splitOn c).map fun piece ↦ piece.length + 1).sum = s.length + 1 := by
  induction s with
  | nil => rfl
  | cons b s ih =>
    by_cases hb : b = c
    · subst hb
      rw [splitOn_cons_self, List.map_cons, List.sum_cons, ih, List.length_cons, List.length_nil]
      omega
    · rw [splitOn_cons_ne hb]
      cases hs : s.splitOn c with
      | nil => exact absurd hs (List.splitOn_ne_nil c s)
      | cons head tail =>
        rw [hs, List.map_cons, List.sum_cons] at ih
        simp only [List.modifyHead_cons, List.map_cons, List.sum_cons, List.length_cons]
        omega

/-- Lines that each end in a newline split into themselves and an empty last piece. -/
theorem splitOn_flatMap {c : UInt8} {lines : List Bytes} (h : ∀ line ∈ lines, c ∉ line) :
    (lines.flatMap fun line ↦ line ++ [c]).splitOn c = lines ++ [[]] := by
  induction lines with
  | nil => rfl
  | cons line lines ih =>
    obtain ⟨hline, hlines⟩ := List.forall_mem_cons.mp h
    rw [List.flatMap_cons, List.append_assoc, List.singleton_append,
      List.splitOn_append_cons_self_of_not_mem hline, ih hlines, List.cons_append]

/-! ## Lines -/

/-- `fgets(line, cap, f)` on the unread text: the piece it stores, and what stays unread. -/
def fgets : Nat → Bytes → Bytes × Bytes
  | 0, s => ([], s)
  | _, [] => ([], [])
  | n + 1, b :: s =>
      if b = 10 ∨ n = 1 then ([b], s)
      else if n = 0 then ([], b :: s)
      else
        let r := fgets n s
        (b :: r.1, r.2)

/-- The lines a `while (fgets(line, cap, f))` loop sees, each as its C string. -/
def fgetsLines (cap : Nat) : Nat → Bytes → List Bytes
  | 0, _ => []
  | _, [] => []
  | fuel + 1, s =>
      let r := fgets cap s
      cString r.1 :: fgetsLines cap fuel r.2

theorem fgets_append {n : Nat} {line : Bytes} (h : 10 ∉ line) (hlen : line.length < n) (s : Bytes) :
    fgets (n + 1) (line ++ s) =
      (line ++ (fgets (n + 1 - line.length) s).1, (fgets (n + 1 - line.length) s).2) := by
  induction line generalizing n with
  | nil => rfl
  | cons b line ih =>
    rw [List.length_cons] at hlen
    obtain ⟨n, rfl⟩ : ∃ k, n = k + 1 := ⟨n - 1, by omega⟩
    have hb : b ≠ 10 := fun e ↦ h (e ▸ List.mem_cons_self)
    have hrest := ih (fun hm ↦ h (List.mem_cons_of_mem b hm)) (show line.length < n by omega)
    rw [List.cons_append, fgets, if_neg (by simp [hb]; omega), if_neg (by omega), hrest, List.length_cons,
      show n + 1 + 1 - (line.length + 1) = n + 1 - line.length by omega]
    rfl

theorem fgets_full {n : Nat} {line : Bytes} (h : 10 ∉ line) (hlen : line.length = n) (hn : 0 < n) (s : Bytes) :
    fgets (n + 1) (line ++ s) = (line, s) := by
  induction line generalizing n with
  | nil => simp at hlen; omega
  | cons b line ih =>
    rw [List.length_cons] at hlen
    have hb : b ≠ 10 := fun e ↦ h (e ▸ List.mem_cons_self)
    rw [List.cons_append, fgets]
    by_cases hlast : n = 1
    · rw [if_pos (.inr hlast), List.eq_nil_of_length_eq_zero (show line.length = 0 by omega)]
      rfl
    · obtain ⟨n, rfl⟩ : ∃ k, n = k + 1 := ⟨n - 1, by omega⟩
      rw [if_neg (by simp [hb]; omega), if_neg (by omega),
        ih (fun hm ↦ h (List.mem_cons_of_mem b hm)) (by omega) (by omega)]

theorem fgetsLines_cons {cap fuel : Nat} {s : Bytes} (hs : s ≠ []) :
    fgetsLines cap (fuel + 1) s = cString (fgets cap s).1 :: fgetsLines cap fuel (fgets cap s).2 := by
  cases s with
  | nil => exact absurd rfl hs
  | cons b s => rfl

theorem cString_of_notMem {s : Bytes} (h : 0 ∉ s) : cString s = s := by
  rw [cString, List.takeWhile_eq_self_iff]
  intro b hb
  rw [decide_eq_true_eq]
  exact fun e ↦ h (e ▸ hb)

/-- A loop that minds neither line ends nor blank lines sees the lines of a text whose lines fit. -/
theorem foldl_fgetsLines {α : Type} {f : α → Bytes → α} (hnewline : ∀ a line, f a (line ++ [10]) = f a line)
    (hblank : ∀ a, f a [] = a) {n fuel : Nat} {s : Bytes} (hn : 0 < n) (hnul : 0 ∉ s)
    (hlines : ∀ line ∈ s.splitOn 10, line.length ≤ n) (hfuel : s.length ≤ fuel) (a : α) :
    (fgetsLines (n + 1) fuel s).foldl f a = (s.splitOn 10).foldl f a := by
  induction hk : s.length using Nat.strong_induction_on generalizing s fuel a with
  | _ k ih =>
  by_cases hs : s = []
  · rw [hs]
    cases fuel <;> exact (hblank a).symm
  have hpos : 0 < s.length := List.length_pos_of_ne_nil hs
  obtain ⟨fuel, rfl⟩ : ∃ m, fuel = m + 1 := ⟨fuel - 1, by omega⟩
  rw [fgetsLines_cons hs, List.foldl_cons]
  have hspec := splitAt_spec 10 s
  have hline := splitAt_fst_not_mem 10 s
  generalize splitAt 10 s = cut at *
  cases hcut : cut.2 with
  | none =>
    -- the last line, without a line end
    rw [hcut] at hspec
    simp only at hspec
    rw [← hspec] at hline
    have hread : fgets (n + 1) s = (s, []) := by
      have hlen := hlines s (by rw [List.splitOn_eq_singleton hline]; exact List.mem_cons_self)
      by_cases hfull : s.length = n
      · have h := fgets_full hline hfull hn []
        rwa [List.append_nil] at h
      · have h := fgets_append hline (show s.length < n by omega) []
        have hnil : ∀ m, fgets m [] = ([], []) := fun m ↦ by cases m <;> rfl
        rwa [hnil, List.append_nil] at h
    rw [hread, cString_of_notMem hnul, List.splitOn_eq_singleton hline]
    cases fuel <;> rfl
  | some rest =>
    rw [hcut] at hspec
    simp only at hspec
    have hsplit : s.splitOn 10 = cut.1 :: rest.splitOn 10 := by
      rw [hspec]
      exact List.splitOn_append_cons_self_of_not_mem hline rest
    have hnulLine : 0 ∉ cut.1 := fun hm ↦ hnul (by rw [hspec]; exact List.mem_append_left _ hm)
    have hnulRest : 0 ∉ rest :=
      fun hm ↦ hnul (by rw [hspec]; exact List.mem_append_right _ (List.mem_cons_of_mem 10 hm))
    have hlen : s.length = cut.1.length + rest.length + 1 := by
      rw [hspec, List.length_append, List.length_cons]
      omega
    rw [hsplit, List.forall_mem_cons] at hlines
    by_cases hfull : cut.1.length = n
    · -- the line end is read by itself
      have hread : fgets (n + 1) s = (cut.1, 10 :: rest) := by
        rw [hspec]
        exact fgets_full hline hfull hn _
      obtain ⟨fuel, rfl⟩ : ∃ m, fuel = m + 1 := ⟨fuel - 1, by omega⟩
      have hend : fgets (n + 1) (10 :: rest) = ([10], rest) := by rw [fgets, if_pos (.inl rfl)]
      have hskip : f (f a cut.1) [10] = f a cut.1 := by
        rw [show ([10] : Bytes) = [] ++ [10] from rfl, hnewline, hblank]
      rw [hread, cString_of_notMem hnulLine, fgetsLines_cons (List.cons_ne_nil 10 rest), hend, List.foldl_cons,
        show cString [10] = [10] from rfl, hskip, hsplit, List.foldl_cons]
      exact ih rest.length (by omega) hnulRest hlines.2 (by omega) _ rfl
    · have hread : fgets (n + 1) s = (cut.1 ++ [10], rest) := by
        have hfit : cut.1.length < n := by omega
        rw [hspec, fgets_append hline hfit]
        obtain ⟨m, hm⟩ : ∃ m, n + 1 - cut.1.length = m + 1 := ⟨n - cut.1.length, by omega⟩
        rw [hm, fgets, if_pos (.inl rfl)]
      have hnulEnd : 0 ∉ cut.1 ++ [10] := by
        rw [List.mem_append, not_or]
        exact ⟨hnulLine, by decide⟩
      rw [hread, cString_of_notMem hnulEnd, hnewline, hsplit, List.foldl_cons]
      exact ih rest.length (by omega) hnulRest hlines.2 (by omega) _ rfl

/-- Drops the line end `chomp` drops. -/
def chomp (s : Bytes) : Bytes := s.rdropWhile fun c ↦ c = 10 || c = 13

/-! ## Numbers as text -/

def decimal (n : Nat) : Bytes := (Nat.toDigits 10 n).map fun c ↦ UInt8.ofNat c.toNat

def hexDigit (n : Nat) : UInt8 := if n < 10 then UInt8.ofNat (48 + n) else UInt8.ofNat (87 + n)

def hexByte (b : UInt8) : Bytes := [hexDigit (b.toNat / 16), hexDigit (b.toNat % 16)]

theorem hexByte_injective : Function.Injective hexByte := by
  have h : ∀ m < 16, ∀ n < 16, hexDigit m = hexDigit n → m = n := by decide
  intro a b e
  simp only [hexByte, List.cons.injEq, and_true] at e
  have ha := a.toNat_lt
  have hb := b.toNat_lt
  have hd := h _ (by omega) _ (by omega) e.1
  have hm := h _ (by omega) _ (by omega) e.2
  apply UInt8.toNat_inj.mp
  omega

theorem flatMap_hexByte_injective : Function.Injective (List.flatMap hexByte) := by
  intro s t h
  induction s generalizing t with
  | nil =>
    cases t with
    | nil => rfl
    | cons b t => simp [hexByte] at h
  | cons a s ih =>
    cases t with
    | nil => simp [hexByte] at h
    | cons b t =>
      have hl : (hexByte a).length = (hexByte b).length := rfl
      obtain ⟨hab, hst⟩ := List.append_inj h hl
      rw [hexByte_injective hab, ih hst]

end NotProton.Library
