import NotProton.Library.Text

/-!
# Numeral — numbers written with decimal digits or fewer, the highest first
-/

namespace NotProton.Library

/-- The number that digits of a base up to ten denote. -/
def numeral (base : Nat) (s : Bytes) : Nat := s.foldl (fun n c ↦ base * n + (c.toNat - 48)) 0

/-! ## Printed numbers -/

theorem digit_toNat {base n : Nat} {d : Char} (hpos : 0 < base) (hbase : base ≤ 10) (hd : d ∈ Nat.toDigits base n) :
    48 ≤ d.toNat ∧ d.toNat ≤ 57 ∧ (UInt8.ofNat d.toNat).toNat = d.toNat := by
  have hdigit := Nat.isDigit_of_mem_toDigits hpos hbase hd
  rw [Char.isDigit, Bool.and_eq_true, decide_eq_true_eq, decide_eq_true_eq, ge_iff_le, UInt32.le_iff_toNat_le,
    UInt32.le_iff_toNat_le] at hdigit
  have hlow : 48 ≤ d.toNat := hdigit.1
  have hhigh : d.toNat ≤ 57 := hdigit.2
  rw [UInt8.toNat_ofNat']
  omega

theorem digits_notMem {base n : Nat} {c : UInt8} (hpos : 0 < base) (hbase : base ≤ 10) (hc : c.toNat < 48) :
    c ∉ (Nat.toDigits base n).map fun d ↦ UInt8.ofNat d.toNat := by
  intro hmem
  obtain ⟨d, hd, rfl⟩ := List.mem_map.mp hmem
  have := digit_toNat hpos hbase hd
  omega

theorem digits_inj {base m n : Nat} (hbase : 1 < base) (hten : base ≤ 10)
    (h : ((Nat.toDigits base m).map fun d ↦ UInt8.ofNat d.toNat) =
      (Nat.toDigits base n).map fun d ↦ UInt8.ofNat d.toNat) : m = n := by
  have hback (n : Nat) : ((Nat.toDigits base n).map fun d ↦ UInt8.ofNat d.toNat).map (fun b ↦ Char.ofNat b.toNat) =
      Nat.toDigits base n := by
    rw [List.map_map]
    conv_rhs => rw [← List.map_id (Nat.toDigits base n)]
    apply List.map_congr_left
    intro d hd
    show Char.ofNat (UInt8.ofNat d.toNat).toNat = d
    rw [(digit_toNat (by omega) hten hd).2.2, Char.ofNat_toNat]
  calc m = Nat.ofDigitChars base (Nat.toDigits base m) 0 := (Nat.ofDigitChars_toDigits hbase hten).symm
    _ = Nat.ofDigitChars base (Nat.toDigits base n) 0 := by rw [← hback m, h, hback n]
    _ = n := Nat.ofDigitChars_toDigits hbase hten

/-- A printed number has decimal digits only. -/
theorem decimal_isDigit {n : Nat} {c : UInt8} (h : c ∈ decimal n) : isDigit c = true := by
  obtain ⟨d, hd, rfl⟩ := List.mem_map.mp h
  obtain ⟨hlow, hhigh, heq⟩ := digit_toNat (by decide) (by decide) hd
  rw [isDigit, Bool.and_eq_true, decide_eq_true_iff, decide_eq_true_iff, UInt8.le_iff_toNat_le, UInt8.le_iff_toNat_le, heq]
  exact ⟨hlow, hhigh⟩

theorem decimal_ne_nil (n : Nat) : decimal n ≠ [] := by
  rw [decimal, ne_eq, List.map_eq_nil_iff]
  exact Nat.toDigits_ne_nil

theorem decimal_length_le {n k : Nat} (h : n < 10 ^ k) (hk : 0 < k) : (decimal n).length ≤ k := by
  rw [decimal, List.length_map]
  exact (Nat.length_toDigits_le_iff (by decide) hk).mpr h

theorem decimal_inj {m n : Nat} (h : decimal m = decimal n) : m = n := digits_inj (by decide) (by decide) h

theorem numeral_decimal (n : Nat) : numeral 10 (decimal n) = n := by
  have hdigits (l : List Char) (h : ∀ d ∈ l, d ∈ Nat.toDigits 10 n) (m : Nat) :
      (l.map fun d ↦ UInt8.ofNat d.toNat).foldl (fun n c ↦ 10 * n + (c.toNat - 48)) m = Nat.ofDigitChars 10 l m := by
    induction l generalizing m with
    | nil => rw [Nat.ofDigitChars_nil]; rfl
    | cons d l ih =>
      obtain ⟨hd, hl⟩ := List.forall_mem_cons.mp h
      rw [List.map_cons, List.foldl_cons, ih hl, Nat.ofDigitChars_cons, (digit_toNat (by decide) (by decide) hd).2.2]
      rfl
  rw [numeral, decimal, hdigits _ (fun _ hd ↦ hd), Nat.ofDigitChars_ten_toDigits]

/-- A printed number begins with a zero only where it is zero. -/
theorem decimal_head {n : Nat} (h : (decimal n).head? = some 48) : n = 0 := by
  have hhead : ∀ n, ((Nat.toDigits 10 n).head?.map fun d ↦ UInt8.ofNat d.toNat) = some 48 → n = 0 := by
    intro n
    induction n using Nat.strong_induction_on with
    | _ n ih =>
      intro hn
      by_cases hlt : n < 10
      · rw [Nat.toDigits_of_lt_base hlt] at hn
        have hall : ∀ n < 10, ([n.digitChar].head?.map fun d ↦ UInt8.ofNat d.toNat) = some 48 → n = 0 := by decide
        exact hall n hlt hn
      · rw [Nat.toDigits_of_base_le (by decide) (by omega), List.head?_append_of_ne_nil _ Nat.toDigits_ne_nil] at hn
        have hzero := ih (n / 10) (by omega) hn
        omega
  apply hhead
  rwa [← List.head?_map]

/-! ## Digits put together -/

theorem foldl_digits (base : Nat) (s : Bytes) (m : Nat) :
    s.foldl (fun n c ↦ base * n + (c.toNat - 48)) m = m * base ^ s.length + numeral base s := by
  induction s generalizing m with
  | nil => rw [List.foldl_nil, List.length_nil, pow_zero, Nat.mul_one]; rfl
  | cons c s ih =>
    rw [numeral, List.foldl_cons, List.foldl_cons, ih, ih (base * 0 + _), List.length_cons, pow_succ]
    ring

theorem numeral_append (base : Nat) (s t : Bytes) : numeral base (s ++ t) = numeral base s * base ^ t.length + numeral base t := by
  rw [numeral, List.foldl_append, foldl_digits]
  rfl

/-- Zeros in front do not count. -/
theorem numeral_dropZeros (base : Nat) (s : Bytes) : numeral base (s.dropWhile (· = 48)) = numeral base s := by
  induction s with
  | nil => rfl
  | cons c s ih =>
    by_cases hc : c = 48
    · rw [List.dropWhile_cons_of_pos (by simpa using hc), ih, ← List.singleton_append, numeral_append, hc]
      rw [show numeral base [48] = 0 by rw [numeral, List.foldl_cons, List.foldl_nil]; rfl, Nat.zero_mul, Nat.zero_add]
    · rw [List.dropWhile_cons_of_neg (by simpa using hc)]

theorem numeral_lt {s : Bytes} (h : s.all isDigit = true) : numeral 10 s < 10 ^ s.length := by
  induction s with
  | nil => decide
  | cons c s ih =>
    rw [List.all_cons, Bool.and_eq_true] at h
    have hrest := ih h.2
    have hc : c.toNat - 48 ≤ 9 := by
      have hdigit := h.1
      rw [isDigit, Bool.and_eq_true, decide_eq_true_iff, decide_eq_true_iff, UInt8.le_iff_toNat_le,
        UInt8.le_iff_toNat_le] at hdigit
      have hhigh : c.toNat ≤ 57 := hdigit.2
      omega
    have hone : numeral 10 [c] = c.toNat - 48 := by
      rw [numeral, List.foldl_cons, List.foldl_nil, Nat.mul_zero, Nat.zero_add]
    rw [← List.singleton_append, numeral_append, hone, List.length_append, List.length_singleton, pow_add, pow_one]
    have hpos : 0 < 10 ^ s.length := Nat.pow_pos (by decide)
    calc (c.toNat - 48) * 10 ^ s.length + numeral 10 s < (c.toNat - 48) * 10 ^ s.length + 10 ^ s.length := by omega
      _ = (c.toNat - 48 + 1) * 10 ^ s.length := by ring
      _ ≤ 10 * 10 ^ s.length := Nat.mul_le_mul_right _ (by omega)

end NotProton.Library
