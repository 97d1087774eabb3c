import NotProton.Library.Text

/-! Little-endian numbers in byte strings: base-256 digits, least significant first. -/

namespace NotProton.Library

/-- The number whose little-endian bytes these are. -/
def leNat : Bytes → Nat
  | [] => 0
  | b :: s => b.toNat + 256 * leNat s

/-- The low `w` little-endian bytes of `n`. -/
def leBytes : Nat → Nat → Bytes
  | 0, _ => []
  | w + 1, n => UInt8.ofNat n :: leBytes w (n / 256)

@[simp] theorem leNat_nil : leNat [] = 0 := rfl

@[simp] theorem leNat_cons (b : UInt8) (s : Bytes) : leNat (b :: s) = b.toNat + 256 * leNat s := rfl

@[simp] theorem leBytes_length (w n : Nat) : (leBytes w n).length = w := by
  induction w generalizing n with
  | zero => rfl
  | succ w ih => rw [leBytes, List.length_cons, ih]

theorem leNat_eq_ofDigits (s : Bytes) : leNat s = Nat.ofDigits 256 (s.map UInt8.toNat) := by
  induction s with
  | nil => rfl
  | cons b s ih => rw [leNat_cons, ih, List.map_cons, Nat.ofDigits_cons]

private theorem toNat_digit (s : Bytes) : ∀ d ∈ s.map UInt8.toNat, d < 256 := by
  intro d hd
  obtain ⟨b, -, rfl⟩ := List.mem_map.mp hd
  exact b.toNat_lt

theorem leNat_lt (s : Bytes) : leNat s < 256 ^ s.length := by
  rw [leNat_eq_ofDigits, ← List.length_map (f := UInt8.toNat)]
  exact Nat.ofDigits_lt_base_pow_length (by decide) (toNat_digit s)

/-- Byte strings of one length that denote one number are the same. -/
theorem leNat_inj {s t : Bytes} (hl : s.length = t.length) (h : leNat s = leNat t) : s = t := by
  rw [leNat_eq_ofDigits, leNat_eq_ofDigits] at h
  have hm := Nat.ofDigits_inj_of_len_eq (by decide) (by simpa using hl) (toNat_digit s)
    (toNat_digit t) h
  exact List.map_injective_iff.mpr (fun _ _ ↦ UInt8.toNat_inj.mp) hm

theorem leNat_leBytes {w n : Nat} (h : n < 256 ^ w) : leNat (leBytes w n) = n := by
  induction w generalizing n with
  | zero => rw [pow_zero] at h; simp only [leBytes, leNat_nil]; omega
  | succ w ih =>
    have hq : n / 256 < 256 ^ w := Nat.div_lt_of_lt_mul (by rwa [pow_succ'] at h)
    rw [leBytes, leNat_cons, ih hq, UInt8.toNat_ofNat']
    omega

theorem leBytes_add (v w n : Nat) : leBytes (v + w) n = leBytes v n ++ leBytes w (n / 256 ^ v) := by
  induction v generalizing n with
  | zero => rw [Nat.zero_add, pow_zero, Nat.div_one, leBytes, List.nil_append]
  | succ v ih =>
    rw [show v + 1 + w = v + w + 1 by omega, leBytes, ih, leBytes, List.cons_append, Nat.div_div_eq_div_mul,
      ← pow_succ']

theorem leBytes_mod (w n : Nat) : leBytes w (n % 256 ^ w) = leBytes w n := by
  induction w generalizing n with
  | zero => rfl
  | succ w ih =>
    have hlow : UInt8.ofNat (n % 256 ^ (w + 1)) = UInt8.ofNat n := by
      apply UInt8.toNat_inj.mp
      rw [UInt8.toNat_ofNat', UInt8.toNat_ofNat']
      exact Nat.mod_mod_of_dvd n (Dvd.intro_left (256 ^ w) rfl)
    rw [leBytes, leBytes, hlow, pow_succ', Nat.mod_mul_right_div_self, ih]

theorem leBytes_leNat {s : Bytes} {w : Nat} (h : s.length = w) : leBytes w (leNat s) = s := by
  apply leNat_inj
  · rw [leBytes_length, h]
  · exact leNat_leBytes (h ▸ leNat_lt s)

theorem leNat_zipWith_and (s t : Bytes) :
    leNat (List.zipWith (· &&& ·) s t) = leNat s &&& leNat t := by
  induction s generalizing t with
  | nil => rw [List.zipWith_nil_left, leNat_nil, Nat.zero_and]
  | cons b s ih =>
    cases t with
    | nil => rw [List.zipWith_nil_right, leNat_nil, Nat.and_zero]
    | cons c t =>
      have hb := b.toNat_lt
      have hc := c.toNat_lt
      have hlow : (leNat (b :: s) &&& leNat (c :: t)) % 2 ^ 8 = b.toNat &&& c.toNat := by
        rw [Nat.and_mod_two_pow, leNat_cons, leNat_cons, show 256 = 2 ^ 8 from rfl,
          Nat.add_mul_mod_self_left, Nat.add_mul_mod_self_left, Nat.mod_eq_of_lt hb, Nat.mod_eq_of_lt hc]
      have hhigh : (leNat (b :: s) &&& leNat (c :: t)) / 2 ^ 8 = leNat s &&& leNat t := by
        have hs : leNat (b :: s) / 2 ^ 8 = leNat s := by rw [leNat_cons]; omega
        have ht : leNat (c :: t) / 2 ^ 8 = leNat t := by rw [leNat_cons]; omega
        rw [Nat.and_div_two_pow, hs, ht]
      rw [List.zipWith_cons_cons, leNat_cons, ih, UInt8.toNat_and]
      omega

/-- Clearing the bits of a mask takes off no more than the mask. -/
theorem le_ldiff_add (x m : Nat) : x ≤ Nat.ldiff x m + m := by
  induction x using Nat.binaryRec generalizing m with
  | zero => exact Nat.zero_le _
  | bit a x ih =>
    cases m using Nat.bitCasesOn with
    | bit b m =>
      have h := ih m
      rw [Nat.ldiff_bit, Nat.bit_val, Nat.bit_val, Nat.bit_val]
      cases a <;> cases b <;> simp only [Bool.toNat_true, Bool.toNat_false, Bool.not_true,
        Bool.not_false, Bool.and_true, Bool.and_false] <;> omega

end NotProton.Library
