import NotProton.Library.Text

/-! ULEB128: a number as bytes of seven bits each, lowest first, all but the last with the high bit set. -/

namespace NotProton.Library

/-- The bytes encode the number, in as few bytes as it takes or with zero digits behind it. -/
inductive Uleb : Nat → Bytes → Prop
  | last {b : UInt8} (h : b.toNat < 128) : Uleb b.toNat [b]
  | more {b : UInt8} {n : Nat} {s : Bytes} (h : 128 ≤ b.toNat) (hs : Uleb n s) :
      Uleb (b.toNat - 128 + 128 * n) (b :: s)

/-- The shortest encoding. -/
def uleb (n : Nat) : Bytes :=
  if n < 128 then [UInt8.ofNat n] else UInt8.ofNat (n % 128 + 128) :: uleb (n / 128)
termination_by n
decreasing_by omega

theorem uleb_encodes (n : Nat) : Uleb n (uleb n) := by
  fun_induction uleb n with
  | case1 n hlt =>
    have hbyte : (UInt8.ofNat n).toNat = n := by rw [UInt8.toNat_ofNat']; omega
    have hlast := Uleb.last (b := UInt8.ofNat n) (by omega)
    rwa [hbyte] at hlast
  | case2 n hge ih =>
    have hbyte : (UInt8.ofNat (n % 128 + 128)).toNat = n % 128 + 128 := by rw [UInt8.toNat_ofNat']; omega
    have hmore := Uleb.more (b := UInt8.ofNat (n % 128 + 128)) (by omega) ih
    rwa [hbyte, Nat.add_sub_cancel, Nat.mod_add_div] at hmore

theorem uleb_length_one {n : Nat} (h : n < 128) : (uleb n).length = 1 := by
  rw [uleb, if_pos h]
  rfl

theorem uleb_length_two {n : Nat} (h : 128 ≤ n) (h' : n < 16384) : (uleb n).length = 2 := by
  rw [uleb, if_neg (by omega), List.length_cons, uleb_length_one (by omega)]

theorem toNat_and_low (b : UInt8) : (b &&& 0x7F).toNat = b.toNat % 128 := by
  rw [UInt8.toNat_and]
  exact Nat.and_two_pow_sub_one_eq_mod b.toNat 7

theorem and_high_eq_zero (b : UInt8) : b &&& 0x80 = 0 ↔ b.toNat < 128 := by
  have hall : ∀ n < 256, UInt8.ofNat n &&& 0x80 = 0 ↔ (UInt8.ofNat n).toNat < 128 := by decide +kernel
  exact forall_byte (p := fun b ↦ b &&& 0x80 = 0 ↔ b.toNat < 128) hall b

/-- A digit above all that is there is added by setting its bits. -/
theorem or_shiftLeft {low digit shift : Nat} (h : low < 2 ^ shift) :
    low ||| digit <<< shift = low + digit * 2 ^ shift := by
  rw [Nat.or_comm, ← Nat.shiftLeft_add_eq_or_of_lt h, Nat.shiftLeft_eq, Nat.add_comm]

end NotProton.Library
