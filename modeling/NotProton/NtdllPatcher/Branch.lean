import NotProton.NtdllPatcher.Reads

/-! # Branch — where the instruction at a hook site goes -/

open NotProton.Library

namespace NotProton.NtdllPatcher

/-- `E9 rel32` and filler: the address the jump goes to. -/
def jumpTarget (rva : Int) (code : Bytes) : Option Int :=
  if code.head? = some 0xe9 ∧ 5 ≤ code.length ∧ ∀ b ∈ code.drop 5, b = 0xcc then
    some (rva + 5 + Int.bmod (field 4 code 1) (2 ^ 32))
  else none

/-- `BL imm26`: the address the call goes to. -/
def branchLinkTarget (rva : Int) (code : Bytes) : Option Int :=
  if code.length = 4 ∧ leNat code / 2 ^ 26 = 0x25 then
    some (rva + 4 * Int.bmod (leNat code % 2 ^ 26 : Nat) (2 ^ 26))
  else none

def branchTarget (machine : Nat) (rva : Int) (code : Bytes) : Option Int :=
  if machine = machineARM64 then branchLinkTarget rva code else jumpTarget rva code

/-- A displacement comes back from what is left of it modulo the width. -/
theorem bmod_emod_toNat {m : Nat} {d : Int} (hlo : -m ≤ d) (hhi : d < m) :
    Int.bmod ((d % (2 * m : Nat)).toNat : Nat) (2 * m) = d := by
  rw [Int.toNat_of_nonneg (Int.emod_nonneg _ (by omega)), Int.emod_bmod]
  exact Int.bmod_eq_of_le (by omega) (by omega)

theorem relativeJump_ok {hookRVA caveRVA : Int} {width : Nat} {code : Bytes}
    (h : relativeJump hookRVA caveRVA width = .ok code) :
    code.length = width ∧ jumpTarget hookRVA code = some caveRVA := by
  obtain ⟨_, hwidth, h⟩ := bind_ok h
  obtain ⟨_, hreach, h⟩ := bind_ok h
  have hwidth := guard_ok hwidth
  obtain ⟨hlo, hhi⟩ := guard_ok hreach
  cases h
  set n := ((caveRVA - (hookRVA + 5)) % 0x100000000).toNat with hn
  have hn_lt : n < 256 ^ 4 := by
    have := Int.emod_lt_of_pos (caveRVA - (hookRVA + 5)) (b := 0x100000000) (by decide)
    omega
  have hlength : (0xe9 :: leBytes 4 n ++ List.replicate (width - 5) (0xcc : UInt8)).length = width := by
    rw [List.length_append, List.length_cons, leBytes_length, List.length_replicate]
    omega
  have hdisp : field 4 (0xe9 :: leBytes 4 n ++ List.replicate (width - 5) 0xcc) 1 = n := by
    rw [field, slice_append_left (by rw [List.length_cons, leBytes_length])]
    exact leNat_leBytes hn_lt
  refine ⟨hlength, ?_⟩
  rw [jumpTarget, if_pos ⟨rfl, by omega, fun b hb ↦ List.eq_of_mem_replicate hb⟩, hdisp, hn]
  have hd := bmod_emod_toNat (m := 0x80000000) hlo hhi
  norm_num only at hd ⊢
  rw [hd, Option.some.injEq]
  omega

theorem branchLink_ok {hookRVA payloadRVA : Int} {width : Nat} {code : Bytes}
    (h : branchLink hookRVA payloadRVA width = .ok code) :
    code.length = width ∧ branchLinkTarget hookRVA code = some payloadRVA := by
  obtain ⟨_, hwidth, h⟩ := bind_ok h
  obtain ⟨_, hreach, h⟩ := bind_ok h
  have hwidth := guard_ok hwidth
  obtain ⟨hdvd, hlo, hhi⟩ := guard_ok hreach
  cases h
  set imm := ((payloadRVA - hookRVA) / 4 % 0x4000000).toNat with himm
  have himm_lt : imm < 2 ^ 26 := by
    have := Int.emod_lt_of_pos ((payloadRVA - hookRVA) / 4) (b := 0x4000000) (by decide)
    omega
  -- The opcode stands above the displacement's 26 bits.
  have hword : 0x94000000 ||| imm = 2 ^ 26 * 0x25 + imm := by
    rw [Nat.two_pow_add_eq_or_of_lt himm_lt]
  have hle : leNat (leBytes 4 (0x94000000 ||| imm)) = 2 ^ 26 * 0x25 + imm := by
    rw [hword]
    exact leNat_leBytes (by omega)
  refine ⟨by rw [leBytes_length, hwidth], ?_⟩
  rw [branchLinkTarget, hle, if_pos ⟨leBytes_length _ _, by omega⟩, Nat.mul_add_mod,
    Nat.mod_eq_of_lt himm_lt, himm]
  have hd : Int.bmod (((payloadRVA - hookRVA) / 4 % (2 * 0x2000000 : Nat)).toNat : Nat)
      (2 * 0x2000000) = (payloadRVA - hookRVA) / 4 := bmod_emod_toNat (by omega) (by omega)
  rw [show ((2 * 0x2000000 : Nat) : Int) = 0x4000000 by norm_num] at hd
  rw [show (2 : Nat) ^ 26 = 2 * 0x2000000 by norm_num, hd, Option.some.injEq]
  omega

theorem branch_ok {patch : NtdllPatch} {rva : Int} {width : Nat} {code : Bytes}
    (h : branch patch rva width = .ok code) :
    code.length = width ∧ branchTarget patch.machine rva code = some patch.payloadRVA := by
  unfold branch at h
  unfold branchTarget
  split at h
  next harm =>
    rw [if_pos harm]
    exact branchLink_ok h
  next hx86 =>
    rw [if_neg hx86]
    exact relativeJump_ok h

/-! ## One instruction for each target -/

/-- Numbers below the modulus that stand for one signed number are the same. -/
theorem bmod_inj {m a b : Nat} (ha : a < m) (hb : b < m) (h : Int.bmod a m = Int.bmod b m) : a = b := by
  have hmod : (a : Int) % m = b % m := by
    rw [← Int.bmod_emod, h, Int.bmod_emod]
  rw [← Nat.mod_eq_of_lt ha, ← Nat.mod_eq_of_lt hb]
  exact_mod_cast hmod

/-- A jump is its opcode, its displacement and filler. -/
theorem jumpTarget_some {rva target : Int} {code : Bytes} (h : jumpTarget rva code = some target) :
    code = 0xe9 :: slice code 1 4 ++ List.replicate (code.length - 5) 0xcc ∧
      (slice code 1 4).length = 4 ∧ target = rva + 5 + Int.bmod (field 4 code 1) (2 ^ 32) := by
  unfold jumpTarget at h
  split at h
  next hjump =>
    obtain ⟨hhead, hlen, hfiller⟩ := hjump
    refine ⟨?_, slice_length (by omega), (Option.some.inj h).symm⟩
    have hdrop : code.drop 5 = List.replicate (code.length - 5) 0xcc := by
      rw [List.eq_replicate_iff, List.length_drop]
      exact ⟨rfl, hfiller⟩
    rw [← hdrop]
    cases code with
    | nil => cases hhead
    | cons b rest =>
      cases hhead
      show _ :: rest = _ :: (rest.take 4 ++ rest.drop 4)
      rw [List.take_append_drop]
  next => cases h

theorem branchLinkTarget_some {rva target : Int} {code : Bytes}
    (h : branchLinkTarget rva code = some target) : code.length = 4 ∧ leNat code / 2 ^ 26 = 0x25 ∧
      target = rva + 4 * Int.bmod (leNat code % 2 ^ 26 : Nat) (2 ^ 26) := by
  unfold branchLinkTarget at h
  split at h
  next hlink => exact ⟨hlink.1, hlink.2, (Option.some.inj h).symm⟩
  next => cases h

theorem branchTarget_inj {machine : Nat} {rva target : Int} {code code' : Bytes}
    (h : branchTarget machine rva code = some target) (h' : branchTarget machine rva code' = some target)
    (hlength : code.length = code'.length) : code = code' := by
  unfold branchTarget at h h'
  split at h
  next harm =>
    rw [if_pos harm] at h'
    obtain ⟨-, hop, htarget⟩ := branchLinkTarget_some h
    obtain ⟨-, hop', htarget'⟩ := branchLinkTarget_some h'
    have hdisp := mul_left_cancel₀ (by decide) (add_left_cancel (htarget.symm.trans htarget'))
    have himm := bmod_inj (Nat.mod_lt _ (by decide)) (Nat.mod_lt _ (by decide)) hdisp
    exact leNat_inj hlength (by omega)
  next hx86 =>
    rw [if_neg hx86] at h'
    obtain ⟨heq, hfour, htarget⟩ := jumpTarget_some h
    obtain ⟨heq', hfour', htarget'⟩ := jumpTarget_some h'
    have hlt : ∀ c : Bytes, (slice c 1 4).length = 4 → field 4 c 1 < 2 ^ 32 := by
      intro c hc
      have := leNat_lt (slice c 1 4)
      rw [hc] at this
      exact this
    have hdisp := bmod_inj (hlt code hfour) (hlt code' hfour') (by omega)
    have hslice : slice code 1 4 = slice code' 1 4 := leNat_inj (by rw [hfour, hfour']) hdisp
    rw [heq, heq', hslice, hlength]

end NotProton.NtdllPatcher
