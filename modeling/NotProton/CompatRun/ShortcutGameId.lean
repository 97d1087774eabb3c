import NotProton.Library.ShellArith

/-!
# ShortcutGameId — the game ids of non-Steam shortcuts (`compat_run.sh`)

A game id has 64 bits, unsigned, and the shell's numbers are signed.  `shortcut_game_id` cuts the id into two decimal
halves and adds them up modulo `2 ^ 32`.
-/

open NotProton.Library

namespace NotProton.CompatRun

/-- `${v#"$start"}` -/
def dropStart (start v : Bytes) : Bytes := if start.isPrefixOf v then v.drop start.length else v

/-- `${v%??????????}` -/
def dropTen (v : Bytes) : Bytes := if 10 ≤ v.length then v.take (v.length - 10) else v

/-- `${v%%[!0]*}` -/
def leadingZeros (v : Bytes) : Bytes := v.takeWhile (· = 48)

/-- `${v:-0}` -/
def orZero (v : Bytes) : Bytes := if v = [] then ascii "0" else v

/-- `high` and `low`, before their zeros go. -/
def idHalves (id : Bytes) : Bytes × Bytes :=
  if 10 < id.length then (dropTen id, dropStart (dropTen id) id) else (ascii "0", id)

/-- `${high:-0}` and `${low:-0}`, in the end. -/
def idConstant (half : Bytes) : Bytes := orZero (dropStart (leadingZeros half) half)

/-- `(${high:-0} % 4294967296 * 1410065408 + ${low:-0}) % 4294967296` -/
def idArith (id : Bytes) : Arith :=
  .mod (.add (.mul (.mod (.const (idConstant (idHalves id).1)) (.const (ascii "4294967296")))
    (.const (ascii "1410065408"))) (.const (idConstant (idHalves id).2))) (.const (ascii "4294967296"))

/-- Whether `shortcut_game_id` succeeds, `none` where the shell reports an error in the arithmetic. -/
def shortcutGameId (id : Bytes) : Option Bool :=
  if id = [] ∨ id.all isDigit = false then some false
  else if 20 < id.length then some false
  else (idArith id).eval.map fun n ↦ decide (intText n = ascii "33554432")

/-! ## The halves -/

/-- Ten digits or fewer. -/
structure IsHalf (half : Bytes) : Prop where
  digits : half.all isDigit = true
  short : half.length ≤ 10

theorem dropStart_leadingZeros (v : Bytes) : dropStart (leadingZeros v) v = v.dropWhile (· = 48) := by
  rw [dropStart, leadingZeros, if_pos (List.isPrefixOf_iff_prefix.mpr (List.takeWhile_prefix _))]
  conv_lhs => rw [← List.takeWhile_append_dropWhile (p := (· = 48)) (l := v)]
  exact List.drop_left' (by rw [List.takeWhile_append_dropWhile])

theorem idHalves_spec {id : Bytes} (hdigits : id.all isDigit = true) (hlength : id.length ≤ 20) :
    IsHalf (idHalves id).1 ∧ IsHalf (idHalves id).2 ∧
      numeral 10 id = numeral 10 (idHalves id).1 * 10000000000 + numeral 10 (idHalves id).2 := by
  rw [idHalves]
  by_cases hlong : 10 < id.length
  · rw [if_pos hlong]
    -- Ten digits are dropped from the end, and what is left from the front.
    have hten : dropTen id = id.take (id.length - 10) := if_pos (by omega)
    have hlow : dropStart (dropTen id) id = id.drop (id.length - 10) := by
      rw [dropStart, hten, if_pos (List.isPrefixOf_iff_prefix.mpr (List.take_prefix _ _)), List.length_take,
        Nat.min_eq_left (by omega)]
    have hall := List.all_eq_true.mp hdigits
    have htail : (id.drop (id.length - 10)).length = 10 := by
      rw [List.length_drop]
      omega
    rw [hlow, hten]
    refine ⟨⟨?_, ?_⟩, ⟨?_, ?_⟩, ?_⟩
    · exact List.all_eq_true.mpr fun c hc ↦ hall c (List.mem_of_mem_take hc)
    · show (id.take (id.length - 10)).length ≤ 10
      rw [List.length_take]
      omega
    · exact List.all_eq_true.mpr fun c hc ↦ hall c (List.mem_of_mem_drop hc)
    · exact htail.le
    · conv_lhs => rw [← List.take_append_drop (id.length - 10) id]
      rw [numeral_append, htail]
      rfl
  · rw [if_neg hlong]
    have hzero : IsHalf (ascii "0") := ⟨by decide, by decide⟩
    refine ⟨hzero, ⟨hdigits, Nat.le_of_not_lt hlong⟩, ?_⟩
    rw [show numeral 10 (ascii "0") = 0 by decide, Nat.zero_mul, Nat.zero_add]

/-- A half without its zeros is a decimal constant of its value. -/
theorem idConstant_denotes {half : Bytes} (h : IsHalf half) :
    numeral 10 half < 10000000000 ∧ (Arith.const (idConstant half)).Denotes (numeral 10 half) := by
  have hrange : numeral 10 half < 10000000000 := by
    have hlt := numeral_lt h.digits
    have hpow : 10 ^ half.length ≤ 10 ^ 10 := Nat.pow_le_pow_right (by decide) h.short
    omega
  have hstripped : idConstant half = orZero (half.dropWhile (· = 48)) := by
    rw [idConstant, dropStart_leadingZeros]
  refine ⟨hrange, ?_⟩
  rw [hstripped, orZero]
  split
  next hnil =>
    have hzero : numeral 10 half = 0 := by
      rw [← numeral_dropZeros, hnil]
      rfl
    rw [hzero]
    exact .const (by decide) (by decide) (by decide) (by decide) (by norm_num)
  next hne =>
    apply Arith.Denotes.const hne
    · apply List.all_eq_true.mpr
      intro c hc
      exact List.all_eq_true.mp h.digits c ((List.dropWhile_sublist _).subset hc)
    · -- what is left begins with another digit
      intro hhead
      have hfirst := List.head_dropWhile_not (fun c : UInt8 ↦ decide (c = 48)) hne
      rw [List.head?_eq_some_head hne, Option.some.injEq] at hhead
      rw [hhead] at hfirst
      exact absurd hfirst (by decide)
    · exact numeral_dropZeros 10 half
    · omega

/-! ## The sum -/

theorem two32_denotes : (Arith.const (ascii "4294967296")).Denotes 4294967296 :=
  .const (by decide) (by decide) (by decide) (by decide) (by norm_num)

theorem ten10_denotes : (Arith.const (ascii "1410065408")).Denotes 1410065408 :=
  .const (by decide) (by decide) (by decide) (by decide) (by norm_num)

/-- Nothing leaves the range, and the sum is the id modulo `2 ^ 32`. -/
theorem idArith_denotes {id : Bytes} (hdigits : id.all isDigit = true) (hlength : id.length ≤ 20) :
    (idArith id).Denotes (numeral 10 id % 4294967296) := by
  obtain ⟨hhigh, hlow, hid⟩ := idHalves_spec hdigits hlength
  obtain ⟨hhighLt, hhighDenotes⟩ := idConstant_denotes hhigh
  obtain ⟨hlowLt, hlowDenotes⟩ := idConstant_denotes hlow
  -- `10 ^ 10` is `1410065408` modulo `2 ^ 32`
  have hsum : numeral 10 id % 4294967296 =
      (numeral 10 (idHalves id).1 % 4294967296 * 1410065408 + numeral 10 (idHalves id).2) % 4294967296 := by
    omega
  rw [hsum]
  have hreduced := hhighDenotes.mod two32_denotes (by decide) (by omega)
  have hproduct := hreduced.mul ten10_denotes (by omega)
  exact (hproduct.add hlowDenotes (by omega)).mod two32_denotes (by decide) (by omega)

/-- `shortcut_game_id` takes the texts of one to twenty decimal digits whose value is `0x02000000` modulo `2 ^ 32`.  Its
arithmetic never fails, and never has a number out of range or an octal constant. -/
theorem shortcutGameId_spec :
    (∀ id, shortcutGameId id = some true ↔
      id ≠ [] ∧ id.length ≤ 20 ∧ id.all isDigit = true ∧ numeral 10 id % 2 ^ 32 = 0x02000000) ∧
    (∀ id, shortcutGameId id ≠ none) ∧
    ∀ id, id.length ≤ 20 → id.all isDigit = true → (idArith id).Plain := by
  have heval (id : Bytes) (hdigits : id.all isDigit = true) (hlength : id.length ≤ 20) :
      (idArith id).eval.map (fun n ↦ decide (intText n = ascii "33554432")) =
        some (decide (numeral 10 id % 4294967296 = 33554432)) := by
    have hdenotes := idArith_denotes hdigits hlength
    rw [Arith.eval_plain hdenotes.plain, hdenotes.exact, Option.map_some, intText_ofNat,
      show ascii "33554432" = decimal 33554432 by decide]
    congr 2
    exact propext ⟨decimal_inj, congrArg decimal⟩
  -- The guards of the script refuse just the other texts.
  have hcases (id : Bytes) : shortcutGameId id =
      some (decide (id ≠ [] ∧ id.length ≤ 20 ∧ id.all isDigit = true ∧ numeral 10 id % 4294967296 = 33554432)) := by
    rw [shortcutGameId]
    split
    next hbad =>
      symm
      congr 1
      apply decide_eq_false
      rintro ⟨hne, -, hdigits, -⟩
      cases hbad with
      | inl hnil => exact hne hnil
      | inr hother => exact absurd (hdigits.symm.trans hother) (by decide)
    next hgood =>
      rw [not_or, Bool.not_eq_false] at hgood
      split
      next hlong =>
        symm
        congr 1
        apply decide_eq_false
        rintro ⟨-, hlength, -⟩
        omega
      next hlong =>
        rw [heval id hgood.2 (by omega)]
        congr 2
        apply propext
        apply Iff.intro
        · exact fun h ↦ ⟨hgood.1, by omega, hgood.2, h⟩
        · exact fun h ↦ h.2.2.2
  refine ⟨?_, ?_, ?_⟩
  · intro id
    rw [hcases, Option.some.injEq, decide_eq_true_iff]
    rfl
  · intro id
    rw [hcases]
    exact Option.some_ne_none _
  · intro id hlength hdigits
    exact (idArith_denotes hdigits hlength).plain

end NotProton.CompatRun
