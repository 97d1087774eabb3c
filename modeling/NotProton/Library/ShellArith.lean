import Mathlib.Tactic.Ring
import NotProton.Library.Numeral

/-!
# ShellArith — the arithmetic of `$((...))`

Numbers are signed and 64 bits wide and wrap around.  A constant with a zero in front is octal, and an error where it
has a digit 8 or 9.
-/

namespace NotProton.Library

/-- The part of the shell's expressions that stands for itself after the expansion of parameters. -/
inductive Arith
  | const (digits : Bytes)
  | mul (a b : Arith)
  | mod (a b : Arith)
  | add (a b : Arith)

/-- The 64 bits that stay of a number. -/
def wrap64 (n : Int) : Int := Int.bmod n (2 ^ 64)

def InInt64 (n : Int) : Prop := -2 ^ 63 ≤ n ∧ n < 2 ^ 63

/-- A constant of decimal digits. -/
def constOf (digits : Bytes) : Option Int :=
  match digits with
  | [] => none
  | 48 :: c :: s => if (c :: s).all fun d ↦ isDigit d && d < 56 then some (wrap64 (numeral 8 (c :: s))) else none
  | c :: s => if (c :: s).all isDigit then some (wrap64 (numeral 10 (c :: s))) else none

/-- The value the shell computes, none where it reports an error. -/
def Arith.eval : Arith → Option Int
  | .const digits => constOf digits
  | .mul a b => a.eval.bind fun x ↦ b.eval.map fun y ↦ wrap64 (x * y)
  | .mod a b => a.eval.bind fun x ↦ b.eval.bind fun y ↦ if y = 0 then none else some (wrap64 (x.tmod y))
  | .add a b => a.eval.bind fun x ↦ b.eval.map fun y ↦ wrap64 (x + y)

/-- The value with decimal constants and numbers of any size. -/
def Arith.exact : Arith → Int
  | .const digits => numeral 10 digits
  | .mul a b => a.exact * b.exact
  | .mod a b => a.exact.tmod b.exact
  | .add a b => a.exact + b.exact

/-- No constant is octal, and no number that comes up is out of range. -/
def Arith.Plain : Arith → Prop
  | .const digits => digits ≠ [] ∧ digits.all isDigit = true ∧ (digits.head? = some 48 → digits = [48]) ∧
      InInt64 (numeral 10 digits)
  | .mul a b => a.Plain ∧ b.Plain ∧ InInt64 (a.exact * b.exact)
  | .mod a b => a.Plain ∧ b.Plain ∧ b.exact ≠ 0 ∧ InInt64 (a.exact.tmod b.exact)
  | .add a b => a.Plain ∧ b.Plain ∧ InInt64 (a.exact + b.exact)

theorem wrap64_of_inInt64 {n : Int} (h : InInt64 n) : wrap64 n = n := by
  obtain ⟨hlow, hhigh⟩ := h
  rw [wrap64, Int.bmod_def]
  omega

theorem constOf_plain {digits : Bytes} (h : (Arith.const digits).Plain) : constOf digits = some (numeral 10 digits : Int) := by
  obtain ⟨hne, hall, hzero, hrange⟩ := h
  cases digits with
  | nil => exact absurd rfl hne
  | cons c s =>
    by_cases hc : c = 48
    · have hs := hzero (by rw [List.head?_cons, hc])
      rw [hs] at hall hrange ⊢
      rw [constOf, if_pos hall, wrap64_of_inInt64 hrange]
      intro d t _ ht
      cases ht
    · rw [constOf, if_pos hall, wrap64_of_inInt64 hrange]
      intro d t hd _
      exact hc hd

/-- An expression that stays in range means what it says. -/
theorem Arith.eval_plain {e : Arith} (h : e.Plain) : e.eval = some e.exact := by
  induction e with
  | const digits => exact constOf_plain h
  | mul a b iha ihb =>
    obtain ⟨ha, hb, hrange⟩ := h
    rw [eval, iha ha, ihb hb, Option.bind_some, Option.map_some, wrap64_of_inInt64 hrange, exact]
  | mod a b iha ihb =>
    obtain ⟨ha, hb, hne, hrange⟩ := h
    rw [eval, iha ha, ihb hb, Option.bind_some, Option.bind_some, if_neg hne, wrap64_of_inInt64 hrange, exact]
  | add a b iha ihb =>
    obtain ⟨ha, hb, hrange⟩ := h
    rw [eval, iha ha, ihb hb, Option.bind_some, Option.map_some, wrap64_of_inInt64 hrange, exact]

/-! ## Natural numbers -/

/-- An expression in range whose value is a natural number. -/
structure Arith.Denotes (e : Arith) (n : Nat) : Prop where
  plain : e.Plain
  exact : e.exact = n

section

variable {a b : Arith} {m n : Nat}

theorem inInt64_natCast (h : n < 2 ^ 63) : InInt64 n := by
  constructor <;> omega

theorem Arith.Denotes.const {digits : Bytes} (hne : digits ≠ []) (hall : digits.all isDigit = true)
    (hzero : digits.head? = some 48 → digits = [48]) (hvalue : numeral 10 digits = n) (h : n < 2 ^ 63) :
    (Arith.const digits).Denotes n where
  plain := ⟨hne, hall, hzero, by rw [hvalue]; exact inInt64_natCast h⟩
  exact := congrArg Int.ofNat hvalue

theorem Arith.Denotes.mul (ha : a.Denotes m) (hb : b.Denotes n) (h : m * n < 2 ^ 63) : (Arith.mul a b).Denotes (m * n) := by
  have hexact : a.exact * b.exact = (m * n : Nat) := by
    rw [ha.exact, hb.exact, Int.natCast_mul]
  exact ⟨⟨ha.plain, hb.plain, by rw [hexact]; exact inInt64_natCast h⟩, hexact⟩

theorem Arith.Denotes.add (ha : a.Denotes m) (hb : b.Denotes n) (h : m + n < 2 ^ 63) : (Arith.add a b).Denotes (m + n) := by
  have hexact : a.exact + b.exact = (m + n : Nat) := by
    rw [ha.exact, hb.exact, Int.natCast_add]
  exact ⟨⟨ha.plain, hb.plain, by rw [hexact]; exact inInt64_natCast h⟩, hexact⟩

theorem Arith.Denotes.mod (ha : a.Denotes m) (hb : b.Denotes n) (hn : n ≠ 0) (h : m % n < 2 ^ 63) :
    (Arith.mod a b).Denotes (m % n) := by
  have hexact : a.exact.tmod b.exact = (m % n : Nat) := by
    rw [ha.exact, hb.exact]
    exact (Int.ofNat_tmod m n).symm
  refine ⟨⟨ha.plain, hb.plain, ?_, by rw [hexact]; exact inInt64_natCast h⟩, hexact⟩
  rw [hb.exact]
  exact Int.natCast_ne_zero.mpr hn

end

/-- What the shell prints. -/
def intText (n : Int) : Bytes := if n < 0 then 45 :: decimal n.natAbs else decimal n.natAbs

theorem intText_ofNat (n : Nat) : intText n = decimal n := by
  rw [intText, if_neg (by omega), Int.natAbs_natCast]

end NotProton.Library
