import NotProton.Library.Splice

/-!
# Pe — the reader of the resources of a PE file (`pe.c`)

The outer `none` of a result stands for a read outside the file, the inner one for a function that returns 0.
-/

open NotProton.Library

namespace NotProton.Util

def npPeMaxSections : Nat := 96
def npPeMaxEntries : Nat := 512
def npRtIcon : Nat := 3
def npRtRcdata : Nat := 10
def npRtGroupIcon : Nat := 14

/-- `np_pe_view_t`; `p` is all there is in memory, `n` the size the functions go by. -/
structure View where
  p : Bytes
  n : Nat
  sects : Nat
  nsects : Nat
  rsrcRva : Nat
  rsrc : Nat

abbrev Pe (α : Type) : Type := OptionT Option α

/-- `if (!p) return 0` -/
def require (p : Prop) [Decidable p] : Pe Unit := if p then pure () else failure

/-- The bytes from `off` on, when they are all there. -/
def load (p : Bytes) (off w : Nat) : Option Bytes := if off + w ≤ p.length then some (slice p off w) else none

/-- `np_pe_rd8`, `np_pe_rd16` and `np_pe_rd32`, for their number of bytes -/
def npPeRd (w : Nat) (v : View) (off : Nat) : Pe Nat :=
  OptionT.mk (if v.n < w ∨ v.n - w < off then some none else (load v.p off w).map fun s ↦ some (leNat s))

def npPeRd8 : View → Nat → Pe Nat := npPeRd 1
def npPeRd16 : View → Nat → Pe Nat := npPeRd 2
def npPeRd32 : View → Nat → Pe Nat := npPeRd 4

/-- The loop of `np_pe_rva_off` over the sections that are left. -/
def rvaLoop (v : View) (rva : Nat) : Nat → Nat → Pe Nat
  | 0, _ => failure
  | left + 1, i => do
      let s := v.sects + i * 40
      let vsz ← npPeRd32 v (s + 8)
      let va ← npPeRd32 v (s + 12)
      let rsz ← npPeRd32 v (s + 16)
      let raw ← npPeRd32 v (s + 20)
      if va ≤ rva ∧ rva < va + max vsz rsz then pure (raw + (rva - va))
      else rvaLoop v rva left (i + 1)

def npPeRvaOff (v : View) (rva : Nat) : Pe Nat := rvaLoop v rva v.nsects 0

def npPeOpen (p : Bytes) : Pe View := do
  let v : View := ⟨p, p.length, 0, 0, 0, 0⟩
  let mz ← npPeRd16 v 0
  require (mz = 0x5a4d)
  let peo ← npPeRd32 v 0x3c
  let sig ← npPeRd32 v peo
  require (sig = 0x00004550)
  let nsects ← npPeRd16 v (peo + 6)
  let optSize ← npPeRd16 v (peo + 20)
  let magic ← npPeRd16 v (peo + 24)
  require (magic = 0x10b ∨ magic = 0x20b)
  let dirBase := peo + 24 + if magic = 0x10b then 96 else 112
  let countAt := peo + 24 + if magic = 0x10b then 92 else 108
  let dirCount ← npPeRd32 v countAt
  require (2 < dirCount)
  let rsrcRva ← npPeRd32 v (dirBase + 16)
  require (rsrcRva ≠ 0)
  require (nsects ≠ 0 ∧ nsects ≤ npPeMaxSections)
  let sects := peo + 24 + optSize
  require (sects ≤ v.n ∧ nsects ≤ (v.n - sects) / 40)
  let v : View := ⟨p, p.length, sects, nsects, rsrcRva, 0⟩
  let rsrc ← npPeRvaOff v rsrcRva
  pure { v with rsrc := rsrc }

/-- The loop of `name_is` over the characters that are left. -/
def nameLoop (v : View) (at_ : Nat) : Bytes → Nat → Pe Unit
  | [], _ => pure ()
  | x :: name, k => do
      let c ← npPeRd16 v (at_ + 2 + 2 * k)
      require (c = x.toNat)
      nameLoop v at_ name (k + 1)

def nameIs (v : View) (at_ : Nat) (name : Bytes) : Pe Bool :=
  let found : Pe Unit := do
    let len ← npPeRd16 v at_
    require (len = name.length)
    nameLoop v at_ name 0
  OptionT.mk (found.run.map fun r ↦ some r.isSome)

/-- Whether an entry is the one looked for: one of a name, or else of an id. -/
def entryIs (v : View) (id : Nat) (name : Option Bytes) (key : Nat) : Pe Bool :=
  match name with
  | some name => if 2 ^ 31 ≤ key then nameIs v (v.rsrc + key % 2 ^ 31) name else pure false
  | none => pure (key < 2 ^ 31 && key == id)

def dirLoop (v : View) (dir id : Nat) (name : Option Bytes) : Nat → Nat → Pe Nat
  | 0, _ => failure
  | left + 1, i => do
      let e := dir + 16 + i * 8
      let key ← npPeRd32 v e
      let off ← npPeRd32 v (e + 4)
      let found ← entryIs v id name key
      if found then pure off else dirLoop v dir id name left (i + 1)

def npPeDirFind (v : View) (dir id : Nat) (name : Option Bytes) : Pe Nat := do
  let named ← npPeRd16 v (dir + 12)
  let ids ← npPeRd16 v (dir + 14)
  dirLoop v dir id name (min (named + ids) npPeMaxEntries) 0

/-- The place and the size of the data. -/
def npPeRcdata (v : View) (name : Bytes) : Pe (Nat × Nat) := do
  let type ← npPeDirFind v v.rsrc npRtRcdata none
  require (2 ^ 31 ≤ type)
  let entry ← npPeDirFind v (v.rsrc + type % 2 ^ 31) 0 (some name)
  require (2 ^ 31 ≤ entry)
  let langs := v.rsrc + entry % 2 ^ 31
  let named ← npPeRd16 v (langs + 12)
  let ids ← npPeRd16 v (langs + 14)
  require (named + ids ≠ 0)
  let lang ← npPeRd32 v (langs + 16 + 4)
  require (lang < 2 ^ 31)
  let data := v.rsrc + lang
  let rva ← npPeRd32 v data
  let size ← npPeRd32 v (data + 4)
  let at_ ← npPeRvaOff v rva
  require (at_ ≤ v.n ∧ size ≤ v.n - at_)
  pure (at_, size)

/-! ## Reads inside the file -/

/-- The size the functions go by is what there is. -/
def View.Mapped (v : View) : Prop := v.n = v.p.length

/-- The number of `w` bytes at `off`, when they are in the file. -/
def numAt (p : Bytes) (w off : Nat) : Option Nat := if off + w ≤ p.length then some (leNat (slice p off w)) else none

theorem npPeRd_run {v : View} (h : v.Mapped) (w off : Nat) :
    (npPeRd w v off).run = some (numAt v.p w off) := by
  unfold View.Mapped at h
  show (if v.n < w ∨ v.n - w < off then some none else _) = _
  by_cases hin : off + w ≤ v.p.length
  · rw [if_neg (by omega), load, if_pos hin, numAt, if_pos hin]
    rfl
  · rw [if_pos (by omega), numAt, if_neg hin]

namespace Pe

variable {α β : Type}

/-- No read of the function is outside the file. -/
def Safe (x : Pe α) : Prop := x.run ≠ none

theorem Safe.pure (a : α) : Safe (pure a : Pe α) := fun h ↦ nomatch h

theorem Safe.failure : Safe (failure : Pe α) := fun h ↦ nomatch h

theorem Safe.bind {x : Pe α} {f : α → Pe β} (hx : Safe x) (hf : ∀ a, Safe (f a)) : Safe (x >>= f) := by
  rw [Safe, OptionT.run_bind]
  cases hrun : x.run with
  | none => exact absurd hrun hx
  | some r =>
    cases r with
    | none => exact fun h ↦ nomatch h
    | some a => exact hf a

theorem Safe.ite {p : Prop} [Decidable p] {x y : Pe α} (hx : Safe x) (hy : Safe y) : Safe (if p then x else y) := by
  split
  · exact hx
  · exact hy

/-- What was computed before a result. -/
theorem of_bind {x : Pe α} {f : α → Pe β} {b : β} (h : (x >>= f).run = some (some b)) :
    ∃ a, x.run = some (some a) ∧ (f a).run = some (some b) := by
  rw [OptionT.run_bind] at h
  cases hrun : x.run with
  | none => rw [hrun] at h; cases h
  | some r =>
    rw [hrun] at h
    cases r with
    | none => cases h
    | some a => exact ⟨a, rfl, h⟩

theorem Safe.require (p : Prop) [Decidable p] : Safe (require p) := .ite (.pure _) .failure

/-- A check that was passed. -/
theorem of_require {p : Prop} [Decidable p] {f : Unit → Pe β} {b : β}
    (h : (Util.require p >>= f).run = some (some b)) : p ∧ (f ()).run = some (some b) := by
  unfold Util.require at h
  by_cases hp : p
  · rw [if_pos hp] at h
    exact ⟨hp, h⟩
  · rw [if_neg hp] at h
    cases h

end Pe

section
variable {v : View}

theorem npPeRd_safe (h : v.Mapped) (w off : Nat) : Pe.Safe (npPeRd w v off) := by
  rw [Pe.Safe, npPeRd_run h]
  exact fun h ↦ nomatch h

theorem npPeRd16_safe (h : v.Mapped) (off : Nat) : Pe.Safe (npPeRd16 v off) := npPeRd_safe h _ off

theorem npPeRd32_safe (h : v.Mapped) (off : Nat) : Pe.Safe (npPeRd32 v off) := npPeRd_safe h _ off

theorem rvaLoop_safe (h : v.Mapped) (rva left i : Nat) : Pe.Safe (rvaLoop v rva left i) := by
  induction left generalizing i with
  | zero => exact .failure
  | succ left ih =>
    exact (npPeRd32_safe h _).bind fun _ ↦ (npPeRd32_safe h _).bind fun _ ↦ (npPeRd32_safe h _).bind fun _ ↦
      (npPeRd32_safe h _).bind fun _ ↦ .ite (.pure _) (ih _)

theorem npPeRvaOff_safe (h : v.Mapped) (rva : Nat) : Pe.Safe (npPeRvaOff v rva) := rvaLoop_safe h rva _ _

theorem npPeOpen_safe (p : Bytes) : Pe.Safe (npPeOpen p) := by
  have h : View.Mapped ⟨p, p.length, 0, 0, 0, 0⟩ := rfl
  refine (npPeRd16_safe h _).bind fun _ ↦ (Pe.Safe.require _).bind fun _ ↦ (npPeRd32_safe h _).bind fun _ ↦
    (npPeRd32_safe h _).bind fun _ ↦ (Pe.Safe.require _).bind fun _ ↦ (npPeRd16_safe h _).bind fun _ ↦
    (npPeRd16_safe h _).bind fun _ ↦ (npPeRd16_safe h _).bind fun _ ↦ (Pe.Safe.require _).bind fun _ ↦
    (npPeRd32_safe h _).bind fun _ ↦ (Pe.Safe.require _).bind fun _ ↦ (npPeRd32_safe h _).bind fun _ ↦
    (Pe.Safe.require _).bind fun _ ↦ (Pe.Safe.require _).bind fun _ ↦ (Pe.Safe.require _).bind fun _ ↦
    (npPeRvaOff_safe ?_ _).bind fun _ ↦ .pure _
  rfl

/-- An open file is all in memory. -/
theorem npPeOpen_some {p : Bytes} (h : (npPeOpen p).run = some (some v)) : v.p = p ∧ v.Mapped := by
  obtain ⟨_, -, h⟩ := Pe.of_bind h
  obtain ⟨-, h⟩ := Pe.of_require h
  obtain ⟨_, -, h⟩ := Pe.of_bind h
  obtain ⟨_, -, h⟩ := Pe.of_bind h
  obtain ⟨-, h⟩ := Pe.of_require h
  obtain ⟨_, -, h⟩ := Pe.of_bind h
  obtain ⟨_, -, h⟩ := Pe.of_bind h
  obtain ⟨_, -, h⟩ := Pe.of_bind h
  obtain ⟨-, h⟩ := Pe.of_require h
  obtain ⟨_, -, h⟩ := Pe.of_bind h
  obtain ⟨-, h⟩ := Pe.of_require h
  obtain ⟨_, -, h⟩ := Pe.of_bind h
  obtain ⟨-, h⟩ := Pe.of_require h
  obtain ⟨-, h⟩ := Pe.of_require h
  obtain ⟨-, h⟩ := Pe.of_require h
  obtain ⟨_, -, h⟩ := Pe.of_bind h
  cases h
  exact ⟨rfl, rfl⟩

theorem nameLoop_safe (h : v.Mapped) (at_ : Nat) (name : Bytes) (k : Nat) : Pe.Safe (nameLoop v at_ name k) := by
  induction name generalizing k with
  | nil => exact .pure _
  | cons x name ih => exact (npPeRd16_safe h _).bind fun _ ↦ (Pe.Safe.require _).bind fun _ ↦ ih _

theorem nameIs_safe (h : v.Mapped) (at_ : Nat) (name : Bytes) : Pe.Safe (nameIs v at_ name) := by
  have hfound : Pe.Safe (do
      let len ← npPeRd16 v at_
      require (len = name.length)
      nameLoop v at_ name 0) :=
    (npPeRd16_safe h _).bind fun _ ↦ (Pe.Safe.require _).bind fun _ ↦ nameLoop_safe h at_ name 0
  intro hnone
  exact hfound (Option.map_eq_none_iff.mp hnone)

theorem entryIs_safe (h : v.Mapped) (id : Nat) (name : Option Bytes) (key : Nat) : Pe.Safe (entryIs v id name key) := by
  cases name with
  | none => exact .pure _
  | some name => exact .ite (nameIs_safe h _ name) (.pure _)

theorem dirLoop_safe (h : v.Mapped) (dir id : Nat) (name : Option Bytes) (left i : Nat) :
    Pe.Safe (dirLoop v dir id name left i) := by
  induction left generalizing i with
  | zero => exact .failure
  | succ left ih =>
    exact (npPeRd32_safe h _).bind fun _ ↦ (npPeRd32_safe h _).bind fun _ ↦ (entryIs_safe h id name _).bind fun _ ↦
      .ite (.pure _) (ih _)

theorem npPeDirFind_safe (h : v.Mapped) (dir id : Nat) (name : Option Bytes) : Pe.Safe (npPeDirFind v dir id name) :=
  (npPeRd16_safe h _).bind fun _ ↦ (npPeRd16_safe h _).bind fun _ ↦ dirLoop_safe h dir id name _ 0

theorem npPeRcdata_safe (h : v.Mapped) (name : Bytes) : Pe.Safe (npPeRcdata v name) :=
  (npPeDirFind_safe h _ _ _).bind fun _ ↦ (Pe.Safe.require _).bind fun _ ↦ (npPeDirFind_safe h _ _ _).bind fun _ ↦
    (Pe.Safe.require _).bind fun _ ↦ (npPeRd16_safe h _).bind fun _ ↦ (npPeRd16_safe h _).bind fun _ ↦
    (Pe.Safe.require _).bind fun _ ↦ (npPeRd32_safe h _).bind fun _ ↦ (Pe.Safe.require _).bind fun _ ↦
    (npPeRd32_safe h _).bind fun _ ↦ (npPeRd32_safe h _).bind fun _ ↦ (npPeRvaOff_safe h _).bind fun _ ↦
    (Pe.Safe.require _).bind fun _ ↦ .pure _

/-- The data that is found is in the file. -/
theorem npPeRcdata_some (h : v.Mapped) {name : Bytes} {at_ size : Nat}
    (hrun : (npPeRcdata v name).run = some (some (at_, size))) : at_ + size ≤ v.p.length := by
  obtain ⟨_, -, hrun⟩ := Pe.of_bind hrun
  obtain ⟨-, hrun⟩ := Pe.of_require hrun
  obtain ⟨_, -, hrun⟩ := Pe.of_bind hrun
  obtain ⟨-, hrun⟩ := Pe.of_require hrun
  obtain ⟨_, -, hrun⟩ := Pe.of_bind hrun
  obtain ⟨_, -, hrun⟩ := Pe.of_bind hrun
  obtain ⟨-, hrun⟩ := Pe.of_require hrun
  obtain ⟨_, -, hrun⟩ := Pe.of_bind hrun
  obtain ⟨-, hrun⟩ := Pe.of_require hrun
  obtain ⟨_, -, hrun⟩ := Pe.of_bind hrun
  obtain ⟨_, -, hrun⟩ := Pe.of_bind hrun
  obtain ⟨_, -, hrun⟩ := Pe.of_bind hrun
  obtain ⟨⟨hat, hsize⟩, hrun⟩ := Pe.of_require hrun
  cases hrun
  rw [View.Mapped] at h
  omega

end

end NotProton.Util
