import NotProton.WebUi.JobClass

/-!
# HandlerSlot — where `fn_calls` takes a function to end (`webui.c`)

`fn_calls` has no table of functions: it reads on from a function's first instruction until a
return, or an unconditional branch, that no earlier branch jumps past.  The jumps it counts are the
unconditional ones too, so a tail call upward moves the guessed end out of the function; and its masks
leave out `cbnz`, `tbnz` and a return to another register.  What a function is and where its branches go
is said here by the instructions' encodings, and what the scan sees of them by its own.
-/

namespace NotProton.WebUi

/-- The instruction `k` places from `fn`. -/
def pcAt (fn : Addr) (k : Nat) : Addr := fn + 4 * UInt64.ofNat k

/-- The instructions from `fn` up to `fin`. -/
def instrs (fn fin : Addr) : List Addr := (List.range ((fin - fn).toNat / 4)).map (pcAt fn)

/-! ## Instructions by their encodings -/

-- B
def isUncond (insn : UInt32) : Bool := insn &&& 0xFC000000 == 0x14000000

-- B.cond
def isBcond (insn : UInt32) : Bool := insn &&& 0xFF000010 == 0x54000000

def isCbz (insn : UInt32) : Bool := insn &&& 0x7F000000 == 0x34000000
def isCbnz (insn : UInt32) : Bool := insn &&& 0x7F000000 == 0x35000000
def isTbz (insn : UInt32) : Bool := insn &&& 0x7F000000 == 0x36000000
def isTbnz (insn : UInt32) : Bool := insn &&& 0x7F000000 == 0x37000000

def isCond (insn : UInt32) : Bool := isBcond insn || isCbz insn || isCbnz insn || isTbz insn || isTbnz insn

-- RET, to any register
def isRet (insn : UInt32) : Bool := insn &&& 0xFFFFFC1F == 0xD65F0000

-- BR
def isBr (insn : UInt32) : Bool := insn &&& 0xFFFFFC1F == 0xD61F0000

/-- The instruction after it is not reached by falling through. -/
def closes (insn : UInt32) : Bool := isUncond insn || isRet insn || isBr insn

/-- Where a branch goes, 0 for any other instruction. -/
def branchDest (insn : UInt32) (pc : Addr) : Addr :=
  if isUncond insn then pc + 4 * signExtend (insn &&& 0x03FFFFFF) 26
  else if isBcond insn || isCbz insn || isCbnz insn then pc + (4 : Addr) * signExtend ((insn >>> 5) &&& 0x7FFFF) 19
  else if isTbz insn || isTbnz insn then pc + (4 : Addr) * signExtend ((insn >>> 5) &&& 0x3FFF) 14
  else 0

def Image.target (m : Image) (pc : Addr) : Addr := branchDest (m.insn pc) pc

/-! ## Instructions as the scan sees them -/

/-- The returns it knows: to the link register, and BR. -/
def isReturn (insn : UInt32) : Bool := insn == 0xD65F03C0 || insn &&& 0xFFFFFC1F == 0xD61F0000

def ends (insn : UInt32) : Bool := isUncond insn || isReturn insn

/-- The branches that its masks leave out. -/
def isNonzero (insn : UInt32) : Bool := isCbnz insn || isTbnz insn

def Image.seen (m : Image) (pc : Addr) : Addr := (branchTarget (m.insn pc) pc).1

/-! ## Functions and their calls -/

/-- The code of one function, above the zero page and below the top of a process's addresses. -/
structure Function (m : Image) (fn fin : Addr) : Prop where
  low : 0x100000000 ≤ fn
  nonempty : fn < fin
  high : fin ≤ 0x800000000000
  whole : (fin - fn) % 4 = 0
  last : closes (m.insn (fin - 4)) = true
  cond_inside : ∀ pc ∈ instrs fn fin, isCond (m.insn pc) = true → fn ≤ m.target pc ∧ m.target pc < fin
  reached : ∀ pc ∈ instrs fn fin, pc ≠ fn →
    closes (m.insn (pc - 4)) = false ∨ ∃ q ∈ instrs fn pc, m.target q = pc

/-- Consecutive functions, by the addresses they start at and the end of the last one. -/
def Region (m : Image) (bounds : List Addr) : Prop := bounds.IsChain (Function m)

def functions (bounds : List Addr) : List (Addr × Addr) := bounds.zip bounds.tail

/-- One of the function's own instructions within its first `FN_SPAN_MAX` bytes calls `target`. -/
def OwnCall (m : Image) (fn fin target : Addr) : Prop :=
  ∃ pc ∈ instrs fn fin, pc < fn + fnSpanMax ∧ blTarget (m.insn pc) pc = some target

/-- Below each of its calls stands a branch to the next instruction that no earlier one jumps past, or an end that `cbnz` and `tbnz`
alone jump past. -/
def Missed (m : Image) (fn fin target : Addr) : Prop :=
  OwnCall m fn fin target ∧ ∀ pc ∈ instrs fn fin, pc < fn + fnSpanMax →
    blTarget (m.insn pc) pc = some target →
      ∃ q ∈ instrs fn pc,
        (isUncond (m.insn q) = true ∧ m.target q = q + 4 ∧ ∀ r ∈ instrs fn q, m.target r ≤ q) ∨
        (ends (m.insn q) = true ∧ (∃ r ∈ instrs fn q, q < m.target r) ∧
          ∀ r ∈ instrs fn q, q < m.target r → isNonzero (m.insn r) = true)

/-- Another function's call in the span, with every end below it jumped past by a branch that is no `cbnz` or `tbnz`. -/
def Strayed (m : Image) (fn fin target : Addr) : Prop :=
  ¬ OwnCall m fn fin target ∧ ∃ pc ∈ instrs fn (fn + fnSpanMax), fin ≤ pc ∧
    blTarget (m.insn pc) pc = some target ∧
      ∀ q ∈ instrs fn pc, ends (m.insn q) = true → ∃ r ∈ instrs fn q, q < m.target r ∧ isNonzero (m.insn r) = false

/-! ## Addresses by their place in the function -/

theorem pcAt_toNat {fn : Addr} {k : Nat} (h : fn.toNat + 4 * k < 2 ^ 64) :
    (pcAt fn k).toNat = fn.toNat + 4 * k := by
  have hk : (UInt64.ofNat k).toNat = k := by
    rw [UInt64.toNat_ofNat']
    exact Nat.mod_eq_of_lt (by omega)
  simp only [pcAt, UInt64.toNat_add, UInt64.toNat_mul, hk]
  change (fn.toNat + 4 * k % 2 ^ 64) % 2 ^ 64 = _
  omega

theorem pcAt_lt {fn : Addr} {i j : Nat} (h : i < j) (hj : fn.toNat + 4 * j < 2 ^ 64) :
    pcAt fn i < pcAt fn j := by
  rw [UInt64.lt_iff_toNat_lt, pcAt_toNat (by omega), pcAt_toNat hj]
  omega

theorem pcAt_succ (fn : Addr) (k : Nat) : pcAt fn (k + 1) = pcAt fn k + 4 := by
  simp only [pcAt, UInt64.ofNat_add, UInt64.mul_add, UInt64.add_assoc]
  rfl

theorem instrs_pcAt {fn : Addr} {n : Nat} (h : fn.toNat + 4 * n < 2 ^ 64) :
    instrs fn (pcAt fn n) = (List.range n).map (pcAt fn) := by
  have hn : (pcAt fn n - fn).toNat = 4 * n := by
    have hle : fn ≤ pcAt fn n := by
      rw [UInt64.le_iff_toNat_le, pcAt_toNat h]
      omega
    rw [UInt64.toNat_sub_of_le _ _ hle, pcAt_toNat h]
    omega
  rw [instrs, hn, Nat.mul_div_cancel_left n (by decide)]

theorem mem_instrs {fn : Addr} {n : Nat} (h : fn.toNat + 4 * n < 2 ^ 64) {pc : Addr} :
    pc ∈ instrs fn (pcAt fn n) ↔ ∃ k < n, pcAt fn k = pc := by
  simp [instrs_pcAt h]

/-! ## Decoding -/

theorem branchTarget_uncond {insn : UInt32} (h : isUncond insn = true) (pc : Addr) :
    branchTarget insn pc = (pc + 4 * signExtend (insn &&& 0x03FFFFFF) 26, false) := by
  rw [branchTarget, if_pos (eq_of_beq h)]

theorem isUncond_of_branchTarget {insn : UInt32} {pc : Addr} (h : (branchTarget insn pc).1 ≠ 0)
    (hc : (branchTarget insn pc).2 = false) : isUncond insn = true := by
  unfold branchTarget at h hc
  split at hc
  next hu => exact beq_iff_eq.mpr hu
  next hu =>
    rw [if_neg hu] at h
    split at hc
    · cases hc
    · split at hc
      · cases hc
      next h1 h2 =>
        rw [if_neg h1, if_neg h2] at h
        exact absurd rfl h

-- A return has none of the bits that the branches are told by.
theorem return_masks {insn : UInt32} (h : isReturn insn = true) :
    isUncond insn = false ∧ isBcond insn = false ∧ isCbz insn = false ∧ isCbnz insn = false ∧ isTbz insn = false ∧ isTbnz insn = false := by
  have hmask : ∀ k : UInt32, 0xFFFFFC1F &&& k = k → insn &&& k = 0xD65F03C0 &&& k ∨
      insn &&& k = 0xD61F0000 &&& k := by
    intro k hk
    rcases Bool.or_eq_true_iff.mp h with h | h
    · left
      rw [eq_of_beq h]
    · right
      rw [← hk, ← UInt32.and_assoc, eq_of_beq h, hk]
  have h1 := hmask 0xFC000000 (by decide)
  have h2 := hmask 0xFF000010 (by decide)
  have h3 := hmask 0x7F000000 (by decide)
  unfold isUncond isBcond isCbz isCbnz isTbz isTbnz
  rcases h1 with h1 | h1 <;> rcases h2 with h2 | h2 <;> rcases h3 with h3 | h3 <;> rw [h1, h2, h3] <;> decide

theorem branchTarget_return {insn : UInt32} (h : isReturn insn = true) (pc : Addr) :
    branchTarget insn pc = (0, false) := by
  obtain ⟨hb, hc, hz, -, ht, -⟩ := return_masks h
  unfold branchTarget
  rw [if_neg (beq_eq_false_iff_ne.mp hb), if_neg, if_neg (beq_eq_false_iff_ne.mp ht)]
  rw [not_or]
  exact ⟨beq_eq_false_iff_ne.mp hc, beq_eq_false_iff_ne.mp hz⟩

theorem branchDest_return {insn : UInt32} (h : isReturn insn = true) (pc : Addr) : branchDest insn pc = 0 := by
  obtain ⟨hb, hc, hz, hnz, ht, hnt⟩ := return_masks h
  simp [branchDest, hb, hc, hz, hnz, ht, hnt]

theorem closes_of_ends {insn : UInt32} (h : ends insn = true) : closes insn = true := by
  have hret : isRet 0xD65F03C0 = true := by decide
  simp only [ends, isReturn, Bool.or_eq_true, beq_iff_eq] at h
  simp only [closes, Bool.or_eq_true]
  rcases h with h | rfl | h
  · exact .inl (.inl h)
  · exact .inl (.inr hret)
  · exact .inr (beq_iff_eq.mpr h)

/-- A `cbnz` or `tbnz` is no branch for the scan, and every other branch is one with its own target. -/
theorem seen_eq (m : Image) (pc : Addr) : m.seen pc = if isNonzero (m.insn pc) then 0 else m.target pc := by
  unfold Image.seen Image.target
  generalize m.insn pc = insn
  by_cases hnz : isNonzero insn = true
  · -- Their codes differ from every code the scan tests for in a bit that the test looks at.
    have hmask : ∀ k : UInt32, 0x7F000000 &&& k = k → insn &&& k = 0x35000000 &&& k ∨ insn &&& k = 0x37000000 &&& k := by
      intro k hk
      rcases Bool.or_eq_true_iff.mp hnz with h | h
      · left
        rw [← hk, ← UInt32.and_assoc, eq_of_beq h, hk]
      · right
        rw [← hk, ← UInt32.and_assoc, eq_of_beq h, hk]
    have hsame := hmask 0x7F000000 (by decide)
    have hsmall := hmask 0x7C000000 (by decide)
    have hb : ¬ insn &&& 0xFC000000 = 0x14000000 := by
      intro h
      have hcut : insn &&& 0x7C000000 = 0x14000000 := by
        have hand := congrArg (· &&& (0x7C000000 : UInt32)) h
        rw [UInt32.and_assoc] at hand
        exact hand
      rw [hcut] at hsmall
      exact absurd hsmall (by decide)
    have hc : ¬ insn &&& 0xFF000010 = 0x54000000 := by
      intro h
      have hcut : insn &&& 0x7F000000 = 0x54000000 := by
        have hand := congrArg (· &&& (0x7F000000 : UInt32)) h
        rw [UInt32.and_assoc] at hand
        exact hand
      rw [hcut] at hsame
      exact absurd hsame (by decide)
    have hz : ¬ insn &&& 0x7F000000 = 0x34000000 := by
      rcases hsame with h | h <;> rw [h] <;> decide
    have ht : ¬ insn &&& 0x7F000000 = 0x36000000 := by
      rcases hsame with h | h <;> rw [h] <;> decide
    rw [if_pos hnz, branchTarget, if_neg hb, if_neg (not_or.mpr ⟨hc, hz⟩), if_neg ht]
  · rw [if_neg hnz]
    simp only [isNonzero, Bool.or_eq_true, not_or, Bool.not_eq_true] at hnz
    unfold branchTarget branchDest
    simp only [hnz.1, hnz.2, Bool.or_false]
    simp only [isUncond, isBcond, isCbz, isTbz, Bool.or_eq_true, beq_iff_eq]
    split_ifs <;> rfl

theorem lt_seen {m : Image} {pc x : Addr} : x < m.seen pc ↔ x < m.target pc ∧ isNonzero (m.insn pc) = false := by
  rw [seen_eq]
  split_ifs with h
  · simp [h]
  · simp [h]

-- A branch reaches 128 MB either way, which is short of the zero page's end.
theorem seen_ne_zero {m : Image} {pc : Addr} (hlow : 0x100000000 ≤ pc)
    (hhigh : pc < 0x1000000000000) (h : isUncond (m.insn pc) = true) : m.seen pc ≠ 0 := by
  rw [Image.seen, branchTarget_uncond h]
  generalize hv : m.insn pc &&& 0x03FFFFFF = v
  have hsmall : v.toNat < 2 ^ 26 := by
    rw [← hv, UInt32.toNat_and]
    exact lt_of_le_of_lt Nat.and_le_right (by decide)
  have hlow' : 2 ^ 32 ≤ pc.toNat := UInt64.le_iff_toNat_le.mp hlow
  have hhigh' : pc.toNat < 2 ^ 48 := UInt64.lt_iff_toNat_lt.mp hhigh
  intro h0
  have hnat := congrArg UInt64.toNat h0
  simp only [signExtend] at hnat
  split at hnat
  · have hs : (v.toUInt64 - (1 <<< (26 : UInt32).toUInt64)).toNat =
        (2 ^ 64 - 2 ^ 26 + v.toNat) % 2 ^ 64 := by
      rw [UInt64.toNat_sub]
      rfl
    rw [UInt64.toNat_add, UInt64.toNat_mul, hs] at hnat
    change (pc.toNat + 4 * _ % 2 ^ 64) % 2 ^ 64 = 0 at hnat
    omega
  · rw [UInt64.toNat_add, UInt64.toNat_mul, UInt32.toNat_toUInt64] at hnat
    change (pc.toNat + 4 * _ % 2 ^ 64) % 2 ^ 64 = 0 at hnat
    omega

/-! ## The scan -/

/-- One step of `fn_calls`: the scan ends where nothing falls through and nothing jumps past. -/
theorem fnCallsFrom_cons {m : Image} {target pc furthest : Addr} (pcs : List Addr)
    (hne : isUncond (m.insn pc) = true → m.seen pc ≠ 0)
    (hbl : blTarget (m.insn pc) pc ≠ some target) :
    fnCallsFrom m target (pc :: pcs) furthest =
      if ends (m.insn pc) = true ∧ furthest ≤ pc then false
      else fnCallsFrom m target pcs (if furthest < m.seen pc then m.seen pc else furthest) := by
  rw [fnCallsFrom, if_neg hbl]
  -- `b`, then `ret` and `br`, then what goes on with the next instruction.
  by_cases hu : isUncond (m.insn pc) = true
  · have hclose : ends (m.insn pc) = true := by rw [ends, hu, Bool.true_or]
    have h0 := hne hu
    simp only [Image.seen, branchTarget_uncond hu] at h0 ⊢
    simp [h0, hclose]
  by_cases hr : isReturn (m.insn pc) = true
  · have hclose : ends (m.insn pc) = true := by rw [ends, hr, Bool.or_true]
    have hr' : (m.insn pc == 0xD65F03C0 || m.insn pc &&& 0xFFFFFC1F == 0xD61F0000) = true := hr
    simp [Image.seen, branchTarget_return hr, hclose, hr']
  · have hclose : ends (m.insn pc) = false := by simp [ends, hu, hr]
    have hr' : (m.insn pc == 0xD65F03C0 || m.insn pc &&& 0xFFFFFC1F == 0xD61F0000) = false := by
      simpa [isReturn] using hr
    have hc : m.seen pc ≠ 0 → (branchTarget (m.insn pc) pc).2 = true := by
      intro h0
      by_contra hcond
      exact hu (isUncond_of_branchTarget h0 (Bool.eq_false_iff.mpr hcond))
    by_cases h0 : m.seen pc = 0
    · simp [Image.seen] at h0
      simp [Image.seen, h0, hclose, hr']
    · have hc := hc h0
      simp [Image.seen] at h0
      simp [Image.seen, h0, hc, hclose]
      rfl

-- The furthest target is a maximum; all the scan asks of it is which addresses lie below.
theorem furthest_step {m : Image} {fn furthest x : Addr} {k : Nat}
    (hf : x < furthest ↔ ∃ r < k, x < m.seen (pcAt fn r)) :
    (x < if furthest < m.seen (pcAt fn k) then m.seen (pcAt fn k) else furthest) ↔
      ∃ r < k + 1, x < m.seen (pcAt fn r) := by
  have hsplit : (∃ r < k + 1, x < m.seen (pcAt fn r)) ↔
      x < furthest ∨ x < m.seen (pcAt fn k) := by
    rw [hf]
    constructor
    · rintro ⟨r, hr, hx⟩
      rcases Nat.lt_succ_iff_lt_or_eq.mp hr with hr | rfl
      · exact Or.inl ⟨r, hr, hx⟩
      · exact Or.inr hx
    · rintro (⟨r, hr, hx⟩ | hx)
      · exact ⟨r, Nat.lt_succ_of_lt hr, hx⟩
      · exact ⟨k, Nat.lt_succ_self k, hx⟩
  rw [hsplit]
  split
  next hlt => exact ⟨Or.inr, fun h ↦ h.elim (fun h ↦ UInt64.lt_trans h hlt) id⟩
  next hge => exact ⟨Or.inl, fun h ↦ h.elim id fun h ↦ UInt64.lt_of_lt_of_le h (UInt64.not_lt.mp hge)⟩

/-- The run of `fn_calls`: it sees the calls below which everything that ends is jumped past. -/
theorem fnCallsFrom_iff {m : Image} {fn target : Addr}
    (hne : ∀ k < 256, isUncond (m.insn (pcAt fn k)) = true → m.seen (pcAt fn k) ≠ 0)
    (hle : ∀ k < 256, fn ≤ pcAt fn k) {n k : Nat} (hn : k + n ≤ 256) {furthest : Addr}
    (hf : ∀ x, fn ≤ x → (x < furthest ↔ ∃ r < k, x < m.seen (pcAt fn r))) :
    fnCallsFrom m target ((List.range' k n).map (pcAt fn)) furthest = true ↔
      ∃ i, k ≤ i ∧ i < k + n ∧ blTarget (m.insn (pcAt fn i)) (pcAt fn i) = some target ∧
        ∀ q, k ≤ q → q < i → ends (m.insn (pcAt fn q)) = true →
          ∃ r < q, pcAt fn q < m.seen (pcAt fn r) := by
  induction n generalizing k furthest with
  | zero =>
    simp only [List.range'_zero, List.map_nil, fnCallsFrom]
    constructor
    · intro h
      cases h
    · rintro ⟨i, hi, hi', -⟩
      omega
  | succ n ih =>
    rw [List.range'_succ, List.map_cons]
    by_cases hbl : blTarget (m.insn (pcAt fn k)) (pcAt fn k) = some target
    · rw [fnCallsFrom, if_pos hbl]
      constructor
      · intro _
        exact ⟨k, le_refl k, by omega, hbl, fun q hq hq' ↦ absurd hq' (by omega)⟩
      · intro _
        rfl
    have hk : k < 256 := by omega
    rw [fnCallsFrom_cons _ (hne k hk) hbl]
    have hpast := hf (pcAt fn k) (hle k hk)
    -- Nothing falls through and nothing goes past: the scan ends here.
    by_cases hstop : ends (m.insn (pcAt fn k)) = true ∧ furthest ≤ pcAt fn k
    · rw [if_pos hstop]
      constructor
      · intro h
        cases h
      · rintro ⟨i, hi, hi', hcall, hq⟩
        have hne' : k ≠ i := by
          rintro rfl
          exact hbl hcall
        have hlt := hpast.mpr (hq k (le_refl k) (by omega) hstop.1)
        exact absurd hlt (UInt64.not_lt.mpr hstop.2)
    · rw [if_neg hstop, ih (by omega) fun x hx ↦ furthest_step (hf x hx)]
      constructor
      · rintro ⟨i, hi, hi', hcall, hq⟩
        refine ⟨i, by omega, by omega, hcall, ?_⟩
        intro q hkq hqi hclose
        rcases Nat.eq_or_lt_of_le hkq with rfl | hkq
        · apply hpast.mp
          by_contra hge
          exact hstop ⟨hclose, UInt64.not_lt.mp hge⟩
        · exact hq q hkq hqi hclose
      · rintro ⟨i, hi, hi', hcall, hq⟩
        have hne' : k ≠ i := by
          rintro rfl
          exact hbl hcall
        exact ⟨i, by omega, by omega, hcall, fun q hkq ↦ hq q (by omega)⟩

/-! ## A function's own code -/

-- `fin` by the number of instructions before it.
theorem Function.place {m : Image} {fn fin : Addr} (hf : Function m fn fin) :
    ∃ n, 0 < n ∧ 2 ^ 32 ≤ fn.toNat ∧ fn.toNat + 4 * n ≤ 2 ^ 47 ∧ fin = pcAt fn n := by
  have hlow : 2 ^ 32 ≤ fn.toNat := UInt64.le_iff_toNat_le.mp hf.low
  have hlt : fn.toNat < fin.toNat := UInt64.lt_iff_toNat_lt.mp hf.nonempty
  have hhigh : fin.toNat ≤ 2 ^ 47 := UInt64.le_iff_toNat_le.mp hf.high
  have hwhole : (fin.toNat - fn.toNat) % 4 = 0 := by
    have h := congrArg UInt64.toNat hf.whole
    rw [UInt64.toNat_mod, UInt64.toNat_sub_of_le _ _ (UInt64.le_of_lt hf.nonempty)] at h
    exact h
  refine ⟨(fin.toNat - fn.toNat) / 4, by omega, hlow, by omega, ?_⟩
  apply UInt64.toNat.inj
  rw [pcAt_toNat (by omega)]
  omega

theorem pcAt_sub_four (fn : Addr) (k : Nat) : pcAt fn (k + 1) - 4 = pcAt fn k := by
  rw [pcAt_succ, UInt64.add_sub_cancel]

theorem pcAt_lt_span {fn : Addr} {k : Nat} (hk : fn.toNat + 4 * k < 2 ^ 64)
    (hfn : fn.toNat + 1024 < 2 ^ 64) : pcAt fn k < fn + fnSpanMax ↔ k < 256 := by
  rw [UInt64.lt_iff_toNat_lt, pcAt_toNat hk, UInt64.toNat_add]
  change _ < (fn.toNat + 1024) % 2 ^ 64 ↔ _
  omega

theorem span_eq_pcAt (fn : Addr) : fn + fnSpanMax = pcAt fn 256 := rfl

theorem spanPcs_eq {fn : Addr} (hfn : fn.toNat + 1024 < 2 ^ 64) :
    spanPcs fn = (List.range' 0 256).map (pcAt fn) := by
  have hall : ∀ pc ∈ (List.range (fnSpanMax.toNat / 4)).map (pcAt fn),
      decide (pc < fn + fnSpanMax) = true := by
    intro pc hpc
    obtain ⟨k, hk, rfl⟩ := List.mem_map.mp hpc
    have hk : k < 256 := List.mem_range.mp hk
    exact decide_eq_true ((pcAt_lt_span (by omega) hfn).mpr hk)
  rw [← List.range_eq_range']
  exact List.takeWhile_eq_self_iff.mpr hall

-- No instruction of a function is unreachable, so only a branch to the next one can be alone there.
theorem Function.jumped {m : Image} {fn fin : Addr} (hf : Function m fn fin) {n k : Nat}
    (hn : fn.toNat + 4 * n ≤ 2 ^ 47) (hlow : 2 ^ 32 ≤ fn.toNat) (hfin : fin = pcAt fn n)
    (hk : k + 1 < n) (hend : ends (m.insn (pcAt fn k)) = true) :
    (∃ r < k, pcAt fn k < m.target (pcAt fn r)) ∨
      isUncond (m.insn (pcAt fn k)) = true ∧ m.target (pcAt fn k) = pcAt fn k + 4 := by
  have hmem : pcAt fn (k + 1) ∈ instrs fn fin := by
    rw [hfin, mem_instrs (by omega)]
    exact ⟨k + 1, hk, rfl⟩
  have hne : pcAt fn (k + 1) ≠ fn := by
    intro h
    have h := congrArg UInt64.toNat h
    rw [pcAt_toNat (by omega)] at h
    omega
  rcases hf.reached _ hmem hne with hfall | ⟨q, hq, hjump⟩
  · rw [pcAt_sub_four, closes_of_ends hend] at hfall
    cases hfall
  rw [mem_instrs (by omega)] at hq
  obtain ⟨r, hr, rfl⟩ := hq
  rcases Nat.lt_succ_iff_lt_or_eq.mp hr with hr | rfl
  · left
    refine ⟨r, hr, ?_⟩
    rw [hjump]
    exact pcAt_lt (Nat.lt_succ_self k) (by omega)
  · right
    rw [pcAt_succ] at hjump
    refine ⟨?_, hjump⟩
    by_contra hu
    have hr : isReturn (m.insn (pcAt fn r)) = true := by
      simpa [ends, hu] using hend
    rw [Image.target, branchDest_return hr, ← pcAt_succ] at hjump
    have h := congrArg UInt64.toNat hjump
    rw [pcAt_toNat (by omega)] at h
    change 0 = _ at h
    omega

/-- What `fn_calls` answers, over the instructions of its span. -/
theorem Function.fnCalls_iff {m : Image} {fn fin : Addr} (hf : Function m fn fin) (target : Addr) :
    fnCalls m fn target = true ↔
      ∃ i < 256, blTarget (m.insn (pcAt fn i)) (pcAt fn i) = some target ∧
        ∀ q < i, ends (m.insn (pcAt fn q)) = true →
          ∃ r < q, pcAt fn q < m.seen (pcAt fn r) := by
  obtain ⟨n, hn, hlow, hhigh, rfl⟩ := hf.place
  have hle : ∀ k < 256, fn ≤ pcAt fn k := by
    intro k hk
    rw [UInt64.le_iff_toNat_le, pcAt_toNat (by omega)]
    omega
  have hne : ∀ k < 256, isUncond (m.insn (pcAt fn k)) = true → m.seen (pcAt fn k) ≠ 0 := by
    intro k hk
    apply seen_ne_zero
    · exact UInt64.le_trans hf.low (hle k hk)
    · rw [UInt64.lt_iff_toNat_lt, pcAt_toNat (by omega)]
      change _ < 2 ^ 48
      omega
  have hstart : ∀ x, fn ≤ x → (x < fn ↔ ∃ r < 0, x < m.seen (pcAt fn r)) := by
    intro x hx
    constructor
    · intro h
      exact absurd h (UInt64.not_lt.mpr hx)
    · rintro ⟨r, hr, -⟩
      omega
  rw [fnCalls, spanPcs_eq (by omega), fnCallsFrom_iff hne hle (by omega) hstart]
  simp

section Own

variable {m : Image} {fn fin target : Addr}

/-- Which ends below the function's last instruction stop the scan: a branch to the next instruction that nothing jumps
past, and what only branches that the scan does not see jump past. -/
theorem Function.stops_iff (hf : Function m fn fin) {n j : Nat} (hn : fn.toNat + 4 * n ≤ 2 ^ 47) (hlow : 2 ^ 32 ≤ fn.toNat)
    (hfin : fin = pcAt fn n) (hj : j + 1 < n) :
    (isUncond (m.insn (pcAt fn j)) = true ∧ m.target (pcAt fn j) = pcAt fn j + 4 ∧
        ∀ r ∈ instrs fn (pcAt fn j), m.target r ≤ pcAt fn j) ∨
      (ends (m.insn (pcAt fn j)) = true ∧ (∃ r ∈ instrs fn (pcAt fn j), pcAt fn j < m.target r) ∧
        ∀ r ∈ instrs fn (pcAt fn j), pcAt fn j < m.target r → isNonzero (m.insn r) = true) ↔
    ends (m.insn (pcAt fn j)) = true ∧ ¬ ∃ r < j, pcAt fn j < m.seen (pcAt fn r) := by
  constructor
  · intro hstop
    have hend : ends (m.insn (pcAt fn j)) = true := by
      rcases hstop with ⟨huncond, -⟩ | ⟨hend, -⟩
      · rw [ends, huncond, Bool.true_or]
      · exact hend
    refine ⟨hend, fun ⟨r, hr, hlt⟩ ↦ ?_⟩
    obtain ⟨hlt, hz⟩ := lt_seen.mp hlt
    have hmem : pcAt fn r ∈ instrs fn (pcAt fn j) := (mem_instrs (by omega)).mpr ⟨r, hr, rfl⟩
    rcases hstop with ⟨-, -, hnone⟩ | ⟨-, -, honly⟩
    · exact absurd hlt (UInt64.not_lt.mpr (hnone _ hmem))
    · rw [honly _ hmem hlt] at hz
      cases hz
  · rintro ⟨hend, hno⟩
    -- Whatever jumps past the end is none of what the scan sees.
    have honly : ∀ r ∈ instrs fn (pcAt fn j), pcAt fn j < m.target r → isNonzero (m.insn r) = true := by
      intro r hr hlt
      rw [mem_instrs (by omega)] at hr
      obtain ⟨k, hk, rfl⟩ := hr
      by_contra hz
      exact hno ⟨k, hk, lt_seen.mpr ⟨hlt, Bool.not_eq_true _ ▸ hz⟩⟩
    by_cases hpast : ∃ r ∈ instrs fn (pcAt fn j), pcAt fn j < m.target r
    · exact .inr ⟨hend, hpast, honly⟩
    · rcases hf.jumped hn hlow hfin hj hend with ⟨r, hr, hlt⟩ | ⟨huncond, hnext⟩
      · exact absurd ⟨pcAt fn r, (mem_instrs (by omega)).mpr ⟨r, hr, rfl⟩, hlt⟩ hpast
      · exact .inl ⟨huncond, hnext, fun r hr ↦ UInt64.not_lt.mp fun hlt ↦ hpast ⟨r, hr, hlt⟩⟩

theorem Function.fnCalls_of_own (hf : Function m fn fin) (hown : OwnCall m fn fin target) :
    fnCalls m fn target = true ↔ ¬ Missed m fn fin target := by
  rw [hf.fnCalls_iff]
  obtain ⟨n, hn, hlow, hhigh, hfin⟩ := hf.place
  constructor
  · rintro ⟨i, hi, hcall, hq⟩ ⟨-, hmissed⟩
    -- A missed end stands below the call the scan found, inside the function or beyond it.
    have hbelow : ∃ pc ∈ instrs fn fin, pc < fn + fnSpanMax ∧
        blTarget (m.insn pc) pc = some target ∧ pc.toNat ≤ (pcAt fn i).toNat := by
      by_cases hin : i < n
      · refine ⟨pcAt fn i, ?_, (pcAt_lt_span (by omega) (by omega)).mpr hi, hcall, le_refl _⟩
        rw [hfin, mem_instrs (by omega)]
        exact ⟨i, hin, rfl⟩
      · obtain ⟨pc, hpc, hspan, hbl⟩ := hown
        refine ⟨pc, hpc, hspan, hbl, ?_⟩
        rw [hfin, mem_instrs (by omega)] at hpc
        obtain ⟨k, hk, rfl⟩ := hpc
        rw [pcAt_toNat (by omega), pcAt_toNat (by omega)]
        omega
    obtain ⟨pc, hpc, hspan, hbl, hle⟩ := hbelow
    obtain ⟨q, hq', hstop⟩ := hmissed pc hpc hspan hbl
    rw [hfin, mem_instrs (by omega)] at hpc
    obtain ⟨k, hk, rfl⟩ := hpc
    rw [mem_instrs (by omega)] at hq'
    obtain ⟨j, hj, rfl⟩ := hq'
    rw [pcAt_toNat (by omega), pcAt_toNat (by omega)] at hle
    obtain ⟨hend, hno⟩ := (hf.stops_iff hhigh hlow hfin (by omega)).mp hstop
    exact hno (hq j (by omega) hend)
  · intro hmissed
    -- One of the own calls has no such end below it, and the scan gets there.
    by_contra hcalls
    apply hmissed
    refine ⟨hown, fun pc hpc hspan hbl ↦ ?_⟩
    by_contra hnone
    rw [hfin, mem_instrs (by omega)] at hpc
    obtain ⟨i, hi, rfl⟩ := hpc
    apply hcalls
    refine ⟨i, (pcAt_lt_span (by omega) (by omega)).mp hspan, hbl, fun q hq hend ↦ ?_⟩
    by_contra hno
    apply hnone
    exact ⟨pcAt fn q, (mem_instrs (by omega)).mpr ⟨q, hq, rfl⟩, (hf.stops_iff hhigh hlow hfin (by omega)).mpr ⟨hend, hno⟩⟩

theorem Function.fnCalls_of_not_own (hf : Function m fn fin) (hown : ¬ OwnCall m fn fin target) :
    fnCalls m fn target = true ↔ Strayed m fn fin target := by
  rw [hf.fnCalls_iff]
  obtain ⟨n, hn, hlow, hhigh, hfin⟩ := hf.place
  constructor
  · rintro ⟨i, hi, hcall, hq⟩
    refine ⟨hown, pcAt fn i, ?_, ?_, hcall, ?_⟩
    · rw [span_eq_pcAt, mem_instrs (by omega)]
      exact ⟨i, hi, rfl⟩
    · rw [hfin, UInt64.le_iff_toNat_le, pcAt_toNat (by omega), pcAt_toNat (by omega)]
      by_contra hin
      apply hown
      refine ⟨pcAt fn i, ?_, (pcAt_lt_span (by omega) (by omega)).mpr hi, hcall⟩
      rw [hfin, mem_instrs (by omega)]
      exact ⟨i, by omega, rfl⟩
    · intro q hq' hend
      rw [mem_instrs (by omega)] at hq'
      obtain ⟨k, hk, rfl⟩ := hq'
      obtain ⟨r, hr, hlt⟩ := hq k hk hend
      exact ⟨pcAt fn r, (mem_instrs (by omega)).mpr ⟨r, hr, rfl⟩, lt_seen.mp hlt⟩
  · rintro ⟨-, pc, hpc, hbeyond, hcall, hq⟩
    rw [span_eq_pcAt, mem_instrs (by omega)] at hpc
    obtain ⟨i, hi, rfl⟩ := hpc
    refine ⟨i, hi, hcall, fun q hqi hend ↦ ?_⟩
    obtain ⟨r, hr, hlt⟩ := hq (pcAt fn q) ((mem_instrs (by omega)).mpr ⟨q, hqi, rfl⟩) hend
    rw [mem_instrs (by omega)] at hr
    obtain ⟨k, hk, rfl⟩ := hr
    exact ⟨k, hk, lt_seen.mpr hlt⟩

end Own

/-! ## The region and the table -/

theorem Region.function {m : Image} {bounds : List Addr} (hr : Region m bounds) {fn fin : Addr}
    (h : (fn, fin) ∈ functions bounds) : Function m fn fin := by
  obtain ⟨i, hi, hget⟩ := List.getElem_of_mem h
  have hlen : i + 1 < bounds.length := by
    simp only [functions, List.length_zip, List.length_tail] at hi
    omega
  have hpair : (bounds[i], bounds[i + 1]) = (fn, fin) := by
    rw [← hget]
    simp [functions]
  have hfn : bounds[i] = fn := congrArg Prod.fst hpair
  have hfin : bounds[i + 1] = fin := congrArg Prod.snd hpair
  rw [← hfn, ← hfin]
  exact List.isChain_iff_getElem.mp hr i hlen

/-- The function in slot `i` of a vtable. -/
def slotFn (m : Image) (vptr : Addr) (i : Nat) : Addr := m.word (vptr + 8 * UInt64.ofNat i)

/-- The only one of the first `run` slots that `p` is true of. -/
def Sole (run : Nat) (p : Nat → Prop) (s : Nat) : Prop := s < run ∧ p s ∧ ∀ j < run, p j → j = s

theorem Sole.congr {run : Nat} {p q : Nat → Prop} (h : ∀ i < run, (p i ↔ q i)) (s : Nat) :
    Sole run p s ↔ Sole run q s := by
  constructor
  · rintro ⟨hs, hp, hall⟩
    exact ⟨hs, (h s hs).mp hp, fun j hj hq ↦ hall j hj ((h j hj).mpr hq)⟩
  · rintro ⟨hs, hq, hall⟩
    exact ⟨hs, (h s hs).mpr hq, fun j hj hp ↦ hall j hj ((h j hj).mp hp)⟩

theorem handlerSlot_eq_some {m : Image} {vptr : Addr} {run s : Nat} :
    handlerSlot m vptr run = some s ↔
      Sole run (fun i ↦ fnCalls m (slotFn m vptr i) m.sendResponse = true) s := by
  have hmem : ∀ i, i ∈ ((List.range run).filter fun i ↦
      fnCalls m (m.word (vptr + 8 * UInt64.ofNat i)) m.sendResponse) ↔
        i < run ∧ fnCalls m (slotFn m vptr i) m.sendResponse = true := by
    intro i
    rw [List.mem_filter, List.mem_range]
    rfl
  have hnodup := (List.nodup_range (n := run)).filter fun i ↦
    fnCalls m (m.word (vptr + 8 * UInt64.ofNat i)) m.sendResponse
  unfold handlerSlot
  revert hmem hnodup
  generalize (List.range run).filter _ = slots
  intro hmem hnodup
  constructor
  · intro h
    split at h
    next found =>
      obtain rfl := Option.some.inj h
      have hs := (hmem found).mp (List.mem_singleton_self found)
      exact ⟨hs.1, hs.2, fun j hj hc ↦ List.mem_singleton.mp ((hmem j).mpr ⟨hj, hc⟩)⟩
    next => cases h
  · rintro ⟨hs, hc, hall⟩
    -- The slots are asked one by one, each once.
    have hsole : slots = [s] := by
      apply List.perm_singleton.mp
      apply (List.perm_ext_iff_of_nodup hnodup (List.nodup_singleton s)).mpr
      intro j
      rw [hmem, List.mem_singleton]
      constructor
      · intro hj
        exact hall j hj.1 hj.2
      · rintro rfl
        exact ⟨hs, hc⟩
    rw [hsole]

/-- A vtable's function in slot `i`, ending at `fin i`, calls the send-response function itself. -/
def Sends (m : Image) (vptr : Addr) (fin : Nat → Addr) (i : Nat) : Prop :=
  OwnCall m (slotFn m vptr i) (fin i) m.sendResponse

/-- It calls it where the scan gets to, or the scan strays to another function's call. -/
def Claimed (m : Image) (vptr : Addr) (fin : Nat → Addr) (i : Nat) : Prop :=
  (Sends m vptr fin i ∧ ¬ Missed m (slotFn m vptr i) (fin i) m.sendResponse) ∨
    Strayed m (slotFn m vptr i) (fin i) m.sendResponse

theorem Function.fnCalls_eq {m : Image} {fn fin target : Addr} (hf : Function m fn fin) :
    fnCalls m fn target = true ↔
      (OwnCall m fn fin target ∧ ¬ Missed m fn fin target) ∨ Strayed m fn fin target := by
  by_cases hown : OwnCall m fn fin target
  · have hstray : ¬ Strayed m fn fin target := fun h ↦ h.1 hown
    simp [hf.fnCalls_of_own hown, hown, hstray]
  · simp [hf.fnCalls_of_not_own hown, hown]

/-- `fn_calls` is right of a function of a region exactly where no call of its own is missed and the
scan does not stray, and `handler_slot` exactly where what it claims leaves the same sole slot. -/
theorem fnCalls_own_iff {m : Image} {bounds : List Addr} (hr : Region m bounds) :
    (∀ fn fin target, (fn, fin) ∈ functions bounds →
      ((fnCalls m fn target = true ↔ OwnCall m fn fin target) ↔
        ¬ Missed m fn fin target ∧ ¬ Strayed m fn fin target)) ∧
    ∀ (vptr : Addr) (run : Nat) (fin : Nat → Addr),
      (∀ i < run, (slotFn m vptr i, fin i) ∈ functions bounds) →
      ((∀ s, handlerSlot m vptr run = some s ↔ Sole run (Sends m vptr fin) s) ↔
        ∀ s, Sole run (Claimed m vptr fin) s ↔ Sole run (Sends m vptr fin) s) := by
  constructor
  · intro fn fin target hmem
    have hf := hr.function hmem
    by_cases hown : OwnCall m fn fin target
    · have hstray : ¬ Strayed m fn fin target := fun h ↦ h.1 hown
      simp [hf.fnCalls_of_own hown, hown, hstray]
    · have hmiss : ¬ Missed m fn fin target := fun h ↦ hown h.1
      simp [hf.fnCalls_of_not_own hown, hown, hmiss]
  · intro vptr run fin hslots
    have hclaim : ∀ s, handlerSlot m vptr run = some s ↔ Sole run (Claimed m vptr fin) s := by
      intro s
      rw [handlerSlot_eq_some]
      exact Sole.congr (fun i hi ↦ (hr.function (hslots i hi)).fnCalls_eq) s
    exact forall_congr' fun s ↦ by rw [hclaim s]

/-- `cbz x0, .+8; b elsewhere; ret`, with a function after it that sends a response. -/
def earlyTailCall : Image where
  insn pc :=
    if pc = 0x100000000 then 0xB4000040
    else if pc = 0x100000004 then 0x14000100
    else if pc = 0x100000008 then 0xD65F03C0
    else if pc = 0x10000000C then 0x94000400
    else 0xD65F03C0
  word va := if va = 0x200000000 then 0x100000000 else 0x10000000C
  char _ := 0
  textBase := 0x100000000
  textEnd := 0x100010000
  constBase := 0x200000000
  constEnd := 0x200010000
  registry := 0
  registerFn := 0
  sendResponse := 0x10000100C
  jobHandler := 0x300000000

theorem earlyTailCall_region :
    Region earlyTailCall [0x100000000, 0x10000000C, 0x100000014] := by
  have h0 : Function earlyTailCall 0x100000000 0x10000000C :=
    ⟨by decide, by decide, by decide, by decide, by decide, List.all_iff_forall_prop.mp (by decide),
      List.all_iff_forall_prop.mp (by decide)⟩
  have h1 : Function earlyTailCall 0x10000000C 0x100000014 :=
    ⟨by decide, by decide, by decide, by decide, by decide, List.all_iff_forall_prop.mp (by decide),
      List.all_iff_forall_prop.mp (by decide)⟩
  exact .cons_cons h0 (.cons_cons h1 (.singleton _))

/-- `cbnz x0, .+8; ret; bl <send>; ret`. -/
def cbnzPast : Image where
  insn pc :=
    if pc = 0x100000000 then 0xB5000040
    else if pc = 0x100000008 then 0x94000400
    else 0xD65F03C0
  word _ := 0x100000000
  char _ := 0
  textBase := 0x100000000
  textEnd := 0x100010000
  constBase := 0x200000000
  constEnd := 0x200010000
  registry := 0
  registerFn := 0
  sendResponse := 0x100001008
  jobHandler := 0x300000000

theorem cbnzPast_region : Region cbnzPast [0x100000000, 0x100000010] := by
  have h : Function cbnzPast 0x100000000 0x100000010 :=
    ⟨by decide, by decide, by decide, by decide, by decide, List.all_iff_forall_prop.mp (by decide),
      List.all_iff_forall_prop.mp (by decide)⟩
  exact .cons_cons h (.singleton _)

/-- The scan of the first function runs on into the second, and neither slot can be claimed; past a `cbnz` the scan stops before
the function's own call. -/
theorem fnCalls_strays :
    (∃ bounds fn fin, Region earlyTailCall bounds ∧ (fn, fin) ∈ functions bounds ∧
      fnCalls earlyTailCall fn earlyTailCall.sendResponse = true ∧
        ¬ OwnCall earlyTailCall fn fin earlyTailCall.sendResponse) ∧
    handlerSlot earlyTailCall 0x200000000 2 = none ∧
    (∃ bounds fn fin, Region cbnzPast bounds ∧ (fn, fin) ∈ functions bounds ∧
      fnCalls cbnzPast fn cbnzPast.sendResponse = false ∧ OwnCall cbnzPast fn fin cbnzPast.sendResponse) := by
  refine ⟨⟨_, 0x100000000, 0x10000000C, earlyTailCall_region, by decide, by decide, ?_⟩, by decide,
    _, 0x100000000, 0x100000010, cbnzPast_region, by decide, by decide, ?_⟩
  · unfold OwnCall
    decide
  · unfold OwnCall
    decide

/-- The same table, read by its functions' own calls. -/
theorem fnCalls_own_iff_earlyTailCall :
    (fnCalls earlyTailCall 0x10000000C 0x10000100C = true ↔
        OwnCall earlyTailCall 0x10000000C 0x100000014 0x10000100C) ↔
      ¬ Missed earlyTailCall 0x10000000C 0x100000014 0x10000100C ∧
        ¬ Strayed earlyTailCall 0x10000000C 0x100000014 0x10000100C :=
  (fnCalls_own_iff earlyTailCall_region).1 _ _ _ (by decide)

end NotProton.WebUi
