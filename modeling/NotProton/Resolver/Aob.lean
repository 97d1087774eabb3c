import NotProton.Library.Lists
import NotProton.Library.LittleEndian

/-!
# Aob — byte patterns and their sole match (`aob.c`)

A pattern is a text of hex pairs and `??`.  The scan of a code region steps by 4, looks at one
concrete byte of the pattern first, and gives up at the second match.
-/

open NotProton.Library

namespace NotProton.Resolver

/-- `np_byte_pattern_t`, its length that of both strings. -/
structure BytePattern where
  bytes : Bytes
  mask : Bytes
  same_length : mask.length = bytes.length

/-- Code bytes in a process's memory. -/
structure CodeRegion where
  base : Nat
  bytes : Bytes
  base_pos : 0 < base
  aligned : base % 4 = 0
  fits : base + bytes.length ≤ 2 ^ 64

def npHexVal (ch : UInt8) : Option UInt8 :=
  if 48 ≤ ch && ch ≤ 57 then some (ch - 48)
  else
    let ch := ch ||| 0x20
    if 97 ≤ ch && ch ≤ 102 then some (ch - 97 + 10) else none

/-- The loop of `np_compile_pattern`: a byte and its mask for each token. -/
def compileFrom : Bytes → Option (List (UInt8 × UInt8))
  | [] => some []
  | [c] => if c = 32 then some [] else none
  | c :: d :: s =>
      if c = 32 then compileFrom (d :: s)
      else if c = 63 ∧ d = 63 then (compileFrom s).map ((0x00, 0x00) :: ·)
      else
        match npHexVal c, npHexVal d with
        | some hi, some lo => (compileFrom s).map ((hi <<< 4 ||| lo, 0xFF) :: ·)
        | _, _ => none

def npCompilePattern (hexStr : Bytes) : Option BytePattern :=
  match compileFrom (cString hexStr) with
  | some (t :: ts) =>
      some ⟨(t :: ts).map Prod.fst, (t :: ts).map Prod.snd, by rw [List.length_map, List.length_map]⟩
  | _ => none

/-- The first byte that has to stand as written, with its place. -/
def concreteByte (pat : BytePattern) : Option (Nat × UInt8) :=
  match pat.mask.findIdx? (· == 0xFF) with
  | some k => some (k, pat.bytes.getD k 0)
  | none => none

/-- `matches_at`, four bytes at a time as long as there are four. -/
def matchesAt : Bytes → Bytes → Bytes → Bool
  | d₀ :: d₁ :: d₂ :: d₃ :: ds, e₀ :: e₁ :: e₂ :: e₃ :: es, f₀ :: f₁ :: f₂ :: f₃ :: fs =>
      if leNat [d₀, d₁, d₂, d₃] &&& leNat [f₀, f₁, f₂, f₃] ≠ leNat [e₀, e₁, e₂, e₃] then false
      else matchesAt ds es fs
  | d :: ds, e :: es, f :: fs => if d &&& f ≠ e then false else matchesAt ds es fs
  | _, _, _ => true

/-- The loop of `np_scan_sole_match`. -/
def scanFrom (r : CodeRegion) (pat : BytePattern) (anchorOff : Nat) (anchor : UInt8) :
    List Nat → Nat → Nat → Nat
  | [], _, found => found
  | pos :: ps, hits, found =>
      if r.bytes[pos + anchorOff]? ≠ some anchor then scanFrom r pat anchorOff anchor ps hits found
      else if matchesAt (r.bytes.drop pos) pat.bytes pat.mask = false then
        scanFrom r pat anchorOff anchor ps hits found
      else if hits + 1 > 1 then 0
      else scanFrom r pat anchorOff anchor ps (hits + 1) (r.base + pos)

/-- `np_scan_sole_match`, 0 for no match and for more than one. -/
def npScanSoleMatch (r : CodeRegion) (pat : BytePattern) : Nat :=
  if pat.bytes.length = 0 ∨ r.bytes.length < pat.bytes.length then 0
  else
    match concreteByte pat with
    | none => 0
    | some (anchorOff, anchor) =>
        let limit := r.bytes.length - pat.bytes.length
        scanFrom r pat anchorOff anchor ((List.range (limit / 4 + 1)).map (4 * ·)) 0 0

/-! ## What a pattern says -/

inductive Token
  | any
  | byte (v : UInt8)
  deriving DecidableEq

def Token.value : Token → UInt8
  | any => 0
  | byte v => v

def Token.mask : Token → UInt8
  | any => 0
  | byte _ => 0xFF

/-- The value of a hex digit, of either case. -/
def hexDigit (c : UInt8) : Option Nat := (ascii "0123456789abcdef").idxOf? (toLower c)

/-- The tokens a text writes: hex pairs, `??` and blanks. -/
inductive Written : Bytes → List Token → Prop
  | nil : Written [] []
  | blank {s ts} (h : Written s ts) : Written (32 :: s) ts
  | any {s ts} (h : Written s ts) : Written (63 :: 63 :: s) (.any :: ts)
  | byte {c d s ts hi lo} (hhi : hexDigit c = some hi) (hlo : hexDigit d = some lo)
      (h : Written s ts) : Written (c :: d :: s) (.byte (UInt8.ofNat (16 * hi + lo)) :: ts)

/-- The whole pattern matches at an aligned place inside the region. -/
def MatchesIn (r : CodeRegion) (pat : BytePattern) (pos : Nat) : Prop :=
  (r.base + pos) % 4 = 0 ∧ pos + pat.bytes.length ≤ r.bytes.length ∧
    ∀ k < pat.bytes.length, r.bytes.getD (pos + k) 0 &&& pat.mask.getD k 0 = pat.bytes.getD k 0

/-- The one place where it matches. -/
def SoleMatch (r : CodeRegion) (pat : BytePattern) (pos : Nat) : Prop :=
  MatchesIn r pat pos ∧ ∀ pos', MatchesIn r pat pos' → pos' = pos

/-! ## Compiling -/

theorem npHexVal_eq (c : UInt8) : (npHexVal c).map UInt8.toNat = hexDigit c := by
  have hall : ∀ n < 256, (npHexVal (UInt8.ofNat n)).map UInt8.toNat = hexDigit (UInt8.ofNat n) := by
    decide +kernel
  exact forall_byte (p := fun c ↦ (npHexVal c).map UInt8.toNat = hexDigit c) hall c

theorem hexDigit_blank : hexDigit 32 = none := by decide

theorem hexDigit_any : hexDigit 63 = none := by decide

-- The two digits of a pair do not share a bit.
theorem pair_value : ∀ hi < 16, ∀ lo < 16,
    (UInt8.ofNat hi <<< 4 ||| UInt8.ofNat lo) = UInt8.ofNat (16 * hi + lo) := by
  decide

theorem hexDigit_lt {c : UInt8} {v : Nat} (h : hexDigit c = some v) : v < 16 := by
  obtain ⟨hlt, -⟩ := List.idxOf?_eq_some_iff.mp h
  exact hlt

theorem hexDigit_of {c hi : UInt8} (h : npHexVal c = some hi) : hexDigit c = some hi.toNat := by
  rw [← npHexVal_eq, h, Option.map_some]

theorem npHexVal_of {c : UInt8} {v : Nat} (h : hexDigit c = some v) : ∃ hi, npHexVal c = some hi := by
  rw [← npHexVal_eq] at h
  obtain ⟨hi, hhi, -⟩ := Option.map_eq_some_iff.mp h
  exact ⟨hi, hhi⟩

theorem Written.blank_iff {s : Bytes} {ts : List Token} : Written (32 :: s) ts ↔ Written s ts := by
  apply Iff.intro ?_ Written.blank
  intro h
  cases h with
  | blank h => exact h
  | byte hhi _ _ => rw [hexDigit_blank] at hhi; cases hhi

theorem Written.any_iff {s : Bytes} {ts : List Token} :
    Written (63 :: 63 :: s) ts ↔ ∃ rest, Written s rest ∧ ts = .any :: rest := by
  apply Iff.intro
  · intro h
    cases h with
    | any h => exact ⟨_, h, rfl⟩
    | byte hhi _ _ => rw [hexDigit_any] at hhi; cases hhi
  · rintro ⟨rest, h, rfl⟩
    exact .any h

theorem Written.pair_iff {c d : UInt8} {s : Bytes} {ts : List Token} (hblank : c ≠ 32) (hany : ¬ (c = 63 ∧ d = 63)) :
    Written (c :: d :: s) ts ↔ ∃ hi lo rest, (hexDigit c = some hi ∧ hexDigit d = some lo) ∧ Written s rest ∧
      ts = .byte (UInt8.ofNat (16 * hi + lo)) :: rest := by
  apply Iff.intro
  · intro h
    cases h with
    | blank _ => exact absurd rfl hblank
    | any _ => exact absurd ⟨rfl, rfl⟩ hany
    | byte hhi hlo h => exact ⟨_, _, _, ⟨hhi, hlo⟩, h, rfl⟩
  · rintro ⟨hi, lo, rest, ⟨hhi, hlo⟩, h, rfl⟩
    exact .byte hhi hlo h

theorem Written.nil_iff {ts : List Token} : Written [] ts ↔ ts = [] := by
  apply Iff.intro
  · intro h
    cases h
    rfl
  · rintro rfl
    exact .nil

def Token.compiled (t : Token) : UInt8 × UInt8 := (t.value, t.mask)

/-- The loop compiles a text to the tokens it writes. -/
theorem compileFrom_eq_some (s : Bytes) (ps : List (UInt8 × UInt8)) :
    compileFrom s = some ps ↔ ∃ ts, Written s ts ∧ ts.map Token.compiled = ps := by
  fun_induction compileFrom s generalizing ps with
  | case1 =>
    apply Iff.intro
    · intro h
      exact ⟨[], .nil, Option.some.inj h⟩
    · rintro ⟨ts, h, rfl⟩
      rw [Written.nil_iff.mp h]
      rfl
  | case2 =>
    apply Iff.intro
    · intro h
      exact ⟨[], .blank .nil, Option.some.inj h⟩
    · rintro ⟨ts, h, rfl⟩
      rw [Written.nil_iff.mp (Written.blank_iff.mp h)]
      rfl
  -- One character is left, and it is no blank.
  | case3 c hblank =>
    apply iff_of_false nofun
    rintro ⟨ts, h, -⟩
    cases h
    exact hblank rfl
  | case4 d s ih =>
    rw [ih]
    simp only [Written.blank_iff]
  -- Two question marks, two hex digits, or neither.
  | case5 c d s hblank hany ih =>
    obtain ⟨rfl, rfl⟩ := hany
    simp only [Option.map_eq_some_iff, ih, Written.any_iff]
    apply Iff.intro
    · rintro ⟨qs, ⟨ts, h, rfl⟩, rfl⟩
      exact ⟨_, ⟨ts, h, rfl⟩, rfl⟩
    · rintro ⟨_, ⟨ts, h, rfl⟩, rfl⟩
      exact ⟨_, ⟨ts, h, rfl⟩, rfl⟩
  | case6 c d s hblank hany hi lo hlo hhi ih =>
    have hc := hexDigit_of hhi
    have hd := hexDigit_of hlo
    have hbyte := pair_value hi.toNat (hexDigit_lt hc) lo.toNat (hexDigit_lt hd)
    rw [UInt8.ofNat_toNat, UInt8.ofNat_toNat] at hbyte
    simp only [Option.map_eq_some_iff, ih, Written.pair_iff hblank hany, hc, hd, Option.some.injEq]
    apply Iff.intro
    · rintro ⟨qs, ⟨ts, h, rfl⟩, rfl⟩
      rw [hbyte]
      exact ⟨_, ⟨_, _, ts, ⟨rfl, rfl⟩, h, rfl⟩, rfl⟩
    · rintro ⟨_, ⟨_, _, ts, ⟨rfl, rfl⟩, h, rfl⟩, rfl⟩
      rw [hbyte]
      exact ⟨_, ⟨ts, h, rfl⟩, rfl⟩
  | case7 c d s hblank hany hnone =>
    apply iff_of_false nofun
    rintro ⟨ts, h, -⟩
    obtain ⟨hi, lo, rest, ⟨hhi, hlo⟩, -⟩ := (Written.pair_iff hblank hany).mp h
    obtain ⟨a, ha⟩ := npHexVal_of hhi
    obtain ⟨b, hb⟩ := npHexVal_of hlo
    exact hnone a b ha hb

/-- The pattern of a list of tokens. -/
def Denotes (pat : BytePattern) (ts : List Token) : Prop :=
  pat.bytes = ts.map Token.value ∧ pat.mask = ts.map Token.mask

theorem npCompilePattern_eq_some (hexStr : Bytes) (pat : BytePattern) :
    npCompilePattern hexStr = some pat ↔ ∃ ts, ts ≠ [] ∧ Written (cString hexStr) ts ∧ Denotes pat ts := by
  have hfst (ts : List Token) : (ts.map Token.compiled).map Prod.fst = ts.map Token.value := by
    rw [List.map_map]; rfl
  have hsnd (ts : List Token) : (ts.map Token.compiled).map Prod.snd = ts.map Token.mask := by
    rw [List.map_map]; rfl
  obtain ⟨bytes, mask, hlen⟩ := pat
  unfold npCompilePattern
  apply Iff.intro
  · intro h
    split at h
    · rename_i t qs hcompile
      obtain ⟨ts, hw, hts⟩ := (compileFrom_eq_some _ _).mp hcompile
      injection Option.some.inj h with hbytes hmask
      rw [← hts] at hbytes hmask
      refine ⟨ts, ?_, hw, hbytes.symm.trans (hfst ts), hmask.symm.trans (hsnd ts)⟩
      rintro rfl
      cases hts
    · cases h
  · rintro ⟨ts, hne, hw, hbytes, hmask⟩
    have hcompile := (compileFrom_eq_some _ _).mpr ⟨ts, hw, rfl⟩
    obtain ⟨t, rest, rfl⟩ := List.exists_cons_of_ne_nil hne
    rw [hcompile, List.map_cons]
    simp only [Option.some.injEq, BytePattern.mk.injEq]
    rw [← List.map_cons, hfst, hsnd]
    exact ⟨hbytes.symm, hmask.symm⟩

/-! ## Matching -/

/-- One comparison of four bytes is four comparisons of one. -/
theorem word_eq_iff (d₀ d₁ d₂ d₃ e₀ e₁ e₂ e₃ f₀ f₁ f₂ f₃ : UInt8) :
    leNat [d₀, d₁, d₂, d₃] &&& leNat [f₀, f₁, f₂, f₃] = leNat [e₀, e₁, e₂, e₃] ↔
      d₀ &&& f₀ = e₀ ∧ d₁ &&& f₁ = e₁ ∧ d₂ &&& f₂ = e₂ ∧ d₃ &&& f₃ = e₃ := by
  rw [← leNat_zipWith_and]
  apply Iff.intro
  · intro h
    have hbytes := leNat_inj (by rfl) h
    simpa using hbytes
  · rintro ⟨rfl, rfl, rfl, rfl⟩
    rfl

theorem forall_getD_cons (d e f : UInt8) (ds es fs : Bytes) :
    (∀ k < (e :: es).length, (d :: ds).getD k 0 &&& (f :: fs).getD k 0 = (e :: es).getD k 0) ↔
      d &&& f = e ∧ ∀ k < es.length, ds.getD k 0 &&& fs.getD k 0 = es.getD k 0 := by
  rw [List.length_cons, Nat.forall_lt_succ_left]
  simp only [List.getD_cons_zero, List.getD_cons_succ]

/-- Comparing four bytes at a time compares byte by byte. -/
theorem matchesAt_iff (ds es fs : Bytes) (hlen : fs.length = es.length) (hin : es.length ≤ ds.length) :
    matchesAt ds es fs = true ↔ ∀ k < es.length, ds.getD k 0 &&& fs.getD k 0 = es.getD k 0 := by
  fun_induction matchesAt ds es fs with
  | case1 d₀ d₁ d₂ d₃ ds e₀ e₁ e₂ e₃ es f₀ f₁ f₂ f₃ fs hword =>
    rw [ne_eq, word_eq_iff] at hword
    apply iff_of_false nofun
    simp only [forall_getD_cons]
    tauto
  | case2 d₀ d₁ d₂ d₃ ds e₀ e₁ e₂ e₃ es f₀ f₁ f₂ f₃ fs hword ih =>
    rw [ne_eq, word_eq_iff, not_not] at hword
    simp only [List.length_cons] at hlen hin
    simp only [forall_getD_cons]
    rw [ih (by omega) (by omega)]
    tauto
  | case3 d ds e es f fs hshort hbyte =>
    apply iff_of_false nofun
    rw [forall_getD_cons]
    exact fun h ↦ hbyte h.1
  | case4 d ds e es f fs hshort hbyte ih =>
    simp only [List.length_cons] at hlen hin
    rw [ne_eq, not_not] at hbyte
    rw [ih (by omega) (by omega), forall_getD_cons]
    exact ⟨fun h ↦ ⟨hbyte, h⟩, fun h ↦ h.2⟩
  | case5 ds es fs hword hbyte =>
    apply iff_of_true rfl
    intro k hk
    cases es with
    | nil => cases hk
    | cons e es =>
      obtain ⟨d, ds, rfl⟩ := List.exists_cons_of_length_pos (l := ds) (by rw [List.length_cons] at hin; omega)
      obtain ⟨f, fs, rfl⟩ := List.exists_cons_of_length_pos (l := fs) (by rw [List.length_cons] at hlen; omega)
      exact absurd rfl (hbyte d ds e es f fs rfl rfl)

theorem concreteByte_of_mem {pat : BytePattern} (h : 0xFF ∈ pat.mask) :
    ∃ k < pat.bytes.length, pat.mask.getD k 0 = 0xFF ∧ concreteByte pat = some (k, pat.bytes.getD k 0) := by
  unfold concreteByte
  cases hk : pat.mask.findIdx? (· == 0xFF) with
  | none =>
    have hno := List.findIdx?_eq_none_iff.mp hk 0xFF h
    cases hno
  | some k =>
    obtain ⟨hlt, hbyte, -⟩ := List.findIdx?_eq_some_iff_getElem.mp hk
    refine ⟨k, by rwa [← pat.same_length], ?_, rfl⟩
    rw [List.getD_eq_getElem _ _ hlt]
    exact beq_iff_eq.mp hbyte

/-- What the scan asks of a place. -/
def Hit (r : CodeRegion) (pat : BytePattern) (anchorOff : Nat) (anchor : UInt8) (pos : Nat) : Bool :=
  r.bytes[pos + anchorOff]? == some anchor && matchesAt (r.bytes.drop pos) pat.bytes pat.mask

/-- Inside the region the anchor asks nothing that the match does not. -/
theorem hit_iff {r : CodeRegion} {pat : BytePattern} {k pos : Nat} (hk : k < pat.bytes.length)
    (hmask : pat.mask.getD k 0 = 0xFF) (halign : pos % 4 = 0) (hin : pos + pat.bytes.length ≤ r.bytes.length) :
    Hit r pat k (pat.bytes.getD k 0) pos = true ↔ MatchesIn r pat pos := by
  have hbase := r.aligned
  unfold Hit
  rw [Bool.and_eq_true, beq_iff_eq,
    matchesAt_iff _ _ _ pat.same_length (by rw [List.length_drop]; omega)]
  have hdrop (k : Nat) : (r.bytes.drop pos).getD k 0 = r.bytes.getD (pos + k) 0 := by
    rw [List.getD_eq_getElem?_getD, List.getElem?_drop, List.getD_eq_getElem?_getD]
  simp only [hdrop]
  apply Iff.intro
  · intro h
    exact ⟨by omega, hin, h.2⟩
  · rintro ⟨-, -, h⟩
    refine ⟨?_, h⟩
    have hbyte := h k hk
    have hall : ∀ n < 256, UInt8.ofNat n &&& 0xFF = UInt8.ofNat n := by decide +kernel
    rw [hmask, forall_byte (p := fun c ↦ c &&& 0xFF = c) hall] at hbyte
    rw [← hbyte, List.getD_eq_getElem _ _ (by omega), List.getElem?_eq_getElem (by omega)]

/-! ## The scan -/

section

variable {r : CodeRegion} {pat : BytePattern} {off : Nat} {anchor : UInt8}

theorem scanFrom_miss {pos : Nat} {ps : List Nat} {hits found : Nat} (h : Hit r pat off anchor pos = false) :
    scanFrom r pat off anchor (pos :: ps) hits found = scanFrom r pat off anchor ps hits found := by
  rw [scanFrom]
  by_cases hbyte : r.bytes[pos + off]? = some anchor
  · have hmatch : matchesAt (r.bytes.drop pos) pat.bytes pat.mask = false := by simpa [Hit, hbyte] using h
    rw [if_neg (not_not.mpr hbyte), if_pos hmatch]
  · rw [if_pos hbyte]

theorem scanFrom_hit {pos : Nat} {ps : List Nat} {hits found : Nat} (h : Hit r pat off anchor pos = true) :
    scanFrom r pat off anchor (pos :: ps) hits found =
      if hits + 1 > 1 then 0 else scanFrom r pat off anchor ps (hits + 1) (r.base + pos) := by
  rw [Hit, Bool.and_eq_true, beq_iff_eq] at h
  rw [scanFrom, if_neg (not_not.mpr h.1), if_neg (by rw [h.2]; decide)]

/-- Behind a first hit any other ends the scan with nothing. -/
theorem scanFrom_one (ps : List Nat) (found : Nat) :
    scanFrom r pat off anchor ps 1 found = if ps.filter (Hit r pat off anchor) = [] then found else 0 := by
  induction ps with
  | nil => rfl
  | cons pos ps ih =>
    cases h : Hit r pat off anchor pos with
    | false => rw [scanFrom_miss h, ih, List.filter_cons_of_neg (by rw [h]; decide)]
    | true => rw [scanFrom_hit h, if_pos (by decide), List.filter_cons_of_pos h, if_neg (List.cons_ne_nil _ _)]

theorem scanFrom_zero (ps : List Nat) :
    scanFrom r pat off anchor ps 0 0 =
      match ps.filter (Hit r pat off anchor) with
      | [pos] => r.base + pos
      | _ => 0 := by
  induction ps with
  | nil => rfl
  | cons pos ps ih =>
    cases h : Hit r pat off anchor pos with
    | false => rw [scanFrom_miss h, ih, List.filter_cons_of_neg (by rw [h]; decide)]
    | true =>
      rw [scanFrom_hit h, if_neg (by decide), List.filter_cons_of_pos h, scanFrom_one]
      cases ps.filter (Hit r pat off anchor) <;> rfl

end

/-- The places the scan looks at: all that are aligned and leave the pattern inside. -/
theorem mem_positions {limit pos : Nat} :
    pos ∈ (List.range (limit / 4 + 1)).map (4 * ·) ↔ pos % 4 = 0 ∧ pos ≤ limit := by
  rw [List.mem_map]
  apply Iff.intro
  · rintro ⟨i, hi, rfl⟩
    rw [List.mem_range] at hi
    omega
  · intro h
    exact ⟨pos / 4, List.mem_range.mpr (by omega), by omega⟩

/-- The scan finds a place exactly when it is the one that matches, and 0 says there is none such. -/
theorem npScanSoleMatch_spec (r : CodeRegion) (pat : BytePattern) (hconcrete : 0xFF ∈ pat.mask) :
    (∀ pos, npScanSoleMatch r pat = r.base + pos ↔ SoleMatch r pat pos) ∧
      (npScanSoleMatch r pat = 0 ↔ ∀ pos, ¬ SoleMatch r pat pos) := by
  obtain ⟨off, hoff, hmask, hbyte⟩ := concreteByte_of_mem hconcrete
  have hbase := r.base_pos
  unfold npScanSoleMatch
  by_cases hin : r.bytes.length < pat.bytes.length
  · have hno (pos : Nat) : ¬ SoleMatch r pat pos := by
      rintro ⟨⟨-, hend, -⟩, -⟩
      omega
    rw [if_pos (.inr hin)]
    exact ⟨fun pos ↦ iff_of_false (by omega) (hno pos), iff_of_true rfl hno⟩
  · rw [if_neg (by omega), hbyte]
    have hnodup : ((List.range ((r.bytes.length - pat.bytes.length) / 4 + 1)).map (4 * ·)).Nodup :=
      List.nodup_range.map fun i j h ↦ Nat.eq_of_mul_eq_mul_left (by decide) h
    -- The places the scan stops at are those of the plain definition, though it looks for one byte first.
    have hmem (pos : Nat) : pos ∈ ((List.range ((r.bytes.length - pat.bytes.length) / 4 + 1)).map (4 * ·)).filter
        (Hit r pat off (pat.bytes.getD off 0)) ↔ MatchesIn r pat pos := by
      rw [List.mem_filter, mem_positions]
      apply Iff.intro
      · rintro ⟨⟨halign, hlimit⟩, hhit⟩
        exact (hit_iff hoff hmask halign (by omega)).mp hhit
      · intro h
        have halign : pos % 4 = 0 := by have := r.aligned; have := h.1; omega
        have hend := h.2.1
        exact ⟨⟨halign, by omega⟩, (hit_iff hoff hmask halign hend).mpr h⟩
    have hsole (pos : Nat) : ((List.range ((r.bytes.length - pat.bytes.length) / 4 + 1)).map (4 * ·)).filter
        (Hit r pat off (pat.bytes.getD off 0)) = [pos] ↔ SoleMatch r pat pos := by
      rw [nodup_eq_singleton_iff (hnodup.filter _), hmem]
      simp only [hmem]
      rfl
    simp only [scanFrom_zero, ← hsole]
    split
    · rename_i found hfound
      apply And.intro
      · intro pos
        rw [hfound, List.singleton_inj]
        exact Nat.add_left_cancel_iff
      · apply iff_of_false (Nat.ne_of_gt (Nat.add_pos_left hbase found))
        intro h
        exact h found hfound
    · rename_i hmany
      have hne (pos : Nat) : 0 ≠ r.base + pos := Nat.ne_of_lt (Nat.add_pos_left hbase pos)
      exact ⟨fun pos ↦ iff_of_false (hne pos) (hmany pos), iff_of_true rfl hmany⟩

/-- A scan returns the one place a pattern matches, and a pattern compiles to the tokens its text writes. -/
theorem soleMatch_compiled :
    (∀ (r : CodeRegion) (pat : BytePattern), 0xFF ∈ pat.mask →
      (∀ pos, npScanSoleMatch r pat = r.base + pos ↔ SoleMatch r pat pos) ∧
        (npScanSoleMatch r pat = 0 ↔ ∀ pos, ¬ SoleMatch r pat pos)) ∧
      ∀ (hexStr : Bytes) (pat : BytePattern),
        npCompilePattern hexStr = some pat ↔ ∃ ts, ts ≠ [] ∧ Written (cString hexStr) ts ∧ Denotes pat ts :=
  ⟨npScanSoleMatch_spec, npCompilePattern_eq_some⟩

/-- `1F ?? 03` over seven bytes, where it stands at 0 and, not aligned, at 1. -/
theorem soleMatch_compiled_three :
    ∃ pat, npCompilePattern (ascii "1F ?? 03") = some pat ∧
      npScanSoleMatch ⟨4096, [0x1F, 0x1F, 3, 3, 0, 0, 0], by decide, by decide, by decide⟩ pat = 4096 := by
  have h1 : hexDigit 49 = some 1 := by decide
  have h15 : hexDigit 70 = some 15 := by decide
  have h0 : hexDigit 48 = some 0 := by decide
  have h3 : hexDigit 51 = some 3 := by decide
  have hw : Written (cString (ascii "1F ?? 03")) [.byte 0x1F, .any, .byte 3] :=
    .byte h1 h15 (.blank (.any (.blank (.byte h0 h3 .nil))))
  refine ⟨⟨[0x1F, 0, 3], [0xFF, 0, 0xFF], rfl⟩, ?_, ?_⟩
  · exact (soleMatch_compiled.2 _ _).mpr ⟨_, List.cons_ne_nil _ _, hw, rfl, rfl⟩
  · apply ((soleMatch_compiled.1 _ _ (by decide)).1 0).mpr
    refine ⟨⟨by decide, by decide, by decide⟩, ?_⟩
    rintro pos ⟨halign, hend, hmatch⟩
    change (4096 + pos) % 4 = 0 at halign
    change pos + 3 ≤ 7 at hend
    by_contra hne
    obtain rfl : pos = 4 := by omega
    exact absurd (hmatch 0 (by decide)) (by decide)

end NotProton.Resolver
