import NotProton.Library.Cursor

/-!
# AppInfo — the apps of `appinfo.vdf` (`appinfo.swift`)

`S` are strings up to what Swift's `==` compares, `utf8` and `utf16` what `String(decoding:as:)` makes of bytes and of
code units.
-/

open NotProton.Library

namespace NotProton.SteamFiles

inductive VDFError
  | truncated
  | unknownType (type : UInt8)
  | unknownMagic (magic : Nat)
  | badStringIndex (i : Nat)
  | excessiveNesting
  deriving DecidableEq

inductive Value (S : Type)
  | string (s : S)
  | number (n : Int)
  | section (keys : S → Option (Value S))

/-- `[String: Value]` -/
abbrev Keys (S : Type) : Type := S → Option (Value S)

variable {S : Type}

def fail {α : Type} (e : VDFError) : Reader VDFError α := fun _ ↦ .error (.thrown e)

def u8 : Reader VDFError UInt8 := fun c ↦
  if c.p < c.fin then
    match c.b[c.p]? with
    | none => .error .stuck
    | some x => .ok (x, c.advance 1)
  else .error (.thrown .truncated)

def u32 : Reader VDFError Nat := fun c ↦
  if c.p + 4 ≤ c.fin then
    if c.p + 4 ≤ c.b.length then .ok (leNat (slice c.b c.p 4), c.advance 4) else .error .stuck
  else .error (.thrown .truncated)

/-- Each byte is checked before it is read, so those before the end are read in any case. -/
def u64 : Reader VDFError Nat := fun c ↦
  if c.p < c.fin ∧ c.b.length < min (c.p + 8) c.fin then .error .stuck
  else if c.p + 8 ≤ c.fin then .ok (leNat (slice c.b c.p 8), c.advance 8)
  else .error (.thrown .truncated)

/-- The first NUL from `pos` on, with so many bytes to the end of the window. -/
def nulFrom (b : Bytes) : Nat → Nat → Option Nat
  | 0, pos => some pos
  | left + 1, pos =>
      match b[pos]? with
      | none => none
      | some x => if x = 0 then some pos else nulFrom b left (pos + 1)

/-- The first NUL pair, from `pos` on by twos. -/
def nulPairFrom (b : Bytes) : Nat → Nat → Option Nat
  | 0, pos => some pos
  | 1, pos => some pos
  | left + 2, pos =>
      match b[pos]?, b[pos + 1]? with
      | some x, some y => if x = 0 ∧ y = 0 then some pos else nulPairFrom b left (pos + 2)
      | _, _ => none

/-- Code units, the low byte first. -/
def units : Bytes → List Nat
  | x :: y :: s => (x.toNat + 256 * y.toNat) :: units s
  | _ => []

def skip (n : Nat) : Reader VDFError Unit := fun c ↦
  if c.p + n ≤ c.fin then .ok ((), c.advance n) else .error (.thrown .truncated)

/-- `Int32(bitPattern:)` and `Int64(bitPattern:)` -/
def bitPattern (bits n : Nat) : Int := if n < 2 ^ (bits - 1) then n else (n : Int) - 2 ^ bits

section
variable (utf8 : Bytes → S)

def cstring : Reader VDFError S := fun c ↦
  match nulFrom c.b (c.fin - c.p) c.p with
  | none => .error .stuck
  | some fin => if fin < c.fin then .ok (utf8 (slice c.b c.p (fin - c.p)), { c with p := fin + 1 })
      else .error (.thrown .truncated)

def stringsLoop : Nat → List S → Reader VDFError (List S)
  | 0, out => pure out
  | count + 1, out => do
      let s ← cstring utf8
      stringsLoop count (out ++ [s])

def readStringTable (b : Bytes) (offset : Nat) : Except (Stop VDFError) (List S) :=
  let read : Reader VDFError (List S) := do
    let count ← u32
    stringsLoop utf8 count []
  (read ⟨b, offset, b.length⟩).map Prod.fst

def readKey : Option (List S) → Reader VDFError S
  | some table => do
      let i ← u32
      match table[i]? with
      | none => fail (.badStringIndex i)
      | some key => pure key
  | none => cstring utf8

variable (utf16 : List Nat → S)

def wcstring : Reader VDFError S := fun c ↦
  match nulPairFrom c.b (c.fin - c.p) c.p with
  | none => .error .stuck
  | some fin => if fin + 1 < c.fin then .ok (utf16 (units (slice c.b c.p (fin - c.p))), { c with p := fin + 2 })
      else .error (.thrown .truncated)

variable [DecidableEq S]

/-- `out[key] = value` -/
def setKey (out : Keys S) (key : S) (value : Value S) : Keys S := Function.update out key (some value)

/-- The value of a field of this type; a section is read by `readInner`. -/
def readValue (readInner : Reader VDFError (Keys S)) (type : UInt8) (key : S) (out : Keys S) :
    Reader VDFError (Keys S) :=
  if type = 0x00 then do
    let inner ← readInner
    pure (setKey out key (.section inner))
  else if type = 0x01 then do
    let s ← cstring utf8
    pure (setKey out key (.string s))
  else if type = 0x02 then do
    let n ← u32
    pure (setKey out key (.number (bitPattern 32 n)))
  else if type = 0x03 ∨ type = 0x04 ∨ type = 0x06 then do
    skip 4
    pure out
  else if type = 0x05 then do
    let s ← wcstring utf16
    pure (setKey out key (.string s))
  else if type = 0x07 ∨ type = 0x0a then do
    let n ← u64
    pure (setKey out key (.number (bitPattern 64 n)))
  else fail (.unknownType type)

/-- The loop of `readSection`. -/
def sectionLoop (table : Option (List S)) : Nat → Nat → Keys S → Reader VDFError (Keys S)
  | 0, _, _ => fun _ ↦ .error .stuck
  | fuel + 1, depth, out => do
      let type ← u8
      if type = 0x08 ∨ type = 0x0b then pure out
      else do
        let key ← readKey utf8 table
        let inner := if depth + 1 < 64 then sectionLoop table fuel (depth + 1) fun _ ↦ none else fail .excessiveNesting
        let out ← readValue utf8 utf16 inner type key out
        sectionLoop table fuel depth out

/-- The keys of an entry, its bytes being `b[start..<fin]`.  Every entry wraps them in one section. -/
def entryKeys (table : Option (List S)) (b : Bytes) (start fin : Nat) : Except (Stop VDFError) (Keys S) :=
  (sectionLoop utf8 utf16 table (fin - start + 1) 0 (fun _ ↦ none) ⟨b, start, fin⟩).map fun result ↦
    match result.1 (utf8 (ascii "appinfo")) with
    | some (.section inner) => inner
    | _ => result.1

variable {σ : Type} (visit : σ → Nat → Except (Stop VDFError) (Keys S) → Except (Stop VDFError) (Bool × σ))

def entriesLoop (b : Bytes) (table : Option (List S)) (entryHeader entriesEnd : Nat) :
    Nat → Nat → σ → Except (Stop VDFError) (Bool × σ)
  | 0, _, _ => .error .stuck
  | fuel + 1, pos, state =>
      if pos + 4 ≤ entriesEnd then
        match u32 ⟨b, pos, entriesEnd⟩ with
        | .error e => .error e
        | .ok (id, e) =>
            if id = 0 then .ok (true, state)
            else
              match u32 e with
              | .error e => .error e
              | .ok (size, _) =>
                  if entryHeader ≤ size ∧ pos + 8 + size ≤ entriesEnd then
                    let entryEnd := pos + 8 + size
                    let start := pos + 8 + entryHeader
                    match visit state id (entryKeys utf8 utf16 table b start entryEnd) with
                    | .error e => .error e
                    | .ok (false, state) => .ok (true, state)
                    | .ok (true, state) => entriesLoop b table entryHeader entriesEnd fuel entryEnd state
                  else .error (.thrown .truncated)
      else .ok (false, state)

/-- What the head of the file says: the string table, the first entry, the end of the entries, the size of the header of
an entry. -/
structure Layout (S : Type) where
  table : Option (List S)
  pos : Nat
  entriesEnd : Nat
  entryHeader : Nat

omit [DecidableEq S] in
def readHead (b : Bytes) : Except (Stop VDFError) (Layout S) :=
  let head : Reader VDFError (Layout S) := do
    let magic ← u32
    let _ ← u32
    if magic = 0x07564429 then do
      let offset ← u64
      if 16 ≤ offset ∧ offset < b.length then
        match readStringTable utf8 b offset with
        | .error e => fun _ ↦ .error e
        | .ok table => pure ⟨some table, 16, offset, 60⟩
      else fail .truncated
    else if magic = 0x07564428 then pure ⟨none, 8, b.length, 60⟩
    else if magic = 0x07564427 then pure ⟨none, 8, b.length, 40⟩
    else fail (.unknownMagic magic)
  (head ⟨b, 0, b.length⟩).map Prod.fst

def forEachApp (b : Bytes) (state : σ) : Except (Stop VDFError) (Bool × σ) :=
  match readHead utf8 b with
  | .error e => .error e
  | .ok l => entriesLoop utf8 utf16 visit b l.table l.entryHeader l.entriesEnd (l.entriesEnd + 1) l.pos state

/-- The closure `findApp` visits the entries with. -/
def findVisit (appID : Nat) (found : Option (Keys S)) (id : Nat) (keys : Except (Stop VDFError) (Keys S)) :
    Except (Stop VDFError) (Bool × Option (Keys S)) :=
  if id = appID then keys.map fun keys ↦ (false, some keys) else .ok (true, found)

def findApp (b : Bytes) (appID : Nat) : Except (Stop VDFError) (Option (Keys S)) :=
  (forEachApp utf8 utf16 (findVisit appID) b none).map Prod.snd

end

/-! ## What the readers see -/

section
variable {n : Nat}

theorem local_u8 : Local n 1 u8 := by
  rintro (_ | ⟨x, s⟩) -
  · refine ⟨.error .truncated, fun _ _ h ↦ (nomatch h), fun c hc ↦ ?_⟩
    have := hc.1
    rw [u8, if_neg (by rw [List.length_nil] at this; omega)]
    rfl
  · refine ⟨.ok (x, 1), fun _ _ h ↦ ?_, fun c hc ↦ ?_⟩
    · cases h
      exact ⟨Nat.le_refl 1, by rw [List.length_cons]; omega⟩
    · have := hc.1
      have hx := hc.getElem? (i := 0) (by rw [List.length_cons]; omega)
      rw [List.length_cons] at this
      rw [Nat.add_zero, List.getElem?_cons_zero] at hx
      rw [u8, if_pos (by omega), hx]
      rfl

/-- What a number of `w` bytes is read from. -/
def uintOut (w : Nat) (s : Bytes) : Except VDFError (Nat × Nat) :=
  if w ≤ s.length then .ok (leNat (s.take w), w) else .error .truncated

theorem uintOut_le {w : Nat} {s : Bytes} {a m : Nat} (h : uintOut w s = .ok (a, m)) : 0 ≤ m ∧ m ≤ s.length := by
  unfold uintOut at h
  split at h
  · cases h
    exact ⟨Nat.zero_le _, ‹_›⟩
  · cases h

theorem slice_of_at {c : Cursor} {s : Bytes} (hc : c.At s) {w : Nat} (hw : w ≤ s.length) :
    slice c.b c.p w = s.take w := by
  have hpre : s.take w <+: c.b.drop c.p := (List.take_prefix w s).trans hc.2
  have hlen : (s.take w).length = w := by
    rw [List.length_take]
    omega
  rw [← slice_of_start hpre, hlen]

theorem u32_at {c : Cursor} {s : Bytes} (hc : c.At s) : u32 c = outcome (uintOut 4 s) c := by
  have hlen := hc.1
  rw [u32, uintOut]
  by_cases hw : 4 ≤ s.length
  · have hle := hc.le (List.ne_nil_of_length_pos (by omega))
    rw [if_pos (by omega), if_pos (by omega), if_pos hw, slice_of_at hc hw]
    rfl
  · rw [if_neg (by omega), if_neg hw]
    rfl

theorem u64_at {c : Cursor} {s : Bytes} (hc : c.At s) : u64 c = outcome (uintOut 8 s) c := by
  have hlen := hc.1
  have hin : ¬(c.p < c.fin ∧ c.b.length < min (c.p + 8) c.fin) := by
    intro h
    have hle := hc.le (List.ne_nil_of_length_pos (by omega))
    omega
  rw [u64, uintOut, if_neg hin]
  by_cases hw : 8 ≤ s.length
  · rw [if_pos (by omega), if_pos hw, slice_of_at hc hw]
    rfl
  · rw [if_neg (by omega), if_neg hw]
    rfl

theorem local_u32 : Local n 0 u32 := fun s _ ↦ ⟨uintOut 4 s, fun _ _ ↦ uintOut_le, fun _ ↦ u32_at⟩

theorem local_u64 : Local n 0 u64 := fun s _ ↦ ⟨uintOut 8 s, fun _ _ ↦ uintOut_le, fun _ ↦ u64_at⟩

theorem local_skip (w : Nat) : Local n 0 (skip w) := by
  intro s _
  by_cases hw : w ≤ s.length
  · refine ⟨.ok ((), w), fun _ _ h ↦ ?_, fun c hc ↦ ?_⟩
    · cases h
      exact ⟨Nat.zero_le _, hw⟩
    · have := hc.1
      rw [skip, if_pos (by omega)]
      rfl
  · refine ⟨.error .truncated, fun _ _ h ↦ (nomatch h), fun c hc ↦ ?_⟩
    have := hc.1
    rw [skip, if_neg (by omega)]
    rfl

/-- The search ends at the first NUL of what is left, or at the end of it. -/
theorem nulFrom_eq {b : Bytes} {s : Bytes} {pos : Nat} (h : s <+: b.drop pos) :
    nulFrom b s.length pos = some (pos + (cString s).length) := by
  induction s generalizing pos with
  | nil => rfl
  | cons x s ih =>
    obtain ⟨hx, hs⟩ := prefix_drop_cons.mp h
    rw [List.length_cons, nulFrom, hx]
    simp only
    by_cases hx0 : x = 0
    · rw [if_pos hx0, cString, List.takeWhile_cons_of_neg (by simpa using hx0)]
      rfl
    · rw [if_neg hx0, ih hs, cString, cString, List.takeWhile_cons_of_pos (by simpa using hx0), List.length_cons,
        Nat.add_assoc, Nat.add_comm 1]

variable (utf8 : Bytes → S)

def cstringOut (s : Bytes) : Except VDFError (S × Nat) :=
  if (cString s).length < s.length then .ok (utf8 (cString s), (cString s).length + 1) else .error .truncated

theorem cstring_at {c : Cursor} {s : Bytes} (hc : c.At s) : cstring utf8 c = outcome (cstringOut utf8 s) c := by
  have hlen := hc.1
  have hpre : cString s <+: c.b.drop c.p := (List.takeWhile_prefix _).trans hc.2
  rw [cstring, show c.fin - c.p = s.length by omega, nulFrom_eq hc.2, cstringOut]
  simp only
  by_cases hlt : (cString s).length < s.length
  · rw [if_pos (by omega), if_pos hlt, Nat.add_sub_cancel_left, slice_of_start hpre]
    rfl
  · rw [if_neg (by omega), if_neg hlt]
    rfl

theorem local_cstring : Local n 0 (cstring utf8) := by
  refine fun s _ ↦ ⟨cstringOut utf8 s, fun _ _ h ↦ ?_, fun _ ↦ cstring_at utf8⟩
  unfold cstringOut at h
  split at h
  · cases h
    exact ⟨Nat.zero_le _, ‹_›⟩
  · cases h

/-- The offset of the first NUL pair, or what there is of whole pairs. -/
def pairsEnd : Bytes → Nat
  | x :: y :: s => if x = 0 ∧ y = 0 then 0 else pairsEnd s + 2
  | _ => 0

theorem pairsEnd_le (s : Bytes) : pairsEnd s ≤ s.length := by
  fun_induction pairsEnd s with
  | case1 => exact Nat.zero_le _
  | case2 x y s _ ih =>
    rw [List.length_cons, List.length_cons]
    omega
  | case3 => exact Nat.zero_le _

theorem nulPairFrom_eq {b : Bytes} {s : Bytes} {pos : Nat} (h : s <+: b.drop pos) :
    nulPairFrom b s.length pos = some (pos + pairsEnd s) := by
  fun_induction pairsEnd s generalizing pos with
  | case1 x y s hxy =>
    obtain ⟨hx, hs⟩ := prefix_drop_cons.mp h
    obtain ⟨hy, -⟩ := prefix_drop_cons.mp hs
    rw [List.length_cons, List.length_cons, nulPairFrom, hx, hy]
    simp only
    rw [if_pos hxy]
    rfl
  | case2 x y s hxy ih =>
    obtain ⟨hx, hs⟩ := prefix_drop_cons.mp h
    obtain ⟨hy, hs⟩ := prefix_drop_cons.mp hs
    rw [List.length_cons, List.length_cons, nulPairFrom, hx, hy]
    simp only
    rw [if_neg hxy, ih hs]
    congr 1
    omega
  | case3 s hs =>
    match s, hs with
    | [], _ => rfl
    | [x], _ => rfl
    | x :: y :: s, hs => exact absurd rfl (hs x y s)

variable (utf16 : List Nat → S)

def wcstringOut (s : Bytes) : Except VDFError (S × Nat) :=
  if pairsEnd s + 1 < s.length then .ok (utf16 (units (s.take (pairsEnd s))), pairsEnd s + 2) else .error .truncated

theorem wcstring_at {c : Cursor} {s : Bytes} (hc : c.At s) : wcstring utf16 c = outcome (wcstringOut utf16 s) c := by
  have hlen := hc.1
  rw [wcstring, show c.fin - c.p = s.length by omega, nulPairFrom_eq hc.2, wcstringOut]
  simp only
  by_cases hlt : pairsEnd s + 1 < s.length
  · rw [if_pos (by omega), if_pos hlt, Nat.add_sub_cancel_left, slice_of_at hc (pairsEnd_le s)]
    rfl
  · rw [if_neg (by omega), if_neg hlt]
    rfl

theorem local_wcstring : Local n 0 (wcstring utf16) := by
  refine fun s _ ↦ ⟨wcstringOut utf16 s, fun _ _ h ↦ ?_, fun _ ↦ wcstring_at utf16⟩
  unfold wcstringOut at h
  split at h
  · cases h
    exact ⟨Nat.zero_le _, ‹_›⟩
  · cases h

theorem local_fail {k : Nat} {α : Type} (e : VDFError) : Local n k (fail e : Reader VDFError α) := Local.throw e

theorem local_stringsLoop (count : Nat) (out : List S) : Local n 0 (stringsLoop utf8 count out) := by
  induction count generalizing out with
  | zero => exact .pure _
  | succ count ih => exact (local_cstring utf8).bind fun s ↦ ih _

theorem local_readKey (table : Option (List S)) : Local n 0 (readKey utf8 table) := by
  cases table with
  | none => exact local_cstring utf8
  | some table =>
    refine local_u32.bind fun i ↦ ?_
    cases table[i]? with
    | none => exact local_fail _
    | some key => exact .pure key

variable [DecidableEq S]

theorem local_readValue {readInner : Reader VDFError (Keys S)} (hinner : Local n 0 readInner) (type : UInt8) (key : S)
    (out : Keys S) : Local n 0 (readValue utf8 utf16 readInner type key out) := by
  unfold readValue
  refine .ite (fun _ ↦ hinner.bind fun _ ↦ .pure _) fun _ ↦ ?_
  refine .ite (fun _ ↦ (local_cstring utf8).bind fun _ ↦ .pure _) fun _ ↦ ?_
  refine .ite (fun _ ↦ local_u32.bind fun _ ↦ .pure _) fun _ ↦ ?_
  refine .ite (fun _ ↦ (local_skip 4).bind fun _ ↦ .pure _) fun _ ↦ ?_
  refine .ite (fun _ ↦ (local_wcstring utf16).bind fun _ ↦ .pure _) fun _ ↦ ?_
  exact .ite (fun _ ↦ local_u64.bind fun _ ↦ .pure _) fun _ ↦ local_fail _

/-- A section is read from what is left, and one round for every byte of it is enough. -/
theorem local_sectionLoop (table : Option (List S)) (fuel depth : Nat) (out : Keys S) :
    Local fuel 1 (sectionLoop utf8 utf16 table fuel depth out) := by
  induction fuel generalizing depth out with
  | zero => exact fun s hs ↦ absurd hs (Nat.not_lt_zero _)
  | succ fuel ih =>
    refine local_u8.bind fun type ↦ .ite (fun _ ↦ .pure _) fun _ ↦ ?_
    refine (local_readKey utf8 table).bind fun key ↦ ?_
    have hinner : Local fuel 0 (if depth + 1 < 64 then sectionLoop utf8 utf16 table fuel (depth + 1) fun _ ↦ none
        else fail .excessiveNesting) := .ite (fun _ ↦ (ih _ _).mono (Nat.zero_le 1)) fun _ ↦ local_fail _
    exact (local_readValue utf8 utf16 hinner type key out).bind fun out ↦ (ih depth out).mono (Nat.zero_le 1)

end

/-! ## Binary key-values -/

/-- The fields of a section. -/
inductive KeyValues (S : Type)
  | done
  | section (key : S) (inner rest : KeyValues S)
  | string (key value : S) (rest : KeyValues S)
  | number (key : S) (value : Int) (rest : KeyValues S)
  | skipped (rest : KeyValues S)

namespace KeyValues

/-- How many sections are inside one another. -/
def height : KeyValues S → Nat
  | done => 0
  | «section» _ inner rest => max (inner.height + 1) rest.height
  | string _ _ rest => rest.height
  | number _ _ rest => rest.height
  | skipped rest => rest.height

/-- The dictionary, where a later field of a key replaces an earlier one. -/
def keys [DecidableEq S] (out : Keys S) : KeyValues S → Keys S
  | done => out
  | «section» key inner rest => rest.keys (setKey out key (.section (inner.keys fun _ ↦ none)))
  | string key value rest => rest.keys (setKey out key (.string value))
  | number key value rest => rest.keys (setKey out key (.number value))
  | skipped rest => rest.keys out

end KeyValues

section
variable (utf8 : Bytes → S) (utf16 : List Nat → S) (table : Option (List S))

/-- A key is an index into the string table, when there is one. -/
def KeyBytes (key : S) (k : Bytes) : Prop :=
  match table with
  | none => ∃ t, 0 ∉ t ∧ key = utf8 t ∧ k = t ++ [0]
  | some table => ∃ i < 2 ^ 32, table[i]? = some key ∧ k = leBytes 4 i

/-- The fields as they are written, up to the byte that ends the section. -/
inductive Encodes : KeyValues S → Bytes → Prop
  | done {t} (ht : t = 0x08 ∨ t = 0x0b) : Encodes .done [t]
  | section {key k inner s rest t} (hkey : KeyBytes utf8 table key k) (hinner : Encodes inner s)
      (hrest : Encodes rest t) :
      Encodes (.section key inner rest) (0x00 :: (k ++ (s ++ t)))
  | string {key k value rest s} (hkey : KeyBytes utf8 table key k) (hvalue : 0 ∉ value) (hrest : Encodes rest s) :
      Encodes (.string key (utf8 value) rest) (0x01 :: (k ++ (value ++ 0 :: s)))
  | wide {key k us rest s} (hkey : KeyBytes utf8 table key k) (hus : ∀ u ∈ us, 0 < u ∧ u < 2 ^ 16)
      (hrest : Encodes rest s) :
      Encodes (.string key (utf16 us) rest) (0x05 :: (k ++ (us.flatMap (leBytes 2) ++ 0 :: 0 :: s)))
  | int32 {key k value rest s} (hkey : KeyBytes utf8 table key k) (hvalue : value.length = 4) (hrest : Encodes rest s) :
      Encodes (.number key (bitPattern 32 (leNat value)) rest) (0x02 :: (k ++ (value ++ s)))
  | int64 {key k type value rest s} (hkey : KeyBytes utf8 table key k) (htype : type = 0x07 ∨ type = 0x0a)
      (hvalue : value.length = 8) (hrest : Encodes rest s) :
      Encodes (.number key (bitPattern 64 (leNat value)) rest) (type :: (k ++ (value ++ s)))
  | skipped {key k type value rest s} (hkey : KeyBytes utf8 table key k)
      (htype : type = 0x03 ∨ type = 0x04 ∨ type = 0x06) (hvalue : value.length = 4) (hrest : Encodes rest s) :
      Encodes (.skipped rest) (type :: (k ++ (value ++ s)))

variable {utf8 utf16 table} {c : Cursor}

theorem bind_of_ok {α β : Type} {f : Reader VDFError α} {g : α → Reader VDFError β} {a : α} {c' : Cursor}
    (h : f c = .ok (a, c')) : (f >>= g) c = g a c' := by
  show (f c >>= fun r ↦ g r.1 r.2) = _
  rw [h]
  rfl

theorem u8_cons {x : UInt8} {s : Bytes} (h : c.At (x :: s)) : u8 c = .ok (x, c.advance 1) := by
  have hlen := h.1
  have hx := h.getElem? (i := 0) (by rw [List.length_cons]; omega)
  rw [List.length_cons] at hlen
  rw [Nat.add_zero, List.getElem?_cons_zero] at hx
  rw [u8, if_pos (by omega), hx]

theorem uintOut_append {w : Nat} {value s : Bytes} (h : value.length = w) :
    uintOut w (value ++ s) = .ok (leNat value, w) := by
  rw [uintOut, if_pos (by rw [List.length_append]; omega), ← h, List.take_left]

theorem cString_append {value s : Bytes} (h : 0 ∉ value) : cString (value ++ 0 :: s) = value := by
  rw [cString, List.takeWhile_append_of_pos, List.takeWhile_cons_of_neg (by simp), List.append_nil]
  intro x hx
  exact decide_eq_true fun h0 ↦ h (h0 ▸ hx)

theorem cstring_append {value s : Bytes} (hvalue : 0 ∉ value) (h : c.At (value ++ 0 :: s)) :
    cstring utf8 c = .ok (utf8 value, c.advance (value.length + 1)) := by
  rw [cstring_at utf8 h, cstringOut, cString_append hvalue,
    if_pos (by rw [List.length_append, List.length_cons]; omega)]
  rfl

theorem pairsEnd_units {us : List Nat} (h : ∀ u ∈ us, 0 < u ∧ u < 2 ^ 16) (s : Bytes) :
    pairsEnd (us.flatMap (leBytes 2) ++ 0 :: 0 :: s) = (us.flatMap (leBytes 2)).length ∧
      units (us.flatMap (leBytes 2)) = us := by
  induction us with
  | nil => exact ⟨rfl, rfl⟩
  | cons u us ih =>
    rw [List.forall_mem_cons] at h
    obtain ⟨hpairs, hunits⟩ := ih h.2
    have hu : (UInt8.ofNat u).toNat + 256 * (UInt8.ofNat (u / 256)).toNat = u := by
      rw [UInt8.toNat_ofNat', UInt8.toNat_ofNat']
      omega
    have hne : ¬(UInt8.ofNat u = 0 ∧ UInt8.ofNat (u / 256) = 0) := by
      rintro ⟨hlow, hhigh⟩
      rw [hlow, hhigh] at hu
      have : u = 0 := hu.symm
      omega
    rw [List.flatMap_cons]
    show pairsEnd (UInt8.ofNat u :: UInt8.ofNat (u / 256) :: (us.flatMap (leBytes 2) ++ 0 :: 0 :: s)) = _ ∧
      units (UInt8.ofNat u :: UInt8.ofNat (u / 256) :: us.flatMap (leBytes 2)) = _
    rw [pairsEnd, if_neg hne, hpairs, units, hu, hunits, List.length_append]
    exact ⟨Nat.add_comm _ 2, rfl⟩

theorem wcstring_append {us : List Nat} {s : Bytes} (hus : ∀ u ∈ us, 0 < u ∧ u < 2 ^ 16)
    (h : c.At (us.flatMap (leBytes 2) ++ 0 :: 0 :: s)) :
    wcstring utf16 c = .ok (utf16 us, c.advance ((us.flatMap (leBytes 2)).length + 2)) := by
  obtain ⟨hpairs, hunits⟩ := pairsEnd_units hus s
  rw [wcstring_at utf16 h, wcstringOut, hpairs, List.take_left, hunits,
    if_pos (by rw [List.length_append, List.length_cons, List.length_cons]; omega)]
  rfl

theorem readKey_append {key : S} {k s : Bytes} (hkey : KeyBytes utf8 table key k) (h : c.At (k ++ s)) :
    readKey utf8 table c = .ok (key, c.advance k.length) := by
  cases table with
  | none =>
    obtain ⟨t, ht, rfl, rfl⟩ := hkey
    rw [List.append_assoc] at h
    rw [readKey, cstring_append ht h, List.length_append]
    rfl
  | some table =>
    obtain ⟨i, hi, hget, rfl⟩ := hkey
    have hread : u32 c = .ok (i, c.advance 4) := by
      rw [u32_at h, uintOut_append (leBytes_length 4 i), leNat_leBytes (by omega)]
      rfl
    rw [readKey, bind_of_ok hread, hget, leBytes_length]
    rfl

variable [DecidableEq S]

/-- What reads a section inside this one. -/
def innerReader (utf8 : Bytes → S) (utf16 : List Nat → S) (table : Option (List S)) (fuel depth : Nat) :
    Reader VDFError (Keys S) :=
  if depth + 1 < 64 then sectionLoop utf8 utf16 table fuel (depth + 1) fun _ ↦ none else fail .excessiveNesting

/-- A field whose value is read is followed by what the loop reads behind it. -/
theorem sectionLoop_field {fuel depth : Nat} {out out' keys : Keys S} {type : UInt8} {key : S} {k v s t : Bytes}
    (htype : ¬(type = 0x08 ∨ type = 0x0b)) (hkey : KeyBytes utf8 table key k)
    (hfuel : (type :: (k ++ (v ++ s))).length < fuel) (hc : c.At (type :: (k ++ (v ++ s)) ++ t))
    (hvalue : ∀ f c', v.length < f → c'.At (v ++ (s ++ t)) →
      readValue utf8 utf16 (innerReader utf8 utf16 table f depth) type key out c' = .ok (out', c'.advance v.length))
    (hrest : ∀ f c', s.length < f → c'.At (s ++ t) →
      sectionLoop utf8 utf16 table f depth out' c' = .ok (keys, c'.advance s.length)) :
    sectionLoop utf8 utf16 table fuel depth out c = .ok (keys, c.advance (type :: (k ++ (v ++ s))).length) := by
  obtain ⟨fuel, rfl⟩ := Nat.exists_eq_succ_of_ne_zero (by omega : fuel ≠ 0)
  rw [List.length_cons, List.length_append, List.length_append] at hfuel
  rw [List.cons_append, List.append_assoc, List.append_assoc] at hc
  have hkeyAt : (c.advance 1).At (k ++ (v ++ (s ++ t))) := Cursor.At.append (s := [type]) hc
  have hvalueAt := hkeyAt.append
  have hrestAt := hvalueAt.append
  rw [sectionLoop, bind_of_ok (u8_cons hc), if_neg htype, bind_of_ok (readKey_append hkey hkeyAt)]
  have hread := hvalue fuel _ (by omega) hvalueAt
  rw [innerReader] at hread
  rw [bind_of_ok hread, hrest fuel _ (by omega) hrestAt]
  simp only [Cursor.advance_advance, List.length_cons, List.length_append]
  congr 3
  omega

/-- A section that is encoded is read back. -/
theorem sectionLoop_encodes {fields : KeyValues S} {s : Bytes} (h : Encodes utf8 utf16 table fields s)
    (fuel depth : Nat) (out : Keys S) (c : Cursor) (t : Bytes) (hfuel : s.length < fuel) (hdepth : depth + fields.height < 64)
    (hc : c.At (s ++ t)) :
    sectionLoop utf8 utf16 table fuel depth out c = .ok (fields.keys out, c.advance s.length) := by
  -- On the encoding: each type byte has its reader, and the rest of the section is read behind it.
  induction h generalizing fuel depth out c t with
  | done ht =>
    obtain ⟨fuel, rfl⟩ := Nat.exists_eq_succ_of_ne_zero (by omega : fuel ≠ 0)
    rw [sectionLoop, bind_of_ok (u8_cons hc), if_pos ht]
    rfl
  | @«section» key k inner s rest t' hkey hinner hrest ihinner ihrest =>
    rw [KeyValues.height] at hdepth
    refine sectionLoop_field (by decide) hkey hfuel hc (fun f c' hf hc' ↦ ?_) fun f c' hf hc' ↦
      ihrest f depth _ c' t hf (by omega) hc'
    have hread := ihinner f (depth + 1) (fun _ ↦ none) c' (t' ++ t) hf (by omega) hc'
    rw [innerReader, if_pos (by omega)]
    exact bind_of_ok hread
  | @string key k value rest s hkey hvalue hrest ih =>
    have hassoc : value ++ 0 :: s = (value ++ [0]) ++ s := by rw [List.append_assoc, List.singleton_append]
    rw [hassoc] at hfuel hc ⊢
    refine sectionLoop_field (by decide) hkey hfuel hc (fun f c' _ hc' ↦ ?_) fun f c' hf hc' ↦
      ih f depth _ c' t hf hdepth hc'
    rw [List.append_assoc] at hc'
    rw [List.length_append]
    exact bind_of_ok (cstring_append hvalue hc')
  | @wide key k us rest s hkey hus hrest ih =>
    have hassoc : us.flatMap (leBytes 2) ++ 0 :: 0 :: s = (us.flatMap (leBytes 2) ++ [0, 0]) ++ s := by
      rw [List.append_assoc]
      rfl
    rw [hassoc] at hfuel hc ⊢
    refine sectionLoop_field (by decide) hkey hfuel hc (fun f c' _ hc' ↦ ?_) fun f c' hf hc' ↦
      ih f depth _ c' t hf hdepth hc'
    rw [List.append_assoc] at hc'
    rw [List.length_append]
    exact bind_of_ok (wcstring_append hus hc')
  | @int32 key k value rest s hkey hvalue hrest ih =>
    refine sectionLoop_field (by decide) hkey hfuel hc (fun f c' _ hc' ↦ ?_) fun f c' hf hc' ↦
      ih f depth _ c' t hf hdepth hc'
    have hread : u32 c' = .ok (leNat value, c'.advance value.length) := by
      rw [u32_at hc', uintOut_append hvalue, hvalue]
      rfl
    exact bind_of_ok hread
  | @int64 key k type value rest s hkey htype hvalue hrest ih =>
    have hread : ∀ c' : Cursor, c'.At (value ++ (s ++ t)) → u64 c' = .ok (leNat value, c'.advance value.length) := by
      intro c' hc'
      rw [u64_at hc', uintOut_append hvalue, hvalue]
      rfl
    obtain rfl | rfl := htype
    · exact sectionLoop_field (by decide) hkey hfuel hc (fun f c' _ hc' ↦ bind_of_ok (hread c' hc')) fun f c' hf hc' ↦
        ih f depth _ c' t hf hdepth hc'
    · exact sectionLoop_field (by decide) hkey hfuel hc (fun f c' _ hc' ↦ bind_of_ok (hread c' hc')) fun f c' hf hc' ↦
        ih f depth _ c' t hf hdepth hc'
  | @skipped key k type value rest s hkey htype hvalue hrest ih =>
    have hread : ∀ c' : Cursor, c'.At (value ++ (s ++ t)) → skip 4 c' = .ok ((), c'.advance value.length) := by
      intro c' hc'
      have hlen := hc'.1
      rw [List.length_append] at hlen
      rw [skip, if_pos (by omega), hvalue]
    obtain rfl | rfl | rfl := htype
    all_goals
      exact sectionLoop_field (by decide) hkey hfuel hc (fun f c' _ hc' ↦ bind_of_ok (hread c' hc')) fun f c' hf hc' ↦
        ih f depth _ c' t hf hdepth hc'

end

/-! ## Entries -/

/-- An entry of the file: the id of the app, the size of what follows, the header, the key-values. -/
structure Record where
  id : Nat
  header : Bytes
  body : Bytes
  id_lt : id < 2 ^ 32
  size_lt : header.length + body.length < 2 ^ 32

namespace Record

def size (r : Record) : Nat := r.header.length + r.body.length

def bytes (r : Record) : Bytes := leBytes 4 r.id ++ (leBytes 4 r.size ++ (r.header ++ r.body))

theorem length_bytes (r : Record) : r.bytes.length = 8 + r.size := by
  simp only [bytes, size, List.length_append, leBytes_length]
  omega

end Record

section
variable [DecidableEq S] (utf8 : Bytes → S) (utf16 : List Nat → S) (table : Option (List S))

/-- The keys in the bytes of one entry, with nothing else there. -/
def bodyKeys (body : Bytes) : Except (Stop VDFError) (Keys S) := entryKeys utf8 utf16 table body 0 body.length

/-- The keys in one section of an entry, or all of them. -/
def unwrap (keys : Keys S) : Keys S :=
  match keys (utf8 (ascii "appinfo")) with
  | some (.section inner) => inner
  | _ => keys

theorem entryKeys_eq_map (b : Bytes) (start fin : Nat) :
    entryKeys utf8 utf16 table b start fin =
      ((sectionLoop utf8 utf16 table (fin - start + 1) 0 (fun _ ↦ none) ⟨b, start, fin⟩).map Prod.fst).map
        (unwrap utf8) := by
  rw [entryKeys]
  cases sectionLoop utf8 utf16 table (fin - start + 1) 0 (fun _ ↦ none) ⟨b, start, fin⟩ <;> rfl

/-- The keys of an entry are those of its own bytes, and they are found or refused. -/
theorem entryKeys_of_at {b body : Bytes} {start fin : Nat} (h : (Cursor.mk b start fin).At body) :
    entryKeys utf8 utf16 table b start fin = bodyKeys utf8 utf16 table body ∧
      ∃ out : Except VDFError (Keys S), bodyKeys utf8 utf16 table body = out.mapError .thrown := by
  have hlen : start + body.length = fin := h.1
  have hbody : (Cursor.mk body 0 body.length).At body := ⟨Nat.zero_add _, List.prefix_rfl⟩
  obtain ⟨out, hout⟩ := (local_sectionLoop utf8 utf16 table (body.length + 1) 0 fun _ ↦ none).agree
    (Nat.lt_succ_self body.length)
  have hself : bodyKeys utf8 utf16 table body = (out.mapError .thrown).map (unwrap utf8) := by
    rw [bodyKeys, entryKeys_eq_map, Nat.sub_zero, hout _ hbody]
  rw [entryKeys_eq_map, show fin - start = body.length by omega, hout _ h, hself]
  refine ⟨rfl, out.map (unwrap utf8), ?_⟩
  cases out <;> rfl

variable {utf8 utf16 table} {σ : Type} {visit : σ → Nat → Except (Stop VDFError) (Keys S) →
  Except (Stop VDFError) (Bool × σ)} {b : Bytes} {entryHeader fin fuel pos : Nat} {state : σ}

theorem u32_append {c : Cursor} {n : Nat} {s : Bytes} (hn : n < 2 ^ 32) (h : c.At (leBytes 4 n ++ s)) :
    u32 c = .ok (n, c.advance 4) := by
  rw [u32_at h, uintOut_append (leBytes_length 4 n), leNat_leBytes (by omega)]
  rfl

/-- The loop at an entry: the visitor gets its id and its keys. -/
theorem entriesLoop_record {r : Record} {t : Bytes} (hid : r.id ≠ 0) (hheader : r.header.length = entryHeader)
    (h : (Cursor.mk b pos fin).At (r.bytes ++ t)) :
    entriesLoop utf8 utf16 visit b table entryHeader fin (fuel + 1) pos state =
      match visit state r.id (bodyKeys utf8 utf16 table r.body) with
      | .error e => .error e
      | .ok (false, state) => .ok (true, state)
      | .ok (true, state) =>
          entriesLoop utf8 utf16 visit b table entryHeader fin fuel (pos + r.bytes.length) state := by
  have hlen : pos + (8 + r.size + t.length) = fin := by rw [← r.length_bytes, ← List.length_append]; exact h.1
  have hsize : r.size = entryHeader + r.body.length := by rw [Record.size, hheader]
  have hid_at := h
  rw [Record.bytes, List.append_assoc, List.append_assoc, List.append_assoc] at hid_at
  have hsize_at := hid_at.append
  have hheader_at := hsize_at.append
  have hbody_at := hheader_at.append
  simp only [leBytes_length, Cursor.advance_advance] at hsize_at hheader_at hbody_at
  -- The body is read with the entry's own end.
  have hbody : (Cursor.mk b (pos + 8 + entryHeader) (pos + 8 + r.size)).At r.body := by
    refine ⟨?_, (List.prefix_append r.body t).trans ?_⟩
    · show pos + 8 + entryHeader + r.body.length = pos + 8 + r.size
      omega
    · have hpre := hbody_at.2
      rw [hheader] at hpre
      show r.body ++ t <+: b.drop (pos + 8 + entryHeader)
      rw [Nat.add_assoc]
      exact hpre
  have hfit : entryHeader ≤ r.size ∧ pos + 8 + r.size ≤ fin := ⟨by omega, by omega⟩
  rw [entriesLoop, if_pos (by omega), u32_append r.id_lt hid_at]
  simp only
  rw [if_neg hid, u32_append (show r.size < 2 ^ 32 from r.size_lt) hsize_at]
  simp only
  rw [if_pos hfit, (entryKeys_of_at utf8 utf16 table hbody).1, r.length_bytes, Nat.add_assoc]

theorem at_next {r : Record} {t : Bytes} (h : (Cursor.mk b pos fin).At (r.bytes ++ t)) :
    (Cursor.mk b (pos + r.bytes.length) fin).At t := h.append

/-- The list ends here: no more bytes for an id, or the id zero. -/
def Ended (rest : Bytes) : Prop := rest.length < 4 ∨ leNat (rest.take 4) = 0

/-- There is an id here, but no whole entry with a header of this size. -/
def Malformed (entryHeader : Nat) (rest : Bytes) : Prop :=
  ¬Ended rest ∧ ∀ r : Record, r.header.length = entryHeader → ¬r.bytes <+: rest

theorem entriesLoop_ended {rest : Bytes} (hrest : Ended rest) (h : (Cursor.mk b pos fin).At rest) :
    ∃ complete, entriesLoop utf8 utf16 visit b table entryHeader fin (fuel + 1) pos state = .ok (complete, state) := by
  have hlen : pos + rest.length = fin := h.1
  rw [entriesLoop]
  by_cases hroom : pos + 4 ≤ fin
  · refine ⟨true, ?_⟩
    rw [if_pos hroom, u32_at h, uintOut, if_pos (by omega), hrest.resolve_left (by omega)]
    rfl
  · exact ⟨false, by rw [if_neg hroom]⟩

/-- A whole entry: its size is there, has room for the header and ends with the bytes at the latest. -/
def Whole (entryHeader : Nat) (rest : Bytes) : Prop :=
  8 ≤ rest.length ∧ entryHeader ≤ leNat (slice rest 4 4) ∧ 8 + leNat (slice rest 4 4) ≤ rest.length

theorem Whole.exists_record {rest : Bytes} (h : Whole entryHeader rest) :
    ∃ r : Record, r.bytes <+: rest ∧ r.id = leNat (rest.take 4) ∧ r.header.length = entryHeader := by
  obtain ⟨height, hheader, hsize⟩ := h
  have hid4 : (slice rest 0 4).length = 4 := slice_length (by omega)
  have hsize4 : (slice rest 4 4).length = 4 := slice_length (by omega)
  have hid_lt := leNat_lt (slice rest 0 4)
  have hsize_lt := leNat_lt (slice rest 4 4)
  rw [hid4] at hid_lt
  rw [hsize4] at hsize_lt
  have hheader_len : (slice rest 8 entryHeader).length = entryHeader := slice_length (by omega)
  have hbody_len : (slice rest (8 + entryHeader) (leNat (slice rest 4 4) - entryHeader)).length =
      leNat (slice rest 4 4) - entryHeader := slice_length (by omega)
  have htotal : entryHeader + (leNat (slice rest 4 4) - entryHeader) = leNat (slice rest 4 4) := by omega
  refine ⟨⟨leNat (slice rest 0 4), slice rest 8 entryHeader,
    slice rest (8 + entryHeader) (leNat (slice rest 4 4) - entryHeader), by omega, by omega⟩, ?_, rfl, hheader_len⟩
  show _ <+: rest.drop 0
  simp only [Record.bytes, Record.size, hheader_len, hbody_len, htotal, leBytes_leNat hid4, leBytes_leNat hsize4,
    prefix_drop_append, hid4, hsize4]
  exact ⟨slice_start .., slice_start .., slice_start .., slice_start ..⟩

theorem Whole.of_record {rest : Bytes} {r : Record} (h : r.bytes <+: rest) (hheader : r.header.length = entryHeader) :
    Whole entryHeader rest := by
  have hlen := h.length_le
  rw [r.length_bytes] at hlen
  obtain ⟨-, hsize, -⟩ : leBytes 4 r.id <+: rest.drop 0 ∧ leBytes 4 r.size <+: rest.drop 4 ∧
      r.header ++ r.body <+: rest.drop 8 := by
    have hpre : r.bytes <+: rest.drop 0 := h
    rw [Record.bytes, prefix_drop_append, prefix_drop_append, leBytes_length, leBytes_length] at hpre
    exact hpre
  have hslice := slice_of_start hsize
  have hlt := r.size_lt
  rw [leBytes_length] at hslice
  rw [Whole, hslice, leNat_leBytes (by rw [Record.size]; omega)]
  exact ⟨by omega, by rw [Record.size]; omega, hlen⟩

theorem record_or_malformed (entryHeader : Nat) {rest : Bytes} (hrest : ¬Ended rest) :
    (∃ (r : Record) (t : Bytes), rest = r.bytes ++ t ∧ r.id ≠ 0 ∧ r.header.length = entryHeader) ∨
      Malformed entryHeader rest := by
  by_cases hwhole : Whole entryHeader rest
  · obtain ⟨r, ⟨t, ht⟩, hid, hheader⟩ := hwhole.exists_record
    exact .inl ⟨r, t, ht.symm, fun h0 ↦ hrest (.inr (hid ▸ h0)), hheader⟩
  · exact .inr ⟨hrest, fun r hheader hr ↦ hwhole (.of_record hr hheader)⟩

/-- Bytes that neither end the list nor begin with an entry end the search. -/
theorem entriesLoop_malformed {rest : Bytes} (hrest : Malformed entryHeader rest) (h : (Cursor.mk b pos fin).At rest) :
    entriesLoop utf8 utf16 visit b table entryHeader fin (fuel + 1) pos state = .error (.thrown .truncated) := by
  have hlen : pos + rest.length = fin := h.1
  have hfour : 4 ≤ rest.length := Nat.not_lt.mp fun h ↦ hrest.1 (.inl h)
  have hid : leNat (rest.take 4) ≠ 0 := fun h ↦ hrest.1 (.inr h)
  have hwhole : ¬Whole entryHeader rest := by
    intro hwhole
    obtain ⟨r, hr, -, hheader⟩ := hwhole.exists_record
    exact hrest.2 r hheader hr
  have hnext := h.drop hfour
  have hslice : (rest.drop 4).take 4 = slice rest 4 4 := rfl
  rw [entriesLoop, if_pos (by omega), u32_at h, uintOut, if_pos hfour, outcome]
  simp only
  rw [if_neg hid, u32_at hnext, uintOut]
  by_cases height : 8 ≤ rest.length
  · have hfit : ¬(entryHeader ≤ leNat (slice rest 4 4) ∧ pos + 8 + leNat (slice rest 4 4) ≤ fin) := by
      rintro ⟨hheader, hsize⟩
      exact hwhole ⟨height, hheader, by omega⟩
    rw [if_pos (by rw [List.length_drop]; omega), outcome, hslice]
    simp only
    rw [if_neg hfit]
  · rw [if_neg (by rw [List.length_drop]; omega)]
    rfl

/-- What a search for one app in these entries finds: those before it have other ids, and the keys are of its own
bytes. -/
def SearchFinds (utf8 : Bytes → S) (utf16 : List Nat → S) (table : Option (List S)) (entryHeader appID : Nat)
    (s : Bytes) (found : Except (Stop VDFError) (Option (Keys S))) : Prop :=
  ∃ (before : List Record) (rest : Bytes), s = before.flatMap Record.bytes ++ rest ∧
    (∀ r ∈ before, r.header.length = entryHeader ∧ r.id ≠ 0 ∧ r.id ≠ appID) ∧
    ((Ended rest ∧ found = .ok none) ∨
      (Malformed entryHeader rest ∧ found = .error (.thrown .truncated)) ∨
      ∃ (r : Record) (t : Bytes), rest = r.bytes ++ t ∧ r.header.length = entryHeader ∧ r.id ≠ 0 ∧ r.id = appID ∧
        found = (bodyKeys utf8 utf16 table r.body).map some)

theorem entriesLoop_find {appID : Nat} {s : Bytes} (hs : s.length < fuel) (h : (Cursor.mk b pos fin).At s) :
    SearchFinds utf8 utf16 table entryHeader appID s
      ((entriesLoop utf8 utf16 (findVisit appID) b table entryHeader fin fuel pos none).map Prod.snd) := by
  induction fuel generalizing pos s with
  | zero => exact absurd hs (Nat.not_lt_zero _)
  | succ fuel ih =>
    by_cases hended : Ended s
    · obtain ⟨complete, hloop⟩ : ∃ complete, entriesLoop utf8 utf16 (findVisit appID) b table entryHeader fin (fuel + 1)
          pos none = .ok (complete, none) := entriesLoop_ended hended h
      exact ⟨[], s, rfl, List.forall_mem_nil _, .inl ⟨hended, by rw [hloop]; rfl⟩⟩
    · obtain ⟨r, t, rfl, hid, hheader⟩ | hmalformed := record_or_malformed entryHeader hended
      · by_cases happ : r.id = appID
        · refine ⟨[], _, rfl, List.forall_mem_nil _, .inr (.inr ⟨r, t, rfl, hheader, hid, happ, ?_⟩)⟩
          rw [entriesLoop_record hid hheader h, findVisit, if_pos happ]
          cases bodyKeys utf8 utf16 table r.body <;> rfl
        · have hnext : entriesLoop utf8 utf16 (findVisit appID) b table entryHeader fin (fuel + 1) pos none =
              entriesLoop utf8 utf16 (findVisit appID) b table entryHeader fin fuel (pos + r.bytes.length) none := by
            rw [entriesLoop_record hid hheader h, findVisit, if_neg happ]
          rw [List.length_append, r.length_bytes] at hs
          obtain ⟨before, rest, hsplit, hbefore, hcases⟩ := ih (by omega) (at_next h)
          refine ⟨r :: before, rest, by rw [hsplit, List.flatMap_cons, List.append_assoc], ?_, hnext ▸ hcases⟩
          exact List.forall_mem_cons.mpr ⟨⟨hheader, hid, happ⟩, hbefore⟩
      · refine ⟨[], s, rfl, List.forall_mem_nil _, .inr (.inl ⟨hmalformed, ?_⟩)⟩
        rw [entriesLoop_malformed hmalformed h]
        rfl

/-! ## The head -/

theorem bind_of_error {α β : Type} {f : Reader VDFError α} {g : α → Reader VDFError β} {c : Cursor} {e : Stop VDFError}
    (h : f c = .error e) : (f >>= g) c = .error e := by
  show (f c >>= fun r ↦ g r.1 r.2) = _
  rw [h]
  rfl

theorem at_drop {o : Nat} (ho : o ≤ b.length) : (Cursor.mk b o b.length).At (b.drop o) := by
  refine ⟨?_, List.prefix_rfl⟩
  rw [List.length_drop]
  show o + (b.length - o) = b.length
  omega

omit [DecidableEq S] in
theorem readStringTable_spec (utf8 : Bytes → S) {offset : Nat} (ho : offset ≤ b.length) :
    ∃ out : Except VDFError (List S), readStringTable utf8 b offset = out.mapError .thrown := by
  have hlocal : Local ((b.drop offset).length + 1) 0 (do let count ← u32; stringsLoop utf8 count []) :=
    local_u32.bind fun count ↦ local_stringsLoop utf8 count []
  obtain ⟨out, hout⟩ := hlocal.agree (Nat.lt_succ_self _)
  exact ⟨out, hout _ (at_drop ho)⟩

omit [DecidableEq S] in
/-- The head is refused, or says where the entries are in the file. -/
theorem readHead_spec (utf8 : Bytes → S) (b : Bytes) :
    (∃ e, readHead utf8 b = .error (.thrown e)) ∨
      ∃ l, readHead utf8 b = .ok l ∧ l.pos ≤ l.entriesEnd ∧ l.entriesEnd ≤ b.length := by
  have hc : (Cursor.mk b 0 b.length).At b := at_drop (o := 0) (Nat.zero_le _)
  rw [readHead]
  -- Field by field, each of which may be cut off.
  by_cases hfour : 4 ≤ b.length
  · have hmagic : u32 ⟨b, 0, b.length⟩ = .ok (leNat (b.take 4), ⟨b, 4, b.length⟩) := by
      rw [u32_at hc, uintOut, if_pos hfour]
      rfl
    by_cases height : 8 ≤ b.length
    · have huniverse : u32 ⟨b, 4, b.length⟩ = .ok (leNat ((b.drop 4).take 4), ⟨b, 8, b.length⟩) := by
        rw [u32_at (at_drop hfour), uintOut, if_pos (by rw [List.length_drop]; omega)]
        rfl
      rw [bind_of_ok hmagic, bind_of_ok huniverse]
      split
      · by_cases hsixteen : 16 ≤ b.length
        · have hoffset : u64 ⟨b, 8, b.length⟩ = .ok (leNat ((b.drop 8).take 8), ⟨b, 16, b.length⟩) := by
            rw [u64_at (at_drop height), uintOut, if_pos (by rw [List.length_drop]; omega)]
            rfl
          rw [bind_of_ok hoffset]
          split
          · rename_i hin
            obtain ⟨out, hout⟩ := readStringTable_spec utf8 (Nat.le_of_lt hin.2)
            rw [hout]
            cases out with
            | error e => exact .inl ⟨e, rfl⟩
            | ok table => exact .inr ⟨_, rfl, hin.1, Nat.le_of_lt hin.2⟩
          · exact .inl ⟨_, rfl⟩
        · have hoffset : u64 ⟨b, 8, b.length⟩ = .error (.thrown .truncated) := by
            rw [u64_at (at_drop height), uintOut, if_neg (by rw [List.length_drop]; omega)]
            rfl
          rw [bind_of_error hoffset]
          exact .inl ⟨_, rfl⟩
      · split
        · exact .inr ⟨_, rfl, height, Nat.le_refl _⟩
        · split
          · exact .inr ⟨_, rfl, height, Nat.le_refl _⟩
          · exact .inl ⟨_, rfl⟩
    · have huniverse : u32 ⟨b, 4, b.length⟩ = .error (.thrown .truncated) := by
        rw [u32_at (at_drop hfour), uintOut, if_neg (by rw [List.length_drop]; omega)]
        rfl
      rw [bind_of_ok hmagic, bind_of_error huniverse]
      exact .inl ⟨_, rfl⟩
  · have hmagic : u32 ⟨b, 0, b.length⟩ = .error (.thrown .truncated) := by
      rw [u32_at hc, uintOut, if_neg hfour]
      rfl
    rw [bind_of_error hmagic]
    exact .inl ⟨_, rfl⟩

/-- For every byte string: a head that is refused, or the search over the entries it leaves. -/
theorem findApp_any (utf8 : Bytes → S) (utf16 : List Nat → S) (b : Bytes) (appID : Nat) :
    (∃ e, readHead utf8 b = .error (.thrown e) ∧ findApp utf8 utf16 b appID = .error (.thrown e)) ∨
      ∃ l, readHead utf8 b = .ok l ∧ l.pos ≤ l.entriesEnd ∧ l.entriesEnd ≤ b.length ∧
        SearchFinds utf8 utf16 l.table l.entryHeader appID (slice b l.pos (l.entriesEnd - l.pos))
          (findApp utf8 utf16 b appID) := by
  obtain ⟨e, he⟩ | ⟨l, hl, hpos, hfin⟩ := readHead_spec utf8 b
  · refine .inl ⟨e, he, ?_⟩
    rw [findApp, forEachApp, he]
    rfl
  · refine .inr ⟨l, hl, hpos, hfin, ?_⟩
    rw [findApp, forEachApp, hl]
    apply entriesLoop_find
    · rw [slice_length (by omega)]
      omega
    · exact Cursor.at_slice hpos hfin

/-! ## Files of apps -/

/-- An app in the file. -/
structure App (S : Type) where
  record : Record
  fields : KeyValues S

def App.keys (utf8 : Bytes → S) (app : App S) : Keys S := unwrap utf8 (app.fields.keys fun _ ↦ none)

/-- The entry is not the one that ends the list, and its key-values are the fields of the app. -/
structure App.Ok (utf8 : Bytes → S) (utf16 : List Nat → S) (table : Option (List S)) (entryHeader : Nat) (app : App S) :
    Prop where
  id_ne : app.record.id ≠ 0
  header : app.record.header.length = entryHeader
  body : Encodes utf8 utf16 table app.fields app.record.body

/-- The entries of the apps, the zero id, and any bytes. -/
def entriesBytes (apps : List (App S)) (gap : Bytes) : Bytes :=
  apps.flatMap (fun app ↦ app.record.bytes) ++ (leBytes 4 0 ++ gap)

def namesBytes (names : List Bytes) : Bytes := names.flatMap fun name ↦ name ++ [0]

/-- The files of the three versions with these apps. -/
inductive Encoded (utf8 : Bytes → S) (utf16 : List Nat → S) (apps : List (App S)) : Bytes → Prop
  | v27 {uni gap} (huni : uni.length = 4) (happs : ∀ app ∈ apps, app.Ok utf8 utf16 none 40) :
      Encoded utf8 utf16 apps (leBytes 4 0x07564427 ++ (uni ++ entriesBytes apps gap))
  | v28 {uni gap} (huni : uni.length = 4) (happs : ∀ app ∈ apps, app.Ok utf8 utf16 none 60) :
      Encoded utf8 utf16 apps (leBytes 4 0x07564428 ++ (uni ++ entriesBytes apps gap))
  | v29 {uni gap tail} {names : List Bytes} (huni : uni.length = 4) (hcount : names.length < 2 ^ 32)
      (hnames : ∀ name ∈ names, 0 ∉ name) (hoffset : 16 + (entriesBytes apps gap).length < 2 ^ 64)
      (happs : ∀ app ∈ apps, app.Ok utf8 utf16 (some (names.map utf8)) 60) :
      Encoded utf8 utf16 apps (leBytes 4 0x07564429 ++ (uni ++ (leBytes 8 (16 + (entriesBytes apps gap).length) ++
        (entriesBytes apps gap ++ (leBytes 4 names.length ++ (namesBytes names ++ tail))))))

theorem bodyKeys_encodes {app : App S} (happ : app.Ok utf8 utf16 table entryHeader) (hheight : app.fields.height < 64) :
    bodyKeys utf8 utf16 table app.record.body = .ok (app.keys utf8) := by
  have hat : (Cursor.mk app.record.body 0 app.record.body.length).At (app.record.body ++ []) := by
    rw [List.append_nil]
    exact ⟨Nat.zero_add _, List.prefix_rfl⟩
  rw [bodyKeys, entryKeys_eq_map, sectionLoop_encodes happ.body _ 0 _ _ [] (by omega) (by omega) hat]
  rfl

theorem entriesLoop_apps {apps : List (App S)} {gap : Bytes} {appID : Nat}
    (happs : ∀ app ∈ apps, app.Ok utf8 utf16 table entryHeader) (hfuel : (entriesBytes apps gap).length < fuel)
    (h : (Cursor.mk b pos fin).At (entriesBytes apps gap)) :
    (entriesLoop utf8 utf16 (findVisit appID) b table entryHeader fin fuel pos none).map Prod.snd =
      match apps.find? fun app ↦ app.record.id == appID with
      | none => .ok none
      | some app => (bodyKeys utf8 utf16 table app.record.body).map some := by
  obtain ⟨fuel, rfl⟩ := Nat.exists_eq_succ_of_ne_zero (by omega : fuel ≠ 0)
  -- On the entries; each takes one unit of fuel and is at least eight bytes long.
  induction apps generalizing fuel pos with
  | nil =>
    have hended : Ended (entriesBytes ([] : List (App S)) gap) := .inr rfl
    obtain ⟨complete, hloop⟩ : ∃ complete, entriesLoop utf8 utf16 (findVisit appID) b table entryHeader fin (fuel + 1)
      pos none = .ok (complete, none) := entriesLoop_ended hended h
    rw [hloop]
    rfl
  | cons app apps ih =>
    rw [List.forall_mem_cons] at happs
    have hbytes : entriesBytes (app :: apps) gap = app.record.bytes ++ entriesBytes apps gap := by
      rw [entriesBytes, List.flatMap_cons, List.append_assoc, entriesBytes]
    rw [hbytes] at h hfuel
    rw [List.length_append, app.record.length_bytes] at hfuel
    rw [entriesLoop_record happs.1.id_ne happs.1.header h, findVisit]
    by_cases hid : app.record.id = appID
    · rw [if_pos hid, List.find?_cons_of_pos (by rw [hid]; exact beq_self_eq_true _)]
      show _ = (bodyKeys utf8 utf16 table app.record.body).map some
      cases bodyKeys utf8 utf16 table app.record.body <;> rfl
    · rw [if_neg hid, List.find?_cons_of_neg (by rw [beq_iff_eq]; exact hid)]
      obtain ⟨fuel, rfl⟩ := Nat.exists_eq_succ_of_ne_zero (by omega : fuel ≠ 0)
      exact ih happs.2 (at_next h) fuel (by omega)

omit [DecidableEq S] in
theorem stringsLoop_append (utf8 : Bytes → S) {names : List Bytes} (hnames : ∀ name ∈ names, 0 ∉ name)
    (out : List S) (c : Cursor) (t : Bytes) (h : c.At (namesBytes names ++ t)) :
    ∃ c', stringsLoop utf8 names.length out c = .ok (out ++ names.map utf8, c') := by
  induction names generalizing out c with
  | nil => exact ⟨c, by rw [List.map_nil, List.append_nil]; rfl⟩
  | cons name names ih =>
    rw [List.forall_mem_cons] at hnames
    have hat : c.At (name ++ 0 :: (namesBytes names ++ t)) := by
      rw [namesBytes, List.flatMap_cons, List.append_assoc, List.append_assoc] at h
      exact h
    have hnext : (c.advance (name.length + 1)).At (namesBytes names ++ t) := by
      rw [show name ++ 0 :: (namesBytes names ++ t) = (name ++ [0]) ++ (namesBytes names ++ t) by
        rw [List.append_assoc]; rfl] at hat
      rw [show name.length + 1 = (name ++ [0]).length by rw [List.length_append]; rfl]
      exact hat.append
    obtain ⟨c', hc'⟩ := ih hnames.2 (out ++ [utf8 name]) _ hnext
    rw [List.length_cons, stringsLoop, bind_of_ok (cstring_append hnames.1 hat), hc', List.map_cons, List.append_assoc,
      List.singleton_append]
    exact ⟨c', rfl⟩

omit [DecidableEq S] in
/-- The first eight bytes: the version and a number that is not used. -/
theorem readHead_magic {magic : Nat} {uni rest : Bytes} (hmagic : magic < 2 ^ 32) (huni : uni.length = 4)
    (hb : b = leBytes 4 magic ++ (uni ++ rest)) :
    u32 ⟨b, 0, b.length⟩ = .ok (magic, ⟨b, 4, b.length⟩) ∧ u32 ⟨b, 4, b.length⟩ = .ok (leNat uni, ⟨b, 8, b.length⟩) ∧
      (Cursor.mk b 8 b.length).At rest := by
  have hc : (Cursor.mk b 0 b.length).At (leBytes 4 magic ++ (uni ++ rest)) := hb ▸ at_drop (o := 0) (Nat.zero_le _)
  have huni_at := hc.append
  have hrest_at := huni_at.append
  rw [leBytes_length] at huni_at hrest_at
  rw [huni] at hrest_at
  refine ⟨u32_append hmagic hc, ?_, hrest_at⟩
  rw [show (Cursor.mk b 4 b.length) = (Cursor.mk b 0 b.length).advance 4 from rfl, u32_at huni_at, uintOut_append huni]
  rfl

/-- The apps of a file are found when its head leaves their entries. -/
theorem findApp_of_head {apps : List (App S)} {gap : Bytes} (l : Layout S) (hhead : readHead utf8 b = .ok l)
    (hat : (Cursor.mk b l.pos l.entriesEnd).At (entriesBytes apps gap))
    (happs : ∀ app ∈ apps, app.Ok utf8 utf16 l.table l.entryHeader) (appID : Nat) :
    ∃ table entryHeader, (∀ app ∈ apps, app.Ok utf8 utf16 table entryHeader) ∧
      findApp utf8 utf16 b appID =
        match apps.find? fun app ↦ app.record.id == appID with
        | none => .ok none
        | some app => (bodyKeys utf8 utf16 table app.record.body).map some := by
  have hlen : l.pos + (entriesBytes apps gap).length = l.entriesEnd := hat.1
  refine ⟨l.table, l.entryHeader, happs, ?_⟩
  rw [findApp, forEachApp, hhead]
  exact entriesLoop_apps happs (by omega) hat

theorem findApp_encoded {apps : List (App S)} (h : Encoded utf8 utf16 apps b) (appID : Nat) :
    ∃ table entryHeader, (∀ app ∈ apps, app.Ok utf8 utf16 table entryHeader) ∧
      findApp utf8 utf16 b appID =
        match apps.find? fun app ↦ app.record.id == appID with
        | none => .ok none
        | some app => (bodyKeys utf8 utf16 table app.record.body).map some := by
  cases h with
  | @v27 uni gap huni happs =>
    obtain ⟨hmagic, huniverse, hat⟩ := readHead_magic (show 0x07564427 < 2 ^ 32 by norm_num) huni rfl
    refine findApp_of_head ⟨none, 8, _, 40⟩ ?_ hat happs appID
    rw [readHead, bind_of_ok hmagic, bind_of_ok huniverse, if_neg (by decide), if_neg (by decide), if_pos rfl]
    rfl
  | @v28 uni gap huni happs =>
    obtain ⟨hmagic, huniverse, hat⟩ := readHead_magic (show 0x07564428 < 2 ^ 32 by norm_num) huni rfl
    refine findApp_of_head ⟨none, 8, _, 60⟩ ?_ hat happs appID
    rw [readHead, bind_of_ok hmagic, bind_of_ok huniverse, if_neg (by decide), if_pos rfl]
    rfl
  | @v29 uni gap tail names huni hcount hnames hoffset happs =>
    obtain ⟨hmagic, huniverse, hat⟩ := readHead_magic (show 0x07564429 < 2 ^ 32 by norm_num) huni rfl
    generalize hfile : leBytes 4 0x07564429 ++ (uni ++ (leBytes 8 (16 + (entriesBytes apps gap).length) ++
      (entriesBytes apps gap ++ (leBytes 4 names.length ++ (namesBytes names ++ tail))))) = b at hmagic huniverse hat ⊢
    have hoffset_read : u64 ⟨b, 8, b.length⟩ = .ok (16 + (entriesBytes apps gap).length, ⟨b, 16, b.length⟩) := by
      rw [u64_at hat, uintOut_append (leBytes_length _ _), leNat_leBytes (by omega)]
      rfl
    have hentries : (Cursor.mk b 16 b.length).At (entriesBytes apps gap ++ (leBytes 4 names.length ++
        (namesBytes names ++ tail))) := by
      have hnext := hat.append
      rw [leBytes_length] at hnext
      exact hnext
    have htable : (Cursor.mk b (16 + (entriesBytes apps gap).length) b.length).At (leBytes 4 names.length ++
        (namesBytes names ++ tail)) := hentries.append
    have hlen : 16 + (entriesBytes apps gap).length + (leBytes 4 names.length ++ (namesBytes names ++ tail)).length =
      b.length := htable.1
    rw [List.length_append, leBytes_length] at hlen
    -- The table of keys stands behind the entries, where the offset says.
    have htable_read : readStringTable utf8 b (16 + (entriesBytes apps gap).length) = .ok (names.map utf8) := by
      have hnames_at := htable.append
      rw [leBytes_length] at hnames_at
      obtain ⟨c', hstrings⟩ := stringsLoop_append utf8 hnames [] _ tail hnames_at
      have hcount_read : u32 ⟨b, 16 + (entriesBytes apps gap).length, b.length⟩ = .ok (names.length, _) :=
        u32_append hcount htable
      rw [readStringTable, bind_of_ok hcount_read, hstrings]
      rfl
    have hregion : (Cursor.mk b 16 (16 + (entriesBytes apps gap).length)).At (entriesBytes apps gap) :=
      ⟨rfl, (List.prefix_append _ _).trans hentries.2⟩
    have hin : 16 ≤ 16 + (entriesBytes apps gap).length ∧ 16 + (entriesBytes apps gap).length < b.length :=
      ⟨Nat.le_add_right _ _, by omega⟩
    refine findApp_of_head ⟨some (names.map utf8), 16, _, 60⟩ ?_ hregion happs appID
    rw [readHead, bind_of_ok hmagic, bind_of_ok huniverse, if_pos rfl, bind_of_ok hoffset_read, if_pos hin, htable_read]
    rfl

/-- The keys of the first app with the id, as long as its sections are not too deep; and for any bytes, what is found is
in an entry of its own. -/
theorem findApp_spec {S : Type} [DecidableEq S] (utf8 : Bytes → S) (utf16 : List Nat → S) :
    (∀ apps b, Encoded utf8 utf16 apps b → ∀ appID,
      (apps.find? (fun app ↦ app.record.id == appID) = none → findApp utf8 utf16 b appID = .ok none) ∧
      ∀ app, apps.find? (fun app ↦ app.record.id == appID) = some app → app.fields.height < 64 →
        findApp utf8 utf16 b appID = .ok (some (app.keys utf8))) ∧
    (∀ b appID,
      (∃ e, readHead utf8 b = .error (.thrown e) ∧ findApp utf8 utf16 b appID = .error (.thrown e)) ∨
      ∃ l, readHead utf8 b = .ok l ∧ l.pos ≤ l.entriesEnd ∧ l.entriesEnd ≤ b.length ∧
        SearchFinds utf8 utf16 l.table l.entryHeader appID (slice b l.pos (l.entriesEnd - l.pos))
          (findApp utf8 utf16 b appID)) ∧
    ∀ table body, (∃ keys, bodyKeys utf8 utf16 table body = .ok keys) ∨
      ∃ e, bodyKeys utf8 utf16 table body = .error (.thrown e) := by
  refine ⟨fun apps b h appID ↦ ?_, findApp_any utf8 utf16, fun table body ↦ ?_⟩
  · obtain ⟨table, entryHeader, happs, hfind⟩ := findApp_encoded h appID
    refine ⟨fun hnone ↦ by rw [hfind, hnone], fun app hsome hheight ↦ ?_⟩
    rw [hfind, hsome]
    simp only
    rw [bodyKeys_encodes (happs app (List.mem_of_find?_eq_some hsome)) hheight]
    rfl
  · have hbody : (Cursor.mk body 0 body.length).At body := ⟨Nat.zero_add _, List.prefix_rfl⟩
    obtain ⟨out, hout⟩ := (entryKeys_of_at utf8 utf16 table hbody).2
    rw [hout]
    cases out with
    | error e => exact .inr ⟨e, rfl⟩
    | ok keys => exact .inl ⟨keys, rfl⟩

def keyTable : List Bytes := [ascii "appinfo", ascii "appid", ascii "name"]

/-- A section with a number and a text. -/
def smallFields : KeyValues Bytes :=
  .section (ascii "appinfo") (.number (ascii "appid") 20 (.string (ascii "name") (ascii "x") .done)) .done

def smallBody : Bytes :=
  0x00 :: (leBytes 4 0 ++ ((0x02 :: (leBytes 4 1 ++ (leBytes 4 20 ++
    (0x01 :: (leBytes 4 2 ++ (ascii "x" ++ 0 :: [0x08])))))) ++ [0x08]))

theorem encodes_small (utf16 : List Nat → Bytes) : Encodes id utf16 (some keyTable) smallFields smallBody := by
  have hname : Encodes id utf16 (some keyTable) (.string (ascii "name") (ascii "x") .done) _ :=
    .string ⟨2, by decide, rfl, rfl⟩ (by decide) (.done (.inl rfl))
  have hkey : KeyBytes id (some keyTable) (ascii "appid") (leBytes 4 1) := ⟨1, by decide, rfl, rfl⟩
  have hvalue : (leBytes 4 20).length = 4 := rfl
  have happid : Encodes id utf16 (some keyTable) (.number (ascii "appid") 20 (.string (ascii "name") (ascii "x") .done)) _ :=
    .int32 hkey hvalue hname
  exact .section ⟨0, by decide, rfl, rfl⟩ happid (.done (.inl rfl))

/-- An app without fields, and one with the section. -/
def twoApps : List (App Bytes) :=
  [⟨⟨10, List.replicate 60 0, [0x08], by decide, by decide⟩, .done⟩, ⟨⟨20, List.replicate 60 7, smallBody, by decide, by decide⟩, smallFields⟩]

def twoAppsFile : Bytes :=
  leBytes 4 0x07564429 ++ ([0, 0, 0, 0] ++ (leBytes 8 (16 + (entriesBytes twoApps []).length) ++
    (entriesBytes twoApps [] ++ (leBytes 4 keyTable.length ++ (namesBytes keyTable ++ [])))))

/-- The second app of a file with a table of keys. -/
theorem findApp_spec_second : ∃ keys, findApp id (fun _ ↦ []) twoAppsFile 20 = .ok (some keys) ∧
    keys (ascii "appid") = some (.number 20) ∧ keys (ascii "name") = some (.string (ascii "x")) := by
  have hfile : Encoded id (fun _ ↦ []) twoApps twoAppsFile := by
    have hlength : (entriesBytes twoApps []).length = 164 := rfl
    refine .v29 rfl (by decide) (by decide) (by rw [hlength]; norm_num) ?_
    intro app happ
    obtain rfl | happ := List.mem_cons.mp happ
    · exact ⟨by decide, by decide, .done (.inl rfl)⟩
    · rw [List.mem_singleton.mp happ]
      exact ⟨by decide, by decide, encodes_small _⟩
  exact ⟨_, ((findApp_spec id fun _ ↦ []).1 twoApps twoAppsFile hfile 20).2 _ rfl (by decide), rfl, rfl⟩

/-- Sections of the key `a` inside one another. -/
def nested : Nat → KeyValues Bytes
  | 0 => .done
  | n + 1 => .section (ascii "a") (nested n) .done

def nestedBytes : Nat → Bytes
  | 0 => [0x08]
  | n + 1 => 0x00 :: ((ascii "a" ++ [0]) ++ (nestedBytes n ++ [0x08]))

theorem encodes_nested (utf16 : List Nat → Bytes) (n : Nat) : Encodes id utf16 none (nested n) (nestedBytes n) := by
  induction n with
  | zero => exact .done (.inl rfl)
  | succ n ih => exact .section ⟨ascii "a", by decide, rfl, rfl⟩ ih (.done (.inl rfl))

def deepApp : App Bytes :=
  ⟨⟨1, List.replicate 40 0, nestedBytes 64, by decide, by decide +kernel⟩, nested 64⟩

def deepFile : Bytes := leBytes 4 0x07564427 ++ ([0, 0, 0, 0] ++ entriesBytes [deepApp] [])

/-- The only app of a file is refused when its sections are 64 deep. -/
theorem findApp_deep : Encoded id (fun _ ↦ []) [deepApp] deepFile ∧
    ¬∃ keys, findApp id (fun _ ↦ []) deepFile 1 = .ok (some keys) := by
  constructor
  · refine .v27 rfl (List.forall_mem_singleton.mpr ⟨by decide, rfl, encodes_nested _ 64⟩)
  · rintro ⟨keys, h⟩
    have hok : (findApp id (fun _ ↦ []) deepFile 1).isOk = false := by decide +kernel
    rw [h] at hok
    exact Bool.noConfusion hok

end

end NotProton.SteamFiles
