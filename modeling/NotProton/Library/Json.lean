import NotProton.Library.Numeral

/-!
# Json — the text of an object whose members are numbers, strings and truth values

Strings are the bytes they stand for.  The reader takes no blanks between the tokens and no sign, fraction or exponent,
so what it accepts is JSON.
-/

namespace NotProton.Library

inductive JsonScalar
  | bool (b : Bool)
  | number (n : Nat)
  | string (s : Bytes)
  deriving DecidableEq

abbrev JsonMember := Bytes × JsonScalar

/-! ## Printing -/

/-- A character between double quotes. -/
def jsonChar (c : UInt8) : Bytes :=
  if c = 34 ∨ c = 92 then [92, c] else if c < 32 then ascii "\\u00" ++ hexByte c else [c]

def jsonQuote (s : Bytes) : Bytes := 34 :: (s.flatMap jsonChar ++ [34])

def JsonScalar.print : JsonScalar → Bytes
  | .bool true => ascii "true"
  | .bool false => ascii "false"
  | .number n => decimal n
  | .string s => jsonQuote s

def JsonMember.print (m : JsonMember) : Bytes := jsonQuote m.1 ++ 58 :: m.2.print

def printMembers : List JsonMember → Bytes
  | [] => []
  | m :: ms => m.print ++ ms.flatMap fun m ↦ 44 :: m.print

def printObject (ms : List JsonMember) : Bytes := 123 :: (printMembers ms ++ [125])

/-! ## Reading -/

def hexValue (c : UInt8) : Option Nat :=
  if isDigit c then some (c.toNat - 48)
  else if 97 ≤ c ∧ c ≤ 102 then some (c.toNat - 87)
  else if 65 ≤ c ∧ c ≤ 70 then some (c.toNat - 55)
  else none

/-- The bytes of a character by its four digits.  Half of a surrogate pair is refused. -/
def readUnit (a b c d : UInt8) : Option Bytes := do
  let n := 4096 * (← hexValue a) + 256 * (← hexValue b) + 16 * (← hexValue c) + (← hexValue d)
  if n < 0x80 then some [UInt8.ofNat n]
  else if n < 0x800 then some [UInt8.ofNat (0xc0 + n / 64), UInt8.ofNat (0x80 + n % 64)]
  else if 0xd800 ≤ n ∧ n < 0xe000 then none
  else some [UInt8.ofNat (0xe0 + n / 4096), UInt8.ofNat (0x80 + n / 64 % 64), UInt8.ofNat (0x80 + n % 64)]

/-- A character behind a backslash. -/
def readEscape (c : UInt8) : Option UInt8 :=
  if c = 34 ∨ c = 92 ∨ c = 47 then some c
  else if c = 98 then some 8
  else if c = 102 then some 12
  else if c = 110 then some 10
  else if c = 114 then some 13
  else if c = 116 then some 9
  else none

/-- The text of a string and what follows its closing quote. -/
def readJsonString : Bytes → Option (Bytes × Bytes)
  | [] => none
  | 34 :: s => some ([], s)
  | 92 :: 117 :: a :: b :: c :: d :: s => do
      let text ← readUnit a b c d
      (readJsonString s).map fun r ↦ (text ++ r.1, r.2)
  | 92 :: c :: s => do
      let c ← readEscape c
      (readJsonString s).map fun r ↦ (c :: r.1, r.2)
  | c :: s => if c < 32 then none else (readJsonString s).map fun r ↦ (c :: r.1, r.2)

def readNumber (s : Bytes) : Option (Nat × Bytes) :=
  let digits := s.takeWhile isDigit
  if digits = [] ∨ (digits.head? = some 48 ∧ digits.length ≠ 1) then none
  else some (numeral 10 digits, s.dropWhile isDigit)

def readScalar : Bytes → Option (JsonScalar × Bytes)
  | 34 :: s => (readJsonString s).map fun r ↦ (.string r.1, r.2)
  | 116 :: 114 :: 117 :: 101 :: s => some (.bool true, s)
  | 102 :: 97 :: 108 :: 115 :: 101 :: s => some (.bool false, s)
  | s => (readNumber s).map fun r ↦ (.number r.1, r.2)

/-- Members up to the closing brace, and what follows it. -/
def readMembers : Nat → Bytes → Option (List JsonMember × Bytes)
  | n + 1, 34 :: s =>
      match readJsonString s with
      | some (key, 58 :: s) =>
          match readScalar s with
          | some (value, 125 :: s) => some ([(key, value)], s)
          | some (value, 44 :: s) => (readMembers n s).map fun r ↦ ((key, value) :: r.1, r.2)
          | _ => none
      | _ => none
  | _, _ => none

/-- The members of the object a text is, if it is one from end to end. -/
def parseObject : Bytes → Option (List JsonMember)
  | [123, 125] => some []
  | 123 :: s =>
      match readMembers s.length s with
      | some (ms, []) => some ms
      | _ => none
  | _ => none

/-! ## Reading back what was printed -/

theorem readUnit_hexByte {c : UInt8} (h : c < 32) :
    readUnit 48 48 (hexDigit (c.toNat / 16)) (hexDigit (c.toNat % 16)) = some [c] := by
  have hall : ∀ n < 32, readUnit 48 48 (hexDigit (n / 16)) (hexDigit (n % 16)) = some [UInt8.ofNat n] := by decide
  have hc := hall c.toNat (UInt8.lt_iff_toNat_lt.mp h)
  rwa [UInt8.ofNat_toNat] at hc

theorem readJsonString_char (c : UInt8) (s : Bytes) :
    readJsonString (jsonChar c ++ s) = (readJsonString s).map fun r ↦ (c :: r.1, r.2) := by
  unfold jsonChar
  split
  next hescaped =>
    have hc : c ≠ 117 := by
      rintro rfl
      exact absurd hescaped (by decide)
    have hread : readEscape c = some c := by
      rw [readEscape, if_pos (or_assoc.mp (Or.inl hescaped))]
    show readJsonString (92 :: c :: s) = _
    rw [readJsonString, hread]
    · rfl
    · intro a b c' d s' h
      exact absurd h hc
  next hplain =>
    split
    next hlow =>
      show readJsonString (92 :: 117 :: 48 :: 48 :: hexDigit (c.toNat / 16) :: hexDigit (c.toNat % 16) :: s) = _
      rw [readJsonString, readUnit_hexByte hlow]
      rfl
    next hhigh =>
      have h34 : c ≠ 34 := fun h ↦ hplain (Or.inl h)
      have h92 : c ≠ 92 := fun h ↦ hplain (Or.inr h)
      show readJsonString (c :: s) = _
      rw [readJsonString, if_neg hhigh]
      · exact h34
      · intro a b c' d s' h
        exact absurd h h92
      · intro c' s' h
        exact absurd h h92

theorem readJsonString_print (s rest : Bytes) :
    readJsonString (s.flatMap jsonChar ++ 34 :: rest) = some (s, rest) := by
  induction s with
  | nil => rfl
  | cons c s ih => rw [List.flatMap_cons, List.append_assoc, readJsonString_char, ih, Option.map_some]

theorem readNumber_decimal (n : Nat) {c : UInt8} (hc : isDigit c = false) (rest : Bytes) :
    readNumber (decimal n ++ c :: rest) = some (n, c :: rest) := by
  have hc : ¬isDigit c = true := by rw [hc]; exact Bool.false_ne_true
  have htake : (decimal n ++ c :: rest).takeWhile isDigit = decimal n := by
    rw [List.takeWhile_append_of_pos fun _ ↦ decimal_isDigit, List.takeWhile_cons_of_neg hc, List.append_nil]
  have hdrop : (decimal n ++ c :: rest).dropWhile isDigit = c :: rest := by
    rw [List.dropWhile_append_of_pos fun _ ↦ decimal_isDigit, List.dropWhile_cons_of_neg hc]
  have hform : ¬(decimal n = [] ∨ (decimal n).head? = some 48 ∧ (decimal n).length ≠ 1) := by
    rintro (hnil | ⟨hzero, hlength⟩)
    · exact decimal_ne_nil n hnil
    · rw [decimal_head hzero] at hlength
      exact hlength rfl
  unfold readNumber
  simp only [htake, hdrop]
  rw [if_neg hform, numeral_decimal]

/-- The character behind a member ends a number. -/
theorem readScalar_print (v : JsonScalar) {c : UInt8} (hc : isDigit c = false) (rest : Bytes) :
    readScalar (v.print ++ c :: rest) = some (v, c :: rest) := by
  cases v with
  | bool b => cases b <;> rfl
  | string s =>
    show readScalar (34 :: (s.flatMap jsonChar ++ [34] ++ c :: rest)) = _
    rw [List.append_assoc, List.singleton_append, readScalar, readJsonString_print, Option.map_some]
  | number n =>
    rw [JsonScalar.print]
    have hread := readNumber_decimal n hc rest
    obtain ⟨d, s, hds⟩ := List.exists_cons_of_ne_nil (decimal_ne_nil n)
    have hd : isDigit d = true := decimal_isDigit (by rw [hds]; exact List.mem_cons_self)
    rw [hds, List.cons_append] at hread ⊢
    rw [readScalar, hread, Option.map_some]
    · intro s' h
      rw [(List.cons.inj h).1] at hd
      exact absurd hd (by decide)
    · intro s' h
      rw [(List.cons.inj h).1] at hd
      exact absurd hd (by decide)
    · intro s' h
      rw [(List.cons.inj h).1] at hd
      exact absurd hd (by decide)

theorem printMembers_cons (m : JsonMember) (ms : List JsonMember) :
    printMembers (m :: ms) = m.print ++ if ms = [] then [] else 44 :: printMembers ms := by
  cases ms with
  | nil => rw [if_pos rfl, printMembers, List.flatMap_nil]
  | cons m' ms => rw [if_neg (List.cons_ne_nil m' ms)]; rfl

theorem readMembers_print {ms : List JsonMember} {n : Nat} (hne : ms ≠ []) (hn : ms.length ≤ n) (rest : Bytes) :
    readMembers n (printMembers ms ++ 125 :: rest) = some (ms, rest) := by
  induction ms generalizing n with
  | nil => exact absurd rfl hne
  | cons m ms ih =>
    obtain ⟨key, value⟩ := m
    match n with
    | 0 => exact absurd hn (by rw [List.length_cons]; omega)
    | n + 1 =>
      rw [printMembers_cons]
      show readMembers (n + 1) (34 :: (key.flatMap jsonChar ++ [34]) ++ 58 :: value.print ++ _ ++ _) = _
      simp only [List.cons_append, List.append_assoc, List.nil_append]
      rw [readMembers, readJsonString_print]
      simp only
      by_cases hms : ms = []
      · subst hms
        rw [if_pos rfl, List.nil_append, readScalar_print value (by decide)]
        rfl
      · rw [if_neg hms, List.cons_append, readScalar_print value (by decide)]
        simp only
        rw [ih hms (by rw [List.length_cons] at hn; omega), Option.map_some]

theorem length_le_printMembers (ms : List JsonMember) : ms.length ≤ (printMembers ms).length := by
  induction ms with
  | nil => exact Nat.zero_le _
  | cons m ms ih =>
    have hm : 0 < m.print.length := Nat.succ_pos _
    rw [printMembers_cons, List.length_cons, List.length_append]
    split
    next hms =>
      rw [hms, List.length_nil, List.length_nil]
      omega
    next =>
      rw [List.length_cons]
      omega

/-- A printed object reads back as its members. -/
theorem parseObject_print (ms : List JsonMember) : parseObject (printObject ms) = some ms := by
  cases ms with
  | nil => rfl
  | cons m ms =>
    have hfuel : (m :: ms).length ≤ (printMembers (m :: ms) ++ [125]).length := by
      rw [List.length_append]
      exact (length_le_printMembers _).trans (Nat.le_add_right _ _)
    rw [printObject, parseObject, readMembers_print (List.cons_ne_nil m ms) hfuel]
    intro h
    cases h

/-! ## Printed texts as C strings -/

theorem zero_notMem_jsonQuote (s : Bytes) : 0 ∉ jsonQuote s := by
  have hchar : ∀ c, (0 : UInt8) ∉ jsonChar c := forall_byte (by decide +kernel)
  rw [jsonQuote, List.mem_cons, List.mem_append, List.mem_flatMap, not_or, not_or]
  exact ⟨by decide, fun ⟨c, _, hc⟩ ↦ hchar c hc, by decide⟩

theorem zero_notMem_member (m : JsonMember) : 0 ∉ m.print := by
  obtain ⟨key, value⟩ := m
  have hvalue : 0 ∉ value.print := by
    cases value with
    | bool b => cases b <;> decide
    | number n => exact fun h ↦ absurd (decimal_isDigit h) (by decide)
    | string s => exact zero_notMem_jsonQuote s
  rw [JsonMember.print, List.mem_append, List.mem_cons, not_or, not_or]
  exact ⟨zero_notMem_jsonQuote key, by decide, hvalue⟩

theorem zero_notMem_printObject (ms : List JsonMember) : 0 ∉ printObject ms := by
  have hmembers : 0 ∉ printMembers ms := by
    cases ms with
    | nil => exact List.not_mem_nil
    | cons m ms =>
      rw [printMembers, List.mem_append, List.mem_flatMap, not_or]
      refine ⟨zero_notMem_member m, ?_⟩
      rintro ⟨m', -, hm'⟩
      exact (List.mem_cons.mp hm').elim (by decide) (zero_notMem_member m')
  rw [printObject, List.mem_cons, List.mem_append, not_or, not_or]
  exact ⟨by decide, hmembers, by decide⟩

theorem jsonQuote_length_le (s : Bytes) : (jsonQuote s).length ≤ 6 * s.length + 2 := by
  have hchar : ∀ c, (jsonChar c).length ≤ 6 := forall_byte (by decide +kernel)
  have htext : (s.flatMap jsonChar).length ≤ 6 * s.length := by
    induction s with
    | nil => exact Nat.zero_le _
    | cons c s ih =>
      have hc := hchar c
      rw [List.flatMap_cons, List.length_append, List.length_cons]
      omega
  rw [jsonQuote, List.length_cons, List.length_append, List.length_singleton]
  omega

theorem printMembers_length_le {ms : List JsonMember} {n : Nat} (h : ∀ m ∈ ms, m.print.length ≤ n) :
    (printMembers ms).length ≤ ms.length * (n + 1) := by
  induction ms with
  | nil => exact Nat.zero_le _
  | cons m ms ih =>
    have hm := h m List.mem_cons_self
    have hms := ih fun m' hm' ↦ h m' (List.mem_cons_of_mem _ hm')
    rw [printMembers_cons, List.length_append, List.length_cons, Nat.succ_mul]
    split
    next =>
      rw [List.length_nil]
      omega
    next =>
      rw [List.length_cons]
      omega

end NotProton.Library
