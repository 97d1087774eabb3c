import NotProton.Library.Uleb

/-! Protocol buffers on the wire: fields one after another, each a tag and a number or a counted text. -/

namespace NotProton.Library

/-- The number at the front of a text, and what follows it. -/
def readUleb : Bytes → Option (Nat × Bytes)
  | [] => none
  | b :: s =>
    if b.toNat < 128 then some (b.toNat, s)
    else (readUleb s).map fun r ↦ (b.toNat - 128 + 128 * r.1, r.2)

theorem readUleb_append {s rest : Bytes} {n : Nat} (h : readUleb s = some (n, rest)) (t : Bytes) :
    readUleb (s ++ t) = some (n, rest ++ t) := by
  induction s generalizing n with
  | nil => cases h
  | cons b s ih =>
    rw [readUleb] at h
    rw [List.cons_append, readUleb]
    split_ifs at h ⊢ with hlast
    · obtain ⟨rfl, rfl⟩ := Prod.mk.inj (Option.some.inj h)
      rfl
    · obtain ⟨r, hr, heq⟩ := Option.map_eq_some_iff.mp h
      obtain ⟨rfl, rfl⟩ := Prod.mk.inj heq
      rw [ih hr]
      rfl

theorem readUleb_length {s rest : Bytes} {n : Nat} (h : readUleb s = some (n, rest)) : rest.length < s.length := by
  induction s generalizing n with
  | nil => cases h
  | cons b s ih =>
    rw [readUleb] at h
    split_ifs at h with hlast
    · obtain ⟨-, rfl⟩ := Prod.mk.inj (Option.some.inj h)
      exact Nat.lt_succ_self _
    · obtain ⟨r, hr, heq⟩ := Option.map_eq_some_iff.mp h
      obtain ⟨-, rfl⟩ := Prod.mk.inj heq
      exact Nat.lt_succ_of_lt (ih hr)

theorem readUleb_uleb (n : Nat) (rest : Bytes) : readUleb (uleb n ++ rest) = some (n, rest) := by
  fun_induction uleb n with
  | case1 n hlt =>
    have hbyte : (UInt8.ofNat n).toNat = n := by rw [UInt8.toNat_ofNat']; omega
    rw [List.singleton_append, readUleb, hbyte, if_pos hlt]
  | case2 n hge ih =>
    have hbyte : (UInt8.ofNat (n % 128 + 128)).toNat = n % 128 + 128 := by rw [UInt8.toNat_ofNat']; omega
    rw [List.cons_append, readUleb, hbyte, if_neg (by omega), ih, Option.map_some, Nat.add_sub_cancel, Nat.mod_add_div]

/-! ## Fields -/

inductive WireValue
  | varint (n : Nat)
  | blob (s : Bytes)
  deriving DecidableEq

structure WireField where
  number : Nat
  value : WireValue
  deriving DecidableEq

def WireField.bytes (f : WireField) : Bytes :=
  match f.value with
  | .varint n => uleb (f.number * 8) ++ uleb n
  | .blob s => uleb (f.number * 8 + 2) ++ (uleb s.length ++ s)

/-- The field at the front of a text, and what follows it. -/
def readField (s : Bytes) : Option (WireField × Bytes) :=
  (readUleb s).bind fun tag ↦
    (readUleb tag.2).bind fun n ↦
      if tag.1 % 8 = 0 then some (⟨tag.1 / 8, .varint n.1⟩, n.2)
      else if tag.1 % 8 = 2 ∧ n.1 ≤ n.2.length then some (⟨tag.1 / 8, .blob (n.2.take n.1)⟩, n.2.drop n.1)
      else none

theorem readField_some {s rest : Bytes} {f : WireField} (h : readField s = some (f, rest)) :
    ∃ tag s₁ n s₂, readUleb s = some (tag, s₁) ∧ readUleb s₁ = some (n, s₂) ∧
      ((tag % 8 = 0 ∧ f = ⟨tag / 8, .varint n⟩ ∧ rest = s₂) ∨
        (tag % 8 = 2 ∧ n ≤ s₂.length ∧ f = ⟨tag / 8, .blob (s₂.take n)⟩ ∧ rest = s₂.drop n)) := by
  obtain ⟨⟨tag, s₁⟩, htag, h⟩ := Option.bind_eq_some_iff.mp h
  obtain ⟨⟨n, s₂⟩, hn, h⟩ := Option.bind_eq_some_iff.mp h
  refine ⟨tag, s₁, n, s₂, htag, hn, ?_⟩
  dsimp only at h
  split_ifs at h with hzero htwo
  · obtain ⟨rfl, rfl⟩ := Prod.mk.inj (Option.some.inj h)
    exact .inl ⟨hzero, rfl, rfl⟩
  · obtain ⟨rfl, rfl⟩ := Prod.mk.inj (Option.some.inj h)
    exact .inr ⟨htwo.1, htwo.2, rfl, rfl⟩

theorem readField_length {s rest : Bytes} {f : WireField} (h : readField s = some (f, rest)) :
    rest.length < s.length := by
  obtain ⟨tag, s₁, n, s₂, htag, hn, hrest⟩ := readField_some h
  have hlen := Nat.lt_trans (readUleb_length hn) (readUleb_length htag)
  obtain ⟨-, -, rfl⟩ | ⟨-, -, -, rfl⟩ := hrest
  · exact hlen
  · rw [List.length_drop]
    omega

/-- A field is read the same whatever follows it. -/
theorem readField_append {s rest : Bytes} {f : WireField} (h : readField s = some (f, rest)) (t : Bytes) :
    readField (s ++ t) = some (f, rest ++ t) := by
  obtain ⟨tag, s₁, n, s₂, htag, hn, hrest⟩ := readField_some h
  rw [readField, readUleb_append htag t, Option.bind_some, readUleb_append hn t, Option.bind_some]
  obtain ⟨hzero, rfl, rfl⟩ | ⟨htwo, hle, rfl, rfl⟩ := hrest
  · rw [if_pos hzero]
  · rw [if_neg (by omega), if_pos ⟨htwo, by rw [List.length_append]; omega⟩, List.take_append_of_le_length hle,
      List.drop_append_of_le_length hle]

theorem readField_bytes (f : WireField) (rest : Bytes) : readField (f.bytes ++ rest) = some (f, rest) := by
  obtain ⟨number, value⟩ := f
  cases value with
  | varint n =>
    have hzero : number * 8 % 8 = 0 := by omega
    have hnumber : number * 8 / 8 = number := by omega
    rw [WireField.bytes, List.append_assoc, readField, readUleb_uleb, Option.bind_some, readUleb_uleb,
      Option.bind_some, if_pos hzero, hnumber]
  | blob s =>
    have htwo : (number * 8 + 2) % 8 = 2 := by omega
    have hnumber : (number * 8 + 2) / 8 = number := by omega
    rw [WireField.bytes, List.append_assoc, List.append_assoc, readField, readUleb_uleb, Option.bind_some,
      readUleb_uleb, Option.bind_some, if_neg (by omega), if_pos ⟨htwo, by rw [List.length_append]; omega⟩, hnumber,
      List.take_left, List.drop_left]

/-- All the fields of a message. -/
def readFields (s : Bytes) : Option (List WireField) :=
  if s = [] then some []
  else
    match _h : readField s with
    | none => none
    | some (f, rest) => (readFields rest).map (f :: ·)
termination_by s.length
decreasing_by exact readField_length _h

theorem readFields_nil : readFields [] = some [] := by
  rw [readFields, if_pos rfl]

theorem readFields_some {s rest : Bytes} {f : WireField} (h : readField s = some (f, rest)) :
    readFields s = (readFields rest).map (f :: ·) := by
  have hne : s ≠ [] := by
    rintro rfl
    cases h
  rw [readFields, if_neg hne]
  split
  · rename_i hnone
    rw [hnone] at h
    cases h
  · rename_i f' rest' hsome
    rw [hsome] at h
    obtain ⟨rfl, rfl⟩ := Prod.mk.inj (Option.some.inj h)
    rfl

theorem readFields_none {s : Bytes} (hne : s ≠ []) (h : readField s = none) : readFields s = none := by
  rw [readFields, if_neg hne]
  split
  · rfl
  · rename_i hsome
    rw [hsome] at h
    cases h

/-- Fields are read the same whatever follows them. -/
theorem readFields_append {s : Bytes} {fs : List WireField} (h : readFields s = some fs) (t : Bytes) :
    readFields (s ++ t) = (readFields t).map (fs ++ ·) := by
  induction fs generalizing s with
  | nil =>
    by_cases hne : s = []
    · simp [hne]
    · cases hfield : readField s with
      | none =>
        rw [readFields_none hne hfield] at h
        cases h
      | some r =>
        rw [readFields_some hfield] at h
        obtain ⟨_, -, heq⟩ := Option.map_eq_some_iff.mp h
        cases heq
  | cons f fs ih =>
    have hne : s ≠ [] := by
      rintro rfl
      rw [readFields_nil] at h
      cases h
    cases hfield : readField s with
    | none =>
      rw [readFields_none hne hfield] at h
      cases h
    | some r =>
      rw [readFields_some hfield] at h
      obtain ⟨_, hrest, heq⟩ := Option.map_eq_some_iff.mp h
      obtain ⟨rfl, rfl⟩ := List.cons.inj heq
      rw [readFields_some (readField_append hfield t), ih hrest, Option.map_map]
      rfl

theorem readFields_bytes (fs : List WireField) : readFields (fs.flatMap WireField.bytes) = some fs := by
  induction fs with
  | nil => exact readFields_nil
  | cons f fs ih =>
    rw [List.flatMap_cons, readFields_some (readField_bytes f _), ih]
    rfl

/-- A message that breaks off lacks the fields after the break, if it can be read at all. -/
theorem readFields_prefix {fs fs' : List WireField} {s : Bytes} (hs : s <+: fs.flatMap WireField.bytes)
    (h : readFields s = some fs') : ∃ gs, fs = fs' ++ gs ∧ (s = fs.flatMap WireField.bytes ↔ gs = []) := by
  obtain ⟨t, ht⟩ := hs
  have hall := readFields_append h t
  rw [ht, readFields_bytes] at hall
  obtain ⟨gs, hgs, heq⟩ := Option.map_eq_some_iff.mp hall.symm
  refine ⟨gs, heq.symm, ?_⟩
  constructor
  · intro heq'
    have hnil : t = [] := List.append_right_eq_self.mp (ht.trans heq'.symm)
    rw [hnil, readFields_nil] at hgs
    exact (Option.some.inj hgs).symm
  · rintro rfl
    by_cases hnil : t = []
    · rw [← ht, hnil, List.append_nil]
    · cases hfield : readField t with
      | none =>
        rw [readFields_none hnil hfield] at hgs
        cases hgs
      | some r =>
        rw [readFields_some hfield] at hgs
        obtain ⟨_, -, hcons⟩ := Option.map_eq_some_iff.mp hgs
        cases hcons

end NotProton.Library
