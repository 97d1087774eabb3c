import NotProton.Library.Lists
import NotProton.Library.LittleEndian

/-!
# Shortcuts — the two readers of `shortcuts.vdf` (`PrefixStore.swift`, `GameTiles.swift`)

A map of Steam's binary KeyValues is a run of fields, each a type byte, a key and a value, up to the byte 8.  One
reader walks the nested maps, the other looks for the bytes of an `appid` field.  Outside the data both would trap: the
outer `none` of the results here.
-/

open NotProton.Library

namespace NotProton.SteamFiles

/-- `bytes[start..<fin]` -/
def slice (bytes : Bytes) (start fin : Nat) : Option Bytes :=
  if start ≤ fin ∧ fin ≤ bytes.length then some ((bytes.drop start).take (fin - start)) else none

/-- `cString`: the string with the offset behind its NUL, or that there is no NUL. -/
def cStringAt (bytes : Bytes) (offset : Nat) : Option (Option (Bytes × Nat)) :=
  match slice bytes offset bytes.length with
  | none => none
  | some rest =>
      match rest.idxOf? 0 with
      | none => some none
      | some k => some (some (rest.take k, offset + k + 1))

/-- A key in lower case is this word, of ASCII letters that no other character has for its lower case. -/
def KeyIs (word : String) (key : Bytes) : Bool := key.map toLower == ascii word

/-- What `shortcutNames` changes: the offset and the names, the last one first. -/
structure Reader where
  offset : Nat
  names : List (Nat × Bytes)

def record (appID : Option Nat) (appName : Option Bytes) (names : List (Nat × Bytes)) : List (Nat × Bytes) :=
  match appID, appName with
  | some id, some name => if name = [] then names else (id, name) :: names
  | _, _ => names

/-- The size of a value that is skipped. -/
def skipSize (type : UInt8) : Option Nat :=
  if type = 0x03 ∨ type = 0x04 ∨ type = 0x06 then some 4
  else if type = 0x07 ∨ type = 0x0a then some 8
  else none

/-- The value of a field in `map(depth:)`, with the map itself for what follows. -/
def mapValue (bytes : Bytes) (map : Nat → Option Nat → Option Bytes → Reader → Option (Bool × Reader)) (type : UInt8)
    (key : Bytes) (depth : Nat) (appID : Option Nat) (appName : Option Bytes) (r : Reader) : Option (Bool × Reader) :=
  if type = 0x00 then
    if depth + 1 < 16 then
      match map (depth + 1) none none r with
      | none => none
      | some (false, r) => some (false, r)
      | some (true, r) => map depth appID appName r
    else some (false, r)
  else if type = 0x01 then
    match cStringAt bytes r.offset with
    | none => none
    | some none => some (false, r)
    | some (some (value, offset)) =>
        map depth appID (if KeyIs "appname" key then some value else appName) { r with offset := offset }
  else if type = 0x02 then
    if bytes.length - r.offset < 4 then some (false, r)
    else
      match slice bytes r.offset (r.offset + 4) with
      | none => none
      | some value =>
          map depth (if KeyIs "appid" key then some (leNat value) else appID) appName
            { r with offset := r.offset + 4 }
  else
    match skipSize type with
    | none => some (false, r)
    | some count =>
        if bytes.length - r.offset < count then some (false, r)
        else map depth appID appName { r with offset := r.offset + count }

/-- The loop of `map(depth:)`; it returns whether the map could be read. -/
def mapLoop (bytes : Bytes) : Nat → Nat → Option Nat → Option Bytes → Reader → Option (Bool × Reader)
  | 0, _, _, _, _ => none
  | fuel + 1, depth, appID, appName, r =>
      if bytes.length ≤ r.offset then some (true, { r with names := record appID appName r.names })
      else
        match bytes[r.offset]? with
        | none => none
        | some type =>
            let r := { r with offset := r.offset + 1 }
            if type = 0x08 then some (true, { r with names := record appID appName r.names })
            else
              match cStringAt bytes r.offset with
              | none => none
              | some none => some (false, r)
              | some (some (key, offset)) =>
                  mapValue bytes (mapLoop bytes fuel) type key depth appID appName { r with offset := offset }

/-- `shortcutNames(vdf:)`, an app id with its name for each of its numbers. -/
def shortcutNames (bytes : Bytes) : Option (List (Nat × Bytes)) :=
  (mapLoop bytes (bytes.length + 1) 0 none none ⟨0, []⟩).map fun result ↦ result.2.names

/-- The five letters of `appid`, in either case. -/
def isAppidField (field : Bytes) : Bool := (field.zip (ascii "appid")).all fun p ↦ p.1 ||| 0x20 == p.2

/-- The scan of one account's file in `shortcutIDs`. -/
def scanLoop (bytes : Bytes) (i : Nat) (found : List Nat) : Option (List Nat) :=
  if i + 5 + 6 ≤ bytes.length then
    match slice bytes (i + 1) (i + 5 + 1), bytes[i]?, bytes[i + 5 + 1]? with
    | some field, some type, some nul =>
        if type = 2 ∧ nul = 0 ∧ isAppidField field then
          let start := i + 5 + 2
          match slice bytes start (start + 4) with
          | none => none
          | some value => scanLoop bytes (start + 4) (leNat value :: found)
        else scanLoop bytes (i + 1) found
    | _, _, _ => none
  else some found
termination_by bytes.length - i

def shortcutIDs (bytes : Bytes) : Option (List Nat) := scanLoop bytes 0 []

/-! ## Maps -/

/-- The fields of a map. -/
inductive Fields
  | done
  | map (key : Bytes) (inner rest : Fields)
  | string (key value : Bytes) (rest : Fields)
  | int32 (key value : Bytes) (rest : Fields)
  | skipped (type : UInt8) (key value : Bytes) (rest : Fields)

/-- Bytes read in full as the fields of one map, and what is left behind it.  The end of the data ends every map. -/
inductive Reads : Bytes → Fields → Bytes → Prop
  | eof : Reads [] .done []
  | close {t} : Reads (8 :: t) .done t
  | map {key s inner t rest u} (hkey : 0 ∉ key) (hinner : Reads s inner t) (hrest : Reads t rest u) :
      Reads (0 :: (key ++ 0 :: s)) (.map key inner rest) u
  | string {key value s rest t} (hkey : 0 ∉ key) (hvalue : 0 ∉ value) (hrest : Reads s rest t) :
      Reads (1 :: (key ++ 0 :: (value ++ 0 :: s))) (.string key value rest) t
  | int32 {key value s rest t} (hkey : 0 ∉ key) (hvalue : value.length = 4) (hrest : Reads s rest t) :
      Reads (2 :: (key ++ 0 :: (value ++ s))) (.int32 key value rest) t
  | skipped {type key value s rest t} (hkey : 0 ∉ key) (hvalue : skipSize type = some value.length)
      (hrest : Reads s rest t) : Reads (type :: (key ++ 0 :: (value ++ s))) (.skipped type key value rest) t

namespace Fields

/-- The fields with the byte that closes their map. -/
def encode : Fields → Bytes
  | done => [8]
  | map key inner rest => 0 :: (key ++ 0 :: (inner.encode ++ rest.encode))
  | string key value rest => 1 :: (key ++ 0 :: (value ++ 0 :: rest.encode))
  | int32 key value rest => 2 :: (key ++ 0 :: (value ++ rest.encode))
  | skipped type key value rest => type :: (key ++ 0 :: (value ++ rest.encode))

/-- The last app id of the map itself, unless there is none. -/
def idFrom (appID : Option Nat) : Fields → Option Nat
  | done => appID
  | map _ _ rest => rest.idFrom appID
  | string _ _ rest => rest.idFrom appID
  | int32 key value rest => rest.idFrom (if KeyIs "appid" key then some (leNat value) else appID)
  | skipped _ _ _ rest => rest.idFrom appID

def nameFrom (appName : Option Bytes) : Fields → Option Bytes
  | done => appName
  | map _ _ rest => rest.nameFrom appName
  | string key value rest => rest.nameFrom (if KeyIs "appname" key then some value else appName)
  | int32 _ _ rest => rest.nameFrom appName
  | skipped _ _ _ rest => rest.nameFrom appName

/-- What a walk over the map and those in it records. -/
def collect (appID : Option Nat) (appName : Option Bytes) (names : List (Nat × Bytes)) : Fields → List (Nat × Bytes)
  | done => record appID appName names
  | map _ inner rest => rest.collect appID appName (inner.collect none none names)
  | string key value rest => rest.collect appID (if KeyIs "appname" key then some value else appName) names
  | int32 key value rest => rest.collect (if KeyIs "appid" key then some (leNat value) else appID) appName names
  | skipped _ _ _ rest => rest.collect appID appName names

/-- How deep maps lie in it. -/
def height : Fields → Nat
  | done => 0
  | map _ inner rest => max (inner.height + 1) rest.height
  | string _ _ rest => rest.height
  | int32 _ _ rest => rest.height
  | skipped _ _ _ rest => rest.height

/-- The app ids of the map and of those in it, in the order of the bytes. -/
def appids : Fields → List Nat
  | done => []
  | map _ inner rest => inner.appids ++ rest.appids
  | string _ _ rest => rest.appids
  | int32 key value rest => if KeyIs "appid" key then leNat value :: rest.appids else rest.appids
  | skipped _ _ _ rest => rest.appids

/-- Steam's own fields: strings and keys without NUL and without the byte 2, and values of four bytes. -/
def Plain : Fields → Prop
  | done => True
  | map key inner rest => (0 ∉ key ∧ 2 ∉ key) ∧ inner.Plain ∧ rest.Plain
  | string key value rest => (0 ∉ key ∧ 2 ∉ key) ∧ (0 ∉ value ∧ 2 ∉ value) ∧ rest.Plain
  | int32 key value rest => (0 ∉ key ∧ 2 ∉ key) ∧ value.length = 4 ∧ rest.Plain
  | skipped type key value rest =>
      (0 ∉ key ∧ 2 ∉ key) ∧ (skipSize type = some 4 ∧ value.length = 4) ∧ rest.Plain

end Fields

/-- A pair with both its fields in one map that was read in full. -/
def ReadInFull (bytes : Bytes) (p : Nat × Bytes) : Prop :=
  ∃ s fs t, s <:+ bytes ∧ Reads s fs t ∧ fs.idFrom none = some p.1 ∧ fs.nameFrom none = some p.2 ∧ p.2 ≠ []

/-! ## Reading at a place -/

section

variable {bytes : Bytes}

theorem drop_at {s : Bytes} (h : s <:+ bytes) : bytes.drop (bytes.length - s.length) = s :=
  (List.suffix_iff_eq_drop.mp h).symm

/-- The reader in front of `s`, a piece at the end of the data. -/
def Reader.before (bytes s : Bytes) (names : List (Nat × Bytes)) : Reader := ⟨bytes.length - s.length, names⟩

theorem getElem?_at {b : UInt8} {s : Bytes} (h : b :: s <:+ bytes) :
    bytes[bytes.length - (b :: s).length]? = some b := by
  have hdrop := drop_at h
  rw [← Nat.add_zero (bytes.length - (b :: s).length), ← List.getElem?_drop, hdrop]
  rfl

theorem slice_at {s t : Bytes} (h : s ++ t <:+ bytes) :
    slice bytes (bytes.length - (s ++ t).length) (bytes.length - t.length) = some s := by
  have hle := h.length_le
  have hdrop := drop_at h
  rw [List.length_append] at hle hdrop ⊢
  have hcount : bytes.length - t.length - (bytes.length - (s.length + t.length)) = s.length := by omega
  rw [slice, if_pos (by omega), hdrop, hcount, List.take_left]

theorem slice_end {s : Bytes} (h : s <:+ bytes) : slice bytes (bytes.length - s.length) bytes.length = some s := by
  have hle := h.length_le
  rw [slice, if_pos (by omega), drop_at h, List.take_of_length_le (by omega)]

theorem idxOf?_nul {s : Bytes} (hs : 0 ∉ s) (t : Bytes) : (s ++ 0 :: t).idxOf? 0 = some s.length := by
  induction s with
  | nil => rfl
  | cons b s ih =>
    rw [List.mem_cons, not_or] at hs
    rw [List.cons_append, List.idxOf?_cons, if_neg (by rw [beq_iff_eq]; exact Ne.symm hs.1), ih hs.2]
    rfl

theorem cStringAt_at {s t : Bytes} (hs : 0 ∉ s) (h : s ++ 0 :: t <:+ bytes) :
    cStringAt bytes (bytes.length - (s ++ 0 :: t).length) = some (some (s, bytes.length - t.length)) := by
  have hle := h.length_le
  rw [cStringAt, slice_end h]
  simp only [idxOf?_nul hs, List.take_left]
  rw [List.length_append, List.length_cons] at hle ⊢
  rw [show bytes.length - (s.length + (t.length + 1)) + s.length + 1 = bytes.length - t.length by omega]

theorem cStringAt_none {s : Bytes} (hs : 0 ∉ s) (h : s <:+ bytes) :
    cStringAt bytes (bytes.length - s.length) = some none := by
  rw [cStringAt, slice_end h]
  simp only [List.idxOf?_eq_none_iff.mpr hs]

/-! ## One field -/

variable {fuel depth : Nat} {appID : Option Nat} {appName : Option Bytes} {names : List (Nat × Bytes)}

theorem mapLoop_eof : mapLoop bytes (fuel + 1) depth appID appName (.before bytes [] names) =
    some (true, .before bytes [] (record appID appName names)) := by
  simp only [mapLoop, Reader.before, List.length_nil, Nat.sub_zero, Nat.le_refl, if_true]

theorem mapLoop_close {s : Bytes} (h : 8 :: s <:+ bytes) :
    mapLoop bytes (fuel + 1) depth appID appName (.before bytes (8 :: s) names) =
      some (true, .before bytes s (record appID appName names)) := by
  have hle := h.length_le
  have hbyte := getElem?_at h
  rw [List.length_cons] at hle hbyte
  simp only [mapLoop, Reader.before, List.length_cons, hbyte]
  rw [if_neg (by omega), if_pos trivial, show bytes.length - (s.length + 1) + 1 = bytes.length - s.length by omega]

/-- A field is its key and then its value. -/
theorem mapLoop_key {type : UInt8} {key s : Bytes} (htype : type ≠ 8) (hkey : 0 ∉ key)
    (h : type :: (key ++ 0 :: s) <:+ bytes) :
    mapLoop bytes (fuel + 1) depth appID appName (.before bytes (type :: (key ++ 0 :: s)) names) =
      mapValue bytes (mapLoop bytes fuel) type key depth appID appName (.before bytes s names) := by
  have hle := h.length_le
  have hbyte := getElem?_at h
  have hstring := cStringAt_at hkey ((List.suffix_cons type _).trans h)
  rw [List.length_cons] at hle hbyte
  simp only [mapLoop, Reader.before, List.length_cons, hbyte]
  rw [if_neg (by omega), if_neg htype,
    show bytes.length - ((key ++ 0 :: s).length + 1) + 1 = bytes.length - (key ++ 0 :: s).length by omega, hstring]

/-- Without a NUL there is no key. -/
theorem mapLoop_endless {type : UInt8} {s : Bytes} (htype : type ≠ 8) (hs : 0 ∉ s) (h : type :: s <:+ bytes) :
    mapLoop bytes (fuel + 1) depth appID appName (.before bytes (type :: s) names) =
      some (false, .before bytes s names) := by
  have hle := h.length_le
  have hbyte := getElem?_at h
  have hstring := cStringAt_none hs ((List.suffix_cons type s).trans h)
  rw [List.length_cons] at hle hbyte
  simp only [mapLoop, Reader.before, List.length_cons, hbyte]
  rw [if_neg (by omega), if_neg htype, show bytes.length - (s.length + 1) + 1 = bytes.length - s.length by omega,
    hstring]

variable {map : Nat → Option Nat → Option Bytes → Reader → Option (Bool × Reader)} {key : Bytes}

theorem mapValue_string {value s : Bytes} (hvalue : 0 ∉ value) (h : value ++ 0 :: s <:+ bytes) :
    mapValue bytes map 1 key depth appID appName (.before bytes (value ++ 0 :: s) names) =
      map depth appID (if KeyIs "appname" key then some value else appName) (.before bytes s names) := by
  have hstring := cStringAt_at hvalue h
  simp only [mapValue, Reader.before, hstring]
  rfl

theorem mapValue_int32 {value s : Bytes} (hvalue : value.length = 4) (h : value ++ s <:+ bytes) :
    mapValue bytes map 2 key depth appID appName (.before bytes (value ++ s) names) =
      map depth (if KeyIs "appid" key then some (leNat value) else appID) appName (.before bytes s names) := by
  have hle := h.length_le
  have hslice := slice_at h
  rw [List.length_append, hvalue] at hle hslice
  simp only [mapValue, Reader.before, List.length_append, hvalue]
  rw [if_neg (by decide), if_neg (by decide), if_pos trivial, if_neg (by omega),
    show bytes.length - (4 + s.length) + 4 = bytes.length - s.length by omega, hslice]

theorem skipSize_ne {type : UInt8} {n : Nat} (h : skipSize type = some n) :
    type ≠ 0 ∧ type ≠ 1 ∧ type ≠ 2 ∧ type ≠ 8 := by
  have hnone : skipSize 0 = none ∧ skipSize 1 = none ∧ skipSize 2 = none ∧ skipSize 8 = none := by decide
  refine ⟨?_, ?_, ?_, ?_⟩ <;> rintro rfl <;> simp [hnone] at h

theorem mapValue_skipped {type : UInt8} {value s : Bytes} (hvalue : skipSize type = some value.length)
    (h : value ++ s <:+ bytes) :
    mapValue bytes map type key depth appID appName (.before bytes (value ++ s) names) =
      map depth appID appName (.before bytes s names) := by
  have hle := h.length_le
  have hne := skipSize_ne hvalue
  rw [List.length_append] at hle
  simp only [mapValue, Reader.before, List.length_append, hvalue]
  rw [if_neg hne.1, if_neg hne.2.1, if_neg hne.2.2.1, if_neg (by omega),
    show bytes.length - (value.length + s.length) + value.length = bytes.length - s.length by omega]

/-! ## A whole map -/

theorem exists_split {s : Bytes} {n : Nat} (h : n ≤ s.length) : ∃ a b, s = a ++ b ∧ a.length = n :=
  ⟨s.take n, s.drop n, (List.take_append_drop n s).symm, List.length_take_of_le h⟩

theorem suffix_value (type : UInt8) (key s : Bytes) : s <:+ type :: (key ++ 0 :: s) :=
  ((List.suffix_cons 0 s).trans (List.suffix_append key _)).trans (List.suffix_cons type _)

theorem length_value (type : UInt8) (key s : Bytes) : (type :: (key ++ 0 :: s)).length = key.length + s.length + 2 := by
  rw [List.length_cons, List.length_append, List.length_cons]
  omega

theorem Reads.suffix {s t : Bytes} {fs : Fields} (h : Reads s fs t) : t <:+ s := by
  induction h with
  | eof => exact List.suffix_refl []
  | close => exact List.suffix_cons 8 _
  | map _ _ _ ihinner ihrest => exact (ihrest.trans ihinner).trans (suffix_value 0 _ _)
  | string _ _ _ ih =>
    exact (ih.trans ((List.suffix_cons 0 _).trans (List.suffix_append _ _))).trans (suffix_value 1 _ _)
  | int32 _ _ _ ih => exact (ih.trans (List.suffix_append _ _)).trans (suffix_value 2 _ _)
  | skipped _ _ _ ih => exact (ih.trans (List.suffix_append _ _)).trans (suffix_value _ _ _)

theorem record_mem {p : Nat × Bytes} (h : p ∈ record appID appName names) :
    p ∈ names ∨ (appID = some p.1 ∧ appName = some p.2 ∧ p.2 ≠ []) := by
  unfold record at h
  split at h
  · split at h
    · exact .inl h
    · obtain rfl | h := List.mem_cons.mp h
      · exact .inr ⟨rfl, rfl, ‹_›⟩
      · exact .inl h
  · exact .inl h

/-- What a walk records was in a map of the data. -/
theorem Reads.collect_mem {s t : Bytes} {fs : Fields} (h : Reads s fs t) (hs : s <:+ bytes) {p : Nat × Bytes}
    (hp : p ∈ fs.collect appID appName names) :
    p ∈ names ∨ ReadInFull bytes p ∨ (fs.idFrom appID = some p.1 ∧ fs.nameFrom appName = some p.2 ∧ p.2 ≠ []) := by
  induction h generalizing appID appName names with
  | eof | close =>
    obtain hp | hp := record_mem hp
    · exact .inl hp
    · exact .inr (.inr hp)
  | map hkey hinner hrest ihinner ihrest =>
    have hsinner := (suffix_value 0 _ _).trans hs
    obtain hp | hp | hp := ihrest (hinner.suffix.trans hsinner) hp
    · obtain hp | hp | hp := ihinner hsinner hp
      · exact .inl hp
      · exact .inr (.inl hp)
      · exact .inr (.inl ⟨_, _, _, hsinner, hinner, hp⟩)
    · exact .inr (.inl hp)
    · exact .inr (.inr hp)
  | string _ _ _ ih =>
    exact ih ((((List.suffix_cons 0 _).trans (List.suffix_append _ _)).trans (suffix_value 1 _ _)).trans hs) hp
  | int32 _ _ _ ih => exact ih (((List.suffix_append _ _).trans (suffix_value 2 _ _)).trans hs) hp
  | skipped _ _ _ ih => exact ih (((List.suffix_append _ _).trans (suffix_value _ _ _)).trans hs) hp

/-- A map that reads in full is read, as long as it is not too deep. -/
theorem mapLoop_reads {s t : Bytes} {fs : Fields} (h : Reads s fs t) (hs : s <:+ bytes) (hfuel : s.length < fuel)
    (hdepth : depth + fs.height < 16) :
    mapLoop bytes fuel depth appID appName (.before bytes s names) =
      some (true, .before bytes t (fs.collect appID appName names)) := by
  -- On the reading: one field, and the rest of the map behind it.
  induction h generalizing fuel depth appID appName names with
  | eof =>
    obtain ⟨fuel, rfl⟩ := Nat.exists_eq_add_one_of_ne_zero (show fuel ≠ 0 by omega)
    exact mapLoop_eof
  | close =>
    obtain ⟨fuel, rfl⟩ := Nat.exists_eq_add_one_of_ne_zero (show fuel ≠ 0 by omega)
    exact mapLoop_close hs
  | @map key s inner t rest u hkey hinner hrest ihinner ihrest =>
    obtain ⟨fuel, rfl⟩ := Nat.exists_eq_add_one_of_ne_zero (show fuel ≠ 0 by omega)
    have hle := hinner.suffix.length_le
    have hsinner := (suffix_value 0 key s).trans hs
    rw [Fields.height] at hdepth
    rw [length_value] at hfuel
    rw [mapLoop_key (by decide) hkey hs, mapValue, if_pos rfl, if_pos (by omega),
      ihinner hsinner (by omega) (by omega)]
    exact ihrest (hinner.suffix.trans hsinner) (by omega) (by omega)
  | @string key value s rest t hkey hvalue hrest ih =>
    obtain ⟨fuel, rfl⟩ := Nat.exists_eq_add_one_of_ne_zero (show fuel ≠ 0 by omega)
    have hsvalue := (suffix_value 1 key (value ++ 0 :: s)).trans hs
    rw [length_value, List.length_append, List.length_cons] at hfuel
    rw [mapLoop_key (by decide) hkey hs, mapValue_string hvalue hsvalue]
    exact ih (((List.suffix_cons 0 s).trans (List.suffix_append _ _)).trans hsvalue) (by omega) hdepth
  | @int32 key value s rest t hkey hvalue hrest ih =>
    obtain ⟨fuel, rfl⟩ := Nat.exists_eq_add_one_of_ne_zero (show fuel ≠ 0 by omega)
    have hsvalue := (suffix_value 2 key (value ++ s)).trans hs
    rw [length_value, List.length_append] at hfuel
    rw [mapLoop_key (by decide) hkey hs, mapValue_int32 hvalue hsvalue]
    exact ih ((List.suffix_append _ _).trans hsvalue) (by omega) hdepth
  | @skipped type key value s rest t hkey hvalue hrest ih =>
    obtain ⟨fuel, rfl⟩ := Nat.exists_eq_add_one_of_ne_zero (show fuel ≠ 0 by omega)
    have hsvalue := (suffix_value type key (value ++ s)).trans hs
    rw [length_value, List.length_append] at hfuel
    rw [mapLoop_key (skipSize_ne hvalue).2.2.2 hkey hs, mapValue_skipped hvalue hsvalue]
    exact ih ((List.suffix_append _ _).trans hsvalue) (by omega) hdepth

/-- What a map answers: its fields, or that it cannot be read. -/
def Answer (bytes s : Bytes) (appID : Option Nat) (appName : Option Bytes) (names : List (Nat × Bytes))
    (result : Bool × Reader) : Prop :=
  (∃ fs t, Reads s fs t ∧ result = (true, .before bytes t (fs.collect appID appName names))) ∨
    (result.1 = false ∧ ∀ p ∈ result.2.names, p ∈ names ∨ ReadInFull bytes p)

/-- Over any bytes the walk ends, without a place outside them. -/
theorem mapLoop_answers (fuel : Nat) {s : Bytes} (hs : s <:+ bytes) (hfuel : s.length < fuel) :
    ∃ result, mapLoop bytes fuel depth appID appName (.before bytes s names) = some result ∧
      Answer bytes s appID appName names result := by
  induction fuel generalizing depth s appID appName names with
  | zero => omega
  | succ fuel ih =>
    -- A failure records nothing of its own.
    have hfails (r : Reader) (hr : r.names = names) : Answer bytes s appID appName names (false, r) :=
      .inr ⟨rfl, fun p hp ↦ .inl (hr ▸ hp)⟩
    cases s with
    | nil => exact ⟨_, mapLoop_eof, .inl ⟨.done, [], .eof, rfl⟩⟩
    | cons type s₁ =>
      by_cases hclose : type = 8
      · subst hclose
        exact ⟨_, mapLoop_close hs, .inl ⟨.done, s₁, .close, rfl⟩⟩
      by_cases hnul : 0 ∈ s₁
      · obtain ⟨key, s, rfl, hkey⟩ := List.eq_append_cons_of_mem hnul
        have hsvalue := (suffix_value type key s).trans hs
        rw [length_value] at hfuel
        rw [mapLoop_key hclose hkey hs]
        -- What follows a value that could be read answers for the map.
        have hgoes {t : Bytes} {appID' : Option Nat} {appName' : Option Bytes} {names' : List (Nat × Bytes)}
            (ht : t <:+ bytes) (htlen : t.length < fuel) {field : Fields → Fields}
            (hreads : ∀ fs u, Reads t fs u → Reads (type :: (key ++ 0 :: s)) (field fs) u)
            (hcollect : ∀ fs, (field fs).collect appID appName names = fs.collect appID' appName' names')
            (hnames : ∀ p ∈ names', p ∈ names ∨ ReadInFull bytes p) :
            ∃ result, mapLoop bytes fuel depth appID' appName' (.before bytes t names') = some result ∧
              Answer bytes (type :: (key ++ 0 :: s)) appID appName names result := by
          obtain ⟨result, hresult, hanswer⟩ : ∃ result,
              mapLoop bytes fuel depth appID' appName' (.before bytes t names') = some result ∧
                Answer bytes t appID' appName' names' result := ih ht htlen
          refine ⟨result, hresult, ?_⟩
          obtain ⟨fs, u, hu, rfl⟩ | ⟨hno, hpairs⟩ := hanswer
          · exact .inl ⟨field fs, u, hreads fs u hu, by rw [hcollect]⟩
          · refine .inr ⟨hno, fun p hp ↦ ?_⟩
            obtain hp | hp := hpairs p hp
            · exact hnames p hp
            · exact .inr hp
        have hsame : ∀ p ∈ names, p ∈ names ∨ ReadInFull bytes p := fun p hp ↦ .inl hp
        by_cases hmap : type = 0
        · subst hmap
          rw [mapValue, if_pos rfl]
          by_cases hdeep : depth + 1 < 16
          · rw [if_pos hdeep]
            obtain ⟨result, hresult, hanswer⟩ : ∃ result,
                mapLoop bytes fuel (depth + 1) none none (.before bytes s names) = some result ∧
                  Answer bytes s none none names result := ih hsvalue (by omega)
            rw [hresult]
            obtain ⟨inner, t, hinner, rfl⟩ | ⟨hno, hpairs⟩ := hanswer
            · have hle := hinner.suffix.length_le
              refine hgoes (hinner.suffix.trans hsvalue) (by omega) (fun rest u hrest ↦ .map hkey hinner hrest)
                (fun rest ↦ rfl) fun p hp ↦ ?_
              obtain hp | hp | hp := hinner.collect_mem hsvalue hp
              · exact .inl hp
              · exact .inr hp
              · exact .inr ⟨_, _, _, hsvalue, hinner, hp⟩
            · obtain ⟨ok, r⟩ := result
              obtain rfl : ok = false := hno
              exact ⟨_, rfl, .inr ⟨rfl, hpairs⟩⟩
          · rw [if_neg hdeep]
            exact ⟨_, rfl, hfails _ rfl⟩
        by_cases hstring : type = 1
        · subst hstring
          by_cases hend : 0 ∈ s
          · obtain ⟨value, t, rfl, hvalue⟩ := List.eq_append_cons_of_mem hend
            rw [List.length_append, List.length_cons] at hfuel
            rw [mapValue_string hvalue hsvalue]
            exact hgoes (((List.suffix_cons 0 t).trans (List.suffix_append _ _)).trans hsvalue) (by omega)
              (fun rest u hrest ↦ .string hkey hvalue hrest) (fun rest ↦ rfl) hsame
          · have hnone := cStringAt_none hend hsvalue
            simp only [mapValue, Reader.before, hnone]
            exact ⟨_, rfl, hfails _ rfl⟩
        have hle := hsvalue.length_le
        have hleft : bytes.length - (bytes.length - s.length) = s.length := by omega
        by_cases hint : type = 2
        · subst hint
          by_cases hshort : s.length < 4
          · simp only [mapValue, Reader.before, hleft]
            rw [if_neg (by decide), if_neg (by decide), if_pos trivial, if_pos hshort]
            exact ⟨_, rfl, hfails _ rfl⟩
          · obtain ⟨value, t, rfl, hvalue⟩ := exists_split (Nat.le_of_not_lt hshort)
            rw [List.length_append] at hfuel
            rw [mapValue_int32 hvalue hsvalue]
            exact hgoes ((List.suffix_append _ _).trans hsvalue) (by omega)
              (fun rest u hrest ↦ .int32 hkey hvalue hrest) (fun rest ↦ rfl) hsame
        · cases hskip : skipSize type with
          | none =>
            simp only [mapValue, hskip, if_neg hmap, if_neg hstring, if_neg hint]
            exact ⟨_, rfl, hfails _ rfl⟩
          | some n =>
            by_cases hshort : s.length < n
            · simp only [mapValue, Reader.before, hleft, hskip, if_neg hmap, if_neg hstring, if_neg hint, if_pos hshort]
              exact ⟨_, rfl, hfails _ rfl⟩
            · obtain ⟨value, t, rfl, hvalue⟩ := exists_split (Nat.le_of_not_lt hshort)
              have hsize : skipSize type = some value.length := by rw [hskip, hvalue]
              rw [List.length_append] at hfuel
              rw [mapValue_skipped hsize hsvalue]
              exact hgoes ((List.suffix_append _ _).trans hsvalue) (by omega)
                (fun rest u hrest ↦ .skipped hkey hsize hrest) (fun rest ↦ rfl) hsame
      · rw [mapLoop_endless hclose hnul hs]
        exact ⟨_, rfl, hfails _ rfl⟩

/-! ## The scan -/

theorem appid_letters : ascii "appid" = [97, 112, 112, 105, 100] := by decide

/-- The letters `appid` and, with the bit cleared, their upper case. -/
theorem or_bit_eq_iff {c d : UInt8} (hd : d ∈ ascii "appid") :
    c ||| 0x20 = d ↔ c.toNat = d.toNat ∨ c.toNat + 32 = d.toNat := by
  have hall : ∀ n < 256, ∀ d ∈ ([97, 112, 112, 105, 100] : List Nat), (n ||| 32 = d ↔ n = d ∨ n + 32 = d) := by
    decide +kernel
  rw [appid_letters] at hd
  have hnumbers : ([97, 112, 112, 105, 100] : Bytes).map UInt8.toNat = [97, 112, 112, 105, 100] := by decide
  have hmem : d.toNat ∈ [97, 112, 112, 105, 100] := hnumbers ▸ List.mem_map_of_mem hd
  rw [← UInt8.toNat_inj, UInt8.toNat_or]
  exact hall c.toNat c.toNat_lt d.toNat hmem

theorem letter_range {d : UInt8} (hd : d ∈ ascii "appid") : 97 ≤ d.toNat ∧ d.toNat ≤ 112 := by
  rw [appid_letters] at hd
  have hall : ∀ d ∈ ([97, 112, 112, 105, 100] : Bytes), 97 ≤ d.toNat ∧ d.toNat ≤ 112 := by decide +kernel
  exact hall d hd

theorem toLower_eq_iff {c d : UInt8} (hd : d ∈ ascii "appid") : toLower c = d ↔ c ||| 0x20 = d := by
  have hrange := letter_range hd
  rw [or_bit_eq_iff hd, ← UInt8.toNat_inj, toLower, isUpper]
  by_cases hupper : 65 ≤ c.toNat ∧ c.toNat ≤ 90
  · have hyes : (decide (65 ≤ c) && decide (c ≤ 90)) = true := by simpa [UInt8.le_iff_toNat_le] using hupper
    rw [if_pos hyes, UInt8.toNat_add]
    show (c.toNat + 32) % 256 = d.toNat ↔ _
    omega
  · have hno : ¬ (decide (65 ≤ c) && decide (c ≤ 90)) = true := by simpa [UInt8.le_iff_toNat_le] using hupper
    rw [if_neg hno]
    omega

/-- The letters of a field's name come after the type bytes. -/
theorem letter_of_isAppidField {field : Bytes} (h : isAppidField field = true) (hlen : field.length ≤ 5) :
    ∀ c ∈ field, 65 ≤ c := by
  intro c hc
  obtain ⟨k, hk, rfl⟩ := List.mem_iff_getElem.mp hc
  have hlen' : (ascii "appid").length = 5 := rfl
  have hk' : k < (field.zip (ascii "appid")).length := by rw [List.length_zip]; omega
  have hpair := List.all_eq_true.mp h _ (List.getElem_mem hk')
  rw [List.getElem_zip, beq_iff_eq] at hpair
  have hpair : field[k] ||| 0x20 = (ascii "appid")[k] := hpair
  have hletter : (ascii "appid")[k] ∈ ascii "appid" := List.getElem_mem _
  have hrange := letter_range hletter
  rw [or_bit_eq_iff hletter] at hpair
  rw [UInt8.le_iff_toNat_le]
  show 65 ≤ field[k].toNat
  omega

theorem map_eq_iff_zip {f : UInt8 → UInt8} {key word : Bytes} :
    key.map f = word ↔ key.length = word.length ∧ ∀ p ∈ key.zip word, f p.1 = p.2 := by
  induction key generalizing word with
  | nil => cases word <;> simp
  | cons c key ih =>
    cases word with
    | nil => simp
    | cons d word =>
      rw [List.map_cons, List.cons.injEq, ih, List.zip_cons_cons, List.forall_mem_cons, List.length_cons,
        List.length_cons, Nat.add_right_cancel_iff]
      tauto

theorem keyIs_appid_iff {key : Bytes} : KeyIs "appid" key = true ↔ key.length = 5 ∧ isAppidField key = true := by
  rw [KeyIs, beq_iff_eq, map_eq_iff_zip, isAppidField, List.all_eq_true]
  apply and_congr_right
  intro _
  apply forall₂_congr
  intro p hp
  rw [beq_iff_eq]
  exact toLower_eq_iff (List.of_mem_zip hp).2

/-- One step of the scan: behind the byte 2 stand `appid`, a NUL and four bytes, or the next byte is looked at. -/
theorem scanLoop_at {b : UInt8} {s : Bytes} {found : List Nat} (h : b :: s <:+ bytes) :
    scanLoop bytes (bytes.length - (b :: s).length) found =
      if 10 ≤ s.length ∧ b = 2 ∧ s[5]? = some 0 ∧ isAppidField (s.take 5) then
        scanLoop bytes (bytes.length - (s.drop 10).length) (leNat ((s.drop 6).take 4) :: found)
      else scanLoop bytes (bytes.length - s.length) found := by
  have hle := h.length_le
  have hs := (List.suffix_cons b s).trans h
  have hbyte := getElem?_at h
  rw [List.length_cons] at hle hbyte ⊢
  by_cases hlen : 10 ≤ s.length
  · -- What the scan looks at, by what follows the byte.
    have hnul : bytes[bytes.length - (s.length + 1) + 5 + 1]? = s[5]? := by
      have hdrop := drop_at hs
      rw [← hdrop, List.getElem?_drop, List.length_drop]
      congr 1
      omega
    have hfield : slice bytes (bytes.length - (s.length + 1) + 1) (bytes.length - (s.length + 1) + 5 + 1) =
        some (s.take 5) := by
      have hsuffix : s.take 5 ++ s.drop 5 <:+ bytes := by rwa [List.take_append_drop]
      have hslice := slice_at hsuffix
      rw [List.take_append_drop, List.length_drop] at hslice
      rw [← hslice]
      congr 1 <;> omega
    have hvalue : slice bytes (bytes.length - (s.length + 1) + 5 + 2) (bytes.length - (s.length + 1) + 5 + 2 + 4) =
        some ((s.drop 6).take 4) := by
      have hsuffix : (s.drop 6).take 4 ++ (s.drop 6).drop 4 <:+ bytes := by
        rw [List.take_append_drop]
        exact (List.drop_suffix 6 s).trans hs
      have hslice := slice_at hsuffix
      rw [List.take_append_drop, List.drop_drop, List.length_drop, List.length_drop] at hslice
      rw [← hslice]
      congr 1 <;> omega
    rw [scanLoop, if_pos (by omega), hfield, hbyte, hnul]
    obtain ⟨nul, hnul⟩ : ∃ nul, s[5]? = some nul := ⟨_, List.getElem?_eq_getElem (by omega)⟩
    rw [hnul]
    simp only [Option.some.injEq, hvalue, and_iff_right hlen]
    split
    · congr 1
      rw [List.length_drop]
      omega
    · congr 1
      omega
  · rw [if_neg fun h ↦ hlen h.1, scanLoop, if_neg (by omega), scanLoop, if_neg (by omega)]

/-- A byte that does not open a field of the name is passed over. -/
theorem scanLoop_skip {b : UInt8} {s : Bytes} {found : List Nat} (h : b :: s <:+ bytes)
    (hno : ¬ (b = 2 ∧ s[5]? = some 0 ∧ isAppidField (s.take 5))) :
    scanLoop bytes (bytes.length - (b :: s).length) found = scanLoop bytes (bytes.length - s.length) found := by
  rw [scanLoop_at h, if_neg fun hyes ↦ hno hyes.2]

/-- So is a run of bytes without the byte 2. -/
theorem scanLoop_plain {s t : Bytes} {found : List Nat} (hs : 2 ∉ s) (h : s ++ t <:+ bytes) :
    scanLoop bytes (bytes.length - (s ++ t).length) found = scanLoop bytes (bytes.length - t.length) found := by
  induction s with
  | nil => rfl
  | cons b s ih =>
    rw [List.mem_cons, not_or] at hs
    rw [List.cons_append] at h ⊢
    rw [scanLoop_skip h fun hyes ↦ hs.1 hyes.1.symm]
    exact ih hs.2 ((List.suffix_cons b _).trans h)

/-- And a value of at most four bytes: the byte behind it is no letter. -/
theorem scanLoop_value {s t : Bytes} {c : UInt8} {found : List Nat} (hs : s.length ≤ 4) (hc : c < 65)
    (h : s ++ c :: t <:+ bytes) :
    scanLoop bytes (bytes.length - (s ++ c :: t).length) found =
      scanLoop bytes (bytes.length - (c :: t).length) found := by
  induction s with
  | nil => rfl
  | cons b s ih =>
    rw [List.length_cons] at hs
    rw [List.cons_append] at h ⊢
    rw [scanLoop_skip h]
    · exact ih (by omega) ((List.suffix_cons b _).trans h)
    · rintro ⟨-, -, hfield⟩
      have hmem : c ∈ (s ++ c :: t).take 5 := by
        rw [List.take_append, List.mem_append, List.take_cons (by omega)]
        exact .inr List.mem_cons_self
      have hletter := letter_of_isAppidField hfield (List.length_take_le 5 _) c hmem
      exact UInt8.not_lt.mpr hletter hc

/-- A field of another name, with its key, is passed over. -/
theorem scanLoop_key {key t : Bytes} {found : List Nat} (hnul : 0 ∉ key) (htwo : 2 ∉ key)
    (hkey : KeyIs "appid" key = false) (h : 2 :: (key ++ 0 :: t) <:+ bytes) :
    scanLoop bytes (bytes.length - (2 :: (key ++ 0 :: t)).length) found =
      scanLoop bytes (bytes.length - t.length) found := by
  have hrest := (List.suffix_cons 2 _).trans h
  rw [scanLoop_skip h, scanLoop_plain htwo hrest, scanLoop_skip ((List.suffix_append key _).trans hrest)]
  · rintro ⟨htype, -⟩
    exact absurd htype (by decide)
  · rintro ⟨-, hfifth, hfield⟩
    have hletter := letter_of_isAppidField hfield (List.length_take_le 5 _)
    -- The NUL is neither among the five letters nor behind the sixth place.
    have hge : 5 ≤ key.length := by
      by_contra hlt
      have hmem : 0 ∈ (key ++ 0 :: t).take 5 := by
        rw [List.take_append, List.mem_append, List.take_cons (by omega)]
        exact .inr List.mem_cons_self
      exact absurd (hletter 0 hmem) (by decide)
    have hlen : key.length = 5 := by
      by_contra hne
      rw [List.getElem?_append_left (by omega)] at hfifth
      exact hnul (List.mem_of_getElem? hfifth)
    rw [← hlen, List.take_left] at hfield
    exact absurd (keyIs_appid_iff.mpr ⟨hlen, hfield⟩) (by rw [hkey]; decide)

/-- A field of the name gives its four bytes. -/
theorem scanLoop_appid {key value t : Bytes} {found : List Nat} (hkey : KeyIs "appid" key = true)
    (hvalue : value.length = 4) (h : 2 :: (key ++ 0 :: (value ++ t)) <:+ bytes) :
    scanLoop bytes (bytes.length - (2 :: (key ++ 0 :: (value ++ t))).length) found =
      scanLoop bytes (bytes.length - t.length) (leNat value :: found) := by
  obtain ⟨hlen, hfield⟩ := keyIs_appid_iff.mp hkey
  have hnul : (key ++ 0 :: (value ++ t))[5]? = some 0 := by
    rw [List.getElem?_append_right (by omega), hlen]
    rfl
  have htake : (key ++ 0 :: (value ++ t)).take 5 = key := by rw [← hlen, List.take_left]
  have hdrop : (key ++ 0 :: (value ++ t)).drop 6 = value ++ t := by
    rw [List.drop_append, hlen, List.drop_of_length_le (by omega)]
    rfl
  have hrest : (key ++ 0 :: (value ++ t)).drop 10 = t := by
    rw [show 10 = 6 + 4 from rfl, ← List.drop_drop, hdrop, ← hvalue, List.drop_left]
  rw [scanLoop_at h, if_pos, hdrop, hrest, ← hvalue, List.take_left]
  refine ⟨?_, rfl, hnul, by rw [htake]; exact hfield⟩
  rw [List.length_append, List.length_cons, List.length_append]
  omega

/-- The scan never asks for a place outside the data. -/
theorem scanLoop_ne_none (i : Nat) (found : List Nat) : scanLoop bytes i found ≠ none := by
  fun_induction scanLoop bytes i found with
  | case1 i found hin field type nul hnul htype hfield hmatch start hnone =>
    have hstart : start = i + 5 + 2 := rfl
    rw [slice, if_pos (by omega)] at hnone
    cases hnone
  | case2 _ _ _ _ _ _ _ _ _ _ _ _ _ ih => exact ih
  | case3 _ _ _ _ _ _ _ _ _ _ ih => exact ih
  | case4 i found hin hother =>
    have hfield : slice bytes (i + 1) (i + 5 + 1) ≠ none := by
      rw [slice, if_pos (by omega)]
      nofun
    obtain ⟨field, hfield⟩ := Option.ne_none_iff_exists'.mp hfield
    exact absurd (List.getElem?_eq_getElem (by omega)) (hother field _ _ hfield (List.getElem?_eq_getElem (by omega)))
  | case5 => nofun

/-! ## Steam's own maps -/

theorem Fields.encode_head {fs : Fields} (h : fs.Plain) : ∃ c s, fs.encode = c :: s ∧ c < 65 := by
  cases fs with
  | done => exact ⟨8, [], rfl, by decide⟩
  | map => exact ⟨0, _, rfl, by decide⟩
  | string => exact ⟨1, _, rfl, by decide⟩
  | int32 => exact ⟨2, _, rfl, by decide⟩
  | skipped type key value rest =>
    refine ⟨type, _, rfl, ?_⟩
    have hall : ∀ n < 256, skipSize (UInt8.ofNat n) = some 4 → UInt8.ofNat n < 65 := by decide +kernel
    exact forall_byte (p := fun c ↦ skipSize c = some 4 → c < 65) hall type h.2.1.1

theorem Fields.encode_reads {fs : Fields} (h : fs.Plain) (t : Bytes) : Reads (fs.encode ++ t) fs t := by
  induction fs generalizing t with
  | done => exact .close
  | map key inner rest ihinner ihrest =>
    simp only [Fields.encode, List.cons_append, List.append_assoc]
    exact .map h.1.1 (ihinner h.2.1 _) (ihrest h.2.2 t)
  | string key value rest ih =>
    simp only [Fields.encode, List.cons_append, List.append_assoc]
    exact .string h.1.1 h.2.1.1 (ih h.2.2 t)
  | int32 key value rest ih =>
    simp only [Fields.encode, List.cons_append, List.append_assoc]
    exact .int32 h.1.1 h.2.1 (ih h.2.2 t)
  | skipped type key value rest ih =>
    simp only [Fields.encode, List.cons_append, List.append_assoc]
    exact .skipped h.1.1 (h.2.1.1.trans (congrArg some h.2.1.2.symm)) (ih h.2.2 t)

/-- Over a map the scan finds its app ids and no other. -/
theorem scanLoop_fields {fs : Fields} (hplain : fs.Plain) {t : Bytes} {found : List Nat}
    (h : fs.encode ++ t <:+ bytes) :
    scanLoop bytes (bytes.length - (fs.encode ++ t).length) found =
      scanLoop bytes (bytes.length - t.length) (fs.appids.reverse ++ found) := by
  -- Nothing but a number's type byte is a 2, so the scan walks over keys and texts.
  induction fs generalizing t found with
  | done => exact scanLoop_plain (s := [8]) (by decide) h
  | map key inner rest ihinner ihrest =>
    have htwo : 2 ∉ 0 :: (key ++ [0]) := by simpa using hplain.1.2
    have hsplit : (Fields.map key inner rest).encode ++ t = 0 :: (key ++ [0]) ++ (inner.encode ++ (rest.encode ++ t)) := by
      simp [Fields.encode]
    rw [hsplit] at h ⊢
    have hinner := (List.suffix_append _ _).trans h
    rw [scanLoop_plain htwo h, ihinner hplain.2.1 hinner,
      ihrest hplain.2.2 ((List.suffix_append _ _).trans hinner), Fields.appids, List.reverse_append, List.append_assoc]
  | string key value rest ih =>
    have htwo : 2 ∉ 1 :: (key ++ 0 :: (value ++ [0])) := by simpa using ⟨hplain.1.2, hplain.2.1.2⟩
    have hsplit : (Fields.string key value rest).encode ++ t = 1 :: (key ++ 0 :: (value ++ [0])) ++ (rest.encode ++ t) := by
      simp [Fields.encode]
    rw [hsplit] at h ⊢
    rw [scanLoop_plain htwo h, ih hplain.2.2 ((List.suffix_append _ _).trans h)]
    rfl
  | int32 key value rest ih =>
    have hsplit : (Fields.int32 key value rest).encode ++ t = 2 :: (key ++ 0 :: (value ++ (rest.encode ++ t))) := by
      simp [Fields.encode]
    rw [hsplit] at h ⊢
    have hvalue := (suffix_value 2 key (value ++ (rest.encode ++ t))).trans h
    have hrest := (List.suffix_append _ _).trans hvalue
    cases hkey : KeyIs "appid" key with
    | true =>
      rw [scanLoop_appid hkey hplain.2.1 h, ih hplain.2.2 hrest, Fields.appids, if_pos hkey, List.reverse_cons,
        List.append_assoc]
      rfl
    | false =>
      obtain ⟨c, s, hencode, hc⟩ := Fields.encode_head hplain.2.2
      rw [scanLoop_key hplain.1.1 hplain.1.2 hkey h]
      rw [hencode, List.cons_append] at hvalue
      rw [hencode, List.cons_append, scanLoop_value (Nat.le_of_eq hplain.2.1) hc hvalue, ← List.cons_append, ← hencode,
        ih hplain.2.2 hrest, Fields.appids, hkey, if_neg Bool.false_ne_true]
  | skipped type key value rest ih =>
    have htype : type ≠ 2 := (skipSize_ne hplain.2.1.1).2.2.1
    have htwo : 2 ∉ type :: (key ++ [0]) := by simpa using ⟨Ne.symm htype, hplain.1.2⟩
    have hsplit : (Fields.skipped type key value rest).encode ++ t =
        type :: (key ++ [0]) ++ (value ++ (rest.encode ++ t)) := by
      simp [Fields.encode]
    rw [hsplit] at h ⊢
    have hvalue := (List.suffix_append _ _).trans h
    have hrest := (List.suffix_append _ _).trans hvalue
    obtain ⟨c, s, hencode, hc⟩ := Fields.encode_head hplain.2.2
    rw [scanLoop_plain htwo h]
    rw [hencode, List.cons_append] at hvalue
    rw [hencode, List.cons_append, scanLoop_value (Nat.le_of_eq hplain.2.1.2) hc hvalue, ← List.cons_append, ← hencode,
      ih hplain.2.2 hrest]
    rfl

end

/-- A shortcut, with one app id in its map. -/
structure Shortcut where
  fields : Fields
  appid : Nat
  plain : fields.Plain
  own : fields.idFrom none = some appid
  sole : fields.appids = [appid]

def Shortcut.name (s : Shortcut) : Bytes := (s.fields.nameFrom none).getD []

/-- The shortcuts as the maps of a list, each under its key. -/
def listOf : List (Bytes × Shortcut) → Fields
  | [] => .done
  | (key, s) :: rest => .map key s.fields (listOf rest)

/-- `shortcuts.vdf`: the list under its key, in the outermost map. -/
def shortcutsFile (root : Bytes) (shortcuts : List (Bytes × Shortcut)) : Bytes :=
  (Fields.map root (listOf shortcuts) .done).encode

theorem collect_of_no_appid {fs : Fields} (h : fs.appids = []) (appID : Option Nat) (appName : Option Bytes)
    (names : List (Nat × Bytes)) :
    fs.collect appID appName names = record appID (fs.nameFrom appName) names ∧ fs.idFrom appID = appID := by
  induction fs generalizing appID appName names with
  | done => exact ⟨rfl, rfl⟩
  | map key inner rest ihinner ihrest =>
    obtain ⟨hinner, hrest⟩ := List.append_eq_nil_iff.mp h
    rw [Fields.collect, (ihinner hinner none none names).1]
    exact ihrest hrest appID appName names
  | string key value rest ih => exact ih h appID _ names
  | int32 key value rest ih =>
    rw [Fields.appids] at h
    by_cases hkey : KeyIs "appid" key = true
    · rw [if_pos hkey] at h
      cases h
    · rw [if_neg hkey] at h
      rw [Fields.collect, Fields.idFrom, if_neg hkey]
      exact ih h appID appName names
  | skipped type key value rest ih => exact ih h appID appName names

/-- The walk over a shortcut records it, and nothing for the maps in it. -/
theorem collect_of_sole {fs : Fields} {id : Nat} (hsole : fs.appids = [id]) (hown : fs.idFrom none = some id)
    (appName : Option Bytes) (names : List (Nat × Bytes)) :
    fs.collect none appName names = record (some id) (fs.nameFrom appName) names := by
  induction fs generalizing appName names with
  | done => cases hsole
  | map key inner rest ihinner ihrest =>
    rw [Fields.appids] at hsole
    obtain ⟨hinner, hrest⟩ | ⟨hinner, hrest⟩ := List.append_eq_singleton_iff.mp hsole
    · rw [Fields.collect, (collect_of_no_appid hinner none none names).1]
      exact ihrest hrest hown appName names
    · -- The one id is in an inner map: then the map has none of its own.
      have hnone := (collect_of_no_appid hrest none appName names).2
      rw [Fields.idFrom, hnone] at hown
      cases hown
  | string key value rest ih => exact ih hsole hown _ names
  | int32 key value rest ih =>
    rw [Fields.appids] at hsole
    rw [Fields.idFrom] at hown
    rw [Fields.collect, Fields.nameFrom]
    by_cases hkey : KeyIs "appid" key = true
    · rw [if_pos hkey, List.cons.injEq] at hsole
      rw [if_pos hkey, hsole.1]
      exact (collect_of_no_appid hsole.2 _ appName names).1
    · rw [if_neg hkey] at hsole hown ⊢
      exact ih hsole hown appName names
  | skipped type key value rest ih => exact ih hsole hown appName names

/-- The pair of a shortcut with a name. -/
def namedPair (s : Shortcut) : Option (Nat × Bytes) := if s.name = [] then none else some (s.appid, s.name)

theorem collect_listOf (shortcuts : List (Bytes × Shortcut)) (names : List (Nat × Bytes)) :
    (listOf shortcuts).collect none none names = (shortcuts.filterMap fun e ↦ namedPair e.2).reverse ++ names := by
  induction shortcuts generalizing names with
  | nil => rfl
  | cons e rest ih =>
    obtain ⟨key, s⟩ := e
    have hrecord : s.fields.collect none none names = (namedPair s).toList ++ names := by
      rw [collect_of_sole s.sole s.own]
      unfold namedPair Shortcut.name
      cases s.fields.nameFrom none with
      | none => rfl
      | some name => by_cases hname : name = [] <;> simp [record, hname]
    rw [listOf, Fields.collect, hrecord, ih, List.filterMap_cons]
    cases namedPair s <;> simp

theorem listOf_plain {shortcuts : List (Bytes × Shortcut)} (h : ∀ e ∈ shortcuts, 0 ∉ e.1 ∧ 2 ∉ e.1) :
    (listOf shortcuts).Plain := by
  induction shortcuts with
  | nil => trivial
  | cons e rest ih =>
    obtain ⟨hhead, hrest⟩ := List.forall_mem_cons.mp h
    exact ⟨hhead, e.2.plain, ih hrest⟩

theorem listOf_height {shortcuts : List (Bytes × Shortcut)} {n : Nat} (h : ∀ e ∈ shortcuts, e.2.fields.height < n) :
    (listOf shortcuts).height ≤ n := by
  induction shortcuts with
  | nil => exact Nat.zero_le n
  | cons e rest ih =>
    obtain ⟨hhead, hrest⟩ := List.forall_mem_cons.mp h
    exact Nat.max_le.mpr ⟨hhead, ih hrest⟩

theorem listOf_appids (shortcuts : List (Bytes × Shortcut)) :
    (listOf shortcuts).appids = shortcuts.map fun e ↦ e.2.appid := by
  induction shortcuts with
  | nil => rfl
  | cons e rest ih =>
    rw [listOf, Fields.appids, e.2.sole, ih]
    rfl

theorem before_self (bytes : Bytes) (names : List (Nat × Bytes)) : Reader.before bytes bytes names = ⟨0, names⟩ := by
  rw [Reader.before, Nat.sub_self]

theorem shortcutNames_of_reads {bytes t : Bytes} {fs : Fields} (h : Reads bytes fs t) (hheight : fs.height < 16) :
    shortcutNames bytes = some (fs.collect none none []) := by
  have hwalk : mapLoop bytes (bytes.length + 1) 0 none none (.before bytes bytes []) =
      some (true, .before bytes t (fs.collect none none [])) :=
    mapLoop_reads h (List.suffix_refl bytes) (Nat.lt_succ_self _) (by omega)
  rw [before_self] at hwalk
  rw [shortcutNames, hwalk]
  rfl

theorem shortcutNames_full (bytes : Bytes) :
    ∃ names, shortcutNames bytes = some names ∧ ∀ p ∈ names, ReadInFull bytes p := by
  obtain ⟨result, hresult, hanswer⟩ : ∃ result,
      mapLoop bytes (bytes.length + 1) 0 none none (.before bytes bytes []) = some result ∧
        Answer bytes bytes none none [] result :=
    mapLoop_answers (bytes.length + 1) (List.suffix_refl bytes) (Nat.lt_succ_self _)
  rw [before_self] at hresult
  refine ⟨result.2.names, by rw [shortcutNames, hresult]; rfl, ?_⟩
  intro p hp
  obtain ⟨fs, t, hreads, rfl⟩ | ⟨-, hpairs⟩ := hanswer
  · obtain hp | hp | hp := hreads.collect_mem (List.suffix_refl bytes) hp
    · cases hp
    · exact hp
    · exact ⟨bytes, fs, t, List.suffix_refl bytes, hreads, hp⟩
  · exact (hpairs p hp).resolve_left List.not_mem_nil

/-- The pairs of different shortcuts have different ids. -/
theorem lookup_pairs {shortcuts : List (Bytes × Shortcut)} (hnodup : (shortcuts.map fun e ↦ e.2.appid).Nodup)
    (id : Nat) (name : Bytes) :
    (shortcuts.filterMap fun e ↦ namedPair e.2).reverse.lookup id = some name ↔
      ∃ e ∈ shortcuts, e.2.appid = id ∧ e.2.name = name ∧ name ≠ [] := by
  have hmem (id : Nat) (name : Bytes) : (id, name) ∈ (shortcuts.filterMap fun e ↦ namedPair e.2).reverse ↔
      ∃ e ∈ shortcuts, e.2.appid = id ∧ e.2.name = name ∧ name ≠ [] := by
    rw [List.mem_reverse, List.mem_filterMap]
    apply exists_congr
    intro e
    apply and_congr_right
    intro _
    unfold namedPair
    by_cases hname : e.2.name = []
    · rw [if_pos hname]
      apply iff_of_false nofun
      rintro ⟨-, rfl, hne⟩
      exact hne hname
    · rw [if_neg hname, Option.some.injEq, Prod.mk.injEq]
      apply and_congr_right
      intro _
      exact ⟨fun h ↦ ⟨h, h ▸ hname⟩, fun h ↦ h.1⟩
  rw [lookup_eq_some_iff_mem, hmem]
  intro id v w hv hw
  obtain ⟨e, he, heid, hename, -⟩ := (hmem id v).mp hv
  obtain ⟨e', he', he'id, he'name, -⟩ := (hmem id w).mp hw
  have hsame : e = e' := List.inj_on_of_nodup_map hnodup he he' (heid.trans he'id.symm)
  rw [← hename, ← he'name, hsame]

theorem shortcutIDs_of_plain {fs : Fields} (h : fs.Plain) : shortcutIDs fs.encode = some fs.appids.reverse := by
  have hsuffix : fs.encode ++ [] <:+ fs.encode := by
    rw [List.append_nil]
  have hscan : scanLoop fs.encode (fs.encode.length - (fs.encode ++ []).length) [] =
      scanLoop fs.encode (fs.encode.length - [].length) (fs.appids.reverse ++ []) := scanLoop_fields h hsuffix
  rw [List.append_nil, Nat.sub_self, List.append_nil, List.length_nil, Nat.sub_zero] at hscan
  rw [shortcutIDs, hscan, scanLoop, if_neg (by omega)]

/-- The two readers of `shortcuts.vdf` agree with a list of shortcuts that Steam wrote, and over any bytes they end, the
one with pairs that were read in full. -/
theorem shortcuts_agree :
    (∀ (root : Bytes) (shortcuts : List (Bytes × Shortcut)), 0 ∉ root ∧ 2 ∉ root →
      (∀ e ∈ shortcuts, (0 ∉ e.1 ∧ 2 ∉ e.1) ∧ 2 + e.2.fields.height < 16) →
      (shortcuts.map fun e ↦ e.2.appid).Nodup →
      ∃ names ids, shortcutNames (shortcutsFile root shortcuts) = some names ∧
        shortcutIDs (shortcutsFile root shortcuts) = some ids ∧
        (∀ id name, names.lookup id = some name ↔
          ∃ e ∈ shortcuts, e.2.appid = id ∧ e.2.name = name ∧ name ≠ []) ∧
        ∀ id, id ∈ ids ↔ ∃ e ∈ shortcuts, e.2.appid = id) ∧
      ∀ bytes, (∃ names, shortcutNames bytes = some names ∧ ∀ p ∈ names, ReadInFull bytes p) ∧
        ∃ ids, shortcutIDs bytes = some ids := by
  apply And.intro
  · intro root shortcuts hroot hshortcuts hnodup
    have hplain : (Fields.map root (listOf shortcuts) .done).Plain :=
      ⟨hroot, listOf_plain fun e he ↦ (hshortcuts e he).1, trivial⟩
    have hreads := Fields.encode_reads hplain []
    rw [List.append_nil] at hreads
    -- The two maps around a shortcut leave it fourteen levels.
    have hlist : (listOf shortcuts).height ≤ 14 := listOf_height fun e he ↦ by
      have := (hshortcuts e he).2
      omega
    have hheight : (Fields.map root (listOf shortcuts) .done).height ≤ 15 :=
      Nat.max_le.mpr ⟨Nat.succ_le_succ hlist, Nat.zero_le _⟩
    have hids : (Fields.map root (listOf shortcuts) .done).appids = shortcuts.map fun e ↦ e.2.appid := by
      rw [Fields.appids, listOf_appids, Fields.appids, List.append_nil]
    refine ⟨_, (shortcuts.map fun e ↦ e.2.appid).reverse, shortcutNames_of_reads hreads (by omega), ?_, ?_, ?_⟩
    · rw [shortcutsFile, shortcutIDs_of_plain hplain, hids]
    · intro id name
      rw [Fields.collect, collect_listOf, List.append_nil]
      exact lookup_pairs hnodup id name
    · intro id
      rw [List.mem_reverse, List.mem_map]
  · intro bytes
    exact ⟨shortcutNames_full bytes, Option.ne_none_iff_exists'.mp (scanLoop_ne_none 0 [])⟩

/-- A shortcut with a map of tags in it, and one without a name. -/
def twoShortcuts : List (Bytes × Shortcut) :=
  [(ascii "0", {
    fields := .string (ascii "AppName") (ascii "x")
      (.map (ascii "tags") (.string (ascii "0") (ascii "fun") .done) (.int32 (ascii "appid") [1, 0, 0, 128] .done))
    appid := 0x80000001
    plain := by
      simp only [Fields.Plain]
      decide
    own := by decide
    sole := by decide }),
  (ascii "1", {
    fields := .int32 (ascii "appid") [2, 0, 0, 128] (.string (ascii "Exe") (ascii "/y") .done)
    appid := 0x80000002
    plain := by
      simp only [Fields.Plain]
      decide
    own := by decide
    sole := by decide })]

/-- Both ids are read, and the name of the one that has one. -/
theorem shortcuts_agree_two : ∃ names ids,
    shortcutNames (shortcutsFile (ascii "shortcuts") twoShortcuts) = some names ∧
      shortcutIDs (shortcutsFile (ascii "shortcuts") twoShortcuts) = some ids ∧
      names.lookup 0x80000001 = some (ascii "x") ∧ (∀ name, names.lookup 0x80000002 ≠ some name) ∧
      0x80000001 ∈ ids ∧ 0x80000002 ∈ ids := by
  obtain ⟨names, ids, hnames, hids, hname, hid⟩ :=
    shortcuts_agree.1 (ascii "shortcuts") twoShortcuts (by decide) (by decide) (by decide)
  refine ⟨names, ids, hnames, hids, ?_, ?_, ?_, ?_⟩
  · exact (hname _ _).mpr ⟨_, List.mem_cons_self, rfl, by decide, by decide⟩
  · intro name h
    obtain ⟨e, he, hid, rfl, hne⟩ := (hname _ _).mp h
    have hapart : ∀ e ∈ twoShortcuts, e.2.appid = 0x80000002 → e.2.name = [] := by decide
    exact hne (hapart e he hid)
  · exact (hid _).mpr ⟨_, List.mem_cons_self, rfl⟩
  · exact (hid _).mpr ⟨_, List.mem_cons_of_mem _ List.mem_cons_self, rfl⟩

end NotProton.SteamFiles
