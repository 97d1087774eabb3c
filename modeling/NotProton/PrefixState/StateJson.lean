import NotProton.Library.Json
import NotProton.Library.TextBuffer
import NotProton.PrefixState

/-!
# StateJson — the prefix's state as the page reads it (`prefixstate.c`)

The text is written into memory of the caller's, an address at a time.
-/

open NotProton.Library

namespace NotProton.PrefixState

/-- What an array of `cap` characters can hold as a C string. -/
def InArray (cap : Nat) (s : Bytes) : Prop := 0 ∉ s ∧ s.length < cap

/-- `np_prefix_state_t`, whose texts are arrays. -/
structure StoredState extends NpPrefixState where
  inPrefixArch : InArray 16 prefixArch
  inLastBuild : InArray fieldMax lastBuild
  inLastDisplay : InArray fieldMax lastDisplay
  inTool : InArray fieldMax tool
  inToolFlavor : InArray fieldMax toolFlavor
  inToolDisplay : InArray fieldMax toolDisplay
  inRebuild : InArray 16 rebuild
  inApp : InArray pathMax app

theorem inArray_nil {cap : Nat} (h : 0 < cap) : InArray cap [] := ⟨List.not_mem_nil, h⟩

/-- The state after the `memset`. -/
instance : Inhabited StoredState where
  default :=
    { inPrefixArch := inArray_nil (by decide)
      inLastBuild := inArray_nil (by decide)
      inLastDisplay := inArray_nil (by decide)
      inTool := inArray_nil (by decide)
      inToolFlavor := inArray_nil (by decide)
      inToolDisplay := inArray_nil (by decide)
      inRebuild := inArray_nil (by decide)
      inApp := inArray_nil (by decide) }

/-! ## The writer -/

abbrev Memory := Nat → UInt8

/-- `memcpy(mem + a, s, s.length)` -/
def store (mem : Memory) (a : Nat) (s : Bytes) : Memory := fun x ↦
  if a ≤ x then (s[x - a]?).getD (mem x) else mem x

def readBytes (mem : Memory) (a n : Nat) : Bytes := (List.range n).map fun i ↦ mem (a + i)

/-- `json_t` and the memory its buffer is in. -/
structure JsonT where
  mem : Memory
  buf : Nat
  cap : Nat
  len : Nat
  ok : Bool
  room : ok = true → len < cap

def jsonRaw (j : JsonT) (s : Bytes) : JsonT :=
  if h : j.ok = false ∨ j.cap ≤ j.len + s.length then { j with ok := false, room := fun h ↦ by cases h }
  else
    { j with
      mem := store j.mem (j.buf + j.len) (s ++ [0])
      len := j.len + s.length
      room := fun _ ↦ by omega }

/-- `piece`, the text of one character. -/
def jsonPiece (c : UInt8) : Bytes :=
  if c = 34 ∨ c = 92 then [92, c] else if c < 32 then ascii "\\u00" ++ hexByte c else [c]

def jsonPieces (j : JsonT) : Bytes → JsonT
  | [] => j
  | c :: s => if j.ok then jsonPieces (jsonRaw j (jsonPiece c)) s else j

def jsonString (j : JsonT) (key value : Bytes) : JsonT :=
  let j := jsonRaw j (if j.len > 1 then ascii ",\"" else ascii "\"")
  let j := jsonRaw j key
  let j := jsonRaw j (ascii "\":\"")
  let j := jsonPieces j value
  jsonRaw j (ascii "\"")

def jsonBool (j : JsonT) (key : Bytes) (value : Bool) : JsonT :=
  let j := jsonRaw j (if j.len > 1 then ascii ",\"" else ascii "\"")
  let j := jsonRaw j key
  jsonRaw j (if value then ascii "\":true" else ascii "\":false")

/-- `(int)n` -/
def castInt (n : Nat) : Int := (Int32.ofNat n).toInt

def jsonStart (mem : Memory) (out cap : Nat) : JsonT := ⟨mem, out, cap, 0, decide (cap > 0), of_decide_eq_true⟩

/-- What `np_prefix_state_json` returns, and the memory it leaves. -/
def npPrefixStateJson (appid : UInt32) (st : StoredState) (mem : Memory) (out cap : Nat) : Int × Memory :=
  let appidText := snprintf 16 (decimal appid.toNat)
  let j := jsonRaw (jsonStart mem out cap) (ascii "\x7b\"appid\":")
  let j := jsonRaw j appidText
  let j := jsonString j (ascii "tool") st.tool
  let j := jsonString j (ascii "toolDisplay") st.toolDisplay
  let j := jsonString j (ascii "toolArch") st.toolFlavor
  let j := jsonBool j (ascii "prefix") st.hasPrefix
  let j := jsonString j (ascii "prefixArch") st.prefixArch
  let j := jsonString j (ascii "lastBuild") st.lastBuild
  let j := jsonString j (ascii "lastDisplay") st.lastDisplay
  let j := jsonBool j (ascii "needsRebuild") st.needsRebuild
  let j := jsonBool j (ascii "running") st.running
  let j := jsonString j (ascii "rebuild") st.rebuild
  let j := jsonBool j (ascii "app") (decide (st.app ≠ []))
  let j := jsonRaw j (ascii "\x7d")
  (if j.ok then castInt j.len else -1, j.mem)

/-! ## The text in the memory -/

theorem readBytes_length (mem : Memory) (a n : Nat) : (readBytes mem a n).length = n := by
  rw [readBytes, List.length_map, List.length_range]

theorem store_outside {mem : Memory} {a x : Nat} {s : Bytes} (h : x < a ∨ a + s.length ≤ x) : store mem a s x = mem x := by
  unfold store
  split
  next hx => rw [List.getElem?_eq_none (by omega), Option.getD_none]
  next => rfl

theorem store_inside {mem : Memory} {a i : Nat} {s : Bytes} (h : i < s.length) : store mem a s (a + i) = s[i] := by
  rw [store, if_pos (Nat.le_add_right a i), Nat.add_sub_cancel_left, List.getElem?_eq_getElem h, Option.getD_some]

theorem readBytes_store (mem : Memory) (a n : Nat) (s t : Bytes) :
    readBytes (store mem (a + n) (s ++ t)) a (n + s.length) = readBytes mem a n ++ s := by
  rw [readBytes, List.range_add, List.map_append, List.map_map]
  congr 1
  · apply List.map_congr_left
    intro i hi
    rw [List.mem_range] at hi
    exact store_outside (Or.inl (by omega))
  · apply List.ext_getElem
    · rw [List.length_map, List.length_range]
    · intro i hi hs
      rw [List.getElem_map, List.getElem_range, Function.comp_apply, ← Nat.add_assoc,
        store_inside (by rw [List.length_append]; omega), List.getElem_append_left hs]

/-- What was written so far. -/
def JsonT.text (j : JsonT) : TextBuffer :=
  ⟨j.cap, readBytes j.mem j.buf j.len, j.ok, fun h ↦ by rw [readBytes_length]; exact j.room h⟩

/-- A zero byte stands behind what was written. -/
def JsonT.Ended (j : JsonT) : Prop := j.ok = true → 0 < j.len → j.mem (j.buf + j.len) = 0

/-- `j'` is `j` after a text was written to it. -/
structure Puts (j : JsonT) (s : Bytes) (j' : JsonT) : Prop where
  buf : j'.buf = j.buf
  text : j.text.Wrote s j'.text
  outside : ∀ x, x < j.buf ∨ j.buf + j.cap ≤ x → j'.mem x = j.mem x
  ended : j.Ended → j'.Ended

theorem Puts.refl (j : JsonT) : Puts j [] j := ⟨rfl, TextBuffer.wrote_nil _, fun _ _ ↦ rfl, id⟩

theorem Puts.append {j j' j'' : JsonT} {s t : Bytes} (h : Puts j s j') (h' : Puts j' t j'') : Puts j (s ++ t) j'' where
  buf := h'.buf.trans h.buf
  text := h.text.append h'.text
  outside := by
    intro x hx
    have hcap : j'.cap = j.cap := h.text.size
    rw [h'.outside x (by rwa [h.buf, hcap]), h.outside x hx]
  ended := h'.ended ∘ h.ended

theorem puts_jsonRaw (j : JsonT) (s : Bytes) : Puts j s (jsonRaw j s) := by
  have hfits : j.text.Fits s ↔ ¬(j.ok = false ∨ j.cap ≤ j.len + s.length) := by
    show j.ok = true ∧ (readBytes j.mem j.buf j.len).length + s.length < j.cap ↔ _
    rw [readBytes_length, not_or, Bool.not_eq_false, Nat.not_le]
  unfold jsonRaw
  split
  next hfull =>
    have hnot : ¬j.text.Fits s := fun h ↦ hfits.mp h hfull
    exact ⟨rfl, ⟨rfl, ⟨fun h ↦ (by cases h), fun h ↦ absurd h hnot⟩, fun h ↦ absurd h hnot⟩, fun _ _ ↦ rfl, fun _ h ↦ by cases h⟩
  next hroom =>
    have hf := hfits.mpr hroom
    refine ⟨rfl, ⟨rfl, ⟨fun _ ↦ hf, fun _ ↦ hf.1⟩, fun _ ↦ readBytes_store _ _ _ _ _⟩, ?_, ?_⟩
    · intro x hx
      apply store_outside
      rw [List.length_append, List.length_singleton]
      omega
    · intro _ _ _
      show store j.mem (j.buf + j.len) (s ++ [0]) (j.buf + (j.len + s.length)) = 0
      rw [← Nat.add_assoc, store_inside (by rw [List.length_append, List.length_singleton]; omega),
        List.getElem_append_right (Nat.le_refl _)]
      simp only [Nat.sub_self, List.getElem_cons_zero]

theorem Puts.spoiled {j : JsonT} (h : j.ok = false) (s : Bytes) : Puts j s j := by
  have hnot : ¬j.text.Fits s := fun hf ↦ absurd (h.symm.trans hf.1) (by decide)
  exact ⟨rfl, ⟨rfl, ⟨fun hok ↦ absurd (h.symm.trans hok) (by decide), fun hf ↦ absurd hf hnot⟩, fun hf ↦ absurd hf hnot⟩,
    fun _ _ ↦ rfl, id⟩

theorem Puts.len_eq {j j' : JsonT} {s : Bytes} (h : Puts j s j') (hok : j'.ok = true) : j'.len = j.len + s.length := by
  have htext := congrArg List.length (h.text.text (h.text.ok.mp hok))
  rw [List.length_append] at htext
  have hlen (j : JsonT) : j.text.text.length = j.len := readBytes_length _ _ _
  rwa [hlen, hlen] at htext

theorem puts_jsonPieces (j : JsonT) (s : Bytes) : Puts j (s.flatMap jsonChar) (jsonPieces j s) := by
  induction s generalizing j with
  | nil => exact Puts.refl j
  | cons c s ih =>
    rw [jsonPieces]
    split
    next => exact (puts_jsonRaw j (jsonPiece c)).append (ih _)
    next hok => exact Puts.spoiled (Bool.eq_false_iff.mpr hok) _

/-! ## Members -/

/-- More than the opening brace is written, so that a member needs a comma. -/
def JsonT.Begun (j : JsonT) : Prop := j.ok = true → 1 < j.len

theorem Puts.begun {j j' : JsonT} {s : Bytes} (h : Puts j s j') (hj : j.Begun) : j'.Begun := by
  intro hok
  have hlen := hj (h.text.ok.mp hok).1
  rw [h.len_eq hok]
  omega

theorem puts_separator {j : JsonT} (h : j.Begun) : Puts j [44, 34] (jsonRaw j (if j.len > 1 then ascii ",\"" else ascii "\"")) := by
  by_cases hok : j.ok = true
  · rw [if_pos (h hok)]
    exact puts_jsonRaw j _
  · -- nothing is written any more
    have hraw (s : Bytes) : jsonRaw j s = { j with ok := false, room := fun h ↦ by cases h } := by
      rw [jsonRaw, dif_pos (Or.inl (Bool.eq_false_iff.mpr hok))]
    rw [hraw, ← hraw [44, 34]]
    exact puts_jsonRaw j _

theorem puts_jsonString {j : JsonT} {key : Bytes} (h : j.Begun) (hkey : jsonQuote key = 34 :: (key ++ [34])) (value : Bytes) :
    Puts j (44 :: JsonMember.print (key, .string value)) (jsonString j key value) := by
  have hputs := ((((puts_separator h).append (puts_jsonRaw _ key)).append (puts_jsonRaw _ (ascii "\":\""))).append
    (puts_jsonPieces _ value)).append (puts_jsonRaw _ (ascii "\""))
  have htext : 44 :: JsonMember.print (key, .string value) =
      [44, 34] ++ key ++ ascii "\":\"" ++ value.flatMap jsonChar ++ ascii "\"" := by
    rw [JsonMember.print, hkey, JsonScalar.print, jsonQuote]
    simp only [List.cons_append, List.nil_append, List.append_assoc]
    rfl
  rw [htext]
  exact hputs

theorem puts_jsonBool {j : JsonT} {key : Bytes} (h : j.Begun) (hkey : jsonQuote key = 34 :: (key ++ [34])) (value : Bool) :
    Puts j (44 :: JsonMember.print (key, .bool value)) (jsonBool j key value) := by
  have hputs := ((puts_separator h).append (puts_jsonRaw _ key)).append
    (puts_jsonRaw _ (if value then ascii "\":true" else ascii "\":false"))
  have htext : 44 :: JsonMember.print (key, .bool value) =
      [44, 34] ++ key ++ if value then ascii "\":true" else ascii "\":false" := by
    rw [JsonMember.print, hkey]
    simp only [List.cons_append, List.nil_append, List.append_assoc]
    cases value <;> rfl
  rw [htext]
  exact hputs

/-- What the page is told of a state. -/
def stateMembers (appid : UInt32) (st : StoredState) : List JsonMember :=
  [(ascii "appid", .number appid.toNat), (ascii "tool", .string st.tool), (ascii "toolDisplay", .string st.toolDisplay),
    (ascii "toolArch", .string st.toolFlavor), (ascii "prefix", .bool st.hasPrefix), (ascii "prefixArch", .string st.prefixArch),
    (ascii "lastBuild", .string st.lastBuild), (ascii "lastDisplay", .string st.lastDisplay),
    (ascii "needsRebuild", .bool st.needsRebuild), (ascii "running", .bool st.running), (ascii "rebuild", .string st.rebuild),
    (ascii "app", .bool (decide (st.app ≠ [])))]

theorem decimal_appid_length (appid : UInt32) : (decimal appid.toNat).length ≤ 10 := by
  apply decimal_length_le
  · exact appid.toNat_lt.trans (by decide)
  · decide

/-- The arrays bound the whole text. -/
theorem stateMembers_length (appid : UInt32) (st : StoredState) : (printObject (stateMembers appid st)).length < 2 ^ 31 := by
  have hbool (b : Bool) : (JsonScalar.bool b).print.length ≤ 1532 := by cases b <;> decide
  have hnumber : (JsonScalar.number appid.toNat).print.length ≤ 1532 := (decimal_appid_length appid).trans (by decide)
  have hstring {cap : Nat} {s : Bytes} (h : InArray cap s) (hcap : cap ≤ 256) : (JsonScalar.string s).print.length ≤ 1532 := by
    have hs := h.2
    have hquote := jsonQuote_length_le s
    rw [JsonScalar.print]
    omega
  have hmember {key : Bytes} {v : JsonScalar} (hkey : key.length ≤ 12) (hv : v.print.length ≤ 1532) :
      (JsonMember.print (key, v)).length ≤ 1607 := by
    have hquote := jsonQuote_length_le key
    rw [JsonMember.print, List.length_append, List.length_cons]
    show (jsonQuote key).length + (v.print.length + 1) ≤ 1607
    omega
  have hall : ∀ m ∈ stateMembers appid st, m.print.length ≤ 1607 := by
    simp only [stateMembers, List.forall_mem_cons]
    exact ⟨hmember (by decide) hnumber, hmember (by decide) (hstring st.inTool (by decide)),
      hmember (by decide) (hstring st.inToolDisplay (by decide)), hmember (by decide) (hstring st.inToolFlavor (by decide)),
      hmember (by decide) (hbool _), hmember (by decide) (hstring st.inPrefixArch (by decide)),
      hmember (by decide) (hstring st.inLastBuild (by decide)), hmember (by decide) (hstring st.inLastDisplay (by decide)),
      hmember (by decide) (hbool _), hmember (by decide) (hbool _), hmember (by decide) (hstring st.inRebuild (by decide)),
      hmember (by decide) (hbool _), fun _ h ↦ absurd h List.not_mem_nil⟩
  have hlength := printMembers_length_le hall
  have hcount : (stateMembers appid st).length = 12 := rfl
  rw [printObject, List.length_cons, List.length_append, List.length_singleton]
  rw [hcount] at hlength
  omega

theorem castInt_of_lt {n : Nat} (h : n < 2 ^ 31) : castInt n = n := Int32.toInt_ofNat_of_lt h

/-- The buffer `j` holds more than a brace, written since `j₀`. -/
def Continues (j₀ : JsonT) (s : Bytes) (j : JsonT) : Prop := Puts j₀ s j ∧ j.Begun

theorem Continues.string {j₀ j : JsonT} {s : Bytes} (h : Continues j₀ s j) (key : Bytes) (hkey : jsonQuote key = 34 :: (key ++ [34]))
    (value : Bytes) : Continues j₀ (s ++ 44 :: JsonMember.print (key, .string value)) (jsonString j key value) :=
  have hputs := puts_jsonString h.2 hkey value
  ⟨h.1.append hputs, hputs.begun h.2⟩

theorem Continues.bool {j₀ j : JsonT} {s : Bytes} (h : Continues j₀ s j) (key : Bytes) (hkey : jsonQuote key = 34 :: (key ++ [34]))
    (value : Bool) : Continues j₀ (s ++ 44 :: JsonMember.print (key, .bool value)) (jsonBool j key value) :=
  have hputs := puts_jsonBool h.2 hkey value
  ⟨h.1.append hputs, hputs.begun h.2⟩

theorem continues_start (appid : UInt32) (mem : Memory) (out cap : Nat) :
    Continues (jsonStart mem out cap) (ascii "\x7b\"appid\":" ++ decimal appid.toNat)
      (jsonRaw (jsonRaw (jsonStart mem out cap) (ascii "\x7b\"appid\":")) (snprintf 16 (decimal appid.toNat))) := by
  have happid : snprintf 16 (decimal appid.toNat) = decimal appid.toNat :=
    snprintf_of_lt (by have := decimal_appid_length appid; omega)
  rw [happid]
  have hputs := (puts_jsonRaw (jsonStart mem out cap) (ascii "\x7b\"appid\":")).append (puts_jsonRaw _ (decimal appid.toNat))
  refine ⟨hputs, ?_⟩
  intro hok
  rw [hputs.len_eq hok, List.length_append]
  show 1 < 0 + (9 + _)
  omega

/-- The pieces make up the text, the room for them apart. -/
theorem puts_stateJson (appid : UInt32) (st : StoredState) (mem : Memory) (out cap : Nat) :
    ∃ j : JsonT, Puts (jsonStart mem out cap) (printObject (stateMembers appid st)) j ∧
      npPrefixStateJson appid st mem out cap = (if j.ok then castInt j.len else -1, j.mem) := by
  have htool := (((continues_start appid mem out cap).string (ascii "tool") rfl st.tool).string
    (ascii "toolDisplay") rfl st.toolDisplay).string (ascii "toolArch") rfl st.toolFlavor
  have harch := (htool.bool (ascii "prefix") rfl st.hasPrefix).string (ascii "prefixArch") rfl st.prefixArch
  have hlast := (harch.string (ascii "lastBuild") rfl st.lastBuild).string (ascii "lastDisplay") rfl st.lastDisplay
  have hruns := (hlast.bool (ascii "needsRebuild") rfl st.needsRebuild).bool (ascii "running") rfl st.running
  have happ := (hruns.string (ascii "rebuild") rfl st.rebuild).bool (ascii "app") rfl (decide (st.app ≠ []))
  have hall := happ.1.append (puts_jsonRaw _ (ascii "\x7d"))
  have htext : ascii "\x7b\"appid\":" = 123 :: (jsonQuote (ascii "appid") ++ [58]) := rfl
  have hclose : ascii "\x7d" = [125] := rfl
  refine ⟨_, ?_, rfl⟩
  rw [printObject, stateMembers, printMembers]
  rw [htext, hclose] at hall
  simp only [List.flatMap_cons, List.flatMap_nil, List.append_nil, List.append_assoc, List.cons_append, List.nil_append,
    JsonMember.print, JsonScalar.print] at hall ⊢
  exact hall

/-- Whatever the capacity, the memory outside the buffer is left alone, and the buffer holds the object of the state unless
the text does not fit. -/
theorem npPrefixStateJson_spec (appid : UInt32) (st : StoredState) (mem : Memory) (out cap : Nat) :
    let members := stateMembers appid st
    let (ret, after) := npPrefixStateJson appid st mem out cap
    (∀ x, x < out ∨ out + cap ≤ x → after x = mem x) ∧
    (ret = -1 → cap ≤ (printObject members).length) ∧
    (ret ≠ -1 → ∃ n : Nat, ret = n ∧ n < cap ∧ after (out + n) = 0 ∧ 0 ∉ readBytes after out n ∧
      parseObject (readBytes after out n) = some members) ∧
    parseObject (printObject members) = some members ∧ (members.map Prod.fst).Nodup := by
  obtain ⟨j, hputs, hjson⟩ := puts_stateJson appid st mem out cap
  rw [hjson]
  have hfits : (jsonStart mem out cap).text.Fits (printObject (stateMembers appid st)) ↔
      (printObject (stateMembers appid st)).length < cap := by
    show decide (cap > 0) = true ∧ 0 + (printObject (stateMembers appid st)).length < cap ↔ _
    rw [decide_eq_true_iff]
    omega
  have hkeys : ((stateMembers appid st).map Prod.fst).Nodup := by
    simp only [stateMembers, List.map_cons, List.map_nil]
    decide
  have hparse := parseObject_print (stateMembers appid st)
  simp only
  have hbuf : j.buf = out := hputs.buf
  by_cases hlt : (printObject (stateMembers appid st)).length < cap
  · -- all of the text is in the buffer
    have hok : j.ok = true := hputs.text.ok.mpr (hfits.mpr hlt)
    have hlen : j.len = (printObject (stateMembers appid st)).length := (hputs.len_eq hok).trans (Nat.zero_add _)
    have htext : readBytes j.mem out j.len = printObject (stateMembers appid st) := by
      rw [← hbuf]
      exact hputs.text.text (hfits.mpr hlt)
    have hpos : 0 < j.len := by
      rw [hlen, printObject, List.length_cons]
      omega
    have hret : castInt j.len = j.len := castInt_of_lt (hlen ▸ stateMembers_length appid st)
    rw [if_pos hok, hret]
    refine ⟨hputs.outside, fun h ↦ absurd h (by omega), fun _ ↦ ⟨j.len, rfl, hlen ▸ hlt, ?_, ?_, ?_⟩, hparse, hkeys⟩
    · rw [← hbuf]
      exact hputs.ended (fun _ h ↦ absurd h (Nat.lt_irrefl 0)) hok hpos
    · rw [htext]
      exact zero_notMem_printObject _
    · rw [htext]
      exact hparse
  · have hok : ¬j.ok = true := fun hok ↦ hlt (hfits.mp (hputs.text.ok.mp hok))
    rw [if_neg hok]
    exact ⟨hputs.outside, fun _ ↦ Nat.not_lt.mp hlt, fun h ↦ absurd rfl h, hparse, hkeys⟩

end NotProton.PrefixState
