import NotProton.Library.TextBuffer
import NotProton.PrefixState

/-!
# Defaults — the saved default compatibility settings (`defaults.c`)

A settings file holds `KEY=value` lines.  Saving and reading both go through `each_line`, so what a
save takes is what a read hands out.  Locks, `fsync` and the log are left out.
-/

open NotProton.Library
open NotProton.PrefixState (Entry pathMax)

namespace NotProton.Defaults

def npDefaultsRosetta : Nat := 0
def npDefaultsFex : Nat := 1
def npDefaultsTextMax : Nat := 1024
def npBuildIdMax : Nat := 63
def npReadCeiling : Nat := 16 * 1024 * 1024

def gBools : List Bytes := [ascii "0", ascii "1"]
def gBackends : List Bytes := [ascii "dxmt", ascii "dxvk", ascii "wined3d"]
def gD3dmetal : List Bytes := [ascii "d3dmetal"]
def gFactors : List Bytes := [ascii "1.5", ascii "1.72", ascii "2.0", ascii "3.0"]
def gFps : List Bytes := [ascii "30", ascii "40", ascii "60", ascii "120", ascii "144"]

def factorPrefix : Bytes := ascii "d3d11.metalSpatialUpscaleFactor="
def fpsPrefix : Bytes := ascii "d3d11.preferredMaxFrameRate="
def dxmtConfig : Bytes := ascii "DXMT_CONFIG"

structure Setting where
  key : Bytes
  runners : List Nat
  prefix_ : Bytes
  values : List Bytes
  /-- On top of `values`, for Rosetta only. -/
  rosettaValues : List Bytes
  deriving DecidableEq

def both : List Nat := [npDefaultsRosetta, npDefaultsFex]

def gSettings : List Setting :=
  [⟨ascii "CX_GRAPHICS_BACKEND", both, [], gBackends, gD3dmetal⟩,
    ⟨ascii "MTL_HUD_ENABLED", both, [], gBools, []⟩,
    ⟨ascii "D3DM_ENABLE_METALFX", [npDefaultsRosetta], [], gBools, []⟩,
    ⟨ascii "DXMT_ENABLE_NVEXT", both, [], gBools, []⟩,
    ⟨ascii "ROSETTA_ADVERTISE_AVX", [npDefaultsRosetta], [], gBools, []⟩,
    ⟨ascii "WINEMSYNC", both, [], gBools, []⟩,
    ⟨ascii "NOTPROTON_RETINA", both, [], gBools, []⟩,
    ⟨ascii "DXMT_METALFX_SPATIAL_SWAPCHAIN", both, [], gBools, []⟩,
    ⟨dxmtConfig, both, factorPrefix, gFactors, []⟩,
    ⟨ascii "NOTPROTON_RAW_CONTROLLERS", both, [], gBools, []⟩,
    ⟨ascii "NOTPROTON_DISABLE_HIDRAW", both, [], gBools, []⟩,
    ⟨ascii "FEX_X87REDUCEDPRECISION", [npDefaultsFex], [], gBools, []⟩]

def gRunnerNames : List Bytes := [ascii "rosetta", ascii "fex"]

/-! ## The lines a save takes -/

/-- One clause of `DXMT_CONFIG`: whether it is a factor, or none for a clause that is refused. -/
def dxmtClause (clause : Bytes) : Option Bool :=
  if factorPrefix.length < clause.length ∧ clause.take factorPrefix.length = factorPrefix then
    if clause.drop factorPrefix.length ∈ gFactors then some true else none
  else if fpsPrefix.length < clause.length ∧ clause.take fpsPrefix.length = fpsPrefix then
    if clause.drop fpsPrefix.length ∈ gFps then some false else none
  else none

/-- The loop over the clauses, with what was seen before them. -/
def dxmtClauses : List Bytes → Bool → Bool → Bool
  | [], seenFactor, seenFps => seenFactor || seenFps
  | clause :: rest, seenFactor, seenFps =>
      match dxmtClause clause with
      | some true => !seenFactor && dxmtClauses rest true seenFps
      | some false => !seenFps && dxmtClauses rest seenFactor true
      | none => false

def validDxmtConfig (v : Bytes) : Bool :=
  if v = [] ∨ v.head? = some 59 ∨ v.getLast? = some 59 then false
  else dxmtClauses (v.splitOn 59) false false

def validValue (setting : Setting) (runner : Nat) (v : Bytes) : Bool :=
  if setting.key = dxmtConfig then validDxmtConfig v
  else
    let pre := setting.prefix_
    if v.length ≤ pre.length ∨ v.take pre.length ≠ pre then false
    else
      decide (v.drop pre.length ∈ setting.values) ||
        (runner == npDefaultsRosetta && decide (v.drop pre.length ∈ setting.rosettaValues))

def settingIndex (runner : Nat) (key : Bytes) : Option (Fin gSettings.length) :=
  if npDefaultsFex < runner then none
  else gSettings.findFinIdx? fun s ↦ decide (key = s.key) && decide (runner ∈ s.runners)

/-- Where `each_line` has got to: lines it refused, settings it has seen, lines it handed out. -/
structure EachLine where
  bad : Nat
  seen : List (Fin gSettings.length)
  out : List (Bytes × Bytes)

def lineStep (runner : Nat) (st : EachLine) (line : Bytes) : EachLine :=
  if line = [] then st
  else
    match splitAt 61 line with
    | (_, none) => { st with bad := st.bad + 1 }
    | (key, some value) =>
        match settingIndex runner key with
        | none => { st with bad := st.bad + 1 }
        | some i =>
            if i ∈ st.seen ∨ validValue (gSettings.get i) runner value = false then
              { st with bad := st.bad + 1 }
            else { st with seen := st.seen ++ [i], out := st.out ++ [(key, value)] }

def eachLine (runner : Nat) (text : Bytes) : EachLine :=
  (text.splitOn 10).foldl (lineStep runner) ⟨0, [], []⟩

/-! ## The files -/

structure Disk where
  /-- `np_home_dir`. -/
  home : Option Bytes
  entry : Bytes → Entry
  /-- Whether `write_locked` reaches its `rename` for a path. -/
  writable : Bytes → Bool

def npSupportPath (home rel : Bytes) : Bytes :=
  let base := ascii "/Library/Application Support/notproton"
  snprintf pathMax (if rel = [] then home ++ base else home ++ base ++ ascii "/" ++ rel)

def defaultsPath (disk : Disk) (runner : Nat) : Bytes :=
  let rel := snprintf 32 (ascii "defaults-" ++ gRunnerNames.getD runner [])
  npSupportPath (disk.home.getD []) rel

def buildPath (disk : Disk) (build : Bytes) (runner : Nat) : Bytes :=
  let rel := snprintf (npBuildIdMax + 32)
    (ascii "defaults-override-" ++ build ++ ascii "-" ++ gRunnerNames.getD runner [])
  npSupportPath (disk.home.getD []) rel

def npIsBuildId (s : Bytes) : Bool :=
  s.all (fun c ↦ isLower c || isUpper c || isDigit c || c == 46 || c == 45) && 0 < s.length &&
    s.length ≤ npBuildIdMax

def put (t : TextBuffer) (s : Bytes) : TextBuffer := t.put s

def putLine (t : TextBuffer) (line : Bytes × Bytes) : TextBuffer :=
  put (put (put (put t line.1) (ascii "=")) line.2) (ascii "\n")

/-- A new buffer as its callers declare it. -/
def textBuffer (size : Nat) : TextBuffer := .empty (size + 1) size.succ_pos

/-- The body a text is saved as, or none where it is refused. -/
def checkedBody (runner : Nat) (text : Option Bytes) : Option Bytes :=
  match text with
  | none => none
  | some text =>
      let text := cString text
      if npDefaultsTextMax < text.length then none
      else
        let lines := eachLine runner text
        if lines.bad ≠ 0 then none
        else
          let t := lines.out.foldl putLine (textBuffer npDefaultsTextMax)
          if t.ok then some t.text else none

/-- `write_locked`: the body under a second name, then the rename. -/
def writeLocked (disk : Disk) (path body : Bytes) : Option Disk :=
  if disk.writable path then
    some { disk with
      entry := fun p ↦
        if p = path then .file body
        else if p = snprintf pathMax (path ++ ascii ".new") then .missing
        else disk.entry p }
  else none

def saveFile (disk : Disk) (path : Bytes) (runner : Nat) (text : Option Bytes) : Option Disk :=
  match checkedBody runner text with
  | none => none
  | some body => writeLocked disk path body

def npDefaultsSave (disk : Disk) (runner : Nat) (text : Option Bytes) : Option Disk :=
  if npDefaultsFex < runner then none else saveFile disk (defaultsPath disk runner) runner text

def npDefaultsSaveBuild (disk : Disk) (build : Bytes) (runner : Nat) (text : Option Bytes) :
    Option Disk :=
  if npDefaultsFex < runner then none
  else if npIsBuildId build = false then none
  else saveFile disk (buildPath disk build runner) runner text

def isRegular (disk : Disk) (path : Bytes) : Bool :=
  match disk.entry path with
  | .file _ | .unreadable => true
  | _ => false

/-- `read_lines`: the buffer it leaves, or none where it returns 0. -/
def readLines (disk : Disk) (path : Bytes) (runner : Nat) (t : TextBuffer) : Option TextBuffer :=
  match disk.entry path with
  | .missing => some t
  | .folder | .unreadable => none
  | .file text =>
      -- An empty file is no text for `np_read_whole_file`, and nothing to read here.
      if text = [] then some t
      else if npReadCeiling < text.length ∨ npDefaultsTextMax < text.length then none
      else
        let t := (eachLine runner text).out.foldl putLine t
        if t.ok then some t else none

/-- The text read, or none for a read that fails, at a buffer of `size + 1` bytes. -/
def npDefaultsRead (disk : Disk) (runner : Nat) (size : Nat) : Option Bytes :=
  if npDefaultsFex < runner then none
  else (readLines disk (defaultsPath disk runner) runner (textBuffer size)).map TextBuffer.text

inductive BuildRead
  | unreadable
  | none
  | own (text : Bytes)
  deriving DecidableEq

/-- -1, 0 or 1 with the text read. -/
def npDefaultsReadBuild (disk : Disk) (build : Bytes) (runner : Nat) (size : Nat) : BuildRead :=
  if npDefaultsFex < runner ∨ npIsBuildId build = false then .unreadable
  else
    let path := buildPath disk build runner
    if isRegular disk path = false then .none
    else
      match readLines disk path runner (textBuffer size) with
      | some t => .own t.text
      | none => .unreadable

/-! ## What each_line takes -/

/-- A line as it is saved. -/
def lineOf (line : Bytes × Bytes) : Bytes := line.1 ++ 61 :: line.2

/-- Lines a save takes: settings of the runner with a value each allows, none twice. -/
structure Valid (runner : Nat) (lines : List (Bytes × Bytes)) : Prop where
  nodup : (lines.map fun l ↦ settingIndex runner l.1).Nodup
  each : ∀ l ∈ lines, ∃ i, settingIndex runner l.1 = some i ∧
    validValue (gSettings.get i) runner l.2 = true

/-- The characters of a setting's name. -/
def isKeyByte (c : UInt8) : Bool := isUpper c || isDigit c || c == 95

/-- The characters of a value: those the page takes, and the one between clauses. -/
def isValueByte (c : UInt8) : Bool :=
  isLower c || isUpper c || isDigit c || c == 95 || c == 36 || c == 46 || c == 61 || c == 59

theorem settingIndex_key {runner : Nat} {key : Bytes} {i : Fin gSettings.length}
    (h : settingIndex runner key = some i) : key = (gSettings.get i).key := by
  unfold settingIndex at h
  split at h
  · cases h
  · have hi := List.findFinIdx?_eq_some_iff.mp h
    have := hi.1
    simp only [Bool.and_eq_true, decide_eq_true_eq] at this
    exact this.1

theorem key_bytes {runner : Nat} {key : Bytes} {i : Fin gSettings.length}
    (h : settingIndex runner key = some i) : key.all isKeyByte = true ∧ key ≠ [] := by
  have hall : ∀ i : Fin gSettings.length,
      (gSettings.get i).key.all isKeyByte = true ∧ (gSettings.get i).key ≠ [] := by decide
  rw [settingIndex_key h]
  exact hall i

theorem dxmtClause_bytes {clause : Bytes} {b : Bool} (h : dxmtClause clause = some b) :
    clause.all isValueByte = true := by
  have hfactor : ∀ v ∈ gFactors, (factorPrefix ++ v).all isValueByte = true := by decide
  have hfps : ∀ v ∈ gFps, (fpsPrefix ++ v).all isValueByte = true := by decide
  unfold dxmtClause at h
  split at h
  next hp =>
    split at h
    next hv =>
      rw [← List.take_append_drop factorPrefix.length clause, hp.2]
      exact hfactor _ hv
    next => cases h
  next =>
    split at h
    next hp =>
      split at h
      next hv =>
        rw [← List.take_append_drop fpsPrefix.length clause, hp.2]
        exact hfps _ hv
      next => cases h
    next => cases h

theorem dxmtClauses_bytes {clauses : List Bytes} {seenFactor seenFps : Bool}
    (h : dxmtClauses clauses seenFactor seenFps = true) :
    ∀ clause ∈ clauses, clause.all isValueByte = true := by
  induction clauses generalizing seenFactor seenFps with
  | nil => intro clause hc; cases hc
  | cons clause rest ih =>
    unfold dxmtClauses at h
    split at h
    next hclause =>
      rw [Bool.and_eq_true] at h
      exact List.forall_mem_cons.mpr ⟨dxmtClause_bytes hclause, ih h.2⟩
    next hclause =>
      rw [Bool.and_eq_true] at h
      exact List.forall_mem_cons.mpr ⟨dxmtClause_bytes hclause, ih h.2⟩
    next => cases h

theorem validValue_bytes {i : Fin gSettings.length} {runner : Nat} {v : Bytes}
    (h : validValue (gSettings.get i) runner v = true) : v.all isValueByte = true := by
  have hall : ∀ i : Fin gSettings.length,
      ∀ v ∈ (gSettings.get i).values ++ (gSettings.get i).rosettaValues,
        ((gSettings.get i).prefix_ ++ v).all isValueByte = true := by decide
  unfold validValue at h
  split at h
  · unfold validDxmtConfig at h
    split at h
    · cases h
    · exact all_of_splitOn (by decide) (dxmtClauses_bytes h)
  · simp only at h
    split at h
    · cases h
    next hp =>
      rw [not_or, not_not] at hp
      rw [← List.take_append_drop (gSettings.get i).prefix_.length v, hp.2]
      apply hall i
      simp only [Bool.or_eq_true, Bool.and_eq_true, decide_eq_true_eq] at h
      exact List.mem_append.mpr (h.imp id And.right)

theorem Valid.notMem_newline {runner : Nat} {lines : List (Bytes × Bytes)}
    (h : Valid runner lines) {l : Bytes × Bytes} (hl : l ∈ lines) : (10 : UInt8) ∉ lineOf l := by
  obtain ⟨i, hi, hv⟩ := h.each l hl
  have hkey := List.all_eq_true.mp (key_bytes hi).1
  have hvalue := List.all_eq_true.mp (validValue_bytes hv)
  rw [lineOf, List.mem_append, List.mem_cons]
  rintro (hm | hm | hm)
  · exact absurd (hkey _ hm) (by decide)
  · exact absurd hm (by decide)
  · exact absurd (hvalue _ hm) (by decide)

theorem Valid.keys_nodup {runner : Nat} {lines : List (Bytes × Bytes)} (h : Valid runner lines) :
    (lines.map Prod.fst).Nodup := by
  have hcomp : lines.map (fun l ↦ settingIndex runner l.1) =
      (lines.map Prod.fst).map (settingIndex runner) := by
    rw [List.map_map]
    rfl
  exact List.Nodup.of_map _ (hcomp ▸ h.nodup)

theorem splitAt_lineOf {runner : Nat} {key value : Bytes} {i : Fin gSettings.length}
    (h : settingIndex runner key = some i) : splitAt 61 (lineOf (key, value)) = (key, some value) := by
  apply splitAt_append
  intro hm
  exact absurd (List.all_eq_true.mp (key_bytes h).1 _ hm) (by decide)

theorem lineOf_ne_nil (l : Bytes × Bytes) : lineOf l ≠ [] := by
  simp [lineOf]

/-- The loop's state when nothing was refused: the lines handed out, each with its setting seen. -/
structure Taken (runner : Nat) (lines : List Bytes) (st : EachLine) : Prop where
  lines : lines.filter (· ≠ []) = st.out.map lineOf
  seen : st.out.map (fun l ↦ settingIndex runner l.1) = st.seen.map some
  valid : Valid runner st.out

/-- A line either is refused, or is blank, or hands out a line of a setting not seen yet. -/
theorem lineStep_cases (runner : Nat) (st : EachLine) (line : Bytes) :
    ((lineStep runner st line).bad = st.bad + 1) ∨
    (line = [] ∧ lineStep runner st line = st) ∨
    ∃ key value i, line = lineOf (key, value) ∧ settingIndex runner key = some i ∧ i ∉ st.seen ∧
      validValue (gSettings.get i) runner value = true ∧
      lineStep runner st line = { st with seen := st.seen ++ [i], out := st.out ++ [(key, value)] } := by
  unfold lineStep
  split
  next hline => exact .inr (.inl ⟨hline, rfl⟩)
  next hline =>
  split
  · exact .inl rfl
  next key value hsplit =>
  split
  · exact .inl rfl
  next i hi =>
  split
  · exact .inl rfl
  next hok =>
  rw [not_or, Bool.not_eq_false] at hok
  have hspec := splitAt_spec 61 line
  rw [hsplit] at hspec
  exact .inr (.inr ⟨key, value, i, hspec, hi, hok.1, hok.2, rfl⟩)

theorem foldl_lineStep_bad (runner : Nat) (lines : List Bytes) (st : EachLine) :
    st.bad ≤ (lines.foldl (lineStep runner) st).bad := by
  induction lines generalizing st with
  | nil => exact le_rfl
  | cons line lines ih =>
    have hstep : st.bad ≤ (lineStep runner st line).bad := by
      rcases lineStep_cases runner st line with h | ⟨-, h⟩ | ⟨_, _, _, _, _, _, _, h⟩ <;> rw [h]
      exact Nat.le_succ _
    exact hstep.trans (ih _)

/-- With nothing refused, the text's lines that are not blank are the ones handed out. -/
theorem foldl_lineStep_taken {runner : Nat} (lines : List Bytes)
    (h : (lines.foldl (lineStep runner) ⟨0, [], []⟩).bad = 0) :
    Taken runner lines (lines.foldl (lineStep runner) ⟨0, [], []⟩) := by
  induction lines using List.reverseRecOn with
  | nil => exact ⟨rfl, rfl, ⟨List.nodup_nil, fun l hl ↦ by cases hl⟩⟩
  | append_singleton lines line ih =>
    rw [List.foldl_append, List.foldl_cons, List.foldl_nil] at h ⊢
    have hbad : (lines.foldl (lineStep runner) ⟨0, [], []⟩).bad = 0 := by
      have := foldl_lineStep_bad runner [line] (lines.foldl (lineStep runner) ⟨0, [], []⟩)
      rw [List.foldl_cons, List.foldl_nil] at this
      omega
    obtain ⟨hlines, hseen, hvalid⟩ := ih hbad
    generalize lines.foldl (lineStep runner) ⟨0, [], []⟩ = st at *
    -- The last line is refused, blank or taken.
    rcases lineStep_cases runner st line with hstep | ⟨rfl, hstep⟩ | ⟨key, value, i, rfl, hi, hnew, hv, hstep⟩
    · omega
    · rw [hstep]
      exact ⟨by simpa using hlines, hseen, hvalid⟩
    · rw [hstep]
      refine ⟨?_, ?_, ?_, ?_⟩
      · rw [List.filter_append, hlines, List.map_append]
        simp [lineOf_ne_nil]
      · simp only [List.map_append, hseen, List.map_cons, hi, List.map_nil]
      · simp only [List.map_append, List.map_cons, List.map_nil]
        rw [List.nodup_append]
        refine ⟨hvalid.nodup, List.nodup_singleton _, ?_⟩
        intro a ha b hb hab
        rw [List.mem_singleton, hi] at hb
        rw [hseen, hab, hb, List.mem_map] at ha
        obtain ⟨j, hj, hji⟩ := ha
        exact hnew (Option.some.inj hji ▸ hj)
      · intro l hl
        rcases List.mem_append.mp hl with hl | hl
        · exact hvalid.each l hl
        · rw [List.mem_singleton.mp hl]
          exact ⟨i, hi, hv⟩

theorem lineStep_valid {runner : Nat} {st : EachLine} {key value : Bytes} {i : Fin gSettings.length}
    (hi : settingIndex runner key = some i) (hv : validValue (gSettings.get i) runner value = true)
    (hnew : i ∉ st.seen) :
    lineStep runner st (lineOf (key, value)) =
      { st with seen := st.seen ++ [i], out := st.out ++ [(key, value)] } := by
  rw [lineStep, if_neg (lineOf_ne_nil _), splitAt_lineOf hi]
  simp only [hi]
  exact if_neg (by rw [not_or, hv]; exact ⟨hnew, Bool.true_eq_false_eq_False⟩)

/-- Valid lines, blank ones aside, are all handed out. -/
theorem foldl_lineStep_valid {runner : Nat} {kvs : List (Bytes × Bytes)} (h : Valid runner kvs)
    {lines : List Bytes} (hlines : lines.filter (· ≠ []) = kvs.map lineOf) :
    (lines.foldl (lineStep runner) ⟨0, [], []⟩).bad = 0 ∧
      (lines.foldl (lineStep runner) ⟨0, [], []⟩).out = kvs := by
  have hskip : ∀ (lines : List Bytes) st, lines.foldl (lineStep runner) st =
      (lines.filter (· ≠ [])).foldl (lineStep runner) st := by
    intro lines
    induction lines with
    | nil => intro st; rfl
    | cons line lines ih =>
      intro st
      by_cases hl : line = []
      · subst hl
        rw [List.foldl_cons, ih]
        rfl
      · rw [List.filter_cons_of_pos (by simpa using hl), List.foldl_cons, List.foldl_cons, ih]
  rw [hskip, hlines]
  clear hlines lines
  suffices hs : ∃ seen, (kvs.map lineOf).foldl (lineStep runner) ⟨0, [], []⟩ = ⟨0, seen, kvs⟩ ∧
      kvs.map (fun l ↦ settingIndex runner l.1) = seen.map some by
    obtain ⟨seen, hs, -⟩ := hs
    rw [hs]
    exact ⟨rfl, rfl⟩
  -- By the last line, with the settings seen so far as the invariant.
  induction kvs using List.reverseRecOn with
  | nil => exact ⟨[], rfl, rfl⟩
  | append_singleton kvs l ih =>
    obtain ⟨i, hi, hv⟩ := h.each l (List.mem_append_right _ (List.mem_singleton_self l))
    have hnodup := h.nodup
    rw [List.map_append, List.nodup_append] at hnodup
    obtain ⟨seen, hs, hseen⟩ := ih ⟨hnodup.1, fun l hl ↦ h.each l (List.mem_append_left _ hl)⟩
    have hnew : i ∉ seen := by
      intro hm
      refine hnodup.2.2 (some i) ?_ (some i) ?_ rfl
      · rw [hseen]
        exact List.mem_map_of_mem hm
      · rw [List.map_cons, hi]
        exact List.mem_cons_self
    refine ⟨seen ++ [i], ?_, ?_⟩
    · rw [List.map_append, List.foldl_append, hs, List.map_cons, List.map_nil, List.foldl_cons,
        List.foldl_nil, lineStep_valid hi hv hnew]
    · rw [List.map_append, List.map_append, hseen, List.map_cons, hi]
      rfl

/-- The text a set of lines is saved as. -/
def bodyOf (lines : List (Bytes × Bytes)) : Bytes := lines.flatMap fun l ↦ lineOf l ++ [10]

/-- The lines of a text that are not blank. -/
def settingLines (text : Bytes) : List Bytes := (text.splitOn 10).filter (· ≠ [])

theorem eachLine_taken {runner : Nat} {text : Bytes} (h : (eachLine runner text).bad = 0) :
    settingLines text = (eachLine runner text).out.map lineOf ∧
      Valid runner (eachLine runner text).out :=
  ⟨(foldl_lineStep_taken _ h).lines, (foldl_lineStep_taken _ h).valid⟩

theorem eachLine_valid {runner : Nat} {text : Bytes} {lines : List (Bytes × Bytes)}
    (h : Valid runner lines) (hlines : settingLines text = lines.map lineOf) :
    (eachLine runner text).bad = 0 ∧ (eachLine runner text).out = lines :=
  foldl_lineStep_valid h hlines

theorem settingLines_bodyOf {runner : Nat} {lines : List (Bytes × Bytes)} (h : Valid runner lines) :
    settingLines (bodyOf lines) = lines.map lineOf := by
  have hno : ∀ line ∈ lines.map lineOf, (10 : UInt8) ∉ line := by
    intro line hl
    obtain ⟨l, hm, rfl⟩ := List.mem_map.mp hl
    exact h.notMem_newline hm
  have hsplit := splitOn_flatMap hno
  rw [List.flatMap_map] at hsplit
  rw [settingLines, bodyOf, hsplit, List.filter_append, List.filter_eq_self.mpr]
  · exact List.append_nil _
  · intro line hl
    obtain ⟨l, -, rfl⟩ := List.mem_map.mp hl
    simpa using lineOf_ne_nil l

theorem wrote_putLine (t : TextBuffer) (line : Bytes × Bytes) :
    t.Wrote (lineOf line ++ [10]) (putLine t line) := by
  have h := (((t.wrote_put line.1).append (TextBuffer.wrote_put _ (ascii "="))).append
    (TextBuffer.wrote_put _ line.2)).append (TextBuffer.wrote_put _ (ascii "\n"))
  simpa [lineOf, ascii, putLine, put] using h

theorem wrote_putLines (t : TextBuffer) (lines : List (Bytes × Bytes)) :
    t.Wrote (bodyOf lines) (lines.foldl putLine t) :=
  TextBuffer.wrote_foldl wrote_putLine lines t

end NotProton.Defaults
