import NotProton.Defaults
import NotProton.CompatRun.ConfTable
import NotProton.Library.Shell

/-!
# SavedDefaults — the saved settings a game starts with (`compat_run.sh`)

A launch reads the settings file of its runner and sets what the game's launch options leave open.  The
panel of a game (`NP_CX_OPTIONS_BODY` in `webpatch.c`) works out the same values from the same settings.
-/

open NotProton.Library NotProton.Defaults

namespace NotProton.CompatRun

/-! ## Clauses of `DXMT_CONFIG` -/

def factorName : Bytes := ascii "d3d11.metalSpatialUpscaleFactor"
def fpsName : Bytes := ascii "d3d11.preferredMaxFrameRate"

/-- `^` blanks, the name, blanks and `=`. -/
def isEntry (blank : UInt8 → Bool) (name clause : Bytes) : Bool :=
  match stripStart name (clause.dropWhile blank) with
  | some rest => (rest.dropWhile blank).head? == some 61
  | none => false

/-- `[[:space:]]` -/
def isCSpace (c : UInt8) : Bool := c == 32 || (9 ≤ c && c ≤ 13)

/-- `printf '%s' "$value" | tr ';' '\n' | grep -q` of the entry. -/
def grepEntry (name value : Bytes) : Bool :=
  ((value.map fun c ↦ if c = 59 then 10 else c).splitOn 10).any (isEntry isCSpace name)

/-- `[ \t\r]` -/
def isPanelBlank (c : UInt8) : Bool := c == 32 || c == 9 || c == 13

/-- `NP_CX_FACTOR_ENTRY` -/
def fk (e : Bytes) : Bool := isEntry isPanelBlank factorName e

/-- `NP_CX_FPS_ENTRY` -/
def fpk (e : Bytes) : Bool := isEntry isPanelBlank fpsName e

/-- The text is white space for `trim()`. -/
def isTrimmed : Bytes → Bool
  | [] => true
  | 0xC2 :: 0xA0 :: s => isTrimmed s
  | 0xE1 :: 0x9A :: 0x80 :: s => isTrimmed s
  | 0xE2 :: 0x80 :: c :: s => ((0x80 ≤ c && c ≤ 0x8A) || c == 0xA8 || c == 0xA9 || c == 0xAF) && isTrimmed s
  | 0xE2 :: 0x81 :: 0x9F :: s => isTrimmed s
  | 0xE3 :: 0x80 :: 0x80 :: s => isTrimmed s
  | 0xEF :: 0xBB :: 0xBF :: s => isTrimmed s
  | c :: s => isCSpace c && isTrimmed s

/-- `.split(";").filter(e=>e.trim())` -/
def dxmtEntries (value : Bytes) : List Bytes := (value.splitOn 59).filter fun e ↦ !isTrimmed e

/-! ## The panel -/

/-- `mergedDxmt` -/
def mergedDxmt (own dfe : List Bytes) : Bytes :=
  let entries := [((own.filter fk).getLast?).or (dfe.filter fk).getLast?,
    ((own.filter fpk).getLast?).or (dfe.filter fpk).getLast?].filterMap id ++ own.filter fun e ↦ !fk e && !fpk e
  ([59] : Bytes).intercalate (entries.filter fun e ↦ e ≠ [])

/-- `G`, with the variables the launch options set and the saved settings. -/
def panelValue (own : Bytes → Option Bytes) (defaults : List (Bytes × Bytes)) (key : Bytes) : Bytes :=
  if key = dxmtConfig then
    mergedDxmt (dxmtEntries ((own dxmtConfig).getD [])) (dxmtEntries ((defaults.lookup dxmtConfig).getD []))
  else
    match own key with
    | some value => value
    | none => (defaults.lookup key).getD []

/-! ## The launch -/

/-- `name=value`: a variable that is exported stays so. -/
def setVar (env : Bytes → Option Bytes) (name value : Bytes) : Bytes → Option Bytes :=
  if (env name).isSome then Function.update env name (some value) else env

/-- `export name=value` -/
def exportVar (env : Bytes → Option Bytes) (name value : Bytes) : Bytes → Option Bytes :=
  Function.update env name (some value)

/-- `unset -v name` -/
def unsetVar (env : Bytes → Option Bytes) (name : Bytes) : Bytes → Option Bytes := Function.update env name none

def cxGraphicsBackend : Bytes := ascii "CX_GRAPHICS_BACKEND"

/-- `${s#*=}` -/
def afterEquals (s : Bytes) : Bytes := (splitAt 61 s).2.getD s

/-- The pieces that each end in `c`, but perhaps the last: what `read` reads, and what IFS makes of a value. -/
def fieldsOf (c : UInt8) (s : Bytes) : List Bytes :=
  let pieces := s.splitOn c
  if pieces.getLast? = some [] then pieces.dropLast else pieces

/-- `"${DXMT_CONFIG:+$DXMT_CONFIG;}$clause"` -/
def withClause (value clause : Bytes) : Bytes := if value = [] then clause else value ++ 59 :: clause

def upscaleFactors : List Bytes := [ascii "1.5", ascii "1.72", ascii "2.0", ascii "3.0"]
def frameRates : List Bytes := [ascii "30", ascii "40", ascii "60", ascii "120", ascii "144"]

/-- One clause with a value among `values`, unless `DXMT_CONFIG` has an entry of the name; with `dxmt_added`. -/
def addClause (name : Bytes) (values : List Bytes) (st : (Bytes → Option Bytes) × Bytes) (clause : Bytes) :
    (Bytes → Option Bytes) × Bytes :=
  let value := (st.1 dxmtConfig).getD []
  if afterEquals clause ∉ values then st
  else if grepEntry name value = true then st
  else
    let added := withClause st.2 clause
    (setVar (exportVar st.1 dxmtConfig (withClause value clause)) (ascii "dxmt_added") added, added)

def clauseStep (st : (Bytes → Option Bytes) × Bytes) (clause : Bytes) : (Bytes → Option Bytes) × Bytes :=
  let st := (setVar st.1 (ascii "clause") clause, st.2)
  if factorPrefix.isPrefixOf clause then addClause factorName upscaleFactors st clause
  else if fpsPrefix.isPrefixOf clause then addClause fpsName frameRates st clause
  else st

/-- What the `case` makes of a line. -/
inductive LineCase
  | skip
  | plain
  | clauses
  | factor
  | fps
  deriving DecidableEq

def switchLines (name : String) : List Bytes := [ascii name ++ ascii "=0", ascii name ++ ascii "=1"]

def backendLines : List Bytes :=
  [ascii "CX_GRAPHICS_BACKEND=dxmt", ascii "CX_GRAPHICS_BACKEND=dxvk", ascii "CX_GRAPHICS_BACKEND=wined3d"]

def rosettaLines : List Bytes :=
  ascii "CX_GRAPHICS_BACKEND=d3dmetal" :: switchLines "D3DM_ENABLE_METALFX" ++ switchLines "ROSETTA_ADVERTISE_AVX"

def commonLines : List Bytes :=
  switchLines "MTL_HUD_ENABLED" ++ switchLines "DXMT_ENABLE_NVEXT" ++ switchLines "DXMT_METALFX_SPATIAL_SWAPCHAIN" ++
    switchLines "WINEMSYNC" ++ switchLines "NOTPROTON_RETINA" ++ switchLines "NOTPROTON_RAW_CONTROLLERS" ++
    switchLines "NOTPROTON_DISABLE_HIDRAW"

/-- `arm` where `${wine_unix##*/}` is `aarch64-unix`. -/
def lineCase (arm : Bool) (line : Bytes) : LineCase :=
  if line ∈ backendLines then .plain
  else if line ∈ rosettaLines then if arm then .skip else .plain
  else if line ∈ switchLines "FEX_X87REDUCEDPRECISION" then if arm then .plain else .skip
  else if line ∈ commonLines then .plain
  else
    match stripStart (ascii "DXMT_CONFIG=") line with
    | none => .skip
    | some value =>
        if (59 : UInt8) ∈ value then .clauses
        else if factorPrefix.isPrefixOf value then .factor
        else if fpsPrefix.isPrefixOf value then .fps
        else .skip

/-- The environment, and `np_defaulted`. -/
structure SavedLoop where
  env : Bytes → Option Bytes
  defaulted : Bytes

/-- `np_defaulted="$np_defaulted${np_defaulted:+ }$line"` -/
def SavedLoop.note (st : SavedLoop) (line : Bytes) : SavedLoop :=
  let defaulted := if st.defaulted = [] then line else st.defaulted ++ 32 :: line
  ⟨setVar st.env (ascii "np_defaulted") defaulted, defaulted⟩

def savedLine (arm : Bool) (st : SavedLoop) (line : Bytes) : SavedLoop :=
  let key := (splitAt 61 line).1
  let value := afterEquals line
  let env := setVar (setVar (setVar st.env (ascii "line") line) (ascii "key") key) (ascii "value") value
  let own := (env dxmtConfig).getD []
  match lineCase arm line with
  | .skip => ⟨env, st.defaulted⟩
  | .plain =>
      if (env key).isSome then ⟨env, st.defaulted⟩ else SavedLoop.note ⟨exportVar env key value, st.defaulted⟩ line
  | .clauses =>
      let env := setVar (setVar env (ascii "dxmt_added") []) (ascii "old_ifs") (ascii " \t\n")
      let r := (fieldsOf 59 value).foldl clauseStep (env, [])
      if r.2 = [] then ⟨r.1, st.defaulted⟩ else SavedLoop.note ⟨r.1, st.defaulted⟩ (ascii "DXMT_CONFIG=" ++ r.2)
  | .factor =>
      if afterEquals value ∉ upscaleFactors then ⟨env, st.defaulted⟩
      else if grepEntry factorName own = true then ⟨env, st.defaulted⟩
      else SavedLoop.note ⟨exportVar env dxmtConfig (withClause own value), st.defaulted⟩ line
  | .fps =>
      if value.drop fpsPrefix.length ∉ frameRates then ⟨env, st.defaulted⟩
      else if grepEntry fpsName own = true then ⟨env, st.defaulted⟩
      else SavedLoop.note ⟨exportVar env dxmtConfig (withClause own value), st.defaulted⟩ line

def defaultsStart (runner : Nat) (file : Bytes) (env : Bytes → Option Bytes) : Bytes → Option Bytes :=
  let env := setVar env (ascii "np_defaulted") []
  let env := setVar env (ascii "np_defaults_runner") (gRunnerNames.getD runner [])
  setVar env (ascii "np_defaults_file") file

/-- `[ "${CX_GRAPHICS_BACKEND-}" != auto ] || unset -v CX_GRAPHICS_BACKEND` -/
def dropAuto (env : Bytes → Option Bytes) : Bytes → Option Bytes :=
  if env cxGraphicsBackend = some (ascii "auto") then unsetVar env cxGraphicsBackend else env

/-- What a `waitforexitandrun` launch makes of its environment: `file` and `text` are the settings file. -/
def savedDefaults (runner : Nat) (file text : Bytes) (env : Bytes → Option Bytes) : SavedLoop :=
  let st := (fieldsOf 10 text).foldl (savedLine (runner == npDefaultsFex)) ⟨defaultsStart runner file env, []⟩
  ⟨dropAuto (setVar st.env (ascii "line") []), st.defaulted⟩

/-! ## Clauses a save takes -/

/-- The clauses of one kind, `factor` or not. -/
def validClauses (factor : Bool) : List Bytes :=
  if factor then gFactors.map (factorPrefix ++ ·) else gFps.map (fpsPrefix ++ ·)

def entryName (factor : Bool) : Bytes := if factor then factorName else fpsName

theorem dxmtClause_mem {clause : Bytes} {factor : Bool} (h : dxmtClause clause = some factor) :
    clause ∈ validClauses factor := by
  unfold dxmtClause at h
  split at h
  next hp =>
    split at h
    next hv =>
      cases h
      rw [← List.take_append_drop factorPrefix.length clause, hp.2]
      exact List.mem_map_of_mem hv
    next => cases h
  next =>
    split at h
    next hp =>
      split at h
      next hv =>
        cases h
        rw [← List.take_append_drop fpsPrefix.length clause, hp.2]
        exact List.mem_map_of_mem hv
      next => cases h
    next => cases h

/-- A value a save takes has one clause, or one of each kind. -/
theorem validDxmtConfig_split {value : Bytes} (h : validDxmtConfig value = true) :
    ∃ factor, ∃ clause ∈ validClauses factor, value.splitOn 59 = [clause] ∨
      ∃ other ∈ validClauses (!factor), value.splitOn 59 = [clause, other] := by
  unfold validDxmtConfig at h
  split at h
  · cases h
  generalize value.splitOn 59 = clauses at h ⊢
  cases clauses with
  | nil => cases h
  | cons clause rest =>
    cases hclause : dxmtClause clause with
    | none =>
      rw [dxmtClauses, hclause] at h
      cases h
    | some factor =>
      refine ⟨factor, clause, dxmtClause_mem hclause, ?_⟩
      cases rest with
      | nil => exact .inl rfl
      | cons other rest =>
        right
        have hother : dxmtClause other = some (!factor) ∧ rest = [] := by
          rw [dxmtClauses, hclause] at h
          -- the third clause would be of a kind that was seen
          cases factor <;> cases hd : dxmtClause other with
          | none => simp [dxmtClauses, hd] at h
          | some b =>
            cases b <;> cases rest with
            | nil => simp_all [dxmtClauses]
            | cons third _ =>
              cases ht : dxmtClause third with
              | none => simp [dxmtClauses, hd, ht] at h
              | some b => cases b <;> simp [dxmtClauses, hd, ht] at h
        exact ⟨other, dxmtClause_mem hother.1, by rw [hother.2]⟩

section clauses

variable {factor : Bool} {clause : Bytes}

theorem validClauses_bytes (h : clause ∈ validClauses factor) : ∀ c ∈ clause, c ≠ 59 ∧ ¬ (10 ≤ c ∧ c ≤ 12) := by
  have hall : ∀ factor, (validClauses factor).all (·.all fun c ↦ c.toNat ≠ 59 ∧ ¬ (10 ≤ c.toNat ∧ c.toNat ≤ 12)) = true := by
    decide
  intro c hc
  have hbyte := of_decide_eq_true (List.all_eq_true.mp (List.all_eq_true.mp (hall factor) clause h) c hc)
  exact ⟨fun heq ↦ hbyte.1 (congrArg UInt8.toNat heq), hbyte.2⟩

theorem validClauses_entry (h : clause ∈ validClauses factor) :
    fk clause = factor ∧ fpk clause = !factor ∧ isTrimmed clause = false := by
  have hall : ∀ factor, ∀ clause ∈ validClauses factor,
      fk clause = factor ∧ fpk clause = !factor ∧ isTrimmed clause = false := by decide
  exact hall factor clause h

end clauses

/-! ## Entries of a value -/

/-- No byte that `grep` takes for a blank or a line end and the panel does not. -/
def PlainBlanks (value : Bytes) : Prop := ∀ c ∈ value, ¬ (10 ≤ c ∧ c ≤ 12)

theorem isTrimmed_of_mem {s : Bytes} (h : (100 : UInt8) ∈ s) : isTrimmed s = false := by
  rw [← Bool.not_eq_true]
  intro htrim
  induction s using isTrimmed.induct with
  | case1 => cases h
  | case2 s ih => exact ih (by simpa using h) htrim
  | case3 s ih => exact ih (by simpa using h) htrim
  | case4 c s ih =>
    rw [isTrimmed, Bool.and_eq_true] at htrim
    have hc : ∀ c : UInt8, (((0x80 ≤ c && c ≤ 0x8A) || c == 0xA8) || c == 0xA9 || c == 0xAF) = true → c ≠ 100 :=
      forall_byte (by decide +kernel)
    have hne := hc c (by simpa [Bool.or_assoc] using htrim.1)
    exact ih (by simpa [hne.symm] using h) htrim.2
  | case5 s ih => exact ih (by simpa using h) htrim
  | case6 s ih => exact ih (by simpa using h) htrim
  | case7 s ih => exact ih (by simpa using h) htrim
  | case8 c s h1 h2 h3 h4 h5 h6 ih =>
    rw [isTrimmed.eq_8 c s h1 h2 h3 h4 h5 h6, Bool.and_eq_true] at htrim
    obtain rfl | hs := List.mem_cons.mp h
    · exact absurd htrim.1 (by decide)
    · exact ih hs htrim.2

theorem mem_of_isEntry {blank : UInt8 → Bool} {name e : Bytes} {c : UInt8} (h : isEntry blank name e = true) (hc : c ∈ name) :
    c ∈ e := by
  unfold isEntry at h
  split at h
  next rest hrest =>
    have hmem : c ∈ e.dropWhile blank := by
      rw [stripStart_some hrest]
      exact List.mem_append_left _ hc
    exact (List.dropWhile_sublist _).subset hmem
  next => cases h

theorem isEntry_congr {blank blank' : UInt8 → Bool} {name e : Bytes} (h : ∀ c ∈ e, blank c = blank' c) :
    isEntry blank name e = isEntry blank' name e := by
  have hdrop : ∀ s : Bytes, (∀ c ∈ s, blank c = blank' c) → s.dropWhile blank = s.dropWhile blank' := by
    intro s hs
    induction s with
    | nil => rfl
    | cons c s ih =>
      obtain ⟨hc, hs⟩ := List.forall_mem_cons.mp hs
      rw [List.dropWhile_cons, List.dropWhile_cons, hc, ih hs]
  unfold isEntry
  rw [← hdrop e h]
  split
  next rest hrest =>
    rw [hdrop rest]
    intro c hc
    apply h
    apply (List.dropWhile_sublist blank).subset
    rw [stripStart_some hrest]
    exact List.mem_append_right _ hc
  next => rfl

theorem splitOn_map_semicolon {s : Bytes} (h : (10 : UInt8) ∉ s) :
    (s.map fun c ↦ if c = 59 then 10 else c).splitOn 10 = s.splitOn 59 := by
  induction s with
  | nil => rfl
  | cons c s ih =>
    obtain ⟨hc, hs⟩ := not_or.mp fun hor ↦ h (List.mem_cons.mpr hor)
    by_cases hsemi : c = 59
    · rw [hsemi, List.map_cons, if_pos rfl, splitOn_cons_self, splitOn_cons_self, ih hs]
    · rw [List.map_cons, if_neg hsemi, splitOn_cons_ne (Ne.symm hc), splitOn_cons_ne hsemi, ih hs]

/-- On such a value `grep` finds an entry where the panel does. -/
theorem grepEntry_eq {name value : Bytes} (hname : (100 : UInt8) ∈ name) (h : PlainBlanks value) :
    grepEntry name value = (dxmtEntries value).any (isEntry isPanelBlank name) := by
  have hnewline : (10 : UInt8) ∉ value := fun hm ↦ h 10 hm (by decide)
  have hblank : ∀ c : UInt8, ¬ (10 ≤ c ∧ c ≤ 12) → isCSpace c = isPanelBlank c := forall_byte (by decide +kernel)
  rw [grepEntry, splitOn_map_semicolon hnewline, dxmtEntries, List.any_filter, Bool.eq_iff_iff, List.any_eq_true,
    List.any_eq_true]
  have hentry : ∀ e ∈ value.splitOn 59, isEntry isCSpace name e = isEntry isPanelBlank name e := by
    intro e he
    apply isEntry_congr
    intro c hc
    apply hblank
    intro hbad
    exact notMem_of_splitOn (fun hm ↦ h c hm hbad) he hc
  constructor
  · rintro ⟨e, he, hmatch⟩
    rw [hentry e he] at hmatch
    refine ⟨e, he, ?_⟩
    rw [isTrimmed_of_mem (mem_of_isEntry hmatch hname), hmatch]
    rfl
  · rintro ⟨e, he, hmatch⟩
    rw [Bool.and_eq_true] at hmatch
    exact ⟨e, he, by rw [hentry e he]; exact hmatch.2⟩

theorem fpk_of_fk {e : Bytes} (h : fk e = true) : fpk e = false := by
  rw [← Bool.not_eq_true]
  intro hfps
  simp only [fk, fpk, isEntry] at h hfps
  split at h
  next rest hrest =>
    split at hfps
    next rest' hrest' =>
      -- the two names would start one text
      have hfactor : factorName <+: e.dropWhile isPanelBlank := by
        rw [stripStart_some hrest]
        exact List.prefix_append _ _
      have hrate : fpsName <+: e.dropWhile isPanelBlank := by
        rw [stripStart_some hrest']
        exact List.prefix_append _ _
      have hpre : factorName <+: fpsName ∨ fpsName <+: factorName :=
        List.prefix_or_prefix_of_prefix hfactor hrate
      exact absurd hpre (by decide)
    next => cases hfps
  next => cases h

theorem dxmtEntries_bytes {value e : Bytes} (h : e ∈ dxmtEntries value) : (59 : UInt8) ∉ e ∧ isTrimmed e = false := by
  rw [dxmtEntries, List.mem_filter, Bool.not_eq_true'] at h
  exact ⟨notMem_of_mem_splitOn h.1, h.2⟩

theorem dxmtEntries_intercalate {entries : List Bytes} (h : ∀ e ∈ entries, (59 : UInt8) ∉ e ∧ isTrimmed e = false) :
    dxmtEntries (([59] : Bytes).intercalate entries) = entries := by
  by_cases hnil : entries = []
  · rw [hnil]
    rfl
  · rw [dxmtEntries, List.splitOn_intercalate 59 (fun e he ↦ (h e he).1) hnil, List.filter_eq_self]
    intro e he
    rw [(h e he).2]
    rfl

theorem dxmtEntries_withClause {factor : Bool} {clause : Bytes} (h : clause ∈ validClauses factor) (value : Bytes) :
    dxmtEntries (withClause value clause) = dxmtEntries value ++ [clause] := by
  have hsemi : (59 : UInt8) ∉ clause := fun hm ↦ (validClauses_bytes h 59 hm).1 rfl
  have htrim := (validClauses_entry h).2.2
  unfold withClause
  split
  next hnil =>
    rw [hnil, dxmtEntries, List.splitOn_eq_singleton hsemi, List.filter_cons_of_pos (by rw [htrim]; rfl)]
    rfl
  next =>
    rw [dxmtEntries, List.splitOn_append_cons_self, List.splitOn_eq_singleton hsemi, List.filter_append,
      List.filter_cons_of_pos (by rw [htrim]; rfl)]
    rfl

theorem plainBlanks_withClause {factor : Bool} {value clause : Bytes} (h : clause ∈ validClauses factor)
    (hvalue : PlainBlanks value) : PlainBlanks (withClause value clause) := by
  intro c hc
  unfold withClause at hc
  split at hc
  · exact (validClauses_bytes h c hc).2
  · rw [List.mem_append, List.mem_cons] at hc
    obtain hc | rfl | hc := hc
    · exact hvalue c hc
    · decide
    · exact (validClauses_bytes h c hc).2

/-! ## What the value of `DXMT_CONFIG` says -/

/-- The last entry of each kind, and the other entries. -/
structure DxmtReading where
  factor : Option Bytes
  fps : Option Bytes
  rest : List Bytes

def readingOf (entries : List Bytes) : DxmtReading where
  factor := (entries.filter fk).getLast?
  fps := (entries.filter fpk).getLast?
  rest := entries.filter fun e ↦ !fk e && !fpk e

def dxmtReading (value : Bytes) : DxmtReading := readingOf (dxmtEntries value)

/-- A factor and a rate in front of other entries are read as such. -/
theorem readingOf_parts {factor fps : Option Bytes} {rest : List Bytes} (hfactor : ∀ f, factor = some f → fk f = true)
    (hfps : ∀ p, fps = some p → fpk p = true) (hrest : ∀ e ∈ rest, fk e = false ∧ fpk e = false) :
    readingOf ([factor, fps].filterMap id ++ rest) = ⟨factor, fps, rest⟩ := by
  have hnofk : rest.filter fk = [] := List.filter_eq_nil_iff.mpr fun e he ↦ by simp [(hrest e he).1]
  have hnofpk : rest.filter fpk = [] := List.filter_eq_nil_iff.mpr fun e he ↦ by simp [(hrest e he).2]
  have hself : rest.filter (fun e ↦ !fk e && !fpk e) = rest :=
    List.filter_eq_self.mpr fun e he ↦ by simp [hrest e he]
  have hapart : ∀ p, fps = some p → fk p = false := by
    intro p hp
    rw [← Bool.not_eq_true]
    intro hk
    have hrate := hfps p hp
    rw [fpk_of_fk hk] at hrate
    cases hrate
  simp only [readingOf, List.filter_append, hnofk, hnofpk, hself, List.append_nil]
  cases factor with
  | none =>
    cases fps with
    | none => rfl
    | some p => simp [hfps p rfl, hapart p rfl]
  | some f =>
    have hf := hfactor f rfl
    cases fps with
    | none => simp [hf, fpk_of_fk hf]
    | some p => simp [hf, fpk_of_fk hf, hfps p rfl, hapart p rfl]

/-- `mergedDxmt` of the panel says what its parts do. -/
theorem dxmtReading_merged {own dfe : List Bytes} (hown : ∀ e ∈ own, (59 : UInt8) ∉ e ∧ isTrimmed e = false)
    (hdfe : ∀ e ∈ dfe, (59 : UInt8) ∉ e ∧ isTrimmed e = false) :
    dxmtReading (mergedDxmt own dfe) =
      ⟨(readingOf own).factor.or (readingOf dfe).factor, (readingOf own).fps.or (readingOf dfe).fps, (readingOf own).rest⟩ := by
  -- An entry of either kind comes from one of the two lists.
  have hlast : ∀ (p : Bytes → Bool) (e : Bytes), ((own.filter p).getLast?).or (dfe.filter p).getLast? = some e →
      (59 : UInt8) ∉ e ∧ isTrimmed e = false ∧ p e = true := by
    intro p e he
    rw [Option.or_eq_some_iff] at he
    obtain he | ⟨-, he⟩ := he
    · obtain ⟨hmem, hp⟩ := List.mem_filter.mp (List.mem_of_getLast? he)
      exact ⟨(hown e hmem).1, (hown e hmem).2, hp⟩
    · obtain ⟨hmem, hp⟩ := List.mem_filter.mp (List.mem_of_getLast? he)
      exact ⟨(hdfe e hmem).1, (hdfe e hmem).2, hp⟩
  have hne : ∀ e : Bytes, isTrimmed e = false → e ≠ [] := by
    rintro e he rfl
    cases he
  have hrest : ∀ e ∈ own.filter (fun e ↦ !fk e && !fpk e), ((59 : UInt8) ∉ e ∧ isTrimmed e = false) ∧
      fk e = false ∧ fpk e = false := by
    intro e he
    obtain ⟨hmem, hp⟩ := List.mem_filter.mp he
    exact ⟨hown e hmem, by simpa using hp⟩
  have hfactor := hlast fk
  have hfps := hlast fpk
  unfold mergedDxmt
  simp only [readingOf]
  generalize (own.filter fk).getLast?.or (dfe.filter fk).getLast? = factor at hfactor ⊢
  generalize (own.filter fpk).getLast?.or (dfe.filter fpk).getLast? = fps at hfps ⊢
  generalize own.filter (fun e ↦ !fk e && !fpk e) = rest at hrest ⊢
  have hmem : ∀ e ∈ [factor, fps].filterMap id ++ rest, (59 : UInt8) ∉ e ∧ isTrimmed e = false := by
    intro e he
    rw [List.mem_append, List.mem_filterMap] at he
    obtain ⟨a, ha, hae⟩ | he := he
    · simp only [List.mem_cons, List.not_mem_nil, or_false] at ha
      obtain rfl | rfl := ha
      · exact ⟨(hfactor e hae).1, (hfactor e hae).2.1⟩
      · exact ⟨(hfps e hae).1, (hfps e hae).2.1⟩
    · exact (hrest e he).1
  have hall : ([factor, fps].filterMap id ++ rest).filter (fun e ↦ e ≠ []) = [factor, fps].filterMap id ++ rest := by
    rw [List.filter_eq_self]
    intro e he
    exact decide_eq_true (hne e (hmem e he).2)
  rw [hall, dxmtReading, dxmtEntries_intercalate hmem]
  exact readingOf_parts (fun f hf ↦ (hfactor f hf).2.2) (fun p hp ↦ (hfps p hp).2.2) fun e he ↦ (hrest e he).2

/-- A clause of a kind the value lacks is added to it. -/
def withDefault (own : Option Bytes) (factor : Bool) (clause : Bytes) : Option Bytes :=
  if grepEntry (entryName factor) (own.getD []) = true then own else some (withClause (own.getD []) clause)

theorem readingOf_withDefault {factor : Bool} {own : Option Bytes} {clause : Bytes} (h : clause ∈ validClauses factor)
    (hown : PlainBlanks (own.getD [])) :
    dxmtReading ((withDefault own factor clause).getD []) =
      ⟨(dxmtReading (own.getD [])).factor.or (if factor then some clause else none),
        (dxmtReading (own.getD [])).fps.or (if factor then none else some clause), (dxmtReading (own.getD [])).rest⟩ := by
  have hname : (100 : UInt8) ∈ entryName factor := by cases factor <;> decide
  obtain ⟨hfk, hfpk, -⟩ := validClauses_entry h
  have hgrep := grepEntry_eq hname hown
  unfold withDefault
  generalize hvalue : own.getD [] = value at hgrep ⊢
  split
  next hentry =>
    rw [hvalue]
    rw [hentry] at hgrep
    obtain ⟨e, he, hmatch⟩ := List.any_eq_true.mp hgrep.symm
    -- the value's own entry is the one that counts
    cases factor with
    | true =>
      have hsome : (dxmtReading value).factor ≠ none := by
        simp only [dxmtReading, readingOf, ne_eq, List.getLast?_eq_none_iff]
        exact List.ne_nil_of_mem (List.mem_filter.mpr ⟨he, hmatch⟩)
      obtain ⟨f, hf⟩ := Option.ne_none_iff_exists'.mp hsome
      cases hreading : dxmtReading value with
      | mk a b c =>
        rw [hreading] at hf
        simp [show a = some f from hf]
    | false =>
      have hsome : (dxmtReading value).fps ≠ none := by
        simp only [dxmtReading, readingOf, ne_eq, List.getLast?_eq_none_iff]
        exact List.ne_nil_of_mem (List.mem_filter.mpr ⟨he, hmatch⟩)
      obtain ⟨f, hf⟩ := Option.ne_none_iff_exists'.mp hsome
      cases hreading : dxmtReading value with
      | mk a b c =>
        rw [hreading] at hf
        simp [show b = some f from hf]
  next hentry =>
    rw [Bool.not_eq_true] at hentry
    rw [hentry] at hgrep
    have hnone : (dxmtEntries value).filter (isEntry isPanelBlank (entryName factor)) = [] := by
      rw [List.filter_eq_nil_iff]
      exact fun e he ↦ by simp [List.any_eq_false.mp hgrep.symm e he]
    simp only [Option.getD_some, dxmtReading, dxmtEntries_withClause h, readingOf, List.filter_append]
    cases factor with
    | true =>
      have hempty : (dxmtEntries value).filter fk = [] := hnone
      simp [hempty, hfk, hfpk]
    | false =>
      have hempty : (dxmtEntries value).filter fpk = [] := hnone
      simp [hempty, hfk, hfpk]

theorem plainBlanks_withDefault {factor : Bool} {own : Option Bytes} {clause : Bytes} (h : clause ∈ validClauses factor)
    (hown : PlainBlanks (own.getD [])) : PlainBlanks ((withDefault own factor clause).getD []) := by
  unfold withDefault
  split
  · exact hown
  · exact plainBlanks_withClause h hown

/-! ## One line -/

/-- The variables the script has for itself here. -/
def loopNames : List Bytes :=
  [ascii "line", ascii "key", ascii "value", ascii "clause", ascii "dxmt_added", ascii "old_ifs",
    ascii "np_defaulted", ascii "np_defaults_runner", ascii "np_defaults_file", ascii "np_dropped", ascii "name",
    ascii "fex_from", ascii "avx_from", ascii "msync_from"]

theorem key_notMem_loopNames : ∀ i : Fin gSettings.length, (gSettings.get i).key ∉ loopNames := by decide

theorem dxmtConfig_notMem : dxmtConfig ∉ loopNames := by decide

section line

variable {env : Bytes → Option Bytes} {name value k : Bytes}

theorem setVar_of_notMem (hname : name ∈ loopNames) (hk : k ∉ loopNames) : setVar env name value k = env k := by
  have hne : k ≠ name := fun e ↦ hk (e ▸ hname)
  unfold setVar
  split
  · exact Function.update_of_ne hne _ _
  · rfl

theorem exportVar_of_ne (h : k ≠ name) : exportVar env name value k = env k := Function.update_of_ne h _ _

theorem exportVar_self : exportVar env name value name = some value := Function.update_self ..

theorem setVar_dxmt (hname : name ∈ loopNames) : setVar env name value dxmtConfig = env dxmtConfig :=
  setVar_of_notMem hname dxmtConfig_notMem

theorem note_env {st : SavedLoop} {line : Bytes} (hk : k ∉ loopNames) : (st.note line).env k = st.env k :=
  setVar_of_notMem (by decide) hk

/-- The lists in the script are those of `defaults.c`. -/
theorem validClauses_script {factor : Bool} {clause : Bytes} (h : clause ∈ validClauses factor) :
    factorPrefix.isPrefixOf clause = factor ∧ fpsPrefix.isPrefixOf clause = !factor ∧
      (factor = true → afterEquals clause ∈ upscaleFactors) ∧
      (factor = false → afterEquals clause ∈ frameRates ∧ clause.drop fpsPrefix.length ∈ frameRates) := by
  have hall : ∀ factor, ∀ clause ∈ validClauses factor,
      factorPrefix.isPrefixOf clause = factor ∧ fpsPrefix.isPrefixOf clause = !factor ∧
        (factor = true → afterEquals clause ∈ upscaleFactors) ∧
        (factor = false → afterEquals clause ∈ frameRates ∧ clause.drop fpsPrefix.length ∈ frameRates) := by
    decide
  exact hall factor clause h

theorem addClause_env {values : List Bytes} {st : (Bytes → Option Bytes) × Bytes} {clause : Bytes} (hk : k ∉ loopNames)
    (hdxmt : k ≠ dxmtConfig) : (addClause name values st clause).1 k = st.1 k := by
  unfold addClause
  simp only
  split
  · rfl
  split
  · rfl
  exact (setVar_of_notMem (by decide) hk).trans (exportVar_of_ne hdxmt)

theorem addClause_dxmt {values : List Bytes} {st : (Bytes → Option Bytes) × Bytes} {clause : Bytes} (factor : Bool)
    (h : afterEquals clause ∈ values) :
    (addClause (entryName factor) values st clause).1 dxmtConfig = withDefault (st.1 dxmtConfig) factor clause := by
  unfold addClause withDefault
  simp only
  rw [if_neg (not_not.mpr h)]
  split
  · rfl
  · exact (setVar_dxmt (by decide)).trans exportVar_self

theorem clauseStep_env {st : (Bytes → Option Bytes) × Bytes} {clause : Bytes} (hk : k ∉ loopNames)
    (hdxmt : k ≠ dxmtConfig) : (clauseStep st clause).1 k = st.1 k := by
  have hclause : setVar st.1 (ascii "clause") clause k = st.1 k := setVar_of_notMem (by decide) hk
  unfold clauseStep
  simp only
  split
  · exact (addClause_env hk hdxmt).trans hclause
  split
  · exact (addClause_env hk hdxmt).trans hclause
  · exact hclause

theorem clauseStep_dxmt {st : (Bytes → Option Bytes) × Bytes} {clause : Bytes} {factor : Bool}
    (h : clause ∈ validClauses factor) :
    (clauseStep st clause).1 dxmtConfig = withDefault (st.1 dxmtConfig) factor clause := by
  obtain ⟨hfactor, hfps, hvalue, hrate⟩ := validClauses_script h
  have hclause : setVar st.1 (ascii "clause") clause dxmtConfig = st.1 dxmtConfig := setVar_dxmt (by decide)
  unfold clauseStep
  simp only
  cases factor with
  | true =>
    rw [if_pos hfactor, ← hclause]
    exact addClause_dxmt true (hvalue rfl)
  | false =>
    rw [if_neg (by rw [hfactor]; exact Bool.false_ne_true), if_pos (show _ = true from hfps), ← hclause]
    exact addClause_dxmt false (hrate rfl).1

theorem foldl_clauseStep_env (clauses : List Bytes) (st : (Bytes → Option Bytes) × Bytes) (hk : k ∉ loopNames)
    (hdxmt : k ≠ dxmtConfig) : (clauses.foldl clauseStep st).1 k = st.1 k := by
  induction clauses generalizing st with
  | nil => rfl
  | cons clause clauses ih => rw [List.foldl_cons, ih, clauseStep_env hk hdxmt]

/-- The environment once the loop has taken its line apart. -/
def lineEnv (env : Bytes → Option Bytes) (line : Bytes) : Bytes → Option Bytes :=
  setVar (setVar (setVar env (ascii "line") line) (ascii "key") (splitAt 61 line).1) (ascii "value") (afterEquals line)

theorem lineEnv_apply {line : Bytes} (hk : k ∉ loopNames) : lineEnv env line k = env k := by
  rw [lineEnv, setVar_of_notMem (by decide) hk, setVar_of_notMem (by decide) hk, setVar_of_notMem (by decide) hk]

/-- A line changes no variable but `DXMT_CONFIG` and the one it names, the loop's own aside. -/
theorem savedLine_env (arm : Bool) (st : SavedLoop) (line : Bytes) (hk : k ∉ loopNames) (hdxmt : k ≠ dxmtConfig)
    (hkey : k ≠ (splitAt 61 line).1) : (savedLine arm st line).env k = st.env k := by
  have hline : lineEnv st.env line k = st.env k := lineEnv_apply hk
  have hfold : ((fieldsOf 59 (afterEquals line)).foldl clauseStep
      (setVar (setVar (lineEnv st.env line) (ascii "dxmt_added") []) (ascii "old_ifs") (ascii " \t\n"), [])).1 k = st.env k := by
    rw [foldl_clauseStep_env _ _ hk hdxmt]
    exact (setVar_of_notMem (by decide) hk).trans ((setVar_of_notMem (by decide) hk).trans hline)
  unfold savedLine
  simp only
  split
  · exact hline
  · split
    · exact hline
    · exact (note_env hk).trans ((exportVar_of_ne hkey).trans hline)
  · split
    · exact hfold
    · exact (note_env hk).trans hfold
  · split
    · exact hline
    split
    · exact hline
    · exact (note_env hk).trans ((exportVar_of_ne hdxmt).trans hline)
  · split
    · exact hline
    split
    · exact hline
    · exact (note_env hk).trans ((exportVar_of_ne hdxmt).trans hline)

end line

/-! ## The lines a save takes -/

section valid

variable {runner : Nat} {key value : Bytes} {i : Fin gSettings.length}

theorem settingIndex_runner (h : settingIndex runner key = some i) :
    runner ∈ [npDefaultsRosetta, npDefaultsFex] ∧ runner ∈ (gSettings.get i).runners := by
  unfold settingIndex at h
  split at h
  · cases h
  next hle =>
    have hi := (List.findFinIdx?_eq_some_iff.mp h).1
    rw [Bool.and_eq_true, decide_eq_true_eq, decide_eq_true_eq] at hi
    refine ⟨?_, hi.2⟩
    have hor : runner = 0 ∨ runner = 1 := by
      simp only [npDefaultsFex] at hle
      omega
    simpa [npDefaultsRosetta, npDefaultsFex] using hor

/-- The `case` takes what a save takes, on the Wine of its runner. -/
theorem lineCase_plain (hi : settingIndex runner key = some i) (hv : validValue (gSettings.get i) runner value = true)
    (hkey : key ≠ dxmtConfig) : lineCase (runner == npDefaultsFex) (lineOf (key, value)) = .plain := by
  have hall : ∀ runner ∈ [npDefaultsRosetta, npDefaultsFex], ∀ i : Fin gSettings.length,
      runner ∈ (gSettings.get i).runners → (gSettings.get i).key ≠ dxmtConfig →
      (gSettings.get i).prefix_ = [] ∧
      ∀ v, (v ∈ (gSettings.get i).values ∨ runner = npDefaultsRosetta ∧ v ∈ (gSettings.get i).rosettaValues) →
        lineCase (runner == npDefaultsFex) (lineOf ((gSettings.get i).key, v)) = .plain := by
    have hvalues : ∀ runner ∈ [npDefaultsRosetta, npDefaultsFex], ∀ i : Fin gSettings.length,
        runner ∈ (gSettings.get i).runners → (gSettings.get i).key ≠ dxmtConfig →
        (gSettings.get i).prefix_ = [] ∧
        (∀ v ∈ (gSettings.get i).values,
          lineCase (runner == npDefaultsFex) (lineOf ((gSettings.get i).key, v)) = .plain) ∧
        (runner = npDefaultsRosetta → ∀ v ∈ (gSettings.get i).rosettaValues,
          lineCase (runner == npDefaultsFex) (lineOf ((gSettings.get i).key, v)) = .plain) := by decide
    intro runner hrunner i hruns hkey
    obtain ⟨hpre, hplain, hrosetta⟩ := hvalues runner hrunner i hruns hkey
    exact ⟨hpre, fun v hv ↦ hv.elim (hplain v) fun hr ↦ hrosetta hr.1 v hr.2⟩
  obtain ⟨hrunner, hruns⟩ := settingIndex_runner hi
  have hname := settingIndex_key hi
  rw [hname] at hkey
  obtain ⟨hpre, hplain⟩ := hall runner hrunner i hruns hkey
  rw [validValue, if_neg hkey, hpre] at hv
  simp only [List.length_nil, Nat.le_zero, List.take_zero, ne_eq, not_true_eq_false, or_false, List.drop_zero] at hv
  split at hv
  · cases hv
  rw [Bool.or_eq_true, decide_eq_true_eq, Bool.and_eq_true, decide_eq_true_eq, beq_iff_eq] at hv
  rw [hname]
  exact hplain value hv

theorem savedLine_plain {st : SavedLoop} (hi : settingIndex runner key = some i)
    (hv : validValue (gSettings.get i) runner value = true) (hkey : key ≠ dxmtConfig) :
    (savedLine (runner == npDefaultsFex) st (lineOf (key, value))).env key = (st.env key).or (some value) := by
  have hloop : key ∉ loopNames := settingIndex_key hi ▸ key_notMem_loopNames i
  have hsplit : splitAt 61 (lineOf (key, value)) = (key, some value) := splitAt_lineOf hi
  have hline : lineEnv st.env (lineOf (key, value)) key = st.env key := lineEnv_apply hloop
  simp only [lineEnv, afterEquals, hsplit, Option.getD_some] at hline
  simp only [savedLine, lineCase_plain hi hv hkey, hsplit, afterEquals, Option.getD_some]
  split
  next hset =>
    rw [hline] at hset
    obtain ⟨own, hown⟩ := Option.isSome_iff_exists.mp hset
    rw [hown] at hline ⊢
    exact hline
  next hset =>
    rw [hline, Bool.not_eq_true, Option.isSome_eq_false_iff, Option.isNone_iff_eq_none] at hset
    rw [note_env hloop, hset]
    exact Function.update_self _ _ _

-- a line of another setting changes the variable it names only, `DXMT_CONFIG` included
theorem savedLine_other {st : SavedLoop} {k : Bytes} (hi : settingIndex runner key = some i)
    (hv : validValue (gSettings.get i) runner value = true) (hkey : key ≠ dxmtConfig) (hk : k ≠ key) (hloop : k ∉ loopNames) :
    (savedLine (runner == npDefaultsFex) st (lineOf (key, value))).env k = st.env k := by
  have hsplit : splitAt 61 (lineOf (key, value)) = (key, some value) := splitAt_lineOf hi
  have hline : lineEnv st.env (lineOf (key, value)) k = st.env k := lineEnv_apply hloop
  simp only [lineEnv, afterEquals, hsplit, Option.getD_some] at hline
  simp only [savedLine, lineCase_plain hi hv hkey, hsplit, afterEquals, Option.getD_some]
  split
  · exact hline
  · exact (note_env hloop).trans ((exportVar_of_ne hk).trans hline)

theorem lineCase_dxmt (arm : Bool) (value : Bytes) : lineCase arm (lineOf (dxmtConfig, value)) =
    if (59 : UInt8) ∈ value then .clauses
    else if factorPrefix.isPrefixOf value then .factor
    else if fpsPrefix.isPrefixOf value then .fps
    else .skip := by
  have hall : ∀ line ∈ backendLines ++ rosettaLines ++ switchLines "FEX_X87REDUCEDPRECISION" ++ commonLines,
      stripStart (ascii "DXMT_CONFIG=") line = none := by decide
  have hstrip : stripStart (ascii "DXMT_CONFIG=") (lineOf (dxmtConfig, value)) = some value := by
    rw [stripStart, show lineOf (dxmtConfig, value) = ascii "DXMT_CONFIG=" ++ value from rfl, if_pos, List.drop_left]
    exact List.isPrefixOf_iff_prefix.mpr (List.prefix_append _ _)
  have hno : ∀ lines : List Bytes, lines ⊆ backendLines ++ rosettaLines ++ switchLines "FEX_X87REDUCEDPRECISION" ++ commonLines →
      lineOf (dxmtConfig, value) ∉ lines := by
    intro lines hsub hmem
    rw [hall _ (hsub hmem)] at hstrip
    cases hstrip
  unfold lineCase
  have hback : lineOf (dxmtConfig, value) ∉ backendLines :=
    hno _ fun _ h ↦ List.mem_append_left _ (List.mem_append_left _ (List.mem_append_left _ h))
  have hrosetta : lineOf (dxmtConfig, value) ∉ rosettaLines :=
    hno _ fun _ h ↦ List.mem_append_left _ (List.mem_append_left _ (List.mem_append_right _ h))
  have hfex : lineOf (dxmtConfig, value) ∉ switchLines "FEX_X87REDUCEDPRECISION" :=
    hno _ fun _ h ↦ List.mem_append_left _ (List.mem_append_right _ h)
  have hcommon : lineOf (dxmtConfig, value) ∉ commonLines := hno _ fun _ h ↦ List.mem_append_right _ h
  rw [if_neg hback, if_neg hrosetta, if_neg hfex, if_neg hcommon, hstrip]

theorem splitAt_dxmt (value : Bytes) : splitAt 61 (lineOf (dxmtConfig, value)) = (dxmtConfig, some value) :=
  splitAt_append (show (61 : UInt8) ∉ dxmtConfig by decide) value

/-- The clauses of a saved value that a text has no entry for. -/
def missingClauses (own saved : Bytes) : List Bytes :=
  (saved.splitOn 59).filter fun clause ↦ !grepEntry (entryName (factorPrefix.isPrefixOf clause)) own

/-- A value with clauses added behind it, and left alone where there are none. -/
def withClauses (own : Option Bytes) (clauses : List Bytes) : Option Bytes :=
  if clauses = [] then own
  else some (([59] : Bytes).intercalate ((if own.getD [] = [] then [] else [own.getD []]) ++ clauses))

theorem withDefault_eq {factor : Bool} {clause : Bytes} (own : Option Bytes) :
    withDefault own factor clause = withClauses own (if grepEntry (entryName factor) (own.getD []) = true then [] else [clause]) := by
  unfold withDefault withClauses
  split
  · rfl
  · rw [if_neg (List.cons_ne_nil _ _)]
    unfold withClause
    split
    · simp [List.intercalate]
    · simp [List.intercalate]

-- An added clause is no entry of the other kind, whatever it is added to.
theorem grepEntry_withClause {factor : Bool} {clause : Bytes} (h : clause ∈ validClauses factor) (value : Bytes) :
    grepEntry (entryName (!factor)) (withClause value clause) = grepEntry (entryName (!factor)) value := by
  have hnone : grepEntry (entryName (!factor)) clause = false := by
    have hall : ∀ factor, ∀ clause ∈ validClauses factor, grepEntry (entryName (!factor)) clause = false := by decide
    exact hall factor clause h
  unfold withClause
  split
  next hnil =>
    rw [hnil, hnone]
    cases factor <;> rfl
  next =>
    unfold grepEntry at hnone ⊢
    rw [List.map_append, List.map_cons, if_pos rfl, List.splitOn_append_cons_self, List.any_append, hnone, Bool.or_false]

theorem missingClauses_one {factor : Bool} {clause saved : Bytes} (h : clause ∈ validClauses factor)
    (hsplit : saved.splitOn 59 = [clause]) (own : Option Bytes) :
    withDefault own factor clause = withClauses own (missingClauses (own.getD []) saved) := by
  have hfactor : factorPrefix.isPrefixOf clause = factor := (validClauses_script h).1
  rw [withDefault_eq, missingClauses, hsplit, List.filter_singleton, hfactor]
  cases grepEntry (entryName factor) (own.getD []) <;> rfl

theorem missingClauses_two {factor : Bool} {clause other saved : Bytes} (h : clause ∈ validClauses factor)
    (hother : other ∈ validClauses (!factor)) (hsplit : saved.splitOn 59 = [clause, other]) (own : Option Bytes) :
    withDefault (withDefault own factor clause) (!factor) other =
      withClauses own (missingClauses (own.getD []) saved) := by
  have hfactor : factorPrefix.isPrefixOf clause = factor := (validClauses_script h).1
  have hfactor' : factorPrefix.isPrefixOf other = !factor := (validClauses_script hother).1
  simp only [missingClauses, hsplit, List.filter_cons, List.filter_nil, hfactor, hfactor']
  by_cases hgrep : grepEntry (entryName factor) (own.getD []) = true
  · have hkept : withDefault own factor clause = own := if_pos hgrep
    rw [hkept, withDefault_eq]
    cases grepEntry (entryName (!factor)) (own.getD []) <;> simp [hgrep]
  · have hadded : withDefault own factor clause = some (withClause (own.getD []) clause) := if_neg hgrep
    rw [hadded]
    unfold withDefault
    rw [Option.getD_some, grepEntry_withClause h]
    by_cases hgrep' : grepEntry (entryName (!factor)) (own.getD []) = true
    · rw [if_pos hgrep', ← hadded, withDefault_eq, if_neg hgrep]
      simp [hgrep, hgrep']
    · rw [if_neg hgrep']
      have hne : clause ≠ [] := by
        rintro rfl
        have hempty : ∀ factor, ([] : Bytes) ∉ validClauses factor := by decide
        exact hempty factor h
      unfold withClause withClauses
      split
      · simp_all [List.intercalate]
      · simp_all [List.intercalate]

/-- A line of one clause adds it where the environment's own value has no entry of its kind. -/
theorem savedLine_clause (arm : Bool) (st : SavedLoop) {factor : Bool} {clause : Bytes} (hclause : clause ∈ validClauses factor) :
    (savedLine arm st (lineOf (dxmtConfig, clause))).env dxmtConfig = withDefault (st.env dxmtConfig) factor clause := by
  have hown : lineEnv st.env (lineOf (dxmtConfig, clause)) dxmtConfig = st.env dxmtConfig := lineEnv_apply dxmtConfig_notMem
  simp only [lineEnv, afterEquals, splitAt_dxmt, Option.getD_some] at hown
  have hsemi : (59 : UInt8) ∉ clause := fun hm ↦ (validClauses_bytes hclause 59 hm).1 rfl
  obtain ⟨hfactor, hfps, hin, hrate⟩ := validClauses_script hclause
  simp only [savedLine, lineCase_dxmt, if_neg hsemi, afterEquals, splitAt_dxmt, Option.getD_some]
  rw [withDefault, ← hown]
  generalize setVar (setVar (setVar st.env _ _) _ _) _ _ = env
  -- The entry is looked for in the value the environment has.
  have hadd : ∀ name, (if grepEntry name ((env dxmtConfig).getD []) = true then ⟨env, st.defaulted⟩
      else SavedLoop.note ⟨exportVar env dxmtConfig (withClause ((env dxmtConfig).getD []) clause), st.defaulted⟩
        (lineOf (dxmtConfig, clause))).env dxmtConfig =
      if grepEntry name ((env dxmtConfig).getD []) = true then env dxmtConfig
      else some (withClause ((env dxmtConfig).getD []) clause) := by
    intro name
    split
    · rfl
    · rw [note_env dxmtConfig_notMem]
      show exportVar env dxmtConfig _ dxmtConfig = _
      exact exportVar_self
  cases factor with
  | true =>
    have hmem : (splitAt 61 clause).2.getD clause ∈ upscaleFactors := hin rfl
    simp only [hfactor, if_true, not_not.mpr hmem, if_false]
    exact hadd factorName
  | false =>
    simp only [hfactor, show fpsPrefix.isPrefixOf clause = true from hfps, Bool.false_eq_true, if_false, if_true,
      not_not.mpr (hrate rfl).2]
    exact hadd fpsName

/-- A line of two clauses adds each in its turn. -/
theorem savedLine_clauses (arm : Bool) (st : SavedLoop) {factor : Bool} {clause other : Bytes}
    (hclause : clause ∈ validClauses factor) (hother : other ∈ validClauses (!factor)) (hsplit : value.splitOn 59 = [clause, other]) :
    (savedLine arm st (lineOf (dxmtConfig, value))).env dxmtConfig =
      withDefault (withDefault (st.env dxmtConfig) factor clause) (!factor) other := by
  have hown : lineEnv st.env (lineOf (dxmtConfig, value)) dxmtConfig = st.env dxmtConfig := lineEnv_apply dxmtConfig_notMem
  simp only [lineEnv, afterEquals, splitAt_dxmt, Option.getD_some] at hown
  have hsemi : (59 : UInt8) ∈ value := by
    have hjoin : ([59] : Bytes).intercalate (value.splitOn 59) = value := List.intercalate_splitOn 59
    rw [← hjoin, hsplit]
    simp [List.intercalate]
  have hfields : fieldsOf 59 value = [clause, other] := by
    have hlast : other ≠ [] := by
      rintro rfl
      have hempty : ∀ factor, ([] : Bytes) ∉ validClauses factor := by decide
      exact hempty _ hother
    simp [fieldsOf, hsplit, hlast]
  simp only [savedLine, lineCase_dxmt, if_pos hsemi, afterEquals, splitAt_dxmt, Option.getD_some, hfields,
    List.foldl_cons, List.foldl_nil]
  have hset : ∀ env : Bytes → Option Bytes,
      setVar (setVar env (ascii "dxmt_added") []) (ascii "old_ifs") (ascii " \t\n") dxmtConfig = env dxmtConfig :=
    fun env ↦ (setVar_dxmt (by decide)).trans (setVar_dxmt (by decide))
  have hboth : ∀ env : Bytes → Option Bytes, env dxmtConfig = st.env dxmtConfig →
      (clauseStep (clauseStep (env, []) clause) other).1 dxmtConfig =
        withDefault (withDefault (st.env dxmtConfig) factor clause) (!factor) other := by
    intro env henv
    rw [clauseStep_dxmt hother, clauseStep_dxmt hclause, ← henv]
  -- Whether a clause was added is noted beside the value.
  split
  · exact hboth _ ((hset _).trans hown)
  · exact (note_env dxmtConfig_notMem).trans (hboth _ ((hset _).trans hown))

/-- A `DXMT_CONFIG` line adds the clauses the environment's own value lacks. -/
theorem savedLine_dxmt (arm : Bool) (st : SavedLoop) (hv : validDxmtConfig value = true) :
    ∃ factor, ∃ clause ∈ validClauses factor,
      (value.splitOn 59 = [clause] ∧
        (savedLine arm st (lineOf (dxmtConfig, value))).env dxmtConfig = withDefault (st.env dxmtConfig) factor clause) ∨
      ∃ other ∈ validClauses (!factor), value.splitOn 59 = [clause, other] ∧
        (savedLine arm st (lineOf (dxmtConfig, value))).env dxmtConfig =
          withDefault (withDefault (st.env dxmtConfig) factor clause) (!factor) other := by
  obtain ⟨factor, clause, hclause, hsplit⟩ := validDxmtConfig_split hv
  refine ⟨factor, clause, hclause, ?_⟩
  obtain hsplit | ⟨other, hother, hsplit⟩ := hsplit
  · have hvalue : value = clause := by
      have hjoin : ([59] : Bytes).intercalate (value.splitOn 59) = value := List.intercalate_splitOn 59
      rw [hsplit] at hjoin
      simpa [List.intercalate] using hjoin.symm
    rw [hvalue] at hsplit ⊢
    exact .inl ⟨hsplit, savedLine_clause arm st hclause⟩
  · exact .inr ⟨other, hother, hsplit, savedLine_clauses arm st hclause hother hsplit⟩

theorem savedLine_missing {arm : Bool} {st : SavedLoop} (hv : validDxmtConfig value = true) :
    (savedLine arm st (lineOf (dxmtConfig, value))).env dxmtConfig =
      withClauses (st.env dxmtConfig) (missingClauses ((st.env dxmtConfig).getD []) value) := by
  obtain ⟨factor, clause, hclause, ⟨hsplit, hown⟩ | ⟨other, hother, hsplit, hown⟩⟩ := savedLine_dxmt arm st hv
  · rw [hown, missingClauses_one hclause hsplit]
  · rw [hown, missingClauses_two hclause hother hsplit]

/-- What the value says with the clauses added: its own entries, and those of the line where it has none. -/
theorem dxmtReading_missing (hv : validDxmtConfig value = true) {own : Option Bytes} (hplain : PlainBlanks (own.getD [])) :
    dxmtReading ((withClauses own (missingClauses (own.getD []) value)).getD []) =
      ⟨(dxmtReading (own.getD [])).factor.or (dxmtReading value).factor,
        (dxmtReading (own.getD [])).fps.or (dxmtReading value).fps, (dxmtReading (own.getD [])).rest⟩ := by
  obtain ⟨factor, clause, hclause, hsplit | ⟨other, hother, hsplit⟩⟩ := validDxmtConfig_split hv
  · obtain ⟨hfk, hfpk, htrim⟩ := validClauses_entry hclause
    have hentries : dxmtEntries value = [clause] := by simp [dxmtEntries, hsplit, htrim]
    rw [← missingClauses_one hclause hsplit, readingOf_withDefault hclause hplain]
    cases factor <;> simp [dxmtReading, hentries, readingOf, hfk, hfpk]
  · obtain ⟨hfk, hfpk, htrim⟩ := validClauses_entry hclause
    obtain ⟨hfk', hfpk', htrim'⟩ := validClauses_entry hother
    have hentries : dxmtEntries value = [clause, other] := by simp [dxmtEntries, hsplit, htrim, htrim']
    rw [← missingClauses_two hclause hother hsplit, readingOf_withDefault hother (plainBlanks_withDefault hclause hplain),
      readingOf_withDefault hclause hplain]
    cases factor <;> simp [dxmtReading, hentries, readingOf, hfk, hfpk, hfk', hfpk']

end valid

/-! ## The whole file -/

theorem fieldsOf_filter (c : UInt8) (s : Bytes) :
    (fieldsOf c s).filter (· ≠ []) = (s.splitOn c).filter (· ≠ []) := by
  unfold fieldsOf
  simp only
  split
  next hlast =>
    have hne : s.splitOn c ≠ [] := List.splitOn_ne_nil c s
    have hempty : (s.splitOn c).getLast hne = [] := by
      rw [List.getLast?_eq_some_getLast hne] at hlast
      exact Option.some.inj hlast
    conv_rhs => rw [← List.dropLast_append_getLast hne, hempty]
    simp
  next => rfl

section run

variable {runner : Nat} {k : Bytes}

theorem savedLine_nil (arm : Bool) (st : SavedLoop) (hk : k ∉ loopNames) : (savedLine arm st []).env k = st.env k := by
  have hcase : lineCase arm [] = .skip := by cases arm <;> decide
  simp only [savedLine, hcase]
  exact lineEnv_apply hk

/-- The settings of a file that the environment does not have are set, and nothing else. -/
theorem foldl_savedLine_env {lines : List (Bytes × Bytes)} (h : Valid runner lines) (hk : k ∉ loopNames) (hdxmt : k ≠ dxmtConfig)
    {raw : List Bytes} (hraw : raw.filter (· ≠ []) = lines.map lineOf) (st : SavedLoop) :
    (raw.foldl (savedLine (runner == npDefaultsFex)) st).env k = (st.env k).or (lines.lookup k) := by
  induction raw generalizing lines st with
  | nil =>
    rw [List.map_eq_nil_iff.mp hraw.symm, List.lookup_nil, Option.or_none]
    rfl
  | cons line raw ih =>
    rw [List.foldl_cons]
    by_cases hline : line = []
    · rw [hline] at hraw ⊢
      rw [ih h (by simpa using hraw), savedLine_nil _ st hk]
    · rw [List.filter_cons_of_pos (by simpa using hline)] at hraw
      cases lines with
      | nil => cases hraw
      | cons l lines =>
        obtain ⟨hhead, htail⟩ := List.cons.inj hraw
        obtain ⟨i, hi, hv⟩ := h.each l List.mem_cons_self
        have hrest : Valid runner lines := by
          refine ⟨?_, fun l hl ↦ h.each l (List.mem_cons_of_mem _ hl)⟩
          have hnodup := h.nodup
          rw [List.map_cons, List.nodup_cons] at hnodup
          exact hnodup.2
        rw [ih hrest htail, hhead]
        -- A name stands in one line, so the rest of the file does not undo it.
        by_cases hkey : k = l.1
        · subst hkey
          rw [savedLine_plain hi hv hdxmt, Option.or_assoc, List.lookup_cons, beq_self_eq_true, Option.some_or]
        · rw [savedLine_env _ st _ hk hdxmt (by rw [splitAt_lineOf hi]; exact hkey), List.lookup_cons,
            beq_eq_false_iff_ne.mpr hkey]

theorem reading_nil : dxmtReading [] = ⟨none, none, []⟩ := by
  have hentries : dxmtEntries [] = [] := rfl
  rw [dxmtReading, hentries]
  rfl

theorem valid_lookup_dxmt {lines : List (Bytes × Bytes)} (h : Valid runner lines) {value : Bytes}
    (hvalue : lines.lookup dxmtConfig = some value) : validDxmtConfig value = true := by
  obtain ⟨before, after, rfl, -⟩ := List.lookup_eq_some_iff.mp hvalue
  obtain ⟨i, hi, hv⟩ := h.each (dxmtConfig, value) (by simp)
  rwa [validValue, if_pos (settingIndex_key hi).symm] at hv

/-- The clauses of a file that the environment's own value lacks are added to it. -/
theorem foldl_savedLine_dxmt {lines : List (Bytes × Bytes)} (h : Valid runner lines) {raw : List Bytes}
    (hraw : raw.filter (· ≠ []) = lines.map lineOf) (st : SavedLoop) :
    (raw.foldl (savedLine (runner == npDefaultsFex)) st).env dxmtConfig =
      withClauses (st.env dxmtConfig)
        ((lines.lookup dxmtConfig).elim [] (missingClauses ((st.env dxmtConfig).getD []))) := by
  induction raw generalizing lines st with
  | nil =>
    rw [List.map_eq_nil_iff.mp hraw.symm]
    rfl
  | cons line raw ih =>
    rw [List.foldl_cons]
    by_cases hline : line = []
    · rw [hline] at hraw ⊢
      rw [ih h (by simpa using hraw), savedLine_nil _ st dxmtConfig_notMem]
    · rw [List.filter_cons_of_pos (by simpa using hline)] at hraw
      cases lines with
      | nil => cases hraw
      | cons l lines =>
        obtain ⟨hhead, htail⟩ := List.cons.inj hraw
        obtain ⟨i, hi, hv⟩ := h.each l List.mem_cons_self
        have hnodup := h.nodup
        rw [List.map_cons, List.nodup_cons] at hnodup
        have hrest : Valid runner lines := ⟨hnodup.2, fun l hl ↦ h.each l (List.mem_cons_of_mem _ hl)⟩
        by_cases hkey : dxmtConfig = l.1
        · obtain ⟨key, value⟩ := l
          obtain rfl : key = dxmtConfig := hkey.symm
          -- no later line is one of `DXMT_CONFIG`
          have hnone : lines.lookup dxmtConfig = none := by
            rw [List.lookup_eq_none_iff]
            intro l hl
            rw [bne_iff_ne]
            intro he
            exact hnodup.1 (List.mem_map.mpr ⟨l, hl, by rw [← he]⟩)
          have hvalid : validDxmtConfig value = true := valid_lookup_dxmt h (by rw [List.lookup_cons, beq_self_eq_true])
          rw [hhead, ih hrest htail, hnone, savedLine_missing hvalid, List.lookup_cons, beq_self_eq_true]
          exact if_pos rfl
        · rw [ih hrest htail, hhead, savedLine_other hi hv (Ne.symm hkey) hkey dxmtConfig_notMem, List.lookup_cons,
            beq_eq_false_iff_ne.mpr hkey]

/-! ## The launch's environment -/

section launch

variable {disk disk' : Disk} {text : Bytes}

/-- A text that was saved is lines that a reader takes, each of a setting and none twice. -/
theorem saved_lines (hsave : npDefaultsSave disk runner (some text) = some disk') :
    (fieldsOf 10 (cString text)).filter (· ≠ []) = (eachLine runner (cString text)).out.map lineOf ∧
      Valid runner (eachLine runner (cString text)).out := by
  have hbad : (eachLine runner (cString text)).bad = 0 := by
    unfold npDefaultsSave at hsave
    split at hsave
    · cases hsave
    simp only [saveFile, checkedBody] at hsave
    by_contra hne
    split at hsave
    next => cases hsave
    next hbody =>
      split at hbody
      · cases hbody
      · cases hbody
  obtain ⟨hlines, hvalid⟩ := eachLine_taken hbad
  rw [settingLines, ← fieldsOf_filter] at hlines
  exact ⟨hlines, hvalid⟩

/-- What a key has by the launch options, else by the settings file. -/
def given (env : Bytes → Option Bytes) (lines : List (Bytes × Bytes)) (key : Bytes) : Option Bytes :=
  (env key).or (lines.lookup key)

theorem defaultsStart_apply {file : Bytes} {env : Bytes → Option Bytes} (hk : k ∉ loopNames) :
    defaultsStart runner file env k = env k := by
  rw [defaultsStart, setVar_of_notMem (by decide) hk, setVar_of_notMem (by decide) hk, setVar_of_notMem (by decide) hk]

theorem dropAuto_apply (env : Bytes → Option Bytes) :
    dropAuto env k = if k = cxGraphicsBackend ∧ env k = some (ascii "auto") then none else env k := by
  by_cases hauto : env cxGraphicsBackend = some (ascii "auto")
  · rw [dropAuto, if_pos hauto, unsetVar]
    by_cases hk : k = cxGraphicsBackend
    · subst hk
      rw [if_pos ⟨rfl, hauto⟩, Function.update_self]
    · rw [if_neg fun h ↦ hk h.1, Function.update_of_ne hk]
  · rw [dropAuto, if_neg hauto, if_neg]
    rintro ⟨rfl, h⟩
    exact hauto h

variable {lines : List (Bytes × Bytes)}

theorem savedDefaults_env (hvalid : Valid runner lines) (hlines : (fieldsOf 10 text).filter (· ≠ []) = lines.map lineOf)
    (file : Bytes) (env : Bytes → Option Bytes) (hk : k ∉ loopNames) (hdxmt : k ≠ dxmtConfig) :
    (savedDefaults runner file text env).env k =
      if k = cxGraphicsBackend ∧ given env lines k = some (ascii "auto") then none else given env lines k := by
  have hloop : setVar ((fieldsOf 10 text).foldl (savedLine (runner == npDefaultsFex))
      ⟨defaultsStart runner file env, []⟩).env (ascii "line") [] k = given env lines k := by
    rw [setVar_of_notMem (by decide) hk, foldl_savedLine_env hvalid hk hdxmt hlines]
    exact congrArg (Option.or · _) (defaultsStart_apply hk)
  show dropAuto _ k = _
  rw [dropAuto_apply, hloop]

theorem savedDefaults_dxmt (hvalid : Valid runner lines) (hlines : (fieldsOf 10 text).filter (· ≠ []) = lines.map lineOf)
    (file : Bytes) (env : Bytes → Option Bytes) :
    (savedDefaults runner file text env).env dxmtConfig =
      withClauses (env dxmtConfig) ((lines.lookup dxmtConfig).elim [] (missingClauses ((env dxmtConfig).getD []))) := by
  have hne : dxmtConfig ≠ cxGraphicsBackend := by decide
  have hstart : defaultsStart runner file env dxmtConfig = env dxmtConfig := defaultsStart_apply dxmtConfig_notMem
  show dropAuto _ dxmtConfig = _
  rw [dropAuto_apply, if_neg fun h ↦ hne h.1, setVar_dxmt (by decide), foldl_savedLine_dxmt hvalid hlines,
    ← hstart]

end launch

end run

end NotProton.CompatRun
