import NotProton.CompatRun.SavedDefaults

/-!
# LaunchDefaults — what a launch makes of the settings it starts with (`compat_run.sh`)

Behind the saved settings each of the two Wines drops what it does not take and settles what is still open, and
`WINEMSYNC` is settled where the game has a data path.  What the launch sets for itself in between, the plugins'
lines and the `NOTPROTON_ENV_` options are left out.
-/

open NotProton.Library NotProton.Defaults

namespace NotProton.CompatRun

def fexX87 : Bytes := ascii "FEX_X87REDUCEDPRECISION"
def rosettaAvx : Bytes := ascii "ROSETTA_ADVERTISE_AVX"
def wineMsync : Bytes := ascii "WINEMSYNC"

/-- A name of `^(D3DM_[A-Z0-9_]*|ROSETTA_ADVERTISE_AVX)=`. -/
def isDropped (name : Bytes) : Bool :=
  name = rosettaAvx ||
    match stripStart (ascii "D3DM_") name with
    | some rest => rest.all fun c ↦ isUpper c || isDigit c || c == 95
    | none => false

/-- The names that `env`, `sed` and `sort` print: of every exported variable that is to go, and none to keep. -/
structure Listed (env : Bytes → Option Bytes) (names : List Bytes) : Prop where
  only : ∀ name ∈ names, isDropped name = true
  every : ∀ name, isDropped name = true → env name ≠ none → name ∈ names

/-- `${name:-value}` -/
def orDefault (own : Option Bytes) (value : Bytes) : Bytes := if own.getD [] = [] then value else own.getD []

def npFromDefaults (defaulted key : Bytes) : Bool := decide (32 :: key ++ [61] <:+: 32 :: defaulted ++ [32])

/-- One turn of the loop over the names, with `np_dropped`. -/
def dropName (st : (Bytes → Option Bytes) × Bytes) (name : Bytes) : (Bytes → Option Bytes) × Bytes :=
  let env := unsetVar (setVar st.1 (ascii "name") name) name
  let dropped := if st.2 = [] then name else st.2 ++ 32 :: name
  (setVar env (ascii "np_dropped") dropped, dropped)

/-- With `np_dropped`. -/
def dropMetal (env : Bytes → Option Bytes) : (Bytes → Option Bytes) × Bytes :=
  if env cxGraphicsBackend = some (ascii "d3dmetal") then
    let dropped := cxGraphicsBackend ++ ascii "=d3dmetal"
    (setVar (unsetVar env cxGraphicsBackend) (ascii "np_dropped") dropped, dropped)
  else (env, [])

/-- On `aarch64-unix`. -/
def fexDefaults (file : Bytes) (names : List Bytes) (st : SavedLoop) : Bytes → Option Bytes :=
  let env := setVar st.env (ascii "np_dropped") []
  let env := (names.foldl dropName (dropMetal env)).1
  let origin := if npFromDefaults st.defaulted fexX87 then afterLastSlash file
    else if (env fexX87).isSome then ascii "environment" else ascii "default"
  exportVar (setVar env (ascii "fex_from") origin) fexX87 ((env fexX87).getD (ascii "1"))

/-- On the other Wine. -/
def rosettaDefaults (file : Bytes) (st : SavedLoop) : Bytes → Option Bytes :=
  let env := setVar st.env (ascii "np_dropped") []
  let origin := if npFromDefaults st.defaulted rosettaAvx then afterLastSlash file
    else if (env rosettaAvx).getD [] = [] then ascii "default" else ascii "environment"
  exportVar (setVar env (ascii "avx_from") origin) rosettaAvx (orDefault (env rosettaAvx) (ascii "1"))

/-- `[ -n "$STEAM_COMPAT_DATA_PATH" ]` -/
def hasDataPath (env : Bytes → Option Bytes) : Bool := (env (ascii "STEAM_COMPAT_DATA_PATH")).getD [] != []

def msyncDefaults (file defaulted : Bytes) (env : Bytes → Option Bytes) : Bytes → Option Bytes :=
  if hasDataPath env then
    let origin := if (env wineMsync).getD [] = [] then ascii "default"
      else if npFromDefaults defaulted wineMsync then afterLastSlash file else ascii "environment"
    exportVar (setVar env (ascii "msync_from") origin) wineMsync (orDefault (env wineMsync) (ascii "0"))
  else env

def wineDefaults (runner : Nat) (file : Bytes) (names : List Bytes) (st : SavedLoop) : Bytes → Option Bytes :=
  if runner == npDefaultsFex then fexDefaults file names st else rosettaDefaults file st

/-- The environment a `waitforexitandrun` launch goes on with, where `names` are the names `env` lists. -/
def launchEnv (runner : Nat) (file text : Bytes) (names : List Bytes) (env : Bytes → Option Bytes) :
    Bytes → Option Bytes :=
  let st := savedDefaults runner file text env
  msyncDefaults file st.defaulted (wineDefaults runner file names st)

/-! ## What each key gets -/

/-- What the game gets for a key, of what its options or else the saved settings say. -/
def gameValue (fex data : Bool) (key : Bytes) (value : Option Bytes) : Option Bytes :=
  if key = cxGraphicsBackend then
    if value = some (ascii "auto") ∨ fex = true ∧ value = some (ascii "d3dmetal") then none else value
  else if fex = true ∧ isDropped key = true then none
  else if fex = true ∧ key = fexX87 then some (value.getD (ascii "1"))
  else if fex = false ∧ key = rosettaAvx then some (orDefault value (ascii "1"))
  else if data = true ∧ key = wineMsync then some (orDefault value (ascii "0"))
  else value

section keys

variable {k file : Bytes} {names : List Bytes} {st : SavedLoop}

theorem foldl_dropName (r : (Bytes → Option Bytes) × Bytes) (hk : k ∉ loopNames) :
    (names.foldl dropName r).1 k = if k ∈ names then none else r.1 k := by
  induction names generalizing r with
  | nil => exact (if_neg List.not_mem_nil).symm
  | cons name names ih =>
    have hone : (dropName r name).1 k = if k = name then none else r.1 k := by
      simp only [dropName]
      rw [setVar_of_notMem (by decide) hk, unsetVar]
      by_cases hkn : k = name
      · rw [if_pos hkn, hkn, Function.update_self]
      · rw [if_neg hkn, Function.update_of_ne hkn, setVar_of_notMem (by decide) hk]
    rw [List.foldl_cons, ih, hone]
    by_cases hmem : k ∈ names
    · rw [if_pos hmem, if_pos (List.mem_cons_of_mem _ hmem)]
    · simp only [List.mem_cons, hmem, or_false, if_false]

theorem dropMetal_apply (env : Bytes → Option Bytes) (hk : k ∉ loopNames) :
    (dropMetal env).1 k = if k = cxGraphicsBackend ∧ env k = some (ascii "d3dmetal") then none else env k := by
  by_cases hmetal : env cxGraphicsBackend = some (ascii "d3dmetal")
  · have hset : (dropMetal env).1 k = unsetVar env cxGraphicsBackend k := by
      simp only [dropMetal, if_pos hmetal]
      exact setVar_of_notMem (by decide) hk
    rw [hset, unsetVar]
    by_cases hkey : k = cxGraphicsBackend
    · subst hkey
      rw [Function.update_self, if_pos ⟨rfl, hmetal⟩]
    · rw [Function.update_of_ne hkey, if_neg fun h ↦ hkey h.1]
  · rw [dropMetal, if_neg hmetal, if_neg]
    rintro ⟨rfl, h⟩
    exact hmetal h

/-- What the two ways of dropping leave. -/
theorem fexDropped_apply (hnames : Listed st.env names) (hk : k ∉ loopNames) :
    (names.foldl dropName (dropMetal (setVar st.env (ascii "np_dropped") []))).1 k =
      if isDropped k = true ∨ k = cxGraphicsBackend ∧ st.env k = some (ascii "d3dmetal") then none else st.env k := by
  have hplain : setVar st.env (ascii "np_dropped") [] k = st.env k := setVar_of_notMem (by decide) hk
  rw [foldl_dropName _ hk, dropMetal_apply _ hk, hplain]
  by_cases hdropped : isDropped k = true
  · rw [if_pos (Or.inl hdropped)]
    split
    next => rfl
    next hmem =>
      have hunset : st.env k = none := by
        by_contra hset
        exact hmem (hnames.every k hdropped hset)
      rw [hunset, ite_self]
  · rw [if_neg fun hmem ↦ hdropped (hnames.only k hmem)]
    simp only [hdropped, Bool.false_eq_true, false_or]

theorem fexDefaults_apply (hnames : Listed st.env names) (hk : k ∉ loopNames) :
    fexDefaults file names st k =
      if isDropped k = true ∨ k = cxGraphicsBackend ∧ st.env k = some (ascii "d3dmetal") then none
      else if k = fexX87 then some ((st.env k).getD (ascii "1"))
      else st.env k := by
  simp only [fexDefaults]
  by_cases hfex : k = fexX87
  · subst hfex
    have hkeep : isDropped fexX87 = false ∧ fexX87 ≠ cxGraphicsBackend := by decide
    have hno : ¬ (isDropped fexX87 = true ∨ fexX87 = cxGraphicsBackend ∧ st.env fexX87 = some (ascii "d3dmetal")) := by
      rw [hkeep.1]
      simp [hkeep.2]
    rw [exportVar_self, fexDropped_apply hnames hk, if_neg hno, if_neg hno, if_pos rfl]
  · rw [exportVar_of_ne hfex, setVar_of_notMem (by decide) hk, fexDropped_apply hnames hk, if_neg hfex]

theorem rosettaDefaults_apply (hk : k ∉ loopNames) :
    rosettaDefaults file st k =
      if k = rosettaAvx then some (orDefault (st.env k) (ascii "1")) else st.env k := by
  have havx : rosettaAvx ∉ loopNames := by decide
  simp only [rosettaDefaults]
  by_cases hkey : k = rosettaAvx
  · subst hkey
    rw [exportVar_self, if_pos rfl, setVar_of_notMem (by decide) havx]
  · rw [exportVar_of_ne hkey, if_neg hkey, setVar_of_notMem (by decide) hk, setVar_of_notMem (by decide) hk]

theorem msyncDefaults_apply (env : Bytes → Option Bytes) (defaulted : Bytes) (hk : k ∉ loopNames) :
    msyncDefaults file defaulted env k =
      if hasDataPath env = true ∧ k = wineMsync then some (orDefault (env k) (ascii "0")) else env k := by
  by_cases hdata : hasDataPath env = true
  · simp only [msyncDefaults, hdata, if_true, true_and]
    by_cases hkey : k = wineMsync
    · subst hkey
      rw [exportVar_self, if_pos rfl]
    · rw [exportVar_of_ne hkey, setVar_of_notMem (by decide) hk, if_neg hkey]
  · rw [msyncDefaults, if_neg hdata, if_neg fun h ↦ hdata h.1]

end keys

/-! ## The launch and the panel -/

section launch

variable {runner : Nat} {disk disk' : Disk} {k file text : Bytes} {names : List Bytes} {env : Bytes → Option Bytes}
  {lines : List (Bytes × Bytes)}

theorem gameValue_other {fex data : Bool} {value : Option Bytes} (hk : k ∉ gSettings.map Setting.key)
    (hdropped : fex = true → isDropped k = false) : gameValue fex data k value = value := by
  have hkeys : ∀ key ∈ [cxGraphicsBackend, fexX87, rosettaAvx, wineMsync], k ≠ key := by
    have hall : ∀ key ∈ [cxGraphicsBackend, fexX87, rosettaAvx, wineMsync], key ∈ gSettings.map Setting.key := by decide
    rintro key hkey rfl
    exact hk (hall _ hkey)
  have hdrop : ¬ (fex = true ∧ isDropped k = true) := by
    rintro ⟨hfex, hdrop⟩
    rw [hdropped hfex] at hdrop
    cases hdrop
  rw [gameValue, if_neg (hkeys _ (by simp)), if_neg hdrop, if_neg fun h ↦ hkeys fexX87 (by simp) h.2,
    if_neg fun h ↦ hkeys rosettaAvx (by simp) h.2, if_neg fun h ↦ hkeys wineMsync (by simp) h.2]

theorem given_other (hvalid : Valid runner lines) (hk : k ∉ gSettings.map Setting.key) : given env lines k = env k := by
  have hnone : lines.lookup k = none := by
    rw [List.lookup_eq_none_iff]
    intro l hl
    obtain ⟨i, hi, -⟩ := hvalid.each l hl
    rw [bne_iff_ne]
    rintro rfl
    exact hk (List.mem_map.mpr ⟨gSettings.get i, List.get_mem _ i, (settingIndex_key hi).symm⟩)
  rw [given, hnone, Option.or_none]

theorem gameValue_msync (fex data : Bool) (key : Bytes) (value : Option Bytes) :
    gameValue fex data key value =
      if data = true ∧ key = wineMsync then some (orDefault (gameValue fex false key value) (ascii "0"))
      else gameValue fex false key value := by
  by_cases hkey : key = wineMsync
  · subst hkey
    have hother : wineMsync ≠ cxGraphicsBackend ∧ isDropped wineMsync = false ∧ wineMsync ≠ fexX87 ∧
        wineMsync ≠ rosettaAvx := by decide
    simp [gameValue, hother]
  · simp only [gameValue, hkey, and_false, if_false]

theorem wineDefaults_apply (hvalid : Valid runner lines) (hlines : (fieldsOf 10 text).filter (· ≠ []) = lines.map lineOf)
    (hnames : runner = npDefaultsFex → Listed (savedDefaults runner file text env).env names) (hk : k ∉ loopNames)
    (hdxmt : k ≠ dxmtConfig) :
    wineDefaults runner file names (savedDefaults runner file text env) k =
      gameValue (runner == npDefaultsFex) false k (given env lines k) := by
  have hsaved := savedDefaults_env hvalid hlines file env hk hdxmt
  unfold wineDefaults
  by_cases hfex : runner = npDefaultsFex
  · rw [if_pos (beq_iff_eq.mpr hfex), fexDefaults_apply (hnames hfex) hk, hsaved]
    have hbackend : isDropped cxGraphicsBackend = false ∧ cxGraphicsBackend ≠ fexX87 := by decide
    by_cases hkey : k = cxGraphicsBackend
    · subst hkey
      by_cases hauto : given env lines cxGraphicsBackend = some (ascii "auto")
      · simp [gameValue, hfex, hbackend, hauto]
      · simp [gameValue, hfex, hbackend, hauto]
    · simp [gameValue, hfex, hkey]
  · have hbeq : (runner == npDefaultsFex) = false := beq_eq_false_iff_ne.mpr hfex
    have hbackend : cxGraphicsBackend ≠ rosettaAvx := by decide
    rw [hbeq, if_neg Bool.false_ne_true, rosettaDefaults_apply hk, hsaved]
    by_cases hkey : k = cxGraphicsBackend
    · subst hkey
      simp [gameValue, hbackend]
    · simp [gameValue, hkey]

theorem launchEnv_apply (hvalid : Valid runner lines) (hlines : (fieldsOf 10 text).filter (· ≠ []) = lines.map lineOf)
    (hnames : runner = npDefaultsFex → Listed (savedDefaults runner file text env).env names) (hk : k ∉ loopNames)
    (hdxmt : k ≠ dxmtConfig) :
    launchEnv runner file text names env k =
      gameValue (runner == npDefaultsFex) (hasDataPath env) k (given env lines k) := by
  have hpath : wineDefaults runner file names (savedDefaults runner file text env) (ascii "STEAM_COMPAT_DATA_PATH") =
      env (ascii "STEAM_COMPAT_DATA_PATH") := by
    have hkeys : ascii "STEAM_COMPAT_DATA_PATH" ∉ gSettings.map Setting.key ∧ isDropped (ascii "STEAM_COMPAT_DATA_PATH") = false := by
      decide
    rw [wineDefaults_apply hvalid hlines hnames (by decide) (by decide), gameValue_other hkeys.1 fun _ ↦ hkeys.2,
      given_other hvalid hkeys.1]
  have hdata : hasDataPath (wineDefaults runner file names (savedDefaults runner file text env)) = hasDataPath env := by
    rw [hasDataPath, hpath]
    rfl
  rw [launchEnv, msyncDefaults_apply _ _ hk, hdata, wineDefaults_apply hvalid hlines hnames hk hdxmt, ← gameValue_msync]

theorem launchEnv_dxmt (hvalid : Valid runner lines) (hlines : (fieldsOf 10 text).filter (· ≠ []) = lines.map lineOf)
    (hnames : runner = npDefaultsFex → Listed (savedDefaults runner file text env).env names) :
    launchEnv runner file text names env dxmtConfig =
      withClauses (env dxmtConfig) ((lines.lookup dxmtConfig).elim [] (missingClauses ((env dxmtConfig).getD []))) := by
  have hother : isDropped dxmtConfig = false ∧ dxmtConfig ≠ cxGraphicsBackend ∧ dxmtConfig ≠ fexX87 ∧
      dxmtConfig ≠ rosettaAvx ∧ dxmtConfig ≠ wineMsync := by decide
  rw [launchEnv, msyncDefaults_apply _ _ dxmtConfig_notMem, if_neg fun h ↦ hother.2.2.2.2 h.2, wineDefaults]
  split
  next hfex =>
    rw [fexDefaults_apply (hnames (beq_iff_eq.mp hfex)) dxmtConfig_notMem, savedDefaults_dxmt hvalid hlines]
    simp [hother]
  next =>
    rw [rosettaDefaults_apply dxmtConfig_notMem, if_neg hother.2.2.2.1, savedDefaults_dxmt hvalid hlines]

/-- A launch for whose runner the text is saved.  Every setting has what its options or else the file say, which is what
the panel shows, but for what each Wine drops or settles.  `DXMT_CONFIG` is its own text with the missing clauses behind
it, and says what the panel's does.  No other variable changes but the script's own. -/
theorem savedDefaults_panel (hsave : npDefaultsSave disk runner (some text) = some disk') (file : Bytes)
    (env : Bytes → Option Bytes) {names : List Bytes}
    (hnames : runner = npDefaultsFex → Listed (savedDefaults runner file (cString text) env).env names) :
    let lines := (eachLine runner (cString text)).out
    let launched := launchEnv runner file (cString text) names env
    let shown := panelValue env lines
    let fex := runner == npDefaultsFex
    let own := (env dxmtConfig).getD []
    (∀ s ∈ gSettings, s.key ≠ dxmtConfig →
      shown s.key = (given env lines s.key).getD [] ∧
        launched s.key = gameValue fex (hasDataPath env) s.key (given env lines s.key)) ∧
    launched dxmtConfig = withClauses (env dxmtConfig) ((lines.lookup dxmtConfig).elim [] (missingClauses own)) ∧
    (PlainBlanks own → dxmtReading ((launched dxmtConfig).getD []) = dxmtReading (shown dxmtConfig)) ∧
    ∀ name, name ∉ gSettings.map Setting.key → name ∉ loopNames → (fex = true → isDropped name = false) →
      launched name = env name := by
  intro lines launched shown fex own
  obtain ⟨hlines, hvalid⟩ : _ ∧ Valid runner lines := saved_lines hsave
  have hdxmt : launched dxmtConfig = withClauses (env dxmtConfig) ((lines.lookup dxmtConfig).elim [] (missingClauses own)) :=
    launchEnv_dxmt hvalid hlines hnames
  refine ⟨?_, hdxmt, ?_, ?_⟩
  · intro s hs hkey
    obtain ⟨i, rfl⟩ := List.get_of_mem hs
    refine ⟨?_, launchEnv_apply hvalid hlines hnames (key_notMem_loopNames i) hkey⟩
    show panelValue env lines _ = _
    rw [panelValue, if_neg hkey, given]
    cases env (gSettings.get i).key <;> rfl
  · intro hplain
    -- The panel writes the two entries first; read back, both say the same.
    rw [hdxmt]
    show _ = dxmtReading (panelValue env lines dxmtConfig)
    rw [panelValue, if_pos rfl, dxmtReading_merged (fun _ ↦ dxmtEntries_bytes) fun _ ↦ dxmtEntries_bytes]
    cases hsaved : lines.lookup dxmtConfig with
    | none =>
      show dxmtReading own = ⟨(dxmtReading own).factor.or (dxmtReading []).factor,
        (dxmtReading own).fps.or (dxmtReading []).fps, (dxmtReading own).rest⟩
      simp only [reading_nil, Option.or_none]
    | some value =>
      rw [Option.elim_some, dxmtReading_missing (valid_lookup_dxmt hvalid hsaved) hplain]
      rfl
  · intro name hname hloop hdropped
    have hne : name ≠ dxmtConfig := by
      rintro rfl
      exact hname (by decide)
    show launchEnv runner file (cString text) names env name = env name
    rw [launchEnv_apply hvalid hlines hnames hloop hne, gameValue_other hname hdropped, given_other hvalid hname]

end launch

/-! ## A game that asks for `auto` -/

def userDisk : Disk where
  home := some (ascii "/Users/steam")
  entry := fun _ ↦ .missing
  writable := fun _ ↦ true

def savedText : Bytes := ascii "CX_GRAPHICS_BACKEND=dxvk\nDXMT_CONFIG=d3d11.metalSpatialUpscaleFactor=2.0\n"

def launchOptions (name : Bytes) : Option Bytes :=
  if name = cxGraphicsBackend then some (ascii "auto")
  else if name = dxmtConfig then some (ascii "d3d11.maxFeatureLevel=12_1")
  else if name = ascii "D3DM_ENABLE_METALFX" then some (ascii "1")
  else none

theorem launchOptions_listed : Listed (savedDefaults npDefaultsFex (ascii "defaults-fex") (cString savedText) launchOptions).env
    [ascii "D3DM_ENABLE_METALFX"] := by
  constructor
  · decide
  · intro name hdropped hset
    have hfree : ∀ key ∈ dxmtConfig :: cxGraphicsBackend :: loopNames, name ≠ key := by
      have hnot : ∀ key ∈ dxmtConfig :: cxGraphicsBackend :: loopNames, isDropped key = false := by decide
      rintro key hkey rfl
      rw [hnot _ hkey] at hdropped
      cases hdropped
    have hdxmt := hfree dxmtConfig (by simp)
    have hbackend := hfree cxGraphicsBackend (by simp)
    have hloop : name ∉ loopNames := fun hmem ↦ hfree name (by simp [hmem]) rfl
    have hsaved : (npDefaultsSave userDisk npDefaultsFex (some savedText)).isSome = true := by decide
    obtain ⟨disk', hdisk⟩ := Option.isSome_iff_exists.mp hsaved
    obtain ⟨hlines, hvalid⟩ := saved_lines hdisk
    have hout : (eachLine npDefaultsFex (cString savedText)).out =
        [(cxGraphicsBackend, ascii "dxvk"), (dxmtConfig, ascii "d3d11.metalSpatialUpscaleFactor=2.0")] := by decide
    rw [savedDefaults_env hvalid hlines _ _ hloop hdxmt, if_neg fun h ↦ hbackend h.1, given, hout] at hset
    -- neither line is of the name, so the option is
    have hlook : List.lookup name [(cxGraphicsBackend, ascii "dxvk"),
        (dxmtConfig, ascii "d3d11.metalSpatialUpscaleFactor=2.0")] = none := by
      rw [List.lookup_cons, beq_eq_false_iff_ne.mpr hbackend]
      show List.lookup name [(dxmtConfig, _)] = none
      rw [List.lookup_cons, beq_eq_false_iff_ne.mpr hdxmt]
      rfl
    rw [hlook, Option.or_none, launchOptions, if_neg hbackend, if_neg hdxmt] at hset
    by_contra hmem
    rw [List.mem_singleton] at hmem
    exact hset (if_neg hmem)

/-- On FEX, with an option for D3DMetal and a clause of its own. -/
theorem savedDefaults_panel_options : (npDefaultsSave userDisk npDefaultsFex (some savedText)).isSome = true ∧
    let launched := launchEnv npDefaultsFex (ascii "defaults-fex") (cString savedText) [ascii "D3DM_ENABLE_METALFX"] launchOptions
    launched (ascii "D3DM_ENABLE_METALFX") = none ∧ launched cxGraphicsBackend = none ∧
      launched fexX87 = some (ascii "1") ∧
      launched dxmtConfig = some (ascii "d3d11.maxFeatureLevel=12_1;d3d11.metalSpatialUpscaleFactor=2.0") := by
  have hsaved : (npDefaultsSave userDisk npDefaultsFex (some savedText)).isSome = true := by decide
  obtain ⟨disk', hdisk⟩ := Option.isSome_iff_exists.mp hsaved
  have hpanel := savedDefaults_panel hdisk (ascii "defaults-fex") launchOptions fun _ ↦ launchOptions_listed
  have hkey : ∀ key ∈ gSettings.map Setting.key, key ≠ dxmtConfig →
      launchEnv npDefaultsFex (ascii "defaults-fex") (cString savedText) [ascii "D3DM_ENABLE_METALFX"] launchOptions key =
        gameValue true false key (given launchOptions (eachLine npDefaultsFex (cString savedText)).out key) := by
    intro key hkey hdxmt
    obtain ⟨s, hs, rfl⟩ := List.mem_map.mp hkey
    exact (hpanel.1 s hs hdxmt).2
  refine ⟨hsaved, ?_, ?_, ?_, hpanel.2.1.trans (by decide)⟩
  · exact (hkey (ascii "D3DM_ENABLE_METALFX") (by decide) (by decide)).trans (by decide)
  · exact (hkey cxGraphicsBackend (by decide) (by decide)).trans (by decide)
  · exact (hkey fexX87 (by decide) (by decide)).trans (by decide)

/-- The panel's value is `auto`, and its text has the saved clause before the game's own. -/
theorem savedDefaults_differs : (npDefaultsSave userDisk npDefaultsRosetta (some savedText)).isSome = true ∧
    let launched := launchEnv npDefaultsRosetta (ascii "defaults-rosetta") (cString savedText) [] launchOptions
    let shown := panelValue launchOptions (eachLine npDefaultsRosetta (cString savedText)).out
    (launched cxGraphicsBackend).getD [] ≠ shown cxGraphicsBackend ∧
      (launched dxmtConfig).getD [] ≠ shown dxmtConfig ∧
      (launched rosettaAvx).getD [] ≠ shown rosettaAvx := by
  decide

end NotProton.CompatRun
