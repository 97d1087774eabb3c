import NotProton.CompatRun.HiddenControllers
import NotProton.CompatRun.RegistryText
import NotProton.Library.Lists

/-!
# PrefixSettings — the settings file and when its import is skipped (`compat_run.sh`)

Files are lists of lines, those of the settings file with the carriage return they end in.
-/

open NotProton.Library

namespace NotProton.CompatRun.PrefixSettings

/-! ## The settings file -/

/-- `HKEY_LOCAL_MACHINE` is saved in `system.reg` and `HKEY_CURRENT_USER` in `user.reg`. -/
inductive Hive
  | machine
  | user
  deriving DecidableEq

def Hive.name : Hive → Bytes
  | machine => ascii "HKEY_LOCAL_MACHINE"
  | user => ascii "HKEY_CURRENT_USER"

/-- A value's line: its name in quotes, or `@`, and the text after `=`.  The text `-` deletes the value. -/
structure SettingsValue where
  name : Option Bytes
  text : Bytes
  deriving DecidableEq

def SettingsValue.nameText (v : SettingsValue) : Bytes :=
  match v.name with
  | none => [64]
  | some name => 34 :: name ++ [34]

structure SettingsKey where
  hive : Hive
  path : Bytes
  deleted : Bool
  values : List SettingsValue

def SettingsKey.lines (k : SettingsKey) : List Bytes :=
  ((if k.deleted then ascii "[-" else ascii "[") ++ k.hive.name ++ 92 :: k.path ++ [93]) ::
    (k.values.map fun v ↦ v.nameText ++ 61 :: v.text) ++ [[]]

/-- The last `w` hexadecimal digits of a number. -/
def hexDigits : Nat → Nat → Bytes
  | 0, _ => []
  | w + 1, n => hexDigits w (n / 16) ++ [hexDigit (n % 16)]

/-- `%08x` -/
def hex8 (n : Nat) : Bytes := hexDigits (max 8 (n.log2 / 4 + 1)) n

/-- What `import_prefix_settings` writes the file from; `hidraw` is what it sets DisableHidraw to. -/
structure SettingsPlan where
  waitforexitandrun : Bool
  retina : Bool
  newDpi : Option Nat
  controllersAdd : List Bytes
  controllersRemove : List Bytes
  hidraw : Option Bool
  add_ok : ∀ id ∈ controllersAdd, isId id = true
  remove_ok : ∀ id ∈ controllersRemove, isId id = true

/-- `retina_line` -/
def retinaLine (retina : Bool) : SettingsValue :=
  ⟨some (ascii "RetinaMode"), if retina then ascii "\"y\"" else ascii "-"⟩

def macDriver : Bytes := ascii "Software\\Wine\\Mac Driver"
def desktop : Bytes := ascii "Control Panel\\Desktop"

def videoLines (p : SettingsPlan) : List SettingsKey :=
  if !p.waitforexitandrun then []
  else ⟨.user, macDriver, false, [retinaLine p.retina]⟩ :: match p.newDpi with
    | none => []
    | some dpi => [⟨.user, desktop, false, [⟨some (ascii "LogPixels"), ascii "dword:" ++ hex8 dpi⟩]⟩]

def winebus : Bytes := ascii "System\\CurrentControlSet\\Services\\WineBus"

def hidrawLines (add : Bool) (ids : List Bytes) : List SettingsKey :=
  ids.map fun id ↦
    ⟨.machine, winebus ++ ascii "\\Devices\\" ++ id, !add,
      if add then [⟨some (ascii "Hidraw"), ascii "dword:00000000"⟩] else []⟩

def winebusLines (hidraw : Option Bool) : List SettingsKey :=
  match hidraw with
  | none => []
  | some set =>
    [⟨.machine, winebus, false,
      [⟨some (ascii "DisableHidraw"), if set then ascii "dword:00000001" else ascii "-"⟩]⟩]

/-- The keys of the settings file, in its order. -/
def settingsKeys (p : SettingsPlan) : List SettingsKey :=
  [⟨.machine, ascii "Software\\Microsoft\\Windows NT\\CurrentVersion\\AeDebug", false,
      [⟨some (ascii "Auto"), ascii "\"0\""⟩]⟩,
    ⟨.machine, ascii "Software\\Wow6432Node\\Microsoft\\Windows NT\\CurrentVersion\\AeDebug", false,
      [⟨some (ascii "Auto"), ascii "\"0\""⟩]⟩,
    ⟨.user, ascii "Software\\Wine\\WineDbg", false, [⟨some (ascii "ShowCrashDialog"), ascii "dword:00000000"⟩]⟩] ++
  videoLines p ++
  [⟨.machine, ascii "Software\\Classes\\steam", false, [⟨some (ascii "URL Protocol"), ascii "\"\""⟩]⟩,
    ⟨.machine, ascii "Software\\Classes\\steam\\shell\\open\\command", false,
      [⟨none, ascii "\"\\\"C:\\\\Program Files (x86)\\\\Steam\\\\steam.exe\\\" \\\"%1\\\"\""⟩]⟩] ++
  hidrawLines true p.controllersAdd ++ hidrawLines false p.controllersRemove ++ winebusLines p.hidraw

/-- `$settings_file` -/
def settingsFile (p : SettingsPlan) : List Bytes :=
  ([ascii "Windows Registry Editor Version 5.00", []] ++ (settingsKeys p).flatMap SettingsKey.lines).map (· ++ [13])

/-! ## Whether it is applied -/

/-- The first word of a line, as `read -r stamp _` takes it; `none` without a whole line. -/
def readStamp (timestamp : Bytes) : Option Bytes :=
  match splitAt 10 timestamp with
  | (_, none) => none
  | (line, some _) => some ((line.dropWhile fun c ↦ c = 32 ∨ c = 9).takeWhile fun c ↦ c ≠ 32 ∧ c ≠ 9)

def stripCR (s : Bytes) : Bytes := if s.getLast? = some 13 then s.dropLast else s

/-- `prefix_up_to_date`; `infTime` is what `stat` prints for the runner's `wine.inf`. -/
def prefixUpToDate (timestamp : Option Bytes) (infTime : Bytes) : Bool :=
  match timestamp.bind readStamp with
  | none => false
  | some stamp =>
    let stamp := stripCR stamp
    stamp ≠ [] && stamp.all isDigit && stamp = infTime

/-- `double` of the `awk` -/
def double (s : Bytes) : Bytes := s.flatMap fun c ↦ if c = 92 then [92, 92] else [c]

/-- The name a key of the settings file has in the registry files, and whether it is deleted. -/
def settingsName (name : Bytes) : Bool × Bytes :=
  let deleted := name.head? = some 45
  let name := if deleted then name.tail else name
  let ccs := ascii "hkey_local_machine\\system\\currentcontrolset\\"
  let name := if ccs.isPrefixOf name then
      ascii "hkey_local_machine\\system\\controlset001\\" ++ name.drop ccs.length
    else name
  let part := name.takeWhile (· ≠ 92)
  (deleted, name.take (part.length + 1) ++ double (name.drop (part.length + 1)))

/-- `([^"\\]|\\.)*"`, and what follows it. -/
def quoted : Bytes → Option (Bytes × Bytes)
  | [] => none
  | 34 :: s => some ([34], s)
  | [92] => none
  | 92 :: c :: s => (quoted s).map fun r ↦ (92 :: c :: r.1, r.2)
  | c :: s => (quoted s).map fun r ↦ (c :: r.1, r.2)

/-- `/^("([^"\\]|\\.)*"|@)=/`: the name and what follows the `=`. -/
def matchName : Bytes → Option (Bytes × Bytes)
  | 64 :: 61 :: value => some ([64], value)
  | 34 :: s =>
    match quoted s with
    | some (name, 61 :: value) => some (34 :: name, value)
    | _ => none
  | _ => none

abbrev Table := List ((Bytes × Bytes) × Bytes)

/-- The variables of the `awk` program; its `have` is `held` here, and the last assignment to a table comes first. -/
structure Awk where
  file : Nat
  root : Bytes
  key : Bytes
  bad : Bool
  gone : List Bytes
  wanted : List Bytes
  want : Table
  held : Table

def Awk.start : Awk := ⟨0, [], [], false, [], [], [], []⟩

/-- `/^\[/` -/
def keyLine (line : Bytes) (s : Awk) : Awk :=
  if 93 ∉ line then { s with key := [], bad := s.bad || s.file == 1 }
  else
    let name := (line.takeWhile (· ≠ 93)).tail.map toLower
    if s.file = 1 then
      let (deleted, name) := settingsName name
      if deleted then { s with key := [], gone := name :: s.gone }
      else { s with key := name, wanted := name :: s.wanted }
    else
      let name := s.root ++ name
      { s with
        key := if name ∈ s.wanted then name else []
        bad := s.bad || s.gone.any fun g ↦ name = g || (g ++ [92, 92]).isPrefixOf name }

def valueLine (line : Bytes) (s : Awk) : Awk :=
  if s.key = [] then s
  else match matchName line with
    | none => s
    | some (name, value) =>
      let kv := (s.key, name.map toLower)
      if s.file = 1 then { s with want := (kv, value) :: s.want } else { s with held := (kv, value) :: s.held }

/-- `FNR == 1` -/
def openFile (s : Awk) : Awk :=
  let file := s.file + 1
  { s with
    file := file
    root := if file = 2 then ascii "hkey_local_machine\\" else ascii "hkey_current_user\\"
    key := [] }

def record (s : Awk) (line : Bytes) : Awk :=
  let line := stripCR line
  if line.head? = some 91 then keyLine line s else valueLine line s

def readFile (lines : List Bytes) (s : Awk) : Awk :=
  if lines = [] then s else lines.foldl record (openFile s)

/-- `END` -/
def accepts (s : Awk) : Bool :=
  s.file == 3 && !s.bad && s.want.all fun kv ↦
    let want := (s.want.lookup kv.1).getD []
    if want = ascii "-" then (s.held.lookup kv.1).isNone else s.held.lookup kv.1 = some want

def settingsAlreadyApplied (timestamp : Option Bytes) (infTime : Bytes) (settings : List Bytes)
    (systemReg userReg : Option (List Bytes)) : Bool :=
  prefixUpToDate timestamp infTime && match systemReg, userReg with
    | some systemReg, some userReg => accepts (readFile userReg (readFile systemReg (readFile settings Awk.start)))
    | _, _ => false

/-! ## What an import would leave as it is -/

/-- The path in the registry files, where `CurrentControlSet` is `ControlSet001` and case does not count. -/
def SettingsKey.registryPath (k : SettingsKey) : List RegTok :=
  let path := k.path.map toLower
  let ccs := ascii "system\\currentcontrolset\\"
  let path := if k.hive = .machine ∧ ccs <+: path then
      ascii "system\\controlset001\\" ++ path.drop ccs.length
    else path
  path.map fun c ↦ if c = 92 then .sep else .plain c

/-- The value is in the file, under the key and the name. -/
def SettingsKey.Has (k : SettingsKey) (v : SettingsValue) (f : RegFile) (text : List Bytes) : Prop :=
  ∃ r ∈ f.keys, r.path.map RegTok.lower = k.registryPath ∧
    ∃ w ∈ r.values, w.nameText.map toLower = v.nameText.map toLower ∧ w.text :: w.more = text

def SettingsKey.AppliedIn (k : SettingsKey) (f : RegFile) : Prop :=
  if k.deleted then
    ∀ r ∈ f.keys, r.path.map RegTok.lower ≠ k.registryPath ∧
      ¬ k.registryPath ++ [RegTok.sep] <+: r.path.map RegTok.lower
  else
    ∀ v ∈ k.values, if v.text = ascii "-" then ∀ text, ¬ k.Has v f text else k.Has v f [v.text]

def regOf (system user : RegFile) : Hive → RegFile
  | .machine => system
  | .user => user

/-- An import of the keys changes no value. -/
def Applied (keys : List SettingsKey) (system user : RegFile) : Prop :=
  ∀ k ∈ keys, k.AppliedIn (regOf system user k.hive)

/-! ## Names in the two kinds of file -/

/-- What the names of a hive's keys start with in the `awk`. -/
def Hive.root (h : Hive) : Bytes := h.name.map toLower ++ [92]

theorem root_append_iff {h h' : Hive} {a b : Bytes} : h.root ++ a <+: h'.root ++ b ↔ h = h' ∧ a <+: b := by
  constructor
  · intro hpre
    have hsame : h = h' := by
      by_contra hne
      -- the roots differ within their first six letters
      have htake := (hpre.take 6)
      rw [List.take_append_of_le_length (by cases h <;> decide),
        List.take_append_of_le_length (by cases h' <;> decide)] at htake
      have hfalse : ¬ h.root.take 6 <+: h'.root.take 6 := by
        cases h <;> cases h' <;> first | exact absurd rfl hne | decide
      exact hfalse htake
    subst hsame
    exact ⟨rfl, (List.prefix_append_right_inj _).mp hpre⟩
  · rintro ⟨rfl, hpre⟩
    exact (List.prefix_append_right_inj _).mpr hpre

theorem root_append_inj {h h' : Hive} {a b : Bytes} : h.root ++ a = h'.root ++ b ↔ h = h' ∧ a = b := by
  constructor
  · intro heq
    have hpre : h.root ++ a <+: h'.root ++ b := ⟨[], by rw [heq, List.append_nil]⟩
    have hsame : h = h' := (root_append_iff.mp hpre).1
    subst hsame
    exact ⟨rfl, List.append_cancel_left heq⟩
  · rintro ⟨rfl, rfl⟩
    rfl

/-- A key's name in the registry files, as the `awk` spells it. -/
def SettingsKey.registryName (k : SettingsKey) : Bytes := k.hive.root ++ render k.registryPath

/-- No bracket in the path, no quote or backslash in a name, and nothing to set under a deleted key. -/
structure SettingsKey.Ok (k : SettingsKey) : Prop where
  path : ∀ c ∈ k.path, c ∉ ([13, 91, 93] : List UInt8)
  names : ∀ v ∈ k.values, ∀ name, v.name = some name → ∀ c ∈ name, (RegTok.plain c).InName
  deleted : k.deleted = true → k.values = []

theorem double_eq_render (s : Bytes) : double s = render (s.map fun c ↦ if c = 92 then .sep else .plain c) := by
  rw [double, render, List.flatMap_map]
  congr 1
  funext c
  split_ifs <;> rfl

theorem ccs_prefix_iff {h : Hive} {path : Bytes} :
    ascii "hkey_local_machine\\system\\currentcontrolset\\" <+: h.root ++ path ↔
      h = .machine ∧ ascii "system\\currentcontrolset\\" <+: path := by
  have hccs : ascii "hkey_local_machine\\system\\currentcontrolset\\" =
      Hive.machine.root ++ ascii "system\\currentcontrolset\\" := by decide
  rw [hccs, root_append_iff, eq_comm]

theorem takeWhile_root (h : Hive) (path : Bytes) :
    (h.root ++ path).takeWhile (· ≠ 92) = h.name.map toLower := by
  have hall : ∀ c ∈ h.name.map toLower, decide (c ≠ 92) = true := by
    cases h <;> decide +kernel
  rw [Hive.root, List.append_assoc, List.takeWhile_append_of_pos hall]
  simp

/-- The `awk` finds the name a key of the settings file has in the registry files. -/
theorem settingsName_eq (k : SettingsKey) :
    settingsName ((if k.deleted then [45] else []) ++ (k.hive.root ++ k.path.map toLower)) =
      (k.deleted, k.registryName) := by
  have hhead : (k.hive.root ++ k.path.map toLower).head? ≠ some 45 := by
    have hroot : k.hive.root.head? = some 104 := by cases k.hive <;> decide
    rw [List.head?_append, hroot]
    exact fun h ↦ absurd (Option.some.inj h) (by decide)
  have hlen : (k.hive.name.map toLower).length + 1 = k.hive.root.length := by
    rw [Hive.root, List.length_append]
    rfl
  -- `awk` doubles the backslashes behind the first one, which ends the root.
  have hsplit : ∀ path : Bytes,
      (k.hive.root ++ path).take (((k.hive.root ++ path).takeWhile (· ≠ 92)).length + 1) ++
        double ((k.hive.root ++ path).drop (((k.hive.root ++ path).takeWhile (· ≠ 92)).length + 1)) =
      k.hive.root ++ double path := by
    intro path
    rw [takeWhile_root, hlen, List.take_left, List.drop_left]
  -- A prefix has no `CurrentControlSet` but the set it stands for.
  have hname : ∀ name : Bytes, name = k.hive.root ++ k.path.map toLower →
      (if (ascii "hkey_local_machine\\system\\currentcontrolset\\").isPrefixOf name = true then
          ascii "hkey_local_machine\\system\\controlset001\\" ++
            name.drop (ascii "hkey_local_machine\\system\\currentcontrolset\\").length
        else name) =
      k.hive.root ++ if k.hive = .machine ∧ ascii "system\\currentcontrolset\\" <+: k.path.map toLower then
          ascii "system\\controlset001\\" ++ (k.path.map toLower).drop (ascii "system\\currentcontrolset\\").length
        else k.path.map toLower := by
    rintro _ rfl
    simp only [List.isPrefixOf_iff_prefix, ccs_prefix_iff]
    split_ifs with hc
    · rw [hc.1, show ascii "hkey_local_machine\\system\\controlset001\\" =
        Hive.machine.root ++ ascii "system\\controlset001\\" by decide,
        show (ascii "hkey_local_machine\\system\\currentcontrolset\\").length =
          Hive.machine.root.length + (ascii "system\\currentcontrolset\\").length by decide,
        List.drop_length_add_append, List.append_assoc]
    · rfl
  have hplain : (if ((if k.deleted then [45] else []) ++ (k.hive.root ++ k.path.map toLower)).head? = some 45 then
      ((if k.deleted then [45] else []) ++ (k.hive.root ++ k.path.map toLower)).tail
      else (if k.deleted then [45] else []) ++ (k.hive.root ++ k.path.map toLower)) =
      k.hive.root ++ k.path.map toLower := by
    cases hd : k.deleted with
    | true => rfl
    | false => exact if_neg hhead
  have hdeleted : decide (((if k.deleted then [45] else []) ++ (k.hive.root ++ k.path.map toLower)).head? = some 45) =
      k.deleted := by
    cases hd : k.deleted with
    | true => rfl
    | false => exact decide_eq_false hhead
  simp only [settingsName]
  rw [hplain, hname _ rfl, hsplit, hdeleted, double_eq_render]
  rfl

theorem SettingsKey.Ok.registryPath {k : SettingsKey} (h : k.Ok) :
    (∀ t ∈ k.registryPath, t.InKey) ∧ 93 ∉ render k.registryPath := by
  have hlower : ∀ c : UInt8, c ∉ ([13, 91, 93] : List UInt8) → toLower c ∉ ([13, 91, 93] : List UInt8) :=
    forall_byte (by decide +kernel)
  have hpath : ∀ c ∈ k.path.map toLower, c ∉ ([13, 91, 93] : List UInt8) := by
    intro c hc
    obtain ⟨d, hd, rfl⟩ := List.mem_map.mp hc
    exact hlower d (h.path d hd)
  have hset : ∀ c ∈ ascii "system\\controlset001\\", c ∉ ([13, 91, 93] : List UInt8) :=
    List.all_iff_forall_prop.mp (by decide)
  -- what becomes of each byte
  have htok : ∀ path : Bytes, (∀ c ∈ path, c ∉ ([13, 91, 93] : List UInt8)) →
      (∀ t ∈ path.map (fun c ↦ if c = 92 then RegTok.sep else .plain c), t.InKey) ∧
        93 ∉ render (path.map fun c ↦ if c = 92 then RegTok.sep else .plain c) := by
    intro path hall
    constructor
    · intro t ht
      obtain ⟨c, hc, rfl⟩ := List.mem_map.mp ht
      have hok := hall c hc
      split_ifs with hsep
      · trivial
      · simp_all [RegTok.InKey]
    · rw [← double_eq_render, double]
      intro hmem
      obtain ⟨c, hc, hcd⟩ := List.mem_flatMap.mp hmem
      have hok := hall c hc
      split_ifs at hcd with hsep
      · exact absurd hcd (by decide)
      · rw [List.mem_singleton] at hcd
        exact hok (hcd ▸ by decide)
  rw [SettingsKey.registryPath]
  apply htok
  split_ifs
  · intro c hc
    obtain hc | hc := List.mem_append.mp hc
    · exact hset c hc
    · exact hpath c (List.mem_of_mem_drop hc)
  · exact hpath

/-! ## One line -/

theorem record_cr (s : Awk) (line : Bytes) :
    record s (line ++ [13]) = if line.head? = some 91 then keyLine line s else valueLine line s := by
  have hstrip : stripCR (line ++ [13]) = line := by simp [stripCR]
  rw [record, hstrip]

theorem record_plain (s : Awk) {line : Bytes} (h : 13 ∉ line) :
    record s line = if line.head? = some 91 then keyLine line s else valueLine line s := by
  have hstrip : stripCR line = line := if_neg fun hlast ↦ h (List.mem_of_getLast? hlast)
  rw [record, hstrip]

theorem quoted_render {toks : List RegTok} (h : ∀ t ∈ toks, t.InName) (s : Bytes) :
    quoted (render toks ++ 34 :: s) = some (render toks ++ [34], s) := by
  induction toks with
  | nil => rfl
  | cons t toks ih =>
    have ih := ih fun t ht ↦ h t (List.mem_cons_of_mem _ ht)
    have ht := h t List.mem_cons_self
    rw [render_cons, List.append_assoc]
    cases t with
    | plain c =>
      have hquote : c ≠ 34 := by rintro rfl; exact ht (by decide)
      have hslash : c ≠ 92 := by rintro rfl; exact ht (by decide)
      show quoted (c :: (render toks ++ 34 :: s)) = _
      rw [quoted.eq_5 _ _ hquote (fun h _ ↦ hslash h) (fun _ _ h _ ↦ hslash h), ih]
      rfl
    | esc c =>
      show quoted (92 :: c :: (render toks ++ 34 :: s)) = _
      rw [quoted, ih]
      · rfl
    | sep => exact ht.elim

theorem matchName_render {toks : List RegTok} (h : ∀ t ∈ toks, t.InName) (value : Bytes) :
    matchName ((34 :: render toks ++ [34]) ++ 61 :: value) = some (34 :: render toks ++ [34], value) := by
  have happend : (34 :: render toks ++ [34]) ++ 61 :: value = 34 :: (render toks ++ 34 :: 61 :: value) := by simp
  rw [happend]
  simp only [matchName, quoted_render h]
  rfl

theorem matchName_regValue (v : RegValue) : matchName (v.nameText ++ 61 :: v.text) = some (v.nameText, v.text) := by
  cases hname : v.name with
  | none =>
    rw [RegValue.nameText, hname]
    rfl
  | some toks =>
    rw [RegValue.nameText, hname]
    exact matchName_render (v.name_ok toks hname) v.text

theorem render_plain (s : Bytes) : render (s.map .plain) = s := by
  induction s with
  | nil => rfl
  | cons c s ih => rw [List.map_cons, render_cons, ih, RegTok.text, List.singleton_append]

theorem matchName_settingsValue {v : SettingsValue}
    (h : ∀ name, v.name = some name → ∀ c ∈ name, (RegTok.plain c).InName) :
    matchName (v.nameText ++ 61 :: v.text) = some (v.nameText, v.text) := by
  cases hname : v.name with
  | none =>
    rw [SettingsValue.nameText, hname]
    rfl
  | some name =>
    have htoks : ∀ t ∈ name.map RegTok.plain, t.InName := by
      intro t ht
      obtain ⟨c, hc, rfl⟩ := List.mem_map.mp ht
      exact h name hname c hc
    have hmatch := matchName_render htoks v.text
    rw [render_plain] at hmatch
    rw [SettingsValue.nameText, hname]
    exact hmatch

theorem nameText_head (v : RegValue) (s : Bytes) : (v.nameText ++ s).head? ≠ some 91 := by
  rw [RegValue.nameText]
  cases v.name with
  | none => exact fun h ↦ absurd (Option.some.inj h) (by decide)
  | some toks => exact fun h ↦ absurd (Option.some.inj h) (by decide)

theorem settingsNameText_head (v : SettingsValue) (s : Bytes) : (v.nameText ++ s).head? ≠ some 91 := by
  rw [SettingsValue.nameText]
  cases v.name with
  | none => exact fun h ↦ absurd (Option.some.inj h) (by decide)
  | some name => exact fun h ↦ absurd (Option.some.inj h) (by decide)

/-- A line that is neither a key's nor a value's changes nothing. -/
theorem valueLine_other {line : Bytes} (h : line.head? ≠ some 34 ∧ line.head? ≠ some 64) (s : Awk) :
    valueLine line s = s := by
  have hnone : matchName line = none := by
    unfold matchName
    split
    · exact absurd rfl h.2
    · exact absurd rfl h.1
    · rfl
  rw [valueLine, hnone]
  split_ifs <;> rfl

/-! ## What has been read -/

/-- The key of a registry file is the one the settings file names. -/
def SettingsKey.Matches (k : SettingsKey) (h : Hive) (r : RegKey) : Prop :=
  k.hive = h ∧ r.path.map RegTok.lower = k.registryPath

/-- The key of a registry file is the one the settings file names, or below it. -/
def SettingsKey.Covers (k : SettingsKey) (h : Hive) (r : RegKey) : Prop :=
  k.hive = h ∧ (r.path.map RegTok.lower = k.registryPath ∨ k.registryPath ++ [RegTok.sep] <+: r.path.map RegTok.lower)

/-- A row of `want` or `have`. -/
def row (k : SettingsKey) (name text : Bytes) : (Bytes × Bytes) × Bytes := ((k.registryName, name.map toLower), text)

/-- The tables hold what the keys of the settings file say and what the registry's keys answer. -/
structure HasRead (keys : List SettingsKey) (seen : List (Hive × RegKey)) (s : Awk) : Prop where
  gone : ∀ g, g ∈ s.gone ↔ ∃ k ∈ keys, k.deleted = true ∧ k.registryName = g
  wanted : ∀ name, name ∈ s.wanted ↔ ∃ k ∈ keys, k.deleted = false ∧ k.registryName = name
  want : ∀ e, e ∈ s.want ↔ ∃ k ∈ keys, k.deleted = false ∧ ∃ v ∈ k.values, e = row k v.nameText v.text
  bad : s.bad = true ↔ ∃ k ∈ keys, k.deleted = true ∧ ∃ r ∈ seen, k.Covers r.1 r.2
  held : ∀ e, e ∈ s.held ↔ ∃ k ∈ keys, k.deleted = false ∧ ∃ r ∈ seen, k.Matches r.1 r.2 ∧
    ∃ w ∈ r.2.values, e = row k w.nameText w.text

theorem hasRead_start : HasRead [] [] (openFile Awk.start) := by
  constructor <;> simp [openFile, Awk.start]

/-! ## A key of the settings file -/

theorem registryName_ne_nil (k : SettingsKey) : k.registryName ≠ [] := by
  rw [SettingsKey.registryName, Hive.root]
  simp

theorem foldl_settingsValues {k : SettingsKey} {values : List SettingsValue}
    (hnames : ∀ v ∈ values, ∀ name, v.name = some name → ∀ c ∈ name, (RegTok.plain c).InName) {s : Awk}
    (hfile : s.file = 1) (hkey : s.key = k.registryName) :
    (values.map fun v ↦ v.nameText ++ 61 :: v.text ++ [13]).foldl record s =
      { s with want := (values.map fun v ↦ row k v.nameText v.text).reverse ++ s.want } := by
  induction values generalizing s with
  | nil => rfl
  | cons v values ih =>
    have hline : record s (v.nameText ++ 61 :: v.text ++ [13]) =
        { s with want := row k v.nameText v.text :: s.want } := by
      rw [record_cr, if_neg (settingsNameText_head v _), valueLine,
        if_neg (by rw [hkey]; exact registryName_ne_nil k), matchName_settingsValue (hnames v List.mem_cons_self)]
      dsimp only
      rw [if_pos hfile, hkey, row]
    have hrest := ih (fun v hv ↦ hnames v (List.mem_cons_of_mem _ hv))
      (s := { s with want := row k v.nameText v.text :: s.want }) hfile hkey
    rw [List.map_cons, List.foldl_cons, hline, hrest]
    simp

theorem keyLine_settings {k : SettingsKey} (hk : k.Ok) {s : Awk} (hfile : s.file = 1) :
    keyLine ((if k.deleted then ascii "[-" else ascii "[") ++ k.hive.name ++ 92 :: k.path ++ [93]) s =
      if k.deleted then { s with key := [], gone := k.registryName :: s.gone }
      else { s with key := k.registryName, wanted := k.registryName :: s.wanted } := by
  have hbody : (if k.deleted then ascii "[-" else ascii "[") ++ k.hive.name ++ 92 :: k.path ++ [93] =
      91 :: ((if k.deleted then [45] else []) ++ (k.hive.name ++ 92 :: k.path)) ++ [93] := by
    cases k.deleted <;> simp [ascii]
  -- No bracket but the last closes the key.
  have hall : ∀ c ∈ (91 : UInt8) :: ((if k.deleted then [45] else []) ++ (k.hive.name ++ 92 :: k.path)),
      decide (c ≠ 93) = true := by
    have hname : ∀ c ∈ k.hive.name, c ≠ 93 := by cases k.hive <;> decide +kernel
    have hpath : ∀ c ∈ k.path, c ≠ 93 := fun c hc ↦ by
      rintro rfl
      exact hk.path 93 hc (by decide)
    intro c hc
    rw [decide_eq_true_iff]
    rw [List.mem_cons, List.mem_append, List.mem_append, List.mem_cons] at hc
    obtain rfl | hc | hc | rfl | hc := hc
    · decide
    · split_ifs at hc
      · rw [List.mem_singleton.mp hc]
        decide
      · cases hc
    · exact hname c hc
    · decide
    · exact hpath c hc
  have htake : (91 :: ((if k.deleted then [45] else []) ++ (k.hive.name ++ 92 :: k.path)) ++ [93]).takeWhile (· ≠ 93) =
      (91 : UInt8) :: ((if k.deleted then [45] else []) ++ (k.hive.name ++ 92 :: k.path)) := by
    rw [List.takeWhile_append_of_pos hall]
    simp
  have hlower : ((if k.deleted then [45] else []) ++ (k.hive.name ++ 92 :: k.path)).map toLower =
      (if k.deleted then [45] else []) ++ (k.hive.root ++ k.path.map toLower) := by
    rw [List.map_append, List.map_append, List.map_cons, Hive.root, List.append_assoc]
    cases k.deleted <;> rfl
  rw [hbody, keyLine, if_neg (by simp), htake]
  dsimp only
  rw [if_pos hfile, List.tail_cons, hlower, settingsName_eq]

theorem foldl_settingsKey {k : SettingsKey} (hk : k.Ok) {s : Awk} (hfile : s.file = 1) :
    (k.lines.map (· ++ [13])).foldl record s =
      if k.deleted then { s with key := [], gone := k.registryName :: s.gone }
      else { s with
        key := k.registryName
        wanted := k.registryName :: s.wanted
        want := (k.values.map fun v ↦ row k v.nameText v.text).reverse ++ s.want } := by
  have hblank : ∀ s, record s ([] ++ [13]) = s := by
    intro s
    rw [record_cr, if_neg (by simp)]
    exact valueLine_other (by simp) s
  have hhead : ((if k.deleted then ascii "[-" else ascii "[") ++ k.hive.name ++ 92 :: k.path ++ [93]).head? = some 91 := by
    cases k.deleted <;> simp [ascii]
  rw [SettingsKey.lines, List.map_append, List.map_cons, List.foldl_append, List.foldl_cons, record_cr, if_pos hhead,
    keyLine_settings hk hfile, List.map_map]
  cases hd : k.deleted with
  | true =>
    rw [hk.deleted hd, if_pos rfl, if_pos rfl]
    simp only [List.map_nil, List.foldl_nil, List.map_cons, List.foldl_cons]
    exact hblank _
  | false =>
    have hvalues := foldl_settingsValues hk.names (s := { s with key := k.registryName, wanted := k.registryName :: s.wanted })
      hfile rfl
    show List.foldl record (List.foldl record _ (k.values.map fun v ↦ v.nameText ++ 61 :: v.text ++ [13])) _ = _
    rw [if_neg Bool.false_ne_true, hvalues]
    exact hblank _

/-- One key of the settings file. -/
theorem HasRead.settingsKey {keys : List SettingsKey} {s : Awk} (h : HasRead keys [] s) {k : SettingsKey} (hk : k.Ok)
    (hfile : s.file = 1) :
    HasRead (keys ++ [k]) [] ((k.lines.map (· ++ [13])).foldl record s) ∧
      ((k.lines.map (· ++ [13])).foldl record s).file = 1 := by
  have hkeys (p : SettingsKey → Prop) : (∃ j ∈ keys ++ [k], p j) ↔ (∃ j ∈ keys, p j) ∨ p k := by
    simp only [List.mem_append, List.mem_singleton, or_and_right, exists_or, exists_eq_left]
  rw [foldl_settingsKey hk hfile]
  cases hd : k.deleted with
  | true =>
    -- `[-key]` asks for the key's absence and has no values.
    rw [if_pos rfl]
    refine ⟨?_, hfile⟩
    constructor
    · intro g
      rw [hkeys, List.mem_cons, h.gone g, or_comm, @eq_comm _ g]
      simp only [hd, true_and]
    · intro name
      rw [hkeys, ← h.wanted name]
      simp [hd]
    · intro e
      rw [hkeys, ← h.want e]
      simp [hd]
    · rw [hkeys, ← h.bad]
      simp
    · intro e
      rw [hkeys, ← h.held e]
      simp [hd]
  | false =>
    -- Any other one asks for its values.
    rw [if_neg Bool.false_ne_true]
    refine ⟨?_, hfile⟩
    constructor
    · intro g
      rw [hkeys, ← h.gone g]
      simp [hd]
    · intro name
      rw [hkeys, List.mem_cons, h.wanted name, or_comm, @eq_comm _ name]
      simp only [hd, true_and]
    · intro e
      rw [hkeys, List.mem_append, List.mem_reverse, List.mem_map, h.want e, or_comm]
      simp only [hd, true_and, @eq_comm _ e]
    · rw [hkeys, ← h.bad]
      simp
    · intro e
      rw [hkeys, ← h.held e]
      simp

theorem HasRead.settingsKeys {keys done : List SettingsKey} (hok : ∀ k ∈ keys, k.Ok) {s : Awk} (h : HasRead done [] s)
    (hfile : s.file = 1) :
    HasRead (done ++ keys) [] (((keys.flatMap SettingsKey.lines).map (· ++ [13])).foldl record s) ∧
      (((keys.flatMap SettingsKey.lines).map (· ++ [13])).foldl record s).file = 1 := by
  induction keys generalizing done s with
  | nil =>
    rw [List.append_nil]
    exact ⟨h, hfile⟩
  | cons k keys ih =>
    obtain ⟨hstep, hstepFile⟩ := h.settingsKey (hok k List.mem_cons_self) hfile
    rw [List.flatMap_cons, List.map_append, List.foldl_append, List.append_cons done k keys]
    exact ih (fun k hk ↦ hok k (List.mem_cons_of_mem _ hk)) hstep hstepFile

/-! ## A key of a registry file -/

/-- The name the `awk` takes from the line of a key, without its root. -/
def cutPath (r : RegKey) : Bytes := (render (r.path.map RegTok.lower)).takeWhile (· ≠ 93)

theorem lower_inKey (r : RegKey) : ∀ t ∈ r.path.map RegTok.lower, t.InKey := by
  intro t ht
  obtain ⟨u, hu, rfl⟩ := List.mem_map.mp ht
  exact (r.path_ok u hu).lower

theorem matches_iff {k : SettingsKey} (hk : k.Ok) (h : Hive) (r : RegKey) :
    h.root ++ cutPath r = k.registryName ↔ k.Matches h r := by
  rw [SettingsKey.registryName, root_append_inj, cutPath,
    takeWhile_render_eq hk.registryPath.1 (lower_inKey r) hk.registryPath.2, SettingsKey.Matches, eq_comm]

theorem covers_iff {k : SettingsKey} (hk : k.Ok) (h : Hive) (r : RegKey) :
    (h.root ++ cutPath r = k.registryName ∨ k.registryName ++ [92, 92] <+: h.root ++ cutPath r) ↔ k.Covers h r := by
  have hsep : k.registryName ++ [92, 92] = k.hive.root ++ render (k.registryPath ++ [RegTok.sep]) := by
    rw [SettingsKey.registryName, render_append, List.append_assoc]
    rfl
  have hkeys : ∀ t ∈ k.registryPath ++ [RegTok.sep], t.InKey := by
    intro t ht
    obtain ht | ht := List.mem_append.mp ht
    · exact hk.registryPath.1 t ht
    · rw [List.mem_singleton.mp ht]
      trivial
  have hbracket : 93 ∉ render (k.registryPath ++ [RegTok.sep]) := by
    rw [render_append, List.mem_append]
    exact fun h ↦ h.elim hk.registryPath.2 (by decide)
  rw [matches_iff hk, hsep, root_append_iff, cutPath, prefix_takeWhile_iff hbracket,
    render_prefix_iff hkeys (lower_inKey r), SettingsKey.Matches, SettingsKey.Covers, and_or_left]

theorem takeWhile_append_stop (s t : Bytes) : (s ++ 93 :: t).takeWhile (· ≠ 93) = s.takeWhile (· ≠ 93) := by
  induction s with
  | nil => simp
  | cons c s ih =>
    by_cases hc : c = 93
    · simp [hc]
    · rw [List.cons_append, List.takeWhile_cons_of_pos (by simpa using hc), ih,
        List.takeWhile_cons_of_pos (by simpa using hc)]

theorem keyLine_registry {r : RegKey} {s : Awk} (hfile : s.file ≠ 1) :
    keyLine r.line s = { s with
      key := if s.root ++ cutPath r ∈ s.wanted then s.root ++ cutPath r else []
      bad := s.bad || s.gone.any fun g ↦ s.root ++ cutPath r = g || (g ++ [92, 92]).isPrefixOf (s.root ++ cutPath r) } := by
  have hline : r.line = (91 :: render r.path) ++ 93 :: (32 :: r.time) := by
    rw [RegKey.line, show ascii "] " = [93, 32] by decide]
    simp
  have hmem : 93 ∈ r.line := by
    rw [hline]
    simp
  have hlower : (fun c ↦ decide (c ≠ 93)) ∘ toLower = fun c : UInt8 ↦ decide (c ≠ 93) := by
    funext c
    exact forall_byte (p := fun c ↦ decide (toLower c ≠ 93) = decide (c ≠ 93)) (by decide +kernel) c
  have hcut : ((r.line.takeWhile (· ≠ 93)).tail).map toLower = cutPath r := by
    rw [hline, takeWhile_append_stop, List.takeWhile_cons_of_pos (by decide), List.tail_cons, cutPath, render_lower,
      List.takeWhile_map, hlower]
  rw [keyLine, if_neg (not_not_intro hmem)]
  dsimp only
  rw [if_neg hfile, hcut]

theorem text_not_cr {t : RegTok} (h : t.InKey ∨ t.InName) : 13 ∉ t.text := by
  cases t with
  | plain c =>
    have hc : c ≠ 13 := by
      rintro rfl
      exact h.elim (fun h ↦ h (by decide)) fun h ↦ h (by decide)
    simp [RegTok.text, hc.symm]
  | esc c =>
    have hc : c ≠ 13 := by
      rintro rfl
      exact h.elim (fun h ↦ h (by decide)) fun h ↦ h rfl
    simp [RegTok.text, hc.symm]
  | sep => decide

theorem render_not_cr {toks : List RegTok} (h : ∀ t ∈ toks, t.InKey ∨ t.InName) : 13 ∉ render toks := by
  intro hmem
  obtain ⟨t, ht, hc⟩ := List.mem_flatMap.mp hmem
  exact text_not_cr (h t ht) hc

theorem nameText_not_cr (v : RegValue) : 13 ∉ v.nameText := by
  rw [RegValue.nameText]
  cases hname : v.name with
  | none => decide
  | some toks =>
    have htoks := render_not_cr fun t ht ↦ Or.inr (v.name_ok toks hname t ht)
    simp [htoks]

theorem foldl_other {lines : List Bytes} {s : Awk}
    (h : ∀ line ∈ lines, (line.head? = some 32 ∨ line.head? = some 35) ∧ 13 ∉ line) : lines.foldl record s = s := by
  induction lines with
  | nil => rfl
  | cons line lines ih =>
    obtain ⟨hhead, hcr⟩ := h line List.mem_cons_self
    have hne : line.head? ≠ some 91 ∧ line.head? ≠ some 34 ∧ line.head? ≠ some 64 := by
      obtain hhead | hhead := hhead <;> rw [hhead] <;> decide
    rw [List.foldl_cons, record_plain s hcr, if_neg hne.1, valueLine_other hne.2]
    exact ih fun line hl ↦ h line (List.mem_cons_of_mem _ hl)

theorem foldl_regValues (values : List RegValue) {s : Awk} (hfile : s.file ≠ 1) :
    (values.flatMap RegValue.lines).foldl record s =
      if s.key = [] then s
      else { s with
        held := (values.map fun w ↦ ((s.key, w.nameText.map toLower), w.text)).reverse ++ s.held } := by
  induction values generalizing s with
  | nil => simp
  | cons w values ih =>
    have hcr : 13 ∉ w.nameText ++ 61 :: w.text := by
      rw [List.mem_append, List.mem_cons]
      exact fun h ↦ h.elim (nameText_not_cr w) fun h ↦ h.elim (by decide) w.text_ok
    have hline : record s (w.nameText ++ 61 :: w.text) =
        if s.key = [] then s
        else { s with held := ((s.key, w.nameText.map toLower), w.text) :: s.held } := by
      rw [record_plain s hcr, if_neg (nameText_head w _), valueLine, matchName_regValue]
      dsimp only
      rw [if_neg hfile]
    have hmore : ∀ s, w.more.foldl record s = s := fun s ↦
      foldl_other fun line hl ↦ ⟨.inl (w.more_ok line hl).1, (w.more_ok line hl).2⟩
    rw [List.flatMap_cons, List.foldl_append, RegValue.lines, List.foldl_cons, hline, hmore]
    by_cases hkey : s.key = []
    · rw [if_pos hkey, if_pos hkey, ih hfile, if_pos hkey]
    · rw [if_neg hkey, if_neg hkey, ih (by exact hfile), if_neg (by exact hkey)]
      simp

theorem foldl_regKey (r : RegKey) {s : Awk} (hfile : s.file ≠ 1) (hroot : s.root ≠ []) :
    ∃ key, r.lines.foldl record s = { s with
      key := key
      bad := s.bad || s.gone.any fun g ↦ s.root ++ cutPath r = g || (g ++ [92, 92]).isPrefixOf (s.root ++ cutPath r)
      held := if s.root ++ cutPath r ∈ s.wanted then
          (r.values.map fun w ↦ ((s.root ++ cutPath r, w.nameText.map toLower), w.text)).reverse ++ s.held
        else s.held } := by
  have hcr : 13 ∉ r.line := by
    have hpath := render_not_cr fun t ht ↦ Or.inl (r.path_ok t ht)
    rw [RegKey.line, show ascii "] " = [93, 32] by decide]
    simp [hpath, r.time_ok]
  have hhead : r.line.head? = some 91 := by
    rw [RegKey.line]
    rfl
  have hnotes : ∀ s, r.notes.foldl record s = s := fun s ↦
    foldl_other fun line hl ↦ ⟨.inr (r.notes_ok line hl).1, (r.notes_ok line hl).2⟩
  have hblank : ∀ s, record s [] = s := fun s ↦ by
    rw [record_plain s (by simp), if_neg (by simp)]
    exact valueLine_other (by simp) s
  -- Only the key line and the value lines matter.
  have hkeys : ∀ s : Awk, r.lines.foldl record s = (r.values.flatMap RegValue.lines).foldl record (keyLine r.line s) := by
    intro s
    rw [RegKey.lines, List.foldl_cons, hblank, List.foldl_cons, List.foldl_append, hnotes, record_plain s hcr,
      if_pos hhead]
  rw [hkeys, keyLine_registry hfile, foldl_regValues r.values (by exact hfile)]
  by_cases hwanted : s.root ++ cutPath r ∈ s.wanted
  · refine ⟨s.root ++ cutPath r, ?_⟩
    simp [hwanted, hroot]
  · refine ⟨[], ?_⟩
    simp [hwanted]

/-- One key of a registry file. -/
theorem HasRead.regKey {keys : List SettingsKey} {seen : List (Hive × RegKey)} {s : Awk} (h : HasRead keys seen s)
    (hok : ∀ k ∈ keys, k.Ok) {hive : Hive} (hfile : s.file ≠ 1) (hroot : s.root = hive.root) (r : RegKey) :
    HasRead keys (seen ++ [(hive, r)]) (r.lines.foldl record s) ∧
      (r.lines.foldl record s).file = s.file ∧ (r.lines.foldl record s).root = s.root := by
  have hne : s.root ≠ [] := by
    rw [hroot, Hive.root]
    simp
  have hseen (p : Hive × RegKey → Prop) : (∃ x ∈ seen ++ [(hive, r)], p x) ↔ (∃ x ∈ seen, p x) ∨ p (hive, r) := by
    simp only [List.mem_append, List.mem_singleton, or_and_right, exists_or, exists_eq_left]
  obtain ⟨key, hfold⟩ := foldl_regKey r hfile hne
  rw [hfold, hroot]
  refine ⟨⟨h.gone, h.wanted, h.want, ?_, ?_⟩, rfl, rfl⟩
  · -- a key that is gone
    have hany : (s.gone.any fun g ↦ hive.root ++ cutPath r = g || (g ++ [92, 92]).isPrefixOf (hive.root ++ cutPath r)) = true ↔
        ∃ k ∈ keys, k.deleted = true ∧ k.Covers hive r := by
      rw [List.any_eq_true]
      constructor
      · rintro ⟨g, hg, hc⟩
        obtain ⟨k, hk, hd, rfl⟩ := (h.gone g).mp hg
        rw [Bool.or_eq_true, decide_eq_true_iff, List.isPrefixOf_iff_prefix] at hc
        exact ⟨k, hk, hd, (covers_iff (hok k hk) hive r).mp hc⟩
      · rintro ⟨k, hk, hd, hc⟩
        refine ⟨k.registryName, (h.gone _).mpr ⟨k, hk, hd, rfl⟩, ?_⟩
        rw [Bool.or_eq_true, decide_eq_true_iff, List.isPrefixOf_iff_prefix]
        exact (covers_iff (hok k hk) hive r).mpr hc
    show (s.bad || _) = true ↔ _
    rw [Bool.or_eq_true, h.bad, hany]
    simp only [hseen, and_or_left, exists_or]
  · -- a key that is wanted
    intro e
    have hmem : e ∈ (if hive.root ++ cutPath r ∈ s.wanted then
          (r.values.map fun w ↦ ((hive.root ++ cutPath r, w.nameText.map toLower), w.text)).reverse ++ s.held
        else s.held) ↔
        e ∈ s.held ∨ ∃ k ∈ keys, k.deleted = false ∧ k.Matches hive r ∧ ∃ w ∈ r.values, e = row k w.nameText w.text := by
      split_ifs with hwanted
      · obtain ⟨k, hk, hd, hname⟩ := (h.wanted _).mp hwanted
        rw [List.mem_append, List.mem_reverse, List.mem_map, ← hname, or_comm]
        apply or_congr_right
        constructor
        · rintro ⟨w, hw, rfl⟩
          exact ⟨k, hk, hd, (matches_iff (hok k hk) hive r).mp hname.symm, w, hw, rfl⟩
        · rintro ⟨j, hj, -, hmatch, w, hw, rfl⟩
          rw [row, ← (matches_iff (hok j hj) hive r).mpr hmatch, ← hname]
          exact ⟨w, hw, rfl⟩
      · constructor
        · exact Or.inl
        · rintro (he | ⟨k, hk, hd, hmatch, -⟩)
          · exact he
          · exact absurd ((h.wanted _).mpr ⟨k, hk, hd, ((matches_iff (hok k hk) hive r).mpr hmatch).symm⟩) hwanted
    show e ∈ (if hive.root ++ cutPath r ∈ s.wanted then _ else s.held) ↔ _
    rw [hmem, h.held e]
    simp only [hseen, and_or_left, exists_or]

theorem HasRead.regKeys {keys : List SettingsKey} (hok : ∀ k ∈ keys, k.Ok) {hive : Hive} (regKeys : List RegKey)
    {seen : List (Hive × RegKey)} {s : Awk} (h : HasRead keys seen s) (hfile : s.file ≠ 1) (hroot : s.root = hive.root) :
    HasRead keys (seen ++ regKeys.map fun r ↦ (hive, r)) ((regKeys.flatMap RegKey.lines).foldl record s) ∧
      ((regKeys.flatMap RegKey.lines).foldl record s).file = s.file := by
  induction regKeys generalizing seen s with
  | nil =>
    rw [List.map_nil, List.append_nil]
    exact ⟨h, rfl⟩
  | cons r regKeys ih =>
    obtain ⟨hstep, hstepFile, hstepRoot⟩ := h.regKey hok hfile hroot r
    obtain ⟨hrest, hrestFile⟩ := ih hstep (hstepFile ▸ hfile) (hstepRoot.trans hroot)
    rw [List.flatMap_cons, List.foldl_append, List.map_cons, List.append_cons]
    exact ⟨hrest, hrestFile.trans hstepFile⟩

theorem foldl_header {lines : List Bytes} (h : ∀ line ∈ lines, line.head? ≠ some 91 ∧ 13 ∉ line) {s : Awk}
    (hkey : s.key = []) : lines.foldl record s = s := by
  induction lines with
  | nil => rfl
  | cons line lines ih =>
    have hl := h line List.mem_cons_self
    rw [List.foldl_cons, record_plain s hl.2, if_neg hl.1, valueLine, if_pos hkey]
    exact ih fun line hl ↦ h line (List.mem_cons_of_mem _ hl)

/-- A whole registry file. -/
theorem HasRead.regFile {keys : List SettingsKey} (hok : ∀ k ∈ keys, k.Ok) (f : RegFile) {seen : List (Hive × RegKey)}
    {s : Awk} (h : HasRead keys seen s) {hive : Hive} (hfile : s.file ≠ 0) (hroot : (openFile s).root = hive.root) :
    HasRead keys (seen ++ f.keys.map fun r ↦ (hive, r)) (readFile f.lines s) ∧
      (readFile f.lines s).file = s.file + 1 := by
  have hlines : f.lines ≠ [] := fun hnil ↦ f.header_ne_nil (List.append_eq_nil_iff.mp hnil).1
  have hopen : HasRead keys seen (openFile s) := ⟨h.gone, h.wanted, h.want, h.bad, h.held⟩
  have hfile' : (openFile s).file ≠ 1 := fun heq ↦ hfile (Nat.succ.inj heq)
  rw [readFile, if_neg hlines, RegFile.lines, List.foldl_append, foldl_header f.header_ok rfl]
  exact hopen.regKeys hok f.keys hfile' hroot

/-! ## All three files -/

section threeFiles

variable {keys : List SettingsKey} {system user : RegFile} {s : Awk}

/-- The keys of the two registry files, with the hive each belongs to. -/
def regKeysOf (system user : RegFile) : List (Hive × RegKey) :=
  (system.keys.map fun r ↦ (Hive.machine, r)) ++ user.keys.map fun r ↦ (Hive.user, r)

theorem mem_regKeysOf {h : Hive} {r : RegKey} : (h, r) ∈ regKeysOf system user ↔ r ∈ (regOf system user h).keys := by
  cases h <;> simp [regKeysOf, regOf]

/-- The settings file names a value once, or with one text. -/
def OneText (keys : List SettingsKey) : Prop :=
  ∀ k ∈ keys, ∀ v ∈ k.values, ∀ k' ∈ keys, ∀ v' ∈ k'.values,
    v.nameText.map toLower = v'.nameText.map toLower → v.text = v'.text

theorem row_inj {k k' : SettingsKey} {n n' t t' : Bytes} :
    row k n t = row k' n' t' ↔ (k.registryName = k'.registryName ∧ n.map toLower = n'.map toLower) ∧ t = t' := by
  rw [row, row, Prod.mk.injEq, Prod.mk.injEq]

theorem HasRead.want_functional (h : HasRead keys (regKeysOf system user) s) (hone : OneText keys)
    (a : Bytes × Bytes) (b c : Bytes) (hb : (a, b) ∈ s.want) (hc : (a, c) ∈ s.want) : b = c := by
  obtain ⟨k, hk, -, v, hv, heq⟩ := (h.want _).mp hb
  obtain ⟨k', hk', -, v', hv', heq'⟩ := (h.want _).mp hc
  obtain ⟨rfl, rfl⟩ := Prod.mk.inj heq
  obtain ⟨hname, rfl⟩ := Prod.mk.inj heq'
  exact hone k hk v hv k' hk' v' hv' (Prod.mk.inj hname).2

theorem HasRead.mem_held (h : HasRead keys (regKeysOf system user) s) (hok : ∀ k ∈ keys, k.Ok) {k : SettingsKey}
    (hk : k ∈ keys) (hd : k.deleted = false) {n t : Bytes} :
    row k n t ∈ s.held ↔ ∃ r ∈ (regOf system user k.hive).keys, r.path.map RegTok.lower = k.registryPath ∧
      ∃ w ∈ r.values, w.nameText.map toLower = n.map toLower ∧ w.text = t := by
  rw [h.held]
  constructor
  · rintro ⟨k', hk', -, ⟨hive, r⟩, hr, hmatch, w, hw, heq⟩
    obtain ⟨⟨hname, hvalue⟩, rfl⟩ := row_inj.mp heq
    have hm : k.Matches hive r := by
      rw [← matches_iff (hok k hk), hname]
      exact (matches_iff (hok k' hk') hive r).mpr hmatch
    obtain ⟨rfl, hpath⟩ := hm
    exact ⟨r, mem_regKeysOf.mp hr, hpath, w, hw, hvalue.symm, rfl⟩
  · rintro ⟨r, hr, hpath, w, hw, hvalue, rfl⟩
    exact ⟨k, hk, hd, (k.hive, r), mem_regKeysOf.mpr hr, ⟨rfl, hpath⟩, w, hw, row_inj.mpr ⟨⟨rfl, hvalue.symm⟩, rfl⟩⟩

theorem HasRead.held_functional (h : HasRead keys (regKeysOf system user) s) (hok : ∀ k ∈ keys, k.Ok)
    (a : Bytes × Bytes) (b c : Bytes) (hb : (a, b) ∈ s.held) (hc : (a, c) ∈ s.held) : b = c := by
  obtain ⟨k, hk, hd, -, -, -, w, -, heq⟩ := (h.held _).mp hb
  have ha : a = (k.registryName, w.nameText.map toLower) := (Prod.mk.inj heq).1
  subst ha
  obtain ⟨r, hr, hpath, v, hv, hname, rfl⟩ := (h.mem_held hok hk hd).mp hb
  obtain ⟨r', hr', hpath', v', hv', hname', rfl⟩ := (h.mem_held hok hk hd).mp hc
  have hsame : r = r' :=
    List.inj_on_of_nodup_map (regOf system user k.hive).keys_apart hr hr' (hpath.trans hpath'.symm)
  subst hsame
  rw [List.inj_on_of_nodup_map r.values_apart hv hv' (hname.trans hname'.symm)]

/-- The end of the `awk` program accepts where nothing would change. -/
theorem HasRead.accepts_iff (h : HasRead keys (regKeysOf system user) s) (hfile : s.file = 3) (hok : ∀ k ∈ keys, k.Ok)
    (hone : OneText keys) (hlast : ∀ k ∈ keys, ∀ v ∈ k.values, v.text.getLast? ≠ some 92) :
    accepts s = true ↔ Applied keys system user := by
  have hwant : ∀ {a : Bytes × Bytes} {b : Bytes}, s.want.lookup a = some b ↔ (a, b) ∈ s.want :=
    lookup_eq_some_iff_mem (h.want_functional hone)
  have hheld : ∀ {a : Bytes × Bytes} {b : Bytes}, s.held.lookup a = some b ↔ (a, b) ∈ s.held :=
    lookup_eq_some_iff_mem (h.held_functional hok)
  -- No key that is to be deleted is there.
  have hbad : s.bad = false ↔ ∀ k ∈ keys, k.deleted = true → k.AppliedIn (regOf system user k.hive) := by
    rw [← Bool.not_eq_true, h.bad]
    constructor
    · intro hnone k hk hd
      rw [SettingsKey.AppliedIn, if_pos hd]
      intro r hr
      have hc : ¬ k.Covers k.hive r := fun hc ↦ hnone ⟨k, hk, hd, (k.hive, r), mem_regKeysOf.mpr hr, hc⟩
      exact ⟨fun hpath ↦ hc ⟨rfl, .inl hpath⟩, fun hsub ↦ hc ⟨rfl, .inr hsub⟩⟩
    · rintro hall ⟨k, hk, hd, ⟨hive, r⟩, hr, hhive, hcover⟩
      have happ := hall k hk hd
      rw [SettingsKey.AppliedIn, if_pos hd, hhive] at happ
      obtain ⟨hpath, hsub⟩ := happ r (mem_regKeysOf.mp hr)
      exact hcover.elim hpath hsub
  -- Every other value is as the settings have it: the tables are functions of a key and a name.
  have hval : (∀ e ∈ s.want, if e.2 = ascii "-" then s.held.lookup e.1 = none else s.held.lookup e.1 = some e.2) ↔
      ∀ k ∈ keys, k.deleted = false → k.AppliedIn (regOf system user k.hive) := by
    have hrow : ∀ k ∈ keys, k.deleted = false → ∀ v ∈ k.values,
        ((if v.text = ascii "-" then s.held.lookup (row k v.nameText v.text).1 = none
          else s.held.lookup (row k v.nameText v.text).1 = some v.text) ↔
        if v.text = ascii "-" then ∀ text, ¬ k.Has v (regOf system user k.hive) text
        else k.Has v (regOf system user k.hive) [v.text]) := by
      intro k hk hd v hv
      split_ifs with hdash
      · rw [Option.eq_none_iff_forall_ne_some]
        constructor
        · rintro hnone _ ⟨r, hr, hpath, w, hw, hname, -⟩
          exact hnone w.text (hheld.mpr ((h.mem_held hok hk hd).mpr ⟨r, hr, hpath, w, hw, hname, rfl⟩))
        · intro hnone t ht
          obtain ⟨r, hr, hpath, w, hw, hname, -⟩ := (h.mem_held hok hk hd).mp (hheld.mp ht)
          exact hnone _ ⟨r, hr, hpath, w, hw, hname, rfl⟩
      · rw [hheld]
        constructor
        · intro ht
          obtain ⟨r, hr, hpath, w, hw, hname, htext⟩ := (h.mem_held hok hk hd).mp ht
          -- A value on more lines ends its first one in a backslash, and none of the settings does.
          have hmore : w.more = [] := by
            by_contra hmore
            exact hlast k hk v hv (htext ▸ w.more_text hmore)
          exact ⟨r, hr, hpath, w, hw, hname, by rw [htext, hmore]⟩
        · rintro ⟨r, hr, hpath, w, hw, hname, htext⟩
          exact (h.mem_held hok hk hd).mpr ⟨r, hr, hpath, w, hw, hname, (List.cons.inj htext).1⟩
    constructor
    · intro hall k hk hd
      rw [SettingsKey.AppliedIn, if_neg (by rw [hd]; exact Bool.false_ne_true)]
      intro v hv
      exact (hrow k hk hd v hv).mp (hall _ ((h.want _).mpr ⟨k, hk, hd, v, hv, rfl⟩))
    · intro hall e he
      obtain ⟨k, hk, hd, v, hv, rfl⟩ := (h.want e).mp he
      have happ := hall k hk hd
      rw [SettingsKey.AppliedIn, if_neg (by rw [hd]; exact Bool.false_ne_true)] at happ
      exact (hrow k hk hd v hv).mpr (happ v hv)
  have htable : (s.want.all fun kv ↦
        let want := (s.want.lookup kv.1).getD []
        if want = ascii "-" then (s.held.lookup kv.1).isNone else s.held.lookup kv.1 = some want) = true ↔
      ∀ e ∈ s.want, if e.2 = ascii "-" then s.held.lookup e.1 = none else s.held.lookup e.1 = some e.2 := by
    rw [List.all_eq_true]
    apply forall₂_congr
    intro e he
    have hlookup : (s.want.lookup e.1).getD [] = e.2 := by rw [hwant.mpr he, Option.getD_some]
    simp only [hlookup]
    split_ifs <;> simp
  rw [accepts, hfile, Bool.and_eq_true, Bool.and_eq_true, htable, hval, Bool.not_eq_true', hbad]
  constructor
  · rintro ⟨⟨-, hgone⟩, hkept⟩ k hk
    cases hd : k.deleted with
    | true => exact hgone k hk hd
    | false => exact hkept k hk hd
  · intro hall
    exact ⟨⟨rfl, fun k hk _ ↦ hall k hk⟩, fun k hk _ ↦ hall k hk⟩

end threeFiles

/-! ## The keys NotProton writes -/

/-- Every value the settings file can name, with the text it has there. -/
def settingsValues (p : SettingsPlan) : List SettingsValue :=
  [⟨some (ascii "Auto"), ascii "\"0\""⟩, ⟨some (ascii "ShowCrashDialog"), ascii "dword:00000000"⟩,
    retinaLine p.retina, ⟨some (ascii "LogPixels"), ascii "dword:" ++ hex8 (p.newDpi.getD 0)⟩,
    ⟨some (ascii "URL Protocol"), ascii "\"\""⟩,
    ⟨none, ascii "\"\\\"C:\\\\Program Files (x86)\\\\Steam\\\\steam.exe\\\" \\\"%1\\\"\""⟩,
    ⟨some (ascii "Hidraw"), ascii "dword:00000000"⟩,
    ⟨some (ascii "DisableHidraw"), if p.hidraw.getD false then ascii "dword:00000001" else ascii "-"⟩]

theorem mem_settingsValues {p : SettingsPlan} {k : SettingsKey} (hk : k ∈ settingsKeys p) :
    ∀ v ∈ k.values, v ∈ settingsValues p := by
  have hvideo : ∀ k ∈ videoLines p, ∀ v ∈ k.values, v ∈ settingsValues p := by
    intro k hk
    unfold videoLines at hk
    split_ifs at hk
    · cases hk
    · cases hdpi : p.newDpi with
      | none =>
        simp only [hdpi, List.mem_singleton] at hk
        simp [hk, settingsValues]
      | some dpi =>
        simp only [hdpi, List.mem_cons, List.not_mem_nil, or_false] at hk
        obtain rfl | rfl := hk <;> simp [settingsValues, hdpi]
  -- The same values in every device key, whichever id it has.
  have hhidraw : ∀ add ids, ∀ k ∈ hidrawLines add ids, ∀ v ∈ k.values, v ∈ settingsValues p := by
    intro add ids k hk
    obtain ⟨id, -, rfl⟩ := List.mem_map.mp hk
    cases add <;> simp [settingsValues]
  have hwinebus : ∀ k ∈ winebusLines p.hidraw, ∀ v ∈ k.values, v ∈ settingsValues p := by
    intro k hk
    cases hset : p.hidraw <;> simp_all [winebusLines, settingsValues]
  simp only [settingsKeys, List.mem_append] at hk
  obtain ((((hk | hk) | hk) | hk) | hk) | hk := hk
  · simp only [List.mem_cons, List.not_mem_nil, or_false] at hk
    obtain rfl | rfl | rfl := hk <;> simp [settingsValues]
  · exact hvideo k hk
  · simp only [List.mem_cons, List.not_mem_nil, or_false] at hk
    obtain rfl | rfl := hk <;> simp [settingsValues]
  · exact hhidraw _ _ k hk
  · exact hhidraw _ _ k hk
  · exact hwinebus k hk

theorem settingsValues_names (p : SettingsPlan) :
    (settingsValues p).map SettingsValue.name =
      [some (ascii "Auto"), some (ascii "ShowCrashDialog"), some (ascii "RetinaMode"), some (ascii "LogPixels"),
        some (ascii "URL Protocol"), none, some (ascii "Hidraw"), some (ascii "DisableHidraw")] := rfl

theorem settingsKeys_oneText (p : SettingsPlan) : OneText (settingsKeys p) := by
  have hnodup : ((settingsValues p).map fun v ↦ v.nameText.map toLower).Nodup := by
    have hmap : (settingsValues p).map (fun v ↦ v.nameText.map toLower) =
        ((settingsValues p).map SettingsValue.name).map fun name ↦ (SettingsValue.nameText ⟨name, []⟩).map toLower := by
      rw [List.map_map]
      rfl
    rw [hmap, settingsValues_names]
    decide
  intro k hk v hv k' hk' v' hv' hname
  rw [List.inj_on_of_nodup_map hnodup (mem_settingsValues hk v hv) (mem_settingsValues hk' v' hv') hname]

theorem hexDigits_isHex (w n : Nat) : ∀ c ∈ hexDigits w n, isHex c = true := by
  have hdigit : ∀ m < 16, isHex (hexDigit m) = true := by decide
  induction w generalizing n with
  | zero => exact fun c hc ↦ absurd hc List.not_mem_nil
  | succ w ih =>
    intro c hc
    obtain hc | hc := List.mem_append.mp hc
    · exact ih _ c hc
    · rw [List.mem_singleton.mp hc]
      exact hdigit _ (Nat.mod_lt n (by decide))

theorem settingsValues_last (p : SettingsPlan) : ∀ v ∈ settingsValues p, v.text.getLast? ≠ some 92 := by
  have hslash : ∀ dpi, 92 ∉ ascii "dword:" ++ hex8 dpi := by
    intro dpi hmem
    obtain hmem | hmem := List.mem_append.mp hmem
    · revert hmem
      decide
    · exact absurd (hexDigits_isHex _ _ _ hmem) (by decide)
  intro v hv
  simp only [settingsValues, retinaLine, List.mem_cons, List.not_mem_nil, or_false] at hv
  obtain rfl | rfl | rfl | rfl | rfl | rfl | rfl | rfl := hv
  · decide
  · decide
  · cases p.retina <;> decide
  · exact fun hlast ↦ hslash _ (List.mem_of_getLast? hlast)
  · decide
  · decide
  · decide
  · cases p.hidraw.getD false <;> decide

theorem settingsKeys_ok (p : SettingsPlan) : ∀ k ∈ settingsKeys p, k.Ok := by
  have hid : ∀ add ids, (∀ id ∈ ids, isId id = true) → ∀ k ∈ hidrawLines add ids,
      (∀ c ∈ k.path, c ∉ ([13, 91, 93] : List UInt8)) ∧ (k.deleted = true → k.values = []) := by
    intro add ids hids k hk
    obtain ⟨id, hmem, rfl⟩ := List.mem_map.mp hk
    have hchars : ∀ c ∈ id, c ∉ ([13, 91, 93] : List UInt8) := by
      have hhex : ∀ c : UInt8, isHex c = true → c ∉ ([13, 91, 93] : List UInt8) := forall_byte (by decide +kernel)
      obtain ⟨vendor, product, -, hv, -, hp, rfl⟩ := isId_iff.mp (hids id hmem)
      intro c hc
      obtain hc | hc := List.mem_append.mp hc
      · exact hhex c (List.all_eq_true.mp hv c hc)
      · obtain rfl | hc := List.mem_cons.mp hc
        · decide
        · exact hhex c (List.all_eq_true.mp hp c hc)
    have hpath : ∀ c ∈ winebus ++ ascii "\\Devices\\", c ∉ ([13, 91, 93] : List UInt8) :=
      List.all_iff_forall_prop.mp (by decide)
    constructor
    · intro c hc
      exact (List.mem_append.mp hc).elim (hpath c) (hchars c)
    · cases add <;> simp
  have hpaths : ∀ path ∈ [macDriver, desktop, winebus], ∀ c ∈ path, c ∉ ([13, 91, 93] : List UInt8) := by
    have hall : ∀ path ∈ [macDriver, desktop, winebus], path.all (fun c ↦ c ∉ ([13, 91, 93] : List UInt8)) = true := by
      decide
    exact fun path hpath ↦ List.all_iff_forall_prop.mp (hall path hpath)
  -- The parts of the settings file, one after the other.
  have hfixed : ∀ k ∈ settingsKeys p, (∀ c ∈ k.path, c ∉ ([13, 91, 93] : List UInt8)) ∧
      (k.deleted = true → k.values = []) := by
    intro k hk
    simp only [settingsKeys, List.mem_append] at hk
    obtain ((((hk | hk) | hk) | hk) | hk) | hk := hk
    · simp only [List.mem_cons, List.not_mem_nil, or_false] at hk
      obtain rfl | rfl | rfl := hk <;> exact ⟨List.all_iff_forall_prop.mp (by decide), fun h ↦ absurd h Bool.false_ne_true⟩
    · unfold videoLines at hk
      split_ifs at hk
      · cases hk
      · cases hdpi : p.newDpi with
        | none =>
          simp only [hdpi, List.mem_singleton] at hk
          rw [hk]
          exact ⟨hpaths macDriver (by simp), fun h ↦ absurd h Bool.false_ne_true⟩
        | some dpi =>
          simp only [hdpi, List.mem_cons, List.not_mem_nil, or_false] at hk
          obtain rfl | rfl := hk
          · exact ⟨hpaths macDriver (by simp), fun h ↦ absurd h Bool.false_ne_true⟩
          · exact ⟨hpaths desktop (by simp), fun h ↦ absurd h Bool.false_ne_true⟩
    · simp only [List.mem_cons, List.not_mem_nil, or_false] at hk
      obtain rfl | rfl := hk <;> exact ⟨List.all_iff_forall_prop.mp (by decide), fun h ↦ absurd h Bool.false_ne_true⟩
    · exact hid true _ p.add_ok k hk
    · exact hid false _ p.remove_ok k hk
    · cases hset : p.hidraw with
      | none => simp [winebusLines, hset] at hk
      | some set =>
        simp only [winebusLines, hset, List.mem_singleton] at hk
        rw [hk]
        exact ⟨hpaths winebus (by simp), fun h ↦ absurd h Bool.false_ne_true⟩
  have hnames : ∀ name ∈ [some (ascii "Auto"), some (ascii "ShowCrashDialog"), some (ascii "RetinaMode"),
      some (ascii "LogPixels"), some (ascii "URL Protocol"), none, some (ascii "Hidraw"), some (ascii "DisableHidraw")],
      name.all (fun n ↦ n.all fun c ↦ c ∉ ([13, 34, 92] : List UInt8)) = true := by
    decide
  intro k hk
  refine ⟨(hfixed k hk).1, ?_, (hfixed k hk).2⟩
  intro v hv name hname
  have hmem : v.name ∈ (settingsValues p).map SettingsValue.name :=
    List.mem_map_of_mem (mem_settingsValues hk v hv)
  rw [settingsValues_names] at hmem
  have hall := hnames _ hmem
  rw [hname, Option.all_some] at hall
  have hchars : ∀ c ∈ name, c ∉ ([13, 34, 92] : List UInt8) := List.all_iff_forall_prop.mp hall
  exact hchars

/-- The import is skipped only in a prefix that is up to date, and there exactly where it would change no value. -/
theorem settingsAlreadyApplied_iff (p : SettingsPlan) (system user : RegFile) (timestamp : Option Bytes)
    (infTime : Bytes) :
    settingsAlreadyApplied timestamp infTime (settingsFile p) (some system.lines) (some user.lines) = true ↔
      prefixUpToDate timestamp infTime = true ∧ Applied (settingsKeys p) system user := by
  have hok := settingsKeys_ok p
  have hlast : ∀ k ∈ settingsKeys p, ∀ v ∈ k.values, v.text.getLast? ≠ some 92 :=
    fun k hk v hv ↦ settingsValues_last p v (mem_settingsValues hk v hv)
  -- The settings file first, then the two registry files, each from where the one before left the program.
  have hheader : readFile (settingsFile p) Awk.start =
      (((settingsKeys p).flatMap SettingsKey.lines).map (· ++ [13])).foldl record (openFile Awk.start) := by
    have hfirst : record (openFile Awk.start) (ascii "Windows Registry Editor Version 5.00" ++ [13]) =
        openFile Awk.start := by
      rw [record_cr, if_neg (by decide)]
      exact valueLine_other (by decide) _
    have hblank : record (openFile Awk.start) ([] ++ [13]) = openFile Awk.start := by
      rw [record_cr, if_neg (by decide)]
      exact valueLine_other (by decide) _
    rw [settingsFile, List.map_append, readFile, if_neg (by simp), List.foldl_append, List.map_cons, List.map_cons,
      List.map_nil, List.foldl_cons, List.foldl_cons, List.foldl_nil, hfirst, hblank]
  obtain ⟨hsettings, hfile⟩ := hasRead_start.settingsKeys hok rfl
  rw [← hheader] at hsettings hfile
  have hsystemRoot : (openFile (readFile (settingsFile p) Awk.start)).root = Hive.machine.root := by
    rw [openFile, hfile]
    show ascii "hkey_local_machine\\" = Hive.machine.root
    decide
  obtain ⟨hsystem, hsystemFile⟩ := hsettings.regFile hok system (by rw [hfile]; decide) hsystemRoot
  rw [hfile] at hsystemFile
  have huserRoot : (openFile (readFile system.lines (readFile (settingsFile p) Awk.start))).root = Hive.user.root := by
    rw [openFile, hsystemFile]
    show ascii "hkey_current_user\\" = Hive.user.root
    decide
  obtain ⟨huser, huserFile⟩ := hsystem.regFile hok user (by rw [hsystemFile]; decide) huserRoot
  rw [hsystemFile] at huserFile
  rw [settingsAlreadyApplied, Bool.and_eq_true]
  exact and_congr_right fun _ ↦ huser.accepts_iff huserFile hok (settingsKeys_oneText p) hlast

/-- A value of one line, whose name needs no escape. -/
def plainValue (name : Option Bytes) (text : Bytes)
    (hname : name.all (fun n ↦ n.all fun c ↦ c ∉ ([13, 34, 92] : List UInt8)) = true) (htext : 13 ∉ text) : RegValue where
  name := name.map fun n ↦ n.map .plain
  text := text
  more := []
  name_ok := by
    intro toks htoks t ht
    obtain ⟨n, hn, rfl⟩ := Option.map_eq_some_iff.mp htoks
    obtain ⟨c, hc, rfl⟩ := List.mem_map.mp ht
    rw [hn, Option.all_some] at hname
    exact List.all_iff_forall_prop.mp hname c hc
  text_ok := htext
  more_ok := fun _ h ↦ absurd h List.not_mem_nil
  more_text := fun h ↦ absurd rfl h

/-- The first line of Wine's registry files. -/
def wineHeader : List Bytes := [ascii "WINE REGISTRY Version 2"]

theorem wineHeader_ne_nil : wineHeader ≠ [] := List.cons_ne_nil _ _

theorem wineHeader_ok : ∀ line ∈ wineHeader, line.head? ≠ some 91 ∧ 13 ∉ line := by decide

/-- Nothing of a key or its value needs an escape. -/
def plainBytes (path : Bytes) (name : Option Bytes) (text : Bytes) : Bool :=
  path.all (fun c ↦ c ∉ ([13, 91, 93] : List UInt8)) && name.all (fun n ↦ n.all fun c ↦ c ∉ ([13, 34, 92] : List UInt8)) &&
    decide (13 ∉ text)

theorem plainBytes_iff {path : Bytes} {name : Option Bytes} {text : Bytes} : plainBytes path name text = true ↔
    (path.all (fun c ↦ c ∉ ([13, 91, 93] : List UInt8)) = true ∧
      name.all (fun n ↦ n.all fun c ↦ c ∉ ([13, 34, 92] : List UInt8)) = true) ∧ 13 ∉ text := by
  rw [plainBytes, Bool.and_eq_true, Bool.and_eq_true, decide_eq_true_eq]

/-- A key with one such value. -/
def plainKey (path : Bytes) (name : Option Bytes) (text : Bytes) (h : plainBytes path name text = true) : RegKey where
  path := path.map fun c ↦ if c = 92 then .sep else .plain c
  time := ascii "1700000000"
  notes := [ascii "#time=1da15ab00000000"]
  values := [plainValue name text (plainBytes_iff.mp h).1.2 (plainBytes_iff.mp h).2]
  path_ok := by
    intro t ht
    obtain ⟨c, hc, rfl⟩ := List.mem_map.mp ht
    have hplain := List.all_iff_forall_prop.mp (plainBytes_iff.mp h).1.1 c hc
    by_cases hslash : c = 92
    · rw [if_pos hslash]
      trivial
    · rw [if_neg hslash]
      simp only [RegTok.InKey, List.mem_cons, List.not_mem_nil, or_false, not_or] at hplain ⊢
      exact ⟨hplain.1, hplain.2.1, hslash, hplain.2.2⟩
  time_ok := by decide
  notes_ok := by decide
  values_apart := List.nodup_singleton _

/-- A prefix that was set up for a Retina screen, with one controller hidden. -/
def someSystem : RegFile where
  header := wineHeader
  keys :=
    [plainKey (ascii "Software\\Microsoft\\Windows NT\\CurrentVersion\\AeDebug") (some (ascii "Auto")) (ascii "\"0\"") (by decide),
      plainKey (ascii "Software\\Wow6432Node\\Microsoft\\Windows NT\\CurrentVersion\\AeDebug") (some (ascii "Auto")) (ascii "\"0\"")
        (by decide),
      plainKey (ascii "Software\\Classes\\steam") (some (ascii "URL Protocol")) (ascii "\"\"") (by decide),
      plainKey (ascii "Software\\Classes\\steam\\shell\\open\\command") none
        (ascii "\"\\\"C:\\\\Program Files (x86)\\\\Steam\\\\steam.exe\\\" \\\"%1\\\"\"") (by decide),
      plainKey (ascii "System\\ControlSet001\\Services\\WineBus\\Devices\\054C/0CE6") (some (ascii "Hidraw")) (ascii "dword:00000000")
        (by decide)]
  header_ne_nil := wineHeader_ne_nil
  header_ok := wineHeader_ok
  keys_apart := by decide +kernel

def someUser : RegFile where
  header := wineHeader
  keys :=
    [plainKey (ascii "Software\\Wine\\WineDbg") (some (ascii "ShowCrashDialog")) (ascii "dword:00000000") (by decide),
      plainKey (ascii "Software\\Wine\\Mac Driver") (some (ascii "RetinaMode")) (ascii "\"y\"") (by decide),
      plainKey (ascii "Control Panel\\Desktop") (some (ascii "LogPixels")) (ascii "dword:000000c0") (by decide)]
  header_ne_nil := wineHeader_ne_nil
  header_ok := wineHeader_ok
  keys_apart := by decide

def somePlan (retina : Bool) : SettingsPlan :=
  ⟨true, retina, some 192, [ascii "054c/0ce6"], [ascii "045e/0b13"], some false, by decide, by decide⟩

def someStamp : Bytes := ascii "1700000000 x\n"

/-- The plan that the prefix was set up with is applied, and the one without Retina is not. -/
theorem settingsAlreadyApplied_iff_retina :
    Applied (settingsKeys (somePlan true)) someSystem someUser ∧ ¬Applied (settingsKeys (somePlan false)) someSystem someUser := by
  have htime : prefixUpToDate (some someStamp) (ascii "1700000000") = true := by decide
  have hiff (retina : Bool) := settingsAlreadyApplied_iff (somePlan retina) someSystem someUser (some someStamp) (ascii "1700000000")
  apply And.intro
  · exact ((hiff true).mp (by decide +kernel)).2
  · exact fun happlied ↦ absurd ((hiff false).mpr ⟨htime, happlied⟩) (by decide +kernel)

end NotProton.CompatRun.PrefixSettings
