import NotProton.CompatRun.PrefixSettings

/-!
# HighResolution — LogPixels and RetinaMode over a game's launches (`compat_run.sh`)

The registry's files are lists of lines.  What an import does to them is Wine's; of the import file the other settings
are there as they are written.
-/

open NotProton.Library

namespace NotProton.CompatRun.HighResolution

open PrefixSettings

/-! ## Reading the registry -/

/-- `/^"retinamode"="[yt1]/` -/
def isRetinaMode (line : Bytes) : Bool :=
  let start := ascii "\"retinamode\"=\""
  start.isPrefixOf line && (line.drop start.length).head?.any fun c ↦ c = 121 ∨ c = 116 ∨ c = 49

/-- `/^"logpixels"=dword:[0-9a-f]+$/` and `length($0) <= 26`, and what `substr($0, 19)` is then. -/
def logPixels (line : Bytes) : Option Bytes :=
  let start := ascii "\"logpixels\"=dword:"
  let digits := line.drop start.length
  if start.isPrefixOf line ∧ digits ≠ [] ∧ digits.all isHex ∧ line.length ≤ 26 then some digits else none

/-- The variables of the `awk` over `user.reg`. -/
structure VideoAwk where
  s : Nat
  r : Bool
  d : Option Bytes

def VideoAwk.start : VideoAwk := ⟨0, false, none⟩

def macDriverKey : Bytes := ascii "[software\\\\wine\\\\mac driver]"
def desktopKey : Bytes := ascii "[control panel\\\\desktop]"
def fontsKey : Bytes := ascii "[system\\\\controlset001\\\\hardware profiles\\\\current\\\\software\\\\fonts]"

def videoRecord (v : VideoAwk) (line : Bytes) : VideoAwk :=
  if line.head? = some 91 then
    let line := line.map toLower
    { v with s := if macDriverKey.isPrefixOf line then 1 else if desktopKey.isPrefixOf line then 2 else 0 }
  else
    let line := if v.s = 0 then line else line.map toLower
    { v with
      r := v.r || (v.s = 1 && isRetinaMode line)
      d := if v.s = 2 then (logPixels line).or v.d else v.d }

/-- The `awk` over `system.reg`: whether it is under the key, and what it prints before it exits. -/
def fontsRecord (v : Bool × Option Bytes) (line : Bytes) : Bool × Option Bytes :=
  if line.head? = some 91 then (fontsKey.isPrefixOf (line.map toLower), v.2)
  else (v.1, v.2.or (if v.1 then logPixels (line.map toLower) else none))

/-- `$((0x…))` of small letters. -/
def hexNumber (digits : Bytes) : Nat :=
  digits.foldl (fun n c ↦ 16 * n + (if isDigit c then c.toNat - 48 else c.toNat - 87)) 0

/-- `retina_was` -/
def retinaWas (userReg : Option (List Bytes)) : Bool := ((userReg.getD []).foldl videoRecord .start).r

/-- `dpi` -/
def dpiOf (systemReg userReg : Option (List Bytes)) : Nat :=
  let dpi := ((userReg.getD []).foldl videoRecord .start).d
  let dpi := dpi.or ((systemReg.getD []).foldl fontsRecord (false, none)).2
  let dpi := hexNumber (dpi.getD (ascii "0"))
  if 0 < dpi then dpi else 96

/-- `new_dpi` -/
def newDpi (retina was : Bool) (dpi : Nat) : Option Nat :=
  if retina then
    if (was && 110 ≤ dpi) || 2147483647 < dpi then none else some (dpi * 2)
  else if was then
    let new := dpi / 2
    some (if 96 ≤ new then new else 96)
  else none

/-- `plan_logpixels`: the number `dpi_value` has. -/
def planLogpixels (retina : Bool) (systemReg userReg : Option (List Bytes)) : Option Nat :=
  let dpi := dpiOf systemReg userReg
  (newDpi retina (retinaWas userReg) dpi).filter (· ≠ dpi)

/-! ## Launches -/

/-- The two files of a built prefix. -/
structure Registry where
  system : RegFile
  user : RegFile

def Registry.file (r : Registry) : Hive → RegFile := regOf r.system r.user

def Registry.retina (r : Registry) : Bool := retinaWas (some r.user.lines)

def Registry.dpi (r : Registry) : Nat := dpiOf (some r.system.lines) (some r.user.lines)

/-- What a launch brings: its verb, `NOTPROTON_RETINA`, what else is planned, and what `prefix_up_to_date` reads. -/
structure VideoLaunch where
  waitforexitandrun : Bool
  retina : Bool
  controllersAdd : List Bytes
  controllersRemove : List Bytes
  hidraw : Option Bool
  add_ok : ∀ id ∈ controllersAdd, isId id = true
  remove_ok : ∀ id ∈ controllersRemove, isId id = true
  timestamp : Option Bytes
  infTime : Bytes

/-- What `import_prefix_settings` writes into the settings file. -/
def settingsPlan (l : VideoLaunch) (r : Registry) : SettingsPlan :=
  { waitforexitandrun := l.waitforexitandrun
    retina := l.retina
    newDpi := if l.waitforexitandrun then planLogpixels l.retina (some r.system.lines) (some r.user.lines) else none
    controllersAdd := l.controllersAdd
    controllersRemove := l.controllersRemove
    hidraw := l.hidraw
    add_ok := l.add_ok
    remove_ok := l.remove_ok }

def alreadyApplied (l : VideoLaunch) (r : Registry) : Bool :=
  PrefixSettings.settingsAlreadyApplied l.timestamp l.infTime (settingsFile (settingsPlan l r)) (some r.system.lines) (some r.user.lines)

/-- The settings file sets or deletes a value with this path and name. -/
def Names (k : SettingsKey) (hive : Hive) (path : List RegTok) (name : Bytes) : Prop :=
  k.hive = hive ∧
    if k.deleted then path = k.registryPath ∨ k.registryPath ++ [RegTok.sep] <+: path
    else path = k.registryPath ∧ ∃ v ∈ k.values, v.nameText.map toLower = name

/-- `reg import`, as Wine documents it: the file is carried out, and no other value changes. -/
structure Imports (keys : List SettingsKey) (r r' : Registry) : Prop where
  applied : PrefixSettings.Applied keys r'.system r'.user
  kept : ∀ hive path name, (∀ k ∈ keys, ¬Names k hive path name) →
    ∀ text, (r.file hive).Holds path name text ↔ (r'.file hive).Holds path name text

/-- How `import_prefix_settings` ends; the flag is that `import_status` is 0. -/
inductive Launch (l : VideoLaunch) (r : Registry) : Bool → Registry → Prop
  /-- The settings file could not be written. -/
  | unwritten : Launch l r false r
  /-- `settings_already_applied` -/
  | skipped : alreadyApplied l r = true → Launch l r true r
  | imported {r' : Registry} : alreadyApplied l r = false → Imports (settingsKeys (settingsPlan l r)) r r' → Launch l r true r'
  | failed : alreadyApplied l r = false → Launch l r false r

/-- A run of launches, each with how it ended. -/
inductive Run (r : Registry) : List (VideoLaunch × Bool) → Registry → Prop
  | start : Run r [] r
  | launch {launches : List (VideoLaunch × Bool)} {r' r'' : Registry} {l : VideoLaunch} {status : Bool} :
    Run r launches r' → Launch l r' status r'' → Run r (launches ++ [(l, status)]) r''

/-- What the last `waitforexitandrun` launch asked for whose settings are in the registry. -/
def lastAsked (launches : List (VideoLaunch × Bool)) : Bool :=
  launches.foldl (fun asked e ↦ if e.2 && e.1.waitforexitandrun then e.1.retina else asked) false

/-! ## Lines -/

theorem isRetinaMode_iff {line : Bytes} : isRetinaMode line = true ↔
    ∃ c rest, line = (34 :: ascii "retinamode" ++ [34]) ++ 61 :: 34 :: c :: rest ∧ (c = 121 ∨ c = 116 ∨ c = 49) := by
  have hstart : ∀ s : Bytes, (34 :: ascii "retinamode" ++ [34]) ++ 61 :: 34 :: s = ascii "\"retinamode\"=\"" ++ s := fun _ ↦ rfl
  rw [isRetinaMode, Bool.and_eq_true, List.isPrefixOf_iff_prefix]
  constructor
  · rintro ⟨⟨s, rfl⟩, hany⟩
    rw [List.drop_left] at hany
    cases s with
    | nil => cases hany
    | cons c rest => exact ⟨c, rest, (hstart _).symm, by simpa using hany⟩
  · rintro ⟨c, rest, rfl, hc⟩
    rw [hstart]
    refine ⟨List.prefix_append _ _, ?_⟩
    rw [List.drop_left]
    simpa using hc

/-- The text of a dword with these digits. -/
def IsDword (text digits : Bytes) : Prop :=
  text = ascii "dword:" ++ digits ∧ digits ≠ [] ∧ digits.all isHex = true ∧ digits.length ≤ 8

theorem logPixels_iff {line digits : Bytes} : logPixels line = some digits ↔
    ∃ text, line = (34 :: ascii "logpixels" ++ [34]) ++ 61 :: text ∧ IsDword text digits := by
  have hstart : ∀ s : Bytes, (34 :: ascii "logpixels" ++ [34]) ++ 61 :: (ascii "dword:" ++ s) = ascii "\"logpixels\"=dword:" ++ s :=
    fun _ ↦ rfl
  have hlen : ∀ s : Bytes, (ascii "\"logpixels\"=dword:" ++ s).length = 18 + s.length := fun s ↦ by
    rw [List.length_append]
    rfl
  simp only [logPixels, List.isPrefixOf_iff_prefix]
  constructor
  · intro h
    split_ifs at h with hc
    obtain ⟨⟨s, rfl⟩, hne, hhex, hshort⟩ := hc
    rw [List.drop_left] at h hne hhex
    rw [hlen] at hshort
    obtain rfl := Option.some.inj h
    exact ⟨_, (hstart s).symm, rfl, hne, hhex, by omega⟩
  · rintro ⟨text, rfl, rfl, hne, hhex, hshort⟩
    rw [hstart, List.drop_left, hlen, if_pos ⟨List.prefix_append _ _, hne, hhex, by omega⟩]

theorem InName_lower {t : RegTok} (h : t.InName) : t.lower.InName := by
  have hplain : ∀ c : UInt8, c ∉ ([13, 34, 92] : List UInt8) → toLower c ∉ ([13, 34, 92] : List UInt8) :=
    forall_byte (by decide +kernel)
  have hesc : ∀ c : UInt8, c ≠ 13 → toLower c ≠ 13 := forall_byte (by decide +kernel)
  cases t with
  | plain c => exact hplain c h
  | esc c => exact hesc c h
  | sep => exact h

/-- A value's line in small letters has one name. -/
theorem lowered_line_iff (w : RegValue) {name : Bytes} (h : name.all (· ∉ ([13, 34, 92] : List UInt8)) = true) (x : Bytes) :
    (w.nameText ++ 61 :: w.text).map toLower = (34 :: name ++ [34]) ++ 61 :: x ↔
      w.nameText.map toLower = 34 :: name ++ [34] ∧ w.text.map toLower = x := by
  have hline : (w.nameText ++ 61 :: w.text).map toLower = w.nameText.map toLower ++ 61 :: w.text.map toLower := by
    rw [List.map_append, List.map_cons]
    rfl
  -- Both sides are one quoted name and a text, and a line is taken apart in one way only.
  have hw : matchName (w.nameText.map toLower ++ 61 :: w.text.map toLower) =
      some (w.nameText.map toLower, w.text.map toLower) := by
    cases hname : w.name with
    | none =>
      rw [RegValue.nameText, hname]
      rfl
    | some toks =>
      have htoks : ∀ t ∈ toks.map RegTok.lower, t.InName := by
        intro t ht
        obtain ⟨u, hu, rfl⟩ := List.mem_map.mp ht
        exact InName_lower (w.name_ok toks hname u hu)
      have hlower : w.nameText.map toLower = 34 :: render (toks.map RegTok.lower) ++ [34] := by
        rw [RegValue.nameText, hname, render_lower]
        dsimp only
        rw [List.map_append, List.map_cons]
        rfl
      rw [hlower]
      exact matchName_render htoks _
  have hx : matchName ((34 :: name ++ [34]) ++ 61 :: x) = some (34 :: name ++ [34], x) := by
    have htoks : ∀ t ∈ name.map RegTok.plain, t.InName := by
      intro t ht
      obtain ⟨c, hc, rfl⟩ := List.mem_map.mp ht
      exact List.all_iff_forall_prop.mp h c hc
    have hmatch := matchName_render htoks x
    rwa [render_plain] at hmatch
  rw [hline]
  constructor
  · intro heq
    rw [heq, hx] at hw
    obtain ⟨hname, htext⟩ := Prod.mk.inj (Option.some.inj hw)
    exact ⟨hname.symm, htext.symm⟩
  · rintro ⟨hname, htext⟩
    rw [hname, htext]

/-- The `awk` finds the line of a key by its path. -/
theorem bracket_prefix_iff {p : List RegTok} (hp : ∀ t ∈ p, t.InKey) (hbracket : 93 ∉ render p) (r : RegKey) :
    (91 :: render p ++ [93]).isPrefixOf (r.line.map toLower) = true ↔ r.path.map RegTok.lower = p := by
  have hline : r.line.map toLower = 91 :: (render (r.path.map RegTok.lower) ++ 93 :: (32 :: r.time).map toLower) := by
    rw [RegKey.line, show ascii "] " = [93, 32] from rfl, render_lower]
    simp only [List.map_append, List.map_cons, List.append_assoc, List.cons_append, List.nil_append]
    rfl
  have hall : ∀ c ∈ render p, decide (c ≠ 93) = true := fun c hc ↦ decide_eq_true (by rintro rfl; exact hbracket hc)
  rw [hline, List.isPrefixOf_iff_prefix, List.cons_append, List.cons_prefix_cons]
  constructor
  · rintro ⟨-, s, hs⟩
    rw [List.append_assoc, List.singleton_append] at hs
    have htake := congrArg (List.takeWhile fun c ↦ decide (c ≠ 93)) hs
    rw [takeWhile_append_stop, takeWhile_append_stop, List.takeWhile_eq_self_iff.mpr hall] at htake
    exact (takeWhile_render_eq hp (lower_inKey r) hbracket).mp htake.symm
  · intro hpath
    rw [hpath]
    exact ⟨rfl, (32 :: r.time).map toLower, by rw [List.append_assoc]; rfl⟩

/-! ## Files -/

/-- The path of a key of the registry, as its file has it in small letters. -/
def pathOf (hive : Hive) (path : Bytes) : List RegTok := SettingsKey.registryPath ⟨hive, path, false, []⟩

def macDriverPath : List RegTok := pathOf .user macDriver
def desktopPath : List RegTok := pathOf .user desktop
def fontsPath : List RegTok :=
  pathOf .machine (ascii "System\\ControlSet001\\Hardware Profiles\\Current\\Software\\Fonts")

theorem pathOf_ok {hive : Hive} {path : Bytes} (h : path.all (· ∉ ([13, 91, 93] : List UInt8)) = true) :
    (∀ t ∈ pathOf hive path, t.InKey) ∧ 93 ∉ render (pathOf hive path) :=
  SettingsKey.Ok.registryPath
    { path := List.all_iff_forall_prop.mp h
      names := fun _ hv ↦ absurd hv List.not_mem_nil
      deleted := fun _ ↦ rfl }

/-- The line of a value in small letters. -/
def loweredLine (w : RegValue) : Bytes := (w.nameText ++ 61 :: w.text).map toLower

theorem isRetinaMode_loweredLine (w : RegValue) : isRetinaMode (loweredLine w) = true ↔
    w.nameText.map toLower = ascii "\"retinamode\"" ∧
      ∃ c rest, w.text.map toLower = 34 :: c :: rest ∧ (c = 121 ∨ c = 116 ∨ c = 49) := by
  have hname : (ascii "retinamode").all (· ∉ ([13, 34, 92] : List UInt8)) = true := by decide
  rw [isRetinaMode_iff]
  constructor
  · rintro ⟨c, rest, hline, hc⟩
    obtain ⟨hw, htext⟩ := (lowered_line_iff w hname _).mp hline
    exact ⟨hw, c, rest, htext, hc⟩
  · rintro ⟨hw, c, rest, htext, hc⟩
    exact ⟨c, rest, (lowered_line_iff w hname _).mpr ⟨hw, htext⟩, hc⟩

theorem logPixels_loweredLine (w : RegValue) {digits : Bytes} : logPixels (loweredLine w) = some digits ↔
    w.nameText.map toLower = ascii "\"logpixels\"" ∧ IsDword (w.text.map toLower) digits := by
  have hname : (ascii "logpixels").all (· ∉ ([13, 34, 92] : List UInt8)) = true := by decide
  rw [logPixels_iff]
  constructor
  · rintro ⟨text, hline, hdword⟩
    obtain ⟨hw, rfl⟩ := (lowered_line_iff w hname _).mp hline
    exact ⟨hw, hdword⟩
  · rintro ⟨hw, hdword⟩
    exact ⟨_, (lowered_line_iff w hname _).mpr ⟨hw, rfl⟩, hdword⟩

theorem head_of_start {line start : Bytes} {c : UInt8} (hstart : start.head? = some c) (h : line.head? ≠ some c) :
    start.isPrefixOf line = false := by
  rw [Bool.eq_false_iff, ne_eq, List.isPrefixOf_iff_prefix]
  rintro ⟨s, rfl⟩
  cases start with
  | nil => cases hstart
  | cons b start => exact h hstart

/-- A line that starts with no quote is no value's. -/
theorem not_value_line {line : Bytes} (h : line.head? ≠ some 34) : isRetinaMode line = false ∧ logPixels line = none := by
  constructor
  · rw [isRetinaMode, head_of_start rfl h, Bool.false_and]
  · unfold logPixels
    dsimp only
    rw [if_neg]
    rw [head_of_start rfl h]
    exact fun hc ↦ Bool.false_ne_true hc.1

theorem lower_head {line : Bytes} (h : line = [] ∨ line.head? = some 32 ∨ line.head? = some 35) :
    line.head? ≠ some 91 ∧ (line.map toLower).head? ≠ some 34 := by
  obtain rfl | h | h := h
  · exact ⟨by simp, by simp⟩
  · rw [List.head?_map, h]
    decide
  · rw [List.head?_map, h]
    decide

/-- The section a key's line opens. -/
def sectionOf (r : RegKey) : Nat :=
  if r.path.map RegTok.lower = macDriverPath then 1 else if r.path.map RegTok.lower = desktopPath then 2 else 0

theorem videoRecord_key (v : VideoAwk) (r : RegKey) : videoRecord v r.line = { v with s := sectionOf r } := by
  have hmacPath := @pathOf_ok .user macDriver (by decide)
  have hdesktopPath := @pathOf_ok .user desktop (by decide)
  have hmac := bracket_prefix_iff hmacPath.1 hmacPath.2 r
  have hdesktop := bracket_prefix_iff hdesktopPath.1 hdesktopPath.2 r
  have hhead : r.line.head? = some 91 := by
    rw [RegKey.line]
    rfl
  rw [videoRecord, if_pos hhead, sectionOf, macDriverPath, desktopPath]
  simp only [← hmac, ← hdesktop]
  rfl

theorem videoRecord_value (v : VideoAwk) (w : RegValue) : videoRecord v (w.nameText ++ 61 :: w.text) =
    { v with
      r := v.r || (v.s = 1 && isRetinaMode (loweredLine w))
      d := if v.s = 2 then (logPixels (loweredLine w)).or v.d else v.d } := by
  rw [videoRecord, if_neg (nameText_head w _)]
  by_cases hs : v.s = 0
  · simp [hs]
  · simp [hs, loweredLine]

theorem videoRecord_other (v : VideoAwk) {line : Bytes} (h : line = [] ∨ line.head? = some 32 ∨ line.head? = some 35) :
    videoRecord v line = v := by
  obtain ⟨hhead, hquote⟩ := lower_head h
  obtain ⟨hretina, hpixels⟩ := not_value_line hquote
  rw [videoRecord, if_neg hhead]
  by_cases hs : v.s = 0
  · simp only [hs, Nat.zero_ne_one, OfNat.zero_ne_ofNat, decide_false, Bool.false_and, Bool.or_false, if_false]
    rw [← hs]
  · simp [hs, hretina, hpixels]

theorem foldl_video_values (values : List RegValue) (v : VideoAwk) :
    values.foldl (fun (v : VideoAwk) w ↦
        { v with
          r := v.r || (v.s = 1 && isRetinaMode (loweredLine w))
          d := if v.s = 2 then (logPixels (loweredLine w)).or v.d else v.d }) v =
      { v with
        r := v.r || (v.s = 1 && values.any fun w ↦ isRetinaMode (loweredLine w))
        d := if v.s = 2 then values.foldl (fun d w ↦ (logPixels (loweredLine w)).or d) v.d else v.d } := by
  induction values generalizing v with
  | nil => simp
  | cons w values ih =>
    rw [List.foldl_cons, ih, List.any_cons, List.foldl_cons]
    dsimp only
    congr 1
    · rw [Bool.or_assoc, Bool.and_or_distrib_left]
    · split_ifs <;> rfl

/-- What the `awk` over `user.reg` has read. -/
theorem foldl_videoRecord (f : RegFile) :
    (f.lines.foldl videoRecord .start).r = (f.valuesAt macDriverPath).any (fun w ↦ isRetinaMode (loweredLine w)) ∧
      (f.lines.foldl videoRecord .start).d =
        (f.valuesAt desktopPath).foldl (fun d w ↦ (logPixels (loweredLine w)).or d) none := by
  have hapart : macDriverPath ≠ desktopPath := by decide
  have hkeys : ∀ (keys : List RegKey) (v : VideoAwk),
      let after := keys.foldl (fun v r ↦ r.values.foldl (fun (v : VideoAwk) w ↦
        { v with
          r := v.r || (v.s = 1 && isRetinaMode (loweredLine w))
          d := if v.s = 2 then (logPixels (loweredLine w)).or v.d else v.d }) { v with s := sectionOf r }) v
      after.r = (v.r || (keys.flatMap fun r ↦ if r.path.map RegTok.lower = macDriverPath then r.values else []).any
        fun w ↦ isRetinaMode (loweredLine w)) ∧
      after.d = (keys.flatMap fun r ↦ if r.path.map RegTok.lower = desktopPath then r.values else []).foldl
        (fun d w ↦ (logPixels (loweredLine w)).or d) v.d := by
    intro keys
    induction keys with
    | nil => simp
    | cons r keys ih =>
      intro v
      dsimp only
      rw [List.foldl_cons, foldl_video_values, (ih _).1, (ih _).2, List.flatMap_cons, List.flatMap_cons, List.any_append,
        List.foldl_append]
      dsimp only
      rw [← Bool.or_assoc]
      unfold sectionOf
      -- A key is the driver's, the desktop's or neither.
      by_cases hmac : r.path.map RegTok.lower = macDriverPath
      · simp [hmac, hapart]
      · by_cases hdesktop : r.path.map RegTok.lower = desktopPath
        · simp [hdesktop, hapart.symm]
        · simp [hmac, hdesktop]
  have hlines : f.lines.foldl videoRecord .start = _ :=
    f.foldl_lines _ _ videoRecord_key videoRecord_value (fun v line h ↦ videoRecord_other v h) fun line h ↦ by
      rw [videoRecord, if_neg h]
      simp [VideoAwk.start]
  rw [hlines]
  have hall := hkeys f.keys .start
  exact ⟨by rw [hall.1]; rfl, hall.2⟩

/-- What the `awk` over `system.reg` prints. -/
theorem foldl_fontsRecord (f : RegFile) : (f.lines.foldl fontsRecord (false, none)).2 =
    (f.valuesAt fontsPath).findSome? fun w ↦ logPixels (loweredLine w) := by
  have hkey : ∀ (v : Bool × Option Bytes) (r : RegKey),
      fontsRecord v r.line = (decide (r.path.map RegTok.lower = fontsPath), v.2) := by
    intro v r
    have hfontsPath := @pathOf_ok .machine (ascii "System\\ControlSet001\\Hardware Profiles\\Current\\Software\\Fonts") (by decide)
    have hfonts := bracket_prefix_iff hfontsPath.1 hfontsPath.2 r
    have hhead : r.line.head? = some 91 := by
      rw [RegKey.line]
      rfl
    rw [fontsRecord, if_pos hhead, Prod.mk.injEq]
    exact ⟨Bool.eq_iff_iff.mpr (hfonts.trans (decide_eq_true_iff (p := _ = fontsPath)).symm), rfl⟩
  have hvalue : ∀ (v : Bool × Option Bytes) (w : RegValue),
      fontsRecord v (w.nameText ++ 61 :: w.text) = (v.1, v.2.or (if v.1 then logPixels (loweredLine w) else none)) := by
    intro v w
    rw [fontsRecord, if_neg (nameText_head w _), loweredLine]
  have hother : ∀ (v : Bool × Option Bytes) (line : Bytes), line = [] ∨ line.head? = some 32 ∨ line.head? = some 35 →
      fontsRecord v line = v := by
    intro v line h
    obtain ⟨hhead, hquote⟩ := lower_head h
    rw [fontsRecord, if_neg hhead, (not_value_line hquote).2]
    simp
  -- The first value of the name under the key counts, wherever it stands.
  have hvalues : ∀ (values : List RegValue) (under : Bool) (d : Option Bytes),
      values.foldl (fun (v : Bool × Option Bytes) w ↦ (v.1, v.2.or (if v.1 then logPixels (loweredLine w) else none))) (under, d) =
        (under, d.or ((if under then values else []).findSome? fun w ↦ logPixels (loweredLine w))) := by
    intro values under
    induction values with
    | nil => cases under <;> simp
    | cons w values ih =>
      intro d
      rw [List.foldl_cons, ih, Option.or_assoc]
      cases under with
      | false => simp
      | true =>
        simp only [if_true, List.findSome?_cons]
        cases logPixels (loweredLine w) <;> rfl
  have hkeys : ∀ (keys : List RegKey) (v : Bool × Option Bytes),
      (keys.foldl (fun v r ↦ r.values.foldl
        (fun (v : Bool × Option Bytes) w ↦ (v.1, v.2.or (if v.1 then logPixels (loweredLine w) else none)))
        (decide (r.path.map RegTok.lower = fontsPath), v.2)) v).2 =
        v.2.or ((keys.flatMap fun r ↦ if r.path.map RegTok.lower = fontsPath then r.values else []).findSome?
          fun w ↦ logPixels (loweredLine w)) := by
    intro keys
    induction keys with
    | nil => simp
    | cons r keys ih =>
      intro v
      rw [List.foldl_cons, ih, hvalues, List.flatMap_cons, List.findSome?_append, Option.or_assoc]
      simp only [decide_eq_true_eq]
  rw [f.foldl_lines _ _ hkey hvalue hother fun line h ↦ by rw [fontsRecord, if_neg h]; rfl, hkeys, RegFile.valuesAt,
    Option.none_or]

/-! ## What is read, by what the files hold -/

theorem retina_iff (r : Registry) : r.retina = true ↔ ∃ text more,
    (r.file .user).Holds macDriverPath (ascii "\"retinamode\"") (text :: more) ∧
      ∃ c rest, text.map toLower = 34 :: c :: rest ∧ (c = 121 ∨ c = 116 ∨ c = 49) := by
  rw [Registry.retina, retinaWas, Option.getD_some, (foldl_videoRecord r.user).1, List.any_eq_true]
  constructor
  · rintro ⟨w, hw, hmode⟩
    obtain ⟨hname, htext⟩ := (isRetinaMode_loweredLine w).mp hmode
    exact ⟨w.text, w.more, ⟨w, hw, hname, rfl⟩, htext⟩
  · rintro ⟨text, more, ⟨w, hw, hname, hlines⟩, htext⟩
    obtain ⟨rfl, -⟩ := List.cons.inj hlines
    exact ⟨w, hw, (isRetinaMode_loweredLine w).mpr ⟨hname, htext⟩⟩

/-- The digits of LogPixels under a path. -/
def Pixels (f : RegFile) (path : List RegTok) (digits : Bytes) : Prop :=
  ∃ text more, f.Holds path (ascii "\"logpixels\"") (text :: more) ∧ IsDword (text.map toLower) digits

theorem findSome?_logPixels {f : RegFile} {path : List RegTok} {values : List RegValue}
    (h : ∀ w, w ∈ values ↔ w ∈ f.valuesAt path) {digits : Bytes} :
    values.findSome? (fun w ↦ logPixels (loweredLine w)) = some digits ↔ Pixels f path digits := by
  have hone : ∀ v ∈ values, ∀ w ∈ values, ∀ x y, logPixels (loweredLine v) = some x →
      logPixels (loweredLine w) = some y → x = y := by
    intro v hv w hw x y hx hy
    have hname := ((logPixels_loweredLine v).mp hx).1.trans ((logPixels_loweredLine w).mp hy).1.symm
    have hsame : v = w := RegFile.valuesAt_inj ((h v).mp hv) ((h w).mp hw) hname
    exact Option.some.inj (hx.symm.trans (hsame ▸ hy))
  rw [findSome?_eq_some_iff hone]
  constructor
  · rintro ⟨w, hw, hpixels⟩
    obtain ⟨hname, hdword⟩ := (logPixels_loweredLine w).mp hpixels
    exact ⟨w.text, w.more, ⟨w, (h w).mp hw, hname, rfl⟩, hdword⟩
  · rintro ⟨text, more, ⟨w, hw, hname, hlines⟩, hdword⟩
    obtain ⟨rfl, -⟩ := List.cons.inj hlines
    exact ⟨w, (h w).mpr hw, (logPixels_loweredLine w).mpr ⟨hname, hdword⟩⟩

theorem userDigits_iff (r : Registry) {digits : Bytes} :
    (r.user.lines.foldl videoRecord .start).d = some digits ↔ Pixels (r.file .user) desktopPath digits := by
  rw [(foldl_videoRecord r.user).2, foldl_last_or, Option.or_none]
  exact findSome?_logPixels fun w ↦ List.mem_reverse

theorem systemDigits_iff (r : Registry) {digits : Bytes} :
    (r.system.lines.foldl fontsRecord (false, none)).2 = some digits ↔ Pixels (r.file .machine) fontsPath digits := by
  rw [foldl_fontsRecord]
  exact findSome?_logPixels fun w ↦ Iff.rfl

theorem dpi_eq (r : Registry) : r.dpi =
    let dpi := hexNumber (((r.user.lines.foldl videoRecord .start).d.or
      (r.system.lines.foldl fontsRecord (false, none)).2).getD (ascii "0"))
    if 0 < dpi then dpi else 96 := rfl

/-- What the files do not hold differently is read the same. -/
theorem dpi_congr {r r' : Registry}
    (huser : ∀ digits, Pixels (r.file .user) desktopPath digits ↔ Pixels (r'.file .user) desktopPath digits)
    (hsystem : ∀ digits, Pixels (r.file .machine) fontsPath digits ↔ Pixels (r'.file .machine) fontsPath digits) :
    r.dpi = r'.dpi := by
  have hd : (r.user.lines.foldl videoRecord .start).d = (r'.user.lines.foldl videoRecord .start).d := by
    ext digits
    rw [userDigits_iff, userDigits_iff, huser]
  have hf : (r.system.lines.foldl fontsRecord (false, none)).2 = (r'.system.lines.foldl fontsRecord (false, none)).2 := by
    ext digits
    rw [systemDigits_iff, systemDigits_iff, hsystem]
  rw [dpi_eq, dpi_eq, hd, hf]

theorem dpi_of_pixels {r : Registry} {digits : Bytes} (h : Pixels (r.file .user) desktopPath digits)
    (hpos : 0 < hexNumber digits) : r.dpi = hexNumber digits := by
  rw [dpi_eq, (userDigits_iff r).mpr h]
  exact if_pos hpos

/-! ## Numbers -/

theorem hexNumber_append (s : Bytes) (c : UInt8) :
    hexNumber (s ++ [c]) = 16 * hexNumber s + (if isDigit c then c.toNat - 48 else c.toNat - 87) := by
  rw [hexNumber, List.foldl_append]
  rfl

theorem hexNumber_hexDigits (w n : Nat) (h : n < 16 ^ w) : hexNumber (hexDigits w n) = n := by
  have hdigit : ∀ m < 16, (if isDigit (hexDigit m) then (hexDigit m).toNat - 48 else (hexDigit m).toNat - 87) = m := by decide
  induction w generalizing n with
  | zero =>
    rw [Nat.pow_zero] at h
    show 0 = n
    omega
  | succ w ih =>
    rw [Nat.pow_succ] at h
    rw [hexDigits, hexNumber_append, ih (n / 16) (by omega), hdigit _ (Nat.mod_lt n (by decide))]
    omega

theorem hexDigits_length (w n : Nat) : (hexDigits w n).length = w := by
  induction w generalizing n with
  | zero => rfl
  | succ w ih => rw [hexDigits, List.length_append, ih, List.length_singleton]

/-- `%08x` has eight digits up to 32 bits. -/
theorem hex8_eq {n : Nat} (h : n < 2 ^ 32) : hex8 n = hexDigits 8 n := by
  have hlog : n.log2 < 32 := by
    by_cases hn : n = 0
    · rw [hn]
      decide
    · exact (Nat.log2_lt hn).mpr h
  rw [hex8, show max 8 (n.log2 / 4 + 1) = 8 by omega]

theorem isDword_hex8 {n : Nat} (h : n < 2 ^ 32) : IsDword ((ascii "dword:" ++ hex8 n).map toLower) (hex8 n) := by
  have hhex : (hex8 n).all isHex = true := List.all_eq_true.mpr (hexDigits_isHex _ n)
  have hlen : (hex8 n).length = 8 := by rw [hex8_eq h, hexDigits_length]
  refine ⟨?_, ?_, hhex, by omega⟩
  · rw [List.map_append, map_toLower_hex hhex]
    rfl
  · intro hnil
    rw [hnil] at hlen
    cases hlen

theorem hexNumber_hex8 {n : Nat} (h : n < 2 ^ 32) : hexNumber (hex8 n) = n := by
  rw [hex8_eq h]
  exact hexNumber_hexDigits 8 n (by omega)

/-! ## What an applied settings file says -/

theorem has_iff {k : SettingsKey} {v : SettingsValue} {f : RegFile} {text : List Bytes} :
    k.Has v f text ↔ f.Holds k.registryPath (v.nameText.map toLower) text := by
  constructor
  · rintro ⟨r, hr, hpath, w, hw, hname, htext⟩
    exact ⟨w, RegFile.mem_valuesAt.mpr ⟨r, hr, hpath, hw⟩, hname, htext⟩
  · rintro ⟨w, hw, hname, htext⟩
    obtain ⟨r, hr, hpath, hw⟩ := RegFile.mem_valuesAt.mp hw
    exact ⟨r, hr, hpath, w, hw, hname, htext⟩

theorem mem_videoLines {p : SettingsPlan} {k : SettingsKey} (h : k ∈ videoLines p) : k ∈ settingsKeys p := by
  simp only [settingsKeys, List.mem_append]
  exact .inl (.inl (.inl (.inl (.inr h))))

theorem retina_of_applied {p : SettingsPlan} {r : Registry} (h : PrefixSettings.Applied (settingsKeys p) r.system r.user)
    (hverb : p.waitforexitandrun = true) : r.retina = p.retina := by
  have hkey : (⟨.user, macDriver, false, [retinaLine p.retina]⟩ : SettingsKey) ∈ videoLines p := by
    rw [videoLines, hverb]
    exact List.mem_cons_self
  have happ := h _ (mem_videoLines hkey)
  rw [SettingsKey.AppliedIn, if_neg Bool.false_ne_true] at happ
  have hvalue := happ _ List.mem_cons_self
  simp only [has_iff] at hvalue
  rw [Bool.eq_iff_iff, retina_iff]
  cases hretina : p.retina with
  | true =>
    rw [hretina, if_neg (by decide)] at hvalue
    exact iff_of_true ⟨_, _, hvalue, 121, [34], rfl, .inl rfl⟩ rfl
  | false =>
    have hdash : (retinaLine false).text = ascii "-" := rfl
    rw [hretina, if_pos hdash] at hvalue
    apply iff_of_false
    · rintro ⟨text, more, hholds, -⟩
      exact hvalue _ hholds
    · exact Bool.false_ne_true

theorem dpi_of_applied {p : SettingsPlan} {r : Registry} (h : PrefixSettings.Applied (settingsKeys p) r.system r.user)
    (hverb : p.waitforexitandrun = true) {n : Nat} (hdpi : p.newDpi = some n) (hpos : 0 < n) (hlt : n < 2 ^ 32) : r.dpi = n := by
  have hkey : (⟨.user, desktop, false, [⟨some (ascii "LogPixels"), ascii "dword:" ++ hex8 n⟩]⟩ : SettingsKey) ∈ videoLines p := by
    rw [videoLines, hverb, hdpi]
    exact List.mem_cons_of_mem _ List.mem_cons_self
  have happ := h _ (mem_videoLines hkey)
  rw [SettingsKey.AppliedIn, if_neg Bool.false_ne_true] at happ
  have hvalue := happ _ List.mem_cons_self
  simp only [has_iff] at hvalue
  have hdash : ascii "dword:" ++ hex8 n ≠ ascii "-" := fun heq ↦
    absurd (Option.some.inj (congrArg List.head? heq)) (by decide)
  rw [if_neg hdash] at hvalue
  have hpixels : Pixels (r.file .user) desktopPath (hex8 n) := ⟨_, _, hvalue, isDword_hex8 hlt⟩
  rw [dpi_of_pixels hpixels (by rw [hexNumber_hex8 hlt]; exact hpos), hexNumber_hex8 hlt]

/-- Where nothing would change the import is skipped, and only there. -/
theorem applied_of_skipped {l : VideoLaunch} {r : Registry} (h : alreadyApplied l r = true) :
    PrefixSettings.Applied (settingsKeys (settingsPlan l r)) r.system r.user := by
  have hok := settingsKeys_ok (settingsPlan l r)
  have hlast : ∀ k ∈ settingsKeys (settingsPlan l r), ∀ v ∈ k.values, v.text.getLast? ≠ some 92 :=
    fun k hk v hv ↦ settingsValues_last _ v (mem_settingsValues hk v hv)
  -- the two lines before the first key
  have hblank : ∀ line : Bytes, line.head? ≠ some 91 → line.head? ≠ some 34 ∧ line.head? ≠ some 64 →
      ∀ s, record s (line ++ [13]) = s := by
    intro line hkey hvalue s
    rw [record_cr, if_neg hkey]
    exact valueLine_other hvalue s
  have hheader : readFile (settingsFile (settingsPlan l r)) Awk.start =
      (((settingsKeys (settingsPlan l r)).flatMap SettingsKey.lines).map (· ++ [13])).foldl record (openFile Awk.start) := by
    rw [settingsFile, List.map_append, readFile, if_neg (by simp), List.foldl_append, List.map_cons, List.map_cons,
      List.map_nil, List.foldl_cons, List.foldl_cons, List.foldl_nil,
      hblank (ascii "Windows Registry Editor Version 5.00") (by decide) (by decide), hblank [] (by decide) (by decide)]
  obtain ⟨hsettings, hfile⟩ := hasRead_start.settingsKeys hok rfl
  rw [← hheader] at hsettings hfile
  have hsystemRoot : (openFile (readFile (settingsFile (settingsPlan l r)) Awk.start)).root = Hive.machine.root := by
    rw [openFile, hfile]
    rfl
  obtain ⟨hsystem, hsystemFile⟩ := hsettings.regFile hok r.system (by rw [hfile]; decide) hsystemRoot
  rw [hfile] at hsystemFile
  have huserRoot : (openFile (readFile r.system.lines (readFile (settingsFile (settingsPlan l r)) Awk.start))).root = Hive.user.root := by
    rw [openFile, hsystemFile]
    rfl
  obtain ⟨huser, huserFile⟩ := hsystem.regFile hok r.user (by rw [hsystemFile]; decide) huserRoot
  rw [hsystemFile] at huserFile
  have haccepts := (Bool.and_eq_true_iff.mp h).2
  exact (huser.accepts_iff huserFile hok (settingsKeys_oneText _) hlast).mp haccepts

/-! ## What a settings file leaves alone -/

/-- Only keys of controllers are deleted. -/
theorem deleted_key {p : SettingsPlan} {k : SettingsKey} (hk : k ∈ settingsKeys p) (hd : k.deleted = true) :
    ∃ id, k = ⟨.machine, winebus ++ ascii "\\Devices\\" ++ id, true, []⟩ := by
  simp only [settingsKeys, List.mem_append] at hk
  obtain ((((hk | hk) | hk) | hk) | hk) | hk := hk
  · simp only [List.mem_cons, List.not_mem_nil, or_false] at hk
    obtain rfl | rfl | rfl := hk <;> cases hd
  · unfold videoLines at hk
    split_ifs at hk
    · cases hk
    · cases hdpi : p.newDpi <;> simp only [hdpi, List.mem_cons, List.not_mem_nil, or_false] at hk
      · rw [hk] at hd
        cases hd
      · obtain rfl | rfl := hk <;> cases hd
  · simp only [List.mem_cons, List.not_mem_nil, or_false] at hk
    obtain rfl | rfl := hk <;> cases hd
  · obtain ⟨id, -, rfl⟩ := List.mem_map.mp hk
    cases hd
  · obtain ⟨id, -, rfl⟩ := List.mem_map.mp hk
    exact ⟨id, rfl⟩
  · cases hset : p.hidraw <;> simp only [winebusLines, hset, List.mem_singleton, List.not_mem_nil] at hk
    rw [hk] at hd
    cases hd

/-- The video settings stand nowhere else. -/
theorem mem_videoLines_of_name {p : SettingsPlan} {k : SettingsKey} (hk : k ∈ settingsKeys p) {v : SettingsValue} (hv : v ∈ k.values)
    (hname : v.nameText.map toLower ∈ [ascii "\"retinamode\"", ascii "\"logpixels\""]) : k ∈ videoLines p := by
  simp only [settingsKeys, List.mem_append] at hk
  obtain ((((hk | hk) | hk) | hk) | hk) | hk := hk
  · simp only [List.mem_cons, List.not_mem_nil, or_false] at hk
    obtain rfl | rfl | rfl := hk <;> rw [List.mem_singleton.mp hv] at hname <;> exact absurd hname (by decide)
  · exact hk
  · simp only [List.mem_cons, List.not_mem_nil, or_false] at hk
    obtain rfl | rfl := hk <;> rw [List.mem_singleton.mp hv] at hname <;> exact absurd hname (by decide)
  · obtain ⟨id, -, rfl⟩ := List.mem_map.mp hk
    rw [List.mem_singleton.mp hv] at hname
    exact absurd hname (by decide)
  · obtain ⟨id, -, rfl⟩ := List.mem_map.mp hk
    exact absurd hv List.not_mem_nil
  · cases hset : p.hidraw <;> simp only [winebusLines, hset, List.mem_singleton, List.not_mem_nil] at hk
    rw [hk, List.mem_singleton] at hv
    rw [hv] at hname
    have hdisable : (SettingsValue.nameText ⟨some (ascii "DisableHidraw"), []⟩).map toLower ∈
        [ascii "\"retinamode\"", ascii "\"logpixels\""] := hname
    exact absurd hdisable (by decide)

/-- The video settings are in `user.reg`. -/
theorem videoLines_hive {p : SettingsPlan} {k : SettingsKey} (hk : k ∈ videoLines p) : k.hive = .user := by
  unfold videoLines at hk
  split_ifs at hk
  · cases hk
  · cases hdpi : p.newDpi <;> simp only [hdpi, List.mem_cons, List.not_mem_nil, or_false] at hk
    · rw [hk]
    · obtain rfl | rfl := hk <;> rfl

theorem not_names_user {p : SettingsPlan} {path : List RegTok} {name : Bytes}
    (hname : name ∈ [ascii "\"retinamode\"", ascii "\"logpixels\""])
    (hlines : ∀ k ∈ videoLines p, ∀ v ∈ k.values, v.nameText.map toLower ≠ name) :
    ∀ k ∈ settingsKeys p, ¬Names k .user path name := by
  rintro k hk ⟨hhive, hpath⟩
  split_ifs at hpath with hd
  · obtain ⟨id, rfl⟩ := deleted_key hk hd
    cases hhive
  · obtain ⟨-, v, hv, rfl⟩ := hpath
    exact hlines k (mem_videoLines_of_name hk hv hname) v hv rfl

theorem devices_start (id : Bytes) : pathOf .machine winebus <+:
    SettingsKey.registryPath ⟨.machine, winebus ++ ascii "\\Devices\\" ++ id, true, []⟩ := by
  have hlower : (winebus ++ ascii "\\Devices\\" ++ id).map toLower =
      ascii "system\\currentcontrolset\\" ++ (ascii "services\\winebus\\devices\\" ++ id.map toLower) := by
    rw [List.map_append, ← List.append_assoc]
    rfl
  have hpath : pathOf .machine winebus =
      (ascii "system\\controlset001\\services\\winebus").map fun c ↦ if c = 92 then .sep else .plain c := by decide
  rw [SettingsKey.registryPath, hpath]
  dsimp only
  rw [hlower, if_pos ⟨rfl, List.prefix_append _ _⟩, List.drop_left]
  apply List.IsPrefix.map
  exact ⟨ascii "\\devices\\" ++ id.map toLower, by rw [← List.append_assoc, ← List.append_assoc]; rfl⟩

theorem not_names_fonts {p : SettingsPlan} : ∀ k ∈ settingsKeys p, ¬Names k .machine fontsPath (ascii "\"logpixels\"") := by
  rintro k hk ⟨hhive, hpath⟩
  split_ifs at hpath with hd
  · -- a controller's key is not above the fonts' key
    obtain ⟨id, rfl⟩ := deleted_key hk hd
    have hpre := hpath.elim (fun heq ↦ heq ▸ devices_start id) fun hbelow ↦ (devices_start id).trans
      ((List.prefix_append _ _).trans hbelow)
    exact absurd hpre (by decide)
  · obtain ⟨-, v, hv, hname⟩ := hpath
    have hvideo := mem_videoLines_of_name hk hv (by rw [hname]; decide)
    rw [videoLines_hive hvideo] at hhive
    cases hhive

theorem Imports.retina_kept {p : SettingsPlan} {r r' : Registry} (h : Imports (settingsKeys p) r r')
    (hverb : p.waitforexitandrun = false) : r'.retina = r.retina := by
  have hnone : ∀ k ∈ videoLines p, ∀ v ∈ k.values, v.nameText.map toLower ≠ ascii "\"retinamode\"" := by
    rw [videoLines, hverb]
    exact fun k hk ↦ absurd hk List.not_mem_nil
  have hsame := h.kept .user macDriverPath _ (not_names_user (by decide) hnone)
  rw [Bool.eq_iff_iff, retina_iff, retina_iff]
  simp only [hsame]

theorem Imports.dpi_kept {p : SettingsPlan} {r r' : Registry} (h : Imports (settingsKeys p) r r')
    (hdpi : p.waitforexitandrun = true → p.newDpi = none) : r'.dpi = r.dpi := by
  have hnone : ∀ k ∈ videoLines p, ∀ v ∈ k.values, v.nameText.map toLower ≠ ascii "\"logpixels\"" := by
    intro k hk v hv
    unfold videoLines at hk
    split_ifs at hk with hverb
    · cases hk
    · rw [hdpi (by simpa using hverb)] at hk
      obtain rfl := List.mem_singleton.mp hk
      rw [List.mem_singleton.mp hv]
      have hretina : (SettingsValue.nameText ⟨some (ascii "RetinaMode"), []⟩).map toLower ≠ ascii "\"logpixels\"" := by decide
      exact hretina
  have huser := h.kept .user desktopPath _ (not_names_user (by decide) hnone)
  have hsystem := h.kept .machine fontsPath _ not_names_fonts
  apply dpi_congr
  · intro digits
    simp only [Pixels, huser]
  · intro digits
    simp only [Pixels, hsystem]

/-! ## Over a run -/

/-- LogPixels is what it was without High Resolution, doubled where it is on. -/
def Doubled (d : Nat) (r : Registry) : Prop := r.dpi = if r.retina then 2 * d else d

/-- A launch doubles, halves or leaves LogPixels as the mode changes. -/
theorem Doubled.planLogpixels_eq {d : Nat} {r : Registry} (h : Doubled d r) (hlo : 96 ≤ d) (hhi : d ≤ 0x7FFFFFFF) (retina : Bool) :
    planLogpixels retina (some r.system.lines) (some r.user.lines) =
      if retina = r.retina then none else some (if retina then 2 * d else d) := by
  have hdpi : dpiOf (some r.system.lines) (some r.user.lines) = if r.retina then 2 * d else d := h
  have hmode : retinaWas (some r.user.lines) = r.retina := rfl
  rw [planLogpixels, hdpi, hmode]
  cases retina with
  | false =>
    cases r.retina with
    | false => rfl
    | true =>
      have hhalf : 2 * d / 2 = d := by omega
      have hne : d ≠ 2 * d := by omega
      simp [newDpi, hhalf, hlo, hne]
  | true =>
    cases r.retina with
    | false =>
      have hle : ¬2147483647 < d := by omega
      have hne : d * 2 ≠ d := by omega
      simp [newDpi, hle, Nat.mul_comm 2 d, hne]
    | true =>
      have hbig : 110 ≤ 2 * d := by omega
      simp [newDpi, hbig]

theorem Launch.doubled {d : Nat} {r r' : Registry} {l : VideoLaunch} {status : Bool} (h : Launch l r status r')
    (hr : Doubled d r) (hlo : 96 ≤ d) (hhi : d ≤ 0x7FFFFFFF) :
    Doubled d r' ∧ r'.retina = if status && l.waitforexitandrun then l.retina else r.retina := by
  have hplan := hr.planLogpixels_eq hlo hhi l.retina
  cases h with
  | unwritten => exact ⟨hr, rfl⟩
  | failed => exact ⟨hr, rfl⟩
  | skipped happlied =>
    refine ⟨hr, ?_⟩
    split_ifs with hverb
    · exact retina_of_applied (applied_of_skipped happlied) hverb
    · rfl
  | imported _ himport =>
    cases hverb : l.waitforexitandrun with
    | false =>
      have hretina := himport.retina_kept hverb
      have hdpi := himport.dpi_kept fun htrue ↦ absurd (hverb.symm.trans htrue) Bool.false_ne_true
      exact ⟨by rw [Doubled, hretina, hdpi, hr], hretina⟩
    | true =>
      have hretina : r'.retina = l.retina := retina_of_applied himport.applied hverb
      have hnew : (settingsPlan l r).newDpi = if l.retina = r.retina then none else some (if l.retina then 2 * d else d) := by
        rw [← hplan]
        exact if_pos hverb
      refine ⟨?_, hretina⟩
      rw [Doubled, hretina]
      -- The dpi moves only when the mode does.
      by_cases hsame : l.retina = r.retina
      · rw [himport.dpi_kept fun _ ↦ by rw [hnew, if_pos hsame], hsame, hr]
      · rw [if_neg hsame] at hnew
        exact dpi_of_applied himport.applied hverb hnew (by split_ifs <;> omega) (by split_ifs <;> omega)

/-- High Resolution can be taken back after any run: LogPixels is twice what it was exactly where RetinaMode is on,
RetinaMode is what was asked for last, and nothing a launch would write next has more than 32 bits. -/
theorem highResolution_run {r r' : Registry} {launches : List (VideoLaunch × Bool)} (h : Run r launches r')
    (hoff : r.retina = false) (hlo : 96 ≤ r.dpi) (hhi : r.dpi ≤ 0x7FFFFFFF) :
    r'.dpi = (if r'.retina then 2 * r.dpi else r.dpi) ∧ r'.retina = lastAsked launches ∧
      ∀ l n, (settingsPlan l r').newDpi = some n → n = (if l.retina then 2 * r.dpi else r.dpi) ∧ (hex8 n).length = 8 := by
  have hstart : Doubled r.dpi r := by rw [Doubled, hoff, if_neg Bool.false_ne_true]
  have hrun : Doubled r.dpi r' ∧ r'.retina = lastAsked launches := by
    induction h with
    | start => exact ⟨hstart, hoff⟩
    | launch _ hlaunch ih =>
      obtain ⟨hdoubled, hretina⟩ := hlaunch.doubled ih.1 hlo hhi
      refine ⟨hdoubled, ?_⟩
      rw [hretina, ih.2, lastAsked, lastAsked, List.foldl_append]
      rfl
  refine ⟨hrun.1, hrun.2, ?_⟩
  intro l n hn
  have hplan : planLogpixels l.retina (some r'.system.lines) (some r'.user.lines) = some n := by
    by_cases hverb : l.waitforexitandrun = true
    · rwa [settingsPlan, if_pos hverb] at hn
    · rw [settingsPlan, if_neg hverb] at hn
      cases hn
  rw [hrun.1.planLogpixels_eq hlo hhi l.retina] at hplan
  split_ifs at hplan with hsame hretina
  · obtain rfl := Option.some.inj hplan
    exact ⟨(if_pos hretina).symm, by rw [hex8_eq (by omega), hexDigits_length]⟩
  · obtain rfl := Option.some.inj hplan
    exact ⟨(if_neg hretina).symm, by rw [hex8_eq (by omega), hexDigits_length]⟩

/-! ### A prefix in which High Resolution is turned on -/

def emptyFile : RegFile :=
  { header := wineHeader
    keys := []
    header_ne_nil := wineHeader_ne_nil
    header_ok := wineHeader_ok
    keys_apart := List.nodup_nil }

def newPrefix : Registry := ⟨emptyFile, emptyFile⟩

def turnOn : VideoLaunch :=
  { waitforexitandrun := true
    retina := true
    controllersAdd := []
    controllersRemove := []
    hidraw := none
    add_ok := fun _ h ↦ absurd h List.not_mem_nil
    remove_ok := fun _ h ↦ absurd h List.not_mem_nil
    timestamp := none
    infTime := [] }

/-- A setting with a key of its own. -/
structure OneSetting where
  hive : Hive
  path : Bytes
  name : Option Bytes
  text : Bytes
  path_ok : path.all (· ∉ ([13, 91, 93] : List UInt8)) = true
  name_ok : name.all (·.all (· ∉ ([13, 34, 92] : List UInt8))) = true
  text_ok : 13 ∉ text ∧ text ≠ ascii "-"

def OneSetting.key (o : OneSetting) : SettingsKey := ⟨o.hive, o.path, false, [⟨o.name, o.text⟩]⟩

/-- The value as the registry has it. -/
def OneSetting.value (o : OneSetting) : RegValue := plainValue o.name o.text o.name_ok o.text_ok.1

def OneSetting.settled (o : OneSetting) : RegKey :=
  { path := pathOf o.hive o.path
    time := []
    notes := []
    values := [o.value]
    path_ok := (pathOf_ok o.path_ok).1
    time_ok := List.not_mem_nil
    notes_ok := fun _ h ↦ absurd h List.not_mem_nil
    values_apart := List.nodup_singleton _ }

/-- A registry with nothing but the settings. -/
def settledFile (l : List OneSetting) (hive : Hive)
    (h : (((l.filter (·.hive = hive)).map OneSetting.settled).map fun r ↦ r.path.map RegTok.lower).Nodup) : RegFile :=
  { emptyFile with
    keys := (l.filter (·.hive = hive)).map OneSetting.settled
    keys_apart := h }

theorem lower_pathOf (hive : Hive) (path : Bytes) : (pathOf hive path).map RegTok.lower = pathOf hive path := by
  have htwice : ∀ c : UInt8, toLower (toLower c) = toLower c := forall_byte (by decide +kernel)
  have hlow : ∀ s : Bytes, (∀ c ∈ s, toLower c = c) →
      (s.map fun c ↦ if c = 92 then RegTok.sep else .plain c).map RegTok.lower = s.map fun c ↦ if c = 92 then RegTok.sep else .plain c := by
    intro s hs
    rw [List.map_map]
    apply List.map_congr_left
    intro c hc
    rw [Function.comp_apply]
    split_ifs
    · rfl
    · rw [RegTok.lower, hs c hc]
  have hpath : ∀ c ∈ path.map toLower, toLower c = c := by
    intro c hc
    obtain ⟨b, -, rfl⟩ := List.mem_map.mp hc
    exact htwice b
  have hset : ∀ c ∈ ascii "system\\controlset001\\", toLower c = c := List.all_iff_forall_prop.mp (by decide)
  rw [pathOf, SettingsKey.registryPath]
  apply hlow
  split_ifs
  · intro c hc
    obtain hc | hc := List.mem_append.mp hc
    · exact hset c hc
    · exact hpath c (List.mem_of_mem_drop hc)
  · exact hpath

theorem OneSetting.nameText (o : OneSetting) : o.value.nameText = SettingsValue.nameText ⟨o.name, o.text⟩ := by
  have hname : o.value.name = o.name.map (·.map .plain) := rfl
  rw [RegValue.nameText, hname, SettingsValue.nameText]
  cases o.name with
  | none => rfl
  | some n =>
    show 34 :: render (n.map .plain) ++ [34] = 34 :: n ++ [34]
    rw [render_plain]

theorem imports_settled (l : List OneSetting) (hmachine huser) :
    Imports (l.map OneSetting.key) newPrefix ⟨settledFile l .machine hmachine, settledFile l .user huser⟩ := by
  have hkeys : ∀ hive, (Registry.file ⟨settledFile l .machine hmachine, settledFile l .user huser⟩ hive).keys =
      (l.filter (·.hive = hive)).map OneSetting.settled := by
    intro hive
    cases hive <;> rfl
  constructor
  · intro k hk
    obtain ⟨o, ho, rfl⟩ := List.mem_map.mp hk
    rw [SettingsKey.AppliedIn, if_neg (by exact Bool.false_ne_true)]
    intro v hv
    obtain rfl := List.mem_singleton.mp hv
    rw [if_neg o.text_ok.2]
    refine ⟨o.settled, ?_, lower_pathOf o.hive o.path, o.value, List.mem_singleton_self _, congrArg _ o.nameText, rfl⟩
    have hmem := hkeys o.hive
    rw [Registry.file] at hmem
    rw [OneSetting.key, hmem]
    exact List.mem_map_of_mem (List.mem_filter.mpr ⟨ho, decide_eq_true rfl⟩)
  · -- The new prefix holds nothing, and the files hold only what the list names.
    intro hive path name hnot text
    apply iff_of_false
    · rintro ⟨w, hw, -⟩
      cases hive <;> exact absurd hw List.not_mem_nil
    · rintro ⟨w, hw, hname, -⟩
      obtain ⟨r, hr, hpath, hw⟩ := RegFile.mem_valuesAt.mp hw
      rw [hkeys] at hr
      obtain ⟨o, ho, rfl⟩ := List.mem_map.mp hr
      obtain ⟨ho, hhive⟩ := List.mem_filter.mp ho
      obtain rfl := List.mem_singleton.mp hw
      refine hnot o.key (List.mem_map_of_mem ho) ⟨of_decide_eq_true hhive, ?_⟩
      rw [if_neg (by exact Bool.false_ne_true)]
      exact ⟨hpath.symm.trans (lower_pathOf o.hive o.path), ⟨o.name, o.text⟩, List.mem_singleton_self _, by rw [← o.nameText, hname]⟩

def turnOnSettings : List OneSetting :=
  [⟨.machine, ascii "Software\\Microsoft\\Windows NT\\CurrentVersion\\AeDebug", some (ascii "Auto"), ascii "\"0\"",
      by decide, by decide, by decide⟩,
    ⟨.machine, ascii "Software\\Wow6432Node\\Microsoft\\Windows NT\\CurrentVersion\\AeDebug", some (ascii "Auto"), ascii "\"0\"",
      by decide, by decide, by decide⟩,
    ⟨.user, ascii "Software\\Wine\\WineDbg", some (ascii "ShowCrashDialog"), ascii "dword:00000000", by decide, by decide, by decide⟩,
    ⟨.user, macDriver, some (ascii "RetinaMode"), ascii "\"y\"", by decide, by decide, by decide⟩,
    ⟨.user, desktop, some (ascii "LogPixels"), ascii "dword:000000c0", by decide, by decide, by decide⟩,
    ⟨.machine, ascii "Software\\Classes\\steam", some (ascii "URL Protocol"), ascii "\"\"", by decide, by decide, by decide⟩,
    ⟨.machine, ascii "Software\\Classes\\steam\\shell\\open\\command", none,
      ascii "\"\\\"C:\\\\Program Files (x86)\\\\Steam\\\\steam.exe\\\" \\\"%1\\\"\"", by decide, by decide, by decide⟩]

theorem turnOnSettings_keys : settingsKeys (settingsPlan turnOn newPrefix) = turnOnSettings.map OneSetting.key := by
  have hdpi : (settingsPlan turnOn newPrefix).newDpi = some 192 := by decide
  have hhex : ascii "dword:" ++ hex8 192 = ascii "dword:000000c0" := by decide
  simp only [settingsKeys, videoLines, hdpi, hhex]
  rfl

def turnedOn : Registry := ⟨settledFile turnOnSettings .machine (by decide), settledFile turnOnSettings .user (by decide)⟩

theorem turnedOn_launch : Launch turnOn newPrefix true turnedOn :=
  .imported rfl (turnOnSettings_keys ▸ imports_settled turnOnSettings (by decide) (by decide))

theorem highResolution_run_on :
    turnedOn.dpi = (if turnedOn.retina then 2 * newPrefix.dpi else newPrefix.dpi) ∧ turnedOn.retina = true ∧ newPrefix.dpi = 96 :=
  have hrun := highResolution_run (.launch .start turnedOn_launch) (by decide) (by decide) (by decide)
  ⟨hrun.1, hrun.2.1, by decide⟩

end NotProton.CompatRun.HighResolution
