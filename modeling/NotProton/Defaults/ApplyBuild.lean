import NotProton.Defaults

/-!
# ApplyBuild — making one build's settings every build's (`defaults.c`)

Every system call may fail.  Locks, `fsync`, the log and running out of memory are left out.
-/

open NotProton.Library
open NotProton.PrefixState (Entry pathMax)

namespace NotProton.Defaults

/-- How the system calls of one run end.  A write that fails is one `Disk.writable` denies. -/
structure ApplyCalls where
  /-- The names `readdir` hands out before it ends or fails; `none` where `opendir` fails. -/
  listing : Option (List Bytes)
  /-- `stat` of the build's own file fails. -/
  ownStat : Bool
  /-- The file to read cannot be read. -/
  read : Bool
  /-- The `stat` after a read without text fails. -/
  restat : Bool
  /-- What a failed write leaves under its second name. -/
  tmp : Entry
  /-- `stat` of a file of the scan fails. -/
  scanStat : Bytes → Bool
  /-- `unlink` fails on a file that is there. -/
  unlink : Bytes → Bool

def overridePrefix : Bytes := ascii "defaults-override-"

/-- The build id in the name of an override of the runner. -/
def overrideBuild (runner : Nat) (name : Bytes) : Option Bytes :=
  let suffix := ascii "-" ++ gRunnerNames.getD runner []
  let pre := overridePrefix.length
  let suf := suffix.length
  if name.length ≤ pre + suf ∨ name.take pre ≠ overridePrefix ∨ name.drop (name.length - suf) ≠ suffix then none
  else
    let build := (name.drop pre).take (name.length - pre - suf)
    if npBuildIdMax < build.length then none
    else if npIsBuildId build then some build else none

def removeLocked (calls : ApplyCalls) (disk : Disk) (path : Bytes) : Bool × Disk :=
  if calls.unlink path then (false, disk)
  else (true, { disk with entry := fun p ↦ if p = path then .missing else disk.entry p })

def removeStep (calls : ApplyCalls) (st : Bool × Disk) (path : Bytes) : Bool × Disk :=
  if !calls.scanStat path && isRegular st.2 path then
    let removed := removeLocked calls st.2 path
    (st.1 && removed.1, removed.2)
  else st

def removeOverridesLocked (calls : ApplyCalls) (disk : Disk) (names : List Bytes) (runner : Nat) :
    Bool × Disk :=
  ((names.filterMap (overrideBuild runner)).map fun build ↦ buildPath disk build runner).foldl
    (removeStep calls) (true, disk)

/-- A file without text is told by `stat`, any other by reading it. -/
def readFails (calls : ApplyCalls) (entry : Entry) : Bool :=
  if entry = .missing ∨ entry = .file [] then calls.restat else calls.read

/-- The file whose lines are applied. -/
def applySource (calls : ApplyCalls) (disk : Disk) (build : Bytes) (runner : Nat) : Bytes :=
  let own := buildPath disk build runner
  if !calls.ownStat && isRegular disk own then own else defaultsPath disk runner

/-- 1, -1 or 0, and the files it leaves. -/
def npDefaultsApplyBuild (calls : ApplyCalls) (disk : Disk) (build : Bytes) (runner : Nat) : Int × Disk :=
  if npDefaultsFex < runner ∨ npIsBuildId build = false then (0, disk)
  else
    let family := defaultsPath disk runner
    let source := applySource calls disk build runner
    match calls.listing with
    | none => (0, disk)
    | some names =>
      let read :=
        if readFails calls (disk.entry source) then none
        else readLines disk source runner (textBuffer npDefaultsTextMax)
      match read with
      | none => (0, disk)
      | some t =>
        match writeLocked disk family t.text with
        | none =>
          let tmp := snprintf pathMax (family ++ ascii ".new")
          (0, { disk with entry := fun p ↦ if p = tmp then calls.tmp else disk.entry p })
        | some disk =>
          let removed := removeOverridesLocked calls disk names runner
          (if removed.1 then 1 else -1, removed.2)

/-! ## What the result promises -/

section promises

variable (calls : ApplyCalls) (disk disk' : Disk) (build : Bytes) (runner : Nat)

/-- The text the valid lines of a file are saved as. -/
def savedText (entry : Entry) : Option Bytes :=
  match entry with
  | .missing => some []
  | .file text => some (bodyOf (eachLine runner text).out)
  | .folder | .unreadable => none

/-- What a build's settings are read from: its own file where that is a regular one. -/
def inEffect : Entry :=
  if isRegular disk (buildPath disk build runner) then disk.entry (buildPath disk build runner)
  else disk.entry (defaultsPath disk runner)

/-- The settings files of one runner are as before. -/
def RunnerKept : Prop :=
  disk'.entry (defaultsPath disk runner) = disk.entry (defaultsPath disk runner) ∧
    ∀ build, npIsBuildId build = true →
      disk'.entry (buildPath disk build runner) = disk.entry (buildPath disk build runner)

/-- The runner's file holds the lines in effect for the build, and the other runner's files are as before. -/
def SetApplied : Prop :=
  (∃ text, savedText runner (inEffect disk build runner) = some text ∧
    disk'.entry (defaultsPath disk runner) = .file text) ∧
  ∀ other ≤ npDefaultsFex, other ≠ runner → RunnerKept disk disk' other

/-- Some build has a file of its own for the runner. -/
def OwnRemains : Prop := ∃ build, npIsBuildId build = true ∧ isRegular disk' (buildPath disk build runner) = true

/-- The result says what became of the files. -/
def AsReported (result : Int) : Prop :=
  result = 0 ∧ (∀ runner ≤ npDefaultsFex, RunnerKept disk disk' runner) ∨
  result = 1 ∧ SetApplied disk disk' build runner ∧ ¬ OwnRemains disk disk' runner ∨
  result = -1 ∧ SetApplied disk disk' build runner ∧ OwnRemains disk disk' runner ∧
    ∀ build, npIsBuildId build = true → disk'.entry (buildPath disk build runner) = .missing ∨
      disk'.entry (buildPath disk build runner) = disk.entry (buildPath disk build runner)

/-! ## When it does -/

/-- The runner's file is replaced. -/
def Replaces : Prop :=
  runner ≤ npDefaultsFex ∧ npIsBuildId build = true ∧ calls.listing ≠ none ∧
    readFails calls (disk.entry (applySource calls disk build runner)) = false ∧
    readLines disk (applySource calls disk build runner) runner (textBuffer npDefaultsTextMax) ≠ none ∧
    disk.writable (defaultsPath disk runner) = true

/-- The build's own file was passed over though it says something else. -/
def PassedOver : Prop :=
  calls.ownStat = true ∧ isRegular disk (buildPath disk build runner) = true ∧
    savedText runner (disk.entry (buildPath disk build runner)) ≠
      savedText runner (disk.entry (defaultsPath disk runner))

def overrideName (build : Bytes) (runner : Nat) : Bytes :=
  overridePrefix ++ build ++ ascii "-" ++ gRunnerNames.getD runner []

/-- The scan comes by the build's own file and finds it regular. -/
def Scanned : Prop :=
  overrideName build runner ∈ calls.listing.getD [] ∧ calls.scanStat (buildPath disk build runner) = false

/-- The scan met an own file it could not remove. -/
def ScanStuck : Prop :=
  ∃ build, npIsBuildId build = true ∧ isRegular disk (buildPath disk build runner) = true ∧
    Scanned calls disk build runner ∧ calls.unlink (buildPath disk build runner) = true

/-- No build's own file escapes the scan, or one cannot be removed and is reported. -/
def ScanTells : Prop :=
  (∀ build, npIsBuildId build = true → isRegular disk (buildPath disk build runner) = true →
    Scanned calls disk build runner) ∨ ScanStuck calls disk runner

end promises

/-! ## The names of the files -/

/-- The folder of the settings files, with its slash. -/
def supportFolder (disk : Disk) : Bytes :=
  disk.home.getD [] ++ ascii "/Library/Application Support/notproton" ++ ascii "/"

/-- The longest path below fits `PATH_MAX`. -/
def Roomy (disk : Disk) : Prop :=
  (supportFolder disk).length + overridePrefix.length + npBuildIdMax + 8 < pathMax

instance (disk : Disk) : Decidable (Roomy disk) := inferInstanceAs (Decidable (_ < _))

def familyName (runner : Nat) : Bytes := ascii "defaults-" ++ gRunnerNames.getD runner []

theorem runner_cases {runner : Nat} (h : runner ≤ npDefaultsFex) : runner = 0 ∨ runner = 1 := by
  have : runner ≤ 1 := h
  omega

theorem runnerName_length {runner : Nat} (h : runner ≤ npDefaultsFex) : (gRunnerNames.getD runner []).length ≤ 7 := by
  rcases runner_cases h with rfl | rfl <;> decide

theorem npIsBuildId_length {build : Bytes} (h : npIsBuildId build = true) :
    0 < build.length ∧ build.length ≤ npBuildIdMax := by
  unfold npIsBuildId at h
  simp only [Bool.and_eq_true, decide_eq_true_eq] at h
  exact ⟨h.1.2, h.2⟩

theorem overridePrefix_length : overridePrefix.length = 18 := by decide

theorem overrideName_length {build : Bytes} {runner : Nat} :
    (overrideName build runner).length = 19 + build.length + (gRunnerNames.getD runner []).length := by
  have hdash : (ascii "-").length = 1 := by decide
  simp only [overrideName, List.length_append, overridePrefix_length, hdash]
  omega

section paths

variable {disk : Disk} {build build' : Bytes} {runner runner' : Nat}

theorem supportPath_eq (hroom : Roomy disk) {name : Bytes} (hne : name ≠ [])
    (hlen : name.length ≤ overridePrefix.length + npBuildIdMax + 8) :
    npSupportPath (disk.home.getD []) name = supportFolder disk ++ name := by
  simp only [npSupportPath, if_neg hne]
  have hfits : (supportFolder disk ++ name).length < pathMax := by
    rw [List.length_append]
    unfold Roomy at hroom
    omega
  exact snprintf_of_lt hfits

theorem defaultsPath_eq (hroom : Roomy disk) (hr : runner ≤ npDefaultsFex) :
    defaultsPath disk runner = supportFolder disk ++ familyName runner := by
  rcases runner_cases hr with rfl | rfl
  · exact supportPath_eq hroom (by decide) (by decide)
  · exact supportPath_eq hroom (by decide) (by decide)

theorem buildPath_eq (hroom : Roomy disk) (hr : runner ≤ npDefaultsFex) (hb : npIsBuildId build = true) :
    buildPath disk build runner = supportFolder disk ++ overrideName build runner := by
  have hname := runnerName_length hr
  have hbuild := npIsBuildId_length hb
  have hlen := @overrideName_length build runner
  have hfits : (overrideName build runner).length < npBuildIdMax + 32 := by
    rw [hlen]
    omega
  have hrel : snprintf (npBuildIdMax + 32) (ascii "defaults-override-" ++ build ++ ascii "-" ++
      gRunnerNames.getD runner []) = overrideName build runner := snprintf_of_lt hfits
  simp only [buildPath, hrel]
  apply supportPath_eq hroom
  · exact List.ne_nil_of_length_pos (by omega)
  · rw [hlen, overridePrefix_length]
    omega

theorem tmpPath_eq (hroom : Roomy disk) (hr : runner ≤ npDefaultsFex) :
    snprintf pathMax (defaultsPath disk runner ++ ascii ".new") =
      supportFolder disk ++ (familyName runner ++ ascii ".new") := by
  rw [defaultsPath_eq hroom hr, List.append_assoc]
  apply snprintf_of_lt
  have hlen : (familyName runner ++ ascii ".new").length ≤ 20 := by
    rcases runner_cases hr with rfl | rfl <;> decide
  rw [List.length_append]
  have h := hroom
  unfold Roomy at h
  rw [overridePrefix_length] at h
  have hmax : npBuildIdMax = 63 := rfl
  omega

/-- The byte after `defaults-` tells a build's own file from a runner's. -/
theorem overrideName_ne {rest : Bytes} (hr : runner' ≤ npDefaultsFex) :
    overrideName build runner ≠ familyName runner' ++ rest := by
  intro h
  have hat := congrArg (fun name : Bytes ↦ name[9]?) h
  have hown : (overrideName build runner)[9]? = some 111 := by
    rw [overrideName, List.append_assoc, List.append_assoc, List.getElem?_append_left (by decide)]
    decide
  rw [hown] at hat
  rcases runner_cases hr with rfl | rfl
  · rw [List.getElem?_append_left (by decide)] at hat
    revert hat
    decide
  · rw [List.getElem?_append_left (by decide)] at hat
    revert hat
    decide

theorem familyName_injective (hr : runner ≤ npDefaultsFex) (hr' : runner' ≤ npDefaultsFex) {rest : Bytes}
    (h : familyName runner' = familyName runner ++ rest) : runner' = runner := by
  have hat := congrArg (fun name : Bytes ↦ name[9]?) h
  rcases runner_cases hr with rfl | rfl
  · rw [List.getElem?_append_left (by decide)] at hat
    rcases runner_cases hr' with rfl | rfl
    · rfl
    · revert hat
      decide
  · rw [List.getElem?_append_left (by decide)] at hat
    rcases runner_cases hr' with rfl | rfl
    · revert hat
      decide
    · rfl

theorem overrideName_injective (hr : runner ≤ npDefaultsFex) (hr' : runner' ≤ npDefaultsFex)
    (h : overrideName build runner = overrideName build' runner') : build = build' ∧ runner = runner' := by
  have hlast : (gRunnerNames.getD runner []).getLast? = (gRunnerNames.getD runner' []).getLast? := by
    have hne : gRunnerNames.getD runner [] ≠ [] ∧ gRunnerNames.getD runner' [] ≠ [] := by
      rcases runner_cases hr with rfl | rfl <;> rcases runner_cases hr' with rfl | rfl <;> decide
    have hends := congrArg List.getLast? h
    rwa [overrideName, overrideName, List.getLast?_append_of_ne_nil _ hne.1,
      List.getLast?_append_of_ne_nil _ hne.2] at hends
  have hrunner : runner = runner' := by
    rcases runner_cases hr with rfl | rfl <;> rcases runner_cases hr' with rfl | rfl
    · rfl
    · revert hlast
      decide
    · revert hlast
      decide
    · rfl
  refine ⟨?_, hrunner⟩
  rw [hrunner] at h
  exact List.append_cancel_left (List.append_cancel_right (List.append_cancel_right h))

end paths

/-- The scan takes exactly the names of the runner's overrides. -/
theorem overrideBuild_eq_some {runner : Nat} {name build : Bytes} :
    overrideBuild runner name = some build ↔ npIsBuildId build = true ∧ name = overrideName build runner := by
  unfold overrideBuild
  simp only [overrideName, List.append_assoc]
  generalize ascii "-" ++ gRunnerNames.getD runner [] = suffix
  constructor
  · intro h
    split at h
    · cases h
    next hname =>
      rw [not_or, not_or, not_not, not_not, not_le] at hname
      obtain ⟨hlong, hpre, hsuf⟩ := hname
      split at h
      · cases h
      · split at h
        next hid =>
          rw [Option.some.injEq] at h
          rw [h] at hid
          refine ⟨hid, ?_⟩
          -- What is between the prefix and the runner's suffix is the build.
          have hmiddle := List.take_append_drop (name.length - overridePrefix.length - suffix.length)
            (name.drop overridePrefix.length)
          rw [h, List.drop_drop, show overridePrefix.length +
            (name.length - overridePrefix.length - suffix.length) = name.length - suffix.length by omega, hsuf] at hmiddle
          rw [hmiddle]
          exact (List.take_append_drop overridePrefix.length name).symm.trans (by rw [hpre])
        · cases h
  · rintro ⟨hid, rfl⟩
    have hbuild := npIsBuildId_length hid
    have hlong : (overridePrefix ++ (build ++ suffix)).length = overridePrefix.length + build.length + suffix.length := by
      simp only [List.length_append]
      omega
    rw [hlong, show overridePrefix.length + build.length + suffix.length - suffix.length =
      overridePrefix.length + build.length by omega, show overridePrefix.length + build.length + suffix.length -
      overridePrefix.length - suffix.length = build.length by omega, List.take_left, List.drop_left,
      ← List.drop_drop, List.drop_left, List.drop_left, List.take_left, if_neg, if_neg (by omega), if_pos hid]
    rw [not_or, not_or, not_not, not_not]
    exact ⟨by omega, rfl, rfl⟩

/-! ## The files afterwards -/

section files

variable {calls : ApplyCalls} {disk disk' : Disk} {build : Bytes} {runner : Nat}

/-- The scan removes the file. -/
def Removed (calls : ApplyCalls) (disk : Disk) (path : Bytes) : Prop :=
  isRegular disk path = true ∧ calls.scanStat path = false ∧ calls.unlink path = false

theorem isRegular_congr {path : Bytes} (h : disk'.entry path = disk.entry path) :
    isRegular disk' path = isRegular disk path := by
  rw [isRegular, isRegular, h]

open Classical in
theorem removeStep_entry (st : Bool × Disk) (path p : Bytes) : (removeStep calls st path).2.entry p =
    if p = path ∧ Removed calls st.2 path then .missing else st.2.entry p := by
  unfold removeStep removeLocked Removed
  by_cases hfound : (!calls.scanStat path && isRegular st.2 path) = true
  · rw [if_pos hfound]
    rw [Bool.and_eq_true, Bool.not_eq_true'] at hfound
    by_cases hstuck : calls.unlink path = true
    · simp only [hstuck, Bool.true_eq_false, and_false, if_false, if_true]
    · rw [Bool.not_eq_true] at hstuck
      simp only [hstuck, Bool.false_eq_true, if_false, hfound.1, hfound.2, and_true]
  · rw [if_neg hfound, if_neg]
    rintro ⟨-, hreg, hstat, -⟩
    simp [hreg, hstat] at hfound

theorem removeStep_ok (st : Bool × Disk) (path : Bytes) : (removeStep calls st path).1 = true ↔
    st.1 = true ∧ (isRegular st.2 path = true → calls.scanStat path = false → calls.unlink path = false) := by
  unfold removeStep removeLocked
  by_cases hfound : (!calls.scanStat path && isRegular st.2 path) = true
  · rw [if_pos hfound]
    rw [Bool.and_eq_true, Bool.not_eq_true'] at hfound
    cases hstuck : calls.unlink path <;> simp [hfound.1, hfound.2]
  · rw [if_neg hfound, iff_self_and]
    intro _ hreg hstat
    simp [hreg, hstat] at hfound

open Classical in
/-- The loop takes away every file on its list that it can. -/
theorem removeSteps_entry (paths : List Bytes) (st : Bool × Disk) (p : Bytes) :
    (paths.foldl (removeStep calls) st).2.entry p =
      if p ∈ paths ∧ Removed calls st.2 p then .missing else st.2.entry p := by
  induction paths generalizing st with
  | nil => simp
  | cons path paths ih =>
    rw [List.foldl_cons, ih, removeStep_entry]
    by_cases hp : p = path ∧ Removed calls st.2 path
    · rw [if_pos hp, if_pos (show p ∈ path :: paths ∧ Removed calls st.2 p from
        ⟨List.mem_cons.mpr (.inl hp.1), hp.1 ▸ hp.2⟩)]
      split <;> rfl
    · have hsame : (removeStep calls st path).2.entry p = st.2.entry p := by rw [removeStep_entry, if_neg hp]
      have hrem : Removed calls (removeStep calls st path).2 p ↔ Removed calls st.2 p := by
        rw [Removed, Removed, isRegular_congr hsame]
      rw [if_neg hp, hrem]
      refine if_congr ?_ rfl rfl
      rw [List.mem_cons]
      constructor
      · exact fun h ↦ ⟨.inr h.1, h.2⟩
      · exact fun h ↦ ⟨h.1.resolve_left fun e ↦ hp ⟨e, e ▸ h.2⟩, h.2⟩

theorem removeSteps_ok (paths : List Bytes) (st : Bool × Disk) :
    (paths.foldl (removeStep calls) st).1 = true ↔ st.1 = true ∧
      ∀ p ∈ paths, isRegular st.2 p = true → calls.scanStat p = false → calls.unlink p = false := by
  classical
  induction paths generalizing st with
  | nil => simp
  | cons path paths ih =>
    rw [List.foldl_cons, ih, removeStep_ok, List.forall_mem_cons, and_assoc]
    refine and_congr_right fun _ ↦ and_congr_right fun hpath ↦ forall₂_congr fun p _ ↦ ?_
    -- a file that is already gone was removed without an error
    by_cases hp : p = path ∧ Removed calls st.2 path
    · have hgone : isRegular (removeStep calls st path).2 p = false := by
        rw [isRegular, removeStep_entry, if_pos hp]
      rw [hgone]
      exact iff_of_true (fun h ↦ absurd h Bool.false_ne_true) fun _ _ ↦ hp.1 ▸ hp.2.2.2
    · rw [isRegular_congr (show (removeStep calls st path).2.entry p = st.2.entry p by
        rw [removeStep_entry, if_neg hp])]

/-- What the read leaves in the buffer is what the file's valid lines are saved as. -/
theorem readLines_savedText {path : Bytes} {t : TextBuffer}
    (h : readLines disk path runner (textBuffer npDefaultsTextMax) = some t) :
    savedText runner (disk.entry path) = some t.text := by
  unfold readLines at h
  unfold savedText
  cases hentry : disk.entry path with
  | missing =>
    rw [hentry, Option.some.injEq] at h
    rw [← h]
    rfl
  | folder => rw [hentry] at h; cases h
  | unreadable => rw [hentry] at h; cases h
  | file text =>
    rw [hentry] at h
    simp only at h ⊢
    by_cases hempty : text = []
    · rw [if_pos hempty, Option.some.injEq] at h
      rw [← h, hempty]
      rfl
    · rw [if_neg hempty] at h
      split at h
      · cases h
      · have hwrote := wrote_putLines (textBuffer npDefaultsTextMax) (eachLine runner text).out
        split at h
        next hok =>
          rw [Option.some.injEq] at h
          rw [← h, hwrote.text (hwrote.ok.mp hok)]
          rfl
        · cases h

/-- The files after the runner's own was replaced by `text`. -/
structure Replaced (calls : ApplyCalls) (disk disk' : Disk) (runner : Nat) (text : Bytes) : Prop where
  family : disk'.entry (defaultsPath disk runner) = .file text
  own : ∀ build, npIsBuildId build = true →
    (Scanned calls disk build runner ∧ Removed calls disk (buildPath disk build runner) ∧
      disk'.entry (buildPath disk build runner) = .missing) ∨
    (¬ (Scanned calls disk build runner ∧ Removed calls disk (buildPath disk build runner)) ∧
      disk'.entry (buildPath disk build runner) = disk.entry (buildPath disk build runner))
  others : ∀ other ≤ npDefaultsFex, other ≠ runner → RunnerKept disk disk' other

theorem scanPaths_mem {names : List Bytes} {path : Bytes} :
    path ∈ (names.filterMap (overrideBuild runner)).map (fun build ↦ buildPath disk build runner) ↔
      ∃ build, npIsBuildId build = true ∧ overrideName build runner ∈ names ∧ buildPath disk build runner = path := by
  simp only [List.mem_map, List.mem_filterMap, overrideBuild_eq_some]
  constructor
  · rintro ⟨build, ⟨name, hname, hid, rfl⟩, hpath⟩
    exact ⟨build, hid, hname, hpath⟩
  · rintro ⟨build, hid, hname, hpath⟩
    exact ⟨build, ⟨_, hname, hid, rfl⟩, hpath⟩

/-- The write and the scan, with every name the directory handed out. -/
theorem replaced_of_written {names : List Bytes} {text : Bytes} {written : Disk} (hroom : Roomy disk)
    (hr : runner ≤ npDefaultsFex) (hlisting : calls.listing = some names)
    (hwritten : writeLocked disk (defaultsPath disk runner) text = some written) :
    Replaced calls disk (removeOverridesLocked calls written names runner).2 runner text ∧
      ((removeOverridesLocked calls written names runner).1 = true ↔ ¬ ScanStuck calls disk runner) := by
  classical
  unfold writeLocked at hwritten
  split at hwritten
  swap
  · cases hwritten
  rw [Option.some.injEq] at hwritten
  have hhome : written.home = disk.home := by rw [← hwritten]
  have hentry : ∀ p, written.entry p = if p = defaultsPath disk runner then .file text
      else if p = snprintf pathMax (defaultsPath disk runner ++ ascii ".new") then .missing
      else disk.entry p := by
    intro p
    rw [← hwritten]
  have hpaths : ∀ build, buildPath written build runner = buildPath disk build runner := by
    intro build
    rw [buildPath, buildPath, hhome]
  rw [tmpPath_eq hroom hr, defaultsPath_eq hroom hr] at hentry
  -- no build's own file is one of the two that were written
  have hkept : ∀ other ≤ npDefaultsFex, ∀ build, npIsBuildId build = true →
      written.entry (buildPath disk build other) = disk.entry (buildPath disk build other) := by
    intro other hother build hid
    rw [hentry, buildPath_eq hroom hother hid, if_neg, if_neg]
    · exact fun h ↦ overrideName_ne hr (List.append_cancel_left h)
    · intro h
      rw [← List.append_nil (familyName runner)] at h
      exact overrideName_ne hr (List.append_cancel_left h)
  have hscan : removeOverridesLocked calls written names runner =
      ((names.filterMap (overrideBuild runner)).map fun build ↦ buildPath disk build runner).foldl
        (removeStep calls) (true, written) := by
    simp only [removeOverridesLocked, hpaths]
  have hmem : ∀ other ≤ npDefaultsFex, ∀ build, npIsBuildId build = true →
      (buildPath disk build other ∈ (names.filterMap (overrideBuild runner)).map (fun build ↦ buildPath disk build runner) ↔
        other = runner ∧ overrideName build runner ∈ names) := by
    intro other hother build hid
    rw [scanPaths_mem]
    constructor
    · rintro ⟨build', hid', hname, hpath⟩
      rw [buildPath_eq hroom hr hid', buildPath_eq hroom hother hid] at hpath
      obtain ⟨rfl, hrunner⟩ := overrideName_injective hr hother (List.append_cancel_left hpath)
      exact ⟨hrunner.symm, hname⟩
    · rintro ⟨rfl, hname⟩
      exact ⟨build, hid, hname, rfl⟩
  have hfamily : ∀ other ≤ npDefaultsFex, defaultsPath disk other ∉
      (names.filterMap (overrideBuild runner)).map (fun build ↦ buildPath disk build runner) := by
    intro other hother hin
    obtain ⟨build, hid, -, hpath⟩ := scanPaths_mem.mp hin
    rw [buildPath_eq hroom hr hid, defaultsPath_eq hroom hother, ← List.append_nil (familyName other)] at hpath
    exact overrideName_ne hother (List.append_cancel_left hpath)
  have hremoved : ∀ other ≤ npDefaultsFex, ∀ build, npIsBuildId build = true →
      (Removed calls written (buildPath disk build other) ↔ Removed calls disk (buildPath disk build other)) := by
    intro other hother build hid
    rw [Removed, Removed, isRegular_congr (hkept other hother build hid)]
  rw [hscan]
  refine ⟨{ family := ?_, own := ?_, others := ?_ }, ?_⟩
  · rw [removeSteps_entry, if_neg fun h ↦ hfamily runner hr h.1, hentry, defaultsPath_eq hroom hr, if_pos rfl]
  · intro build hid
    have hscanned : Scanned calls disk build runner ∧ Removed calls disk (buildPath disk build runner) ↔
        buildPath disk build runner ∈ (names.filterMap (overrideBuild runner)).map (fun build ↦ buildPath disk build runner) ∧
          Removed calls written (buildPath disk build runner) := by
      rw [hmem runner hr build hid, hremoved runner hr build hid, Scanned, hlisting, Option.getD_some, Removed]
      tauto
    rw [removeSteps_entry]
    by_cases hgone : Scanned calls disk build runner ∧ Removed calls disk (buildPath disk build runner)
    · exact .inl ⟨hgone.1, hgone.2, if_pos (hscanned.mp hgone)⟩
    · exact .inr ⟨hgone, (if_neg fun h ↦ hgone (hscanned.mpr h)).trans (hkept runner hr build hid)⟩
  · intro other hother hne
    refine ⟨?_, fun build hid ↦ ?_⟩
    · rw [removeSteps_entry, if_neg fun h ↦ hfamily other hother h.1, hentry, defaultsPath_eq hroom hother,
        if_neg, if_neg]
      · exact fun h ↦ hne (familyName_injective hr hother (List.append_cancel_left h))
      · intro h
        have hname := List.append_cancel_left h
        rw [← List.append_nil (familyName runner)] at hname
        exact hne (familyName_injective hr hother hname)
    · rw [removeSteps_entry, if_neg fun h ↦ hne ((hmem other hother build hid).mp h.1).1, hkept other hother build hid]
  · rw [removeSteps_ok, ScanStuck]
    constructor
    · rintro ⟨-, hall⟩ ⟨build, hid, hregular, hscanned, hstuck⟩
      rw [Scanned, hlisting, Option.getD_some] at hscanned
      have hfine := hall _ ((hmem runner hr build hid).mpr ⟨rfl, hscanned.1⟩)
        (by rw [isRegular_congr (hkept runner hr build hid)]; exact hregular) hscanned.2
      rw [hfine] at hstuck
      cases hstuck
    · intro hnone
      refine ⟨rfl, fun path hpath hregular hstat ↦ ?_⟩
      obtain ⟨build, hid, hname, rfl⟩ := scanPaths_mem.mp hpath
      rw [isRegular_congr (hkept runner hr build hid)] at hregular
      rw [← Bool.not_eq_true]
      exact fun hstuck ↦ hnone ⟨build, hid, hregular, ⟨by rw [hlisting]; exact hname, hstat⟩, hstuck⟩

/-- Short of the replacement no settings file is touched. -/
theorem npDefaultsApplyBuild_zero (hroom : Roomy disk) (h : ¬ Replaces calls disk build runner) :
    (npDefaultsApplyBuild calls disk build runner).1 = 0 ∧
      ∀ other ≤ npDefaultsFex, RunnerKept disk (npDefaultsApplyBuild calls disk build runner).2 other := by
  have hsame : ∀ other ≤ npDefaultsFex, RunnerKept disk disk other := fun _ _ ↦ ⟨rfl, fun _ _ ↦ rfl⟩
  unfold npDefaultsApplyBuild
  by_cases hbad : npDefaultsFex < runner ∨ npIsBuildId build = false
  · rw [if_pos hbad]
    exact ⟨rfl, hsame⟩
  rw [if_neg hbad]
  rw [not_or, not_lt, Bool.not_eq_false] at hbad
  cases hlisting : calls.listing with
  | none => exact ⟨rfl, hsame⟩
  | some names =>
    simp only
    by_cases hfails : readFails calls (disk.entry (applySource calls disk build runner)) = true
    · rw [if_pos hfails]
      exact ⟨rfl, hsame⟩
    rw [if_neg hfails]
    rw [Bool.not_eq_true] at hfails
    cases hread : readLines disk (applySource calls disk build runner) runner (textBuffer npDefaultsTextMax) with
    | none => exact ⟨rfl, hsame⟩
    | some t =>
      have hdenied : ¬ disk.writable (defaultsPath disk runner) = true := by
        intro hwritable
        refine h ⟨hbad.1, hbad.2, ?_, hfails, ?_, hwritable⟩
        · rw [hlisting]
          exact Option.some_ne_none names
        · rw [hread]
          exact Option.some_ne_none t
      simp only [writeLocked, if_neg hdenied]
      refine ⟨trivial, fun other hother ↦ ⟨if_neg ?_, fun build hid ↦ if_neg ?_⟩⟩
      · rw [tmpPath_eq hroom hbad.1, defaultsPath_eq hroom hother]
        intro hpath
        have hname := List.append_cancel_left hpath
        obtain rfl := familyName_injective hbad.1 hother hname
        -- the second name is longer
        have hlen := congrArg List.length hname
        rw [List.length_append] at hlen
        have hnew : (ascii ".new").length = 4 := by decide
        omega
      · rw [tmpPath_eq hroom hbad.1, buildPath_eq hroom hother hid]
        exact fun hpath ↦ overrideName_ne hbad.1 (List.append_cancel_left hpath)

theorem npDefaultsApplyBuild_replaced (hroom : Roomy disk) (h : Replaces calls disk build runner) :
    ∃ text, savedText runner (disk.entry (applySource calls disk build runner)) = some text ∧
      Replaced calls disk (npDefaultsApplyBuild calls disk build runner).2 runner text ∧
      ((npDefaultsApplyBuild calls disk build runner).1 = 1 ∧ ¬ ScanStuck calls disk runner ∨
        (npDefaultsApplyBuild calls disk build runner).1 = -1 ∧ ScanStuck calls disk runner) := by
  obtain ⟨hr, hid, hopened, hfails, hlines, hwritable⟩ := h
  obtain ⟨names, hlisting⟩ := Option.ne_none_iff_exists'.mp hopened
  obtain ⟨t, hread⟩ := Option.ne_none_iff_exists'.mp hlines
  obtain ⟨written, hwritten⟩ : ∃ written, writeLocked disk (defaultsPath disk runner) t.text = some written :=
    ⟨_, if_pos hwritable⟩
  have hscan := replaced_of_written hroom hr hlisting hwritten
  have hgood : ¬ (npDefaultsFex < runner ∨ npIsBuildId build = false) := by
    rw [hid]
    exact fun hor ↦ hor.elim (fun hlt ↦ absurd hr (not_le.mpr hlt)) (fun e ↦ Bool.false_ne_true e.symm)
  have hrun : npDefaultsApplyBuild calls disk build runner =
      (if (removeOverridesLocked calls written names runner).1 then 1 else -1,
        (removeOverridesLocked calls written names runner).2) := by
    simp only [npDefaultsApplyBuild, if_neg hgood, hlisting, hfails, Bool.false_eq_true, if_false, hread, hwritten]
  rw [hrun]
  refine ⟨t.text, readLines_savedText hread, hscan.1, ?_⟩
  by_cases hok : (removeOverridesLocked calls written names runner).1 = true
  · exact .inl ⟨if_pos hok, hscan.2.mp hok⟩
  · exact .inr ⟨if_neg hok, not_not.mp fun hnot ↦ hok (hscan.2.mpr hnot)⟩

theorem Replaced.setApplied_iff {text : Bytes} (h : Replaced calls disk disk' runner text)
    (htext : savedText runner (disk.entry (applySource calls disk build runner)) = some text) :
    SetApplied disk disk' build runner ↔ ¬ PassedOver calls disk build runner := by
  have hset : SetApplied disk disk' build runner ↔ savedText runner (inEffect disk build runner) = some text := by
    constructor
    · rintro ⟨⟨text', htext', hfamily⟩, -⟩
      rw [h.family, Entry.file.injEq] at hfamily
      rw [htext', hfamily]
    · exact fun heffect ↦ ⟨⟨text, heffect, h.family⟩, h.others⟩
  rw [hset]
  unfold applySource at htext
  unfold inEffect PassedOver
  by_cases hregular : isRegular disk (buildPath disk build runner) = true
  · rw [if_pos hregular]
    cases hstat : calls.ownStat with
    | false =>
      rw [if_pos (by rw [hregular, hstat]; rfl)] at htext
      exact iff_of_true htext fun hpassed ↦ Bool.false_ne_true hpassed.1
    | true =>
      rw [if_neg (by rw [hstat]; exact Bool.false_ne_true)] at htext
      rw [htext]
      simp only [hregular, true_and, ne_eq, not_not]
  · rw [if_neg (fun hor ↦ hregular (Bool.and_eq_true .. ▸ hor).2)] at htext
    rw [if_neg hregular]
    exact iff_of_true htext fun hpassed ↦ hregular hpassed.2.1

theorem Replaced.ownRemains_iff {text : Bytes} (h : Replaced calls disk disk' runner text) :
    OwnRemains disk disk' runner ↔ ∃ build, npIsBuildId build = true ∧
      isRegular disk (buildPath disk build runner) = true ∧
      ¬ (Scanned calls disk build runner ∧ calls.unlink (buildPath disk build runner) = false) := by
  refine exists_congr fun build ↦ and_congr_right fun hid ↦ ?_
  rcases h.own build hid with ⟨hscanned, hremoved, hentry⟩ | ⟨hkept, hentry⟩
  · have hgone : isRegular disk' (buildPath disk build runner) = false := by rw [isRegular, hentry]
    rw [hgone]
    exact iff_of_false Bool.false_ne_true fun hor ↦ hor.2 ⟨hscanned, hremoved.2.2⟩
  · rw [isRegular_congr hentry, iff_self_and]
    exact fun hregular hor ↦ hkept ⟨hor.1, hregular, hor.1.2, hor.2⟩

/-- Applying a build's settings ends as its result says exactly when, once the runner's file is replaced, the build's
own file was not passed over for other lines, and the scan met every own file there is or one it could not
remove. -/
theorem npDefaultsApplyBuild_asReported_iff (hroom : Roomy disk) :
    AsReported disk (npDefaultsApplyBuild calls disk build runner).2 build runner
        (npDefaultsApplyBuild calls disk build runner).1 ↔
      (Replaces calls disk build runner → ¬ PassedOver calls disk build runner ∧ ScanTells calls disk runner) := by
  by_cases hreplaces : Replaces calls disk build runner
  swap
  · exact iff_of_true (.inl (npDefaultsApplyBuild_zero hroom hreplaces)) fun h ↦ absurd h hreplaces
  obtain ⟨text, htext, hfiles, hresult⟩ := npDefaultsApplyBuild_replaced hroom hreplaces
  generalize npDefaultsApplyBuild calls disk build runner = outcome at *
  have hset := hfiles.setApplied_iff htext
  have hone : (1 : Int) ≠ 0 := by decide
  have hneg : (-1 : Int) ≠ 0 ∧ (-1 : Int) ≠ 1 := by decide
  rw [imp_iff_right hreplaces, ← hset]
  -- It reports success, or own files that it could not remove.
  obtain ⟨hcode, hstuck⟩ | ⟨hcode, hstuck⟩ := hresult
  · have htells : ScanTells calls disk runner ↔ ¬ OwnRemains disk outcome.2 runner := by
      rw [hfiles.ownRemains_iff, ScanTells, or_iff_left hstuck]
      constructor
      · rintro hall ⟨other, hid, hregular, hleft⟩
        have hscanned := hall other hid hregular
        refine hleft ⟨hscanned, ?_⟩
        rw [← Bool.not_eq_true]
        exact fun hunlink ↦ hstuck ⟨other, hid, hregular, hscanned, hunlink⟩
      · intro hnone other hid hregular
        by_contra hmissed
        exact hnone ⟨other, hid, hregular, fun hor ↦ hmissed hor.1⟩
    rw [hcode, htells]
    simp only [AsReported, hone, false_and, false_or, true_and, show ¬ ((1 : Int) = -1) by decide, or_false]
  · have hremains : OwnRemains disk outcome.2 runner := by
      obtain ⟨other, hid, hregular, -, hunlink⟩ := hstuck
      exact hfiles.ownRemains_iff.mpr ⟨other, hid, hregular, fun hor ↦ by rw [hor.2] at hunlink; cases hunlink⟩
    have htells : ScanTells calls disk runner := .inr hstuck
    have hown : ∀ build, npIsBuildId build = true → outcome.2.entry (buildPath disk build runner) = .missing ∨
        outcome.2.entry (buildPath disk build runner) = disk.entry (buildPath disk build runner) :=
      fun other hid ↦ (hfiles.own other hid).imp (·.2.2) (·.2)
    rw [hcode]
    simp only [AsReported, hneg.1, hneg.2, false_and, false_or, true_and, hremains, htells, and_true]
    exact ⟨fun h ↦ h.1, fun h ↦ ⟨h, hown⟩⟩

end files

/-- A folder with nothing but the Rosetta settings of build `26.1`. -/
def oneOwnSet : Disk where
  home := some (ascii "/Users/p")
  entry := fun path ↦
    if path = ascii "/Users/p/Library/Application Support/notproton/defaults-override-26.1-rosetta" then
      .file (ascii "WINEMSYNC=0\n")
    else .missing
  writable := fun _ ↦ true

/-- Every call succeeds, with `names` handed out. -/
def quietCalls (names : List Bytes) : ApplyCalls where
  listing := some names
  ownStat := false
  read := false
  restat := false
  tmp := .missing
  scanStat := fun _ ↦ false
  unlink := fun _ ↦ false

theorem oneOwnSet_path : buildPath oneOwnSet (ascii "26.1") npDefaultsRosetta =
    ascii "/Users/p/Library/Application Support/notproton/defaults-override-26.1-rosetta" := by decide

theorem npDefaultsApplyBuild_applied :
    AsReported oneOwnSet
      (npDefaultsApplyBuild (quietCalls [ascii "defaults-override-26.1-rosetta"]) oneOwnSet (ascii "26.1") npDefaultsRosetta).2
      (ascii "26.1") npDefaultsRosetta
      (npDefaultsApplyBuild (quietCalls [ascii "defaults-override-26.1-rosetta"]) oneOwnSet (ascii "26.1") npDefaultsRosetta).1 := by
  have hroom : Roomy oneOwnSet := by decide
  apply (npDefaultsApplyBuild_asReported_iff hroom).mpr
  intro _
  refine ⟨fun hpassed ↦ Bool.false_ne_true hpassed.1, .inl fun build hid hregular ↦ ⟨?_, rfl⟩⟩
  -- there is only one regular file
  have hpath : buildPath oneOwnSet build npDefaultsRosetta = buildPath oneOwnSet (ascii "26.1") npDefaultsRosetta := by
    rw [oneOwnSet_path]
    by_contra hne
    have hmissing : oneOwnSet.entry (buildPath oneOwnSet build npDefaultsRosetta) = .missing := if_neg hne
    rw [isRegular, hmissing] at hregular
    cases hregular
  rw [buildPath_eq hroom (by decide) hid, buildPath_eq hroom (by decide) (by decide)] at hpath
  rw [List.append_cancel_left hpath]
  decide

/-- Where reading the directory fails at once, all went well by the result and the build's own file remains. -/
theorem npDefaultsApplyBuild_unread :
    ¬ AsReported oneOwnSet
      (npDefaultsApplyBuild (quietCalls []) oneOwnSet (ascii "26.1") npDefaultsRosetta).2 (ascii "26.1") npDefaultsRosetta
      (npDefaultsApplyBuild (quietCalls []) oneOwnSet (ascii "26.1") npDefaultsRosetta).1 := by
  have hresult : (npDefaultsApplyBuild (quietCalls []) oneOwnSet (ascii "26.1") npDefaultsRosetta).1 = 1 ∧
      isRegular (npDefaultsApplyBuild (quietCalls []) oneOwnSet (ascii "26.1") npDefaultsRosetta).2
        (buildPath oneOwnSet (ascii "26.1") npDefaultsRosetta) = true := by decide
  rintro (⟨hzero, -⟩ | ⟨-, -, hnone⟩ | ⟨hneg, -⟩)
  · rw [hresult.1] at hzero
    cases hzero
  · exact hnone ⟨ascii "26.1", by decide, hresult.2⟩
  · rw [hresult.1] at hneg
    cases hneg

end NotProton.Defaults
