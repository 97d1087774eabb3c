import NotProton.Library.Shell

/-!
# GameDrive — drive S: (`compat_run.sh`)

`map_game_drive` and `unmap_game_drive` tell their own S: from the player's by comparing the link with
a text record.  The log and the restart of Wine do not touch S: and are left out.
-/

open NotProton.Library

namespace NotProton.CompatRun

/-- What `dosdevices/s:` is. -/
inductive Drive
  | absent
  | link (target : Bytes)
  | other
  deriving DecidableEq

/-- `created` is not stored anywhere: it tells whether a launch's `ln` made the S: that is there. -/
structure DriveState where
  drive : Drive
  record : Option Bytes
  created : Bool
  deriving DecidableEq

/-- What one launch finds, and which of its commands succeed.  `real` is `cd -P` and `pwd`. -/
structure DriveLaunch where
  dosdevices : Bool
  installPath : Bytes
  libraryPaths : Bytes
  real : Bytes → Option Bytes
  writable : Bytes → Bool
  sameDevice : Bytes → Bytes → Bool
  readlink : Bool := true
  cat : Bool := true
  catAgain : Bool := true
  rmDrive : Bool := true
  rmRecord : Bool := true
  ln : Bool := true
  writeRecord : Bool := true

/-- `$(game_drive_record)`, `read` telling whether `cat` succeeds. -/
def gameDriveRecord (read : Bool) (s : DriveState) : Bytes :=
  if read then commandOutput (s.record.getD []) else []

def recordGameDrive (l : DriveLaunch) (target : Bytes) (s : DriveState) : DriveState :=
  if gameDriveRecord l.catAgain s = target then s
  else if l.writeRecord then { s with record := some (target ++ [10]) }
  else s

/-- `$(readlink "$drive")` where S: is a link to `target`. -/
def readDrive (l : DriveLaunch) (target : Bytes) : Bytes :=
  if l.readlink then commandOutput target else []

def unmapGameDrive (l : DriveLaunch) (s : DriveState) : DriveState :=
  match s.drive with
  | .link target =>
    if readDrive l target = gameDriveRecord l.cat s then
      if l.rmDrive then
        { drive := .absent
          record := if l.rmRecord then none else s.record
          created := false }
      else s
    else s
  | _ => s

/-- The libraries the launch lists, as the loop reads them. -/
def listedLibraries (l : DriveLaunch) : List Bytes :=
  ((l.libraryPaths.splitOn 58).map dropSlash).filter (· ≠ [])

/-- `case "$STEAM_COMPAT_INSTALL_PATH/" in "$path"/*)`: it is the install path or a parent of it. -/
def holdsGame (l : DriveLaunch) (path : Bytes) : Bool := (path ++ [47]).isPrefixOf (l.installPath ++ [47])

/-- `$library` after the loop. -/
def findLibrary (l : DriveLaunch) : Bytes :=
  (listedLibraries l).foldl
    (fun library path ↦ if holdsGame l path && library.length < path.length then path else library) []

def driveTarget (l : DriveLaunch) (library : Bytes) : Bytes :=
  match l.real library with
  | none => library
  | some out =>
    let real := commandOutput out
    let parent := beforeLastSlash real
    if afterLastSlash real = ascii "steamapps" ∧ parent ≠ [] ∧ l.writable parent ∧ l.sameDevice real parent then
      parent
    else library

/-- The last part: nothing is at S: any more. -/
def linkGameDrive (l : DriveLaunch) (target : Bytes) (s : DriveState) : DriveState :=
  if l.ln then recordGameDrive l target { s with drive := .link target, created := true } else s

def mapGameDrive (l : DriveLaunch) (s : DriveState) : DriveState :=
  if !l.dosdevices then s
  else if findLibrary l = [] then unmapGameDrive l s
  else
    let target := driveTarget l (findLibrary l)
    match s.drive with
    | .absent => linkGameDrive l target s
    | .other => s
    | .link old =>
      if !l.readlink then s
      else if commandOutput old = target then recordGameDrive l target s
      else if commandOutput old ≠ gameDriveRecord l.cat s then s
      else if l.rmDrive then linkGameDrive l target { s with drive := .absent, created := false }
      else s

/-- A launch, or the player putting something at S: or taking it away. -/
inductive DriveEvent
  | launch (l : DriveLaunch)
  | player (drive : Drive)

def driveStep (s : DriveState) : DriveEvent → DriveState
  | .launch l => mapGameDrive l s
  | .player drive => { s with drive := drive, created := false }

/-- The launches of a run, each with the state it starts from. -/
def driveLaunches (s : DriveState) : List DriveEvent → List (DriveLaunch × DriveState)
  | [] => []
  | .launch l :: events => (l, s) :: driveLaunches (driveStep s (.launch l)) events
  | .player drive :: events => driveLaunches (driveStep s (.player drive)) events

/-! ## What the drive is promised to be -/

/-- The longest listed library that is the install path or a parent of it. -/
structure Longest (l : DriveLaunch) (library : Bytes) : Prop where
  listed : library ∈ listedLibraries l
  holds : holdsGame l library = true
  longest : ∀ path ∈ listedLibraries l, holdsGame l path = true → path.length ≤ library.length

structure DriveLaunch.Succeeds (l : DriveLaunch) : Prop where
  readlink : l.readlink = true
  cat : l.cat = true
  catAgain : l.catAgain = true
  rmDrive : l.rmDrive = true
  rmRecord : l.rmRecord = true
  ln : l.ln = true
  writeRecord : l.writeRecord = true

/-- No path of the launch has a newline in it. -/
structure DriveLaunch.OneLine (l : DriveLaunch) : Prop where
  installPath : 10 ∉ l.installPath
  libraryPaths : 10 ∉ l.libraryPaths
  real : ∀ library out, l.real library = some out → 10 ∉ commandOutput out

/-- An S: that no launch created is neither removed nor repointed. -/
def KeepsPlayers (l : DriveLaunch) (s : DriveState) : Prop :=
  s.created = false → s.drive ≠ .absent → (mapGameDrive l s).drive = s.drive

def MapsLibrary (l : DriveLaunch) (s : DriveState) : Prop :=
  l.dosdevices = true → ∀ library, Longest l library → s.drive = .absent ∨ s.created = true → l.Succeeds →
    (mapGameDrive l s).drive = .link (driveTarget l library) ∧
      gameDriveRecord true (mapGameDrive l s) = driveTarget l library

def UnmapsOwn (l : DriveLaunch) (s : DriveState) : Prop :=
  l.dosdevices = true → (∀ path ∈ listedLibraries l, holdsGame l path = false) → l.Succeeds →
    s.drive ≠ .absent → ((mapGameDrive l s).drive = .absent ↔ s.created = true)

structure Owned (l : DriveLaunch) (s : DriveState) : Prop where
  keeps : KeepsPlayers l s
  maps : MapsLibrary l s
  unmaps : UnmapsOwn l s

/-- The launch gets to compare the link with the record. -/
structure Compares (l : DriveLaunch) (s : DriveState) (target : Bytes) : Prop where
  dosdevices : l.dosdevices = true
  drive : s.drive = .link target
  wanted : findLibrary l = [] ∨ l.readlink = true ∧ commandOutput target ≠ driveTarget l (findLibrary l)

/-- No link of the player's reads as the record where the launch would remove it. -/
def NoLookalike (l : DriveLaunch) (s : DriveState) : Prop :=
  ∀ target, Compares l s target → s.created = false → l.rmDrive = true →
    readDrive l target ≠ gameDriveRecord l.cat s

/-- A link that a launch created reads as the record. -/
def NoLag (l : DriveLaunch) (s : DriveState) : Prop :=
  ∀ target, Compares l s target → s.created = true → l.Succeeds → readDrive l target = gameDriveRecord l.cat s

/-! ## The library that is found -/

theorem foldl_library (l : DriveLaunch) (paths : List Bytes) (start : Bytes) :
    let found := paths.foldl
      (fun library path ↦ if holdsGame l path && library.length < path.length then path else library) start
    (found = start ∨ found ∈ paths ∧ holdsGame l found = true) ∧ start.length ≤ found.length ∧
      ∀ path ∈ paths, holdsGame l path = true → path.length ≤ found.length := by
  induction paths generalizing start with
  | nil => simp
  | cons path paths ih =>
    dsimp only at ih ⊢
    rw [List.foldl_cons]
    -- A path that is no longer than the one found is passed over, also when it holds the game.
    by_cases htake : holdsGame l path = true ∧ start.length < path.length
    · have hif : (if (holdsGame l path && decide (start.length < path.length)) = true then path else start) = path := by
        simp [htake]
      rw [hif]
      obtain ⟨hfrom, hlen, hall⟩ := ih path
      refine ⟨.inr ?_, by omega, ?_⟩
      · obtain heq | ⟨hmem, hholds⟩ := hfrom
        · rw [heq]
          exact ⟨List.mem_cons_self, htake.1⟩
        · exact ⟨List.mem_cons_of_mem path hmem, hholds⟩
      · exact List.forall_mem_cons.mpr ⟨fun _ ↦ hlen, hall⟩
    · have hif : (if (holdsGame l path && decide (start.length < path.length)) = true then path else start) = start := by
        simp only [Bool.and_eq_true, decide_eq_true_eq, htake, if_false]
      rw [hif]
      obtain ⟨hfrom, hlen, hall⟩ := ih start
      refine ⟨?_, hlen, ?_⟩
      · obtain heq | ⟨hmem, hholds⟩ := hfrom
        · exact .inl heq
        · exact .inr ⟨List.mem_cons_of_mem path hmem, hholds⟩
      · refine List.forall_mem_cons.mpr ⟨fun hholds ↦ ?_, hall⟩
        have : ¬start.length < path.length := fun h ↦ htake ⟨hholds, h⟩
        omega

theorem findLibrary_eq_nil {l : DriveLaunch} :
    findLibrary l = [] ↔ ∀ path ∈ listedLibraries l, holdsGame l path = false := by
  obtain ⟨hfrom, -, hall⟩ := foldl_library l (listedLibraries l) []
  constructor
  · intro hnil path hpath
    rw [findLibrary] at hnil
    rw [hnil] at hall
    by_contra hholds
    have hlen := hall path hpath (by simpa using hholds)
    have hne : path ≠ [] := by
      have := (List.mem_filter.mp hpath).2
      simpa using this
    exact hne (List.eq_nil_of_length_eq_zero (Nat.le_zero.mp hlen))
  · intro hnone
    obtain heq | ⟨hmem, hholds⟩ := hfrom
    · exact heq
    · have := hnone _ hmem
      rw [hholds] at this
      cases this

/-- Two parents of one path that are as long as each other are one. -/
theorem holdsGame_unique {l : DriveLaunch} {path path' : Bytes} (h : holdsGame l path = true)
    (h' : holdsGame l path' = true) (hlen : path.length = path'.length) : path = path' := by
  rw [holdsGame, List.isPrefixOf_iff_prefix] at h h'
  have heq : path ++ [47] = path' ++ [47] :=
    (List.prefix_of_prefix_length_le h h' (by simp [hlen])).eq_of_length (by simp [hlen])
  exact (List.append_left_inj _).mp heq

theorem longest_iff {l : DriveLaunch} {library : Bytes} :
    Longest l library ↔ findLibrary l = library ∧ library ≠ [] := by
  obtain ⟨hfrom, -, hall⟩ := foldl_library l (listedLibraries l) []
  constructor
  · intro h
    have hne : library ≠ [] := by
      have := (List.mem_filter.mp h.listed).2
      simpa using this
    refine ⟨?_, hne⟩
    obtain heq | ⟨hmem, hholds⟩ := hfrom
    · have := findLibrary_eq_nil.mp heq library h.listed
      rw [h.holds] at this
      cases this
    · exact holdsGame_unique hholds h.holds (Nat.le_antisymm (h.longest _ hmem hholds) (hall library h.listed h.holds))
  · rintro ⟨rfl, hne⟩
    obtain heq | ⟨hmem, hholds⟩ := hfrom
    · exact absurd heq hne
    · exact ⟨hmem, hholds, hall⟩

theorem listedLibraries_oneLine {l : DriveLaunch} (h : l.OneLine) {path : Bytes} (hp : path ∈ listedLibraries l) :
    10 ∉ path := by
  obtain ⟨piece, hpiece, rfl⟩ := List.mem_map.mp (List.mem_filter.mp hp).1
  exact notMem_dropSlash (notMem_of_splitOn h.libraryPaths hpiece)

theorem driveTarget_oneLine {l : DriveLaunch} (h : l.OneLine) (hne : findLibrary l ≠ []) :
    10 ∉ driveTarget l (findLibrary l) := by
  have hlibrary : 10 ∉ findLibrary l := listedLibraries_oneLine h (longest_iff.mpr ⟨rfl, hne⟩).listed
  unfold driveTarget
  split
  · exact hlibrary
  · rename_i out hreal
    dsimp only
    split
    · exact notMem_beforeLastSlash (h.real _ out hreal)
    · exact hlibrary

/-! ## What each branch does -/

section branches

variable {l : DriveLaunch} {s : DriveState}

@[simp] theorem recordGameDrive_drive (target : Bytes) : (recordGameDrive l target s).drive = s.drive := by
  unfold recordGameDrive
  split_ifs <;> rfl

@[simp] theorem recordGameDrive_created (target : Bytes) : (recordGameDrive l target s).created = s.created := by
  unfold recordGameDrive
  split_ifs <;> rfl

/-- Once it succeeded, the record holds the target. -/
theorem recordGameDrive_record {target : Bytes} (hcat : l.catAgain = true) (hwrite : l.writeRecord = true)
    (ht : 10 ∉ target) : gameDriveRecord true (recordGameDrive l target s) = target := by
  unfold recordGameDrive
  by_cases hsame : gameDriveRecord l.catAgain s = target
  · rw [if_pos hsame, ← hcat]
    exact hsame
  · rw [if_neg hsame, if_pos hwrite]
    exact commandOutput_line ht

theorem mapGameDrive_no_dosdevices (h : l.dosdevices = false) : mapGameDrive l s = s := by
  simp [mapGameDrive, h]

theorem mapGameDrive_other (h : s.drive = .other) : mapGameDrive l s = s := by
  cases hd : l.dosdevices with
  | false => exact mapGameDrive_no_dosdevices hd
  | true =>
    by_cases hnil : findLibrary l = []
    · simp [mapGameDrive, unmapGameDrive, hd, hnil, h]
    · simp [mapGameDrive, hd, hnil, h]

theorem mapGameDrive_absent (hd : l.dosdevices = true) (hne : findLibrary l ≠ []) (h : s.drive = .absent) :
    mapGameDrive l s = linkGameDrive l (driveTarget l (findLibrary l)) s := by
  simp [mapGameDrive, hd, hne, h]

/-- The link already has the target, or cannot be read: it stays. -/
theorem mapGameDrive_same {old : Bytes} (hd : l.dosdevices = true) (h : s.drive = .link old)
    (hc : ¬Compares l s old) :
    l.readlink = false ∧ mapGameDrive l s = s ∨
      mapGameDrive l s = recordGameDrive l (driveTarget l (findLibrary l)) s ∧
        commandOutput old = driveTarget l (findLibrary l) := by
  have hne : findLibrary l ≠ [] := fun hnil ↦ hc ⟨hd, h, .inl hnil⟩
  cases hread : l.readlink with
  | false => exact .inl ⟨rfl, by simp [mapGameDrive, hd, hne, h, hread]⟩
  | true =>
    have heq : commandOutput old = driveTarget l (findLibrary l) := by
      by_contra hdiff
      exact hc ⟨hd, h, .inr ⟨hread, hdiff⟩⟩
    exact .inr ⟨by simp [mapGameDrive, hd, hne, h, hread, heq], heq⟩

/-- The link does not read as the record: it stays. -/
theorem mapGameDrive_leaves {old : Bytes} (hc : Compares l s old)
    (hdiff : readDrive l old ≠ gameDriveRecord l.cat s) : mapGameDrive l s = s := by
  obtain ⟨hd, h, hnil | ⟨hread, hwant⟩⟩ := hc
  · simp [mapGameDrive, unmapGameDrive, hd, hnil, h, hdiff]
  · by_cases hnil : findLibrary l = []
    · simp [mapGameDrive, unmapGameDrive, hd, hnil, h, hdiff]
    · rw [readDrive, if_pos hread] at hdiff
      simp [mapGameDrive, hd, hnil, h, hread, hwant, hdiff]

/-- It reads as the record: it is removed, and made again where there is a library. -/
theorem mapGameDrive_takes {old : Bytes} (hc : Compares l s old)
    (hsame : readDrive l old = gameDriveRecord l.cat s) :
    mapGameDrive l s =
      if l.rmDrive = false then s
      else if findLibrary l = [] then
        { drive := .absent, record := if l.rmRecord then none else s.record, created := false }
      else linkGameDrive l (driveTarget l (findLibrary l)) { s with drive := .absent, created := false } := by
  have hd := hc.dosdevices
  have h := hc.drive
  by_cases hnil : findLibrary l = []
  · cases hrm : l.rmDrive <;> simp [mapGameDrive, unmapGameDrive, hd, hnil, h, hsame, hrm]
  · obtain ⟨hread, hwant⟩ := hc.wanted.resolve_left hnil
    rw [readDrive, if_pos hread] at hsame
    have hwant' : gameDriveRecord l.cat s ≠ driveTarget l (findLibrary l) := hsame ▸ hwant
    cases hrm : l.rmDrive <;> simp [mapGameDrive, hd, hnil, h, hread, hwant', hsame, hrm]

@[simp] theorem linkGameDrive_drive (target : Bytes) :
    (linkGameDrive l target s).drive = if l.ln then .link target else s.drive := by
  unfold linkGameDrive
  split_ifs
  · simp
  · rfl

@[simp] theorem linkGameDrive_created (target : Bytes) :
    (linkGameDrive l target s).created = if l.ln then true else s.created := by
  unfold linkGameDrive
  split_ifs
  · simp
  · rfl

/-- Everything a launch can do to S:. -/
theorem mapGameDrive_cases (l : DriveLaunch) (s : DriveState) :
    mapGameDrive l s = s ∨ (∃ record, mapGameDrive l s = ⟨.absent, record, false⟩) ∨
      findLibrary l ≠ [] ∧ ((∃ s₀, s₀.drive = .absent ∧ (s₀ = s ∨ s₀.created = false) ∧
          mapGameDrive l s = linkGameDrive l (driveTarget l (findLibrary l)) s₀) ∨
        ∃ old, s.drive = .link old ∧ commandOutput old = driveTarget l (findLibrary l) ∧
          mapGameDrive l s = recordGameDrive l (driveTarget l (findLibrary l)) s) := by
  cases hd : l.dosdevices with
  | false => exact .inl (mapGameDrive_no_dosdevices hd)
  | true =>
    by_cases hnil : findLibrary l = []
    · cases hdrive : s.drive with
      | absent => exact .inl (by simp [mapGameDrive, unmapGameDrive, hd, hnil, hdrive])
      | other => exact .inl (mapGameDrive_other hdrive)
      | link old =>
        -- No library for the game: the link is taken away only if it is what the record says.
        have hc : Compares l s old := ⟨hd, hdrive, .inl hnil⟩
        by_cases hsame : readDrive l old = gameDriveRecord l.cat s
        · by_cases hrm : l.rmDrive = false
          · exact .inl (by rw [mapGameDrive_takes hc hsame, if_pos hrm])
          · exact .inr (.inl ⟨_, by rw [mapGameDrive_takes hc hsame, if_neg hrm, if_pos hnil]⟩)
        · exact .inl (mapGameDrive_leaves hc hsame)
    · cases hdrive : s.drive with
      | absent => exact .inr (.inr ⟨hnil, .inl ⟨s, hdrive, .inl rfl, mapGameDrive_absent hd hnil hdrive⟩⟩)
      | other => exact .inl (mapGameDrive_other hdrive)
      | link old =>
        -- A link that leads elsewhere than wanted is compared with the record as well.
        by_cases hc : Compares l s old
        · by_cases hsame : readDrive l old = gameDriveRecord l.cat s
          · by_cases hrm : l.rmDrive = false
            · exact .inl (by rw [mapGameDrive_takes hc hsame, if_pos hrm])
            · refine .inr (.inr ⟨hnil, .inl ⟨{ s with drive := .absent, created := false }, rfl, .inr rfl, ?_⟩⟩)
              rw [mapGameDrive_takes hc hsame, if_neg hrm, if_neg hnil]
          · exact .inl (mapGameDrive_leaves hc hsame)
        · obtain ⟨-, heq⟩ | ⟨heq, hwant⟩ := mapGameDrive_same hd hdrive hc
          · exact .inl heq
          · exact .inr (.inr ⟨hnil, .inr ⟨old, rfl, hwant, heq⟩⟩)

end branches

/-! ## Every run -/

/-- An S: that a launch created is a link, to a path without a newline. -/
def CreatedLink (s : DriveState) : Prop := s.created = true → ∃ target, s.drive = .link target ∧ 10 ∉ target

theorem CreatedLink.launch {l : DriveLaunch} {s : DriveState} (hs : CreatedLink s) (hl : l.OneLine) :
    CreatedLink (mapGameDrive l s) := by
  intro hcreated
  obtain heq | ⟨record, heq⟩ | ⟨hne, ⟨s₀, habsent, hs₀, heq⟩ | ⟨old, hdrive, -, heq⟩⟩ := mapGameDrive_cases l s
  · rw [heq] at hcreated ⊢
    exact hs hcreated
  · rw [heq] at hcreated
    cases hcreated
  · rw [heq, linkGameDrive_created] at hcreated
    rw [heq, linkGameDrive_drive]
    split_ifs at hcreated ⊢ with hln
    · exact ⟨_, rfl, driveTarget_oneLine hl hne⟩
    · obtain rfl | hfalse := hs₀
      · exact hs hcreated
      · rw [hfalse] at hcreated
        cases hcreated
  · rw [heq, recordGameDrive_created] at hcreated
    rw [heq, recordGameDrive_drive]
    exact hs hcreated

section owned

variable {l : DriveLaunch} {s : DriveState}

theorem Owned.noLookalike (hl : l.OneLine) (h : Owned l s) : NoLookalike l s := by
  intro target hc hplayer hrm hsame
  have hkeep := h.keeps hplayer (by rw [hc.drive]; exact Drive.noConfusion)
  rw [mapGameDrive_takes hc hsame, hrm, hc.drive, if_neg (Bool.false_ne_true ∘ Eq.symm)] at hkeep
  split_ifs at hkeep with hnil
  rw [linkGameDrive_drive] at hkeep
  split_ifs at hkeep
  have htarget : driveTarget l (findLibrary l) = target := Drive.link.inj hkeep
  apply (hc.wanted.resolve_left hnil).2
  rw [← htarget]
  exact commandOutput_of_notMem (driveTarget_oneLine hl hnil)

theorem Owned.noLag (hs : CreatedLink s) (h : Owned l s) : NoLag l s := by
  intro target hc hcreated hsucc
  by_contra hdiff
  have hmap := mapGameDrive_leaves hc hdiff
  by_cases hnil : findLibrary l = []
  · have hgone := (h.unmaps hc.dosdevices (findLibrary_eq_nil.mp hnil) hsucc
      (by rw [hc.drive]; exact Drive.noConfusion)).mpr hcreated
    rw [hmap, hc.drive] at hgone
    cases hgone
  · have hmapped := (h.maps hc.dosdevices _ (longest_iff.mpr ⟨rfl, hnil⟩) (.inr hcreated) hsucc).1
    obtain ⟨old, hold, hline⟩ := hs hcreated
    rw [hmap, hc.drive] at hmapped
    rw [hc.drive] at hold
    have htarget := Drive.link.inj hmapped
    rw [← Drive.link.inj hold] at hline
    exact (hc.wanted.resolve_left hnil).2 (by rw [commandOutput_of_notMem hline, htarget])

theorem keepsPlayers_of (h : NoLookalike l s) : KeepsPlayers l s := by
  intro hplayer hne
  cases hd : l.dosdevices with
  | false => rw [mapGameDrive_no_dosdevices hd]
  | true =>
    cases hdrive : s.drive with
    | absent => exact absurd hdrive hne
    | other => rw [mapGameDrive_other hdrive, hdrive]
    | link old =>
      by_cases hc : Compares l s old
      · by_cases hsame : readDrive l old = gameDriveRecord l.cat s
        · have hrm : l.rmDrive = false := by
            rw [← Bool.not_eq_true]
            exact fun hrm ↦ h old hc hplayer hrm hsame
          rw [mapGameDrive_takes hc hsame, if_pos hrm, hdrive]
        · rw [mapGameDrive_leaves hc hsame, hdrive]
      · obtain ⟨-, heq⟩ | ⟨heq, -⟩ := mapGameDrive_same hd hdrive hc
        · rw [heq, hdrive]
        · rw [heq, recordGameDrive_drive, hdrive]

/-- A launch that succeeds links S: to its target where nothing is there, and the record holds it. -/
theorem linkGameDrive_succeeds {target : Bytes} (hsucc : l.Succeeds) (ht : 10 ∉ target) :
    (linkGameDrive l target s).drive = .link target ∧ gameDriveRecord true (linkGameDrive l target s) = target := by
  rw [linkGameDrive_drive, if_pos hsucc.ln, linkGameDrive, if_pos hsucc.ln]
  exact ⟨rfl, recordGameDrive_record hsucc.catAgain hsucc.writeRecord ht⟩

theorem mapsLibrary_of (hl : l.OneLine) (hs : CreatedLink s) (h : NoLag l s) : MapsLibrary l s := by
  intro hd library hlongest hfree hsucc
  obtain ⟨rfl, hne⟩ := longest_iff.mp hlongest
  have ht := driveTarget_oneLine hl hne
  obtain hdrive | hcreated := hfree
  · rw [mapGameDrive_absent hd hne hdrive]
    exact linkGameDrive_succeeds hsucc ht
  · obtain ⟨old, hdrive, hline⟩ := hs hcreated
    by_cases hc : Compares l s old
    · rw [mapGameDrive_takes hc (h old hc hcreated hsucc), hsucc.rmDrive, if_neg (Bool.false_ne_true ∘ Eq.symm),
        if_neg hne]
      exact linkGameDrive_succeeds hsucc ht
    · obtain ⟨hread, -⟩ | ⟨heq, hwant⟩ := mapGameDrive_same hd hdrive hc
      · rw [hsucc.readlink] at hread
        cases hread
      · rw [commandOutput_of_notMem hline] at hwant
        rw [heq, recordGameDrive_drive, hdrive, hwant]
        exact ⟨rfl, recordGameDrive_record hsucc.catAgain hsucc.writeRecord ht⟩

theorem unmapsOwn_of (hs : CreatedLink s) (h : NoLookalike l s) (h' : NoLag l s) : UnmapsOwn l s := by
  intro hd hnone hsucc hne
  have hnil := findLibrary_eq_nil.mpr hnone
  cases hdrive : s.drive with
  | absent => exact absurd hdrive hne
  | other =>
    rw [mapGameDrive_other hdrive, hdrive]
    constructor
    · exact Drive.noConfusion
    · intro hcreated
      obtain ⟨target, hlink, -⟩ := hs hcreated
      rw [hdrive] at hlink
      cases hlink
  | link old =>
    have hc : Compares l s old := ⟨hd, hdrive, .inl hnil⟩
    by_cases hsame : readDrive l old = gameDriveRecord l.cat s
    · rw [mapGameDrive_takes hc hsame, hsucc.rmDrive, if_neg (Bool.false_ne_true ∘ Eq.symm), if_pos hnil]
      refine iff_of_true rfl ?_
      by_contra hplayer
      exact h old hc (by simpa using hplayer) hsucc.rmDrive hsame
    · rw [mapGameDrive_leaves hc hsame, hdrive]
      refine iff_of_false Drive.noConfusion fun hcreated ↦ ?_
      exact hsame (h' old hc hcreated hsucc)

/-- One launch does what is promised exactly when it meets no lookalike and no lagging record. -/
theorem owned_iff (hl : l.OneLine) (hs : CreatedLink s) : Owned l s ↔ NoLookalike l s ∧ NoLag l s := by
  constructor
  · intro h
    exact ⟨h.noLookalike hl, h.noLag hs⟩
  · rintro ⟨h, h'⟩
    exact ⟨keepsPlayers_of h, mapsLibrary_of hl hs h', unmapsOwn_of hs h h'⟩

end owned

theorem CreatedLink.step {s : DriveState} {e : DriveEvent} (hs : CreatedLink s)
    (he : ∀ l, e = .launch l → l.OneLine) : CreatedLink (driveStep s e) := by
  cases e with
  | launch l => exact hs.launch (he l rfl)
  | player drive => exact fun h ↦ absurd h Bool.false_ne_true

/-- A property of launches that start with `CreatedLink` has them in a whole run. -/
theorem forall_driveLaunches {p q : DriveLaunch → DriveState → Prop}
    (hpq : ∀ l s, l.OneLine → CreatedLink s → (p l s ↔ q l s)) (events : List DriveEvent) {s : DriveState}
    (hs : CreatedLink s) (hlines : ∀ l, .launch l ∈ events → l.OneLine) :
    (∀ x ∈ driveLaunches s events, p x.1 x.2) ↔ ∀ x ∈ driveLaunches s events, q x.1 x.2 := by
  induction events generalizing s with
  | nil => simp [driveLaunches]
  | cons e events ih =>
    have hstep := ih (hs.step fun l he ↦ hlines l (he ▸ List.mem_cons_self))
      fun l hl ↦ hlines l (List.mem_cons_of_mem e hl)
    cases e with
    | launch l =>
      rw [driveLaunches, List.forall_mem_cons, List.forall_mem_cons, hstep,
        hpq l s (hlines l List.mem_cons_self) hs]
    | player drive => exact hstep

/-- The record's commands succeed. -/
structure DriveLaunch.Records (l : DriveLaunch) : Prop where
  cat : l.cat = true
  catAgain : l.catAgain = true
  writeRecord : l.writeRecord = true

/-- The record reads as the link that a launch created. -/
def Recorded (s : DriveState) : Prop :=
  s.created = true → ∃ target, s.drive = .link target ∧ 10 ∉ target ∧ gameDriveRecord true s = target

theorem Recorded.launch {l : DriveLaunch} {s : DriveState} (hs : Recorded s) (hl : l.OneLine) (hr : l.Records) :
    Recorded (mapGameDrive l s) := by
  intro hcreated
  obtain heq | ⟨record, heq⟩ | ⟨hne, ⟨s₀, habsent, hs₀, heq⟩ | ⟨old, hdrive, hwant, heq⟩⟩ := mapGameDrive_cases l s
  · rw [heq] at hcreated ⊢
    exact hs hcreated
  · rw [heq] at hcreated
    cases hcreated
  · have ht := driveTarget_oneLine hl hne
    rw [heq]
    rw [heq, linkGameDrive_created] at hcreated
    by_cases hln : l.ln = true
    · refine ⟨driveTarget l (findLibrary l), ?_, ht, ?_⟩
      · rw [linkGameDrive_drive, if_pos hln]
      · rw [linkGameDrive, if_pos hln]
        exact recordGameDrive_record hr.catAgain hr.writeRecord ht
    · rw [if_neg hln] at hcreated
      rw [linkGameDrive, if_neg hln]
      -- Without a link, the mark is the one of before.
      obtain rfl | hfalse := hs₀
      · exact hs hcreated
      · rw [hfalse] at hcreated
        cases hcreated
  · rw [heq, recordGameDrive_created] at hcreated
    obtain ⟨target, hlink, hline, -⟩ := hs hcreated
    have hold : old = target := Drive.link.inj (hdrive.symm.trans hlink)
    rw [hold, commandOutput_of_notMem hline] at hwant
    refine ⟨target, ?_, hline, ?_⟩
    · rw [heq, recordGameDrive_drive, hlink]
    · rw [heq, hwant]
      exact recordGameDrive_record hr.catAgain hr.writeRecord (driveTarget_oneLine hl hne)

theorem Recorded.noLag {l : DriveLaunch} {s : DriveState} (hs : Recorded s) (hr : l.Records) : NoLag l s := by
  intro target hc hcreated hsucc
  obtain ⟨old, hdrive, hline, hrecord⟩ := hs hcreated
  have hold : target = old := Drive.link.inj (hc.drive.symm.trans hdrive)
  rw [readDrive, if_pos hsucc.readlink, hr.cat, hrecord, hold, commandOutput_of_notMem hline]

/-- Where every launch gets to write its record, no record lags. -/
theorem noLag_of_records (events : List DriveEvent) {s : DriveState} (hs : Recorded s)
    (hlines : ∀ l, .launch l ∈ events → l.OneLine) (hrecords : ∀ l, .launch l ∈ events → l.Records) :
    ∀ x ∈ driveLaunches s events, NoLag x.1 x.2 := by
  induction events generalizing s with
  | nil => simp [driveLaunches]
  | cons e events ih =>
    have hlines' := fun l hl ↦ hlines l (List.mem_cons_of_mem e hl)
    have hrecords' := fun l hl ↦ hrecords l (List.mem_cons_of_mem e hl)
    cases e with
    | launch l =>
      have hl := hlines l List.mem_cons_self
      have hr := hrecords l List.mem_cons_self
      exact List.forall_mem_cons.mpr ⟨hs.noLag hr, ih (hs.launch hl hr) hlines' hrecords'⟩
    | player drive =>
      have hplayer : Recorded (driveStep s (.player drive)) := fun h ↦ absurd h Bool.false_ne_true
      exact ih hplayer hlines' hrecords'

/-- A prefix without a record, whatever the player has at S:. -/
def unrecorded (drive : Drive) : DriveState := ⟨drive, none, false⟩

/-- Over every run, S: is owned as promised exactly when no launch meets a lookalike of the player's or
a record that lags behind its own link; the record never lags where it can always be written. -/
theorem gameDrive_owned_iff (drive : Drive) (events : List DriveEvent)
    (hlines : ∀ l, .launch l ∈ events → l.OneLine) :
    ((∀ x ∈ driveLaunches (unrecorded drive) events, Owned x.1 x.2) ↔
      ∀ x ∈ driveLaunches (unrecorded drive) events, NoLookalike x.1 x.2 ∧ NoLag x.1 x.2) ∧
    ((∀ l, .launch l ∈ events → l.Records) →
      (∀ x ∈ driveLaunches (unrecorded drive) events, NoLookalike x.1 x.2) →
        ∀ x ∈ driveLaunches (unrecorded drive) events, Owned x.1 x.2) := by
  have hstart : CreatedLink (unrecorded drive) := fun h ↦ absurd h Bool.false_ne_true
  have hrecorded : Recorded (unrecorded drive) := fun h ↦ absurd h Bool.false_ne_true
  have hiff := forall_driveLaunches (p := Owned) (q := fun l s ↦ NoLookalike l s ∧ NoLag l s)
    (fun l s hl hs ↦ owned_iff hl hs) events hstart hlines
  refine ⟨hiff, fun hrecords hnone ↦ hiff.mpr fun x hx ↦ ⟨hnone x hx, ?_⟩⟩
  exact noLag_of_records events hrecorded hlines hrecords x hx

/-- A game at `install`, with one Steam library at `/l` that may be written to. -/
def oneLibrary (install : Bytes) : DriveLaunch where
  dosdevices := true
  installPath := install
  libraryPaths := ascii "/l/steamapps"
  real := fun library ↦ if library = ascii "/l/steamapps" then some (ascii "/l/steamapps" ++ [10]) else none
  writable := fun _ ↦ true
  sameDevice := fun _ _ ↦ true

def inLibrary : DriveLaunch := oneLibrary (ascii "/l/steamapps/g")
def outside : DriveLaunch := oneLibrary (ascii "/g")

theorem oneLibrary_oneLine : inLibrary.OneLine ∧ outside.OneLine := by
  have hreal : ∀ library out, inLibrary.real library = some out → 10 ∉ commandOutput out := by
    intro library out h
    rw [← (Option.ite_none_right_eq_some.mp h).2 |> Option.some.inj]
    decide
  exact ⟨⟨by decide, by decide, hreal⟩, by decide, by decide, hreal⟩

/-- A game that is moved out of its library loses the S: that its first launch made. -/
theorem gameDrive_owned_moved :
    (mapGameDrive outside (driveStep (unrecorded .absent) (.launch inLibrary))).drive = .absent := by
  have hlinked : driveStep (unrecorded .absent) (.launch inLibrary) =
      ⟨.link (ascii "/l"), some (ascii "/l" ++ [10]), true⟩ := by decide
  have hnone : ∀ path ∈ listedLibraries outside, holdsGame outside path = false := by decide
  have hrun := (gameDrive_owned_iff .absent [.launch inLibrary, .launch outside] (by
    intro l hl
    simp only [List.mem_cons, DriveEvent.launch.injEq, List.not_mem_nil, or_false] at hl
    obtain rfl | rfl := hl
    · exact oneLibrary_oneLine.1
    · exact oneLibrary_oneLine.2)).2 (by
    intro l hl
    simp only [List.mem_cons, DriveEvent.launch.injEq, List.not_mem_nil, or_false] at hl
    obtain rfl | rfl := hl <;> exact ⟨rfl, rfl, rfl⟩)
  have h := hrun (by
    intro x hx target hc hplayer
    simp only [driveLaunches, List.mem_cons, List.not_mem_nil, or_false] at hx
    obtain rfl | rfl := hx
    · exact absurd hc.drive Drive.noConfusion
    · rw [hlinked] at hplayer
      cases hplayer) _ (List.mem_cons_of_mem _ List.mem_cons_self)
  apply (h.unmaps rfl hnone ⟨rfl, rfl, rfl, rfl, rfl, rfl, rfl⟩ ?_).mpr
  · dsimp only
    rw [hlinked]
  · dsimp only
    rw [hlinked]
    exact Drive.noConfusion

/-- The player's own link to the library is removed once the game leaves it. -/
theorem gameDrive_takes_players :
    ¬∀ drive events, (∀ l, .launch l ∈ events → l.OneLine) →
      ∀ x ∈ driveLaunches (unrecorded drive) events, Owned x.1 x.2 := by
  intro h
  have hlines : ∀ l, .launch l ∈ [DriveEvent.launch inLibrary, .launch outside] → l.OneLine := by
    intro l hl
    simp only [List.mem_cons, DriveEvent.launch.injEq, List.not_mem_nil, or_false] at hl
    obtain rfl | rfl := hl
    · exact oneLibrary_oneLine.1
    · exact oneLibrary_oneLine.2
  have howned := h (.link (ascii "/l")) _ hlines _ (List.mem_cons_of_mem _ List.mem_cons_self)
  have hkept := howned.keeps (by decide) (by decide)
  revert hkept
  decide

end NotProton.CompatRun
