import NotProton.CompatRun.ForeignPrefix

/-!
# SwitchBlame — offering a rebuild after a version switch (`compat_run.sh`)

The three files are lists of lines, as `printf`, `read`, `head` and `sed` write and read them; a value
written into one comes from one line of another file and holds no newline.  Every file can be written,
and the player launches without rebuilding.
-/

open NotProton.Library NotProton.PrefixState

namespace NotProton.CompatRun

/-- `sed -n <n>p` of a file, the first line being 0. -/
def fileLine (n : Nat) (file : Option (List Bytes)) : Bytes := ((file.getD [])[n]?).getD []

def isBlank (c : UInt8) : Bool := c == 32 || c == 9

/-- One line as `read -r` stores it. -/
def readBlanks (line : Bytes) : Bytes := (line.dropWhile isBlank).rdropWhile isBlank

def isBuildByte (c : UInt8) : Bool :=
  (65 ≤ c && c ≤ 90) || (97 ≤ c && c ≤ 122) || isDigit c || c == 46 || c == 45

/-- A finished game session: whether its Wine log shows a crash, how long it ran, and whether Steam
ended it. -/
structure Session where
  crashed : Bool
  seconds : Nat
  terminated : Bool

/-- What one launch finds.  `session` is the game's session, `none` where the game never started, and
`lastWine` what `last_wine_build` would set. -/
structure SwitchLaunch where
  verb : Bytes
  buildFile : Bytes
  displayName : Bytes
  wineUnix : Bytes
  dll : Entry
  lastWine : Bytes × Bytes
  session : Option Session

/-- `np_build` -/
def SwitchLaunch.npBuild (l : SwitchLaunch) : Bytes :=
  if (readBlanks l.buildFile).all isBuildByte then readBlanks l.buildFile else []

/-- `np_display` -/
def SwitchLaunch.npDisplay (l : SwitchLaunch) : Bytes :=
  if l.displayName = [] then
    ascii "CrossOver build " ++ if l.npBuild = [] then ascii "unknown" else l.npBuild
  else l.displayName

/-- `notproton-build`, `notproton-healthy` and `notproton-switch` of one compatdata folder. -/
structure BlameFiles where
  record : Option (List Bytes)
  healthy : Option (List Bytes)
  switch : Option (List Bytes)

/-- The pairs of loader and prefix that belong to different architectures. -/
def otherLoader (wineUnix machine : Bytes) : Bool :=
  (wineUnix = ascii "aarch64-unix" && (machine = ascii "8664" || machine = ascii "014c")) ||
    (wineUnix = ascii "x86_64-unix" && (machine = ascii "aa64" || machine = ascii "014c"))

def noteOtherBuild (l : SwitchLaunch) (s : BlameFiles) : BlameFiles :=
  let had := match s.record with
    | some _ => (readBlanks (fileLine 0 s.record), readBlanks (fileLine 1 s.record))
    | none => l.lastWine
  if had.1 ≠ [] ∧ had.1 ≠ l.npBuild then
    if otherLoader l.wineUnix ((prefixMachine l.dll).getD []) then s
    else if fileLine 0 s.healthy = had.1 then
      let display := if had.2 = [] then ascii "CrossOver build " ++ had.1 else had.2
      { s with switch := some [had.1, display, ascii "0"] }
    else { s with switch := none }
  else s

def claimPrefix (l : SwitchLaunch) (s : BlameFiles) : BlameFiles :=
  { s with record := some [l.npBuild, l.npDisplay] }

/-- Whether the player is asked, and the files afterwards. -/
def offerSwitchRebuild (verb : Bytes) (s : BlameFiles) : Bool × BlameFiles :=
  if fileLine 2 s.switch = ascii "failed" ∧ verb ≠ ascii "run" then (true, { s with switch := none })
  else (false, s)

inductive Health
  | failed
  | healthy
  | unknown
  deriving DecidableEq

def sessionHealth (session : Session) : Health :=
  if session.crashed ∧ session.seconds < 60 ∧ ¬ session.terminated then .failed
  else if ¬ session.crashed ∧ (¬ session.terminated ∨ 60 ≤ session.seconds) then .healthy
  else .unknown

def setSwitchState (state : Bytes) (s : BlameFiles) : BlameFiles :=
  { s with switch := some ((s.switch.getD []).take 2 ++ [state]) }

def recordSession (npBuild : Bytes) (session : Session) (s : BlameFiles) : BlameFiles :=
  match sessionHealth session with
  | .healthy =>
      let s := { s with healthy := some [npBuild] }
      if s.switch = none then s
      else if fileLine 2 s.switch = ascii "0" then setSwitchState (ascii "1") s
      else { s with switch := none }
  | .failed => if s.switch = none then s else setSwitchState (ascii "failed") s
  | .unknown => s

/-- The session of a launch that starts the game; a helper has none. -/
def SwitchLaunch.gameSession (l : SwitchLaunch) : Option Session :=
  if l.verb = ascii "waitforexitandrun" then l.session else none

/-- The files once the session of a launch is over. -/
def sessionOver (l : SwitchLaunch) (s : BlameFiles) : BlameFiles :=
  match l.gameSession with
  | some session => recordSession l.npBuild session s
  | none => s

/-- One launch: whether it offered a rebuild, and the files it leaves.  On a prefix of another
architecture it does not go on. -/
def switchLaunch (l : SwitchLaunch) (s : BlameFiles) : Bool × BlameFiles :=
  let s := noteOtherBuild l s
  if (refuseForeignPrefix l.dll l.wineUnix).isSome then (false, s)
  else
    let offer := offerSwitchRebuild l.verb (claimPrefix l s)
    (offer.1, sessionOver l offer.2)

/-- A launch of the past and whether it offered a rebuild. -/
structure PastLaunch where
  launch : SwitchLaunch
  offered : Bool

/-- The files and the history after a sequence of launches, the history's latest launch first. -/
def switchRun (start : BlameFiles) : List SwitchLaunch → BlameFiles × List PastLaunch
  | launches => launches.foldl
      (fun run l ↦ ((switchLaunch l run.1).2, ⟨l, (switchLaunch l run.1).1⟩ :: run.2)) (start, [])

/-- A folder whose record names `b₀`, with no switch being watched. -/
def BlameFiles.start (b₀ display : Bytes) (h₀ : Option Bytes) : BlameFiles :=
  { record := some [b₀, display], healthy := h₀.map fun h ↦ [h], switch := none }

/-! ## What a history says -/

section history

variable (b₀ : Bytes) (h₀ : Option Bytes)

/-- The build in use at the end of a history. -/
def inUse : List PastLaunch → Bytes
  | [] => b₀
  | past :: _ => past.launch.npBuild

/-- The launches since the last change of build, when `b` is in use now. -/
def since (b : Bytes) (history : List PastLaunch) : List PastLaunch :=
  history.takeWhile fun past ↦ past.launch.npBuild = b

/-- The launches before that change. -/
def beforeChange (b : Bytes) (history : List PastLaunch) : List PastLaunch :=
  history.dropWhile fun past ↦ past.launch.npBuild = b

def PastLaunch.health (past : PastLaunch) : Option Health := past.launch.gameSession.map sessionHealth

/-- The build of the latest healthy session. -/
def latestHealthy (history : List PastLaunch) : Option Bytes :=
  ((history.find? fun past ↦ past.health = some .healthy).map fun past ↦ past.launch.npBuild).or h₀

/-- The latest launch that ran a session. -/
def latestSession (history : List PastLaunch) : Option PastLaunch :=
  history.find? fun past ↦ past.launch.gameSession.isSome

def healthySessions (history : List PastLaunch) : Nat := history.countP fun past ↦ past.health = some .healthy

/-- The build before the change to `b` is the one the game was last seen working on. -/
def WorkedBefore (b : Bytes) (history : List PastLaunch) : Prop :=
  inUse b₀ (beforeChange b history) ≠ b ∧
    latestHealthy h₀ (beforeChange b history) = some (inUse b₀ (beforeChange b history))

instance (b : Bytes) (history : List PastLaunch) : Decidable (WorkedBefore b₀ h₀ b history) :=
  inferInstanceAs (Decidable (_ ∧ _))

/-- A crash within its first minute, in a session Steam did not end. -/
def LatestFailed (history : List PastLaunch) : Prop :=
  (latestSession history).bind PastLaunch.health = some .failed

instance (history : List PastLaunch) : Decidable (LatestFailed history) := inferInstanceAs (Decidable (_ = _))

/-- A switch the record still watches. -/
def Watched (b : Bytes) (history : List PastLaunch) : Prop :=
  WorkedBefore b₀ h₀ b history ∧ (∀ past ∈ since b history, past.offered = false) ∧
    healthySessions (since b history) < 2

/-- The third line of the switch record, from the launches since the switch. -/
def watchState (history : List PastLaunch) : Bytes :=
  if LatestFailed history then ascii "failed"
  else if healthySessions history = 0 then ascii "0"
  else ascii "1"

/-- The files say of the history what the next launch needs, when `b` is in use. -/
structure Tracked (b : Bytes) (history : List PastLaunch) (s : BlameFiles) : Prop where
  healthy : fileLine 0 s.healthy = (latestHealthy h₀ history).getD []
  watched : Watched b₀ h₀ b history → ∃ build display, s.switch = some [build, display, watchState (since b history)]
  unwatched : ¬ Watched b₀ h₀ b history → s.switch = none

end history

/-! ## Histories -/

section lists

variable {b₀ b : Bytes} {h₀ : Option Bytes} {p : PastLaunch} {history : List PastLaunch}

theorem since_cons (hb : p.launch.npBuild = b) : since b (p :: history) = p :: since b history :=
  List.takeWhile_cons_of_pos (by simpa using hb)

theorem beforeChange_cons (hb : p.launch.npBuild = b) :
    beforeChange b (p :: history) = beforeChange b history :=
  List.dropWhile_cons_of_pos (by simpa using hb)

/-- Right after a change of build nothing has run since. -/
theorem since_of_changed (h : inUse b₀ history ≠ b) : since b history = [] := by
  cases history with
  | nil => rfl
  | cons p history => exact List.takeWhile_cons_of_neg (by simpa [inUse] using h)

theorem beforeChange_of_changed (h : inUse b₀ history ≠ b) : beforeChange b history = history := by
  cases history with
  | nil => rfl
  | cons p history => exact List.dropWhile_cons_of_neg (by simpa [inUse] using h)

theorem latestHealthy_cons : latestHealthy h₀ (p :: history) =
    if p.health = some .healthy then some p.launch.npBuild else latestHealthy h₀ history := by
  unfold latestHealthy
  by_cases h : p.health = some .healthy
  · rw [if_pos h, List.find?_cons_of_pos (by simpa using h)]
    rfl
  · rw [if_neg h, List.find?_cons_of_neg (by simpa using h)]

theorem healthySessions_cons : healthySessions (p :: history) =
    healthySessions history + if p.health = some .healthy then 1 else 0 := by
  rw [healthySessions, List.countP_cons]
  simp only [decide_eq_true_eq, healthySessions]

theorem latestFailed_cons_some {session : Session} (h : p.launch.gameSession = some session) :
    LatestFailed (p :: history) ↔ sessionHealth session = .failed := by
  unfold LatestFailed latestSession
  rw [List.find?_cons_of_pos (by rw [h]; rfl), Option.bind_some, PastLaunch.health, h, Option.map_some,
    Option.some.injEq]

theorem latestFailed_cons_none (h : p.launch.gameSession = none) :
    LatestFailed (p :: history) ↔ LatestFailed history := by
  unfold LatestFailed latestSession
  rw [List.find?_cons_of_neg (by rw [h]; decide)]

theorem watched_cons (hb : p.launch.npBuild = b) : Watched b₀ h₀ b (p :: history) ↔
    WorkedBefore b₀ h₀ b history ∧ p.offered = false ∧ (∀ p ∈ since b history, p.offered = false) ∧
      healthySessions (p :: since b history) < 2 := by
  rw [Watched, since_cons hb, WorkedBefore, beforeChange_cons hb, List.forall_mem_cons, WorkedBefore, and_assoc]
  tauto

/-- A launch can end the watch and not begin it. -/
theorem Watched.of_cons (hb : p.launch.npBuild = b) (h : Watched b₀ h₀ b (p :: history)) :
    Watched b₀ h₀ b history := by
  obtain ⟨hworked, -, hoffered, hcount⟩ := (watched_cons hb).mp h
  rw [healthySessions_cons] at hcount
  exact ⟨hworked, hoffered, by omega⟩

end lists

/-! ## One launch -/

section launch

variable {b₀ b : Bytes} {h₀ : Option Bytes} {history : List PastLaunch} {s : BlameFiles} {l : SwitchLaunch}

theorem recordSession_record (session : Session) :
    (recordSession b session s).record = s.record := by
  unfold recordSession setSwitchState
  cases sessionHealth session <;> simp only <;> split_ifs <;> rfl

theorem recordSession_healthy (session : Session) : (recordSession b session s).healthy =
    if sessionHealth session = .healthy then some [b] else s.healthy := by
  unfold recordSession setSwitchState
  cases sessionHealth session <;> simp only [reduceCtorEq, if_false, if_true] <;> split_ifs <;> rfl

theorem recordSession_none (session : Session) (h : s.switch = none) :
    (recordSession b session s).switch = none := by
  unfold recordSession
  cases sessionHealth session <;> simp only [h, if_true]

theorem recordSession_some (session : Session) {build display state : Bytes}
    (h : s.switch = some [build, display, state]) : (recordSession b session s).switch =
      match sessionHealth session with
      | .failed => some [build, display, ascii "failed"]
      | .healthy => if state = ascii "0" then some [build, display, ascii "1"] else none
      | .unknown => some [build, display, state] := by
  have hline : fileLine 2 (some [build, display, state]) = state := rfl
  unfold recordSession setSwitchState
  cases sessionHealth session with
  | failed => simp only [h, reduceCtorEq, if_false, Option.getD_some, List.take, List.cons_append, List.nil_append]
  | healthy =>
    simp only [h, reduceCtorEq, if_false, hline]
    by_cases hzero : state = ascii "0"
    · simp only [if_pos hzero, Option.getD_some, List.take, List.cons_append, List.nil_append]
    · simp only [if_neg hzero]
  | unknown => exact h

/-- The launch's build is known and its loader fits the prefix. -/
def SwitchLaunch.Ordinary (l : SwitchLaunch) : Prop :=
  l.npBuild ≠ [] ∧ refuseForeignPrefix l.dll l.wineUnix = none

instance (l : SwitchLaunch) : Decidable l.Ordinary := inferInstanceAs (Decidable (_ ∧ _))

/-- A launch that goes on is on a prefix its loader fits. -/
theorem otherLoader_of_refuse (h : refuseForeignPrefix l.dll l.wineUnix = none) :
    otherLoader l.wineUnix ((prefixMachine l.dll).getD []) = false := by
  unfold refuseForeignPrefix at h
  unfold otherLoader
  have hfex : ascii "aarch64-unix" ≠ ascii "x86_64-unix" := by decide
  cases hmachine : prefixMachine l.dll with
  | none =>
    have hempty : ([] : Bytes) ≠ ascii "8664" ∧ ([] : Bytes) ≠ ascii "014c" ∧ ([] : Bytes) ≠ ascii "aa64" := by decide
    simp [Option.getD_none, hempty.1, hempty.2.1, hempty.2.2]
  | some machine =>
    rw [hmachine] at h
    have hwant : machine = wantedMachine l.wineUnix := by
      by_contra hne
      simp only [if_neg hne, reduceCtorEq] at h
    have hwords : ascii "aa64" ≠ ascii "8664" ∧ ascii "aa64" ≠ ascii "014c" ∧ ascii "8664" ≠ ascii "014c" := by
      decide
    unfold wantedMachine at hwant
    rw [Option.getD_some, hwant]
    by_cases harm : l.wineUnix = ascii "aarch64-unix"
    · simp [harm, hfex, hwords.1, hwords.2.1]
    · simp [harm, hwords.1.symm, hwords.2.2]

/-- A text the shell keeps as the id of a build. -/
def IsBuild (b : Bytes) : Prop := b ≠ [] ∧ ∀ c ∈ b, isBuildByte c = true

instance (b : Bytes) : Decidable (IsBuild b) := inferInstanceAs (Decidable (_ ∧ _))

theorem not_isBlank_of_isBuildByte {c : UInt8} (h : isBuildByte c = true) : isBlank c = false :=
  forall_byte (p := fun c ↦ isBuildByte c = true → isBlank c = false) (by decide +kernel) c h

theorem IsBuild.readBlanks_eq (h : IsBuild b) : readBlanks b = b := by
  have hfirst : b.dropWhile isBlank = b := by
    rw [List.dropWhile_eq_self_iff]
    intro hlt
    simp [not_isBlank_of_isBuildByte (h.2 _ (List.getElem_mem hlt))]
  rw [readBlanks, hfirst, List.rdropWhile_eq_self_iff]
  intro hne
  simp [not_isBlank_of_isBuildByte (h.2 _ (List.getLast_mem hne))]

theorem SwitchLaunch.Ordinary.isBuild (h : l.Ordinary) : IsBuild l.npBuild := by
  refine ⟨h.1, ?_⟩
  unfold SwitchLaunch.npBuild
  split
  case isTrue hall => exact List.all_eq_true.mp hall
  case isFalse => exact fun c hc ↦ absurd hc List.not_mem_nil

/-- `note_other_build` moves the watch from the build of the record to the launch's own. -/
theorem noteOtherBuild_tracked {display : Bytes} (hl : l.Ordinary) (hbuild : IsBuild (inUse b₀ history))
    (hrecord : s.record = some [inUse b₀ history, display])
    (h : Tracked b₀ h₀ (inUse b₀ history) history s) :
    Tracked b₀ h₀ l.npBuild history (noteOtherBuild l s) := by
  have hread : readBlanks (fileLine 0 s.record) = inUse b₀ history := by
    rw [hrecord]
    exact hbuild.readBlanks_eq
  have hloader := otherLoader_of_refuse hl.2
  -- A change away from a build is watched if it was the last healthy one.
  have hwatched : inUse b₀ history ≠ l.npBuild →
      (Watched b₀ h₀ l.npBuild history ↔ fileLine 0 s.healthy = inUse b₀ history) := by
    intro hne
    rw [Watched, WorkedBefore, since_of_changed hne, beforeChange_of_changed hne, h.healthy]
    constructor
    · rintro ⟨⟨-, hlatest⟩, -⟩
      rw [hlatest, Option.getD_some]
    · intro hlatest
      refine ⟨⟨hne, ?_⟩, fun _ hpast ↦ absurd hpast List.not_mem_nil, by decide⟩
      cases hcase : latestHealthy h₀ history with
      | none => exact absurd (by rw [← hlatest, hcase]; rfl) hbuild.1
      | some healthy => rw [← hlatest, hcase, Option.getD_some]
  unfold noteOtherBuild
  rw [hrecord] at hread ⊢
  simp only [hread, hloader, Bool.false_eq_true, if_false]
  by_cases hne : inUse b₀ history = l.npBuild
  · rw [if_neg fun hor ↦ hor.2 hne, ← hne]
    exact h
  · rw [if_pos ⟨hbuild.1, hne⟩]
    by_cases hhealthy : fileLine 0 s.healthy = inUse b₀ history
    · rw [if_pos hhealthy]
      exact {
        healthy := h.healthy
        watched := fun _ ↦ ⟨_, _, by rw [since_of_changed hne]; rfl⟩
        unwatched := fun hnot ↦ absurd ((hwatched hne).mpr hhealthy) hnot }
    · rw [if_neg hhealthy]
      exact {
        healthy := h.healthy
        watched := fun hw ↦ absurd ((hwatched hne).mp hw) hhealthy
        unwatched := fun _ ↦ rfl }

theorem watchState_eq_failed {launches : List PastLaunch} :
    watchState launches = ascii "failed" ↔ LatestFailed launches := by
  have hzero : ascii "0" ≠ ascii "failed" := by decide
  have hone : ascii "1" ≠ ascii "failed" := by decide
  unfold watchState
  by_cases h : LatestFailed launches
  · exact iff_of_true (if_pos h) h
  · rw [if_neg h]
    split_ifs <;> simp only [hzero, hone, h]

theorem Tracked.offers_iff (h : Tracked b₀ h₀ b history s) (verb : Bytes) :
    (offerSwitchRebuild verb s).1 = true ↔
      verb ≠ ascii "run" ∧ Watched b₀ h₀ b history ∧ LatestFailed (since b history) := by
  have hstate : fileLine 2 s.switch = ascii "failed" ↔
      Watched b₀ h₀ b history ∧ LatestFailed (since b history) := by
    by_cases hw : Watched b₀ h₀ b history
    · obtain ⟨build, display, hswitch⟩ := h.watched hw
      have hline : fileLine 2 s.switch = watchState (since b history) := by
        rw [hswitch]
        rfl
      rw [hline, watchState_eq_failed]
      exact (and_iff_right hw).symm
    · have hempty : ([] : Bytes) ≠ ascii "failed" := by decide
      rw [h.unwatched hw]
      exact iff_of_false hempty fun hor ↦ hw hor.1
  unfold offerSwitchRebuild
  split
  case isTrue hoffer => exact iff_of_true rfl ⟨hoffer.2, hstate.mp hoffer.1⟩
  case isFalse hoffer => exact iff_of_false Bool.false_ne_true fun hor ↦ hoffer ⟨hstate.mpr hor.2, hor.1⟩

theorem offerSwitchRebuild_switch (verb : Bytes) : (offerSwitchRebuild verb s).2.switch =
    if (offerSwitchRebuild verb s).1 then none else s.switch := by
  unfold offerSwitchRebuild
  split <;> rfl

theorem offerSwitchRebuild_record (verb : Bytes) : (offerSwitchRebuild verb s).2.record = s.record := by
  unfold offerSwitchRebuild
  split <;> rfl

theorem offerSwitchRebuild_healthy (verb : Bytes) : (offerSwitchRebuild verb s).2.healthy = s.healthy := by
  unfold offerSwitchRebuild
  split <;> rfl

theorem switchLaunch_of_fits (h : refuseForeignPrefix l.dll l.wineUnix = none) :
    switchLaunch l s =
      let offer := offerSwitchRebuild l.verb (claimPrefix l (noteOtherBuild l s))
      (offer.1, sessionOver l offer.2) := by
  rw [switchLaunch, h]
  rfl

theorem sessionOver_healthy (hs : fileLine 0 s.healthy = (latestHealthy h₀ history).getD []) (o : Bool) :
    fileLine 0 (sessionOver l s).healthy = (latestHealthy h₀ (⟨l, o⟩ :: history)).getD [] := by
  rw [latestHealthy_cons, PastLaunch.health]
  unfold sessionOver
  cases l.gameSession with
  | none => exact hs
  | some session =>
    simp only [recordSession_healthy, Option.map_some, Option.some.injEq]
    by_cases hhealthy : sessionHealth session = .healthy
    · rw [if_pos hhealthy, if_pos hhealthy]
      rfl
    · rw [if_neg hhealthy, if_neg hhealthy, hs]

theorem sessionOver_none (h : s.switch = none) : (sessionOver l s).switch = none := by
  unfold sessionOver
  split
  · exact recordSession_none _ h
  · exact h

theorem gameSession_verb {session : Session} (h : l.gameSession = some session) :
    l.verb = ascii "waitforexitandrun" := by
  unfold SwitchLaunch.gameSession at h
  by_contra hne
  rw [if_neg hne] at h
  cases h

theorem run_ne_waitforexitandrun : ascii "waitforexitandrun" ≠ ascii "run" := by decide

/-- A session that nothing was offered before moves the record to the state of the longer history. -/
theorem sessionOver_watched {launches : List PastLaunch} {build display : Bytes}
    (hstate : s.switch = some [build, display, watchState launches])
    (hquiet : ¬ (l.verb ≠ ascii "run" ∧ LatestFailed launches)) (hcount : healthySessions launches < 2)
    (o : Bool) : (sessionOver l s).switch =
      if healthySessions (⟨l, o⟩ :: launches) < 2 then
        some [build, display, watchState (⟨l, o⟩ :: launches)]
      else none := by
  cases hsession : l.gameSession with
  | none =>
    have hhealth : (⟨l, o⟩ : PastLaunch).health = none := by simp only [PastLaunch.health, hsession, Option.map_none]
    simp only [sessionOver, hsession, healthySessions_cons, hhealth, reduceCtorEq, if_false, add_zero, if_pos hcount,
      watchState, latestFailed_cons_none (p := ⟨l, o⟩) hsession]
    exact hstate
  | some session =>
    have hhealth : (⟨l, o⟩ : PastLaunch).health = some (sessionHealth session) := by
      simp only [PastLaunch.health, hsession, Option.map_some]
    -- a launch that runs the game would have made the offer
    have hfine : ¬ LatestFailed launches := by
      intro hfailed
      exact hquiet ⟨by rw [gameSession_verb hsession]; exact run_ne_waitforexitandrun, hfailed⟩
    rw [watchState, if_neg hfine] at hstate
    simp only [sessionOver, hsession, recordSession_some session hstate, healthySessions_cons, hhealth,
      Option.some.injEq, watchState, latestFailed_cons_some (p := ⟨l, o⟩) hsession]
    cases sessionHealth session with
    | failed => simp only [reduceCtorEq, if_false, if_true, add_zero, if_pos hcount]
    | unknown => simp only [reduceCtorEq, if_false, add_zero, if_pos hcount]
    | healthy =>
      by_cases hzero : healthySessions launches = 0
      · simp [hzero]
      · have hone : ascii "1" ≠ ascii "0" := by decide
        simp only [if_neg hzero, if_neg hone, if_true, if_neg (show ¬ healthySessions launches + 1 < 2 by omega)]

theorem Tracked.launched (h : Tracked b₀ h₀ l.npBuild history s) :
    Tracked b₀ h₀ l.npBuild (⟨l, (offerSwitchRebuild l.verb s).1⟩ :: history)
      (sessionOver l (offerSwitchRebuild l.verb s).2) := by
  have hoffers := h.offers_iff l.verb
  have hswitch := offerSwitchRebuild_switch (s := s) l.verb
  have hhealthy := offerSwitchRebuild_healthy (s := s) l.verb
  generalize offerSwitchRebuild l.verb s = offer at *
  cases hoffer : offer.1 with
  | true =>
    -- the record is gone, and the offer ends the watch
    rw [hoffer, if_pos rfl] at hswitch
    exact {
      healthy := sessionOver_healthy (by rw [hhealthy]; exact h.healthy) _
      watched := fun hw ↦ absurd ((watched_cons rfl).mp hw).2.1 (by simp)
      unwatched := fun _ ↦ sessionOver_none hswitch }
  | false =>
    rw [hoffer, if_neg Bool.false_ne_true] at hswitch
    have hnone : ¬ (l.verb ≠ ascii "run" ∧ Watched b₀ h₀ l.npBuild history ∧ LatestFailed (since l.npBuild history)) := by
      rw [← hoffers, hoffer]
      exact Bool.false_ne_true
    by_cases hw : Watched b₀ h₀ l.npBuild history
    · obtain ⟨build, display, hstate⟩ := h.watched hw
      have hover := sessionOver_watched (l := l) (hswitch.trans hstate) (fun hor ↦ hnone ⟨hor.1, hw, hor.2⟩) hw.2.2 false
      have hnew : Watched b₀ h₀ l.npBuild (⟨l, false⟩ :: history) ↔
          healthySessions (⟨l, false⟩ :: since l.npBuild history) < 2 := by
        rw [watched_cons (p := ⟨l, false⟩) rfl]
        exact ⟨fun hor ↦ hor.2.2.2, fun hcount ↦ ⟨hw.1, rfl, hw.2.1, hcount⟩⟩
      exact {
        healthy := sessionOver_healthy (by rw [hhealthy]; exact h.healthy) _
        watched := fun hw' ↦ ⟨build, display, by rw [hover, if_pos (hnew.mp hw'), since_cons (p := ⟨l, false⟩) rfl]⟩
        unwatched := fun hw' ↦ by rw [hover, if_neg fun hcount ↦ hw' (hnew.mpr hcount)] }
    · exact {
        healthy := sessionOver_healthy (by rw [hhealthy]; exact h.healthy) _
        watched := fun hw' ↦ absurd (hw'.of_cons rfl) hw
        unwatched := fun _ ↦ sessionOver_none (hswitch.trans (h.unwatched hw)) }

end launch

/-! ## Every run -/

section run

variable {b₀ display : Bytes} {h₀ : Option Bytes} {l : SwitchLaunch} {launches : List SwitchLaunch}

/-- What holds between two launches. -/
structure Blame (b₀ : Bytes) (h₀ : Option Bytes) (run : BlameFiles × List PastLaunch) : Prop where
  isBuild : IsBuild (inUse b₀ run.2)
  record : ∃ display, run.1.record = some [inUse b₀ run.2, display]
  tracked : Tracked b₀ h₀ (inUse b₀ run.2) run.2 run.1
  once : (since (inUse b₀ run.2) run.2).countP (·.offered) ≤ 1

theorem blame_start (hb₀ : IsBuild b₀) : Blame b₀ h₀ (.start b₀ display h₀, []) where
  isBuild := hb₀
  record := ⟨display, rfl⟩
  once := Nat.zero_le 1
  tracked := {
    healthy := by cases h₀ <;> rfl
    watched := fun hw ↦ absurd rfl hw.1.1
    unwatched := fun _ ↦ rfl }

/-- The launches since the change, for a launch that may itself be the change. -/
theorem Blame.once_since {run : BlameFiles × List PastLaunch} (h : Blame b₀ h₀ run) (b : Bytes) :
    (since b run.2).countP (·.offered) ≤ 1 := by
  by_cases hb : inUse b₀ run.2 = b
  · rw [← hb]
    exact h.once
  · rw [since_of_changed hb]
    exact Nat.zero_le 1

theorem Blame.beforeOffer {run : BlameFiles × List PastLaunch} (h : Blame b₀ h₀ run) (hl : l.Ordinary) :
    Tracked b₀ h₀ l.npBuild run.2 (claimPrefix l (noteOtherBuild l run.1)) := by
  obtain ⟨display, hrecord⟩ := h.record
  have hnoted := noteOtherBuild_tracked hl h.isBuild hrecord h.tracked
  exact { healthy := hnoted.healthy, watched := hnoted.watched, unwatched := hnoted.unwatched }

theorem Blame.offers_iff {run : BlameFiles × List PastLaunch} (h : Blame b₀ h₀ run) (hl : l.Ordinary) :
    (switchLaunch l run.1).1 = true ↔ l.verb ≠ ascii "run" ∧ Watched b₀ h₀ l.npBuild run.2 ∧
      LatestFailed (since l.npBuild run.2) := by
  rw [switchLaunch_of_fits hl.2]
  exact (h.beforeOffer hl).offers_iff l.verb

theorem Blame.launch {run : BlameFiles × List PastLaunch} (h : Blame b₀ h₀ run) (hl : l.Ordinary) :
    Blame b₀ h₀ ((switchLaunch l run.1).2, ⟨l, (switchLaunch l run.1).1⟩ :: run.2) where
  isBuild := hl.isBuild
  record := by
    refine ⟨l.npDisplay, ?_⟩
    rw [switchLaunch_of_fits hl.2]
    simp only [sessionOver]
    split
    · rw [recordSession_record, offerSwitchRebuild_record]
      rfl
    · rw [offerSwitchRebuild_record]
      rfl
  tracked := by
    rw [switchLaunch_of_fits hl.2]
    exact (h.beforeOffer hl).launched
  once := by
    rw [inUse, since_cons rfl, List.countP_cons]
    by_cases hoffer : (switchLaunch l run.1).1 = true
    · have hnone := ((h.offers_iff hl).mp hoffer).2.1.2.1
      rw [List.countP_eq_zero.mpr fun past hpast ↦ by rw [hnone past hpast]; exact Bool.false_ne_true, if_pos hoffer]
    · rw [if_neg hoffer]
      exact h.once_since l.npBuild

theorem blame_run (hb₀ : IsBuild b₀) (hrun : ∀ l ∈ launches, l.Ordinary) :
    Blame b₀ h₀ (switchRun (.start b₀ display h₀) launches) := by
  induction launches using List.reverseRecOn with
  | nil => exact blame_start hb₀
  | append_singleton launches l ih =>
    rw [switchRun, List.foldl_append]
    exact (ih fun past hpast ↦ hrun past (List.mem_append_left _ hpast)).launch
      (hrun l (List.mem_append_right _ List.mem_cons_self))

/-- After any launches of one architecture, a rebuild is offered exactly at a launch other than an install
script's whose build replaced the one the game was last seen working on, whose latest session since then
failed, and that neither saw two healthy sessions nor made the offer since; so it is made at most once per change. -/
theorem switchLaunch_offers_iff (hb₀ : IsBuild b₀) (hrun : ∀ l ∈ launches, l.Ordinary) (hl : l.Ordinary) :
    let run := switchRun (.start b₀ display h₀) launches
    let recent := since l.npBuild run.2
    ((switchLaunch l run.1).1 = true ↔ l.verb ≠ ascii "run" ∧ WorkedBefore b₀ h₀ l.npBuild run.2 ∧
      LatestFailed recent ∧ healthySessions recent < 2 ∧ ∀ past ∈ recent, past.offered = false) ∧
    (⟨l, (switchLaunch l run.1).1⟩ :: recent).countP (·.offered) ≤ 1 := by
  have hblame : Blame b₀ h₀ (switchRun (.start b₀ display h₀) launches) := blame_run hb₀ hrun
  constructor
  · rw [hblame.offers_iff hl, Watched]
    tauto
  · have hnext := (hblame.launch hl).once_since l.npBuild
    rwa [since_cons (p := ⟨l, _⟩) rfl] at hnext

end run

/-- A game launch through Rosetta whose session ends after five seconds. -/
def shortSession (build : Bytes) (crashed : Bool) : SwitchLaunch where
  verb := ascii "waitforexitandrun"
  buildFile := build
  displayName := []
  wineUnix := ascii "x86_64-unix"
  dll := .missing
  lastWine := ([], [])
  session := some ⟨crashed, 5, false⟩

/-- A crash on the new build is asked about at the next launch. -/
theorem switchLaunch_offers_afterCrash :
    (switchLaunch (shortSession [50] true)
      (switchRun (.start [49] [] none) [shortSession [49] false, shortSession [50] true]).1).1 = true := by
  have hstart : IsBuild [49] := by decide +kernel
  have hrun : ∀ l ∈ [shortSession [49] false, shortSession [50] true], l.Ordinary := by decide
  have hl : (shortSession [50] true).Ordinary := by decide
  apply (switchLaunch_offers_iff hstart hrun hl).1.mpr
  decide

/-- The latest session crashed within its first minute on the build now in use, which replaced the one the game
was last seen working on, with fewer than two healthy sessions since. -/
def SwitchSuspected (b₀ : Bytes) (h₀ : Option Bytes) (b : Bytes) (history : List PastLaunch) : Prop :=
  (∃ past ∈ latestSession history, past.launch.npBuild = b ∧
    ∃ session ∈ past.launch.gameSession, session.crashed = true ∧ session.seconds < 60) ∧
  WorkedBefore b₀ h₀ b history ∧ healthySessions (since b history) < 2

instance (b₀ : Bytes) (h₀ : Option Bytes) (b : Bytes) (history : List PastLaunch) :
    Decidable (SwitchSuspected b₀ h₀ b history) := inferInstanceAs (Decidable (_ ∧ _))

/-- A second crash on the new build leaves the switch suspected, and nothing is asked again. -/
theorem suspected_not_offered : ¬ ∀ launches l, (∀ l ∈ launches, l.Ordinary) → l.Ordinary →
    ((switchLaunch l (switchRun (.start [49] [] none) launches).1).1 = true ↔
      SwitchSuspected [49] none l.npBuild (switchRun (.start [49] [] none) launches).2) := by
  intro h
  have hcrash := h [shortSession [49] false, shortSession [50] true, shortSession [50] true] (shortSession [50] true)
    (by decide) (by decide)
  revert hcrash
  decide

end NotProton.CompatRun
