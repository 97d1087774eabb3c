import Mathlib.Data.Finset.Image
import Mathlib.Data.Fintype.Card
import NotProton.Library.SlotTable
import NotProton.Library.Text

/-!
# Apps — the games whose CEG calls the client serves (`ceg.c`)

`RequestCustomBinary` notes the compatibility tool of a game, `ExtractGUIDsFromFile` notes where the game stands, and
a service call looks both up.  Each call is atomic under `g_lock`.
-/

open NotProton.Library

namespace NotProton.Ceg

def npCegApps : Nat := 16

/-- `sizeof` of each path of `np_ceg_app_t`. -/
def pathSize : Nat := 1024

/-- `np_ceg_app_t` -/
structure CegApp where
  appid : UInt32
  tool : Bytes
  install : Bytes
  library : Bytes
  deriving DecidableEq

/-- `g_apps` and `g_next_app` -/
structure CegApps where
  apps : Fin npCegApps → CegApp
  nextApp : UInt32

def CegApps.empty : CegApps := ⟨fun _ ↦ ⟨0, [], [], []⟩, 0⟩

/-- `&g_apps[g_next_app % NP_CEG_APPS]` -/
def CegApps.nextSlot (st : CegApps) : Fin npCegApps := ⟨st.nextApp.toNat % npCegApps, Nat.mod_lt _ (by decide)⟩

/-- `slot_for` -/
def slotFor (st : CegApps) (appid : UInt32) : Fin npCegApps × CegApps :=
  match firstSlot fun i ↦ decide ((st.apps i).appid = appid) with
  | some i => (i, st)
  | none => (st.nextSlot, ⟨Function.update st.apps st.nextSlot ⟨appid, [], [], []⟩, st.nextApp + 1⟩)

/-- `np_ceg_note_tool`, `none` for a null pointer. -/
def npCegNoteTool (st : CegApps) (appid : UInt32) (toolDir : Option Bytes) : CegApps :=
  if appid = 0 then st
  else
    let (i, st) := slotFor st appid
    let app := { st.apps i with tool := snprintf pathSize (toolDir.getD []), install := [], library := [] }
    { st with apps := Function.update st.apps i app }

/-- The text `np_ceg_tool_for_app` leaves in a buffer of `size` bytes, `none` where it returns 0. -/
def npCegToolForApp (st : CegApps) (appid : UInt32) (size : Nat) : Option Bytes :=
  (firstSlot fun i ↦ decide (appid ≠ 0 ∧ (st.apps i).appid = appid ∧ (st.apps i).tool ≠ [])).map fun i ↦
    snprintf size (st.apps i).tool

/-- `strstr`, as the offset of the first occurrence. -/
def strstr (needle : Bytes) : Bytes → Option Nat
  | [] => if needle = [] then some 0 else none
  | c :: s => if needle.isPrefixOf (c :: s) then some 0 else (strstr needle s).map (· + 1)

def common : Bytes := ascii "/steamapps/common/"

/-- The install and the library path that `np_ceg_note_app` reads off an executable's path. -/
def pathsOf (exe : Bytes) : Option (Bytes × Bytes) :=
  (strstr common exe).bind fun place ↦
    let name := splitAt 47 (exe.drop (place + common.length))
    if name.2 = none ∨ name.1 = [] then none
    else some (exe.take (place + common.length + name.1.length), exe.take place ++ ascii "/steamapps")

/-- `np_ceg_note_app`, `none` where it returns -1. -/
def npCegNoteApp (st : CegApps) (appid : UInt32) (exe : Option Bytes) : Option CegApps :=
  (exe.bind pathsOf).bind fun paths ↦
    (firstSlot fun i ↦ decide (appid ≠ 0 ∧ (st.apps i).appid = appid ∧ (st.apps i).tool ≠ [])).map fun i ↦
      let app := { st.apps i with install := snprintf pathSize paths.1, library := snprintf pathSize paths.2 }
      { st with apps := Function.update st.apps i app }

/-- `find_app` -/
def findApp (st : CegApps) (appid : UInt32) : Option CegApp :=
  (firstSlot fun i ↦ decide (appid ≠ 0 ∧ (st.apps i).appid = appid ∧ (st.apps i).tool ≠ [] ∧
    (st.apps i).install ≠ [])).map st.apps

/-! ## Runs -/

abbrev AppId := {appid : UInt32 // appid ≠ 0}

/-- A path shorter than the fields. -/
abbrev CegPath := {path : Bytes // path.length < pathSize}

inductive AppCall
  | noteTool (appid : AppId) (toolDir : Option CegPath)
  | noteApp (appid : AppId) (exe : Option CegPath)
  | toolForApp (appid : AppId) (size : Nat)
  | findApp (appid : AppId)

/-- What was noted of an app: its tool, and its paths when they were noted after the tool. -/
structure Noted where
  tool : Bytes
  paths : Option (Bytes × Bytes)
  deriving DecidableEq

/-- The slots, with the latest word on every app. -/
structure AppHistory where
  st : CegApps
  noted : AppId → Option Noted

def AppHistory.step (h : AppHistory) : AppCall → AppHistory
  | .noteTool appid toolDir =>
      ⟨npCegNoteTool h.st appid (toolDir.map Subtype.val),
        Function.update h.noted appid (some ⟨(toolDir.map Subtype.val).getD [], none⟩)⟩
  | .noteApp appid exe =>
      match npCegNoteApp h.st appid (exe.map Subtype.val) with
      | some st =>
          ⟨st, Function.update h.noted appid
            ((h.noted appid).map fun noted ↦ { noted with paths := (exe.map Subtype.val).bind pathsOf })⟩
      | none => h
  | .toolForApp _ _ => h
  | .findApp _ => h

def runCalls (calls : List AppCall) : AppHistory := calls.foldl AppHistory.step ⟨.empty, fun _ ↦ none⟩

def CegApp.key (app : CegApp) : Option UInt32 := if app.appid = 0 then none else some app.appid

/-- The apps other than one that have a tool noted. -/
def othersNoted (appid : AppId) : List AppCall → Finset AppId
  | [] => ∅
  | .noteTool other _ :: calls => if other = appid then othersNoted appid calls else insert other (othersNoted appid calls)
  | .noteApp _ _ :: calls => othersNoted appid calls
  | .toolForApp _ _ :: calls => othersNoted appid calls
  | .findApp _ :: calls => othersNoted appid calls

/-! ## Paths -/

theorem strstr_le {needle s : Bytes} {place : Nat} (h : strstr needle s = some place) :
    place + needle.length ≤ s.length := by
  induction s generalizing place with
  | nil =>
    rw [strstr] at h
    split at h
    next hnil =>
      cases h
      rw [hnil]
      rfl
    next => cases h
  | cons c s ih =>
    rw [strstr] at h
    split at h
    next hhere =>
      cases h
      have hle := (List.isPrefixOf_iff_prefix.mp hhere).length_le
      omega
    next =>
      obtain ⟨before, hbefore, rfl⟩ := Option.map_eq_some_iff.mp h
      have hle := ih hbefore
      rw [List.length_cons]
      omega

/-- The paths of an executable fit the fields, and the install path is not empty. -/
theorem pathsOf_fits {exe : Bytes} {paths : Bytes × Bytes} (h : pathsOf exe = some paths) (hexe : exe.length < pathSize) :
    paths.1.length < pathSize ∧ paths.2.length < pathSize ∧ paths.1 ≠ [] := by
  obtain ⟨place, hplace, h⟩ := Option.bind_eq_some_iff.mp h
  have hle := strstr_le hplace
  have hcommon : common.length = 18 := by decide
  have hsteamapps : (ascii "/steamapps").length = 10 := by decide
  simp only at h
  split at h
  next => cases h
  next =>
    cases h
    refine ⟨?_, ?_, ?_⟩
    · rw [List.length_take]
      omega
    · rw [List.length_append, List.length_take]
      omega
    · intro hnil
      have hlength := congrArg List.length hnil
      rw [List.length_take, List.length_nil] at hlength
      omega

/-! ## Calls on a slot -/

theorem key_eq_some {app : CegApp} {appid : UInt32} : app.key = some appid ↔ app.appid = appid ∧ appid ≠ 0 := by
  rw [CegApp.key]
  split
  next hzero =>
    apply iff_of_false (by simp)
    intro h
    exact h.2 (h.1 ▸ hzero)
  next hne =>
    rw [Option.some.injEq]
    apply Iff.intro
    · rintro rfl
      exact ⟨rfl, hne⟩
    · exact fun h ↦ h.1

/-- What the slots say is what was noted. -/
structure AppInv (h : AppHistory) : Prop where
  once : KeyedOnce CegApp.key h.st.apps
  said : ∀ i (appid : AppId), (h.st.apps i).appid = appid → ∃ noted, h.noted appid = some noted ∧
    (h.st.apps i).tool = noted.tool ∧ ((h.st.apps i).install, (h.st.apps i).library) = noted.paths.getD ([], [])
  paths : ∀ appid noted paths, h.noted appid = some noted → noted.paths = some paths → paths.1 ≠ []

section

variable {h : AppHistory}

theorem AppInv.eq_of_appid (hinv : AppInv h) {i j : Fin npCegApps} {appid : AppId} (hi : (h.st.apps i).appid = appid)
    (hj : (h.st.apps j).appid = appid) : i = j :=
  hinv.once i j appid (key_eq_some.mpr ⟨hi, appid.2⟩) (key_eq_some.mpr ⟨hj, appid.2⟩)

theorem AppInv.empty : AppInv ⟨.empty, fun _ ↦ none⟩ where
  once := by
    intro i j appid hi
    cases hi
  said := by
    intro i appid hi
    exact absurd hi.symm appid.2
  paths := by
    intro appid noted paths hnoted
    cases hnoted

/-- One slot is an app's afterwards, and says what is noted of the app then. -/
theorem AppInv.update (hinv : AppInv h) {i : Fin npCegApps} {appid : AppId} (app : CegApp) (noted : Noted) (next : UInt32)
    (hothers : ∀ j, j ≠ i → (h.st.apps j).appid ≠ appid) (happ : app.appid = appid) (htool : app.tool = noted.tool)
    (hpaths : (app.install, app.library) = noted.paths.getD ([], [])) (hne : ∀ paths, noted.paths = some paths → paths.1 ≠ []) :
    AppInv ⟨⟨Function.update h.st.apps i app, next⟩, Function.update h.noted appid (some noted)⟩ where
  once := by
    apply hinv.once.update
    intro j k hj hk hother
    have hk := (key_eq_some.mp hk).1
    exact hothers j hj ((key_eq_some.mp hother).1.trans (hk.symm.trans happ))
  said := by
    intro j other hj
    replace hj : (Function.update h.st.apps i app j).appid = other := hj
    show ∃ word, Function.update h.noted appid (some noted) other = some word ∧
      (Function.update h.st.apps i app j).tool = word.tool ∧ ((Function.update h.st.apps i app j).install,
        (Function.update h.st.apps i app j).library) = word.paths.getD ([], [])
    -- The slot itself, or another one, whose app is another app.
    by_cases hji : j = i
    · rw [hji, Function.update_self] at hj ⊢
      have hother : other = appid := Subtype.ext (hj.symm.trans happ)
      rw [hother, Function.update_self]
      exact ⟨noted, rfl, htool, hpaths⟩
    · rw [Function.update_of_ne hji] at hj ⊢
      have hother : other ≠ appid := by
        rintro rfl
        exact hothers j hji hj
      rw [Function.update_of_ne hother]
      exact hinv.said j other hj
  paths := by
    intro other word paths hword hword_paths
    replace hword : Function.update h.noted appid (some noted) other = some word := hword
    by_cases hother : other = appid
    · rw [hother, Function.update_self] at hword
      cases hword
      exact hne paths hword_paths
    · rw [Function.update_of_ne hother] at hword
      exact hinv.paths other word paths hword hword_paths

/-- What `np_ceg_note_tool` does, by the app's slot. -/
theorem npCegNoteTool_cases (st : CegApps) (appid : AppId) (toolDir : Option CegPath) :
    (∃ i, (st.apps i).appid = appid ∧ npCegNoteTool st appid (toolDir.map Subtype.val) =
      ⟨Function.update st.apps i ⟨appid, (toolDir.map Subtype.val).getD [], [], []⟩, st.nextApp⟩) ∨
    (∀ i, (st.apps i).appid ≠ appid) ∧ npCegNoteTool st appid (toolDir.map Subtype.val) =
      ⟨Function.update st.apps st.nextSlot ⟨appid, (toolDir.map Subtype.val).getD [], [], []⟩, st.nextApp + 1⟩ := by
  have hfits : snprintf pathSize ((toolDir.map Subtype.val).getD []) = (toolDir.map Subtype.val).getD [] := by
    apply snprintf_of_lt
    cases toolDir with
    | none => decide
    | some dir => exact dir.2
  rw [npCegNoteTool, if_neg appid.2, slotFor]
  cases hfirst : firstSlot fun i ↦ decide ((st.apps i).appid = appid) with
  | some i =>
    have hi := of_decide_eq_true (firstSlot_eq_some.mp hfirst).1
    left
    refine ⟨i, hi, ?_⟩
    simp only [hfits, hi]
  | none =>
    right
    refine ⟨fun i ↦ of_decide_eq_false (firstSlot_eq_none.mp hfirst i), ?_⟩
    simp only [hfits, Function.update_self, Function.update_idem]

/-- What `np_ceg_note_app` does where it returns 0. -/
theorem npCegNoteApp_some {st st' : CegApps} {appid : AppId} {exe : Option CegPath}
    (hst : npCegNoteApp st appid (exe.map Subtype.val) = some st') : ∃ i paths, (st.apps i).appid = appid ∧
      (exe.map Subtype.val).bind pathsOf = some paths ∧ paths.1 ≠ [] ∧
      st' = ⟨Function.update st.apps i ⟨appid, (st.apps i).tool, paths.1, paths.2⟩, st.nextApp⟩ := by
  obtain ⟨paths, hpaths, hst⟩ := Option.bind_eq_some_iff.mp hst
  obtain ⟨i, hi, rfl⟩ := Option.map_eq_some_iff.mp hst
  have hi := of_decide_eq_true (firstSlot_eq_some.mp hi).1
  obtain ⟨path, hpath, hread⟩ := Option.bind_eq_some_iff.mp hpaths
  obtain ⟨exe', -, rfl⟩ := Option.map_eq_some_iff.mp hpath
  obtain ⟨hinstall, hlibrary, hne⟩ := pathsOf_fits hread exe'.2
  refine ⟨i, paths, hi.2.1, hpaths, hne, ?_⟩
  simp only [snprintf_of_lt hinstall, snprintf_of_lt hlibrary, hi.2.1]

theorem AppInv.step (hinv : AppInv h) (call : AppCall) : AppInv (h.step call) := by
  cases call with
  | noteTool appid toolDir =>
    rw [AppHistory.step]
    -- The app's own slot again, or the next one of the ring; both drop the paths.
    obtain ⟨i, hi, heq⟩ | ⟨hnone, heq⟩ := npCegNoteTool_cases h.st appid toolDir
    · rw [heq]
      apply hinv.update _ ⟨_, none⟩ _ _ rfl rfl rfl
      · intro paths hpaths
        cases hpaths
      · intro j hji hj
        exact hji (hinv.eq_of_appid hj hi)
    · rw [heq]
      apply hinv.update _ ⟨_, none⟩ _ (fun j _ ↦ hnone j) rfl rfl rfl
      intro paths hpaths
      cases hpaths
  | noteApp appid exe =>
    rw [AppHistory.step]
    cases hst : npCegNoteApp h.st appid (exe.map Subtype.val) with
    | none => exact hinv
    | some st =>
      obtain ⟨i, paths, hi, hpaths, hne, rfl⟩ := npCegNoteApp_some hst
      obtain ⟨noted, hnoted, htool, -⟩ := hinv.said i appid hi
      simp only [hnoted, Option.map_some, hpaths]
      apply hinv.update ⟨appid, (h.st.apps i).tool, paths.1, paths.2⟩ ⟨noted.tool, some paths⟩ _ _ rfl htool rfl
      · intro paths' hpaths'
        cases hpaths'
        exact hne
      · intro j hji hj
        exact hji (hinv.eq_of_appid hj hi)
  | toolForApp appid size => exact hinv
  | findApp appid => exact hinv

theorem appInv_foldl (hinv : AppInv h) (calls : List AppCall) : AppInv (calls.foldl AppHistory.step h) := by
  induction calls generalizing h with
  | nil => exact hinv
  | cons call calls ih => exact ih (hinv.step call)

theorem appInv_runCalls (calls : List AppCall) : AppInv (runCalls calls) := appInv_foldl .empty calls

/-! ## Look-ups -/

theorem AppInv.toolForApp (hinv : AppInv h) {appid : AppId} {size : Nat} {tool : Bytes}
    (hfound : npCegToolForApp h.st appid size = some tool) :
    ∃ noted, h.noted appid = some noted ∧ tool = snprintf size noted.tool := by
  obtain ⟨i, hi, rfl⟩ := Option.map_eq_some_iff.mp hfound
  have hi := of_decide_eq_true (firstSlot_eq_some.mp hi).1
  obtain ⟨noted, hnoted, htool, -⟩ := hinv.said i appid hi.2.1
  exact ⟨noted, hnoted, congrArg (snprintf size) htool⟩

theorem AppInv.findApp (hinv : AppInv h) {appid : AppId} {app : CegApp} (hfound : findApp h.st appid = some app) :
    app.appid = appid ∧ h.noted appid = some ⟨app.tool, some (app.install, app.library)⟩ := by
  obtain ⟨i, hi, rfl⟩ := Option.map_eq_some_iff.mp hfound
  have hi := of_decide_eq_true (firstSlot_eq_some.mp hi).1
  obtain ⟨noted, hnoted, htool, hpaths⟩ := hinv.said i appid hi.2.1
  refine ⟨hi.2.1, ?_⟩
  cases hword : noted.paths with
  | none =>
    rw [hword, Option.getD_none] at hpaths
    exact absurd (Prod.mk.inj hpaths).1 hi.2.2.2
  | some paths =>
    rw [hword, Option.getD_some] at hpaths
    rw [hnoted, htool, hpaths, ← hword]

/-- An app that has its slot is found, with what was noted of it. -/
theorem AppInv.found (hinv : AppInv h) {appid : AppId} {i : Fin npCegApps} (hi : (h.st.apps i).appid = appid) :
    ∃ noted, h.noted appid = some noted ∧ (noted.tool ≠ [] →
      (∀ size, noted.tool.length < size → npCegToolForApp h.st appid size = some noted.tool) ∧
      NotProton.Ceg.findApp h.st appid = noted.paths.map fun paths ↦ ⟨appid, noted.tool, paths.1, paths.2⟩) := by
  obtain ⟨noted, hnoted, htool, hpaths⟩ := hinv.said i appid hi
  refine ⟨noted, hnoted, ?_⟩
  intro hne
  have hkey (j : Fin npCegApps) (hj : (h.st.apps j).appid = appid) : (h.st.apps j).key = some appid.1 :=
    key_eq_some.mpr ⟨hj, appid.2⟩
  apply And.intro
  · intro size hsize
    -- No other slot has the app, so the first that fits is this one.
    have hslot : firstSlot (fun j ↦ decide (appid.1 ≠ 0 ∧ (h.st.apps j).appid = appid ∧ (h.st.apps j).tool ≠ [])) = some i := by
      rw [hinv.once.firstSlot_eq_some fun j hj ↦ hkey j (of_decide_eq_true hj).2.1, decide_eq_true_iff, htool]
      exact ⟨appid.2, hi, hne⟩
    rw [npCegToolForApp, hslot, Option.map_some, htool, snprintf_of_lt hsize]
  · -- The slot is found for the launch once its paths are noted.
    have hiff (j : Fin npCegApps) : firstSlot (fun j ↦ decide (appid.1 ≠ 0 ∧ (h.st.apps j).appid = appid ∧
        (h.st.apps j).tool ≠ [] ∧ (h.st.apps j).install ≠ [])) = some j ↔ j = i ∧ noted.paths ≠ none := by
      rw [hinv.once.firstSlot_eq_some fun j hj ↦ hkey j (of_decide_eq_true hj).2.1, decide_eq_true_iff]
      apply Iff.intro
      · rintro ⟨-, hj, -, hinstall⟩
        have hji := hinv.eq_of_appid hj hi
        refine ⟨hji, ?_⟩
        intro hnone
        rw [hnone, Option.getD_none] at hpaths
        exact hinstall (hji ▸ (Prod.mk.inj hpaths).1)
      · rintro ⟨rfl, hsome⟩
        obtain ⟨paths, hword⟩ := Option.ne_none_iff_exists'.mp hsome
        rw [hword, Option.getD_some] at hpaths
        rw [htool, (Prod.mk.inj hpaths).1]
        exact ⟨appid.2, hi, hne, hinv.paths appid noted paths hnoted hword⟩
    rw [NotProton.Ceg.findApp]
    cases hword : noted.paths with
    | none =>
      rw [Option.map_none, Option.map_eq_none_iff, Option.eq_none_iff_forall_ne_some]
      intro j hj
      exact ((hiff j).mp hj).2 hword
    | some paths =>
      rw [hword, Option.getD_some] at hpaths
      rw [(hiff i).mpr ⟨rfl, by rw [hword]; exact Option.some_ne_none _⟩, Option.map_some, Option.map_some, ← hi, ← htool,
        ← hpaths]

/-! ## How long an app keeps its slot -/

/-- The app has its slot, and the `taken` slots after it in the ring went to apps in `seen` since. -/
structure Holds (appid : AppId) (seen : Finset AppId) (slot : Fin npCegApps) (taken : Nat) (st : CegApps) : Prop where
  mine : (st.apps slot).appid = appid
  turn : taken < npCegApps
  next : st.nextApp.toNat % npCegApps = (slot + 1 + taken) % npCegApps
  newer : ∀ k, k < taken → ∃ other ∈ seen, ∃ i : Fin npCegApps, i.1 = (slot + 1 + k) % npCegApps ∧ (st.apps i).appid = other

variable {appid : AppId} {seen seen' : Finset AppId} {slot : Fin npCegApps} {taken : Nat}

/-- Only the app ids, the ring's place and what was seen matter. -/
theorem Holds.congr {st st' : CegApps} (hholds : Holds appid seen slot taken st) (happs : ∀ i, (st'.apps i).appid = (st.apps i).appid)
    (hnext : st'.nextApp = st.nextApp) (hseen : seen ⊆ seen') : Holds appid seen' slot taken st' where
  mine := (happs slot).trans hholds.mine
  turn := hholds.turn
  next := by rw [hnext, hholds.next]
  newer := by
    intro k hk
    obtain ⟨other, hother, i, hi, happ⟩ := hholds.newer k hk
    exact ⟨other, hseen hother, i, hi, (happs i).trans happ⟩

/-- The slots taken since went to as many apps. -/
theorem Holds.taken_lt (hinv : AppInv h) (hholds : Holds appid seen slot taken h.st) {other : AppId}
    (hnone : ∀ i, (h.st.apps i).appid ≠ other) : taken < (insert other seen).card := by
  choose app hseen i hi happ using hholds.newer
  -- Fewer than a whole turn, so the slots are apart, and one app has one slot.
  have hinj : Function.Injective fun k : Fin taken ↦ app k k.2 := by
    intro k l hkl
    have hslots : i k k.2 = i l l.2 := by
      apply hinv.eq_of_appid (happ k k.2)
      rw [show app k k.2 = app l l.2 from hkl]
      exact happ l l.2
    have hplaces := congrArg Fin.val hslots
    rw [hi, hi] at hplaces
    have hk := k.2
    have hl := l.2
    have hturn := hholds.turn
    simp only [npCegApps] at hplaces hturn
    apply Fin.ext
    omega
  have hnew : other ∉ Finset.univ.image fun k : Fin taken ↦ app k k.2 := by
    intro hmem
    obtain ⟨k, -, hk⟩ := Finset.mem_image.mp hmem
    exact hnone (i k k.2) (hk ▸ happ k k.2)
  have hsub : insert other (Finset.univ.image fun k : Fin taken ↦ app k k.2) ⊆ insert other seen := by
    apply Finset.insert_subset_insert
    intro x hx
    obtain ⟨k, -, rfl⟩ := Finset.mem_image.mp hx
    exact hseen k k.2
  have hcard := Finset.card_le_card hsub
  rw [Finset.card_insert_of_notMem hnew, Finset.card_image_of_injective _ hinj, Finset.card_univ, Fintype.card_fin] at hcard
  exact hcard

theorem nextApp_succ (next : UInt32) : (next + 1).toNat % npCegApps = (next.toNat + 1) % npCegApps := by
  rw [UInt32.toNat_add, show (1 : UInt32).toNat = 1 by rfl, npCegApps]
  omega

/-- Another app takes the next slot of the ring. -/
theorem Holds.take (hholds : Holds appid seen slot taken h.st) {other : AppId} {app : CegApp} (happ : app.appid = other)
    (hmore : taken + 1 < npCegApps) : Holds appid (insert other seen) slot (taken + 1)
      ⟨Function.update h.st.apps h.st.nextSlot app, h.st.nextApp + 1⟩ := by
  have hplace : h.st.nextSlot.1 = (slot + 1 + taken) % npCegApps := hholds.next
  have hslot := slot.2
  simp only [npCegApps] at hmore hplace hslot
  -- None of the slots told of is the one that is taken now.
  have hapart (i : Fin npCegApps) (k : Nat) (hi : i.1 = (slot + k) % npCegApps) (hne : k ≠ taken + 1) (hlt : k < 16) :
      i ≠ h.st.nextSlot := by
    intro heq
    have hval := congrArg Fin.val heq
    simp only [npCegApps] at hi
    omega
  refine ⟨?_, hmore, ?_, ?_⟩
  · show (Function.update h.st.apps h.st.nextSlot app slot).appid = appid
    rw [Function.update_of_ne (hapart slot 0 _ (by omega) (by decide)), hholds.mine]
    rw [Nat.add_zero, Nat.mod_eq_of_lt slot.2]
  · show (h.st.nextApp + 1).toNat % npCegApps = _
    have hnext := hholds.next
    rw [nextApp_succ]
    simp only [npCegApps] at hnext ⊢
    omega
  · intro k hk
    show ∃ x ∈ insert other seen, ∃ i : Fin npCegApps, i.1 = (slot + 1 + k) % npCegApps ∧
      (Function.update h.st.apps h.st.nextSlot app i).appid = x
    by_cases hlast : k = taken
    · refine ⟨other, Finset.mem_insert_self _ _, h.st.nextSlot, ?_, ?_⟩
      · rw [hlast]
        exact hplace
      · rw [Function.update_self, happ]
    · obtain ⟨x, hx, i, hi, hix⟩ := hholds.newer k (by omega)
      refine ⟨x, Finset.mem_insert_of_mem hx, i, hi, ?_⟩
      rw [Function.update_of_ne (hapart i (1 + k) (by rw [hi, Nat.add_assoc]) (by omega) (by omega)), hix]

/-- A call keeps the app in its slot as long as the ring has not come round. -/
theorem Holds.step (hinv : AppInv h) (hholds : Holds appid seen slot taken h.st) (call : AppCall)
    (hfew : (seen ∪ othersNoted appid [call]).card < npCegApps) :
    ∃ taken', Holds appid (seen ∪ othersNoted appid [call]) slot taken' (h.step call).st := by
  have hsub : seen ⊆ seen ∪ othersNoted appid [call] := Finset.subset_union_left
  cases call with
  | noteTool other toolDir =>
    rw [AppHistory.step]
    obtain ⟨i, hi, heq⟩ | ⟨hnone, heq⟩ := npCegNoteTool_cases h.st other toolDir
    · refine ⟨taken, hholds.congr ?_ (by rw [heq]) hsub⟩
      intro j
      rw [heq]
      show (Function.update h.st.apps i _ j).appid = _
      rw [Function.update_apply]
      split
      next hji => rw [hji, hi]
      next => rfl
    · -- Another app takes the ring's next slot, which is not ours yet.
      have hother : other ≠ appid := by
        rintro rfl
        exact hnone slot hholds.mine
      have hseen : seen ∪ othersNoted appid [.noteTool other toolDir] = insert other seen := by
        rw [othersNoted, if_neg hother, othersNoted, Finset.union_comm, Finset.insert_union, Finset.empty_union]
      rw [hseen] at hfew ⊢
      have htaken := hholds.taken_lt hinv hnone
      rw [heq]
      exact ⟨taken + 1, hholds.take rfl (by omega)⟩
  | noteApp other exe =>
    rw [AppHistory.step]
    cases hst : npCegNoteApp h.st other (exe.map Subtype.val) with
    | none => exact ⟨taken, hholds.congr (fun _ ↦ rfl) rfl hsub⟩
    | some st =>
      obtain ⟨i, paths, hi, -, -, rfl⟩ := npCegNoteApp_some hst
      refine ⟨taken, hholds.congr ?_ rfl hsub⟩
      intro j
      show (Function.update h.st.apps i _ j).appid = _
      rw [Function.update_apply]
      split
      next hji => rw [hji, hi]
      next => rfl
  | toolForApp other size => exact ⟨taken, hholds.congr (fun _ ↦ rfl) rfl hsub⟩
  | findApp other => exact ⟨taken, hholds.congr (fun _ ↦ rfl) rfl hsub⟩

theorem othersNoted_cons (appid : AppId) (call : AppCall) (calls : List AppCall) :
    othersNoted appid (call :: calls) = othersNoted appid [call] ∪ othersNoted appid calls := by
  cases call with
  | noteTool other toolDir =>
    rw [othersNoted, othersNoted, othersNoted]
    split
    next => rw [Finset.empty_union]
    next => rw [Finset.insert_union, Finset.empty_union]
  | noteApp other exe => rw [othersNoted, othersNoted, othersNoted, Finset.empty_union]
  | toolForApp other size => rw [othersNoted, othersNoted, othersNoted, Finset.empty_union]
  | findApp other => rw [othersNoted, othersNoted, othersNoted, Finset.empty_union]

theorem Holds.run (hinv : AppInv h) (hholds : Holds appid seen slot taken h.st) (calls : List AppCall)
    (hfew : (seen ∪ othersNoted appid calls).card < npCegApps) :
    ((calls.foldl AppHistory.step h).st.apps slot).appid = appid := by
  induction calls generalizing h seen taken with
  | nil => exact hholds.mine
  | cons call calls ih =>
    rw [othersNoted_cons, ← Finset.union_assoc] at hfew
    have hone : (seen ∪ othersNoted appid [call]).card < npCegApps :=
      Nat.lt_of_le_of_lt (Finset.card_le_card Finset.subset_union_left) hfew
    obtain ⟨taken', hnext⟩ := hholds.step hinv call hone
    exact ih (hinv.step call) hnext hfew

/-- The note of an app that has no slot gives it the next one. -/
theorem holds_noteTool (hnone : ∀ i, (h.st.apps i).appid ≠ appid) (toolDir : Option CegPath) :
    Holds appid ∅ h.st.nextSlot 0 (h.step (.noteTool appid toolDir)).st := by
  rw [AppHistory.step]
  obtain ⟨i, hi, -⟩ | ⟨-, heq⟩ := npCegNoteTool_cases h.st appid toolDir
  · exact absurd hi (hnone i)
  · rw [heq]
    refine ⟨?_, by decide, ?_, nofun⟩
    · show (Function.update h.st.apps h.st.nextSlot _ h.st.nextSlot).appid = appid
      rw [Function.update_self]
    · show (h.st.nextApp + 1).toNat % npCegApps = _
      rw [nextApp_succ, Nat.add_zero]
      exact (Nat.mod_add_mod _ _ _).symm

/-! ## The table -/

/-- No app has two slots.  A look-up gives the app's latest tool, and the latest paths noted after it.  An app that was
given its slot keeps it until as many other apps have had a tool noted as there are slots. -/
theorem cegApps_spec :
    (∀ calls, KeyedOnce CegApp.key (runCalls calls).st.apps) ∧
    (∀ calls (appid : AppId) size tool, npCegToolForApp (runCalls calls).st appid size = some tool →
      ∃ noted, (runCalls calls).noted appid = some noted ∧ tool = snprintf size noted.tool) ∧
    (∀ calls (appid : AppId) app, findApp (runCalls calls).st appid = some app →
      app.appid = appid ∧ (runCalls calls).noted appid = some ⟨app.tool, some (app.install, app.library)⟩) ∧
    ∀ before (appid : AppId) toolDir later, (∀ i, ((runCalls before).st.apps i).appid ≠ appid) →
      (othersNoted appid later).card < npCegApps →
      let h := runCalls (before ++ .noteTool appid toolDir :: later)
      ∃ noted, h.noted appid = some noted ∧ (noted.tool ≠ [] →
        (∀ size, noted.tool.length < size → npCegToolForApp h.st appid size = some noted.tool) ∧
        findApp h.st appid = noted.paths.map fun paths ↦ ⟨appid, noted.tool, paths.1, paths.2⟩) := by
  refine ⟨fun calls ↦ (appInv_runCalls calls).once, fun calls appid size tool ↦ (appInv_runCalls calls).toolForApp,
    fun calls appid app ↦ (appInv_runCalls calls).findApp, ?_⟩
  intro before appid toolDir later hnone hfew h
  apply (appInv_runCalls _).found (i := (runCalls before).st.nextSlot)
  rw [show runCalls (before ++ .noteTool appid toolDir :: later) =
    later.foldl AppHistory.step ((runCalls before).step (.noteTool appid toolDir)) from List.foldl_append]
  apply (holds_noteTool hnone toolDir).run ((appInv_runCalls before).step _)
  rw [Finset.empty_union]
  exact hfew

end

def toolDir : CegPath := ⟨ascii "/tools/t", by decide⟩

/-- A game's tool, another game's, where the first game stands, and a third game's tool. -/
def gameCalls : List AppCall :=
  [.noteTool ⟨440, by decide⟩ (some toolDir), .noteTool ⟨570, by decide⟩ (some toolDir),
    .noteApp ⟨440, by decide⟩ (some ⟨ascii "/L/steamapps/common/Game/bin/game.exe", by decide⟩),
    .noteTool ⟨620, by decide⟩ none, .toolForApp ⟨570, by decide⟩ pathSize]

/-- The game is found behind two earlier apps, with its tool and its paths. -/
theorem cegApps_spec_game :
    npCegToolForApp (runCalls (.noteTool ⟨730, by decide⟩ (some toolDir) :: gameCalls)).st 440 pathSize = some (ascii "/tools/t") ∧
      findApp (runCalls (.noteTool ⟨730, by decide⟩ (some toolDir) :: gameCalls)).st 440 =
        some ⟨440, ascii "/tools/t", ascii "/L/steamapps/common/Game", ascii "/L/steamapps"⟩ := by
  obtain ⟨noted, hnoted, hfound⟩ := cegApps_spec.2.2.2 [.noteTool ⟨730, by decide⟩ (some toolDir)] ⟨440, by decide⟩ (some toolDir)
    gameCalls.tail (by decide) (by decide)
  have hlatest : noted = ⟨ascii "/tools/t", some (ascii "/L/steamapps/common/Game", ascii "/L/steamapps")⟩ :=
    Option.some.inj (hnoted.symm.trans (by decide))
  obtain ⟨htool, happ⟩ := hfound (by rw [hlatest]; decide)
  rw [hlatest] at htool happ
  exact ⟨htool pathSize (by decide), happ⟩

/-- The first app of a full ring is noted again, and the next new app takes its slot. -/
theorem refreshed_app_evicted :
    ¬ ∀ before (appid : AppId) (toolDir : CegPath) later, (∀ call ∈ later, ∀ dir, call ≠ .noteTool appid dir) →
      (othersNoted appid later).card < npCegApps → toolDir.1 ≠ [] →
      npCegToolForApp (runCalls (before ++ .noteTool appid (some toolDir) :: later)).st appid pathSize = some toolDir.1 := by
  intro h
  let app (n : Nat) : AppId := if hn : UInt32.ofNat n ≠ 0 then ⟨UInt32.ofNat n, hn⟩ else ⟨1, by decide⟩
  let dir : CegPath := ⟨ascii "/tools/t", by decide⟩
  have hlost := h ((List.range 16).map fun n ↦ .noteTool (app (500 + n)) (some dir)) (app 500) dir
    [.noteTool (app 600) (some dir)] (by
      intro call hcall other heq
      rw [List.mem_singleton.mp hcall] at heq
      cases heq) (by decide) (by decide)
  revert hlost
  decide

end NotProton.Ceg
