import Mathlib.Logic.Function.Basic
import Mathlib.Logic.Relation

/-!
# ServiceCall — service calls and the end of the client (`ceg.c`)

`np_ceg_service_call` runs a helper for the game, one call at a time, while `np_ceg_stop` may come
from another thread at any moment.  Every lock operation, file operation, spawn, wait and kill is
one step; between two steps any thread and any helper may go on.
-/

namespace NotProton.Ceg

/-- A thread that makes a service call. -/
abbrev Tid := Nat
abbrev Pid := Nat
abbrev CallId := UInt32

inductive Thread
  | call (t : Tid)
  | stop
  deriving DecidableEq

/-- `servicecall_<callid>.in` and `servicecall_<callid>.out` -/
inductive FileKind
  | input
  | output
  deriving DecidableEq

/-- Where a thread is in a section under a lock. -/
inductive LockAt
  | take
  | write
  | give
  deriving DecidableEq

/-- What a call does after `set_call_pgid`. -/
inductive Next
  /-- The loop of `wait_for_helper`, after `set_call_pgid(pid)`. -/
  | poll (p : Pid)
  /-- The `waitpid` of `reap`, after `set_call_pgid(0)`. -/
  | reap (p : Pid) (killed : Bool)
  /-- `wait_for_helper` returns without a `reap`. -/
  | failed
  deriving DecidableEq

/-- What `set_call_pgid` writes. -/
def Next.value : Next → Pid
  | poll p => p
  | reap _ _ => 0
  | failed => 0

/-- The next step of a call. -/
inductive Pc
  | idle
  /-- The app is set up and the service bound. -/
  | begun
  /-- With `g_call_lock` held, before `g_stopping` is read. -/
  | entered
  | makeDir
  | lockActive
  | nameFiles
  | unlockActive
  | placeModule
  | unlinkOut
  | writeIn
  /-- `run_in_prefix` -/
  | spawn
  | setPgid (lock : LockAt) (next : Next)
  /-- The `waitid` of the loop. -/
  | poll (p : Pid)
  /-- The clock and `g_stopping`. -/
  | load (p : Pid)
  | term (p : Pid) (stopping : Bool)
  /-- `i` of the 50 rounds after `SIGTERM`. -/
  | grace (p : Pid) (i : Nat) (stopping : Bool)
  | kill9 (p : Pid)
  | waitpid (p : Pid) (killed : Bool)
  | readOut
  | doneLock
  | doneIn
  | doneOut
  | doneClear
  | doneUnlockActive
  | doneUnlock
  /-- `ran`: past the checks that come before the lock. -/
  | returned (ran : Bool)
  deriving DecidableEq

/-- The next step of `np_ceg_stop`. -/
inductive StopPc
  | idle
  | setFlag
  | takePgid
  | readPgid
  | killing (p : Pid)
  | givePgid
  | takeActive
  | unlinkIn
  | unlinkOut
  | giveActive
  | returned
  deriving DecidableEq

/-- A child not reaped yet. -/
structure Helper where
  owner : Tid
  exited : Bool

structure State where
  /-- `g_stopping` -/
  stopping : Bool
  callLock : Option Tid
  pgidLock : Option Thread
  activeLock : Option Thread
  /-- `g_call_pgid` -/
  callPgid : Pid
  /-- The call ids of `g_active_in` and `g_active_out`, none where they are empty. -/
  activeIn : Option CallId
  activeOut : Option CallId
  helpers : Pid → Option Helper
  files : CallId → FileKind → Bool
  calls : Tid → Pc
  /-- The call took `g_call_lock` after `np_ceg_stop` set its flag. -/
  late : Tid → Bool
  stop : StopPc

def State.goto (s : State) (t : Tid) (pc : Pc) : State :=
  { s with calls := Function.update s.calls t pc }

def State.setFile (s : State) (c : CallId) (k : FileKind) (there : Bool) : State :=
  { s with files := Function.update s.files c (Function.update (s.files c) k there) }

/-- What `waitid` or `waitpid` answers. -/
inductive Wait
  | exited
  | running
  | intr
  | noChild

/-- The answers the system may give a call that waits for `p`. -/
def State.waits (s : State) (p : Pid) : Wait → Prop
  | .exited => ∃ t, s.helpers p = some ⟨t, true⟩
  | .running => ∃ t, s.helpers p = some ⟨t, false⟩
  | .intr => True
  | .noChild => s.helpers p = none

/-- What other threads and processes see of a step. -/
inductive Event
  | silent
  | spawn (t : Tid) (p : Pid)
  /-- A signal to the process group of `p`. -/
  | kill (p : Pid)
  | reap (t : Tid) (p : Pid)

/-- The steps of a call that touch nothing shared. -/
inductive Local (s : State) : Pc → Pc → Prop
  /-- No CEG job set the app up, or the service is not bound. -/
  | refuse : Local s .idle (.returned false)
  | begin : Local s .idle .begun
  | stopped (h : s.stopping = true) : Local s .entered .doneLock
  | go (h : s.stopping = false) : Local s .entered .makeDir
  | makeDir : Local s .makeDir .lockActive
  | noDir : Local s .makeDir .doneLock
  | placeModule : Local s .placeModule .unlinkOut
  | noModule : Local s .placeModule .doneLock
  /-- `run_in_prefix` fails before there is a helper. -/
  | noSpawn : Local s .spawn .doneLock
  | pollExited {p} (h : s.waits p .exited) : Local s (.poll p) (.setPgid .take (.reap p false))
  | pollNot {p w} (h : s.waits p w) (hw : w = .running ∨ w = .intr) : Local s (.poll p) (.load p)
  | pollNoChild {p} (h : s.waits p .noChild) : Local s (.poll p) (.setPgid .take .failed)
  | again {p} (h : s.stopping = false) : Local s (.load p) (.poll p)
  /-- Steam is stopping, or the deadline has passed. -/
  | tooLong {p} : Local s (.load p) (.term p s.stopping)
  | graceDone {p i} (h : s.waits p .exited) (hi : i < 50) : Local s (.grace p i false) (.kill9 p)
  | graceMore {p i w} (h : s.waits p w) (hw : w ≠ .exited) (hi : i < 50) :
      Local s (.grace p i false) (.grace p (i + 1) false)
  | graceOver {p i stopping} (h : i = 50 ∨ stopping = true) :
      Local s (.grace p i stopping) (.kill9 p)
  | waitIntr {p killed} (h : s.waits p .intr) : Local s (.waitpid p killed) (.waitpid p killed)
  | waitNoChild {p killed} (h : s.waits p .noChild) :
      Local s (.waitpid p killed) (if killed then .doneLock else .readOut)
  | readOut : Local s .readOut .doneLock

section

variable (callid : Tid → CallId)

/-- The steps of the call that `t` makes. -/
inductive CallStep (t : Tid) (s : State) : Event → State → Prop
  | local {pc} (h : Local s (s.calls t) pc) : CallStep t s .silent (s.goto t pc)
  | lockCall (h : s.calls t = .begun) (hfree : s.callLock = none) :
      CallStep t s .silent
        { s.goto t .entered with callLock := some t, late := Function.update s.late t s.stopping }
  | lockActive (h : s.calls t = .lockActive) (hfree : s.activeLock = none) :
      CallStep t s .silent { s.goto t .nameFiles with activeLock := some (.call t) }
  | nameFiles (h : s.calls t = .nameFiles) :
      CallStep t s .silent
        { s.goto t .unlockActive with activeIn := some (callid t), activeOut := some (callid t) }
  | unlockActive (h : s.calls t = .unlockActive) :
      CallStep t s .silent { s.goto t .placeModule with activeLock := none }
  | unlinkOut (h : s.calls t = .unlinkOut) :
      CallStep t s .silent ((s.goto t .writeIn).setFile (callid t) .output false)
  | writeIn (h : s.calls t = .writeIn) :
      CallStep t s .silent ((s.goto t .spawn).setFile (callid t) .input true)
  /-- A failed write takes the file away again where it can. -/
  | noWrite (h : s.calls t = .writeIn) (there : Bool) :
      CallStep t s .silent ((s.goto t .doneLock).setFile (callid t) .input there)
  | spawn (h : s.calls t = .spawn) {p} (hp : p ≠ 0) (hfree : s.helpers p = none) :
      CallStep t s (.spawn t p)
        { s.goto t (.setPgid .take (.poll p)) with
          helpers := Function.update s.helpers p (some ⟨t, false⟩) }
  | takePgid {next} (h : s.calls t = .setPgid .take next) (hfree : s.pgidLock = none) :
      CallStep t s .silent { s.goto t (.setPgid .write next) with pgidLock := some (.call t) }
  | writePgid {next} (h : s.calls t = .setPgid .write next) :
      CallStep t s .silent { s.goto t (.setPgid .give next) with callPgid := next.value }
  | polls {p} (h : s.calls t = .setPgid .give (.poll p)) :
      CallStep t s .silent { s.goto t (.poll p) with pgidLock := none }
  | waits {p killed} (h : s.calls t = .setPgid .give (.reap p killed)) :
      CallStep t s .silent { s.goto t (.waitpid p killed) with pgidLock := none }
  | fails (h : s.calls t = .setPgid .give .failed) :
      CallStep t s .silent { s.goto t .doneLock with pgidLock := none }
  | term {p stopping} (h : s.calls t = .term p stopping) :
      CallStep t s (.kill p) (s.goto t (.grace p 0 stopping))
  | kill9 {p} (h : s.calls t = .kill9 p) :
      CallStep t s (.kill p) (s.goto t (.setPgid .take (.reap p true)))
  /-- `failed`: the helper was ended or did not exit with 0. -/
  | waitpid {p killed} (h : s.calls t = .waitpid p killed) (hw : s.waits p .exited) (failed : Bool)
      (hfailed : killed = true → failed = true) :
      CallStep t s (.reap t p)
        { s.goto t (if failed then .doneLock else .readOut) with
          helpers := Function.update s.helpers p none }
  | doneLock (h : s.calls t = .doneLock) (hfree : s.activeLock = none) :
      CallStep t s .silent { s.goto t .doneIn with activeLock := some (.call t) }
  | doneIn (h : s.calls t = .doneIn) :
      CallStep t s .silent ((s.goto t .doneOut).setFile (callid t) .input false)
  | doneOut (h : s.calls t = .doneOut) :
      CallStep t s .silent ((s.goto t .doneClear).setFile (callid t) .output false)
  | doneClear (h : s.calls t = .doneClear) :
      CallStep t s .silent { s.goto t .doneUnlockActive with activeIn := none, activeOut := none }
  | doneUnlockActive (h : s.calls t = .doneUnlockActive) :
      CallStep t s .silent { s.goto t .doneUnlock with activeLock := none }
  | doneUnlock (h : s.calls t = .doneUnlock) :
      CallStep t s .silent { s.goto t (.returned true) with callLock := none }

/-- `unlink` of the file a shared name stands for. -/
def State.unlinkActive (s : State) (k : FileKind) : Option CallId → State
  | some c => s.setFile c k false
  | none => s

/-- The steps of `np_ceg_stop`. -/
inductive StopStep (s : State) : Event → State → Prop
  | begin (h : s.stop = .idle) : StopStep s .silent { s with stop := .setFlag }
  | setFlag (h : s.stop = .setFlag) :
      StopStep s .silent { s with stop := .takePgid, stopping := true }
  | takePgid (h : s.stop = .takePgid) (hfree : s.pgidLock = none) :
      StopStep s .silent { s with stop := .readPgid, pgidLock := some .stop }
  | readPgid (h : s.stop = .readPgid) :
      StopStep s .silent
        { s with stop := if s.callPgid > 0 then .killing s.callPgid else .givePgid }
  | kill {p} (h : s.stop = .killing p) : StopStep s (.kill p) { s with stop := .givePgid }
  | givePgid (h : s.stop = .givePgid) :
      StopStep s .silent { s with stop := .takeActive, pgidLock := none }
  | takeActive (h : s.stop = .takeActive) (hfree : s.activeLock = none) :
      StopStep s .silent { s with stop := .unlinkIn, activeLock := some .stop }
  | unlinkIn (h : s.stop = .unlinkIn) :
      StopStep s .silent { s.unlinkActive .input s.activeIn with stop := .unlinkOut }
  | unlinkOut (h : s.stop = .unlinkOut) :
      StopStep s .silent { s.unlinkActive .output s.activeOut with stop := .giveActive }
  | giveActive (h : s.stop = .giveActive) :
      StopStep s .silent { s with stop := .returned, activeLock := none }

/-- What the helpers do meanwhile: they exit, by themselves or by a signal, and until they are
reaped what runs in their group writes and removes the files of its call. -/
inductive HelperStep (s : State) : Event → State → Prop
  | exit {p t} (h : s.helpers p = some ⟨t, false⟩) :
      HelperStep s .silent { s with helpers := Function.update s.helpers p (some ⟨t, true⟩) }
  | file {p h} (hp : s.helpers p = some h) (k : FileKind) (there : Bool) :
      HelperStep s .silent (s.setFile (callid h.owner) k there)

inductive Step (s : State) : Event → State → Prop
  | call {e s'} (t : Tid) (h : CallStep callid t s e s') : Step s e s'
  | stop {e s'} (h : StopStep s e s') : Step s e s'
  | helper {e s'} (h : HelperStep callid s e s') : Step s e s'

/-- Any interleaving. -/
def Run : State → State → Prop := Relation.ReflTransGen fun s s' ↦ ∃ e, Step callid s e s'

end

/-- Nothing has begun; the folder may hold files of an earlier session. -/
structure Initial (s : State) : Prop where
  stopping : s.stopping = false
  callLock : s.callLock = none
  pgidLock : s.pgidLock = none
  activeLock : s.activeLock = none
  callPgid : s.callPgid = 0
  helpers : ∀ p, s.helpers p = none
  calls : ∀ t, s.calls t = .idle
  stop : s.stop = .idle

/-! ## Where a call stands -/

/-- It holds `g_call_lock`. -/
def Pc.holdsCall : Pc → Bool
  | .idle | .begun | .returned _ => false
  | _ => true

/-- It holds `g_pgid_lock`. -/
def Pc.holdsPgid : Pc → Bool
  | .setPgid .write _ | .setPgid .give _ => true
  | _ => false

/-- The helper it spawned and has not reaped. -/
def Pc.helper : Pc → Option Pid
  | .setPgid _ (.poll p) | .setPgid _ (.reap p _) => some p
  | .poll p | .load p | .term p _ | .grace p _ _ | .kill9 p | .waitpid p _ => some p
  | _ => none

/-- The group it has in `g_call_pgid`. -/
def Pc.pgid : Pc → Pid
  | .setPgid .give (.poll p) | .setPgid .take (.reap p _) | .setPgid .write (.reap p _) => p
  | .poll p | .load p | .term p _ | .grace p _ _ | .kill9 p => p
  | _ => 0

/-- It has seen `g_stopping` clear and not spawned yet. -/
def Pc.mayStart : Pc → Bool
  | .makeDir | .lockActive | .nameFiles | .unlockActive | .placeModule | .unlinkOut | .writeIn
  | .spawn => true
  | _ => false

/-- It has removed its file at the end. -/
def Pc.past : FileKind → Pc → Bool
  | .input, .doneOut => true
  | _, .doneClear | _, .doneUnlockActive | _, .doneUnlock | _, .returned true => true
  | _, _ => false

/-- A helper with no `reap` to come. -/
def Pc.gaveUp : Pc → Bool
  | .setPgid _ .failed => true
  | _ => false

def StopPc.holdsPgid : StopPc → Bool
  | .readPgid | .killing _ | .givePgid => true
  | _ => false

theorem Pc.pgid_helper {pc : Pc} {p : Pid} (h : pc.pgid = p) (hp : p ≠ 0) : pc.helper = some p := by
  cases pc with
  | setPgid lock next =>
    cases lock <;> cases next <;> simp_all [Pc.pgid, Pc.helper]
  | poll => exact congrArg some h
  | load => exact congrArg some h
  | term => exact congrArg some h
  | grace => exact congrArg some h
  | kill9 => exact congrArg some h
  | _ => exact absurd h.symm hp

theorem Pc.helper_holdsCall {pc : Pc} {p : Pid} (h : pc.helper = some p) : pc.holdsCall = true := by
  cases pc <;> first | rfl | cases h

theorem Pc.helper_past {pc : Pc} {p : Pid} (h : pc.helper = some p) (k : FileKind) :
    pc.past k = false := by
  cases pc <;> first | (cases k <;> rfl) | cases h

/-! ## The invariant -/

variable {callid : Tid → CallId} {init : CallId → FileKind → Bool} {s s' : State}

/-- What holds between any two steps; `init` are the files of an earlier session. -/
structure Inv (callid : Tid → CallId) (init : CallId → FileKind → Bool) (s : State) : Prop where
  callLock : ∀ t, (s.calls t).holdsCall = true ↔ s.callLock = some t
  pgidLock : ∀ t, (s.calls t).holdsPgid = true ↔ s.pgidLock = some (.call t)
  stopLock : s.stop.holdsPgid = true ↔ s.pgidLock = some .stop
  helpers : ∀ t p, (s.calls t).helper = some p → ∃ e, s.helpers p = some ⟨t, e⟩
  owners : ∀ p h, s.helpers p = some h → (s.calls h.owner).helper = some p
  pgid : ∀ t, (s.calls t).holdsCall = true → s.callPgid = (s.calls t).pgid
  free : s.callLock = none → s.callPgid = 0
  killing : ∀ p, s.stop = .killing p → p = s.callPgid ∧ p ≠ 0
  entered : ∀ t, s.calls t = .entered → s.late t = true → s.stopping = true
  late : ∀ t, (s.calls t).mayStart = true → s.late t = false
  reaps : ∀ t, (s.calls t).gaveUp = false
  files : ∀ c k, s.files c k = true →
    (∃ t, callid t = c ∧ (s.calls t).holdsCall = true ∧ (s.calls t).past k = false) ∨
      (init c k = true ∧ ∀ t, callid t = c → (s.calls t).past k = false)

theorem Initial.inv (h : Initial s) : Inv callid s.files s where
  callLock t := by simp [h.calls, h.callLock, Pc.holdsCall]
  pgidLock t := by simp [h.calls, h.pgidLock, Pc.holdsPgid]
  stopLock := by simp [h.stop, h.pgidLock, StopPc.holdsPgid]
  helpers t p hp := by simp [h.calls, Pc.helper] at hp
  owners p x hp := by simp [h.helpers] at hp
  pgid t ht := by simp [h.calls, Pc.holdsCall] at ht
  free _ := h.callPgid
  killing p hp := by simp [h.stop] at hp
  entered t ht := by simp [h.calls] at ht
  late t ht := by simp [h.calls, Pc.mayStart] at ht
  reaps t := by simp [h.calls, Pc.gaveUp]
  files c k hf := by
    right
    refine ⟨hf, fun t _ ↦ ?_⟩
    rw [h.calls]
    cases k <;> rfl

-- Two calls do not hold the lock, so at most one has a helper.
theorem Inv.helper_unique (h : Inv callid init s) {p p' : Pid} {x x' : Helper}
    (hp : s.helpers p = some x) (hp' : s.helpers p' = some x') : p = p' := by
  have hx := h.owners p x hp
  have hx' := h.owners p' x' hp'
  have hlock := (h.callLock x.owner).mp (Pc.helper_holdsCall hx)
  have hlock' := (h.callLock x'.owner).mp (Pc.helper_holdsCall hx')
  have howner : x.owner = x'.owner := Option.some.inj (hlock.symm.trans hlock')
  rw [howner, hx'] at hx
  exact (Option.some.inj hx).symm

/-- What a step of a call leaves alone, and what it may do to its own place and files. -/
structure Kept (callid : Tid → CallId) (s s' : State) (t : Tid) (pc : Pc) : Prop where
  calls : s'.calls = Function.update s.calls t pc
  stopping : s'.stopping = s.stopping
  callLock : s'.callLock = s.callLock
  pgidLock : s'.pgidLock = s.pgidLock
  callPgid : s'.callPgid = s.callPgid
  helpers : s'.helpers = s.helpers
  late : s'.late = s.late
  stop : s'.stop = s.stop
  files : ∀ c k, s'.files c k = true → s.files c k = true ∨
    (c = callid t ∧ pc.holdsCall = true ∧ pc.past k = false)
  removed : ∀ k, pc.past k = true → (s.calls t).past k = true ∨ s'.files (callid t) k = false

/-- A step between two places that stand the same to the locks and the helper. -/
theorem Inv.kept {t : Tid} {pc : Pc} (h : Inv callid init s) (hk : Kept callid s s' t pc)
    (hcall : pc.holdsCall = (s.calls t).holdsCall) (hpgid : pc.holdsPgid = (s.calls t).holdsPgid)
    (hhelper : pc.helper = (s.calls t).helper) (hgroup : pc.pgid = (s.calls t).pgid)
    (hentered : pc ≠ .entered)
    (hstart : pc.mayStart = true → (s.calls t).mayStart = true ∨
      (s.calls t = .entered ∧ s.stopping = false))
    (hgive : pc.gaveUp = false) : Inv callid init s' := by
  have hother : ∀ u, u ≠ t → s'.calls u = s.calls u := by
    intro u hu
    rw [hk.calls, Function.update_of_ne hu]
  have hself : s'.calls t = pc := by rw [hk.calls, Function.update_self]
  have hcalls : ∀ u, (s'.calls u).holdsCall = (s.calls u).holdsCall ∧
      (s'.calls u).holdsPgid = (s.calls u).holdsPgid ∧
      (s'.calls u).helper = (s.calls u).helper ∧ (s'.calls u).pgid = (s.calls u).pgid := by
    intro u
    by_cases hu : u = t
    · rw [hu, hself]
      exact ⟨hcall, hpgid, hhelper, hgroup⟩
    · rw [hother u hu]
      exact ⟨rfl, rfl, rfl, rfl⟩
  refine ⟨?_, ?_, ?_, ?_, ?_, ?_, ?_, ?_, ?_, ?_, ?_, ?_⟩
  · intro u
    rw [(hcalls u).1, hk.callLock]
    exact h.callLock u
  · intro u
    rw [(hcalls u).2.1, hk.pgidLock]
    exact h.pgidLock u
  · rw [hk.stop, hk.pgidLock]
    exact h.stopLock
  · intro u p hp
    rw [(hcalls u).2.2.1] at hp
    rw [hk.helpers]
    exact h.helpers u p hp
  · intro p x hx
    rw [hk.helpers] at hx
    rw [(hcalls x.owner).2.2.1]
    exact h.owners p x hx
  · intro u hu
    rw [(hcalls u).1] at hu
    rw [(hcalls u).2.2.2, hk.callPgid]
    exact h.pgid u hu
  · intro hfree
    rw [hk.callLock] at hfree
    rw [hk.callPgid]
    exact h.free hfree
  · intro p hp
    rw [hk.stop] at hp
    rw [hk.callPgid]
    exact h.killing p hp
  · intro u hu hlate
    rw [hk.late] at hlate
    rw [hk.stopping]
    by_cases hut : u = t
    · rw [hut, hself] at hu
      exact absurd hu hentered
    · rw [hother u hut] at hu
      exact h.entered u hu hlate
  · intro u hu
    rw [hk.late]
    by_cases hut : u = t
    · rw [hut, hself] at hu
      rcases hstart hu with hbefore | ⟨hent, hstop⟩
      · rw [hut]
        exact h.late t hbefore
      · rw [hut]
        by_contra hlate
        have hset := h.entered t hent (by simpa using hlate)
        rw [hstop] at hset
        cases hset
    · rw [hother u hut] at hu
      exact h.late u hu
  · intro u
    by_cases hut : u = t
    · rw [hut, hself]
      exact hgive
    · rw [hother u hut]
      exact h.reaps u
  · intro c k hfile
    -- The call's own file is there only while the call is not past it.
    have hpast : ∀ u, callid u = c → (s.calls u).past k = false → (s'.calls u).past k = false := by
      intro u hu hbefore
      by_cases hut : u = t
      · rw [hut, hself]
        rw [hut] at hu hbefore
        by_contra hnow
        rcases hk.removed k (by simpa using hnow) with hr | hr
        · rw [hbefore] at hr
          cases hr
        · rw [hu, hfile] at hr
          cases hr
      · rw [hother u hut]
        exact hbefore
    rcases hk.files c k hfile with hold | ⟨rfl, hholds, hnot⟩
    · rcases h.files c k hold with ⟨u, hu, hholds, hnot⟩ | ⟨hinit, hall⟩
      · exact Or.inl ⟨u, hu, by rw [(hcalls u).1]; exact hholds, hpast u hu hnot⟩
      · exact Or.inr ⟨hinit, fun u hu ↦ hpast u hu (hall u hu)⟩
    · exact Or.inl ⟨t, rfl, by rw [hself]; exact hholds, by rw [hself]; exact hnot⟩

/-! ## The steps of a call -/

theorem Local.same {pc pc' : Pc} (hl : Local s pc pc')
    (hchild : ∀ p, pc.helper = some p → s.helpers p ≠ none) :
    (pc'.holdsCall = pc.holdsCall ∧ pc'.holdsPgid = pc.holdsPgid ∧ pc'.helper = pc.helper ∧
      pc'.pgid = pc.pgid) ∧ pc' ≠ .entered ∧
    (pc'.mayStart = true → pc.mayStart = true ∨ (pc = .entered ∧ s.stopping = false)) ∧
    pc'.gaveUp = false ∧ ∀ k, pc'.past k = false := by
  cases hl with
  | go h => exact ⟨⟨rfl, rfl, rfl, rfl⟩, nofun, fun _ ↦ Or.inr ⟨rfl, h⟩, rfl, fun k ↦ by cases k <;> rfl⟩
  | makeDir => exact ⟨⟨rfl, rfl, rfl, rfl⟩, nofun, fun _ ↦ Or.inl rfl, rfl, fun k ↦ by cases k <;> rfl⟩
  | placeModule =>
    exact ⟨⟨rfl, rfl, rfl, rfl⟩, nofun, fun _ ↦ Or.inl rfl, rfl, fun k ↦ by cases k <;> rfl⟩
  -- The child is the call's own and nobody else reaps it.
  | pollNoChild h => exact absurd h (hchild _ rfl)
  | waitNoChild h => exact absurd h (hchild _ rfl)
  | _ => exact ⟨⟨rfl, rfl, rfl, rfl⟩, nofun, nofun, rfl, fun k ↦ by cases k <;> rfl⟩

theorem Inv.local {t : Tid} {pc : Pc} (h : Inv callid init s) (hl : Local s (s.calls t) pc) :
    Inv callid init (s.goto t pc) := by
  have hchild : ∀ p, (s.calls t).helper = some p → s.helpers p ≠ none := by
    intro p hp hnone
    obtain ⟨e, he⟩ := h.helpers t p hp
    rw [hnone] at he
    cases he
  obtain ⟨⟨hcall, hpgid, hhelper, hgroup⟩, hentered, hstart, hgive, hpast⟩ := hl.same hchild
  refine h.kept ?_ hcall hpgid hhelper hgroup hentered hstart hgive
  refine ⟨rfl, rfl, rfl, rfl, rfl, rfl, rfl, rfl, fun c k hf ↦ Or.inl hf, fun k hk ↦ ?_⟩
  rw [hpast] at hk
  cases hk

-- A step that touches the active names and their lock at most, or one of the call's files.
theorem Inv.move {t : Tid} {pc pc' : Pc} (h : Inv callid init s) (hpc : s.calls t = pc)
    (hk : Kept callid s s' t pc') (hsame : pc'.holdsCall = pc.holdsCall ∧
      pc'.holdsPgid = pc.holdsPgid ∧ pc'.helper = pc.helper ∧ pc'.pgid = pc.pgid)
    (hentered : pc' ≠ .entered) (hstart : pc'.mayStart = true → pc.mayStart = true)
    (hgive : pc'.gaveUp = false) : Inv callid init s' := by
  obtain ⟨hcall, hpgid, hhelper, hgroup⟩ := hsame
  rw [← hpc] at hcall hpgid hhelper hgroup hstart
  exact h.kept hk hcall hpgid hhelper hgroup hentered (fun hs ↦ Or.inl (hstart hs)) hgive

theorem kept_of_files {t : Tid} {pc : Pc} (s' : State)
    (hs' : s' = { s.goto t pc with
      activeLock := s'.activeLock, activeIn := s'.activeIn, activeOut := s'.activeOut })
    (hpast : ∀ k, pc.past k = true → (s.calls t).past k = true) : Kept callid s s' t pc := by
  rw [hs']
  exact ⟨rfl, rfl, rfl, rfl, rfl, rfl, rfl, rfl, fun c k hf ↦ Or.inl hf, fun k hk ↦ Or.inl (hpast k hk)⟩

theorem setFile_files (s : State) (c c' : CallId) (k k' : FileKind) (there : Bool) :
    (s.setFile c k there).files c' k' =
      if c' = c ∧ k' = k then there else s.files c' k' := by
  by_cases hc : c' = c
  · by_cases hk : k' = k
    · simp [State.setFile, hc, hk]
    · simp [State.setFile, hc, hk]
  · simp [State.setFile, hc]

theorem kept_setFile {t : Tid} {pc : Pc} {k : FileKind} {there : Bool}
    (hthere : there = true → pc.holdsCall = true ∧ pc.past k = false)
    (hpast : ∀ k', pc.past k' = true → (s.calls t).past k' = true ∨ (k' = k ∧ there = false)) :
    Kept callid s ((s.goto t pc).setFile (callid t) k there) t pc := by
  refine ⟨rfl, rfl, rfl, rfl, rfl, rfl, rfl, rfl, fun c k' hf ↦ ?_, fun k' hk' ↦ ?_⟩
  · rw [setFile_files] at hf
    split at hf
    next hc =>
      obtain ⟨rfl, rfl⟩ := hc
      exact Or.inr ⟨rfl, hthere hf⟩
    next => exact Or.inl hf
  · refine (hpast k' hk').imp id ?_
    rintro ⟨rfl, hgone⟩
    rw [setFile_files, if_pos ⟨rfl, rfl⟩, hgone]

theorem Inv.lockCall {t : Tid} (h : Inv callid init s) (hpc : s.calls t = .begun)
    (hfree : s.callLock = none) :
    Inv callid init
      { s.goto t .entered with callLock := some t, late := Function.update s.late t s.stopping } := by
  have hself : (Function.update s.calls t .entered) t = Pc.entered := Function.update_self ..
  have hother : ∀ u, u ≠ t → (Function.update s.calls t Pc.entered) u = s.calls u := by
    intro u hu
    exact Function.update_of_ne hu ..
  -- With `g_call_lock` free nobody is past it, and the fields say nothing of other calls.
  have hidle : ∀ u, (s.calls u).holdsCall = false := by
    intro u
    by_contra hholds
    have := (h.callLock u).mp (by simpa using hholds)
    rw [hfree] at this
    cases this
  refine ⟨?_, ?_, h.stopLock, ?_, ?_, ?_, nofun, h.killing, ?_, ?_, ?_, ?_⟩
  · intro u
    change ((Function.update s.calls t .entered) u).holdsCall = true ↔ some t = some u
    by_cases hu : u = t
    · rw [hu, hself]
      exact ⟨fun _ ↦ rfl, fun _ ↦ rfl⟩
    · rw [hother u hu, hidle u]
      constructor
      · intro hf
        cases hf
      · intro heq
        exact absurd (Option.some.inj heq).symm hu
  · intro u
    change ((Function.update s.calls t .entered) u).holdsPgid = true ↔ _
    by_cases hu : u = t
    · have hold := h.pgidLock u
      rw [hu, hself]
      rw [hu, hpc] at hold
      exact hold
    · rw [hother u hu]
      exact h.pgidLock u
  · intro u p hp
    change ((Function.update s.calls t .entered) u).helper = some p at hp
    by_cases hu : u = t
    · rw [hu, hself] at hp
      cases hp
    · rw [hother u hu] at hp
      exact h.helpers u p hp
  · intro p x hx
    have hown := h.owners p x hx
    have hholds := Pc.helper_holdsCall hown
    rw [hidle] at hholds
    cases hholds
  · intro u hu
    change s.callPgid = ((Function.update s.calls t .entered) u).pgid
    change ((Function.update s.calls t .entered) u).holdsCall = true at hu
    by_cases hut : u = t
    · rw [hut, hself]
      exact h.free hfree
    · rw [hother u hut, hidle u] at hu
      cases hu
  · intro u hu hlate
    change (Function.update s.calls t .entered) u = .entered at hu
    by_cases hut : u = t
    · change (Function.update s.late t s.stopping) u = true at hlate
      rw [hut, Function.update_self] at hlate
      exact hlate
    · rw [hother u hut] at hu
      have hholds := hidle u
      rw [hu] at hholds
      cases hholds
  · intro u hu
    change ((Function.update s.calls t .entered) u).mayStart = true at hu
    by_cases hut : u = t
    · rw [hut, hself] at hu
      cases hu
    · rw [hother u hut] at hu
      change (Function.update s.late t s.stopping) u = false
      rw [Function.update_of_ne hut]
      exact h.late u hu
  · intro u
    change ((Function.update s.calls t .entered) u).gaveUp = false
    by_cases hut : u = t
    · rw [hut, hself]
      rfl
    · rw [hother u hut]
      exact h.reaps u
  · intro c k hf
    -- A file of a call in flight would be a holder's.
    rcases h.files c k hf with ⟨u, -, hholds, -⟩ | ⟨hinit, hall⟩
    · rw [hidle u] at hholds
      cases hholds
    · right
      refine ⟨hinit, fun u hu ↦ ?_⟩
      change ((Function.update s.calls t .entered) u).past k = false
      by_cases hut : u = t
      · rw [hut, hself]
        cases k <;> rfl
      · rw [hother u hut]
        exact hall u hu

theorem forall_goto (s : State) (t : Tid) (pc : Pc) (p : Tid → Pc → Prop) :
    (∀ u, p u ((s.goto t pc).calls u)) ↔ p t pc ∧ ∀ u, u ≠ t → p u (s.calls u) :=
  Function.forall_update_iff ..

theorem Inv.holder (h : Inv callid init s) {t u : Tid} (ht : (s.calls t).holdsCall = true)
    (hu : (s.calls u).holdsCall = true) : u = t :=
  Option.some.inj (((h.callLock u).mp hu).symm.trans ((h.callLock t).mp ht))

theorem Inv.doneUnlock {t : Tid} (h : Inv callid init s) (hpc : s.calls t = .doneUnlock) :
    Inv callid init { s.goto t (.returned true) with callLock := none } := by
  have ht : (s.calls t).holdsCall = true := by rw [hpc]; rfl
  -- The call is the only holder, so after it there is none.
  have hidle : ∀ u, u ≠ t → (s.calls u).holdsCall = false := by
    intro u hu
    by_contra hholds
    exact hu (h.holder ht (by simpa using hholds))
  have hnone : ∀ u, ((Function.update s.calls t (.returned true)) u).holdsCall = false :=
    (forall_goto s t (.returned true) fun _ pc ↦ pc.holdsCall = false).mpr ⟨rfl, hidle⟩
  refine ⟨?_, ?_, h.stopLock, ?_, ?_, ?_, ?_, h.killing, ?_, ?_, ?_, ?_⟩
  · intro u
    constructor
    · intro hu
      exact absurd hu (by rw [Bool.not_eq_true]; exact hnone u)
    · nofun
  · apply (forall_goto s t (.returned true) fun u pc ↦
      pc.holdsPgid = true ↔ s.pgidLock = some (.call u)).mpr
    have hold := h.pgidLock t
    rw [hpc] at hold
    exact ⟨hold, fun u _ ↦ h.pgidLock u⟩
  · apply (forall_goto s t (.returned true) fun u pc ↦
      ∀ p, pc.helper = some p → ∃ e, s.helpers p = some ⟨u, e⟩).mpr
    exact ⟨nofun, fun u _ ↦ h.helpers u⟩
  · intro p x hx
    have hown := h.owners p x hx
    have hut : x.owner ≠ t := by
      intro heq
      rw [heq, hpc] at hown
      cases hown
    change ((Function.update s.calls t (.returned true)) x.owner).helper = some p
    rw [Function.update_of_ne hut]
    exact hown
  · intro u hu
    exact absurd hu (by rw [Bool.not_eq_true]; exact hnone u)
  · intro _
    have hgroup := h.pgid t ht
    rw [hpc] at hgroup
    exact hgroup
  · apply (forall_goto s t (.returned true) fun u pc ↦
      pc = .entered → s.late u = true → s.stopping = true).mpr
    exact ⟨nofun, fun u _ ↦ h.entered u⟩
  · apply (forall_goto s t (.returned true) fun u pc ↦ pc.mayStart = true → s.late u = false).mpr
    exact ⟨nofun, fun u _ ↦ h.late u⟩
  · apply (forall_goto s t (.returned true) fun _ pc ↦ pc.gaveUp = false).mpr
    exact ⟨rfl, fun u _ ↦ h.reaps u⟩
  · intro c k hf
    right
    -- It has unlinked both of its files by now.
    rcases h.files c k hf with ⟨u, -, hholds, hnot⟩ | ⟨hinit, hall⟩
    · rw [h.holder ht hholds, hpc] at hnot
      cases k <;> cases hnot
    · refine ⟨hinit, ?_⟩
      apply (forall_goto s t (.returned true) fun u pc ↦ callid u = c → pc.past k = false).mpr
      refine ⟨fun hu ↦ ?_, fun u _ ↦ hall u⟩
      have hnot := hall t hu
      rw [hpc] at hnot
      cases k <;> cases hnot

/-- A step of a call that has a helper, under `g_pgid_lock` or taking or giving it back. -/
theorem Inv.inSection {t : Tid} {p group : Pid} {pc : Pc} {lock : Option Thread}
    (h : Inv callid init s) (hold : (s.calls t).helper = some p) (hpc : pc.helper = some p)
    (hstart : pc.mayStart = false) (hentered : pc ≠ .entered) (hgive : pc.gaveUp = false)
    (hself : pc.holdsPgid = true ↔ lock = some (.call t))
    (hother : ∀ u, u ≠ t → ((s.calls u).holdsPgid = true ↔ lock = some (.call u)))
    (hstop : s.stop.holdsPgid = true ↔ lock = some .stop) (hgroup : group = pc.pgid)
    (hkill : ∀ q, s.stop = .killing q → q = group ∧ q ≠ 0) :
    Inv callid init { s.goto t pc with pgidLock := lock, callPgid := group } := by
  have ht := Pc.helper_holdsCall hold
  refine ⟨?_, ?_, hstop, ?_, ?_, ?_, ?_, hkill, ?_, ?_, ?_, ?_⟩
  · apply (forall_goto s t pc fun u pc ↦
      pc.holdsCall = true ↔ s.callLock = some u).mpr
    refine ⟨?_, fun u _ ↦ h.callLock u⟩
    rw [Pc.helper_holdsCall hpc, ← h.callLock t, ht]
  · exact (forall_goto s t pc fun u pc ↦
      pc.holdsPgid = true ↔ lock = some (.call u)).mpr ⟨hself, hother⟩
  · apply (forall_goto s t pc fun u pc ↦
      ∀ q, pc.helper = some q → ∃ e, s.helpers q = some ⟨u, e⟩).mpr
    refine ⟨fun q hq ↦ ?_, fun u _ ↦ h.helpers u⟩
    apply h.helpers t q
    rw [hold, ← hpc]
    exact hq
  · intro q x hx
    change ((Function.update s.calls t pc) x.owner).helper = some q
    have hown := h.owners q x hx
    by_cases hu : x.owner = t
    · rw [hu, hold] at hown
      rw [hu, Function.update_self, hpc, hown]
    · rw [Function.update_of_ne hu]
      exact hown
  · apply (forall_goto s t pc fun u pc ↦ pc.holdsCall = true → group = pc.pgid).mpr
    refine ⟨fun _ ↦ hgroup, fun u hu hholds ↦ ?_⟩
    exact absurd (h.holder ht hholds) hu
  · intro hfree
    have hlock := (h.callLock t).mp ht
    rw [show s.callLock = none from hfree] at hlock
    cases hlock
  · apply (forall_goto s t pc fun u pc ↦
      pc = .entered → s.late u = true → s.stopping = true).mpr
    exact ⟨fun he ↦ absurd he hentered, fun u _ ↦ h.entered u⟩
  · apply (forall_goto s t pc fun u pc ↦ pc.mayStart = true → s.late u = false).mpr
    refine ⟨fun hs ↦ ?_, fun u _ ↦ h.late u⟩
    rw [hstart] at hs
    cases hs
  · apply (forall_goto s t pc fun _ pc ↦ pc.gaveUp = false).mpr
    exact ⟨hgive, fun u _ ↦ h.reaps u⟩
  · intro c k hf
    -- A call with a helper has unlinked nothing yet.
    rcases h.files c k hf with ⟨u, hu, hholds, -⟩ | ⟨hinit, hall⟩
    · left
      obtain rfl := h.holder ht hholds
      refine ⟨u, hu, ?_, ?_⟩
      · change ((Function.update s.calls u pc) u).holdsCall = true
        rw [Function.update_self]
        exact Pc.helper_holdsCall hpc
      · change ((Function.update s.calls u pc) u).past k = false
        rw [Function.update_self]
        exact Pc.helper_past hpc k
    · right
      refine ⟨hinit, ?_⟩
      apply (forall_goto s t pc fun u pc ↦ callid u = c → pc.past k = false).mpr
      exact ⟨fun _ ↦ Pc.helper_past hpc k, fun u _ ↦ hall u⟩

/-- A step that makes the call's helper or ends it. -/
theorem Inv.child {t : Tid} {p : Pid} {pc : Pc} {x : Option Helper} (h : Inv callid init s)
    (ht : (s.calls t).holdsCall = true) (hpc : pc.holdsCall = true)
    (howner : ∀ y, x = some y → y.owner = t)
    (hhelper : ∀ q, pc.helper = some q ↔ (q = p ∧ x ≠ none))
    (hother : ∀ q y, q ≠ p → s.helpers q = some y → y.owner ≠ t)
    (hpgid : pc.holdsPgid = (s.calls t).holdsPgid) (hgroup : pc.pgid = (s.calls t).pgid)
    (hstart : pc.mayStart = false) (hentered : pc ≠ .entered) (hgive : pc.gaveUp = false)
    (hpast : ∀ k, pc.past k = false) :
    Inv callid init { s.goto t pc with helpers := Function.update s.helpers p x } := by
  refine ⟨?_, ?_, h.stopLock, ?_, ?_, ?_, h.free, h.killing, ?_, ?_, ?_, ?_⟩
  · apply (forall_goto s t pc fun u pc ↦
      pc.holdsCall = true ↔ s.callLock = some u).mpr
    refine ⟨?_, fun u _ ↦ h.callLock u⟩
    rw [hpc, ← h.callLock t, ht]
  · apply (forall_goto s t pc fun u pc ↦
      pc.holdsPgid = true ↔ s.pgidLock = some (.call u)).mpr
    refine ⟨?_, fun u _ ↦ h.pgidLock u⟩
    rw [hpgid]
    exact h.pgidLock t
  · apply (forall_goto s t pc fun u pc ↦
      ∀ q, pc.helper = some q → ∃ e, (Function.update s.helpers p x) q = some ⟨u, e⟩).mpr
    -- Only the holder of `g_call_lock` has a helper.
    refine ⟨fun q hq ↦ ?_, fun u hu q hq ↦ ?_⟩
    · obtain ⟨rfl, hx⟩ := (hhelper q).mp hq
      obtain ⟨y, hy⟩ := Option.ne_none_iff_exists'.mp hx
      refine ⟨y.exited, ?_⟩
      rw [Function.update_self, hy, ← howner y hy]
    · exact absurd (h.holder ht (Pc.helper_holdsCall hq)) hu
  · intro q y hy
    change ((Function.update s.calls t pc) y.owner).helper = some q
    change (Function.update s.helpers p x) q = some y at hy
    by_cases hq : q = p
    · rw [hq, Function.update_self] at hy
      rw [howner y hy, Function.update_self, hhelper, hy]
      exact ⟨hq, nofun⟩
    · rw [Function.update_of_ne hq] at hy
      rw [Function.update_of_ne (hother q y hq hy)]
      exact h.owners q y hy
  · apply (forall_goto s t pc fun u pc ↦
      pc.holdsCall = true → s.callPgid = pc.pgid).mpr
    refine ⟨fun _ ↦ ?_, fun u _ ↦ h.pgid u⟩
    rw [hgroup]
    exact h.pgid t ht
  · apply (forall_goto s t pc fun u pc ↦
      pc = .entered → s.late u = true → s.stopping = true).mpr
    exact ⟨fun he ↦ absurd he hentered, fun u _ ↦ h.entered u⟩
  · apply (forall_goto s t pc fun u pc ↦ pc.mayStart = true → s.late u = false).mpr
    refine ⟨fun hs ↦ ?_, fun u _ ↦ h.late u⟩
    rw [hstart] at hs
    cases hs
  · apply (forall_goto s t pc fun _ pc ↦ pc.gaveUp = false).mpr
    exact ⟨hgive, fun u _ ↦ h.reaps u⟩
  · intro c k hf
    rcases h.files c k hf with ⟨u, hu, hholds, -⟩ | ⟨hinit, hall⟩
    · left
      obtain rfl := h.holder ht hholds
      refine ⟨u, hu, ?_, ?_⟩
      · change ((Function.update s.calls u pc) u).holdsCall = true
        rw [Function.update_self]
        exact hpc
      · change ((Function.update s.calls u pc) u).past k = false
        rw [Function.update_self]
        exact hpast k
    · right
      refine ⟨hinit, ?_⟩
      apply (forall_goto s t pc fun u pc ↦ callid u = c → pc.past k = false).mpr
      exact ⟨fun _ ↦ hpast k, fun u _ ↦ hall u⟩

/-- Every step of a call keeps the invariant. -/
theorem Inv.call {t : Tid} {e : Event} (h : Inv callid init s) (hstep : CallStep callid t s e s') :
    Inv callid init s' := by
  -- What giving `g_pgid_lock` back leaves of the fields about it.
  have hno : ∀ u, s.pgidLock = some (.call t) → u ≠ t →
      ((s.calls u).holdsPgid = true ↔ (none : Option Thread) = some (.call u)) := by
    intro u hlock hu
    rw [h.pgidLock u, hlock]
    constructor
    · intro heq
      exact absurd (Thread.call.inj (Option.some.inj heq)).symm hu
    · nofun
  have hnoStop : s.pgidLock = some (.call t) →
      (s.stop.holdsPgid = true ↔ (none : Option Thread) = some .stop) := by
    intro hlock
    rw [h.stopLock, hlock]
    constructor <;> nofun
  have hlocked : (s.calls t).holdsPgid = true → s.pgidLock = some (.call t) := (h.pgidLock t).mp
  have hgroup : (s.calls t).holdsCall = true → s.callPgid = (s.calls t).pgid := h.pgid t
  have hreaps := h.reaps t
  cases hstep with
  | «local» hl => exact h.local hl
  | lockCall hpc hfree => exact h.lockCall hpc hfree
  | lockActive hpc =>
    exact h.move hpc (kept_of_files _ rfl fun k hk ↦ by cases k <;> cases hk)
      ⟨rfl, rfl, rfl, rfl⟩ nofun (fun _ ↦ rfl) rfl
  | nameFiles hpc =>
    exact h.move hpc (kept_of_files _ rfl fun k hk ↦ by cases k <;> cases hk)
      ⟨rfl, rfl, rfl, rfl⟩ nofun (fun _ ↦ rfl) rfl
  | unlockActive hpc =>
    exact h.move hpc (kept_of_files _ rfl fun k hk ↦ by cases k <;> cases hk)
      ⟨rfl, rfl, rfl, rfl⟩ nofun (fun _ ↦ rfl) rfl
  | unlinkOut hpc =>
    exact h.move hpc (kept_setFile nofun fun k hk ↦ by cases k <;> cases hk)
      ⟨rfl, rfl, rfl, rfl⟩ nofun (fun _ ↦ rfl) rfl
  | writeIn hpc =>
    exact h.move hpc (kept_setFile (fun _ ↦ ⟨rfl, rfl⟩) fun k hk ↦ by cases k <;> cases hk)
      ⟨rfl, rfl, rfl, rfl⟩ nofun (fun _ ↦ rfl) rfl
  | noWrite hpc there =>
    exact h.move hpc (kept_setFile (fun _ ↦ ⟨rfl, rfl⟩) fun k hk ↦ by cases k <;> cases hk)
      ⟨rfl, rfl, rfl, rfl⟩ nofun nofun rfl
  -- The helper is new, and no helper of this call was there.
  | @spawn hpc p hp hfree =>
    have ht : (s.calls t).holdsCall = true := by rw [hpc]; rfl
    refine h.child ht rfl ?_ ?_ ?_ (by rw [hpc]; rfl) (by rw [hpc]; rfl) rfl nofun rfl
      fun k ↦ by cases k <;> rfl
    · intro y hy
      rw [← Option.some.inj hy]
    · intro q
      constructor
      · intro hq
        exact ⟨(Option.some.inj hq).symm, nofun⟩
      · rintro ⟨rfl, -⟩
        rfl
    · intro q y _ hy heq
      have hown := h.owners q y hy
      rw [heq, hpc] at hown
      cases hown
  -- Into the section: for the pid, for a look whether the helper ended, or to reap it.
  | @takePgid next hpc hfree =>
    have hnone : ∀ u, u ≠ t →
        ((s.calls u).holdsPgid = true ↔ some (Thread.call t) = some (.call u)) := by
      intro u hu
      rw [h.pgidLock u, hfree]
      constructor
      · nofun
      · intro heq
        exact absurd (Thread.call.inj (Option.some.inj heq)).symm hu
    have hstop : s.stop.holdsPgid = true ↔ some (Thread.call t) = some .stop := by
      rw [h.stopLock, hfree]
      constructor <;> nofun
    rw [hpc] at hgroup hreaps
    cases next with
    | failed => cases hreaps
    | poll p =>
      exact h.inSection (by rw [hpc]; rfl) rfl rfl nofun rfl ⟨fun _ ↦ rfl, fun _ ↦ rfl⟩ hnone hstop
        (hgroup rfl) h.killing
    | reap p killed =>
      exact h.inSection (by rw [hpc]; rfl) rfl rfl nofun rfl ⟨fun _ ↦ rfl, fun _ ↦ rfl⟩ hnone hstop
        (hgroup rfl) h.killing
  | @writePgid next hpc =>
    have hlock : s.pgidLock = some (.call t) := hlocked (by rw [hpc]; rfl)
    have hkill : ∀ q, s.stop = .killing q → q = next.value ∧ q ≠ 0 := by
      intro q hq
      have hstop := h.stopLock.mp (by rw [hq]; rfl)
      rw [hlock] at hstop
      cases hstop
    have hself : (true = true) ↔ s.pgidLock = some (.call t) := ⟨fun _ ↦ hlock, fun _ ↦ rfl⟩
    rw [hpc] at hreaps
    cases next with
    | failed => cases hreaps
    | poll p =>
      exact h.inSection (by rw [hpc]; rfl) rfl rfl nofun rfl hself (fun u _ ↦ h.pgidLock u)
        h.stopLock rfl hkill
    | reap p killed =>
      exact h.inSection (by rw [hpc]; rfl) rfl rfl nofun rfl hself (fun u _ ↦ h.pgidLock u)
        h.stopLock rfl hkill
  | polls hpc =>
    have hlock : s.pgidLock = some (.call t) := hlocked (by rw [hpc]; rfl)
    rw [hpc] at hgroup
    exact h.inSection (by rw [hpc]; rfl) rfl rfl nofun rfl ⟨nofun, nofun⟩
      (fun u ↦ hno u hlock) (hnoStop hlock) (hgroup rfl) h.killing
  | waits hpc =>
    have hlock : s.pgidLock = some (.call t) := hlocked (by rw [hpc]; rfl)
    rw [hpc] at hgroup
    exact h.inSection (by rw [hpc]; rfl) rfl rfl nofun rfl ⟨nofun, nofun⟩
      (fun u ↦ hno u hlock) (hnoStop hlock) (hgroup rfl) h.killing
  | fails hpc =>
    rw [hpc] at hreaps
    cases hreaps
  | term hpc =>
    exact h.move hpc (kept_of_files _ rfl fun k hk ↦ by cases k <;> cases hk)
      ⟨rfl, rfl, rfl, rfl⟩ nofun nofun rfl
  | kill9 hpc =>
    exact h.move hpc (kept_of_files _ rfl fun k hk ↦ by cases k <;> cases hk)
      ⟨rfl, rfl, rfl, rfl⟩ nofun nofun rfl
  -- The helper goes, reaped or not, and the call keeps `g_call_lock`.
  | @waitpid p killed hpc hw failed hfailed =>
    have ht : (s.calls t).holdsCall = true := by rw [hpc]; rfl
    have hothers : ∀ q y, q ≠ p → s.helpers q = some y → y.owner ≠ t := by
      intro q y hq hy heq
      have hown := h.owners q y hy
      rw [heq, hpc] at hown
      exact hq (Option.some.inj hown).symm
    have hnone : ∀ q, (none : Option Pid) = some q ↔ q = p ∧ (none : Option Helper) ≠ none :=
      fun q ↦ ⟨nofun, fun hq ↦ absurd rfl hq.2⟩
    cases failed with
    | true =>
      exact h.child ht rfl nofun hnone hothers (by rw [hpc]; rfl) (by rw [hpc]; rfl) rfl nofun rfl
        fun k ↦ by cases k <;> rfl
    | false =>
      exact h.child ht rfl nofun hnone hothers (by rw [hpc]; rfl) (by rw [hpc]; rfl) rfl nofun rfl
        fun k ↦ by cases k <;> rfl
  | doneLock hpc =>
    exact h.move hpc (kept_of_files _ rfl fun k hk ↦ by cases k <;> cases hk)
      ⟨rfl, rfl, rfl, rfl⟩ nofun nofun rfl
  -- The files go one after the other, the input first.
  | doneIn hpc =>
    refine h.move hpc (kept_setFile nofun fun k hk ↦ ?_) ⟨rfl, rfl, rfl, rfl⟩ nofun nofun rfl
    cases k with
    | input => exact Or.inr ⟨rfl, rfl⟩
    | output => cases hk
  | doneOut hpc =>
    refine h.move hpc (kept_setFile nofun fun k hk ↦ ?_) ⟨rfl, rfl, rfl, rfl⟩ nofun nofun rfl
    cases k with
    | input =>
      left
      rw [hpc]
      rfl
    | output => exact Or.inr ⟨rfl, rfl⟩
  | doneClear hpc =>
    exact h.move hpc (kept_of_files _ rfl fun k _ ↦ by rw [hpc]; cases k <;> rfl)
      ⟨rfl, rfl, rfl, rfl⟩ nofun nofun rfl
  | doneUnlockActive hpc =>
    exact h.move hpc (kept_of_files _ rfl fun k _ ↦ by rw [hpc]; cases k <;> rfl)
      ⟨rfl, rfl, rfl, rfl⟩ nofun nofun rfl
  | doneUnlock hpc => exact h.doneUnlock hpc

/-! ## The other steps -/

-- A step that leaves the calls and what they hold alone.
theorem Inv.aside (h : Inv callid init s) {stop : StopPc} {stopping : Bool} {lock : Option Thread}
    {files : CallId → FileKind → Bool} (active : Option Thread)
    (hcalls : ∀ t, s.pgidLock = some (.call t) ↔ lock = some (.call t))
    (hstop : stop.holdsPgid = true ↔ lock = some .stop)
    (hkill : ∀ p, stop = .killing p → p = s.callPgid ∧ p ≠ 0)
    (hstopping : s.stopping = true → stopping = true)
    (hfiles : ∀ c k, files c k = true → s.files c k = true) :
    Inv callid init
      { s with
        stop := stop, stopping := stopping, pgidLock := lock, activeLock := active
        files := files } where
  callLock := h.callLock
  pgidLock t := (h.pgidLock t).trans (hcalls t)
  stopLock := hstop
  helpers := h.helpers
  owners := h.owners
  pgid := h.pgid
  free := h.free
  killing := hkill
  entered t ht hlate := hstopping (h.entered t ht hlate)
  late := h.late
  reaps := h.reaps
  files c k hf := h.files c k (hfiles c k hf)

theorem unlinkActive_eq (s : State) (k : FileKind) (c : Option CallId) :
    ∃ files, s.unlinkActive k c = { s with files := files } ∧
      ∀ c' k', files c' k' = true → s.files c' k' = true := by
  cases c with
  | none => exact ⟨s.files, rfl, fun _ _ hf ↦ hf⟩
  | some c =>
    refine ⟨(s.setFile c k false).files, rfl, fun c' k' hf ↦ ?_⟩
    rw [setFile_files] at hf
    split at hf
    · cases hf
    · exact hf

theorem Inv.stopStep {e : Event} (h : Inv callid init s) (hstep : StopStep s e s') :
    Inv callid init s' := by
  have hsame : s.stop.holdsPgid = false → (false = true ↔ s.pgidLock = some .stop) := by
    intro hno
    rw [← h.stopLock, hno]
  have hgive : s.pgidLock = some .stop → ∀ t, s.pgidLock = some (.call t) ↔
      (none : Option Thread) = some (.call t) := by
    intro hlock t
    rw [hlock]
    constructor <;> nofun
  -- The stop is no call: it writes the flag, the lock it holds and files that are named.
  cases hstep with
  | begin hpc =>
    exact h.aside s.activeLock (fun _ ↦ Iff.rfl) (hsame (by rw [hpc]; rfl)) nofun id fun _ _ hf ↦ hf
  | setFlag hpc =>
    exact h.aside s.activeLock (fun _ ↦ Iff.rfl) (hsame (by rw [hpc]; rfl)) nofun (fun _ ↦ rfl)
      fun _ _ hf ↦ hf
  | takePgid hpc hfree =>
    refine h.aside s.activeLock (fun t ↦ ?_) ⟨fun _ ↦ rfl, fun _ ↦ rfl⟩ nofun id fun _ _ hf ↦ hf
    rw [hfree]
    constructor <;> nofun
  | readPgid hpc =>
    have hlock := h.stopLock.mp (by rw [hpc]; rfl)
    -- It kills the group the calls name, read under the lock.
    by_cases hp : s.callPgid > 0
    · rw [if_pos hp]
      refine h.aside s.activeLock (fun _ ↦ Iff.rfl) ⟨fun _ ↦ hlock, fun _ ↦ rfl⟩ (fun p hkill ↦ ?_)
        id fun _ _ hf ↦ hf
      cases hkill
      exact ⟨rfl, Nat.ne_of_gt hp⟩
    · rw [if_neg hp]
      exact h.aside s.activeLock (fun _ ↦ Iff.rfl) ⟨fun _ ↦ hlock, fun _ ↦ rfl⟩ nofun id
        fun _ _ hf ↦ hf
  | kill hpc =>
    have hlock := h.stopLock.mp (by rw [hpc]; rfl)
    exact h.aside s.activeLock (fun _ ↦ Iff.rfl) ⟨fun _ ↦ hlock, fun _ ↦ rfl⟩ nofun id
      fun _ _ hf ↦ hf
  | givePgid hpc =>
    have hlock := h.stopLock.mp (by rw [hpc]; rfl)
    exact h.aside s.activeLock (hgive hlock) ⟨nofun, nofun⟩ nofun id fun _ _ hf ↦ hf
  | takeActive hpc =>
    exact h.aside (some .stop) (fun _ ↦ Iff.rfl) (hsame (by rw [hpc]; rfl)) nofun id
      fun _ _ hf ↦ hf
  | unlinkIn hpc =>
    obtain ⟨files, heq, hfiles⟩ := unlinkActive_eq s .input s.activeIn
    rw [heq]
    exact h.aside s.activeLock (fun _ ↦ Iff.rfl) (hsame (by rw [hpc]; rfl)) nofun id hfiles
  | unlinkOut hpc =>
    obtain ⟨files, heq, hfiles⟩ := unlinkActive_eq s .output s.activeOut
    rw [heq]
    exact h.aside s.activeLock (fun _ ↦ Iff.rfl) (hsame (by rw [hpc]; rfl)) nofun id hfiles
  | giveActive hpc =>
    exact h.aside none (fun _ ↦ Iff.rfl) (hsame (by rw [hpc]; rfl)) nofun id fun _ _ hf ↦ hf

theorem Inv.helperStep {e : Event} (h : Inv callid init s) (hstep : HelperStep callid s e s') :
    Inv callid init s' := by
  cases hstep with
  | @exit p t hp =>
    refine ⟨h.callLock, h.pgidLock, h.stopLock, ?_, ?_, h.pgid, h.free, h.killing, h.entered,
      h.late, h.reaps, h.files⟩
    · intro u q hq
      change ∃ e, (Function.update s.helpers p (some ⟨t, true⟩)) q = some ⟨u, e⟩
      obtain ⟨e, he⟩ := h.helpers u q hq
      by_cases hqp : q = p
      · rw [hqp, hp] at he
        rw [hqp, Function.update_self]
        obtain rfl : t = u := congrArg Helper.owner (Option.some.inj he)
        exact ⟨true, rfl⟩
      · rw [Function.update_of_ne hqp]
        exact ⟨e, he⟩
    · intro q x hx
      change (Function.update s.helpers p (some ⟨t, true⟩)) q = some x at hx
      by_cases hqp : q = p
      · rw [hqp, Function.update_self] at hx
        rw [← Option.some.inj hx, hqp]
        show (s.calls t).helper = some p
        exact h.owners p ⟨t, false⟩ hp
      · rw [Function.update_of_ne hqp] at hx
        exact h.owners q x hx
  | @file p x hp k there =>
    -- A helper writes while its call holds `g_call_lock`, before anything is unlinked.
    have hown := h.owners p x hp
    refine ⟨h.callLock, h.pgidLock, h.stopLock, h.helpers, h.owners, h.pgid, h.free, h.killing,
      h.entered, h.late, h.reaps, fun c k' hf ↦ ?_⟩
    rw [setFile_files] at hf
    split at hf
    next hc =>
      obtain ⟨rfl, rfl⟩ := hc
      exact Or.inl ⟨x.owner, rfl, Pc.helper_holdsCall hown, Pc.helper_past hown k'⟩
    next => exact h.files c k' hf

theorem Inv.step {e : Event} (h : Inv callid init s) (hstep : Step callid s e s') :
    Inv callid init s' := by
  cases hstep with
  | call t hstep => exact h.call hstep
  | stop hstep => exact h.stopStep hstep
  | helper hstep => exact h.helperStep hstep

/-- The invariant over a run, from before the first call. -/
theorem Inv.run {s₀ : State} (h₀ : Initial s₀) (hrun : Run callid s₀ s) :
    Inv callid s₀.files s := by
  induction hrun with
  | refl => exact h₀.inv
  | tail _ hstep ih =>
    obtain ⟨e, hstep⟩ := hstep
    exact ih.step hstep

/-! ## What the calls keep to -/

-- The group a signal goes to is that of a helper not reaped.
theorem Inv.kill {p : Pid} (h : Inv callid init s) (hstep : Step callid s (.kill p) s') :
    (s.helpers p).isSome = true := by
  have hcall : ∀ t, (s.calls t).helper = some p → (s.helpers p).isSome = true := by
    intro t ht
    obtain ⟨e, he⟩ := h.helpers t p ht
    rw [he]
    rfl
  cases hstep with
  | call t hstep =>
    cases hstep with
    | term hpc => exact hcall t (by rw [hpc]; rfl)
    | kill9 hpc => exact hcall t (by rw [hpc]; rfl)
  | stop hstep =>
    cases hstep with
    | kill hpc =>
      obtain ⟨hgroup, hp⟩ := h.killing p hpc
      cases hlock : s.callLock with
      | none => exact absurd (hgroup.trans (h.free hlock)) hp
      | some t =>
        have hholds := (h.callLock t).mpr hlock
        exact hcall t (Pc.pgid_helper ((h.pgid t hholds).symm.trans hgroup.symm) hp)
  | helper hstep => cases hstep

theorem Inv.reap {t : Tid} {p : Pid} (h : Inv callid init s)
    (hstep : Step callid s (.reap t p) s') : ∃ e, s.helpers p = some ⟨t, e⟩ := by
  cases hstep with
  | call u hstep =>
    cases hstep with
    | waitpid hpc => exact h.helpers t p (by rw [hpc]; rfl)
  | stop hstep => cases hstep
  | helper hstep => cases hstep

theorem Inv.spawn {t : Tid} {p : Pid} (h : Inv callid init s)
    (hstep : Step callid s (.spawn t p) s') : s.late t = false := by
  cases hstep with
  | call u hstep =>
    cases hstep with
    | spawn hpc => exact h.late t (by rw [hpc]; rfl)
  | stop hstep => cases hstep
  | helper hstep => cases hstep

/-- In every interleaving of `np_ceg_stop` with service calls: one helper at a time, signals only to
helpers not reaped, every helper reaped by its own call, no helper of a call that comes too late,
and none of the calls' files left at the end. -/
theorem serviceCalls_safe (callid : Tid → CallId) {s₀ s : State} (h₀ : Initial s₀)
    (hrun : Run callid s₀ s) :
    (∀ p p', (s.helpers p).isSome = true → (s.helpers p').isSome = true → p = p') ∧
    (∀ p s', Step callid s (.kill p) s' → (s.helpers p).isSome = true) ∧
    ((∀ t p s', Step callid s (.reap t p) s' → ∃ e, s.helpers p = some ⟨t, e⟩) ∧
      ∀ t ran, s.calls t = .returned ran → ∀ p x, s.helpers p = some x → x.owner ≠ t) ∧
    (∀ t p s', Step callid s (.spawn t p) s' → s.late t = false) ∧
    ((∀ t, s.calls t = .idle ∨ ∃ ran, s.calls t = .returned ran) → ∀ c k, s.files c k = true →
      s₀.files c k = true ∧ ∀ t, callid t = c → s.calls t ≠ .returned true) := by
  have h : Inv callid s₀.files s := Inv.run h₀ hrun
  refine ⟨?_, fun p s' ↦ h.kill, ⟨fun t p s' ↦ h.reap, ?_⟩, fun t p s' ↦ h.spawn, ?_⟩
  · intro p p' hp hp'
    obtain ⟨x, hx⟩ := Option.isSome_iff_exists.mp hp
    obtain ⟨x', hx'⟩ := Option.isSome_iff_exists.mp hp'
    exact h.helper_unique hx hx'
  · intro t ran hpc p x hx heq
    have hown := h.owners p x hx
    rw [heq, hpc] at hown
    cases hown
  · intro hdone c k hf
    rcases h.files c k hf with ⟨t, -, hholds, -⟩ | ⟨hinit, hall⟩
    · rcases hdone t with hpc | ⟨ran, hpc⟩ <;> rw [hpc] at hholds <;> cases hholds
    · refine ⟨hinit, fun t ht hpc ↦ ?_⟩
      have hpast := hall t ht
      rw [hpc] at hpast
      cases k <;> cases hpast

/-- Before the first call. -/
def quiet : State where
  stopping := false
  callLock := none
  pgidLock := none
  activeLock := none
  callPgid := 0
  activeIn := none
  activeOut := none
  helpers _ := none
  files _ _ := false
  calls _ := .idle
  late _ := false
  stop := .idle

theorem quiet_initial : Initial quiet :=
  ⟨rfl, rfl, rfl, rfl, rfl, fun _ ↦ rfl, fun _ ↦ rfl, rfl⟩

theorem quiet_spawns : ∃ s, Run (fun _ ↦ 7) quiet s ∧ s.stop = .setFlag ∧
    s.calls 0 = .setPgid .take (.poll 42) ∧ s.helpers 42 = some ⟨0, false⟩ := by
  have hbegin := Relation.ReflTransGen.single (r := fun s s' ↦ ∃ e, Step (fun _ ↦ 7) s e s')
    ⟨_, .call (s := quiet) 0 (.local .begin)⟩
  have hstop := hbegin.tail ⟨_, .stop (.begin rfl)⟩
  have hlock := hstop.tail ⟨_, .call 0 (.lockCall rfl rfl)⟩
  have hgo := hlock.tail ⟨_, .call 0 (.local (.go rfl))⟩
  have hdir := hgo.tail ⟨_, .call 0 (.local .makeDir)⟩
  have hactive := hdir.tail ⟨_, .call 0 (.lockActive rfl rfl)⟩
  have hname := hactive.tail ⟨_, .call 0 (.nameFiles rfl)⟩
  have hunlock := hname.tail ⟨_, .call 0 (.unlockActive rfl)⟩
  have hmodule := hunlock.tail ⟨_, .call 0 (.local .placeModule)⟩
  have hunlink := hmodule.tail ⟨_, .call 0 (.unlinkOut rfl)⟩
  have hwrite := hunlink.tail ⟨_, .call 0 (.writeIn rfl)⟩
  have hspawn := hwrite.tail ⟨_, .call 0 (.spawn (p := 42) rfl (by decide) rfl)⟩
  exact ⟨_, hspawn, rfl, rfl, rfl⟩

/-- A call with its helper started while the client begins to stop: there is no other helper. -/
theorem serviceCalls_safe_quiet : ∃ s, Run (fun _ ↦ 7) quiet s ∧ s.stop = .setFlag ∧
    s.helpers 42 = some ⟨0, false⟩ ∧ ∀ p, (s.helpers p).isSome = true → p = 42 := by
  obtain ⟨s, hrun, hstop, -, hhelper⟩ := quiet_spawns
  have hsafe := serviceCalls_safe (fun _ ↦ 7) quiet_initial hrun
  exact ⟨s, hrun, hstop, hhelper, fun p hp ↦ hsafe.1 p 42 hp (by rw [hhelper]; rfl)⟩

end NotProton.Ceg
