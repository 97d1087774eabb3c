import NotProton.Library.Shell

/-!
# PrefixTemplate — the prefix templates of a Steam library (`compat_run.sh`)

One launch at a time holds the template lock and runs `seed_prefix_from_template`, command by command.
A launch may end after any command, and what a command that fails or is cut short leaves of its own
target is open.  The copy into the game's prefix writes no template and is left out.
-/

open NotProton.Library

namespace NotProton.CompatRun

/-- The outputs of `template_identity`'s commands, `none` for one that fails. -/
structure RunnerFiles where
  /-- `stat -f '%d:%i:%c' "$CX_ROOT"` -/
  stat : Option Bytes
  /-- The sum of the run script. -/
  run : Option Bytes
  /-- The sum and the name of the loader, the server, `wine.inf` and the DLLs that are there. -/
  files : Option (List (Bytes × Bytes))

/-- A line `shasum` prints. -/
def sumLine (file : Bytes × Bytes) : Bytes := file.1 ++ ascii "  " ++ file.2 ++ ascii "\n"

/-- `identity=$(template_identity)` -/
def templateIdentity (r : RunnerFiles) : Option Bytes :=
  match r.stat, r.run, r.files with
  | some stat, some run, some files =>
      some (commandOutput (stat ++ ascii "\n" ++ sumLine (run, ascii "-") ++ files.flatMap sumLine))
  | _, _, _ => none

/-- How the script looks at a folder. -/
structure FolderView (Tree : Type) where
  /-- `-s` -/
  nonEmpty : Tree → Bytes → Bool
  /-- `-f` -/
  isFile : Tree → Bytes → Bool

/-- What stands at a path: nothing, what belongs there, or a link or anything else. -/
inductive Node (α : Type)
  | missing
  | here (a : α)
  | other
  deriving DecidableEq

/-- One template folder, with its scratch folders by process id. -/
structure Slot (Tree : Type) where
  ready : Node Bytes
  pfx : Node Tree
  building : Nat → Option Tree

/-- The launch that holds the lock. -/
structure Seeding where
  runner : Bytes
  pid : Nat
  identity : Bytes

/-- The command a launch is about to run. -/
inductive Phase
  | check
  | rmReady
  | rmPfx
  | sweep
  | mkdir
  | layOut
  | wineboot
  | server (initialized : Nat)
  | verify (initialized : Nat)
  | move
  | clear
  | test
  | mark
  | unmark
  | decide
  deriving DecidableEq

section commands

variable {Tree : Type} (view : FolderView Tree)

/-- `$(cat "$template_dir/ready" 2>/dev/null)` -/
def catReady (slot : Slot Tree) (fails : Bool) : Bytes :=
  match slot.ready with
  | .here content => if fails then [] else commandOutput content
  | _ => []

/-- `[ -s "$template_dir/pfx/system.reg" ]` -/
def pfxHasRegistry (slot : Slot Tree) : Bool :=
  match slot.pfx with
  | .here tree => view.nonEmpty tree (ascii "system.reg")
  | _ => false

/-- The three registry files are not empty. -/
def RegistryDone (tree : Tree) : Prop :=
  view.nonEmpty tree (ascii "system.reg") = true ∧ view.nonEmpty tree (ascii "user.reg") = true ∧
    view.nonEmpty tree (ascii "userdef.reg") = true

/-- A scratch folder with other content, or gone. -/
def Slot.setBuilding (slot : Slot Tree) (pid : Nat) (tree : Option Tree) : Slot Tree :=
  { slot with building := Function.update slot.building pid tree }

/-- One command of `seed_prefix_from_template` or `build_prefix_template`: the next one, or `none` where the
launch gives up the lock, and the folder afterwards.  The list holds the tree of a build that ends here with
`wineboot` and the server done and the registry written. -/
inductive Command (l : Seeding) : Phase → Slot Tree → Option Phase → Slot Tree → List Tree → Prop
  | check_skip {slot : Slot Tree} (h : slot.ready = .other ∨ slot.pfx = .other) :
      Command l .check slot none slot []
  | check_stale {slot : Slot Tree} (fails : Bool)
      (h : pfxHasRegistry view slot = false ∨ catReady slot fails ≠ l.identity) :
      Command l .check slot (some .rmReady) slot []
  | check_fresh {slot : Slot Tree} (h : pfxHasRegistry view slot = true) (hready : catReady slot false = l.identity) :
      Command l .check slot (some .decide) slot []
  | rmReady {slot : Slot Tree} : Command l .rmReady slot (some .rmPfx) { slot with ready := .missing } []
  | rmReady_fails {slot : Slot Tree} : Command l .rmReady slot none slot []
  | rmPfx {slot : Slot Tree} : Command l .rmPfx slot (some .sweep) { slot with pfx := .missing } []
  | rmPfx_fails {slot : Slot Tree} (left : Node Tree) : Command l .rmPfx slot none { slot with pfx := left } []
  | sweep {slot : Slot Tree} (left : Nat → Option Tree) :
      Command l .sweep slot (some .mkdir) { slot with building := left } []
  | mkdir {slot : Slot Tree} (tree : Tree) (h : slot.building l.pid = none) :
      Command l .mkdir slot (some .layOut) (slot.setBuilding l.pid (some tree)) []
  | mkdir_fails {slot : Slot Tree} : Command l .mkdir slot (some .decide) slot []
  | layOut {slot : Slot Tree} (tree : Tree) :
      Command l .layOut slot (some .wineboot) (slot.setBuilding l.pid (some tree)) []
  | layOut_fails {slot : Slot Tree} (tree : Tree) :
      Command l .layOut slot (some .decide) (slot.setBuilding l.pid (some tree)) []
  | wineboot {slot : Slot Tree} (tree : Tree) (initialized : Nat) :
      Command l .wineboot slot (some (.server initialized)) (slot.setBuilding l.pid (some tree)) []
  | server {slot : Slot Tree} {initialized : Nat} (tree : Tree) (h : initialized = 0 ∧ RegistryDone view tree) :
      Command l (.server initialized) slot (some (.verify initialized)) (slot.setBuilding l.pid (some tree)) [tree]
  | server_undone {slot : Slot Tree} {initialized : Nat} (tree : Tree) (h : ¬ (initialized = 0 ∧ RegistryDone view tree)) :
      Command l (.server initialized) slot (some (.verify initialized)) (slot.setBuilding l.pid (some tree)) []
  | server_fails {slot : Slot Tree} {initialized : Nat} (tree : Tree) :
      Command l (.server initialized) slot (some .decide) (slot.setBuilding l.pid (some tree)) []
  | verify {slot : Slot Tree} {tree : Tree} (htree : slot.building l.pid = some tree) (h : RegistryDone view tree) :
      Command l (.verify 0) slot (some .move) slot []
  | verify_rejects {slot : Slot Tree} {initialized : Nat} (left : Option Tree)
      (h : initialized ≠ 0 ∨ ∀ tree, slot.building l.pid = some tree → ¬ RegistryDone view tree) :
      Command l (.verify initialized) slot (some .decide) (slot.setBuilding l.pid left) []
  | move {slot : Slot Tree} {tree : Tree} (hpfx : slot.pfx = .missing) (htree : slot.building l.pid = some tree) :
      Command l .move slot (some .clear) { slot.setBuilding l.pid none with pfx := .here tree } []
  | move_fails {slot : Slot Tree} : Command l .move slot (some .clear) slot []
  | clear {slot : Slot Tree} (left : Option Tree) : Command l .clear slot (some .test) (slot.setBuilding l.pid left) []
  | test {slot : Slot Tree} {tree : Tree} (hpfx : slot.pfx = .here tree) (h : view.isFile tree (ascii "system.reg") = true) :
      Command l .test slot (some .mark) slot []
  | test_fails {slot : Slot Tree} (h : ∀ tree, slot.pfx = .here tree → view.isFile tree (ascii "system.reg") = false) :
      Command l .test slot (some .decide) slot []
  | mark {slot : Slot Tree} :
      Command l .mark slot (some .decide) { slot with ready := .here (l.identity ++ ascii "\n") } []
  | mark_fails {slot : Slot Tree} (written : Option Bytes) (h : ∀ part ∈ written, part <+: l.identity ++ ascii "\n") :
      Command l .mark slot (some .unmark) { slot with ready := written.elim .missing .here } []
  | unmark {slot : Slot Tree} : Command l .unmark slot (some .decide) { slot with ready := .missing } []
  | unmark_fails {slot : Slot Tree} : Command l .unmark slot (some .decide) slot []
  | release {slot : Slot Tree} : Command l .decide slot none slot []

/-- The template folders by runner and variant, the launch that holds the lock, and every tree a build
finished, with its folder and the identity the launch had computed. -/
structure Templates (Tree : Type) where
  slots : Bytes → Slot Tree
  running : Option (Seeding × Phase)
  finished : List (Bytes × Bytes × Tree)

def Templates.setSlot (s : Templates Tree) (runner : Bytes) (slot : Slot Tree) : Bytes → Slot Tree :=
  Function.update s.slots runner slot

/-- What the launches do, and what may happen to a scratch folder nobody waits for. -/
inductive Step : Templates Tree → Templates Tree → Prop
  | begin {s : Templates Tree} (hfree : s.running = none) (runner : Bytes) (pid : Nat) (files : RunnerFiles)
      {identity : Bytes} (hidentity : templateIdentity files = some identity) :
      Step s { s with running := some (⟨runner, pid, identity⟩, .check) }
  | command {s : Templates Tree} {l : Seeding} {phase : Phase} (hrunning : s.running = some (l, phase))
      {next : Option Phase} {slot : Slot Tree} {built : List Tree}
      (h : Command view l phase (s.slots l.runner) next slot built) :
      Step s {
        slots := s.setSlot l.runner slot
        running := next.map fun phase ↦ (l, phase)
        finished := built.map (fun tree ↦ (l.runner, l.identity, tree)) ++ s.finished }
  /-- Killed, or stopped by a signal: `abandon_seed` may have removed its own scratch folder. -/
  | stop {s : Templates Tree} {l : Seeding} {phase : Phase} (hrunning : s.running = some (l, phase)) (left : Option Tree) :
      Step s { s with slots := s.setSlot l.runner ((s.slots l.runner).setBuilding l.pid left), running := none }
  | stray {s : Templates Tree} (runner : Bytes) (pid : Nat) (left : Option Tree)
      (h : ∀ l phase, s.running = some (l, phase) → runner = l.runner → pid ≠ l.pid) :
      Step s { s with slots := s.setSlot runner ((s.slots runner).setBuilding pid left) }

/-- A library without templates. -/
def noTemplates : Templates Tree where
  slots := fun _ ↦ ⟨.missing, .missing, fun _ ↦ none⟩
  running := none
  finished := []

/-! ## What the folders say between two commands -/

/-- A launch with one of the identities `ids` computed, and no launch that failed to write its mark leaves
behind the identity of another. -/
structure Marked (ids : Set Bytes) (s s' : Templates Tree) : Prop where
  identity : ∀ l phase, s'.running = some (l, phase) → l.identity ∈ ids
  left : ∀ l, s.running = some (l, .unmark) → s'.running ≠ s.running →
    ∀ content, (s'.slots l.runner).ready = .here content → commandOutput content ∈ ids →
      commandOutput content = l.identity

/-- A readable mark names what is in the folder. -/
def Sound (ids : Set Bytes) (finished : List (Bytes × Bytes × Tree)) (runner : Bytes) (slot : Slot Tree) : Prop :=
  ∀ content tree, slot.ready = .here content → slot.pfx = .here tree → commandOutput content ∈ ids →
    (runner, commandOutput content, tree) ∈ finished

/-- The tree in the folder is one the running launch finished. -/
def OwnTree (finished : List (Bytes × Bytes × Tree)) (l : Seeding) (slot : Slot Tree) : Prop :=
  ∀ tree, slot.pfx = .here tree → (l.runner, l.identity, tree) ∈ finished

/-- What each command may rely on. -/
def PhaseOk (ids : Set Bytes) (finished : List (Bytes × Bytes × Tree)) (l : Seeding) (slot : Slot Tree) : Phase → Prop
  | .check | .rmReady | .decide => Sound ids finished l.runner slot
  | .rmPfx => slot.ready = .missing
  | .sweep | .mkdir | .layOut | .wineboot | .server _ => slot.ready = .missing ∧ slot.pfx = .missing
  | .verify initialized => slot.ready = .missing ∧ slot.pfx = .missing ∧
      (initialized = 0 → ∀ tree, slot.building l.pid = some tree → RegistryDone view tree →
        (l.runner, l.identity, tree) ∈ finished)
  | .move => slot.ready = .missing ∧ slot.pfx = .missing ∧
      ∀ tree, slot.building l.pid = some tree → (l.runner, l.identity, tree) ∈ finished
  | .clear | .test | .mark => slot.ready = .missing ∧ OwnTree finished l slot
  | .unmark => OwnTree finished l slot

variable {view}

theorem sound_of_missing {ids : Set Bytes} {finished : List (Bytes × Bytes × Tree)} {runner : Bytes} {slot : Slot Tree}
    (h : slot.ready = .missing) : Sound ids finished runner slot := by
  intro content tree hready
  rw [h] at hready
  cases hready

theorem Sound.mono {ids : Set Bytes} {finished more : List (Bytes × Bytes × Tree)} {runner : Bytes} {slot : Slot Tree}
    (h : Sound ids finished runner slot) : Sound ids (more ++ finished) runner slot :=
  fun content tree hready hpfx hid ↦ List.mem_append_right more (h content tree hready hpfx hid)

theorem PhaseOk.sound {ids : Set Bytes} {finished : List (Bytes × Bytes × Tree)} {l : Seeding} {slot : Slot Tree}
    {phase : Phase} (h : PhaseOk view ids finished l slot phase) (hphase : phase ≠ .unmark) :
    Sound ids finished l.runner slot := by
  cases phase with
  | check => exact h
  | rmReady => exact h
  | decide => exact h
  | rmPfx => exact sound_of_missing h
  | unmark => exact absurd rfl hphase
  | _ => exact sound_of_missing h.1

/-- A scratch folder that is not the running launch's own is of no account. -/
theorem PhaseOk.congr {ids : Set Bytes} {finished : List (Bytes × Bytes × Tree)} {l : Seeding} {slot : Slot Tree}
    {phase : Phase} (h : PhaseOk view ids finished l slot phase) {pid : Nat} (hpid : pid ≠ l.pid) (left : Option Tree) :
    PhaseOk view ids finished l (slot.setBuilding pid left) phase := by
  have hown : (slot.setBuilding pid left).building l.pid = slot.building l.pid := Function.update_of_ne hpid.symm _ _
  cases phase with
  | verify initialized => exact ⟨h.1, h.2.1, fun hzero tree htree ↦ h.2.2 hzero tree (hown ▸ htree)⟩
  | move => exact ⟨h.1, h.2.1, fun tree htree ↦ h.2.2 tree (hown ▸ htree)⟩
  | _ => exact h

/-- Each command leaves the next one what it relies on; the last one of a launch leaves a sound folder, but for a
mark that could not be written whole. -/
theorem Command.preserves {ids : Set Bytes} {finished : List (Bytes × Bytes × Tree)} {l : Seeding} {phase : Phase}
    {next : Option Phase} {slot slot' : Slot Tree} {built : List Tree} (hcommand : Command view l phase slot next slot' built)
    (h : PhaseOk view ids finished l slot phase) (hidentity : commandOutput l.identity = l.identity)
    (hleft : phase = .unmark → ∀ content, slot'.ready = .here content → commandOutput content ∈ ids →
      commandOutput content = l.identity) :
    let done := built.map (fun tree ↦ (l.runner, l.identity, tree)) ++ finished
    match next with
    | none => Sound ids done l.runner slot'
    | some next => PhaseOk view ids done l slot' next := by
  cases hcommand with
  | check_skip _ => exact h
  | check_stale _ _ => exact h
  | check_fresh _ _ => exact h
  | rmReady => exact rfl
  | rmReady_fails => exact h
  | rmPfx => exact ⟨h, rfl⟩
  | rmPfx_fails _ => exact sound_of_missing h
  | sweep _ => exact h
  | mkdir _ _ => exact h
  | mkdir_fails => exact sound_of_missing h.1
  | layOut _ => exact h
  | layOut_fails _ => exact sound_of_missing h.1
  | wineboot _ _ => exact h
  | server tree hdone =>
    refine ⟨h.1, h.2, fun _ tree' htree' _ ↦ ?_⟩
    have hsame : tree = tree' := by
      have hown : (slot.setBuilding l.pid (some tree)).building l.pid = some tree := Function.update_self _ _ _
      rw [hown] at htree'
      exact Option.some.inj htree'
    rw [hsame]
    exact List.mem_append_left _ List.mem_cons_self
  | server_undone tree hundone =>
    refine ⟨h.1, h.2, fun hzero tree' htree' hregistry ↦ ?_⟩
    have hown : (slot.setBuilding l.pid (some tree)).building l.pid = some tree := Function.update_self _ _ _
    rw [hown, Option.some.injEq] at htree'
    exact absurd ⟨hzero, htree' ▸ hregistry⟩ hundone
  | server_fails _ => exact sound_of_missing h.1
  | verify htree hregistry =>
    refine ⟨h.1, h.2.1, fun tree' htree' ↦ ?_⟩
    have hsame : _ = tree' := Option.some.inj (htree.symm.trans htree')
    exact h.2.2 rfl tree' htree' (hsame ▸ hregistry)
  | verify_rejects _ _ => exact sound_of_missing h.1
  | move _ htree =>
    refine ⟨h.1, fun tree' hpfx ↦ ?_⟩
    have hsame := Node.here.inj hpfx
    exact h.2.2 tree' (hsame ▸ htree)
  | move_fails =>
    refine ⟨h.1, fun tree' hpfx ↦ ?_⟩
    rw [h.2.1] at hpfx
    cases hpfx
  | clear _ => exact h
  | test _ _ => exact h
  | test_fails _ => exact sound_of_missing h.1
  | mark =>
    -- the mark names the launch that built the tree
    intro _ content tree hready hpfx _
    have hcontent : commandOutput content = l.identity := by
      rw [← Node.here.inj hready, show ascii "\n" = [10] from rfl, commandOutput_newline, hidentity]
    rw [hcontent]
    exact h.2 tree hpfx
  | mark_fails _ _ => exact h.2
  | unmark => exact sound_of_missing rfl
  | unmark_fails =>
    intro _ content tree hready hpfx hid
    rw [hleft rfl content hready hid]
    exact h tree hpfx
  | release => exact h

/-! ## Every run -/

/-- The folders between two commands of whoever holds the lock. -/
structure TemplatesOk (view : FolderView Tree) (ids : Set Bytes) (s : Templates Tree) : Prop where
  identity : ∀ l phase, s.running = some (l, phase) →
    l.identity ∈ ids ∧ commandOutput l.identity = l.identity ∧ l.identity ≠ []
  running : ∀ l phase, s.running = some (l, phase) → PhaseOk view ids s.finished l (s.slots l.runner) phase
  sound : ∀ runner, (∀ l phase, s.running = some (l, phase) → l.runner ≠ runner) →
    Sound ids s.finished runner (s.slots runner)
  built : ∀ entry ∈ s.finished, RegistryDone view entry.2.2

/-- In a state nobody is working in, every folder is sound. -/
theorem TemplatesOk.begin {ids : Set Bytes} {s : Templates Tree} (h : TemplatesOk view ids s) (hfree : s.running = none)
    (runner : Bytes) : Sound ids s.finished runner (s.slots runner) := by
  apply h.sound
  intro l phase hrunning
  rw [hfree] at hrunning
  cases hrunning

theorem commandOutput_templateIdentity {files : RunnerFiles} {identity : Bytes}
    (h : templateIdentity files = some identity) : commandOutput identity = identity ∧ identity ≠ [] := by
  unfold templateIdentity at h
  split at h
  next stat run files _ _ _ =>
    -- the name that `shasum` gives its standard input
    have hdash : (45 : UInt8) ∈ stat ++ ascii "\n" ++ sumLine (run, ascii "-") ++ files.flatMap sumLine := by
      have hname : (45 : UInt8) ∈ ascii "-" := by decide
      simp only [sumLine, List.mem_append]
      tauto
    rw [← Option.some.inj h]
    exact ⟨commandOutput_idem _, commandOutput_ne_nil hdash (by decide)⟩
  · cases h

theorem Command.built_registry {l : Seeding} {phase : Phase} {next : Option Phase} {slot slot' : Slot Tree}
    {built : List Tree} (h : Command view l phase slot next slot' built) : ∀ tree ∈ built, RegistryDone view tree := by
  intro tree htree
  cases h with
  | server _ hdone => exact List.mem_singleton.mp htree ▸ hdone.2
  | _ => cases htree

theorem TemplatesOk.step {ids : Set Bytes} {s s' : Templates Tree} (h : TemplatesOk view ids s) (hstep : Step view s s')
    (hmarked : Marked ids s s') : TemplatesOk view ids s' := by
  cases hstep with
  | begin hfree runner pid files hidentity =>
    refine ⟨?_, ?_, ?_, h.built⟩
    · intro l phase hrunning
      refine ⟨hmarked.identity l phase hrunning, ?_⟩
      obtain ⟨rfl, -⟩ := Prod.mk.inj (Option.some.inj hrunning)
      exact commandOutput_templateIdentity hidentity
    · intro l phase hrunning
      obtain ⟨rfl, rfl⟩ := Prod.mk.inj (Option.some.inj hrunning)
      exact h.begin hfree runner
    · exact fun runner _ ↦ h.begin hfree runner
  | @command l phase hrunning next slot built hcommand =>
    have hids := h.identity l phase hrunning
    have hleft : phase = .unmark → ∀ content, slot.ready = .here content → commandOutput content ∈ ids →
        commandOutput content = l.identity := by
      rintro rfl content hready
      apply hmarked.left l hrunning
      · rw [hrunning]
        cases hcommand <;> intro e <;> cases e
      · simp only [Templates.setSlot, Function.update_self]
        exact hready
    have hpreserves := hcommand.preserves (h.running l phase hrunning) hids.2.1 hleft
    have hother : ∀ runner, runner ≠ l.runner → Sound ids (built.map (fun tree ↦ (l.runner, l.identity, tree)) ++ s.finished)
        runner (s.setSlot l.runner slot runner) := by
      intro runner hne
      rw [Templates.setSlot, Function.update_of_ne hne]
      apply Sound.mono
      apply h.sound
      intro l' phase' hrunning'
      obtain ⟨rfl, -⟩ := Prod.mk.inj (Option.some.inj (hrunning.symm.trans hrunning'))
      exact hne.symm
    refine ⟨?_, ?_, ?_, ?_⟩
    · intro l' phase' hrunning'
      cases next with
      | none => cases hrunning'
      | some next =>
        obtain ⟨rfl, -⟩ := Prod.mk.inj (Option.some.inj hrunning')
        exact hids
    · intro l' phase' hrunning'
      cases next with
      | none => cases hrunning'
      | some next =>
        obtain ⟨rfl, rfl⟩ := Prod.mk.inj (Option.some.inj hrunning')
        simp only [Templates.setSlot, Function.update_self]
        exact hpreserves
    · intro runner hfree
      by_cases hrunner : runner = l.runner
      · cases next with
        | none =>
          simp only [hrunner, Templates.setSlot, Function.update_self]
          exact hpreserves
        | some next => exact absurd hrunner.symm (hfree l next rfl)
      · exact hother runner hrunner
    · intro entry hentry
      rw [List.mem_append, List.mem_map] at hentry
      obtain ⟨tree, htree, rfl⟩ | hentry := hentry
      · exact hcommand.built_registry tree htree
      · exact h.built entry hentry
  | @stop l phase hrunning left =>
    have hnone : ∀ {l : Seeding} {phase : Phase} {p : Prop}, (none : Option (Seeding × Phase)) = some (l, phase) → p :=
      fun e ↦ by cases e
    refine ⟨fun _ _ e ↦ hnone e, fun _ _ e ↦ hnone e, ?_, h.built⟩
    intro runner _
    by_cases hrunner : runner = l.runner
    · simp only [hrunner, Templates.setSlot, Function.update_self]
      have hphase := h.running l phase hrunning
      by_cases hunmark : phase = .unmark
      · -- the mark that was cut short stays behind
        rw [hunmark] at hphase hrunning
        intro content tree hready hpfx hid
        have hself := hmarked.left l hrunning (by rw [hrunning]; exact fun e ↦ by cases e) content
          (by simp only [Templates.setSlot, Function.update_self]; exact hready) hid
        rw [hself]
        exact hphase tree hpfx
      · exact hphase.sound hunmark
    · simp only [Templates.setSlot, Function.update_of_ne hrunner]
      apply h.sound
      intro l' phase' hrunning'
      obtain ⟨rfl, -⟩ := Prod.mk.inj (Option.some.inj (hrunning.symm.trans hrunning'))
      exact fun e ↦ hrunner e.symm
  | stray runner pid left hstray =>
    refine ⟨h.identity, ?_, ?_, h.built⟩
    · intro l phase hrunning
      have hphase := h.running l phase hrunning
      show PhaseOk view ids s.finished l (s.setSlot runner _ l.runner) phase
      by_cases hrunner : l.runner = runner
      · rw [hrunner, Templates.setSlot, Function.update_self]
        rw [hrunner] at hphase
        exact hphase.congr (hstray l phase hrunning hrunner.symm) left
      · rw [Templates.setSlot, Function.update_of_ne hrunner]
        exact hphase
    · intro runner' hfree
      have hsound := h.sound runner' hfree
      show Sound ids s.finished runner' (s.setSlot runner _ runner')
      by_cases hrunner : runner' = runner
      · rw [hrunner, Templates.setSlot, Function.update_self]
        rw [hrunner] at hsound
        exact hsound
      · rw [Templates.setSlot, Function.update_of_ne hrunner]
        exact hsound

/-- The states of a run from a library without templates. -/
def TemplateRun (view : FolderView Tree) (ids : Set Bytes) : Templates Tree → Prop :=
  Relation.ReflTransGen (fun s s' ↦ Step view s s' ∧ Marked ids s s') noTemplates

theorem TemplateRun.steps {ids : Set Bytes} {s : Templates Tree} (h : TemplateRun view ids s) :
    Relation.ReflTransGen (Step view) noTemplates s := by
  induction h with
  | refl => exact .refl
  | tail _ hstep ih => exact ih.tail hstep.1

theorem templatesOk_run {ids : Set Bytes} {s : Templates Tree} (h : TemplateRun view ids s) : TemplatesOk view ids s := by
  induction h with
  | refl =>
    constructor
    · intro _ _ hrunning
      cases hrunning
    · intro _ _ hrunning
      cases hrunning
    · exact fun _ _ ↦ sound_of_missing rfl
    · intro _ hentry
      cases hentry
  | tail _ hstep ih => exact ih.step hstep.1 hstep.2

/-- A launch is about to copy the folder's tree into a prefix. -/
def Copies (view : FolderView Tree) (s : Templates Tree) (l : Seeding) (tree : Tree) : Prop :=
  s.running = some (l, .decide) ∧ catReady (s.slots l.runner) false = l.identity ∧
    (s.slots l.runner).pfx = .here tree ∧ view.nonEmpty tree (ascii "system.reg") = true

/-- In every run of launches whose identities are among `ids`, where no launch leaves behind a half-written mark that
is the identity of another, a tree that is copied is one that a build with that identity finished in that folder. -/
theorem copies_finished {ids : Set Bytes} {s : Templates Tree} {l : Seeding} {tree : Tree} (hrun : TemplateRun view ids s)
    (hcopies : Copies view s l tree) : (l.runner, l.identity, tree) ∈ s.finished ∧ RegistryDone view tree := by
  have hok := templatesOk_run hrun
  obtain ⟨hrunning, hready, hpfx, -⟩ := hcopies
  have hsound : Sound ids s.finished l.runner (s.slots l.runner) := hok.running l .decide hrunning
  have hids := hok.identity l .decide hrunning
  have hmem : (l.runner, l.identity, tree) ∈ s.finished := by
    unfold catReady at hready
    split at hready
    next content hcontent =>
      rw [if_neg Bool.false_ne_true] at hready
      have hnamed := hsound content tree hcontent hpfx (by rw [hready]; exact hids.1)
      rwa [hready] at hnamed
    · exact absurd hready.symm hids.2.2
  exact ⟨hmem, hok.built _ hmem⟩

end commands

/-! ## A mark cut short -/

/-- Folders told apart by a text, the empty one without a registry. -/
def textView : FolderView Bytes where
  nonEmpty := fun tree _ ↦ decide (tree ≠ [])
  isFile := fun tree _ ↦ decide (tree ≠ [])

/-- A sum of one digit. -/
def sumOf (digit : UInt8) : Bytes := List.replicate 64 digit

def bridgedRunner : RunnerFiles where
  stat := some (ascii "16777232:1234567:1700000000")
  run := some (sumOf 97)
  files := some [(sumOf 98, ascii "bin/wine"), (sumOf 99, ascii "bin/wineserver"),
    (sumOf 100, ascii "share/wine/wine.inf"), (sumOf 101, ascii "lib/wine/x86_64-unix/lsteamclient.so")]

/-- The same runner without its last file. -/
def strippedRunner : RunnerFiles where
  stat := some (ascii "16777232:1234567:1700000000")
  run := some (sumOf 97)
  files := some [(sumOf 98, ascii "bin/wine"), (sumOf 99, ascii "bin/wineserver"),
    (sumOf 100, ascii "share/wine/wine.inf")]

@[irreducible] def bridgedIdentity : Bytes := (templateIdentity bridgedRunner).getD []

@[irreducible] def strippedIdentity : Bytes := (templateIdentity strippedRunner).getD []

theorem templateIdentity_bridged : templateIdentity bridgedRunner = some bridgedIdentity := by decide +kernel

theorem templateIdentity_stripped : templateIdentity strippedRunner = some strippedIdentity := by decide +kernel

theorem strippedIdentity_ne : strippedIdentity ≠ bridgedIdentity := by decide +kernel

theorem strippedIdentity_prefix : strippedIdentity <+: bridgedIdentity ++ ascii "\n" := by decide +kernel

section first

variable {s : Templates Bytes} {phase : Phase} {files : RunnerFiles} {identity : Bytes}

theorem TemplateRun.command (h : TemplateRun textView {identity} s)
    (hrunning : s.running = some (⟨[], 1, identity⟩, phase)) (hphase : phase ≠ .unmark) {next : Option Phase}
    {slot : Slot Bytes} {built : List Bytes} (hcommand : Command textView ⟨[], 1, identity⟩ phase (s.slots []) next slot built) :
    TemplateRun textView {identity} {
      slots := s.setSlot [] slot
      running := next.map fun phase ↦ (⟨[], 1, identity⟩, phase)
      finished := built.map (fun tree ↦ ([], identity, tree)) ++ s.finished } := by
  apply h.tail
  constructor
  · exact Step.command hrunning hcommand
  · constructor
    · intro l phase' hnext
      cases next with
      | none => cases hnext
      | some next =>
        obtain ⟨rfl, -⟩ := Prod.mk.inj (Option.some.inj hnext)
        exact rfl
    · intro l hunmark
      obtain ⟨-, hcut⟩ := Prod.mk.inj (Option.some.inj (hrunning.symm.trans hunmark))
      exact absurd hcut hphase

/-- The first launch of a library builds its template. -/
theorem templateRun_mark (hidentity : templateIdentity files = some identity) : ∃ s, TemplateRun textView {identity} s ∧
    s.running = some (⟨[], 1, identity⟩, .mark) ∧ (s.slots []).pfx = .here [1] ∧
    s.finished = [([], identity, [1])] := by
  have hbegin : TemplateRun textView {identity} { noTemplates with running := some (⟨[], 1, identity⟩, .check) } := by
    apply Relation.ReflTransGen.single
    constructor
    · exact Step.begin rfl [] 1 files hidentity
    · constructor
      · intro l phase hrunning
        obtain ⟨rfl, -⟩ := Prod.mk.inj (Option.some.inj hrunning)
        exact rfl
      · intro l hunmark
        cases hunmark
  have hstale := hbegin.command rfl (by decide) (.check_stale true (.inl rfl))
  have hrmReady := hstale.command rfl (by decide) .rmReady
  have hrmPfx := hrmReady.command rfl (by decide) .rmPfx
  have hsweep := hrmPfx.command rfl (by decide) (.sweep fun _ ↦ none)
  have hmkdir := hsweep.command rfl (by decide) (.mkdir [] rfl)
  have hlayOut := hmkdir.command rfl (by decide) (.layOut [])
  have hwineboot := hlayOut.command rfl (by decide) (.wineboot [] 0)
  have hserver := hwineboot.command rfl (by decide) (.server [1] ⟨rfl, rfl, rfl, rfl⟩)
  have hverify := hserver.command rfl (by decide) (.verify rfl ⟨rfl, rfl, rfl⟩)
  have hmove := hverify.command rfl (by decide) (.move rfl rfl)
  have hclear := hmove.command rfl (by decide) (.clear none)
  have htest := hclear.command rfl (by decide) (.test rfl rfl)
  exact ⟨_, htest, rfl, rfl, rfl⟩

/-- Once the mark is written the launch copies the tree. -/
theorem templateRun_copies (hidentity : templateIdentity files = some identity) :
    ∃ s, TemplateRun textView {identity} s ∧ Copies textView s ⟨[], 1, identity⟩ [1] := by
  obtain ⟨s, hrun, hrunning, hpfx, -⟩ := templateRun_mark hidentity
  have hready : commandOutput (identity ++ [10]) = identity := by
    rw [commandOutput_newline, (commandOutput_templateIdentity hidentity).1]
  exact ⟨_, hrun.command hrunning (by decide) .mark, rfl, hready, hpfx, rfl⟩

/-- A launch that is killed while it writes its mark leaves any part of it. -/
theorem mark_cut {l : Seeding} {part : Bytes} (hrun : Relation.ReflTransGen (Step textView) noTemplates s)
    (hrunning : s.running = some (l, .mark)) (hpart : part <+: l.identity ++ ascii "\n") :
    ∃ s', Relation.ReflTransGen (Step textView) noTemplates s' ∧ s'.running = none ∧
      (s'.slots l.runner).ready = .here part ∧ (s'.slots l.runner).pfx = (s.slots l.runner).pfx ∧
      s'.finished = s.finished := by
  have hcut := hrun.tail (Step.command hrunning (.mark_fails (some part) fun p hp ↦ Option.some.inj hp ▸ hpart))
  refine ⟨_, hcut.tail (Step.stop rfl none), rfl, ?_, ?_, rfl⟩
  · simp only [Templates.setSlot, Function.update_self, Slot.setBuilding, Option.elim_some]
  · simp only [Templates.setSlot, Function.update_self, Slot.setBuilding]

/-- A launch that finds a tree and its own identity as the mark copies the tree. -/
theorem begin_copies (hrun : Relation.ReflTransGen (Step textView) noTemplates s) (hfree : s.running = none)
    (hidentity : templateIdentity files = some identity) (hready : (s.slots []).ready = .here identity)
    (hpfx : (s.slots []).pfx = .here [1]) :
    ∃ s', Relation.ReflTransGen (Step textView) noTemplates s' ∧ Copies textView s' ⟨[], 2, identity⟩ [1] ∧
      s'.finished = s.finished := by
  have hbegin := hrun.tail (Step.begin hfree [] 2 files hidentity)
  have hregistry : pfxHasRegistry textView (s.slots []) = true := by
    rw [pfxHasRegistry, hpfx]
    rfl
  have hcat : catReady (s.slots []) false = identity := by
    rw [catReady, hready]
    exact (commandOutput_templateIdentity hidentity).1
  refine ⟨_, hbegin.tail (Step.command rfl (.check_fresh hregistry hcat)), ⟨rfl, ?_, ?_, rfl⟩, rfl⟩
  · simp only [Templates.setSlot, Function.update_self]
    exact hcat
  · simp only [Templates.setSlot, Function.update_self]
    exact hpfx

end first

/-- The tree of the first launch is copied, and a build with its identity finished it. -/
theorem copies_finished_first : ∃ s, Copies textView s ⟨[], 1, bridgedIdentity⟩ [1] ∧
    ([], bridgedIdentity, [1]) ∈ s.finished := by
  obtain ⟨s, hrun, hcopies⟩ := templateRun_copies templateIdentity_bridged
  exact ⟨s, hcopies, (copies_finished hrun hcopies).1⟩

/-- The first launch cannot write its whole mark and is killed before it removes it; what is left is the identity of
a later launch, which copies a tree that was built for the other identity. -/
theorem copies_unfinished : ∃ s, Relation.ReflTransGen (Step textView) noTemplates s ∧
    Copies textView s ⟨[], 2, strippedIdentity⟩ [1] ∧ ([], strippedIdentity, [1]) ∉ s.finished := by
  obtain ⟨s, hrun, hrunning, hpfx, hfinished⟩ := templateRun_mark templateIdentity_bridged
  obtain ⟨s', hcut, hfree, hready, hsame, hbuilt⟩ := mark_cut hrun.steps hrunning strippedIdentity_prefix
  obtain ⟨s'', hlater, hcopies, hlast⟩ := begin_copies hcut hfree templateIdentity_stripped hready (hsame.trans hpfx)
  refine ⟨s'', hlater, hcopies, ?_⟩
  rw [hlast, hbuilt, hfinished, List.mem_singleton]
  intro e
  exact strippedIdentity_ne (Prod.mk.inj (Prod.mk.inj e).2).1

end NotProton.CompatRun
