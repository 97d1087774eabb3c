import NotProton.Library.Text

/-!
# VariantBuild — building the runner of a variant combination (`compat_run.sh`)

One launch at a time holds the build lock of a combination and runs `np_variant_build`, command by command, for one
target.  Any command may fail, and a launch may be stopped after any of them.  Beside it run the sweep and the
collection of builds that nothing uses any more.
-/

open NotProton.Library

namespace NotProton.CompatRun

/-- What the commands make of a runner tree. -/
structure RunnerOps (Tree : Type) where
  /-- `-d "$tree/CrossOver/lib/wine"` -/
  hasWine : Tree → Bool
  /-- `$(cat "$tree/CrossOver/.notproton-variant" 2>/dev/null || true)` -/
  marker : Tree → Bytes
  /-- `np_variant_overlay`, for the variants a manifest was computed from. -/
  overlay : Bytes → Tree → Tree
  /-- `printf '%s\n' "$np_v_want" > "$tree/CrossOver/.notproton-variant"` -/
  mark : Bytes → Tree → Tree
  /-- `: > "$tree/.notproton-used"` -/
  use : Tree → Tree
  /-- The first tree, copied or moved to where the second stands: inside it. -/
  nest : Tree → Tree → Tree

/-- `$np_v_target`, and the two scratch folders beside it. -/
structure TargetDirs (Tree : Type) where
  target : Option Tree
  new : Option Tree
  old : Option Tree

/-- The launch that holds the lock. -/
structure VariantLaunch (Tree : Type) where
  base : Tree
  want : Bytes
  /-- `NOTPROTON_VARIANT_REBUILD` is `1`. -/
  rebuild : Bool
  /-- The target as the launch found it. -/
  found : Option Tree

/-- The command a build is about to run. -/
inductive BuildPhase
  | check
  | clean
  | apple
  | clone
  | copy
  | overlay
  | mark
  | use
  | aside
  | moveIn
  | putBack
  | discard
  | finish
  | say
  deriving DecidableEq

/-- From the target moved aside on, it need not be what the launch found. -/
def BuildPhase.moved : BuildPhase → Bool
  | .moveIn | .putBack | .finish | .say => true
  | _ => false

/-- The next command, or the end of the build and whether it reports success. -/
inductive BuildNext
  | goOn (phase : BuildPhase)
  | exit (success : Bool)

/-- What `rm -rf` leaves, which may fail halfway. -/
inductive Removed {Tree : Type} : Option Tree → Option Tree → Prop
  | gone (tree : Option Tree) : Removed tree none
  | part (tree left : Tree) : Removed (some tree) (some left)

section build

variable {Tree : Type} (ops : RunnerOps Tree)

/-- `cp -R` and `mv` to a path where a folder may stand already. -/
def place (tree : Tree) : Option Tree → Tree
  | none => tree
  | some outer => ops.nest tree outer

/-- The target is what the launch asks for and it is not told to build it again. -/
def UpToDate (l : VariantLaunch Tree) (tree : Tree) : Prop :=
  ops.marker tree = l.want ∧ l.rebuild = false

/-- One command of `np_variant_build` under the lock. -/
inductive BuildCommand (l : VariantLaunch Tree) :
    BuildPhase → TargetDirs Tree → BuildNext → TargetDirs Tree → Prop
  | check {dirs : TargetDirs Tree} (h : ∀ tree, dirs.target = some tree → ops.hasWine tree = true → ¬ UpToDate ops l tree) :
      BuildCommand l .check dirs (.goOn .clean) dirs
  | check_built {dirs : TargetDirs Tree} {tree : Tree} (htarget : dirs.target = some tree)
      (hwine : ops.hasWine tree = true) (h : UpToDate ops l tree) : BuildCommand l .check dirs (.exit true) dirs
  | check_busy {dirs : TargetDirs Tree} {tree : Tree} (htarget : dirs.target = some tree)
      (hwine : ops.hasWine tree = true) (h : ¬ UpToDate ops l tree) : BuildCommand l .check dirs (.exit true) dirs
  | check_fails {dirs : TargetDirs Tree} : BuildCommand l .check dirs (.exit false) dirs
  -- the status of `rm -rf "$np_v_new" "$np_v_old"` is not looked at
  | clean {dirs : TargetDirs Tree} {new old : Option Tree} (hnew : Removed dirs.new new) (hold : Removed dirs.old old) :
      BuildCommand l .clean dirs (.goOn .apple) { dirs with new := new, old := old }
  | apple {dirs : TargetDirs Tree} : BuildCommand l .apple dirs (.goOn .clone) dirs
  | apple_refuses {dirs : TargetDirs Tree} : BuildCommand l .apple dirs (.exit false) dirs
  | clone {dirs : TargetDirs Tree} :
      BuildCommand l .clone dirs (.goOn .overlay) { dirs with new := some (place ops l.base dirs.new) }
  | clone_fails {dirs : TargetDirs Tree} (left : Option Tree) :
      BuildCommand l .clone dirs (.goOn .copy) { dirs with new := left }
  | copy {dirs : TargetDirs Tree} :
      BuildCommand l .copy dirs (.goOn .overlay) { dirs with new := some (place ops l.base dirs.new) }
  | copy_fails {dirs : TargetDirs Tree} (left : Option Tree) :
      BuildCommand l .copy dirs (.goOn .discard) { dirs with new := left }
  | overlay {dirs : TargetDirs Tree} {tree : Tree} (hnew : dirs.new = some tree) :
      BuildCommand l .overlay dirs (.goOn .mark) { dirs with new := some (ops.overlay l.want tree) }
  | overlay_fails {dirs : TargetDirs Tree} (left : Option Tree) :
      BuildCommand l .overlay dirs (.goOn .discard) { dirs with new := left }
  | mark {dirs : TargetDirs Tree} {tree : Tree} (hnew : dirs.new = some tree) :
      BuildCommand l .mark dirs (.goOn .use) { dirs with new := some (ops.mark l.want tree) }
  | mark_fails {dirs : TargetDirs Tree} (left : Option Tree) :
      BuildCommand l .mark dirs (.goOn .discard) { dirs with new := left }
  | use {dirs : TargetDirs Tree} {tree : Tree} (hnew : dirs.new = some tree) :
      BuildCommand l .use dirs (.goOn .aside) { dirs with new := some (ops.use tree) }
  | use_fails {dirs : TargetDirs Tree} (left : Option Tree) :
      BuildCommand l .use dirs (.goOn .discard) { dirs with new := left }
  | aside {dirs : TargetDirs Tree} {tree : Tree} (htarget : dirs.target = some tree) :
      BuildCommand l .aside dirs (.goOn .moveIn) { dirs with target := none, old := some (place ops tree dirs.old) }
  | aside_absent {dirs : TargetDirs Tree} (htarget : dirs.target = none) :
      BuildCommand l .aside dirs (.goOn .moveIn) dirs
  | aside_fails {dirs : TargetDirs Tree} {tree : Tree} (htarget : dirs.target = some tree) :
      BuildCommand l .aside dirs (.goOn .discard) dirs
  | moveIn {dirs : TargetDirs Tree} {tree : Tree} (hnew : dirs.new = some tree) :
      BuildCommand l .moveIn dirs (.goOn .finish) { dirs with target := some (place ops tree dirs.target), new := none }
  | moveIn_fails {dirs : TargetDirs Tree} : BuildCommand l .moveIn dirs (.goOn .putBack) dirs
  | putBack {dirs : TargetDirs Tree} {tree : Tree} (hold : dirs.old = some tree) :
      BuildCommand l .putBack dirs (.goOn .discard) { dirs with target := some (place ops tree dirs.target), old := none }
  | putBack_absent {dirs : TargetDirs Tree} (hold : dirs.old = none) :
      BuildCommand l .putBack dirs (.goOn .discard) dirs
  | putBack_fails {dirs : TargetDirs Tree} {tree : Tree} (hold : dirs.old = some tree) :
      BuildCommand l .putBack dirs (.goOn .discard) dirs
  | discard {dirs : TargetDirs Tree} {new : Option Tree} (hnew : Removed dirs.new new) :
      BuildCommand l .discard dirs (.exit false) { dirs with new := new }
  | finish {dirs : TargetDirs Tree} {old : Option Tree} (hold : Removed dirs.old old) :
      BuildCommand l .finish dirs (.goOn .say) { dirs with old := old }
  | say {dirs : TargetDirs Tree} : BuildCommand l .say dirs (.exit true) dirs

/-- The folders, the launch that holds the lock, and for every launch that reported failure, as one that is stopped
does: the target as it found it, and as it left it. -/
structure VariantTrees (Tree : Type) where
  dirs : TargetDirs Tree
  running : Option (VariantLaunch Tree × BuildPhase)
  failures : List (Option Tree × Option Tree)

/-- What is written down for a launch that ends. -/
def BuildNext.report (l : VariantLaunch Tree) (left : Option Tree) : BuildNext → List (Option Tree × Option Tree)
  | .exit false => [(l.found, left)]
  | _ => []

def BuildNext.running (l : VariantLaunch Tree) : BuildNext → Option (VariantLaunch Tree × BuildPhase)
  | .goOn phase => some (l, phase)
  | .exit _ => none

variable (bases : Set Tree)

/-- What can happen next. -/
inductive BuildEvent
  | begin
  | command
  | stop
  | sweep
  | collect

/-- What happens to the folders of one target, `bases` being what the base runners are. -/
inductive BuildStep : BuildEvent → VariantTrees Tree → VariantTrees Tree → Prop
  | begin {s : VariantTrees Tree} (hfree : s.running = none) {base : Tree} (hbase : base ∈ bases) (want : Bytes)
      (rebuild : Bool) :
      BuildStep .begin s { s with running := some (⟨base, want, rebuild, s.dirs.target⟩, .check) }
  | command {s : VariantTrees Tree} {l : VariantLaunch Tree} {phase : BuildPhase} (hrunning : s.running = some (l, phase))
      {next : BuildNext} {dirs : TargetDirs Tree} (h : BuildCommand ops l phase s.dirs next dirs) :
      BuildStep .command s
        { dirs := dirs, running := next.running l, failures := next.report l dirs.target ++ s.failures }
  /-- A signal: the trap is `rm -rf "$np_v_new"` and a status that is not zero, wherever the build has got to. -/
  | stop {s : VariantTrees Tree} {l : VariantLaunch Tree} {phase : BuildPhase} (hrunning : s.running = some (l, phase))
      {new : Option Tree} (hnew : Removed s.dirs.new new) :
      BuildStep .stop s {
        dirs := { s.dirs with new := new }
        running := none
        failures := (l.found, s.dirs.target) :: s.failures }
  /-- `np_variant_sweep`, which takes the lock. -/
  | sweep {s : VariantTrees Tree} (hfree : s.running = none) {new old : Option Tree} (hnew : Removed s.dirs.new new)
      (hold : Removed s.dirs.old old) : BuildStep .sweep s { s with dirs := { s.dirs with new := new, old := old } }
  /-- `np_variant_gc` of a launch that runs another build of the combination. -/
  | collect {s : VariantTrees Tree} : BuildStep .collect s { s with dirs := { s.dirs with target := none } }

/-- Any launches for one target. -/
def Builds : VariantTrees Tree → VariantTrees Tree → Prop :=
  Relation.ReflTransGen fun s s' ↦ ∃ event, BuildStep ops bases event s s'

/-- The base runner with everything a build adds to it. -/
def Complete (tree : Tree) : Prop :=
  ∃ base ∈ bases, ∃ want, tree = ops.use (ops.mark want (ops.overlay want base))

/-- Nothing stands where a tree is copied or moved to, no launch is stopped once the target is moved aside, it can
be put back, and nothing collects the target. -/
structure Careful (event : BuildEvent) (s s' : VariantTrees Tree) : Prop where
  copies : ∀ l, s.running = some (l, .clone) ∨ s.running = some (l, .copy) → s.dirs.new = none
  aside : ∀ l, s.running = some (l, .aside) → s.dirs.old = none
  stops : event = .stop → ∀ l phase, s.running = some (l, phase) → phase.moved = false
  putBack : ∀ l, s.running = some (l, .putBack) → s'.dirs.old = none
  keeps : event = .collect → s.dirs.target = none

/-- The target, with nothing missing from it. -/
def TargetOk (dirs : TargetDirs Tree) : Prop :=
  ∀ tree, dirs.target = some tree → Complete ops bases tree

/-- What each command may rely on. -/
def BuildOk (l : VariantLaunch Tree) (dirs : TargetDirs Tree) : BuildPhase → Prop
  | .check | .clean | .apple | .clone | .copy | .discard => dirs.target = l.found
  | .overlay => dirs.target = l.found ∧ dirs.new = some l.base
  | .mark => dirs.target = l.found ∧ dirs.new = some (ops.overlay l.want l.base)
  | .use => dirs.target = l.found ∧ dirs.new = some (ops.mark l.want (ops.overlay l.want l.base))
  | .aside => dirs.target = l.found ∧ dirs.new = some (ops.use (ops.mark l.want (ops.overlay l.want l.base)))
  | .moveIn => dirs.target = none ∧ dirs.old = l.found ∧
      dirs.new = some (ops.use (ops.mark l.want (ops.overlay l.want l.base)))
  | .putBack => dirs.target = none ∧ dirs.old = l.found
  | .finish | .say => ∃ tree, dirs.target = some tree ∧ Complete ops bases tree

variable {ops bases}

section command

variable {l : VariantLaunch Tree} {dirs dirs' : TargetDirs Tree} {phase : BuildPhase} {next : BuildNext}

theorem BuildOk.targetOk (h : BuildOk ops bases l dirs phase)
    (hfound : ∀ tree, l.found = some tree → Complete ops bases tree) : TargetOk ops bases dirs := by
  intro tree htarget
  have hfrom : dirs.target = l.found → Complete ops bases tree := fun e ↦ hfound tree (e ▸ htarget)
  cases phase with
  | overlay => exact hfrom h.1
  | mark => exact hfrom h.1
  | use => exact hfrom h.1
  | aside => exact hfrom h.1
  | moveIn =>
    rw [h.1] at htarget
    cases htarget
  | putBack =>
    rw [h.1] at htarget
    cases htarget
  | finish =>
    obtain ⟨built, hbuilt, hcomplete⟩ := h
    rw [htarget] at hbuilt
    exact Option.some.inj hbuilt ▸ hcomplete
  | say =>
    obtain ⟨built, hbuilt, hcomplete⟩ := h
    rw [htarget] at hbuilt
    exact Option.some.inj hbuilt ▸ hcomplete
  | _ => exact hfrom h

/-- What a build leaves where it ends, and the next command where it goes on. -/
def NextOk (ops : RunnerOps Tree) (bases : Set Tree) (l : VariantLaunch Tree) (dirs : TargetDirs Tree) : BuildNext → Prop
  | .goOn phase => BuildOk ops bases l dirs phase
  | .exit true => TargetOk ops bases dirs
  | .exit false => dirs.target = l.found

theorem BuildCommand.preserves (hcommand : BuildCommand ops l phase dirs next dirs') (h : BuildOk ops bases l dirs phase)
    (hbase : l.base ∈ bases) (hfound : ∀ tree, l.found = some tree → Complete ops bases tree)
    (hcopies : phase = .clone ∨ phase = .copy → dirs.new = none) (haside : phase = .aside → dirs.old = none)
    (hback : phase = .putBack → dirs'.old = none) : NextOk ops bases l dirs' next := by
  have htargetOk := h.targetOk hfound
  cases hcommand with
  | check _ => exact h
  | check_built _ _ _ => exact htargetOk
  | check_busy _ _ _ => exact htargetOk
  | check_fails => exact h
  | clean _ _ => exact h
  | apple => exact h
  | apple_refuses => exact h
  | clone =>
    have hnew := hcopies (.inl rfl)
    exact ⟨h, by rw [hnew, place]⟩
  | clone_fails _ => exact h
  | copy =>
    have hnew := hcopies (.inr rfl)
    exact ⟨h, by rw [hnew, place]⟩
  | copy_fails _ => exact h
  | overlay hnew =>
    have htree := Option.some.inj (hnew.symm.trans h.2)
    exact ⟨h.1, by rw [htree]⟩
  | overlay_fails _ => exact h.1
  | mark hnew =>
    have htree := Option.some.inj (hnew.symm.trans h.2)
    exact ⟨h.1, by rw [htree]⟩
  | mark_fails _ => exact h.1
  | use hnew =>
    have htree := Option.some.inj (hnew.symm.trans h.2)
    exact ⟨h.1, by rw [htree]⟩
  | use_fails _ => exact h.1
  | @aside _ tree htarget =>
    -- nothing stands at the scratch path, so the whole target stands there now
    have hold : some (place ops tree dirs.old) = l.found := by rw [haside rfl, place, ← h.1, htarget]
    exact ⟨rfl, hold, h.2⟩
  | aside_absent htarget =>
    have hold : dirs.old = l.found := by rw [haside rfl, ← h.1, htarget]
    exact ⟨htarget, hold, h.2⟩
  | aside_fails _ => exact h.1
  | moveIn hnew =>
    have htree := Option.some.inj (hnew.symm.trans h.2.2)
    refine ⟨_, rfl, l.base, hbase, l.want, ?_⟩
    rw [h.1, place, htree]
  | moveIn_fails => exact ⟨h.1, h.2.1⟩
  | putBack hold =>
    show some (place ops _ dirs.target) = l.found
    rw [h.1, place, ← hold, h.2]
  | putBack_absent hold =>
    show dirs.target = l.found
    rw [h.1, ← h.2, hold]
  | putBack_fails hold =>
    -- the one command whose failure leaves the target aside
    rw [hback rfl] at hold
    cases hold
  | discard _ => exact h
  | finish _ => exact h
  | say => exact htargetOk

end command

/-! ## Every run -/

/-- The folders of a target between two commands of whoever holds the lock. -/
structure BuildsOk (ops : RunnerOps Tree) (bases : Set Tree) (s : VariantTrees Tree) : Prop where
  target : TargetOk ops bases s.dirs
  launch : ∀ l phase, s.running = some (l, phase) →
    l.base ∈ bases ∧ ∀ tree, l.found = some tree → Complete ops bases tree
  running : ∀ l phase, s.running = some (l, phase) → BuildOk ops bases l s.dirs phase
  failures : ∀ report ∈ s.failures, report.1 = report.2

theorem BuildOk.found_of_stop {l : VariantLaunch Tree} {dirs : TargetDirs Tree} {phase : BuildPhase}
    (h : BuildOk ops bases l dirs phase) (hmoved : phase.moved = false) : l.found = dirs.target := by
  cases phase with
  | moveIn => cases hmoved
  | putBack => cases hmoved
  | finish => cases hmoved
  | say => cases hmoved
  | overlay => exact h.1.symm
  | mark => exact h.1.symm
  | use => exact h.1.symm
  | aside => exact h.1.symm
  | _ => exact h.symm

theorem BuildsOk.step {event : BuildEvent} {s s' : VariantTrees Tree} (h : BuildsOk ops bases s)
    (hstep : BuildStep ops bases event s s') (hcareful : Careful event s s') : BuildsOk ops bases s' := by
  have hnone : ∀ {l : VariantLaunch Tree} {phase : BuildPhase} {p : Prop},
      (none : Option (VariantLaunch Tree × BuildPhase)) = some (l, phase) → p := fun e ↦ by cases e
  cases hstep with
  | begin hfree hbase want rebuild =>
    refine ⟨h.target, ?_, ?_, h.failures⟩
    · intro l phase hrunning
      obtain ⟨rfl, -⟩ := Prod.mk.inj (Option.some.inj hrunning)
      exact ⟨hbase, h.target⟩
    · intro l phase hrunning
      obtain ⟨rfl, rfl⟩ := Prod.mk.inj (Option.some.inj hrunning)
      exact rfl
  | @command _ l phase hrunning next dirs hcommand =>
    obtain ⟨hbase, hfound⟩ := h.launch l phase hrunning
    have hok : NextOk ops bases l dirs next := by
      apply hcommand.preserves (h.running l phase hrunning) hbase hfound
      · rintro (rfl | rfl)
        · exact hcareful.copies l (.inl hrunning)
        · exact hcareful.copies l (.inr hrunning)
      · rintro rfl
        exact hcareful.aside l hrunning
      · rintro rfl
        exact hcareful.putBack l hrunning
    cases next with
    | goOn phase' =>
      refine ⟨BuildOk.targetOk hok hfound, ?_, ?_, h.failures⟩
      · intro l' _ hrunning'
        obtain ⟨rfl, -⟩ := Prod.mk.inj (Option.some.inj hrunning')
        exact ⟨hbase, hfound⟩
      · intro l' _ hrunning'
        obtain ⟨rfl, rfl⟩ := Prod.mk.inj (Option.some.inj hrunning')
        exact hok
    | exit success =>
      cases success with
      | true => exact ⟨hok, fun _ _ ↦ hnone, fun _ _ ↦ hnone, h.failures⟩
      | false =>
        refine ⟨?_, fun _ _ ↦ hnone, fun _ _ ↦ hnone, ?_⟩
        · intro tree htarget
          exact hfound tree ((show dirs.target = l.found from hok) ▸ htarget)
        · intro report hreport
          obtain rfl | hreport := List.mem_cons.mp hreport
          · exact (show dirs.target = l.found from hok).symm
          · exact h.failures report hreport
  | @stop _ l phase hrunning new hnew =>
    refine ⟨h.target, fun _ _ ↦ hnone, fun _ _ ↦ hnone, ?_⟩
    intro report hreport
    obtain rfl | hreport := List.mem_cons.mp hreport
    · exact (h.running l phase hrunning).found_of_stop (hcareful.stops rfl l phase hrunning)
    · exact h.failures report hreport
  | sweep hfree _ _ =>
    refine ⟨h.target, h.launch, ?_, h.failures⟩
    intro l phase hrunning
    rw [hfree] at hrunning
    exact hnone hrunning
  | collect =>
    -- a target that may not be collected was not there
    have hsame : ({ s.dirs with target := none } : TargetDirs Tree) = s.dirs := by rw [← hcareful.keeps rfl]
    rw [hsame]
    exact h

/-- A tree stands at the target, or the running launch has it aside. -/
def Kept (s : VariantTrees Tree) : Prop :=
  s.dirs.target ≠ none ∨
    ∃ l, (s.running = some (l, .moveIn) ∨ s.running = some (l, .putBack)) ∧ s.dirs.old ≠ none

theorem Kept.target {s : VariantTrees Tree} (h : Kept s)
    (hrunning : ∀ l, ¬ (s.running = some (l, .moveIn) ∨ s.running = some (l, .putBack))) : s.dirs.target ≠ none := by
  obtain htarget | ⟨l, hphase, -⟩ := h
  · exact htarget
  · exact absurd hphase (hrunning l)

theorem Kept.step {event : BuildEvent} {s s' : VariantTrees Tree} (h : Kept s)
    (hstep : BuildStep ops bases event s s') (hcareful : Careful event s s') : Kept s' := by
  -- Only between the two `mv`s is nothing at the target.
  have hidle : s.running = none → s.dirs.target ≠ none := by
    intro hfree
    apply h.target
    intro l
    rw [hfree]
    simp
  cases hstep with
  | begin hfree _ _ _ => exact .inl (hidle hfree)
  | @command _ l phase hrunning next dirs hcommand =>
    have hother : ¬ (phase = .moveIn ∨ phase = .putBack) → s.dirs.target ≠ none := by
      intro hphase
      apply h.target
      rintro l' (hl | hl)
      · exact hphase (.inl (Prod.mk.inj (Option.some.inj (hrunning.symm.trans hl))).2)
      · exact hphase (.inr (Prod.mk.inj (Option.some.inj (hrunning.symm.trans hl))).2)
    cases hcommand with
    | aside _ => exact .inr ⟨l, .inl rfl, Option.some_ne_none _⟩
    | aside_absent htarget => exact absurd htarget (hother (by simp))
    | moveIn _ => exact .inl (Option.some_ne_none _)
    | moveIn_fails =>
      obtain htarget | ⟨_, _, hold⟩ := h
      · exact .inl htarget
      · exact .inr ⟨l, .inr rfl, hold⟩
    | putBack _ => exact .inl (Option.some_ne_none _)
    | putBack_absent hold =>
      obtain htarget | ⟨_, _, hsome⟩ := h
      · exact .inl htarget
      · exact absurd hold hsome
    | putBack_fails hold =>
      have hgone : s.dirs.old = none := hcareful.putBack l hrunning
      rw [hgone] at hold
      cases hold
    | _ => exact .inl (hother (by simp))
  | @stop _ l phase hrunning _ _ =>
    left
    apply h.target
    rintro l' (hphase | hphase)
    · cases hcareful.stops rfl l' _ hphase
    · cases hcareful.stops rfl l' _ hphase
  | sweep hfree _ _ => exact .inl (hidle hfree)
  -- Collected for another build of the combination, which the condition leaves out.
  | collect =>
    obtain htarget | hmoved := h
    · exact absurd (hcareful.keeps rfl) htarget
    · exact .inr hmoved

/-- A run of launches for one target. -/
def BuildRun (ops : RunnerOps Tree) (bases : Set Tree) : VariantTrees Tree → VariantTrees Tree → Prop :=
  Relation.ReflTransGen fun s s' ↦ ∃ event, BuildStep ops bases event s s' ∧ Careful event s s'

theorem BuildsOk.run {s s' : VariantTrees Tree} (h : BuildsOk ops bases s) (hrun : BuildRun ops bases s s') :
    BuildsOk ops bases s' := by
  induction hrun with
  | refl => exact h
  | tail _ hstep ih =>
    obtain ⟨event, hstep, hcareful⟩ := hstep
    exact ih.step hstep hcareful

theorem Kept.run {s s' : VariantTrees Tree} (h : Kept s) (hrun : BuildRun ops bases s s') : Kept s' := by
  induction hrun with
  | refl => exact h
  | tail _ hstep ih =>
    obtain ⟨event, hstep, hcareful⟩ := hstep
    exact ih.step hstep hcareful

/-- The target, or what the running launch has moved aside, is a complete runner. -/
theorem Kept.complete {s : VariantTrees Tree} (h : Kept s) (hok : BuildsOk ops bases s) :
    ∃ tree, (s.dirs.target = some tree ∨ s.dirs.old = some tree) ∧ Complete ops bases tree := by
  obtain htarget | ⟨l, hphase, hold⟩ := h
  · obtain ⟨tree, htree⟩ := Option.ne_none_iff_exists'.mp htarget
    exact ⟨tree, .inl htree, hok.target tree htree⟩
  · obtain ⟨tree, htree⟩ := Option.ne_none_iff_exists'.mp hold
    have hfound : s.dirs.old = l.found ∧ ∀ tree, l.found = some tree → Complete ops bases tree := by
      obtain hphase | hphase := hphase
      · exact ⟨(hok.running l _ hphase).2.1, (hok.launch l _ hphase).2⟩
      · exact ⟨(hok.running l _ hphase).2, (hok.launch l _ hphase).2⟩
    exact ⟨tree, .inr htree, hfound.2 tree (hfound.1 ▸ htree)⟩

section runs

variable {s₀ s : VariantTrees Tree} {l : VariantLaunch Tree} {phase : BuildPhase} {next : BuildNext}
  {dirs : TargetDirs Tree} {base : Tree}

theorem BuildRun.command (h : BuildRun ops bases s₀ s) (hrunning : s.running = some (l, phase))
    (hcommand : BuildCommand ops l phase s.dirs next dirs) (hphase : phase ≠ .putBack)
    (hnew : phase = .clone ∨ phase = .copy → s.dirs.new = none) (hold : phase = .aside → s.dirs.old = none) :
    BuildRun ops bases s₀
      { dirs := dirs, running := next.running l, failures := next.report l dirs.target ++ s.failures } := by
  have hthis : ∀ {l' phase'}, s.running = some (l', phase') → phase = phase' := by
    intro l' phase' hrunning'
    exact (Prod.mk.inj (Option.some.inj (hrunning.symm.trans hrunning'))).2
  refine .tail h ⟨.command, .command hrunning hcommand, ?_, ?_, ?_, ?_, ?_⟩
  · rintro l' (hrunning' | hrunning')
    · exact hnew (.inl (hthis hrunning'))
    · exact hnew (.inr (hthis hrunning'))
  · exact fun l' hrunning' ↦ hold (hthis hrunning')
  · intro hevent
    cases hevent
  · exact fun l' hrunning' ↦ absurd (hthis hrunning') hphase
  · intro hevent
    cases hevent

theorem BuildRun.builds (h : BuildRun ops bases s₀ s) : Builds ops bases s₀ s := by
  induction h with
  | refl => exact .refl
  | tail _ hstep ih =>
    obtain ⟨event, hstep, -⟩ := hstep
    exact ih.tail ⟨event, hstep⟩

/-- A complete tree, and nothing else. -/
def built (ops : RunnerOps Tree) (base : Tree) (want : Bytes) : VariantTrees Tree where
  dirs := ⟨some (ops.use (ops.mark want (ops.overlay want base))), none, none⟩
  running := none
  failures := []

theorem Builds.command (h : Builds ops bases s₀ s) (hrunning : s.running = some (l, phase))
    (hcommand : BuildCommand ops l phase s.dirs next dirs) :
    Builds ops bases s₀ { dirs := dirs, running := next.running l, failures := next.report l dirs.target ++ s.failures } :=
  h.tail ⟨.command, .command hrunning hcommand⟩

theorem Builds.begin {s : VariantTrees Tree} (hfree : s.running = none) (hbase : base ∈ bases) (want : Bytes)
    (rebuild : Bool) :
    Builds ops bases s { s with running := some (⟨base, want, rebuild, s.dirs.target⟩, .check) } :=
  .single ⟨.begin, .begin hfree hbase want rebuild⟩

end runs

end build

/-! ## A runner of two files -/

/-- What is in a runner, and in a folder inside it. -/
inductive RunnerFile
  | wine
  | server
  | module
  | variant (want : Bytes)
  | used
  | within (file : RunnerFile)

def RunnerFile.wanted : RunnerFile → Option Bytes
  | .variant want => some want
  | _ => none

end NotProton.CompatRun
