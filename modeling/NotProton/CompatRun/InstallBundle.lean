import NotProton.Library.Text

/-!
# InstallBundle — swapping a game's launcher bundle (`compat_run.sh`)

`install_bundle` moves every bundle of the launcher folder into a backup and the staged one into
place.  `finish_bundle`, its exit trap, tells by the identity of what stands at `loader_app` whether
the swap was made, and puts the bundles back where it was not.
-/

open NotProton.Library

namespace NotProton.CompatRun

/-- A bundle, or a link or file named like one. -/
structure Item where
  /-- `stat -f '%d:%i'` -/
  identity : Nat
  /-- `-d`: a folder, or a link to one. -/
  opens : Bool
  /-- `-L` -/
  link : Bool
  /-- `$(bundle_listing "$b")` -/
  listing : Bytes
  deriving DecidableEq

def startsWithDot (n : Bytes) : Bool := n.head? == some 46

-- `*`
def starGlob (n : Bytes) : Bool := !startsWithDot n && !n.isEmpty
-- `.[!.]*`
def dotGlob (n : Bytes) : Bool := startsWithDot n && decide (2 ≤ n.length) && n[1]? != some 46
-- `*.app`
def appGlob (n : Bytes) : Bool := starGlob n && (ascii ".app").isSuffixOf n
-- `.[!.]*.app`
def dotAppGlob (n : Bytes) : Bool := dotGlob n && (ascii ".app").isSuffixOf (n.drop 2)

/-- The names of a folder that the volume takes for one, by the first that stands there. -/
def itemAt (fold : Bytes → Bytes) (l : List (Bytes × Item)) (n : Bytes) : Option Item :=
  (l.find? fun e ↦ fold e.1 == fold n).map Prod.snd

def without (fold : Bytes → Bytes) (l : List (Bytes × Item)) (n : Bytes) : List (Bytes × Item) :=
  l.filter fun e ↦ fold e.1 != fold n

/-- The launcher folder of a game, with the bundle staged for it. -/
structure Launchers where
  /-- How the volume compares names. -/
  fold : Bytes → Bytes
  /-- `${loader_app##*/}` -/
  app : Bytes
  bundles : List (Bytes × Item)
  stage : Item
  /-- The status of `appinfo --same-bundle`, none where the tool is not there. -/
  appinfo : Item → Option Nat
  app_named : appGlob app = true
  named : ∀ b ∈ bundles, appGlob b.1 = true ∨ dotAppGlob b.1 = true ∨ fold b.1 = fold app
  distinct : (bundles.map fun b ↦ fold b.1).Nodup
  stage_opens : stage.opens = true
  identity_ne : ∀ b ∈ bundles, b.2.identity ≠ stage.identity

/-- The launcher folder between two commands. -/
structure LauncherDir where
  root : List (Bytes × Item)
  /-- What `mv` put inside a bundle instead of in its place, with that bundle's name. -/
  inside : List (Bytes × Bytes × Item)
  /-- `$loader_backup` -/
  backup : Option (List (Bytes × Item))

/-- A command of `install_bundle` that fails.  A failed `rm -rf` leaves some of what was there. -/
inductive BundleStep
  | lock
  | statStage
  | makeBackup
  | moveOut (name : Bytes)
  | install
  | statInstalled
  | moveBack (name : Bytes)
  | removeFolder
  | removeBackup (left : List Bytes)
  | removeOther (name : Bytes)
  | removeWork
  deriving DecidableEq

inductive Signal
  | hup
  | int
  | term
  deriving DecidableEq

def Signal.status : Signal → Nat
  | hup => 129
  | int => 130
  | term => 143

/-- Where a signal arrives. -/
inductive Moment
  /-- With the lock held, before the backup is made. -/
  | early
  /-- With the backup made and no trap set. -/
  | made
  /-- With the traps set and `k` of the loop's names done. -/
  | moving (k : Nat)
  /-- With the staged bundle in place, before `finish_bundle`. -/
  | swapped
  /-- In `finish_bundle`, its own trap reset or running and signals not ignored yet. -/
  | finishing
  deriving DecidableEq

/-- The command that fails and the signal that arrives, if any. -/
structure Fault where
  fails : Option BundleStep
  signal : Option (Signal × Moment)

/-- The signal that arrives at a moment. -/
def Fault.hits (f : Fault) (m : Moment) : Option Signal :=
  match f.signal with
  | some (s, m') => if m' = m then some s else none
  | none => none

/-- `bundle_matches "$b" "$loader_stage"` -/
def Launchers.bundleMatches (l : Launchers) (b : Item) : Bool :=
  match l.appinfo b with
  | some 0 => true
  | some 1 => false
  | _ => b.listing == l.stage.listing

/-- The names the loop goes through. -/
def Launchers.names (l : Launchers) : List Bytes :=
  (l.bundles.map Prod.fst).filter appGlob ++ (l.bundles.map Prod.fst).filter dotAppGlob ++ [l.app]

/-- `mv "$item" "$loader_root/$n"`, into what stands there when that is a folder. -/
def Launchers.place (l : Launchers) (n : Bytes) (item : Item) (d : LauncherDir) :
    Option LauncherDir :=
  match itemAt l.fold d.root n with
  | none => some { d with root := d.root ++ [(n, item)] }
  | some old =>
      if old.opens then some { d with inside := d.inside ++ [(n, n, item)] }
      else if item.opens && !item.link then none
      else some { d with root := without l.fold d.root n ++ [(n, item)] }

/-- `for b in "$loader_root"/*.app "$loader_root"/.[!.]*.app "$loader_app"`, with the status the
script exits with when it does. -/
def Launchers.moveAll (l : Launchers) (f : Fault) :
    Nat → List Bytes → LauncherDir → LauncherDir × Option Nat
  | k, [], d => (d, (f.hits (.moving k)).map Signal.status)
  | k, b :: bs, d =>
      match f.hits (.moving k) with
      | some s => (d, some s.status)
      | none =>
          match itemAt l.fold d.root b with
          | none => l.moveAll f (k + 1) bs d
          | some item =>
              if f.fails = some (.moveOut b) then (d, some 1)
              else
                l.moveAll f (k + 1) bs
                  { d with
                    root := without l.fold d.root b
                    backup := d.backup.map (· ++ [(b, item)]) }

/-- `for saved in "$loader_backup"/* "$loader_backup"/.[!.]*` -/
def Launchers.moveBack (l : Launchers) (f : Fault) :
    List (Bytes × Item) → LauncherDir → Nat → LauncherDir × Nat
  | [], d, result => (d, result)
  | e :: es, d, result =>
      if f.fails = some (.moveBack e.1) then l.moveBack f es d 1
      else
        match l.place e.1 e.2 d with
        | none => l.moveBack f es d 1
        | some d' =>
            l.moveBack f es { d' with backup := d'.backup.map fun b ↦ without l.fold b e.1 } result

/-- What `finish_bundle` finds in the backup. -/
def LauncherDir.saved (d : LauncherDir) : List (Bytes × Item) :=
  (d.backup.getD []).filter (fun e ↦ starGlob e.1) ++ (d.backup.getD []).filter fun e ↦ dotGlob e.1

def Launchers.finishBundle (l : Launchers) (f : Fault) (d : LauncherDir) (result : Nat) :
    LauncherDir × Nat :=
  match f.hits .finishing with
  -- The exit trap is gone or already running, so the handler's exit is the end.
  | some s => (d, s.status)
  | none =>
      let installed :=
        if f.fails = some .statInstalled then none
        else (itemAt l.fold d.root l.app).map Item.identity
      if installed ≠ some l.stage.identity then
        let (d, result) := l.moveBack f d.saved d result
        if d.backup = some [] ∧ f.fails ≠ some .removeFolder then ({ d with backup := none }, result)
        else (d, 1)
      else
        match f.fails with
        | some (.removeBackup left) =>
            ({ d with backup := d.backup.map fun b ↦ b.filter fun e ↦ e.1 ∈ left }, result)
        | _ => ({ d with backup := none }, result)

/-- From the traps on. -/
def Launchers.swap (l : Launchers) (f : Fault) (d : LauncherDir) : LauncherDir × Nat :=
  match l.moveAll f 0 l.names d with
  | (d, some status) => l.finishBundle f d status
  | (d, none) =>
      if f.fails = some .install then l.finishBundle f d 1
      else
        match l.place l.app l.stage d with
        | none => l.finishBundle f d 1
        | some d => l.finishBundle f d (((f.hits .swapped).map Signal.status).getD 0)

/-- The bundle in place is a real one and the staged one brings nothing new. -/
def Launchers.same (l : Launchers) : Bool :=
  l.bundles.any fun b ↦ b.1 == l.app && b.2.opens && !b.2.link && l.bundleMatches b.2

/-- `install_bundle`: the launcher folder it leaves, and its status. -/
def Launchers.installBundle (l : Launchers) (f : Fault) : LauncherDir × Nat :=
  let d : LauncherDir := ⟨l.bundles, [], none⟩
  if f.fails = some .lock then (d, 1)
  else
    match f.hits .early with
    | some s => (d, s.status)
    | none =>
        if l.same then
          let stays (b : Bytes × Item) : Bool :=
            b.1 == l.app || !(appGlob b.1 || dotAppGlob b.1) ||
              f.fails == some (.removeOther b.1)
          ({ d with root := l.bundles.filter stays }, 0)
        else if f.fails = some .statStage ∨ f.fails = some .makeBackup then (d, 1)
        else
          match f.hits .made with
          | some s => ({ d with backup := some [] }, s.status)
          | none => l.swap f { d with backup := some [] }

/-! ## All or nothing -/

/-- The staged bundle is in place, as it was staged, and no other bundle is left. -/
def Launchers.Swapped (l : Launchers) (d : LauncherDir) : Prop :=
  itemAt l.fold d.root l.app = some l.stage ∧
    (∀ n, l.fold n ≠ l.fold l.app → itemAt l.fold d.root n = none) ∧
      d.inside = [] ∧ d.backup.getD [] = []

/-- Every bundle is back at its own path and nothing was added. -/
def Launchers.Restored (l : Launchers) (d : LauncherDir) : Prop :=
  (∀ n, itemAt l.fold d.root n = itemAt l.fold l.bundles n) ∧ d.inside = [] ∧ d.backup = none

/-- The bundle that the first `k` names of the loop move out under the name `n`. -/
def Launchers.Moved (l : Launchers) (k : Nat) (n : Bytes) : Prop :=
  ∃ j < k, l.names[j]? = some n ∧ (itemAt l.fold l.bundles n).isSome = true ∧
    ∀ i < j, ∀ n', l.names[i]? = some n' → l.fold n' ≠ l.fold n

/-- The script does not come to have the staged bundle in place. -/
def Launchers.Cut (l : Launchers) (f : Fault) : Prop :=
  (∃ k ≤ l.names.length, (f.hits (.moving k)).isSome = true) ∨
    (∃ n, l.Moved l.names.length n ∧ f.fails = some (.moveOut n)) ∨ f.fails = some .install

/-- It ends before it has made the backup. -/
def Launchers.Ended (_ : Launchers) (f : Fault) : Prop :=
  f.fails = some .lock ∨ f.fails = some .statStage ∨ f.fails = some .makeBackup ∨
    (f.hits .early).isSome = true

/-- The bundles are not all back, or the backup is still there. -/
def Launchers.Unrestored (l : Launchers) (f : Fault) : Prop :=
  (f.hits .finishing).isSome = true ∨ f.fails = some .removeFolder ∨
    ∃ k ≤ l.names.length, ∃ n, (f.hits (.moving k)).isSome = true ∧ l.Moved k n ∧
      f.fails = some (.moveBack n)

/-- Old bundles are left beside the new one, inside it or in the backup. -/
def Launchers.Littered (l : Launchers) (f : Fault) : Prop :=
  (l.bundles ≠ [] ∧ ((f.hits .finishing).isSome = true ∨ f.fails = some .statInstalled)) ∨
    ∃ left n, f.fails = some (.removeBackup left) ∧ n ∈ left ∧ l.Moved l.names.length n

/-- The faults that `install_bundle` does not stand. -/
def Launchers.Torn (l : Launchers) (f : Fault) : Prop :=
  ¬ l.Ended f ∧
    ((f.hits .made).isSome = true ∨ (l.Cut f ∧ l.Unrestored f) ∨ (¬ l.Cut f ∧ l.Littered f))

/-! ## Looking names up -/

section Lookup

variable {fold : Bytes → Bytes} {s : List (Bytes × Item)} {n m : Bytes} {item : Item}

theorem itemAt_congr (h : fold n = fold m) : itemAt fold s n = itemAt fold s m := by
  rw [itemAt, itemAt, h]

theorem itemAt_append (e : Bytes × Item) (hn : itemAt fold s n = none) :
    itemAt fold (s ++ [e]) n = if fold e.1 = fold n then some e.2 else none := by
  have hs : (s.find? fun e ↦ fold e.1 == fold n) = none := by
    simpa [itemAt] using hn
  rw [itemAt, List.find?_append, hs]
  by_cases h : fold e.1 = fold n
  · simp [h]
  · simp [h]

theorem itemAt_append_of_some (e : Bytes × Item) (hn : itemAt fold s n = some item) :
    itemAt fold (s ++ [e]) n = some item := by
  obtain ⟨b, hb, rfl⟩ := Option.map_eq_some_iff.mp hn
  rw [itemAt, List.find?_append, hb]
  rfl

theorem itemAt_append_ne {e : Bytes × Item} (h : fold e.1 ≠ fold n) :
    itemAt fold (s ++ [e]) n = itemAt fold s n := by
  rw [itemAt, itemAt, List.find?_append]
  simp [h]

theorem mem_without {e : Bytes × Item} : e ∈ without fold s n ↔ e ∈ s ∧ fold e.1 ≠ fold n := by
  simp [without]

theorem itemAt_eq_none : itemAt fold s n = none ↔ ∀ e ∈ s, fold e.1 ≠ fold n := by
  simp [itemAt]

theorem itemAt_without_self (h : fold n = fold m) : itemAt fold (without fold s n) m = none := by
  rw [itemAt_eq_none]
  intro e he
  rw [← h]
  exact (mem_without.mp he).2

theorem itemAt_without_ne (h : fold n ≠ fold m) :
    itemAt fold (without fold s n) m = itemAt fold s m := by
  rw [itemAt, itemAt, without, List.find?_filter]
  congr 2
  funext e
  by_cases he : fold e.1 = fold m
  · simp [he, Ne.symm h]
  · simp [he]

theorem itemAt_mem (h : itemAt fold s n = some item) :
    ∃ e ∈ s, fold e.1 = fold n ∧ e.2 = item := by
  obtain ⟨e, he, hitem⟩ := Option.map_eq_some_iff.mp h
  have hp := List.find?_some he
  exact ⟨e, List.mem_of_find?_eq_some he, by simpa using hp, hitem⟩

theorem itemAt_of_mem (hs : (s.map fun e ↦ fold e.1).Nodup) {e : Bytes × Item} (he : e ∈ s)
    (h : fold e.1 = fold n) : itemAt fold s n = some e.2 := by
  cases hat : itemAt fold s n with
  | none => exact absurd h (itemAt_eq_none.mp hat e he)
  | some item =>
    obtain ⟨b, hb, hbn, rfl⟩ := itemAt_mem hat
    rw [List.inj_on_of_nodup_map hs hb he (hbn.trans h.symm)]

theorem itemAt_forall_none (h : ∀ n, itemAt fold s n = none) : s = [] := by
  apply List.eq_nil_iff_forall_not_mem.mpr
  intro e he
  exact itemAt_eq_none.mp (h e.1) e he rfl

theorem without_nodup (hs : (s.map fun e ↦ fold e.1).Nodup) (n : Bytes) :
    ((without fold s n).map fun e ↦ fold e.1).Nodup :=
  hs.sublist (List.filter_sublist.map _)

end Lookup

/-! ## The loop -/

variable {l : Launchers} {f : Fault}

theorem Fault.hits_unique {m m' : Moment} (h : (f.hits m).isSome = true)
    (h' : (f.hits m').isSome = true) : m = m' := by
  unfold Fault.hits at h h'
  split at h
  next s p hp =>
    simp only [hp] at h'
    by_cases hm : p = m
    · by_cases hm' : p = m'
      · rw [← hm, hm']
      · simp [hm'] at h'
    · simp [hm] at h
  next => cases h

/-- What has been moved out once `k` of the loop's names are done. -/
structure Moving (l : Launchers) (k : Nat) (d : LauncherDir) (s : List (Bytes × Item)) : Prop where
  inside : d.inside = []
  backup : d.backup = some s
  gone : ∀ j < k, ∀ n n', l.names[j]? = some n' → l.fold n' = l.fold n →
    itemAt l.fold d.root n = none
  kept : ∀ n, (∀ j < k, ∀ n', l.names[j]? = some n' → l.fold n' ≠ l.fold n) →
    itemAt l.fold d.root n = itemAt l.fold l.bundles n
  saved : ∀ e, e ∈ s ↔ l.Moved k e.1 ∧ itemAt l.fold l.bundles e.1 = some e.2
  distinct : (s.map fun e ↦ l.fold e.1).Nodup

theorem Launchers.Moved.mono {k k' : Nat} {n : Bytes} (h : l.Moved k n) (hk : k ≤ k') :
    l.Moved k' n := by
  obtain ⟨j, hj, hrest⟩ := h
  exact ⟨j, by omega, hrest⟩

theorem Launchers.moved_succ {k : Nat} {n b : Bytes} (hb : l.names[k]? = some b) :
    l.Moved (k + 1) n ↔ l.Moved k n ∨ (b = n ∧ (itemAt l.fold l.bundles n).isSome = true ∧
      ∀ i < k, ∀ n', l.names[i]? = some n' → l.fold n' ≠ l.fold n) := by
  constructor
  · rintro ⟨j, hj, hn, hrest⟩
    rcases Nat.lt_succ_iff_lt_or_eq.mp hj with hj | rfl
    · exact Or.inl ⟨j, hj, hn, hrest⟩
    · exact Or.inr ⟨Option.some.inj (hb.symm.trans hn), hrest⟩
  · rintro (h | ⟨rfl, hrest⟩)
    · exact h.mono (Nat.le_succ k)
    · exact ⟨k, Nat.lt_succ_self k, hb, hrest⟩

theorem Moving.start : Moving l 0 ⟨l.bundles, [], some []⟩ [] where
  inside := rfl
  backup := rfl
  gone j hj := absurd hj (Nat.not_lt_zero j)
  kept _ _ := rfl
  saved e := by
    constructor
    · intro h
      cases h
    · rintro ⟨⟨j, hj, -⟩, -⟩
      omega
  distinct := List.nodup_nil

-- Nothing stands at the name: it was moved out before, or never stood there.
theorem Moving.skip {k : Nat} {d : LauncherDir} {s : List (Bytes × Item)} {b : Bytes}
    (h : Moving l k d s) (hb : l.names[k]? = some b) (hnone : itemAt l.fold d.root b = none) :
    Moving l (k + 1) d s ∧ ∀ n, l.Moved (k + 1) n ↔ l.Moved k n := by
  have hmoved : ∀ n, l.Moved (k + 1) n ↔ l.Moved k n := by
    intro n
    rw [Launchers.moved_succ hb]
    constructor
    · rintro (hm | ⟨rfl, hsome, hfirst⟩)
      · exact hm
      · rw [← h.kept b hfirst, hnone] at hsome
        cases hsome
    · exact Or.inl
  refine ⟨⟨h.inside, h.backup, ?_, ?_, ?_, h.distinct⟩, hmoved⟩
  · intro j hj n n' hn' heq
    rcases Nat.lt_succ_iff_lt_or_eq.mp hj with hj | rfl
    · exact h.gone j hj n n' hn' heq
    · rw [Option.some.inj (hn'.symm.trans hb)] at heq
      rw [← itemAt_congr heq]
      exact hnone
  · intro n hn
    exact h.kept n fun j hj ↦ hn j (by omega)
  · intro e
    rw [hmoved]
    exact h.saved e

theorem Moving.move {k : Nat} {d : LauncherDir} {s : List (Bytes × Item)} {b : Bytes} {item : Item}
    (h : Moving l k d s) (hb : l.names[k]? = some b) (hitem : itemAt l.fold d.root b = some item) :
    Moving l (k + 1)
        { d with
          root := without l.fold d.root b
          backup := d.backup.map (· ++ [(b, item)]) } (s ++ [(b, item)]) ∧
      ¬ l.Moved k b ∧ ∀ n, l.Moved (k + 1) n ↔ l.Moved k n ∨ n = b := by
  -- A name asked for before is gone from the folder, so this one is new.
  have hfirst : ∀ j < k, ∀ n', l.names[j]? = some n' → l.fold n' ≠ l.fold b := by
    intro j hj n' hn' heq
    rw [h.gone j hj b n' hn' heq] at hitem
    cases hitem
  have hold : itemAt l.fold l.bundles b = some item := by
    rw [← h.kept b hfirst]
    exact hitem
  have hmoved : ∀ n, l.Moved (k + 1) n ↔ l.Moved k n ∨ n = b := by
    intro n
    rw [Launchers.moved_succ hb]
    constructor
    · rintro (hm | ⟨rfl, -⟩)
      · exact Or.inl hm
      · exact Or.inr rfl
    · rintro (hm | rfl)
      · exact Or.inl hm
      · exact Or.inr ⟨rfl, by rw [hold]; rfl, hfirst⟩
  have hnew : ¬ l.Moved k b := by
    rintro ⟨j, hj, hn, -⟩
    exact hfirst j hj b hn rfl
  refine ⟨⟨h.inside, by rw [h.backup]; rfl, ?_, ?_, ?_, ?_⟩, hnew, hmoved⟩
  · intro j hj n n' hn' heq
    by_cases hbn : l.fold b = l.fold n
    · exact itemAt_without_self hbn
    · rw [itemAt_without_ne hbn]
      rcases Nat.lt_succ_iff_lt_or_eq.mp hj with hj | rfl
      · exact h.gone j hj n n' hn' heq
      · rw [Option.some.inj (hn'.symm.trans hb)] at heq
        exact absurd heq hbn
  · intro n hn
    have hbn : l.fold b ≠ l.fold n := hn k (Nat.lt_succ_self k) b hb
    rw [itemAt_without_ne hbn]
    exact h.kept n fun j hj ↦ hn j (by omega)
  · intro e
    rw [List.mem_append, List.mem_singleton, h.saved, hmoved]
    constructor
    · rintro (⟨hm, he⟩ | rfl)
      · exact ⟨Or.inl hm, he⟩
      · exact ⟨Or.inr rfl, hold⟩
    · rintro ⟨hm | hm, he⟩
      · exact Or.inl ⟨hm, he⟩
      · right
        rw [hm, hold] at he
        exact Prod.ext hm (Option.some.inj he).symm
  · rw [List.map_append, List.nodup_append]
    refine ⟨h.distinct, List.nodup_singleton _, ?_⟩
    intro x hx y hy hxy
    obtain ⟨e, he, rfl⟩ := List.mem_map.mp hx
    rw [List.map_singleton, List.mem_singleton] at hy
    obtain ⟨⟨j, hj, hn, -⟩, -⟩ := (h.saved e).mp he
    exact hfirst j hj e.1 hn (hxy.trans hy)

/-- The loop goes through, or is cut with `k` names done by a signal there or a failed move. -/
def LoopEnd (l : Launchers) (f : Fault) (r : LauncherDir × Option Nat) : Prop :=
  ∃ k ≤ l.names.length, ∃ s, Moving l k r.1 s ∧
    ((r.2 = none ∧ k = l.names.length ∧ (∀ j ≤ k, f.hits (.moving j) = none) ∧
        ∀ n, l.Moved k n → f.fails ≠ some (.moveOut n)) ∨
      (r.2 ≠ none ∧ ((f.hits (.moving k)).isSome = true ∨
        ∃ n, l.Moved l.names.length n ∧ f.fails = some (.moveOut n))))

theorem moveAll_spec {k : Nat} {bs : List Bytes} {d : LauncherDir} {s : List (Bytes × Item)}
    (hbs : l.names.drop k = bs) (hk : k ≤ l.names.length) (h : Moving l k d s)
    (hquiet : ∀ j < k, f.hits (.moving j) = none)
    (hfine : ∀ n, l.Moved k n → f.fails ≠ some (.moveOut n)) :
    LoopEnd l f (l.moveAll f k bs d) := by
  induction bs generalizing k d s with
  | nil =>
    -- The end of the loop: a signal may still come before what follows it.
    have hlen : k = l.names.length := by
      have := List.drop_eq_nil_iff.mp hbs
      omega
    refine ⟨k, hk, s, h, ?_⟩
    cases hhit : f.hits (.moving k) with
    | none =>
      left
      refine ⟨by simp [Launchers.moveAll, hhit], hlen, ?_, hfine⟩
      intro j hj
      rcases Nat.lt_or_eq_of_le hj with hj | rfl
      · exact hquiet j hj
      · exact hhit
    | some sig =>
      right
      exact ⟨by simp [Launchers.moveAll, hhit], Or.inl rfl⟩
  | cons b bs ih =>
    have hlt : k < l.names.length := by
      by_contra hge
      rw [List.drop_eq_nil_iff.mpr (by omega)] at hbs
      cases hbs
    have hcons := List.drop_eq_getElem_cons hlt
    rw [hbs] at hcons
    obtain ⟨hb, htail⟩ := List.cons.inj hcons
    have hget : l.names[k]? = some b := by
      rw [List.getElem?_eq_getElem hlt, ← hb]
    rw [Launchers.moveAll]
    cases hhit : f.hits (.moving k) with
    | some sig => exact ⟨k, hk, s, h, Or.inr ⟨by simp, Or.inl (by rw [hhit]; rfl)⟩⟩
    | none =>
      have hquiet' : ∀ j < k + 1, f.hits (.moving j) = none := by
        intro j hj
        rcases Nat.lt_succ_iff_lt_or_eq.mp hj with hj | rfl
        · exact hquiet j hj
        · exact hhit
      -- `[ -e ]` skips a bundle that is not there.
      cases hroot : itemAt l.fold d.root b with
      | none =>
        obtain ⟨hmoving, hmoved⟩ := h.skip hget hroot
        exact ih htail.symm hlt hmoving hquiet' fun n hn ↦ hfine n ((hmoved n).mp hn)
      | some item =>
        obtain ⟨hmoving, -, hmoved⟩ := h.move hget hroot
        simp only
        by_cases hfail : f.fails = some (.moveOut b)
        · rw [if_pos hfail]
          refine ⟨k, hk, s, h, Or.inr ⟨by simp, Or.inr ⟨b, ?_, hfail⟩⟩⟩
          exact ((hmoved b).mpr (Or.inr rfl)).mono hlt
        · rw [if_neg hfail]
          apply ih htail.symm hlt hmoving hquiet'
          intro n hn
          rcases (hmoved n).mp hn with hn | rfl
          · exact hfine n hn
          · exact hfail

/-! ## Moving back -/

-- A name the loop goes through is one that the globs over the backup match.
theorem Launchers.names_glob {n : Bytes} (h : n ∈ l.names) : starGlob n = true ∨ dotGlob n = true := by
  have happ : ∀ m, appGlob m = true → starGlob m = true := by
    intro m hm
    exact (Bool.and_eq_true_iff.mp hm).1
  simp only [names, List.mem_append, List.mem_filter, List.mem_singleton] at h
  rcases h with (⟨-, h⟩ | ⟨-, h⟩) | rfl
  · exact Or.inl (happ n h)
  · exact Or.inr (Bool.and_eq_true_iff.mp h).1
  · exact Or.inl (happ _ l.app_named)

theorem dotGlob_eq {n : Bytes} (h : starGlob n = true ∨ dotGlob n = true) :
    dotGlob n = !starGlob n := by
  unfold starGlob dotGlob at *
  cases hdot : startsWithDot n with
  | false =>
    rw [hdot] at h
    rcases h with h | h
    · simp at h
      simp [h]
    · simp at h
  | true =>
    rw [hdot] at h
    rcases h with h | h
    · simp at h
    · simp only [Bool.not_true, Bool.false_and, Bool.not_false]
      exact h

theorem Moving.mem_names {k : Nat} {d : LauncherDir} {s : List (Bytes × Item)}
    (h : Moving l k d s) {e : Bytes × Item} (he : e ∈ s) : e.1 ∈ l.names := by
  obtain ⟨⟨j, -, hn, -⟩, -⟩ := (h.saved e).mp he
  exact List.mem_of_getElem? hn

theorem Moving.saved_perm {k : Nat} {d : LauncherDir} {s : List (Bytes × Item)}
    (h : Moving l k d s) : d.saved.Perm s := by
  have hdot : s.filter (fun e ↦ dotGlob e.1) = s.filter fun e ↦ !starGlob e.1 := by
    apply List.filter_congr
    intro e he
    exact dotGlob_eq (Launchers.names_glob (h.mem_names he))
  rw [LauncherDir.saved, h.backup, Option.getD_some, hdot]
  exact List.filter_append_perm _ s

/-- Every bundle stands in its place or in the backup. -/
structure Split (l : Launchers) (d : LauncherDir) (s : List (Bytes × Item)) : Prop where
  inside : d.inside = []
  backup : d.backup = some s
  split : ∀ n,
    (itemAt l.fold d.root n = itemAt l.fold l.bundles n ∧ itemAt l.fold s n = none) ∨
      (itemAt l.fold d.root n = none ∧ itemAt l.fold s n = itemAt l.fold l.bundles n)
  distinct : (s.map fun e ↦ l.fold e.1).Nodup

theorem Moving.toSplit {k : Nat} {d : LauncherDir} {s : List (Bytes × Item)} (h : Moving l k d s) :
    Split l d s := by
  refine ⟨h.inside, h.backup, ?_, h.distinct⟩
  intro n
  by_cases hgone : ∃ j < k, ∃ n', l.names[j]? = some n' ∧ l.fold n' = l.fold n
  · right
    obtain ⟨j, hj, n', hn', heq⟩ := hgone
    refine ⟨h.gone j hj n n' hn' heq, ?_⟩
    cases hold : itemAt l.fold l.bundles n with
    | none =>
      rw [itemAt_eq_none]
      intro e he hen
      obtain ⟨-, hitem⟩ := (h.saved e).mp he
      rw [itemAt_congr hen, hold] at hitem
      cases hitem
    | some item =>
      -- The first of the names the volume takes for this one is the one it was moved under.
      classical
      have hex : ∃ j, ∃ n', l.names[j]? = some n' ∧ l.fold n' = l.fold n := ⟨j, n', hn', heq⟩
      obtain ⟨n₁, hn₁, heq₁⟩ := Nat.find_spec hex
      have hle : Nat.find hex ≤ j := Nat.find_min' hex ⟨n', hn', heq⟩
      have hitem : itemAt l.fold l.bundles n₁ = some item := by
        rw [itemAt_congr heq₁, hold]
      have hmem : (n₁, item) ∈ s := by
        rw [h.saved]
        refine ⟨⟨Nat.find hex, by omega, hn₁, by rw [hitem]; rfl, ?_⟩, hitem⟩
        intro i hi n₂ hn₂ heq₂
        exact Nat.find_min hex hi ⟨n₂, hn₂, heq₂.trans heq₁⟩
      exact itemAt_of_mem h.distinct hmem heq₁
  · left
    have hkeep : ∀ j < k, ∀ n', l.names[j]? = some n' → l.fold n' ≠ l.fold n := by
      intro j hj n' hn' heq
      exact hgone ⟨j, hj, n', hn', heq⟩
    refine ⟨h.kept n hkeep, ?_⟩
    rw [itemAt_eq_none]
    intro e he hen
    obtain ⟨⟨j, hj, hn, -⟩, -⟩ := (h.saved e).mp he
    exact hkeep j hj e.1 hn hen

theorem Split.putBack {d : LauncherDir} {s : List (Bytes × Item)} (h : Split l d s)
    {e : Bytes × Item} (he : e ∈ s) :
    l.place e.1 e.2 d = some { d with root := d.root ++ [e] } ∧
      Split l { d with
        root := d.root ++ [e]
        backup := d.backup.map fun b ↦ without l.fold b e.1 } (without l.fold s e.1) := by
  have hroot : itemAt l.fold d.root e.1 = none := by
    rcases h.split e.1 with ⟨-, hs⟩ | ⟨hr, -⟩
    · rw [itemAt_of_mem h.distinct he rfl] at hs
      cases hs
    · exact hr
  refine ⟨by simp [Launchers.place, hroot], h.inside, by rw [h.backup]; rfl, ?_,
    without_nodup h.distinct e.1⟩
  intro n
  by_cases hen : l.fold e.1 = l.fold n
  · left
    rw [itemAt_without_self hen, ← itemAt_congr hen, itemAt_append _ hroot, if_pos rfl]
    refine ⟨?_, rfl⟩
    rcases h.split e.1 with ⟨-, hs⟩ | ⟨-, hs⟩
    · rw [itemAt_of_mem h.distinct he rfl] at hs
      cases hs
    · rw [← itemAt_congr hen, ← hs]
      exact (itemAt_of_mem h.distinct he rfl).symm
  · rw [itemAt_without_ne hen, itemAt_append_ne hen]
    exact h.split n

theorem Split.moveBack {d : LauncherDir} {s : List (Bytes × Item)} (h : Split l d s)
    (es : List (Bytes × Item)) (result : Nat) (hes : ∀ e ∈ es, e ∈ s)
    (hnodup : (es.map fun e ↦ l.fold e.1).Nodup) :
    ∃ s', Split l (l.moveBack f es d result).1 s' ∧
      ∀ e, e ∈ s' ↔ e ∈ s ∧ (e ∉ es ∨ f.fails = some (.moveBack e.1)) := by
  induction es generalizing d s result with
  | nil => exact ⟨s, h, fun e ↦ by simp⟩
  | cons b es ih =>
    rw [List.map_cons, List.nodup_cons] at hnodup
    have hb := hes b List.mem_cons_self
    rw [Launchers.moveBack]
    -- A bundle whose `mv` fails stays in the backup, and the loop goes on.
    by_cases hfail : f.fails = some (.moveBack b.1)
    · rw [if_pos hfail]
      obtain ⟨s', hs', hmem⟩ := ih h 1 (fun e he ↦ hes e (List.mem_cons_of_mem b he)) hnodup.2
      refine ⟨s', hs', fun e ↦ ?_⟩
      rw [hmem, List.mem_cons, not_or]
      constructor
      · rintro ⟨he, hrest | hrest⟩
        · by_cases heb : e = b
          · exact ⟨he, Or.inr (by rw [heb]; exact hfail)⟩
          · exact ⟨he, Or.inl ⟨heb, hrest⟩⟩
        · exact ⟨he, Or.inr hrest⟩
      · rintro ⟨he, ⟨-, hrest⟩ | hrest⟩
        · exact ⟨he, Or.inl hrest⟩
        · exact ⟨he, Or.inr hrest⟩
    · obtain ⟨hplace, hsplit⟩ := h.putBack hb
      rw [if_neg hfail, hplace]
      have hes' : ∀ e ∈ es, e ∈ without l.fold s b.1 := by
        intro e he
        refine mem_without.mpr ⟨hes e (List.mem_cons_of_mem b he), ?_⟩
        intro heq
        exact hnodup.1 (List.mem_map.mpr ⟨e, he, heq⟩)
      obtain ⟨s', hs', hmem⟩ := ih hsplit result hes' hnodup.2
      refine ⟨s', hs', fun e ↦ ?_⟩
      rw [hmem, mem_without, List.mem_cons, not_or]
      constructor
      · rintro ⟨⟨he, hne⟩, hrest⟩
        refine ⟨he, hrest.imp (fun hrest ↦ ⟨?_, hrest⟩) id⟩
        rintro rfl
        exact hne rfl
      · rintro ⟨he, hrest⟩
        have hne : e ≠ b := by
          rintro rfl
          rcases hrest with hrest | hrest
          · exact hrest.1 rfl
          · exact hfail hrest
        refine ⟨⟨he, ?_⟩, hrest.imp (fun hrest ↦ hrest.2) id⟩
        intro heq
        exact hne (List.inj_on_of_nodup_map h.distinct he hb heq)

/-- The backup is put back whole unless a move back of what is in it fails. -/
theorem Moving.moveBack {k : Nat} {d : LauncherDir} {s : List (Bytes × Item)} (h : Moving l k d s)
    (result : Nat) : ∃ s', Split l (l.moveBack f d.saved d result).1 s' ∧
      (s' = [] ↔ ∀ n, l.Moved k n → f.fails ≠ some (.moveBack n)) := by
  have hperm := h.saved_perm
  obtain ⟨s', hs', hmem⟩ := h.toSplit.moveBack (f := f) d.saved result
    (fun e he ↦ hperm.mem_iff.mp he) ((hperm.map _).nodup_iff.mpr h.distinct)
  refine ⟨s', hs', ?_⟩
  constructor
  · rintro rfl n hn hfail
    obtain ⟨j, -, -, hsome, -⟩ := id hn
    obtain ⟨item, hitem⟩ := Option.isSome_iff_exists.mp hsome
    have hin : (n, item) ∈ s := (h.saved _).mpr ⟨hn, hitem⟩
    exact absurd ((hmem (n, item)).mpr ⟨hin, Or.inr hfail⟩) List.not_mem_nil
  · intro hfine
    apply List.eq_nil_iff_forall_not_mem.mpr
    intro e he
    obtain ⟨hin, hout | hfail⟩ := (hmem e).mp he
    · exact hout (hperm.mem_iff.mpr hin)
    · exact hfine e.1 ((h.saved e).mp hin).1 hfail

/-! ## The exit trap -/

-- What stands at `loader_app` before the swap is none of the staged bundle's.
theorem Moving.not_installed {k : Nat} {d : LauncherDir} {s : List (Bytes × Item)}
    (h : Moving l k d s) : (itemAt l.fold d.root l.app).map Item.identity ≠ some l.stage.identity := by
  intro hsome
  obtain ⟨item, hitem, hid⟩ := Option.map_eq_some_iff.mp hsome
  rcases h.toSplit.split l.app with ⟨hr, -⟩ | ⟨hr, -⟩
  · rw [hr] at hitem
    obtain ⟨e, he, -, rfl⟩ := itemAt_mem hitem
    exact l.identity_ne e he hid
  · rw [hr] at hitem
    cases hitem

theorem Split.not_swapped {d : LauncherDir} {s : List (Bytes × Item)} (h : Split l d s) :
    ¬ l.Swapped d := by
  rintro ⟨happ, -⟩
  rcases h.split l.app with ⟨hr, -⟩ | ⟨hr, -⟩
  · rw [hr] at happ
    obtain ⟨e, he, -, hitem⟩ := itemAt_mem happ
    exact l.identity_ne e he (congrArg Item.identity hitem)
  · rw [hr] at happ
    cases happ

theorem Split.restored {d : LauncherDir} (h : Split l d []) : l.Restored { d with backup := none } := by
  refine ⟨fun n ↦ ?_, h.inside, rfl⟩
  rcases h.split n with ⟨hr, -⟩ | ⟨hr, hs⟩
  · exact hr
  · rw [hr, ← hs]
    rfl

/-- Before the swap the exit trap puts everything back, unless it is cut or fails itself. -/
theorem finishBundle_restored {k : Nat} {d : LauncherDir} {s : List (Bytes × Item)} {result : Nat}
    (h : Moving l k d s) :
    (l.Swapped (l.finishBundle f d result).1 ∨ l.Restored (l.finishBundle f d result).1) ↔
      f.hits .finishing = none ∧ f.fails ≠ some .removeFolder ∧
        ∀ n, l.Moved k n → f.fails ≠ some (.moveBack n) := by
  rw [Launchers.finishBundle]
  cases hhit : f.hits .finishing with
  | some sig =>
    constructor
    · rintro (hw | ⟨-, -, hb⟩)
      · exact absurd hw h.toSplit.not_swapped
      · rw [h.backup] at hb
        cases hb
    · rintro ⟨hn, -⟩
      cases hn
  | none =>
    -- What is installed is not the staged bundle, also where `stat` fails: the trap goes to put back.
    have hne : (if f.fails = some .statInstalled then none
        else (itemAt l.fold d.root l.app).map Item.identity) ≠ some l.stage.identity := by
      split
      · simp
      · exact h.not_installed
    simp only [ne_eq, if_pos hne]
    obtain ⟨s', hs', hempty⟩ := h.moveBack (f := f) result
    generalize hback : l.moveBack f d.saved d result = back at hs' ⊢
    by_cases hdone : back.1.backup = some [] ∧ f.fails ≠ some .removeFolder
    · rw [if_pos hdone]
      have hnil : s' = [] := Option.some.inj (hs'.backup.symm.trans hdone.1)
      rw [hnil] at hs'
      constructor
      · intro _
        exact ⟨trivial, hdone.2, hempty.mp hnil⟩
      · intro _
        exact Or.inr hs'.restored
    · rw [if_neg hdone]
      constructor
      · rintro (hw | ⟨-, -, hb⟩)
        · exact absurd hw hs'.not_swapped
        · rw [hs'.backup] at hb
          cases hb
      · rintro ⟨-, hfolder, hfine⟩
        have hnil := hempty.mpr hfine
        exact absurd ⟨by rw [hs'.backup, hnil], hfolder⟩ hdone

/-! ## The staged bundle in place -/

-- With every name done nothing is left in the folder.
theorem Moving.root_nil {d : LauncherDir} {s : List (Bytes × Item)}
    (h : Moving l l.names.length d s) : d.root = [] := by
  apply itemAt_forall_none
  intro n
  have hof : ∀ m ∈ l.names, l.fold m = l.fold n → itemAt l.fold d.root n = none := by
    intro m hm heq
    obtain ⟨j, hj, hget⟩ := List.getElem_of_mem hm
    exact h.gone j hj n m (by rw [List.getElem?_eq_getElem hj, hget]) heq
  by_cases hgone : ∃ m ∈ l.names, l.fold m = l.fold n
  · obtain ⟨m, hm, heq⟩ := hgone
    exact hof m hm heq
  have hkeep := h.kept n fun j _ n' hn' heq ↦ hgone ⟨n', List.mem_of_getElem? hn', heq⟩
  rw [hkeep, itemAt_eq_none]
  intro b hb heq
  have hmap : b.1 ∈ l.bundles.map Prod.fst := List.mem_map_of_mem hb
  apply hgone
  rcases l.named b hb with happ | hdot | htwin
  · refine ⟨b.1, ?_, heq⟩
    simp [Launchers.names, hmap, happ]
  · refine ⟨b.1, ?_, heq⟩
    simp [Launchers.names, hmap, hdot]
  · refine ⟨l.app, ?_, by rw [← heq, htwin]⟩
    simp [Launchers.names]

theorem Moving.saved_nil {d : LauncherDir} {s : List (Bytes × Item)}
    (h : Moving l l.names.length d s) : s = [] ↔ l.bundles = [] := by
  constructor
  · rintro rfl
    have hnone : ∀ n, itemAt l.fold l.bundles n = none := by
      intro n
      rcases h.toSplit.split n with ⟨hr, -⟩ | ⟨-, hs⟩
      · rw [← hr, h.root_nil]
        rfl
      · rw [← hs]
        rfl
    exact itemAt_forall_none hnone
  · intro hnil
    apply List.eq_nil_iff_forall_not_mem.mpr
    intro e he
    obtain ⟨-, hitem⟩ := (h.saved e).mp he
    rw [hnil] at hitem
    cases hitem

/-- The staged bundle is in place, and something else stands beside it or inside it. -/
structure Spoiled (l : Launchers) (d : LauncherDir) : Prop where
  app : itemAt l.fold d.root l.app = some l.stage
  other : d.inside ≠ [] ∨ ∃ n, l.fold n ≠ l.fold l.app ∧ itemAt l.fold d.root n ≠ none

theorem Launchers.not_restored {d : LauncherDir} (h : itemAt l.fold d.root l.app = some l.stage) :
    ¬ l.Restored d := by
  rintro ⟨hback, -⟩
  rw [hback] at h
  obtain ⟨e, he, -, hitem⟩ := itemAt_mem h
  exact l.identity_ne e he (congrArg Item.identity hitem)

theorem Spoiled.not_whole {d : LauncherDir} (h : Spoiled l d) : ¬ (l.Swapped d ∨ l.Restored d) := by
  rintro (⟨-, hnone, hinside, -⟩ | hback)
  · rcases h.other with hin | ⟨n, hn, hsome⟩
    · exact hin hinside
    · exact hsome (hnone n hn)
  · exact Launchers.not_restored h.app hback

-- A bundle moved back onto the staged one ends up inside it, any other beside it.
theorem place_spoiled {d d' : LauncherDir} {n : Bytes} {item : Item}
    (happ : itemAt l.fold d.root l.app = some l.stage) (h : l.place n item d = some d') :
    Spoiled l d' := by
  unfold Launchers.place at h
  by_cases hn : l.fold n = l.fold l.app
  · have hat : itemAt l.fold d.root n = some l.stage := by rw [itemAt_congr hn, happ]
    simp only [hat, l.stage_opens] at h
    obtain rfl := Option.some.inj h
    exact ⟨happ, Or.inl (by simp)⟩
  cases hat : itemAt l.fold d.root n with
  | none =>
    simp only [hat] at h
    obtain rfl := Option.some.inj h
    refine ⟨itemAt_append_of_some _ happ, Or.inr ⟨n, hn, ?_⟩⟩
    rw [itemAt_append _ hat, if_pos rfl]
    simp
  | some old =>
    simp only [hat] at h
    split at h
    · obtain rfl := Option.some.inj h
      exact ⟨happ, Or.inl (by simp)⟩
    split at h
    · cases h
    · obtain rfl := Option.some.inj h
      have hself : itemAt l.fold (without l.fold d.root n) n = none := itemAt_without_self rfl
      refine ⟨?_, Or.inr ⟨n, hn, ?_⟩⟩
      · rw [itemAt_append_ne hn, itemAt_without_ne hn]
        exact happ
      · rw [itemAt_append _ hself, if_pos rfl]
        simp

theorem Spoiled.moveBack {es : List (Bytes × Item)} {d : LauncherDir} {result : Nat}
    (h : Spoiled l d) : Spoiled l (l.moveBack f es d result).1 := by
  induction es generalizing d result with
  | nil => exact h
  | cons b es ih =>
    rw [Launchers.moveBack]
    split
    · exact ih h
    · split
      · exact ih h
      next d' hd' =>
        have hspoiled := place_spoiled h.app hd'
        exact ih ⟨hspoiled.app, hspoiled.other⟩

/-- With the staged bundle in place, the exit trap that does not see it there moves the others back
beside it, or into it. -/
theorem moveBack_spoiled {d : LauncherDir} {es : List (Bytes × Item)} (result : Nat)
    (hroot : d.root = [(l.app, l.stage)]) (hes : es ≠ []) (hfine : ∀ n, f.fails ≠ some (.moveBack n)) :
    Spoiled l (l.moveBack f es d result).1 := by
  have happ : itemAt l.fold d.root l.app = some l.stage := by simp [hroot, itemAt]
  cases es with
  | nil => exact absurd rfl hes
  | cons b es =>
    rw [Launchers.moveBack, if_neg (hfine b.1)]
    cases hplace : l.place b.1 b.2 d with
    | none =>
      -- Only a file that stands in the way stops a move, and the staged bundle is a folder.
      unfold Launchers.place at hplace
      cases hat : itemAt l.fold d.root b.1 with
      | none => simp [hat] at hplace
      | some old =>
        have hold : old = l.stage := by
          rw [hroot] at hat
          obtain ⟨e, he, -, hitem⟩ := itemAt_mem hat
          rw [List.mem_singleton.mp he] at hitem
          exact hitem.symm
        simp [hat, hold, l.stage_opens] at hplace
    | some d' =>
      have hspoiled := place_spoiled happ hplace
      exact Spoiled.moveBack ⟨hspoiled.app, hspoiled.other⟩

theorem finishBundle_swapped {d : LauncherDir} {s : List (Bytes × Item)} {result : Nat}
    (h : Moving l l.names.length d s) :
    (l.Swapped (l.finishBundle f { d with root := [(l.app, l.stage)] } result).1 ∨
        l.Restored (l.finishBundle f { d with root := [(l.app, l.stage)] } result).1) ↔
      ¬ l.Littered f := by
  have happ : itemAt l.fold [(l.app, l.stage)] l.app = some l.stage := by simp [itemAt]
  have hone : ∀ n, l.fold n ≠ l.fold l.app → itemAt l.fold [(l.app, l.stage)] n = none := by
    intro n hn
    rw [itemAt_eq_none]
    intro e he
    rw [List.mem_singleton.mp he]
    exact Ne.symm hn
  -- The new bundle is in its place; all that counts is whether a backup is left behind.
  have hwhole : ∀ b, (l.Swapped ⟨[(l.app, l.stage)], d.inside, b⟩ ∨
      l.Restored ⟨[(l.app, l.stage)], d.inside, b⟩) ↔ b.getD [] = [] := by
    intro b
    constructor
    · rintro (⟨-, -, -, hb⟩ | hback)
      · exact hb
      · exact absurd hback (Launchers.not_restored happ)
    · intro hb
      exact Or.inl ⟨happ, hone, h.inside, hb⟩
  rw [Launchers.finishBundle]
  cases hhit : f.hits .finishing with
  | some sig =>
    simp only [hwhole, h.backup, Option.getD_some, h.saved_nil]
    constructor
    · rintro hnil (⟨hne, -⟩ | ⟨left, n, hfail, hn, hm⟩)
      · exact hne hnil
      · obtain ⟨j, -, -, hsome, -⟩ := hm
        rw [hnil] at hsome
        cases hsome
    · intro hclean
      by_contra hne
      exact hclean (Or.inl ⟨hne, Or.inl (by rw [hhit]; rfl)⟩)
  | none =>
    by_cases hstat : f.fails = some .statInstalled
    · -- A failed `stat` looks like a bundle that was not swapped, and the old ones are put back over it.
      have hdiff : (none : Option Nat) ≠ some l.stage.identity := by simp
      simp only [hstat, if_true, ne_eq, if_pos hdiff]
      constructor
      · rintro hw (⟨hne, -⟩ | ⟨left, n, hfail, -⟩)
        · have hs : s ≠ [] := fun hnil ↦ hne (h.saved_nil.mp hnil)
          have hsaved : LauncherDir.saved { d with root := [(l.app, l.stage)] } ≠ [] := by
            intro hnil
            have hperm := h.saved_perm
            rw [show d.saved = [] from hnil] at hperm
            exact hs hperm.nil_eq.symm
          have hspoiled := moveBack_spoiled (f := f) result
            (d := { d with root := [(l.app, l.stage)] }) rfl hsaved (by rw [hstat]; simp)
          revert hw
          generalize l.moveBack f _ _ result = back at hspoiled ⊢
          intro hw
          split at hw
          · have hemptied : Spoiled l { back.1 with backup := none } :=
              ⟨hspoiled.app, hspoiled.other⟩
            exact hemptied.not_whole hw
          · exact hspoiled.not_whole hw
        · rw [hstat] at hfail
          cases hfail
      · intro hclean
        have hnil : l.bundles = [] := by
          by_contra hne
          exact hclean (Or.inl ⟨hne, Or.inr hstat⟩)
        have hs : s = [] := h.saved_nil.mpr hnil
        have hsaved : LauncherDir.saved { d with root := [(l.app, l.stage)] } = [] := by
          simp [LauncherDir.saved, h.backup, hs]
        rw [hsaved, Launchers.moveBack]
        simp only [h.backup, hs]
        simp [hwhole]
    · simp only [if_neg hstat, happ, Option.map_some, ne_eq, not_true_eq_false, if_false]
      have hother : ¬ (l.bundles ≠ [] ∧ ((f.hits .finishing).isSome = true ∨
          f.fails = some .statInstalled)) := by
        rintro ⟨-, hbad | hbad⟩
        · rw [hhit] at hbad
          cases hbad
        · exact hstat hbad
      rw [Launchers.Littered, or_iff_right hother]
      -- `rm -rf` of the backup may leave some of it.
      split
      next left hleft =>
        simp only [hwhole, h.backup, Option.map_some, Option.getD_some, List.filter_eq_nil_iff,
          decide_eq_true_eq]
        constructor
        · rintro hnone ⟨left', n, hfail, hn, hm⟩
          rw [hleft] at hfail
          cases hfail
          obtain ⟨j, -, -, hsome, -⟩ := id hm
          obtain ⟨item, hitem⟩ := Option.isSome_iff_exists.mp hsome
          exact hnone (n, item) ((h.saved _).mpr ⟨hm, hitem⟩) hn
        · intro hclean e he hin
          exact hclean ⟨left, e.1, hleft, hin, ((h.saved e).mp he).1⟩
      next hno =>
        simp only [hwhole, Option.getD_none, true_iff]
        rintro ⟨left, n, hfail, -⟩
        exact hno left hfail

/-! ## `install_bundle` -/

theorem Launchers.unrestored_iff {k : Nat} (hk : k ≤ l.names.length)
    (hcut : (f.hits (.moving k)).isSome = true ∨ (∃ n, f.fails = some (.moveOut n)) ∨
      f.fails = some .install) :
    l.Unrestored f ↔ ¬ (f.hits .finishing = none ∧ f.fails ≠ some .removeFolder ∧
      ∀ n, l.Moved k n → f.fails ≠ some (.moveBack n)) := by
  constructor
  · rintro (hhit | hfolder | ⟨k', -, n, hhit, hn, hfail⟩) ⟨hnone, hne, hfine⟩
    · rw [hnone] at hhit
      cases hhit
    · exact hne hfolder
    · -- There is one fault, so only a signal leaves room for a failed way back.
      rcases hcut with hcut | ⟨m, hcut⟩ | hcut
      · obtain rfl := Moment.moving.inj (Fault.hits_unique hcut hhit)
        exact hfine n hn hfail
      · rw [hcut] at hfail
        cases hfail
      · rw [hcut] at hfail
        cases hfail
  · intro h
    by_contra hno
    apply h
    refine ⟨?_, fun hfolder ↦ hno (Or.inr (Or.inl hfolder)), fun n hn hfail ↦ ?_⟩
    · cases hhit : f.hits .finishing with
      | none => rfl
      | some sig => exact absurd (Or.inl (by rw [hhit]; rfl)) hno
    · rcases hcut with hcut | ⟨m, hcut⟩ | hcut
      · exact hno (Or.inr (Or.inr ⟨k, hk, n, hcut, hn, hfail⟩))
      · rw [hcut] at hfail
        cases hfail
      · rw [hcut] at hfail
        cases hfail

theorem Launchers.swap_whole (hmade : f.hits .made = none) (hended : ¬ l.Ended f) :
    (l.Swapped (l.swap f ⟨l.bundles, [], some []⟩).1 ∨
        l.Restored (l.swap f ⟨l.bundles, [], some []⟩).1) ↔ ¬ l.Torn f := by
  have htorn : l.Torn f ↔ (l.Cut f ∧ l.Unrestored f) ∨ (¬ l.Cut f ∧ l.Littered f) := by
    simp [Torn, hended, hmade]
  have hloop : LoopEnd l f (l.moveAll f 0 l.names ⟨l.bundles, [], some []⟩) :=
    moveAll_spec (List.drop_zero) (Nat.zero_le _) Moving.start (fun j hj ↦ absurd hj (by omega))
      fun n hn ↦ by
        obtain ⟨j, hj, -⟩ := hn
        omega
  rw [swap]
  generalize l.moveAll f 0 l.names ⟨l.bundles, [], some []⟩ = r at hloop ⊢
  obtain ⟨d, status⟩ := r
  obtain ⟨k, hk, s, hmoving, ⟨hnone, rfl, hquiet, hfine⟩ | ⟨hsome, hcut⟩⟩ := hloop
  · -- The loop went through, so the new bundle is moved in.
    obtain rfl : status = none := hnone
    simp only
    by_cases hinstall : f.fails = some .install
    · have hcut : l.Cut f := Or.inr (Or.inr hinstall)
      rw [if_pos hinstall, finishBundle_restored hmoving, htorn]
      simp only [hcut, true_and, not_true_eq_false, false_and, or_false]
      rw [unrestored_iff hk (Or.inr (Or.inr hinstall)), not_not]
    · have hcut : ¬ l.Cut f := by
        rintro (⟨j, hj, hhit⟩ | ⟨n, hn, hfail⟩ | hfail)
        · rw [hquiet j hj] at hhit
          cases hhit
        · exact hfine n hn hfail
        · exact hinstall hfail
      have hplace : l.place l.app l.stage d = some { d with root := [(l.app, l.stage)] } := by
        have hroot : d.root = [] := hmoving.root_nil
        simp [place, hroot, itemAt]
      rw [if_neg hinstall, hplace]
      simp only
      rw [finishBundle_swapped hmoving, htorn]
      simp [hcut]
  · -- It was cut, and only the exit trap runs.
    cases status with
    | none => exact absurd rfl hsome
    | some status =>
      have hcut' : l.Cut f := by
        rcases hcut with hcut | ⟨n, hn, hfail⟩
        · exact Or.inl ⟨k, hk, hcut⟩
        · exact Or.inr (Or.inl ⟨n, hn, hfail⟩)
      simp only
      rw [finishBundle_restored hmoving, htorn]
      simp only [hcut', true_and, not_true_eq_false, false_and, or_false]
      rw [unrestored_iff hk (hcut.imp id fun ⟨n, _, hfail⟩ ↦ Or.inl ⟨n, hfail⟩), not_not]

/-- Swapping the launcher bundle is all or nothing exactly where no fault of `Torn` is met. -/
theorem installBundle_whole_iff (l : Launchers) (f : Fault)
    (hdiffers : ∀ b ∈ l.bundles, b.1 = l.app → l.bundleMatches b.2 = false) :
    (l.Swapped (l.installBundle f).1 ∨ l.Restored (l.installBundle f).1) ↔ ¬ l.Torn f := by
  -- Up to the first `mv` there is nothing to restore.
  have hunchanged : ∀ status : Nat, l.Ended f →
      ((l.Swapped (⟨l.bundles, [], none⟩, status).1 ∨
          l.Restored (⟨l.bundles, [], none⟩, status).1) ↔ ¬ l.Torn f) := by
    intro status hended
    constructor
    · intro _ htorn
      exact htorn.1 hended
    · intro _
      exact Or.inr ⟨fun _ ↦ rfl, rfl, rfl⟩
  have hsame : l.same = false := by
    simp only [Launchers.same, List.any_eq_false]
    intro b hb
    by_cases happ : b.1 = l.app
    · simp [hdiffers b hb happ]
    · simp [happ]
  unfold Launchers.installBundle
  by_cases hlock : f.fails = some .lock
  · rw [if_pos hlock]
    exact hunchanged 1 (Or.inl hlock)
  rw [if_neg hlock]
  cases hearly : f.hits .early with
  | some sig => exact hunchanged _ (Or.inr (Or.inr (Or.inr (by rw [hearly]; rfl))))
  | none =>
    simp only [hsame, Bool.false_eq_true, if_false]
    by_cases hbegin : f.fails = some .statStage ∨ f.fails = some .makeBackup
    · rw [if_pos hbegin]
      exact hunchanged 1 (Or.inr (hbegin.imp id Or.inl))
    have hended : ¬ l.Ended f := by
      rintro (h | h | h | h)
      · exact hlock h
      · exact hbegin (Or.inl h)
      · exact hbegin (Or.inr h)
      · rw [hearly] at h
        cases h
    rw [if_neg hbegin]
    cases hmade : f.hits .made with
    | none => exact Launchers.swap_whole hmade hended
    | some sig =>
      -- The backup is made and no trap is set yet to take it away.
      have htorn : l.Torn f := ⟨hended, Or.inl (by rw [hmade]; rfl)⟩
      constructor
      · rintro (hw | ⟨-, -, hb⟩)
        · exact absurd hw Moving.start.toSplit.not_swapped
        · cases hb
      · intro h
        exact absurd htorn h

/-- A folder with one bundle, at the name of the staged one. -/
def oneBundle : Launchers where
  fold n := n
  app := ascii "Game.app"
  bundles := [(ascii "Game.app", ⟨1, true, false, ascii "old"⟩)]
  stage := ⟨2, true, false, ascii "new"⟩
  appinfo _ := some 1
  app_named := by decide
  named := by decide
  distinct := by decide
  stage_opens := rfl
  identity_ne := by decide

/-- A failed `stat` after the swap nests the old bundle in the new one; a signal at the end of the
same swap leaves it in the backup. -/
theorem installBundle_torn :
    oneBundle.bundleMatches ⟨1, true, false, ascii "old"⟩ = false ∧
    (oneBundle.installBundle ⟨some .statInstalled, none⟩).1.inside =
      [(ascii "Game.app", ascii "Game.app", ⟨1, true, false, ascii "old"⟩)] ∧
    ¬ (oneBundle.Swapped (oneBundle.installBundle ⟨some .statInstalled, none⟩).1 ∨
      oneBundle.Restored (oneBundle.installBundle ⟨some .statInstalled, none⟩).1) ∧
    (oneBundle.installBundle ⟨none, some (.term, .finishing)⟩).1.backup =
      some [(ascii "Game.app", ⟨1, true, false, ascii "old"⟩)] ∧
    ¬ (oneBundle.Swapped (oneBundle.installBundle ⟨none, some (.term, .finishing)⟩).1 ∨
      oneBundle.Restored (oneBundle.installBundle ⟨none, some (.term, .finishing)⟩).1) := by
  have hnested : (oneBundle.installBundle ⟨some .statInstalled, none⟩).1.inside =
      [(ascii "Game.app", ascii "Game.app", ⟨1, true, false, ascii "old"⟩)] := by decide
  have hleft : (oneBundle.installBundle ⟨none, some (.term, .finishing)⟩).1.backup =
      some [(ascii "Game.app", ⟨1, true, false, ascii "old"⟩)] := by decide
  refine ⟨rfl, hnested, ?_, hleft, ?_⟩
  · rintro (⟨-, -, hinside, -⟩ | ⟨-, hinside, -⟩)
    · rw [hnested] at hinside
      cases hinside
    · rw [hnested] at hinside
      cases hinside
  · rintro (⟨-, -, -, hbackup⟩ | ⟨-, -, hbackup⟩)
    · rw [hleft] at hbackup
      cases hbackup
    · rw [hleft] at hbackup
      cases hbackup

/-- The same swap with nothing in its way. -/
theorem installBundle_whole_iff_oneBundle :
    (oneBundle.Swapped (oneBundle.installBundle ⟨none, none⟩).1 ∨
        oneBundle.Restored (oneBundle.installBundle ⟨none, none⟩).1) ↔
      ¬ oneBundle.Torn ⟨none, none⟩ :=
  installBundle_whole_iff oneBundle ⟨none, none⟩ (by decide)

end NotProton.CompatRun
