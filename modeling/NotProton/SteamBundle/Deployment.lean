import NotProton.SteamBundle.Modifications

/-!
# Deployment — what changes Steam bundles (`SteamInstaller.swift`, `SteamRepair.swift`, `Uninstall.swift`)

The three run one at a time, under the installation lock.
-/

open NotProton.Library

namespace NotProton.SteamBundle

def deployedDylib (app : Path) : Path := app ++ ascii "/Contents/MacOS/" ++ dylibName

/-- `currentInsert(at:)` -/
def currentInsert (app : Path) : App (Option Bytes) := do
  try
    let plist ← readInfoPlist app
    pure plist.1
  catch _ => pure none

/-! ## Signing -/

/-- `codesign -f -s -` of the bundle or of code in it. -/
def adHocSign (app : Path) : App Unit := change app fun turn b ↦ { b with intact := turn.answer, valve := false }

/-- `try?` -/
def attempt (p : App Unit) : App Unit := do
  try p catch _ => pure ()

/-! ## Installing -/

def assertBundleIsPresent (app : Path) : App Unit := do
  let there ← fileExists app
  require there

def assertInsertIsDeployedOrAbsent (app : Path) : App Unit := do
  let insert ← currentInsert app
  require (!(components (insert.getD [])).any fun s ↦ s ≠ deployedDylib app && lastPathComponent s ≠ dylibName)

/-- A file is written to the bundle and removed. -/
def assertBundleIsWritable (app : Path) : App Unit := do
  change app fun turn b ↦ { b with intact := turn.answer }
  change app fun turn b ↦ { b with intact := turn.answer }

/-- `currentControllerBlock(at:)` -/
def currentControllerBlock (app : Path) : App (Option Bytes) := do
  try
    let plist ← readInfoPlist app
    pure plist.2
  catch _ => pure none

/-- The bundle has the settings and this dylib. -/
def isDeployed (app : Path) : App Bool := do
  let insert ← currentInsert app
  if insert ≠ some (deployedDylib app) then return false
  else
    let block ← currentControllerBlock app
    if block = some controllerBlockValue then read fun turn _ ↦ some turn.answer
    else return false

def needsPatching (app : Path) : App Bool := do
  let deployed ← isDeployed app
  if deployed then return false
  else
    assertBundleIsWritable app
    return true

/-- The dylib beside its place in the bundle, and then in it. -/
def installDylib (app : Path) : App Unit := do
  change app fun turn b ↦ { b with intact := turn.answer }
  change app fun turn b ↦ { b with dylib := true, intact := turn.answer, valve := false }

def setInsert (app : Path) : App Unit := do
  let _ ← readInfoPlist app
  change app fun turn b ↦
    { b with insert := some (deployedDylib app), controllerBlock := some controllerBlockValue, intact := turn.answer, valve := false }

def revertPlist (prior : Option (Option Bytes × Option Bytes)) (app : Path) : App Unit :=
  match prior with
  | none => return ()
  | some (insert, block) => do
    attempt (change app fun turn b ↦ { b with insert := insert, controllerBlock := block, intact := turn.answer, valve := false })
    attempt (adHocSign app)

/-- The Info.plist, if it can be read. -/
def priorPlist (app : Path) : App (Option (Option Bytes × Option Bytes)) := do
  try
    let plist ← readInfoPlist app
    pure (some plist)
  catch _ => pure none

/-- The settings, and the signatures of the dylib, the executable and the bundle; or the settings as they were. -/
def setInsertAndSign (app : Path) : App Unit := do
  elsewhere
  let prior ← priorPlist app
  try
    setInsert app
    adHocSign app
    adHocSign app
    adHocSign app
  catch e =>
    revertPlist prior app
    throw e

/-- `SteamInstaller.run` -/
def install (app : Path) : App Unit := do
  elsewhere
  assertBundleIsPresent app
  assertInsertIsDeployedOrAbsent app
  elsewhere
  mark app
  let patching ← needsPatching app
  elsewhere
  Prog.when patching (installDylib app)
  elsewhere
  Prog.when patching (setInsertAndSign app)
  elsewhere
  let landed ← currentInsert app
  require (landed = some (deployedDylib app))
  elsewhere

/-- `SteamInstaller.finish`: the version, and the build record beside it. -/
def finish : App Unit := do
  elsewhere
  elsewhere
  call fun turn w ↦ if turn.fails then (w, .error ()) else ({ w with legacy := true }, .ok ())

/-! ## Repairing -/

/-- The bundle that Valve offers for download. -/
structure Package where
  bundle : Bundle
  /-- What Valve has signed holds nothing of NotProton's. -/
  genuine : bundle.intact = true → bundle.valve = true → ∀ m, bundle.has m = false

def verifyValveSignature (app : Path) : App Unit := do
  let good ← read fun _ w ↦ some ((w.look app).any fun b ↦ b.intact && b.valve)
  require good

/-- `SteamRepair.replace`, to where nothing is or for what is there.  When that fails the bundle may be gone. -/
def replace (app : Path) (staged : Bundle) : App Unit := do
  elsewhere
  call fun turn w ↦
    if !(w.steams app).reachable then (w, .error ())
    else if turn.fails then (if turn.answer then w.put app none else w, .error ())
    else (w.put app (some staged), .ok ())

/-- `SteamRepair.run` -/
def repair (package : Package) (app : Path) : App Unit := do
  elsewhere
  require (package.bundle.intact && package.bundle.valve)
  elsewhere
  prepare
  replace app package.bundle
  verifyValveSignature app
  let insert ← currentInsert app
  require (insert.getD [] = [])
  let _ ← retireIfClean app
  elsewhere

/-! ## Removing -/

/-- `SteamRepair.clearInsert` of a bundle's Info.plist -/
def clearInsert (app : Path) : App Bool := do
  let plist ← priorPlist app
  match plist with
  | none | some (none, none) => return false
  | some _ =>
    change app fun turn b ↦ { b with insert := none, controllerBlock := none, intact := turn.answer, valve := false }
    return true

/-- The signatures of the executable and the bundle. -/
def signBoth (app : Path) : App Unit := do
  adHocSign app
  adHocSign app

/-- The signatures once more where something has been changed. -/
def signAgain (changed : Bool) (app : Path) : App Unit := do
  Prog.when changed (attempt (adHocSign app))
  Prog.when changed (attempt (adHocSign app))

/-- Removing the dylib, if it is there. -/
def dropDylib (app : Path) : App Bool := do
  let there ← see fun w ↦ (w.look app).any (·.dylib)
  if there then
    change app fun turn b ↦ { b with dylib := false, intact := turn.answer }
    return true
  else return false

def detach (app : Path) : App Unit := do
  elsewhere
  let cleared ← clearInsert app
  let dropped ← (do
    try dropDylib app
    catch e =>
      signAgain cleared app
      throw e)
  Prog.when (cleared || dropped) (do
    try signBoth app
    catch e =>
      signAgain true app
      throw e)

/-- What the loop over the bundles keeps. -/
structure Removal where
  missing : List Path
  failed : Bool
  checkedClient : Bool

/-- A bundle that has marks. -/
def restore (package : Package) (target : Path) : App Unit := do
  mark target
  elsewhere
  detach target
  attempt (repair package target)
  let retired ← retireIfClean target
  require retired

def removeFrom (package : Package) (tracked : List Path) (target : Path) (r : Removal) : App Removal := do
  try
    elsewhere
    let state ← inspect target
    match state with
    | .unreachable => pure (if tracked.contains target then { r with missing := r.missing ++ [target] } else r)
    | .absent | .clean =>
      Prog.when (tracked.contains target) (do
        let retired ← retireIfClean target
        require retired)
      pure r
    | .modified =>
      restore package target
      pure { r with checkedClient := true }
  catch _ => pure { r with failed := true }

/-- `Uninstall.run`, with the bundles that could not be reached. -/
def uninstall (package : Package) (app : Path) : App (List Path) := do
  elsewhere
  prepare
  let tracked ← paths
  let r ← Prog.each (removeFrom package tracked) (sorted (tracked ++ [app])) ⟨[], false, false⟩
  require (!r.failed)
  Prog.when (!r.checkedClient) elsewhere
  elsewhere
  -- the build record goes with the other files of NotProton
  call fun turn w ↦ ({ w with legacy := w.legacy && turn.answer }, if turn.fails then .error () else .ok ())
  elsewhere
  return r.missing

/-! ## Whole histories -/

inductive Op
  | install (app : Path)
  | repair (package : Package) (app : Path)
  | uninstall (package : Package) (app : Path)

/-- What the app does, started by the user. -/
def program : Op → App Unit
  | .install app => do
    install app
    elsewhere
    finish
  | .repair package app => repair package app
  | .uninstall package app => do
    let _ ← uninstall package app

/-- Nothing has been changed, or an older version without a record has changed the one bundle it knew. -/
def Shipped (w : World) : Prop := ∀ p m, (w.steams p).has m = true → p = defaultApp ∧ w.record = none ∧ w.legacy = true

/-- Drives come and go. -/
def World.connect (w : World) (reachable : Path → Bool) : World :=
  { w with steams := fun p ↦ { w.steams p with reachable := reachable p } }

/-- What can have come about: each time the app is run its calls go in some way, and it is killed at some step or gets to its
end; in between others are there, and drives come and go. -/
inductive Reachable : World → Prop
  | shipped {w : World} (h : Shipped w) : Reachable w
  | others {w : World} (o : Others) (h : Reachable w) : Reachable { w with steams := o.act w.steams }
  | connect {w : World} (reachable : Path → Bool) (h : Reachable w) : Reachable (w.connect reachable)
  | run {w t : World} (op : Op) (turns : List Turn) (h : Reachable w) (ht : t ∈ (program op { w with turns := turns }).seen) : Reachable t

end NotProton.SteamBundle
