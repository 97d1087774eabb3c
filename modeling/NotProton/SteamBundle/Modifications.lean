import Mathlib.Data.List.Sort
import NotProton.Library.CutOff
import NotProton.Library.Text

/-!
# SteamModifications — the record of the Steam bundles that NotProton has changed (`SteamModifications.swift`)

One account and its record.  Others may replace, repair and remove bundles at any time, but nobody else puts NotProton into one or
breaks its signature.  Drives come and go between the runs of the app; while it works they only go, for `inspect` looks twice
and would take a bundle for absent whose drive came in between.  A path stands for its standardized form.
-/

open NotProton.Library

namespace NotProton.SteamBundle

/-! ## What is on the disks -/

abbrev Path := Bytes

def dylibName : Bytes := ascii "notproton.dylib"
def controllerBlockValue : Bytes := ascii "0x05ac/0x0004"
def defaultApp : Path := ascii "/Applications/Steam.app"

/-- A bundle whose Info.plist can be read.  Of any other `inspect` knows nothing: it throws, and the bundle stays in the record. -/
structure Bundle where
  /-- `DYLD_INSERT_LIBRARIES` in the environment of the Info.plist -/
  insert : Option Bytes
  /-- `SDL_JOYSTICK_BLACKLIST_DEVICES` in the same place -/
  controllerBlock : Option Bytes
  /-- NotProton's dylib is in the bundle. -/
  dylib : Bool
  /-- `codesign --verify --strict` succeeds. -/
  intact : Bool
  /-- The signature is Valve's. -/
  valve : Bool

structure Place where
  /-- The folder that the bundle is in is there. -/
  reachable : Bool
  bundle : Option Bundle

/-- What NotProton leaves in a bundle. -/
inductive Mark
  | insert
  | controllerBlock
  | dylib
  | signature

/-- `URL(filePath:).lastPathComponent` -/
def lastPathComponent (path : Bytes) : Bytes := ((path.splitOn 47).filter (· ≠ [])).getLast?.getD []

/-- The libraries of an insert. -/
def components (insert : Bytes) : List Bytes := (insert.splitOn 58).filter (· ≠ [])

def injected (insert : Bytes) : Bool := (components insert).any (lastPathComponent · = dylibName)

def Bundle.has (b : Bundle) : Mark → Bool
  | .insert => injected (b.insert.getD [])
  | .controllerBlock => b.controllerBlock = some controllerBlockValue
  | .dylib => b.dylib
  | .signature => !b.intact

def Place.has (place : Place) (m : Mark) : Bool := place.bundle.any (·.has m)

abbrev Steams := Path → Place

/-- What others do between two calls: they leave no mark, and connect no drive. -/
structure Others where
  act : Steams → Steams
  tame : ∀ steams p m, (act steams p).has m = true → (steams p).has m = true
  away : ∀ steams p, (act steams p).reachable = true → (steams p).reachable = true

/-- How the next call goes. -/
structure Turn where
  fails : Bool
  /-- What the call says where that is not settled by the bundles, and whether a signature is good after a change. -/
  answer : Bool
  /-- What a change that fails leaves. -/
  spoiled : Bundle → Bundle
  /-- What happened before. -/
  others : Others

def calm : Turn := ⟨false, true, id, ⟨id, fun _ _ _ h ↦ h, fun _ _ h ↦ h⟩⟩

structure World where
  steams : Steams
  /-- The record, if its file is there. -/
  record : Option (List Path)
  /-- The build record of an older installation is there. -/
  legacy : Bool
  /-- The calls to come; the ones behind them are `calm`. -/
  turns : List Turn

/-- A program of the app that may be killed at any time.  What a failure says does not matter here. -/
abbrev App := Prog World Unit

/-- The bundle that can be seen at a path. -/
def World.look (w : World) (p : Path) : Option Bundle := if (w.steams p).reachable then (w.steams p).bundle else none

def World.put (w : World) (p : Path) (bundle : Option Bundle) : World :=
  { w with steams := fun q ↦ if q = p then { w.steams q with bundle := bundle } else w.steams q }

/-- The world a call finds. -/
def World.next (w : World) : World :=
  { w with turns := w.turns.tail, steams := (w.turns.headD calm).others.act w.steams }

/-! ## Calls -/

variable {α : Type}

def call (act : Turn → World → World × Except Unit α) : App α := Prog.step fun w ↦ act (w.turns.headD calm) w.next

/-- A look at something that may fail. -/
def read (f : Turn → World → Option α) : App α := call fun turn w ↦
  (w, if turn.fails then .error () else (f turn w).elim (.error ()) .ok)

/-- A look at something that always says what it sees. -/
def see (f : World → α) : App α := call fun _ w ↦ (w, .ok (f w))

/-- Work on files that are not in a Steam bundle. -/
def elsewhere : App Unit := read fun _ _ ↦ some ()

/-- A change in a bundle.  One that fails may have spoiled it. -/
def change (app : Path) (f : Turn → Bundle → Bundle) : App Unit := call fun turn w ↦
  match w.look app with
  | none => (w, .error ())
  | some b => if turn.fails then (w.put app (some (turn.spoiled b)), .error ()) else (w.put app (some (f turn b)), .ok ())

/-- `guard` with a failure. -/
def require (c : Bool) : App Unit := if c then pure () else throw ()

def fileExists (app : Path) : App Bool := see fun w ↦ (w.look app).isSome

/-- The insert and the controller block of the Info.plist. -/
def readInfoPlist (app : Path) : App (Option Bytes × Option Bytes) := read fun _ w ↦
  (w.look app).map fun b ↦ (b.insert, b.controllerBlock)

/-- `codesign --verify --strict` -/
def verifyStrict (app : Path) : App Bool := read fun _ w ↦ some ((w.look app).any (·.intact))

/-! ## The record -/

inductive State
  | unreachable
  | absent
  | clean
  | modified

def World.paths (w : World) : List Path := w.record.getD (if w.legacy then [defaultApp] else [])

def paths : App (List Path) := read fun _ w ↦ some w.paths

/-- Each path once, in order. -/
def sorted (paths : List Path) : List Path := paths.dedup.insertionSort (· ≤ ·)

def write (paths : List Path) : App Unit := call fun turn w ↦
  if turn.fails then (w, .error ()) else ({ w with record := some (sorted paths) }, .ok ())

def prepare : App Unit := do
  let all ← paths
  write all

def mark (app : Path) : App Unit := do
  let all ← paths
  write (all ++ [app])

def inspect (app : Path) : App State := do
  let there ← read fun _ w ↦ some (w.look app).isSome
  if !there then
    let unreachable ← see fun w ↦ !(w.steams app).reachable
    return if unreachable then .unreachable else .absent
  else
    let plist ← readInfoPlist app
    if injected (plist.1.getD []) || plist.2 = some controllerBlockValue then return .modified
    else
      let dylib ← see fun w ↦ (w.look app).any (·.dylib)
      if dylib then return .modified
      else
        let succeeded ← verifyStrict app
        return if succeeded then .clean else .modified

def retireIfClean (app : Path) : App Bool := do
  let state ← inspect app
  match state with
  | .unreachable | .modified => return false
  | .absent | .clean =>
    let all ← paths
    write (all.filter (· ≠ app))
    return true

end NotProton.SteamBundle
