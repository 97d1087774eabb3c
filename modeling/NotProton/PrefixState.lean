import NotProton.Library.Text
import NotProton.Library.LittleEndian

/-!
# PrefixState — what the Compatibility page says about a prefix (`prefixstate.c`)

Paths are byte strings without the `PATH_MAX` cut, since the system refuses a longer path anyway.
-/

open NotProton.Library

namespace NotProton.PrefixState

/-- What a path names once links are followed. -/
inductive Entry
  | missing
  | folder
  | unreadable
  | file (content : Bytes)
  deriving DecidableEq, Repr

/-- The answers of the system calls `np_prefix_state` makes. -/
structure Host where
  entry : Bytes → Entry
  /-- `st_dev` and `st_ino`, when `stat` succeeds. -/
  inode : Bytes → Option (Nat × Nat)
  /-- A regular file of this user that another process holds a write lock on. -/
  serverLocked : Bytes → Bool
  /-- `flock` on the file would block. -/
  flockHeld : Bytes → Bool
  /-- Seconds since the file changed, when `fstat` succeeds. -/
  age : Bytes → Option Int
  executable : Bytes → Bool

def Host.isDir (h : Host) (p : Bytes) : Bool :=
  match h.entry p with
  | .folder => true
  | _ => false

def Host.isFile (h : Host) (p : Bytes) : Bool :=
  match h.entry p with
  | .file _ | .unreadable => true
  | _ => false

/-- The text `fopen` and `fgets` give.  A folder opens and then reads nothing. -/
def Host.text (h : Host) (p : Bytes) : Option Bytes :=
  match h.entry p with
  | .file c => some c
  | .folder => some []
  | _ => none

def librariesMax : Nat := 16
def lineMaxLen : Nat := 2048
def fieldMax : Nat := 256
def pathMax : Nat := 1024

def startingGraceSeconds : Int := 30
def finishedShownSeconds : Int := 600

def machineAmd64 : Nat := 0x8664
def machineArm64 : Nat := 0xaa64
def machineI386 : Nat := 0x014c

def peOffsetMax : Nat := 0x1000

/-! ## Steam libraries -/

/-- The characters of a token up to its closing quote, with Steam's escapes decoded. -/
def vdfChars : Bytes → Bytes × Option Bytes
  | [] => ([], none)
  | 34 :: s => ([], some s)
  | 92 :: c :: s =>
      let r := vdfChars s
      ((if c = 110 then 10 else if c = 116 then 9 else c) :: r.1, r.2)
  | c :: s =>
      let r := vdfChars s
      (c :: r.1, r.2)

/-- The token as the buffer holds it, and the text after its closing quote. -/
def vdfToken (s : Bytes) (cap : Nat) : Bytes × Option Bytes :=
  match (splitAt 34 s).2 with
  | none => ([], none)
  | some t =>
      let r := vdfChars t
      (r.1.take (cap - 1), r.2)

def addLibrary (libs : List Bytes) (path : Bytes) : List Bytes :=
  if path = [] ∨ librariesMax ≤ libs.length then libs
  else if path ∈ libs then libs
  else libs ++ [path]

/-- One line of libraryfolders.vdf. -/
def libraryLine (libs : List Bytes) (line : Bytes) : List Bytes :=
  match vdfToken line fieldMax with
  | (_, none) => libs
  | (key, some rest) =>
      if key ≠ ascii "path" then libs
      else
        match vdfToken rest pathMax with
        | (_, none) => libs
        | (value, some _) => addLibrary libs value

def readLibraries (h : Host) (steamRoot : Bytes) : List Bytes :=
  let read :=
    match h.text (steamRoot ++ ascii "/steamapps/libraryfolders.vdf") with
    | none => []
    | some t => (fgetsLines lineMaxLen t.length t).foldl libraryLine []
  -- A missing or empty file still means the default library.
  if read = [] then addLibrary read steamRoot else read

def findCompatdata (h : Host) (appid : Nat) (libs : List Bytes) : Option Bytes :=
  let compatdata (lib : Bytes) := lib ++ ascii "/steamapps/compatdata/" ++ decimal appid
  match libs.find? fun lib ↦
      h.isFile (lib ++ ascii "/steamapps/appmanifest_" ++ decimal appid ++ ascii ".acf") with
  | some lib => some (compatdata lib)
  | none =>
      -- A shortcut has no manifest, so its prefix is wherever one already exists.
      (libs.find? fun lib ↦ h.isDir (compatdata lib ++ ascii "/pfx")).map compatdata

/-! ## The prefix's own files -/

def ntdllPath (compatdata : Bytes) : Bytes :=
  compatdata ++ ascii "/pfx/drive_c/windows/system32/ntdll.dll"

/-- `pread(fd, buf, n, off)`. -/
def pread (content : Bytes) (n off : Nat) : Bytes := (content.drop off).take n

def peSignature : Bytes := [0x50, 0x45, 0, 0]

/-- The machine word of a PE file, or `none` where `prefix_machine` gives up. -/
def prefixMachine (dll : Entry) : Option Nat :=
  match dll with
  | .file content =>
      let off := pread content 4 0x3c
      if off.length = 4 ∧ leNat off < peOffsetMax then
        let pe := pread content 6 (leNat off)
        if pe.length = 6 ∧ pe.take 4 = peSignature then some (leNat (pe.drop 4)) else none
      else none
  | _ => none

def machineArch (machine : Nat) : Bytes :=
  if machine = machineAmd64 then ascii "rosetta"
  else if machine = machineArm64 then ascii "fex"
  else if machine = machineI386 then ascii "32-bit"
  else []

/-- The lines of a file that is read into `FIELD_MAX` buffers. -/
def fieldLines (h : Host) (path : Bytes) : List Bytes :=
  match h.text path with
  | none => []
  | some t => (fgetsLines fieldMax t.length t).map chomp

def readBuildRecord (h : Host) (compatdata : Bytes) : Bytes × Bytes :=
  let lines := fieldLines h (compatdata ++ ascii "/notproton-build")
  (lines.getD 0 [], lines.getD 1 [])

/-- `%llx`. -/
def hex (n : Nat) : Bytes := (Nat.toDigits 16 n).map fun c ↦ UInt8.ofNat c.toNat

def serverRunning (h : Host) (serverRoot : Option Bytes) (compatdata : Bytes) : Bool :=
  match serverRoot, h.inode (compatdata ++ ascii "/pfx") with
  | some root, some (dev, ino) =>
      h.serverLocked
        (root ++ ascii "/server-" ++ hex dev ++ ascii "-" ++ hex ino ++ ascii "/lock")
  | _, _ => false

def activePhases : List Bytes := [ascii "setup", ascii "copy", ascii "finish"]
def donePhases : List Bytes := [ascii "done", ascii "done-backup", ascii "failed"]

def readRebuild (h : Host) (compatdata : Bytes) : Bytes :=
  let path := compatdata ++ ascii "/notproton-rebuild"
  match h.text path with
  | none => []
  | some t =>
      match fgetsLines fieldMax t.length t with
      | [] => []
      | line :: rest =>
          let phase := chomp line
          if phase ∈ donePhases then
            match h.age path with
            | some age => if age < finishedShownSeconds then phase else []
            | none => []
          else if phase ∈ activePhases then
            let starting :=
              match h.age path with
              | some age => rest.getD 0 [] = ascii "0\n" && decide (age < startingGraceSeconds)
              | none => false
            if h.flockHeld (compatdata ++ ascii "/.notproton-rebuild.lock") || starting then phase
            else ascii "failed"
          else []

/-! ## The tool and the app -/

/-- The first four tab separated fields of a line, when it has that many. -/
def toolFields (line : Bytes) : Option (Bytes × Bytes × Bytes × Bytes) :=
  match splitAt 9 line with
  | (name, some r1) =>
      match splitAt 9 r1 with
      | (build, some r2) =>
          match splitAt 9 r2 with
          | (flavor, some display) => some (name, build, flavor, display)
          | _ => none
      | _ => none
  | _ => none

/-- Build, flavor and display name of the tool, all empty when the tools file does not list it. -/
def readTool (h : Host) (supportRoot tool : Bytes) : Bytes × Bytes × Bytes :=
  if tool = [] then ([], [], [])
  else
    match h.text (supportRoot ++ ascii "/tools") with
    | none => ([], [], [])
    | some t =>
        let lines := (fgetsLines lineMaxLen t.length t).filterMap fun l ↦ toolFields (chomp l)
        match lines.find? fun l ↦ l.1 = tool with
        | some (_, build, flavor, display) =>
            (snprintf fieldMax build, snprintf fieldMax flavor, snprintf fieldMax display)
        | none => ([], [], [])

def readApp (h : Host) (supportRoot : Bytes) : Bytes :=
  match h.text (supportRoot ++ ascii "/app-executable") with
  | none => []
  | some t =>
      match fgetsLines pathMax t.length t with
      | [] => []
      | line :: _ =>
          let app := chomp line
          if app.head? = some 47 ∧ h.executable app then app else []

structure Roots where
  steamRoot : Bytes
  supportRoot : Bytes
  serverRoot : Option Bytes

structure NpPrefixState where
  hasPrefix : Bool := false
  compatdata : Bytes := []
  prefixArch : Bytes := []
  lastBuild : Bytes := []
  lastDisplay : Bytes := []
  tool : Bytes := []
  toolBuild : Bytes := []
  toolFlavor : Bytes := []
  toolDisplay : Bytes := []
  needsRebuild : Bool := false
  running : Bool := false
  rebuild : Bytes := []
  app : Bytes := []

/-- A flavor the page knows, or nothing. -/
def knownFlavor (flavor : Bytes) : Bytes :=
  if flavor ≠ ascii "fex" ∧ flavor ≠ ascii "rosetta" then [] else flavor

/-- The part of the state that is read from a prefix's folder. -/
def readPrefix (h : Host) (serverRoot : Option Bytes) (st : NpPrefixState) : NpPrefixState :=
  let machine := prefixMachine (h.entry (ntdllPath st.compatdata))
  let record := readBuildRecord h st.compatdata
  { st with
    hasPrefix := machine.isSome
    prefixArch := (machine.map machineArch).getD []
    lastBuild := record.1
    lastDisplay := record.2
    rebuild := readRebuild h st.compatdata
    running := serverRunning h serverRoot st.compatdata }

def npPrefixState (h : Host) (appid : Nat) (tool : Option Bytes) (roots : Roots) : NpPrefixState :=
  let st : NpPrefixState := { tool := snprintf fieldMax (tool.getD []) }
  let st :=
    match findCompatdata h appid (readLibraries h roots.steamRoot) with
    | some compatdata => readPrefix h roots.serverRoot { st with compatdata := compatdata }
    | none => st
  let (build, flavor, display) := readTool h roots.supportRoot st.tool
  let st :=
    { st with
      toolBuild := build
      toolFlavor := knownFlavor flavor
      toolDisplay := display
      app := readApp h roots.supportRoot }
  { st with
    needsRebuild :=
      st.hasPrefix && st.toolFlavor ≠ [] && st.prefixArch ≠ [] && st.prefixArch ≠ st.toolFlavor }

/-! ## What the page concludes -/

/-- The architecture a prefix's loader names, empty for one the page does not know. -/
def archOf (dll : Entry) : Bytes := ((prefixMachine dll).map machineArch).getD []

/-- With the prefix found, the page asks for a rebuild when the loader's architecture is known and
is not the tool's. -/
theorem npPrefixState_needsRebuild {h : Host} {appid : Nat} {tool : Option Bytes} {roots : Roots}
    {compatdata : Bytes}
    (hfound : findCompatdata h appid (readLibraries h roots.steamRoot) = some compatdata)
    (hflavor : (npPrefixState h appid tool roots).toolFlavor ≠ []) :
    (npPrefixState h appid tool roots).needsRebuild = true ↔
      archOf (h.entry (ntdllPath compatdata)) ≠ [] ∧
        archOf (h.entry (ntdllPath compatdata)) ≠ (npPrefixState h appid tool roots).toolFlavor := by
  simp only [npPrefixState, hfound, readPrefix, archOf] at hflavor ⊢
  simp only [Bool.and_eq_true, decide_eq_true_eq]
  cases hm : prefixMachine (h.entry (ntdllPath compatdata)) with
  | none => simp
  | some machine => simp [hflavor]

end NotProton.PrefixState
