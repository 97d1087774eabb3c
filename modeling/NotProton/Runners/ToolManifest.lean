import NotProton.Library.Shell
import NotProton.Runners.ToolListReader

/-!
# ToolManifest — the folders Steam finds the tools in (`compat.c`, `compat_run.sh`)

Whenever Steam starts, the library inside it writes a folder for every listed tool and takes away those it wrote for
tools that are gone.  The run script in a folder learns from the files beside it what it is to run.
-/

open NotProton.Library NotProton.Defaults

namespace NotProton.Runners

/-! ## The folder of the tools -/

/-- What is in a tool's folder: files with their text, and folders. -/
abbrev ToolFiles := List (Bytes × Option Bytes)

/-- What has a name in the folder of the tools. -/
inductive Item
  | file
  | folder (files : ToolFiles)
  deriving DecidableEq

abbrev ToolsDir := Bytes → Option Item

/-- How a file is written: not at all, cut short, or whole. -/
inductive Wrote
  | refused
  | cut (length : Nat)
  | done
  deriving DecidableEq

/-- How the calls of one start end, by the tool's name and the file's. -/
structure StartCalls where
  write : Bytes → Bytes → Wrote
  mkdir : Bytes → Bool
  unlink : Bytes → Bytes → Bool
  rmdir : Bytes → Bool

def StartCalls.succeed : StartCalls := ⟨fun _ _ ↦ .done, fun _ ↦ true, fun _ _ ↦ true, fun _ ↦ true⟩

def setFile (name content : Bytes) (files : ToolFiles) : ToolFiles :=
  if files.any (·.1 = name) then files.map fun f ↦ if f.1 = name then (name, some content) else f
  else files ++ [(name, some content)]

/-- `write_file`.  There is no writing into a folder. -/
def writeFile (how : Wrote) (name content : Bytes) (files : ToolFiles) : ToolFiles :=
  if files.lookup name = some none then files
  else match how with
    | .refused => files
    | .cut n => setFile name (content.take n) files
    | .done => setFile name content files

/-- `unlink` -/
def unlinkFile (works : Bool) (name : Bytes) (files : ToolFiles) : ToolFiles :=
  if works then files.filter fun f ↦ ¬(f.1 = name ∧ f.2.isSome) else files

/-! ## What is written -/

def toolManifest : Bytes :=
  ascii "\"manifest\"\n\x7b\n  \"version\" \"2\"\n  \"commandline\" \"/run %verb%\"\n\x7d\n"

/-- `TOOL_DECLARATION_FMT` -/
def toolDeclaration (name display : Bytes) : Bytes :=
  snprintf 512 (ascii "\"compatibilitytools\"\n\x7b\n  \"compat_tools\"\n  \x7b\n    \"" ++ name ++ ascii "\"\n    \x7b\n" ++
    ascii "      \"install_path\" \".\"\n      \"display_name\" \"" ++ display ++
    ascii "\"\n      \"from_oslist\" \"windows\"\n      \"to_oslist\" \"macos\"\n    \x7d\n  \x7d\n\x7d\n")

/-- `RUN_SCRIPT_MARK` -/
def runScriptMark : Bytes := ascii "\n# notproton CrossOver compatibility tool shim\n"

def declarationName : Bytes := ascii "compatibilitytool.vdf"
def manifestName : Bytes := ascii "toolmanifest.vdf"
def runName : Bytes := ascii "run"
def flavorName : Bytes := ascii "flavor"
def buildName : Bytes := ascii "build"

/-- `files` of `remove_tool` -/
def toolFileNames : List Bytes := [declarationName, manifestName, runName, flavorName, buildName]

/-- A file that is only written where there is nothing of its name. -/
def writeMissing (how : Wrote) (name content : Bytes) (files : ToolFiles) : ToolFiles :=
  if files.any (·.1 = name) then files else writeFile how name content files

/-- The `write_file` calls of `write_tool`. -/
def writeToolFiles (runScript : Bytes) (calls : StartCalls) (r : ToolRow) (files : ToolFiles) : ToolFiles :=
  writeFile (calls.write r.name buildName) buildName (r.build ++ [10])
    (writeFile (calls.write r.name flavorName) flavorName (r.flavor ++ [10])
      (writeFile (calls.write r.name runName) runName runScript
        (writeMissing (calls.write r.name manifestName) manifestName toolManifest
          (writeFile (calls.write r.name declarationName) declarationName (toolDeclaration r.name r.display) files))))

/-- `write_tool` on what has the tool's name, and whether `ensure_dir` worked. -/
def writeTool (runScript : Bytes) (calls : StartCalls) (r : ToolRow) : Option Item → Option Item
  | some .file => some .file
  | some (.folder files) => some (.folder (writeToolFiles runScript calls r files))
  | none => if calls.mkdir r.name then some (.folder (writeToolFiles runScript calls r [])) else none

/-- `written_here` -/
def writtenHere : Item → Bool
  | .file => false
  | .folder files =>
    files.any (·.1 = flavorName) ||
      match files.lookup runName with
      | some (some script) => decide (runScriptMark <:+: cString (script.take 127))
      | _ => false

/-- `remove_tool` -/
def removeTool (calls : StartCalls) (name : Bytes) (item : Item) : Option Item :=
  match item with
  | .file => some .file
  | .folder files =>
    if writtenHere (.folder files) then
      let left := toolFileNames.foldl (fun files file ↦ unlinkFile (calls.unlink name file) file files) files
      if left = [] ∧ calls.rmdir name = true then none else some (.folder left)
    else some (.folder files)

/-- `np_compat_ensure_tool_manifest`, with the tools the list holds; nothing is done where the list is missing. -/
def npCompatEnsureToolManifest (runScript : Bytes) (calls : StartCalls) (listed : Option (List ToolEntry)) (dir : ToolsDir) : ToolsDir :=
  match listed with
  | none => dir
  | some tools => fun name ↦
    match tools.find? (·.row.name = name) with
    | some tool => writeTool runScript calls tool.row (dir name)
    | none => if toolDirName.isPrefixOf name then (dir name).bind (removeTool calls name) else dir name

/-! ## What the run script reads -/

/-- `read -r x < file || x=""` -/
def readVar (text : Bytes) : Bytes :=
  match splitAt 10 text with
  | (_, none) => []
  | (line, some _) => (line.dropWhile fun c ↦ c = 32 ∨ c = 9).rdropWhile fun c ↦ c = 32 ∨ c = 9

def fileText (files : ToolFiles) (name : Bytes) : Bytes := ((files.lookup name).bind id).getD []

def npFlavor (files : ToolFiles) : Bytes := readVar (fileText files flavorName)

/-- `case "$np_build" in *[!A-Za-z0-9.-]*) np_build=""` -/
def npBuild (files : ToolFiles) : Bytes :=
  let build := readVar (fileText files buildName)
  if build.all (fun c ↦ isLower c || isUpper c || isDigit c || c == 46 || c == 45) then build else []

/-- `\(.*\)".*` -/
def upToLastQuote (s : Bytes) : Option Bytes := if 34 ∈ s then some (s.rdropWhile (· ≠ 34)).dropLast else none

/-- `"display_name"[[:space:]]*"\(.*\)".*` at the start of a text. -/
def displayAt (t : Bytes) : Option Bytes :=
  if (ascii "\"display_name\"").isPrefixOf t then
    match (t.drop 14).dropWhile fun c ↦ c = 32 ∨ 9 ≤ c ∧ c ≤ 13 with
    | 34 :: value => upToLastQuote value
    | _ => none
  else none

/-- `s/.*"display_name"…/\1/p` on one line: the last place it fits counts. -/
def displayIn : Bytes → Option Bytes
  | [] => none
  | c :: s =>
    match displayIn s with
    | some display => some display
    | none => displayAt (c :: s)

/-- `np_display`, before its default. -/
def npDisplay (files : ToolFiles) : Bytes :=
  commandOutput ((((fileText files declarationName).splitOn 10).findSome? displayIn).getD [])

/-! ## Reading back one file -/

theorem readVar_line {s : Bytes} (h : ∀ c ∈ s, c ∉ ([9, 10, 32] : List UInt8)) : readVar (s ++ [10]) = s := by
  have hnl : 10 ∉ s := fun hmem ↦ h 10 hmem (by decide)
  have hblank : ∀ c ∈ s, ¬(c = 32 ∨ c = 9) := by
    intro c hc hor
    exact h c hc (by obtain rfl | rfl := hor <;> decide)
  rw [readVar, splitAt_append hnl]
  have hleft : (s.dropWhile fun c ↦ c = 32 ∨ c = 9) = s := by
    apply List.dropWhile_eq_self_iff.mpr
    intro hpos
    exact decide_eq_false (hblank _ (List.getElem_mem hpos)) ▸ Bool.false_ne_true
  have hright : (s.rdropWhile fun c ↦ c = 32 ∨ c = 9) = s := by
    apply List.rdropWhile_eq_self_iff.mpr
    intro hne
    exact decide_eq_false (hblank _ (List.getLast_mem hne)) ▸ Bool.false_ne_true
  dsimp only
  rw [hleft, hright]

theorem upToLastQuote_concat (s : Bytes) : upToLastQuote (s ++ [34]) = some s := by
  rw [upToLastQuote, if_pos (by simp), List.rdropWhile_concat_neg _ _ _ (by decide), List.dropLast_concat]

/-- Where the pattern fits there are four quotes. -/
theorem displayAt_quotes {t display : Bytes} (h : displayAt t = some display) : 4 ≤ t.count 34 := by
  unfold displayAt at h
  split at h
  · next hpre =>
    obtain ⟨rest, rfl⟩ := List.isPrefixOf_iff_prefix.mp hpre
    have hlen : (ascii "\"display_name\"").length = 14 := rfl
    have hcount : (ascii "\"display_name\"").count 34 = 2 := rfl
    rw [← hlen, List.drop_left] at h
    rw [List.count_append, hcount]
    split at h
    · next value hvalue =>
      have hle : (34 :: value).count 34 ≤ rest.count 34 := by
        rw [← hvalue]
        exact (List.dropWhile_sublist _).count_le 34
      have hmem : 34 ∈ value := by
        by_contra hno
        rw [upToLastQuote, if_neg hno] at h
        cases h
      have hone := List.count_pos_iff.mpr hmem
      rw [List.count_cons_self] at hle
      omega
    · cases h
  · cases h

theorem displayIn_eq_none {s : Bytes} (h : s.count 34 < 4) : displayIn s = none := by
  induction s with
  | nil => rfl
  | cons c s ih =>
    have hle : s.count 34 ≤ (c :: s).count 34 := List.count_le_count_cons
    rw [displayIn, ih (by omega)]
    cases hat : displayAt (c :: s) with
    | none => rfl
    | some display =>
      have hfour := displayAt_quotes hat
      omega

theorem displayIn_append {s display : Bytes} (h : displayIn s = some display) (pre : Bytes) : displayIn (pre ++ s) = some display := by
  induction pre with
  | nil => exact h
  | cons c pre ih => rw [List.cons_append, displayIn, ih]

/-! ## Reading back the declaration -/

/-- The lines of a declaration up to the one with the display name. -/
def declarationStart (name : Bytes) : List Bytes :=
  [ascii "\"compatibilitytools\"", ascii "\x7b", ascii "  \"compat_tools\"", ascii "  \x7b", ascii "    \"" ++ name ++ [34],
    ascii "    \x7b", ascii "      \"install_path\" \".\""]

def displayLine (display : Bytes) : Bytes := ascii "      \"display_name\" \"" ++ display ++ [34]

def declarationEnd : List Bytes :=
  [ascii "      \"from_oslist\" \"windows\"", ascii "      \"to_oslist\" \"macos\"", ascii "    \x7d", ascii "  \x7d", ascii "\x7d"]

theorem toolDeclaration_eq {name display : Bytes} (hname : name.length < 64) (hdisplay : display.length < 96) :
    toolDeclaration name display = (declarationStart name ++ displayLine display :: declarationEnd).flatMap (· ++ [10]) := by
  have hfirst : ascii "\"compatibilitytools\"\n\x7b\n  \"compat_tools\"\n  \x7b\n    \"" =
      ascii "\"compatibilitytools\"" ++ 10 :: (ascii "\x7b" ++ 10 :: (ascii "  \"compat_tools\"" ++ 10 :: (ascii "  \x7b" ++ 10 ::
        ascii "    \""))) := rfl
  have hsecond : ascii "\"\n    \x7b\n" = 34 :: 10 :: (ascii "    \x7b" ++ [10]) := rfl
  have hthird : ascii "      \"install_path\" \".\"\n      \"display_name\" \"" =
      ascii "      \"install_path\" \".\"" ++ 10 :: ascii "      \"display_name\" \"" := rfl
  have hfourth : ascii "\"\n      \"from_oslist\" \"windows\"\n      \"to_oslist\" \"macos\"\n    \x7d\n  \x7d\n\x7d\n" =
      34 :: 10 :: (ascii "      \"from_oslist\" \"windows\"" ++ 10 :: (ascii "      \"to_oslist\" \"macos\"" ++ 10 ::
        (ascii "    \x7d" ++ 10 :: (ascii "  \x7d" ++ 10 :: (ascii "\x7d" ++ [10]))))) := rfl
  have hlen : (ascii "\"compatibilitytools\"\n\x7b\n  \"compat_tools\"\n  \x7b\n    \"" ++ name ++ ascii "\"\n    \x7b\n" ++
      ascii "      \"install_path\" \".\"\n      \"display_name\" \"" ++ display ++
      ascii "\"\n      \"from_oslist\" \"windows\"\n      \"to_oslist\" \"macos\"\n    \x7d\n  \x7d\n\x7d\n").length < 512 := by
    have h₁ : (ascii "\"compatibilitytools\"\n\x7b\n  \"compat_tools\"\n  \x7b\n    \"").length = 49 := rfl
    have h₂ : (ascii "\"\n    \x7b\n").length = 8 := rfl
    have h₃ : (ascii "      \"install_path\" \".\"\n      \"display_name\" \"").length = 47 := rfl
    have h₄ : (ascii "\"\n      \"from_oslist\" \"windows\"\n      \"to_oslist\" \"macos\"\n    \x7d\n  \x7d\n\x7d\n").length = 70 := rfl
    rw [List.length_append, List.length_append, List.length_append, List.length_append, List.length_append, h₁, h₂, h₃, h₄]
    omega
  rw [toolDeclaration, snprintf_of_lt hlen, hfirst, hsecond, hthird, hfourth, declarationStart, displayLine, declarationEnd]
  simp only [List.flatMap_cons, List.flatMap_nil, List.append_assoc, List.cons_append, List.nil_append,
    List.append_nil]

theorem count_34_eq_zero {s : Bytes} (h : 34 ∉ s) : s.count 34 = 0 := List.count_eq_zero.mpr h

theorem displayIn_start {name : Bytes} (h : 34 ∉ name) : ∀ line ∈ declarationStart name, displayIn line = none := by
  intro line hline
  simp only [declarationStart, List.mem_cons, List.not_mem_nil, or_false] at hline
  obtain rfl | rfl | rfl | rfl | rfl | rfl | rfl := hline
  · rfl
  · rfl
  · rfl
  · rfl
  · apply displayIn_eq_none
    have hcount : (ascii "    \"").count 34 = 1 := rfl
    rw [List.count_append, List.count_append, hcount, count_34_eq_zero h]
    decide
  · rfl
  · rfl

theorem displayIn_line {display : Bytes} (h : 34 ∉ display) : displayIn (displayLine display) = some display := by
  have hsplit : displayLine display =
      ascii "      " ++ (34 :: (ascii "display_name\" \"" ++ display ++ [34])) := by
    have hstart : ascii "      \"display_name\" \"" = ascii "      " ++ 34 :: ascii "display_name\" \"" := rfl
    rw [displayLine, hstart]
    simp only [List.append_assoc, List.cons_append]
  rw [hsplit]
  apply displayIn_append
  have hshort : displayIn (ascii "display_name\" \"" ++ display ++ [34]) = none := by
    apply displayIn_eq_none
    have hcount : (ascii "display_name\" \"").count 34 = 2 := rfl
    rw [List.count_append, List.count_append, hcount, count_34_eq_zero h]
    decide
  rw [displayIn, hshort]
  have hkey : (34 :: (ascii "display_name\" \"" ++ display ++ [34])) = ascii "\"display_name\"" ++ (32 :: 34 :: (display ++ [34])) := by
    have hmiddle : ascii "display_name\" \"" = ascii "display_name\"" ++ [32, 34] := rfl
    have hfull : ascii "\"display_name\"" = 34 :: ascii "display_name\"" := rfl
    rw [hmiddle, hfull]
    simp only [List.append_assoc, List.cons_append, List.nil_append]
  have hlen : (ascii "\"display_name\"").length = 14 := rfl
  show displayAt _ = _
  rw [displayAt, hkey, if_pos (List.isPrefixOf_iff_prefix.mpr (List.prefix_append _ _)), ← hlen, List.drop_left,
    List.dropWhile_cons_of_pos (by decide), List.dropWhile_cons_of_neg (by decide)]
  exact upToLastQuote_concat display

theorem findSome?_declaration {name display : Bytes} (hname : 34 ∉ name) (hdisplay : 34 ∉ display) (rest : List Bytes) :
    (declarationStart name ++ displayLine display :: rest).findSome? displayIn = some display := by
  have hstart : (declarationStart name).findSome? displayIn = none := List.findSome?_eq_none_iff.mpr (displayIn_start hname)
  rw [List.findSome?_append, hstart, Option.none_or, List.findSome?_cons, displayIn_line hdisplay]

theorem npDisplay_declaration {files : ToolFiles} {r : ToolRow} (h : r.valid = true)
    (hfile : files.lookup declarationName = some (some (toolDeclaration r.name r.display))) : npDisplay files = r.display := by
  have hok := h
  simp only [ToolRow.valid, Bool.and_eq_true, Bool.or_eq_true, decide_eq_true_eq] at h
  obtain ⟨⟨⟨⟨⟨⟨hname, -⟩, -⟩, hdisplay⟩, hlen⟩, -⟩, hlen'⟩ := h
  have hnameQuote : 34 ∉ r.name := by
    simp only [isToolName, isToken, Bool.and_eq_true, decide_eq_true_eq] at hname
    exact fun hmem ↦ absurd (List.all_eq_true.mp hname.2.2 34 hmem) (by decide)
  have hdisplayQuote : 34 ∉ r.display := by
    simp only [isDisplay, Bool.and_eq_true, decide_eq_true_eq] at hdisplay
    exact fun hmem ↦ absurd (List.all_eq_true.mp hdisplay.2 34 hmem) (by decide)
  have hfields := ToolRow.field_ok hok
  simp only [ToolRow.fields, List.forall_mem_cons] at hfields
  have hnameLine : 10 ∉ r.name := fun hmem ↦ hfields.1.2 10 hmem (by decide)
  have hdisplayLine : 10 ∉ r.display := fun hmem ↦ hfields.2.2.2.1.2 10 hmem (by decide)
  -- What the app writes has one line for each part, since no field has a newline.
  have hlines : ∀ line ∈ declarationStart r.name ++ displayLine r.display :: declarationEnd, 10 ∉ line := by
    intro line hline
    simp only [declarationStart, declarationEnd, List.mem_append, List.mem_cons, List.not_mem_nil, or_false] at hline
    obtain (rfl | rfl | rfl | rfl | rfl | rfl | rfl) | rfl | rfl | rfl | rfl | rfl | rfl := hline
    · decide
    · decide
    · decide
    · decide
    · rw [List.mem_append, List.mem_append, not_or, not_or]
      exact ⟨⟨by decide, hnameLine⟩, by decide⟩
    · decide
    · decide
    · rw [displayLine, List.mem_append, List.mem_append, not_or, not_or]
      exact ⟨⟨by decide, hdisplayLine⟩, by decide⟩
    · decide
    · decide
    · decide
    · decide
    · decide
  have htext : fileText files declarationName = toolDeclaration r.name r.display := by
    rw [fileText, hfile]
    rfl
  rw [npDisplay, htext, toolDeclaration_eq hlen hlen', splitOn_flatMap hlines, List.append_assoc, List.cons_append,
    findSome?_declaration hnameQuote hdisplayQuote]
  exact commandOutput_of_notMem hdisplayLine

/-! ## What a tool's folder holds -/

theorem lookup_map_set (name content : Bytes) (files : ToolFiles) (m : Bytes) :
    (files.map fun f ↦ if f.1 = name then (name, some content) else f).lookup m =
      if m = name then (files.lookup name).map fun _ ↦ some content else files.lookup m := by
  induction files with
  | nil =>
    rw [List.map_nil, List.lookup_nil, List.lookup_nil, Option.map_none, ite_self]
  | cons f files ih =>
    rw [List.map_cons]
    by_cases hf : f.1 = name
    · rw [if_pos hf, List.lookup_cons, List.lookup_cons, List.lookup_cons, hf, beq_self_eq_true]
      by_cases hm : m = name
      · rw [if_pos hm, hm, beq_self_eq_true]
        rfl
      · rw [if_neg hm, beq_eq_false_iff_ne.mpr hm]
        dsimp only
        rw [ih, if_neg hm]
    · rw [if_neg hf, List.lookup_cons, List.lookup_cons, List.lookup_cons, beq_eq_false_iff_ne.mpr (Ne.symm hf), ih]
      by_cases hm : m = name
      · rw [if_pos hm, if_pos hm, hm, beq_eq_false_iff_ne.mpr (Ne.symm hf)]
      · rw [if_neg hm, if_neg hm]

theorem lookup_eq_none_of_any {name : Bytes} {files : ToolFiles} (h : files.any (·.1 = name) = false) : files.lookup name = none := by
  rw [List.lookup_eq_none_iff]
  intro f hf
  have hne := List.any_eq_false.mp h f hf
  exact bne_iff_ne.mpr fun heq ↦ hne (decide_eq_true heq.symm)

theorem lookup_setFile (name content : Bytes) (files : ToolFiles) (m : Bytes) :
    (setFile name content files).lookup m = if m = name then some (some content) else files.lookup m := by
  rw [setFile]
  split
  · next hany =>
    rw [lookup_map_set]
    cases hlookup : files.lookup name with
    | some old => rfl
    | none =>
      obtain ⟨f, hf, hname⟩ := List.any_eq_true.mp hany
      have hne := List.lookup_eq_none_iff.mp hlookup f hf
      exact absurd (of_decide_eq_true hname).symm (bne_iff_ne.mp hne)
  · next hany =>
    rw [List.lookup_append]
    by_cases hm : m = name
    · rw [if_pos hm, hm, lookup_eq_none_of_any (Bool.not_eq_true _ ▸ hany), Option.none_or, List.lookup_cons, beq_self_eq_true]
    · rw [if_neg hm, List.lookup_cons, beq_eq_false_iff_ne.mpr hm]
      exact Option.or_none

/-- Only files that `write_tool` writes, none of them a folder. -/
def Ours (files : ToolFiles) : Prop := ∀ f ∈ files, f.1 ∈ toolFileNames ∧ f.2.isSome = true

theorem Ours.lookup_ne {files : ToolFiles} (h : Ours files) (name : Bytes) : files.lookup name ≠ some none := by
  intro hlookup
  obtain ⟨l₁, l₂, rfl, -⟩ := List.lookup_eq_some_iff.mp hlookup
  have hsome := (h (name, none) (List.mem_append_right _ List.mem_cons_self)).2
  cases hsome

theorem Ours.set {files : ToolFiles} (h : Ours files) {name : Bytes} (hname : name ∈ toolFileNames) (content : Bytes) :
    Ours (setFile name content files) := by
  rw [setFile]
  split
  · intro f hf
    obtain ⟨g, hg, rfl⟩ := List.mem_map.mp hf
    split
    · exact ⟨hname, rfl⟩
    · exact h g hg
  · intro f hf
    obtain hf | hf := List.mem_append.mp hf
    · exact h f hf
    · rw [List.mem_singleton.mp hf]
      exact ⟨hname, rfl⟩

theorem Ours.write {files : ToolFiles} (h : Ours files) (how : Wrote) {name : Bytes} (hname : name ∈ toolFileNames)
    (content : Bytes) : Ours (writeFile how name content files) := by
  unfold writeFile
  split
  · exact h
  · cases how with
    | refused => exact h
    | cut n => exact h.set hname _
    | done => exact h.set hname _

theorem Ours.missing {files : ToolFiles} (h : Ours files) (how : Wrote) {name : Bytes} (hname : name ∈ toolFileNames)
    (content : Bytes) : Ours (writeMissing how name content files) := by
  rw [writeMissing]
  split
  · exact h
  · exact h.write how hname content

theorem Ours.lookup_write {files : ToolFiles} (h : Ours files) (name content m : Bytes) :
    (writeFile .done name content files).lookup m = if m = name then some (some content) else files.lookup m := by
  show (if files.lookup name = some none then files else setFile name content files).lookup m = _
  rw [if_neg (h.lookup_ne name)]
  exact lookup_setFile name content files m

theorem Ours.lookup_missing {files : ToolFiles} (h : Ours files) {name m : Bytes} (hm : m ≠ name) (content : Bytes) :
    (writeMissing .done name content files).lookup m = files.lookup m := by
  rw [writeMissing]
  split
  · rfl
  · rw [h.lookup_write, if_neg hm]

theorem Ours.lookup_missing_self {files : ToolFiles} (h : Ours files) (name content : Bytes) :
    (writeMissing .done name content files).lookup name = (files.lookup name).or (some (some content)) := by
  rw [writeMissing]
  split
  · next hany =>
    cases hlookup : files.lookup name with
    | none =>
      obtain ⟨f, hf, hname⟩ := List.any_eq_true.mp hany
      exact absurd (of_decide_eq_true hname).symm (bne_iff_ne.mp (List.lookup_eq_none_iff.mp hlookup f hf))
    | some text => rw [Option.some_or]
  · next hany =>
    rw [h.lookup_write, if_pos rfl, lookup_eq_none_of_any (Bool.not_eq_true _ ▸ hany), Option.none_or]

section

variable {runScript : Bytes} {calls : StartCalls} {r : ToolRow} {files : ToolFiles}

theorem Ours.tool (h : Ours files) : Ours (writeToolFiles runScript calls r files) := by
  have hdeclared := h.write (calls.write r.name declarationName) (by decide : declarationName ∈ toolFileNames)
    (toolDeclaration r.name r.display)
  have hmanifest := hdeclared.missing (calls.write r.name manifestName) (by decide : manifestName ∈ toolFileNames) toolManifest
  have hrun := hmanifest.write (calls.write r.name runName) (by decide : runName ∈ toolFileNames) runScript
  have hflavor := hrun.write (calls.write r.name flavorName) (by decide : flavorName ∈ toolFileNames) (r.flavor ++ [10])
  exact hflavor.write (calls.write r.name buildName) (by decide) (r.build ++ [10])

/-- A tool's folder after every call worked. -/
structure Served (runScript : Bytes) (r : ToolRow) (files : ToolFiles) : Prop where
  ours : Ours files
  declaration : files.lookup declarationName = some (some (toolDeclaration r.name r.display))
  manifest : ∃ text, files.lookup manifestName = some (some text)
  run : files.lookup runName = some (some runScript)
  flavor : files.lookup flavorName = some (some (r.flavor ++ [10]))
  build : files.lookup buildName = some (some (r.build ++ [10]))

/-- Everything is written but a manifest that is there. -/
theorem Ours.lookup_tool (h : Ours files) (m : Bytes) : (writeToolFiles runScript .succeed r files).lookup m =
    if m = buildName then some (some (r.build ++ [10])) else if m = flavorName then some (some (r.flavor ++ [10]))
    else if m = runName then some (some runScript)
    else if m = manifestName then (files.lookup manifestName).or (some (some toolManifest))
    else if m = declarationName then some (some (toolDeclaration r.name r.display))
    else files.lookup m := by
  have hdeclared : Ours (writeFile .done declarationName (toolDeclaration r.name r.display) files) := h.write .done (by decide) _
  have hmanifest := hdeclared.missing .done (by decide : manifestName ∈ toolFileNames) toolManifest
  have hrun := hmanifest.write .done (by decide : runName ∈ toolFileNames) runScript
  have hflavor := hrun.write .done (by decide : flavorName ∈ toolFileNames) (r.flavor ++ [10])
  have hmissing : (writeMissing .done manifestName toolManifest
      (writeFile .done declarationName (toolDeclaration r.name r.display) files)).lookup m =
      if m = manifestName then (files.lookup manifestName).or (some (some toolManifest))
      else if m = declarationName then some (some (toolDeclaration r.name r.display))
      else files.lookup m := by
    have hne : manifestName ≠ declarationName := by decide
    by_cases hm : m = manifestName
    · rw [if_pos hm, hm, hdeclared.lookup_missing_self, h.lookup_write, if_neg hne]
    · rw [if_neg hm, hdeclared.lookup_missing hm, h.lookup_write]
  rw [← hmissing, ← hmanifest.lookup_write, ← hrun.lookup_write, ← hflavor.lookup_write]
  rfl

theorem Ours.served (h : Ours files) : Served runScript r (writeToolFiles runScript .succeed r files) := by
  refine ⟨h.tool, ?_, ?_, ?_, ?_, ?_⟩
  · rw [h.lookup_tool, if_neg (by decide), if_neg (by decide), if_neg (by decide), if_neg (by decide), if_pos rfl]
  · rw [h.lookup_tool, if_neg (by decide), if_neg (by decide), if_neg (by decide), if_pos rfl]
    cases hlookup : files.lookup manifestName with
    | none => exact ⟨toolManifest, rfl⟩
    | some text =>
      cases text with
      | none => exact absurd hlookup (h.lookup_ne manifestName)
      | some text => exact ⟨text, rfl⟩
  · rw [h.lookup_tool, if_neg (by decide), if_neg (by decide), if_pos rfl]
  · rw [h.lookup_tool, if_neg (by decide), if_pos rfl]
  · rw [h.lookup_tool, if_pos rfl]

/-- A served folder is known for one of ours. -/
theorem Served.written (h : Served runScript r files) : writtenHere (.folder files) = true := by
  have hany : files.any (·.1 = flavorName) = true := by
    by_contra hno
    have hnone := lookup_eq_none_of_any (Bool.not_eq_true _ ▸ hno)
    rw [h.flavor] at hnone
    cases hnone
  rw [writtenHere, hany, Bool.true_or]

/-- The run script in a served folder is told what was listed. -/
theorem Served.reads (h : Served runScript r files) (hr : r.valid = true) :
    npFlavor files = r.flavor ∧ npBuild files = r.build ∧ npDisplay files = r.display ∧ fileText files runName = runScript := by
  have hfields := ToolRow.field_ok hr
  simp only [ToolRow.fields, List.forall_mem_cons] at hfields
  have hvalid := hr
  simp only [ToolRow.valid, Bool.and_eq_true, Bool.or_eq_true, decide_eq_true_eq] at hvalid
  obtain ⟨⟨⟨⟨⟨⟨-, hbuild⟩, hflavor⟩, -⟩, -⟩, -⟩, -⟩ := hvalid
  have hbuildBytes : r.build.all (fun c ↦ isLower c || isUpper c || isDigit c || c == 46 || c == 45) = true := by
    rw [npIsBuildId, Bool.and_eq_true, Bool.and_eq_true] at hbuild
    exact hbuild.1.1
  -- The script reads a file's one line.
  have hflavorRead : readVar (r.flavor ++ [10]) = r.flavor := by
    apply readVar_line
    obtain hflavor | hflavor := hflavor
    · rw [hflavor, flavors_eq.1]
      simp
    · rw [hflavor, flavors_eq.2]
      simp
  have hbuildRead : readVar (r.build ++ [10]) = r.build := by
    apply readVar_line
    intro c hc hmem
    have hbyte := List.all_eq_true.mp hbuildBytes c hc
    simp only [List.mem_cons, List.not_mem_nil, or_false] at hmem
    obtain rfl | rfl | rfl := hmem
    · exact absurd hbyte (by decide)
    · exact absurd hbyte (by decide)
    · exact absurd hbyte (by decide)
  refine ⟨?_, ?_, npDisplay_declaration hr h.declaration, ?_⟩
  · rw [npFlavor, fileText, h.flavor]
    exact hflavorRead
  · have htext : fileText files buildName = r.build ++ [10] := by
      rw [fileText, h.build]
      rfl
    rw [npBuild, htext, hbuildRead]
    exact if_pos hbuildBytes
  · rw [fileText, h.run]
    rfl

/-! ## Folders that are taken away -/

theorem unlinkFile_subset (works : Bool) (name : Bytes) (files : ToolFiles) : unlinkFile works name files ⊆ files := by
  rw [unlinkFile]
  split
  · exact List.filter_subset_self _
  · exact List.Subset.refl _

theorem foldl_unlinkFile_subset (works : Bytes → Bool) (names : List Bytes) (files : ToolFiles) :
    names.foldl (fun files file ↦ unlinkFile (works file) file files) files ⊆ files := by
  induction names generalizing files with
  | nil => exact List.Subset.refl _
  | cons name names ih => exact List.Subset.trans (ih _) (unlinkFile_subset _ name files)

/-- Removing every file that a start writes leaves nothing of ours. -/
theorem notMem_foldl_unlinkFile {names : List Bytes} {files : ToolFiles} {f : Bytes × Option Bytes} (hname : f.1 ∈ names)
    (hfile : f.2.isSome = true) : f ∉ names.foldl (fun files file ↦ unlinkFile true file files) files := by
  induction names generalizing files with
  | nil => cases hname
  | cons name names ih =>
    rw [List.foldl_cons]
    obtain heq | hname := List.mem_cons.mp hname
    · intro hmem
      have hmem := foldl_unlinkFile_subset (fun _ ↦ true) names _ hmem
      rw [unlinkFile, if_pos rfl, List.mem_filter, decide_eq_true_iff] at hmem
      exact hmem.2 ⟨heq, hfile⟩
    · exact ih hname

theorem Ours.removeTool (h : Ours files) (hwritten : writtenHere (.folder files) = true) (name : Bytes) :
    Runners.removeTool .succeed name (.folder files) = none := by
  have hempty : toolFileNames.foldl (fun files file ↦ unlinkFile true file files) files = [] := by
    apply List.eq_nil_iff_forall_not_mem.mpr
    intro f hf
    have hmem := h f (foldl_unlinkFile_subset (fun _ ↦ true) toolFileNames files hf)
    exact notMem_foldl_unlinkFile hmem.1 hmem.2 hf
  unfold Runners.removeTool
  dsimp only
  rw [if_pos hwritten]
  exact if_pos ⟨hempty, rfl⟩

/-- What a removal leaves is still ours. -/
theorem Ours.of_removeTool {calls : StartCalls} {name : Bytes} {item : Item} (h : Ours files)
    (hleft : Runners.removeTool calls name (.folder files) = some item) : ∃ left, item = .folder left ∧ Ours left := by
  unfold Runners.removeTool at hleft
  dsimp only at hleft
  split at hleft
  · split at hleft
    · cases hleft
    · exact ⟨_, (Option.some.inj hleft).symm,
        fun f hf ↦ h f (foldl_unlinkFile_subset (calls.unlink name) toolFileNames files hf)⟩
  · exact ⟨files, (Option.some.inj hleft).symm, h⟩

theorem removeTool_unwritten {calls : StartCalls} {name : Bytes} {item : Item} (h : writtenHere item = false) :
    Runners.removeTool calls name item = some item := by
  cases item with
  | file => rfl
  | folder files =>
    unfold Runners.removeTool
    dsimp only
    exact if_neg (by rw [h]; exact Bool.false_ne_true)

end

/-! ## Runs -/

/-- The app's list and the folder of the tools. -/
structure System where
  store : Store
  dir : ToolsDir

/-- Something happens to the list, or Steam starts. -/
inductive Happening
  | app (e : Event)
  | start (calls : StartCalls)

/-- The path of the tools' folder is in `toolsDir`, for the folders' names in the list. -/
def happen (runScript toolsDir : Bytes) (sys : System) : Happening → System
  | .app e => { sys with store := step sys.store e }
  | .start calls =>
    { sys with
      dir := npCompatEnsureToolManifest runScript calls
        (sys.store.toolList.map fun text ↦ npCompatLoadToolList toolsDir (some text)) sys.dir }

def runSystem (runScript toolsDir : Bytes) (sys : System) (happenings : List Happening) : System :=
  happenings.foldl (happen runScript toolsDir) sys

/-- The folders that begin like a tool's hold only what a start writes, and there are none before the first list. -/
structure Tended (dir₀ : ToolsDir) (sys : System) : Prop where
  start : Start sys.store
  ours : ∀ name, toolDirName <+: name → sys.dir name = none ∨ ∃ files, sys.dir name = some (.folder files) ∧ Ours files
  others : ∀ name, ¬toolDirName <+: name → sys.dir name = dir₀ name
  unlisted : sys.store.toolList = none → ∀ name, toolDirName <+: name → sys.dir name = none

theorem toolList_of_step {s : Store} {e : Event} (h : (step s e).toolList = none) : s.toolList = none := by
  cases e with
  | link target => exact h
  | sync m =>
    rw [step, sync] at h
    split at h
    · rwa [Option.map_some, Option.getD_some, prune_toolList] at h
    · split at h
      · rw [Option.map_some, Option.getD_some, prune_toolList] at h
        cases h
      · exact h

section

variable {runScript toolsDir : Bytes} {sys : System} {dir₀ : ToolsDir}

theorem ours_nil : Ours [] := fun _ h ↦ absurd h List.not_mem_nil

theorem toolName_start {r : ToolRow} (h : r.valid = true) : toolDirName <+: r.name := by
  simp only [ToolRow.valid, isToolName, Bool.and_eq_true, Bool.or_eq_true, decide_eq_true_eq] at h
  exact List.isPrefixOf_iff_prefix.mp h.1.1.1.1.1.1.1

/-- What a start does with one name, by the rows of the list. -/
theorem ensure_apply (calls : StartCalls) {rows : List ToolRow} (hvalid : ∀ r ∈ rows, r.valid = true)
    (hnames : (rows.map ToolRow.name).Nodup) (dir : ToolsDir) (name : Bytes) :
    npCompatEnsureToolManifest runScript calls (some (npCompatLoadToolList toolsDir (some (toolListText rows)))) dir name =
      match rows.find? (·.name = name) with
      | some r => writeTool runScript calls r (dir name)
      | none => if toolDirName.isPrefixOf name then (dir name).bind (removeTool calls name) else dir name := by
  have hfind : (rows.map (entryOf toolsDir)).find? (fun e ↦ e.row.name = name) = (rows.find? (·.name = name)).map (entryOf toolsDir) := by
    rw [List.find?_map]
    rfl
  rw [npCompatLoadToolList_rows toolsDir hvalid hnames]
  unfold npCompatEnsureToolManifest
  dsimp only
  rw [hfind]
  cases rows.find? (·.name = name) <;> rfl

theorem writeTool_ours {calls : StartCalls} {r : ToolRow} {item : Option Item}
    (h : item = none ∨ ∃ files, item = some (.folder files) ∧ Ours files) :
    writeTool runScript calls r item = none ∨ ∃ files, writeTool runScript calls r item = some (.folder files) ∧ Ours files := by
  obtain rfl | ⟨files, rfl, hours⟩ := h
  · rw [writeTool]
    split
    · exact .inr ⟨_, rfl, ours_nil.tool⟩
    · exact .inl rfl
  · exact .inr ⟨_, rfl, hours.tool⟩

theorem removeTool_ours {calls : StartCalls} {name : Bytes} {item : Option Item}
    (h : item = none ∨ ∃ files, item = some (.folder files) ∧ Ours files) :
    item.bind (removeTool calls name) = none ∨ ∃ files, item.bind (removeTool calls name) = some (.folder files) ∧ Ours files := by
  obtain rfl | ⟨files, rfl, hours⟩ := h
  · exact .inl rfl
  · rw [Option.bind_some]
    cases hleft : removeTool calls name (.folder files) with
    | none => exact .inl rfl
    | some item =>
      obtain ⟨left, rfl, hleftOurs⟩ := hours.of_removeTool hleft
      exact .inr ⟨left, rfl, hleftOurs⟩

variable (runScript toolsDir) in
/-- What a start makes of one name, by the rows of the list. -/
theorem dir_start (calls : StartCalls) {rows : List ToolRow} (hvalid : ∀ r ∈ rows, r.valid = true)
    (hnames : (rows.map ToolRow.name).Nodup) (htext : sys.store.toolList = some (toolListText rows)) (name : Bytes) :
    (happen runScript toolsDir sys (.start calls)).dir name =
      match rows.find? (·.name = name) with
      | some r => writeTool runScript calls r (sys.dir name)
      | none => if toolDirName.isPrefixOf name then (sys.dir name).bind (removeTool calls name) else sys.dir name := by
  rw [← ensure_apply calls hvalid hnames]
  unfold happen
  rw [htext]
  rfl

theorem Tended.happen (h : Tended dir₀ sys) (happening : Happening) : Tended dir₀ (happen runScript toolsDir sys happening) := by
  cases happening with
  | app e => exact ⟨h.start.step e, h.ours, h.others, fun hnone ↦ h.unlisted (toolList_of_step hnone)⟩
  | start calls =>
    obtain ⟨rows, hvalid, hnames, -, ⟨hnone, -⟩ | htext⟩ := h.start.rows
    · -- No list yet: `compat_init` leaves the folders as they are.
      have hsame : Runners.happen runScript toolsDir sys (.start calls) = sys := by
        unfold Runners.happen
        rw [hnone]
        rfl
      rwa [hsame]
    · have hdir := dir_start runScript toolsDir calls hvalid hnames htext
      refine ⟨h.start, ?_, ?_, fun hnone ↦ ?_⟩
      · intro name hname
        rw [hdir]
        cases rows.find? (·.name = name) with
        | some r => exact writeTool_ours (h.ours name hname)
        | none =>
          dsimp only
          rw [if_pos (List.isPrefixOf_iff_prefix.mpr hname)]
          exact removeTool_ours (h.ours name hname)
      · intro name hname
        rw [hdir]
        cases hfind : rows.find? (·.name = name) with
        | some r =>
          have heq : r.name = name := by simpa using List.find?_some hfind
          exact absurd (heq ▸ toolName_start (hvalid r (List.mem_of_find?_eq_some hfind))) hname
        | none =>
          dsimp only
          rw [if_neg fun hpre ↦ hname (List.isPrefixOf_iff_prefix.mp hpre)]
          exact h.others name hname
      · have hlisted : sys.store.toolList = none := hnone
        rw [htext] at hlisted
        cases hlisted

theorem Tended.run (h : Tended dir₀ sys) (happenings : List Happening) : Tended dir₀ (runSystem runScript toolsDir sys happenings) := by
  induction happenings generalizing sys with
  | nil => exact h
  | cons happening happenings ih => exact ih (h.happen happening)

variable (runScript toolsDir) in
/-- A start whose calls work writes a folder for every listed tool, into what was there of it. -/
theorem Tended.writes (h : Tended dir₀ sys) {rows : List ToolRow} (hvalid : ∀ r ∈ rows, r.valid = true)
    (hnames : (rows.map ToolRow.name).Nodup) (htext : sys.store.toolList = some (toolListText rows)) {r : ToolRow} (hr : r ∈ rows) :
    ∃ files, Ours files ∧ (files = [] ∨ sys.dir r.name = some (.folder files)) ∧
      (Runners.happen runScript toolsDir sys (.start .succeed)).dir r.name =
        some (.folder (writeToolFiles runScript .succeed r files)) := by
  have hfind : rows.find? (·.name = r.name) = some r := by
    apply find?_eq_some_of_unique hr (by simp)
    intro r' hr' heq
    exact List.inj_on_of_nodup_map hnames hr' hr (of_decide_eq_true heq)
  rw [dir_start runScript toolsDir .succeed hvalid hnames htext, hfind]
  obtain hnone | ⟨files, hfiles, hours⟩ := h.ours r.name (toolName_start (hvalid r hr))
  · rw [hnone]
    exact ⟨[], ours_nil, .inl rfl, rfl⟩
  · rw [hfiles]
    exact ⟨files, hours, .inr rfl, rfl⟩

variable (runScript toolsDir) in
/-- What it leaves of a tool that is not listed was not known for one of ours. -/
theorem Tended.clears (h : Tended dir₀ sys) {rows : List ToolRow} (hvalid : ∀ r ∈ rows, r.valid = true)
    (hnames : (rows.map ToolRow.name).Nodup) (htext : sys.store.toolList = some (toolListText rows)) {name : Bytes}
    (hname : toolDirName <+: name) (hunlisted : name ∉ rows.map ToolRow.name) :
    (Runners.happen runScript toolsDir sys (.start .succeed)).dir name = none ∨
      ∃ files, Ours files ∧ writtenHere (.folder files) = false ∧ sys.dir name = some (.folder files) ∧
        (Runners.happen runScript toolsDir sys (.start .succeed)).dir name = some (.folder files) := by
  have hfind : rows.find? (·.name = name) = none := by
    rw [List.find?_eq_none]
    intro r hr heq
    exact hunlisted (List.mem_map.mpr ⟨r, hr, of_decide_eq_true heq⟩)
  rw [dir_start runScript toolsDir .succeed hvalid hnames htext, hfind]
  dsimp only
  rw [if_pos (List.isPrefixOf_iff_prefix.mpr hname)]
  obtain hnone | ⟨files, hfiles, hours⟩ := h.ours name hname
  · rw [hnone]
    exact .inl rfl
  · rw [hfiles, Option.bind_some]
    cases hwritten : writtenHere (.folder files) with
    | true => exact .inl (hours.removeTool hwritten name)
    | false => exact .inr ⟨files, hours, hwritten, rfl, removeTool_unwritten hwritten⟩

/-- Every folder that begins like a tool's is as a start leaves it whose calls all work, its manifest too. -/
def AllServed (runScript : Bytes) (sys : System) : Prop :=
  ∀ name, toolDirName <+: name → sys.dir name = none ∨
    ∃ r files, sys.dir name = some (.folder files) ∧ Served runScript r files ∧ files.lookup manifestName = some (some toolManifest)

/-- Such a folder is taken away when its tool is not listed, and written again when it is. -/
theorem AllServed.started (h : AllServed runScript sys) (htended : Tended dir₀ sys) {rows : List ToolRow}
    (hvalid : ∀ r ∈ rows, r.valid = true) (hnames : (rows.map ToolRow.name).Nodup)
    (htext : sys.store.toolList = some (toolListText rows)) {name : Bytes} (hname : toolDirName <+: name) :
    (name ∉ rows.map ToolRow.name ∧ (Runners.happen runScript toolsDir sys (.start .succeed)).dir name = none) ∨
      ∃ r ∈ rows, r.name = name ∧ ∃ files, (Runners.happen runScript toolsDir sys (.start .succeed)).dir name = some (.folder files) ∧
        Served runScript r files ∧ files.lookup manifestName = some (some toolManifest) := by
  by_cases hlisted : name ∈ rows.map ToolRow.name
  · right
    obtain ⟨r, hr, rfl⟩ := List.mem_map.mp hlisted
    obtain ⟨files, hours, hbefore, hdir⟩ := htended.writes runScript toolsDir hvalid hnames htext hr
    refine ⟨r, hr, rfl, _, hdir, hours.served, ?_⟩
    -- A manifest that is there is left as it is, and was whole.
    have hmanifest : files.lookup manifestName = none ∨ files.lookup manifestName = some (some toolManifest) := by
      obtain rfl | hfiles := hbefore
      · exact .inl rfl
      · obtain hnone | ⟨-, files', hfiles', -, htext'⟩ := h r.name hname
        · rw [hnone] at hfiles
          cases hfiles
        · rw [hfiles'] at hfiles
          obtain rfl := Item.folder.inj (Option.some.inj hfiles)
          exact .inr htext'
    rw [hours.lookup_tool, if_neg (by decide), if_neg (by decide), if_neg (by decide), if_pos rfl]
    obtain hnone | hthere := hmanifest
    · rw [hnone, Option.none_or]
    · rw [hthere, Option.some_or]
  · refine .inl ⟨hlisted, ?_⟩
    obtain hgone | ⟨files, -, hwritten, hfiles, -⟩ := htended.clears runScript toolsDir hvalid hnames htext hname hlisted
    · exact hgone
    · obtain hnone | ⟨r, files', hfiles', hserved, -⟩ := h name hname
      · rw [hnone] at hfiles
        cases hfiles
      · rw [hfiles'] at hfiles
        obtain rfl := Item.folder.inj (Option.some.inj hfiles)
        rw [hserved.written] at hwritten
        cases hwritten

theorem AllServed.run (h : AllServed runScript sys) (htended : Tended dir₀ sys) {happenings : List Happening}
    (hworks : ∀ calls, .start calls ∈ happenings → calls = .succeed) :
    AllServed runScript (runSystem runScript toolsDir sys happenings) := by
  induction happenings generalizing sys with
  | nil => exact h
  | cons happening happenings ih =>
    refine ih ?_ (htended.happen happening) fun calls hmem ↦ hworks calls (List.mem_cons_of_mem _ hmem)
    cases happening with
    | app e => exact h
    | start calls =>
      obtain rfl := hworks calls List.mem_cons_self
      obtain ⟨rows, hvalid, hnames, -, ⟨hnone, -⟩ | htext⟩ := htended.start.rows
      · intro name hname
        left
        exact (htended.happen (.start .succeed)).unlisted hnone name hname
      · intro name hname
        obtain ⟨-, hgone⟩ | ⟨r, -, -, files, hdir, hserved⟩ := h.started htended hvalid hnames htext hname
        · exact .inl hgone
        · exact .inr ⟨r, files, hdir, hserved⟩

/-- The events of the list among what happens. -/
def appEvents (happenings : List Happening) : List Event :=
  happenings.filterMap fun happening ↦ match happening with
    | .app e => some e
    | .start _ => none

theorem store_runSystem (happenings : List Happening) : (runSystem runScript toolsDir sys happenings).store = run sys.store (appEvents happenings) := by
  induction happenings generalizing sys with
  | nil => rfl
  | cons happening happenings ih =>
    show (runSystem runScript toolsDir (Runners.happen runScript toolsDir sys happening) happenings).store = _
    rw [ih]
    cases happening <;> rfl

theorem runSystem_append (before later : List Happening) :
    runSystem runScript toolsDir sys (before ++ later) = runSystem runScript toolsDir (runSystem runScript toolsDir sys before) later :=
  List.foldl_append

theorem Tended.first (hs : Start sys.store) (hfresh : ∀ name, toolDirName <+: name → sys.dir name = none) : Tended sys.dir sys :=
  ⟨hs, fun name hname ↦ .inl (hfresh name hname), fun _ _ ↦ rfl, fun _ ↦ hfresh⟩

theorem Tended.fresh (hs : Start sys.store) (hfresh : ∀ name, toolDirName <+: name → sys.dir name = none) (happenings : List Happening) :
    Tended sys.dir (runSystem runScript toolsDir sys happenings) :=
  (Tended.first hs hfresh).run happenings

/-- Every listed tool is served by a start whose calls work. -/
theorem Tended.listed (h : Tended dir₀ sys) {name build flavor display : Bytes} (hrow : [name, build, flavor, display] ∈ listedRows sys.store) :
    ∃ files, (Runners.happen runScript toolsDir sys (.start .succeed)).dir name = some (.folder files) ∧ npFlavor files = flavor ∧
      npBuild files = build ∧ npDisplay files = display ∧ fileText files runName = runScript := by
  obtain ⟨rows, hvalid, hnames, hlisted, htext⟩ := h.start.rows
  rw [hlisted] at hrow
  obtain ⟨r, hr, hfields⟩ := List.mem_map.mp hrow
  simp only [ToolRow.fields, List.cons.injEq, and_true] at hfields
  obtain ⟨rfl, rfl, rfl, rfl⟩ := hfields
  obtain ⟨-, rfl⟩ | htext := htext
  · cases hr
  · obtain ⟨files, hours, -, hdir⟩ := h.writes runScript toolsDir hvalid hnames htext hr
    exact ⟨_, hdir, hours.served.reads (hvalid r hr)⟩

end

/-- Where nothing in the folder of the tools begins like one, whatever the app and Steam do and whichever calls of earlier
starts fail, a start whose calls work leaves every listed tool a folder whose run script is told the tool's build, flavor
and display name.  Of any other tool it leaves no folder that is known for one of ours, and none at all, nor a manifest cut
short, where the calls of the earlier starts worked.  What does not begin like a tool is untouched. -/
theorem tools_served (runScript toolsDir : Bytes) (sys : System) (hs : Start sys.store)
    (hfresh : ∀ name, toolDirName <+: name → sys.dir name = none) (happenings : List Happening) :
    let now := runSystem runScript toolsDir sys (happenings ++ [.start .succeed])
    (∀ name build flavor display, [name, build, flavor, display] ∈ listedRows now.store →
      ∃ files, now.dir name = some (.folder files) ∧ npFlavor files = flavor ∧ npBuild files = build ∧ npDisplay files = display ∧
        fileText files runName = runScript) ∧
      (∀ name item, toolDirName <+: name → now.dir name = some item → (∀ row ∈ listedRows now.store, row.head? ≠ some name) →
        ∃ files, item = .folder files ∧ Ours files ∧ writtenHere item = false) ∧
      ((∀ calls, .start calls ∈ happenings → calls = .succeed) → ∀ name item, toolDirName <+: name → now.dir name = some item →
        (∃ row ∈ listedRows now.store, row.head? = some name) ∧
          ∃ files, item = .folder files ∧ files.lookup manifestName = some (some toolManifest)) ∧
      ∀ name, ¬toolDirName <+: name → now.dir name = sys.dir name := by
  intro now
  have hbefore : Tended sys.dir (runSystem runScript toolsDir sys happenings) := .fresh hs hfresh happenings
  have hnow : now = happen runScript toolsDir (runSystem runScript toolsDir sys happenings) (.start .succeed) := runSystem_append happenings _
  have hafter : Tended sys.dir now := hnow ▸ hbefore.happen _
  obtain ⟨rows, hvalid, hnames, hlisted, htext⟩ := hbefore.start.rows
  have hlistedNow : listedRows now.store = rows.map ToolRow.fields := by
    rw [hnow]
    exact hlisted
  have hrow : ∀ name ∈ rows.map ToolRow.name, ∃ row ∈ listedRows now.store, row.head? = some name := by
    intro name hmem
    obtain ⟨r, hr, hname⟩ := List.mem_map.mp hmem
    refine ⟨r.fields, ?_, congrArg some hname⟩
    rw [hlistedNow]
    exact List.mem_map_of_mem hr
  -- without a list there are no folders
  have hnone : now.store.toolList = none → ∀ name item, toolDirName <+: name → now.dir name ≠ some item := by
    intro hnone name item hname hitem
    rw [hafter.unlisted hnone name hname] at hitem
    cases hitem
  refine ⟨?_, ?_, ?_, hafter.others⟩
  · intro name build flavor display hrow
    rw [hnow] at hrow ⊢
    exact hbefore.listed hrow
  · intro name item hname hitem hunlisted
    obtain ⟨hempty, -⟩ | htext := htext
    · exact absurd hitem (hnone (by rw [hnow]; exact hempty) name item hname)
    · have hno : name ∉ rows.map ToolRow.name := by
        intro hmem
        obtain ⟨row, hmem, hhead⟩ := hrow name hmem
        exact hunlisted row hmem hhead
      rw [hnow] at hitem
      obtain hgone | ⟨files, hours, hwritten, -, hfiles⟩ := hbefore.clears runScript toolsDir hvalid hnames htext hname hno
      · rw [hgone] at hitem
        cases hitem
      · rw [hfiles] at hitem
        obtain rfl := Option.some.inj hitem
        exact ⟨files, rfl, hours, hwritten⟩
  · intro hworks name item hname hitem
    obtain ⟨hempty, -⟩ | htext := htext
    · exact absurd hitem (hnone (by rw [hnow]; exact hempty) name item hname)
    · have hserved : AllServed runScript (runSystem runScript toolsDir sys happenings) :=
        AllServed.run (fun name hname ↦ .inl (hfresh name hname)) (.first hs hfresh) hworks
      rw [hnow] at hitem
      obtain ⟨-, hgone⟩ | ⟨r, hr, hrname, files, hfiles, -, hmanifest⟩ := hserved.started hbefore hvalid hnames htext hname
      · rw [hgone] at hitem
        cases hitem
      · rw [hfiles] at hitem
        obtain rfl := Option.some.inj hitem
        exact ⟨hrow name (hrname ▸ List.mem_map_of_mem hr), files, rfl, hmanifest⟩

/-- A tool keeps its build: what the run script in its folder reads stays the same from start to start, as long as every
list in between was made with the build installed. -/
theorem builds_stay (runScript toolsDir : Bytes) (sys : System) (hs : Start sys.store)
    (hfresh : ∀ name, toolDirName <+: name → sys.dir name = none) (before later : List Happening) (name build flavor display : Bytes)
    (hrow : [name, build, flavor, display] ∈ listedRows (runSystem runScript toolsDir sys before).store)
    (hinst : ∀ m, .app (.sync m) ∈ later → build ∈ installedIds m.runners) :
    ∃ files, (runSystem runScript toolsDir sys (before ++ later ++ [.start .succeed])).dir name = some (.folder files) ∧
      npBuild files = build ∧ npFlavor files = flavor := by
  obtain ⟨ts₀, h₀⟩ := hs.stands
  obtain ⟨ts, h, -⟩ := run_stands h₀ (appEvents before)
  obtain ⟨ts', h', hkeep⟩ := run_stands h (appEvents later)
  rw [store_runSystem, h.rows_eq] at hrow
  obtain ⟨t, ht, hfields⟩ := List.mem_map.mp hrow
  have hbuild : t.build = build := by
    simp only [rowOf, List.cons.injEq, and_true] at hfields
    exact hfields.2.1
  -- The syncs among what happens later are those of the app.
  have hlater : t ∈ ts' := by
    apply hkeep t ht
    intro m hm
    obtain ⟨happening, hmem, happ⟩ := List.mem_filterMap.mp hm
    cases happening with
    | app e =>
      obtain rfl := Option.some.inj happ
      rw [hbuild]
      exact hinst m hmem
    | start calls => cases happ
  have hlisted : [name, build, flavor, display] ∈ listedRows (runSystem runScript toolsDir sys (before ++ later)).store := by
    rw [store_runSystem, appEvents, List.filterMap_append]
    show _ ∈ listedRows (run sys.store (appEvents before ++ appEvents later))
    rw [run_append, h'.rows_eq]
    exact List.mem_map.mpr ⟨t, hlater, hfields⟩
  obtain ⟨files, hdir, hflavor, hread, -⟩ := (Tended.fresh hs hfresh (before ++ later)).listed hlisted
  rw [runSystem_append]
  exact ⟨files, hdir, hread, hflavor⟩

/-- A Mac on which one build is set up before Steam starts for the first time. -/
def firstList : Happening := .app (.sync ⟨cloned [utf8 "26.3.0.39832"], false, false, true⟩)

def emptySystem : System := ⟨⟨none, none⟩, fun _ ↦ none⟩

theorem tools_served_one :
    ∃ files, (runSystem (ascii "#!/bin/sh") (ascii "/tools") emptySystem ([firstList] ++ [.start .succeed])).dir (utf8 "notproton-26.3") =
      some (.folder files) ∧ npFlavor files = utf8 "rosetta" ∧ npBuild files = utf8 "26.3.0.39832" ∧
        npDisplay files = utf8 "CrossOver 26.3" ∧ fileText files runName = ascii "#!/bin/sh" :=
  (tools_served (ascii "#!/bin/sh") (ascii "/tools") emptySystem (.inl rfl) (fun _ _ ↦ rfl) [firstList]).1 _ _ _ _ (by decide)

theorem builds_stay_one :
    ∃ files, (runSystem (ascii "#!/bin/sh") (ascii "/tools") emptySystem ([firstList] ++ [firstList] ++ [.start .succeed])).dir
      (utf8 "notproton-26.3") = some (.folder files) ∧ npBuild files = utf8 "26.3.0.39832" ∧ npFlavor files = utf8 "rosetta" := by
  refine builds_stay (ascii "#!/bin/sh") (ascii "/tools") emptySystem (.inl rfl) (fun _ _ ↦ rfl) [firstList] [firstList] _ _ _
    (utf8 "CrossOver 26.3") (by decide) ?_
  intro m hm
  simp only [firstList, List.mem_cons, List.not_mem_nil, or_false, Happening.app.injEq, Event.sync.injEq] at hm
  rw [hm]
  decide

end NotProton.Runners
