import NotProton.Library.FolderTree
import NotProton.Runners.TemplateNames

/-!
# TemplateCleanup — removing the prefix templates of builds that are gone (`RunnerInstaller.swift`)

The drives are one tree of entries, a folder with the volume it is on.  Every call may fail with a code of its own
beside what it finds, and nobody else changes the tree meanwhile.  The parents of a library are resolved.
-/

open NotProton.Library

namespace NotProton.Runners

/-! ## The drives -/

abbrev Path := List Bytes

inductive Leaf
  | file (content : Bytes)
  | link (target : Bytes)
  | special
  deriving DecidableEq

/-- `st_dev` and `st_ino` -/
structure FolderInfo where
  dev : Nat
  ino : Nat
  deriving DecidableEq

abbrev Entries := FolderTree Bytes Leaf FolderInfo
abbrev World := Entry Bytes Leaf FolderInfo

/-- Every code but `ENOENT`. -/
inductive Errno
  | busy
  | inval
  | isdir
  | loop
  | notdir
  | notempty
  | wouldblock
  | other (code : Nat)
  deriving DecidableEq

inductive SysCall
  | openFolder
  | openLock
  | stat
  | fstat
  | flock
  | list
  | unlink
  | rmdir

/-- How a call on a path fails beside what it finds there.  A lock that is held is `wouldblock` of `flock`. -/
abbrev Sys := SysCall → Path → Option Errno

/-- `.template` is a failure of one entry, `.library` one of the whole folder. -/
inductive CleanupFailure
  | template (folder : Path) (name : Bytes) (code : Errno)
  | library (folder : Path) (code : Errno)
  deriving DecidableEq

def pathText (path : Path) : Bytes := path.flatMap (47 :: ·)

/-- The detail of the `StepFailure`. -/
def CleanupFailure.detail (describe : Errno → Bytes) : CleanupFailure → Bytes
  | .template folder name code =>
    ascii "Could not remove prefix template " ++ pathText (folder ++ [name]) ++ ascii ": " ++ describe code ++ ascii " Refresh to retry."
  | .library folder code =>
    ascii "Could not clean prefix templates at " ++ pathText folder ++ ascii ": " ++ describe code ++ ascii " Refresh to retry."

structure SteamLibrary where
  root : Path

def SteamLibrary.compatdata (l : SteamLibrary) : Path := l.root ++ [ascii "steamapps", ascii "compatdata"]
def SteamLibrary.templates (l : SteamLibrary) : Path := l.compatdata ++ [prefixTemplateFolder]
def SteamLibrary.lock (l : SteamLibrary) : Path := l.compatdata ++ [templateLock]

/-- The arguments of `removePrefixTemplates`. -/
structure Cleanup where
  builds : List Bytes
  reportBusy : Bool
  removingFolder : Bool

section

variable (sys : Sys)

/-! ## One entry -/

/-- `openat` with `O_DIRECTORY | O_NOFOLLOW` of an entry that is there. -/
def openFolder (path : Path) : World → Except Errno (FolderInfo × Entries)
  | .leaf a =>
    match sys .openFolder path, a with
    | some code, _ => .error code
    | none, .link _ => .error .loop
    | none, _ => .error .notdir
  | .folder b inner =>
    match sys .openFolder path with
    | some code => .error code
    | none => .ok (b, inner)

/-- `fstatat`, then `unlinkat` of what is no folder. -/
def removeFile (path : Path) : Option Errno := sys .stat path <|> sys .unlink path

/-- `guard opened.st_dev == device, opened.st_ino == info.st_ino` -/
def sameFolder (device : Nat) (info opened : FolderInfo) : Option Errno :=
  if opened.dev = device ∧ opened.ino = info.ino then none else some .busy

/-- What comes before a folder's entries: it is the one that was looked at, on the volume of the template folder. -/
def enterFolder (device : Nat) (path : Path) (b : FolderInfo) : Option Errno :=
  sys .stat path <|> sys .openFolder path <|> sys .fstat path <|> sameFolder device b b <|> sys .list path

/-- `unlinkat` with `AT_REMOVEDIR` -/
def removeDir (path : Path) (left : Entries) : Option Errno :=
  sys .rmdir path <|> if left.toList.isEmpty then none else some .notempty

/-- A folder of `removeTemplateEntry`, with what the loop over its entries does: `none` when it is gone, else what is
left of it and the code thrown. -/
def removeFolder (device : Nat) (path : Path) (b : FolderInfo) (inner : Entries) (emptied : Entries × Option Errno) :
    Option (World × Errno) :=
  match enterFolder sys device path b with
  | some code => some (.folder b inner, code)
  | none =>
    match emptied with
    | (left, some code) => some (.folder b left, code)
    | (left, none) => (removeDir sys path left).map fun code ↦ (.folder b left, code)

/-- `for entry in try templateDirectoryNames(child)`: the first entry that throws ends it. -/
def removeLoop (device : Nat) : Path → Entries → Entries × Option Errno
  | _, .done => (.done, none)
  | folder, .leaf name a rest =>
    match removeFile sys (folder ++ [name]) with
    | some code => (.leaf name a rest, some code)
    | none => removeLoop device folder rest
  | folder, .folder name b inner rest =>
    match removeFolder sys device (folder ++ [name]) b inner (removeLoop device (folder ++ [name]) inner) with
    | some (left, code) => (.cons name left rest, some code)
    | none => removeLoop device folder rest

def removeTemplateEntry (device : Nat) (path : Path) : World → Option (World × Errno)
  | .leaf a => (removeFile sys path).map fun code ↦ (.leaf a, code)
  | .folder b inner => removeFolder sys device path b inner (removeLoop sys device path inner)

/-! ## One library -/

/-- `for name in try templateDirectoryNames(root)`: what is left, and the failures. -/
def cleanEntries (device : Nat) (builds : List Bytes) (folder : Path) : List (Bytes × World) → List (Bytes × World) × List CleanupFailure
  | [] => ([], [])
  | (name, e) :: rest =>
    let (left, failures) := cleanEntries device builds folder rest
    if removes builds name then
      match removeTemplateEntry sys device (folder ++ [name]) e with
      | some (e', code) => ((name, e') :: left, .template folder name code :: failures)
      | none => (left, failures)
    else ((name, e) :: left, failures)

/-- `openat` with `O_RDWR | O_CREAT | O_NOFOLLOW` -/
def openLock (path : Path) : Option World → Option Errno
  | some (.leaf (.link _)) => sys .openLock path <|> some .loop
  | some (.folder _ _) => sys .openLock path <|> some .isdir
  | _ => sys .openLock path

/-- The lock file is made where there is none. -/
def withLock (entries : Entries) : Entries :=
  match entries.item? templateLock with
  | none => entries.add templateLock (.leaf (.file []))
  | some _ => entries

/-- `fstat` of the lock, and that it is a file. -/
def checkLock (path : Path) (lock : Option World) : Option Errno :=
  sys .fstat path <|> match lock with
    | some (.leaf .special) => some .inval
    | _ => none

/-- What the calls before the loop come to: the library is passed over, fails as a whole, or its folder is open. -/
inductive Visit
  | passed
  | failed (code : Errno)
  | opened (b : FolderInfo) (inner : Entries)

/-- From the lock that is open to the names in the folder. -/
def visitLocked (c : Cleanup) (l : SteamLibrary) (lock : Option World) (templates : World) : Visit :=
  match checkLock sys l.lock lock with
  | some code => .failed code
  | none =>
    match sys .flock l.lock with
    | some code => if code = .wouldblock ∧ c.reportBusy = false then .passed else .failed code
    | none =>
      match openFolder sys l.templates templates with
      | .error code => .failed code
      | .ok (b, inner) =>
        match sys .fstat l.templates <|> sys .list l.templates with
        | some code => .failed code
        | none => .opened b inner

def visit (c : Cleanup) (l : SteamLibrary) (entries : Entries) : Entries × Visit :=
  match sys .stat l.templates with
  | some code => (entries, .failed code)
  | none =>
    match entries.item? prefixTemplateFolder with
    | none => (entries, .passed)
    | some templates =>
      match openLock sys l.lock (entries.item? templateLock) with
      | some code => (entries, .failed code)
      | none => (withLock entries, visitLocked sys c l (entries.item? templateLock) templates)

/-- A library from its open `compatdata` on. -/
def cleanCompatdata (c : Cleanup) (l : SteamLibrary) (entries : Entries) : Entries × List CleanupFailure :=
  match visit sys c l entries with
  | (entries, .passed) => (entries, [])
  | (entries, .failed code) => (entries, [.library l.templates code])
  | (entries, .opened b inner) =>
    let (left, failures) := cleanEntries sys b.dev c.builds l.templates inner.toList
    if c.removingFolder = true ∧ c.builds = [] ∧ failures = [] ∧ removeDir sys l.templates (.ofList left) = none then
      (entries.erase prefixTemplateFolder, failures)
    else (entries.change prefixTemplateFolder fun _ ↦ .folder b (.ofList left), failures)

def cleanLibrary (c : Cleanup) (l : SteamLibrary) (world : World) : World × List CleanupFailure :=
  match world.find? l.compatdata with
  | none =>
    match sys .openFolder l.compatdata with
    | some code => (world, [.library l.templates code])
    | none => (world, [])
  | some compatdata =>
    match openFolder sys l.compatdata compatdata with
    | .error code => (world, [.library l.templates code])
    | .ok (_, entries) =>
      let (entries, failures) := cleanCompatdata sys c l entries
      (world.modify (fun _ ↦ entries) l.compatdata, failures)

def removePrefixTemplates (c : Cleanup) : List SteamLibrary → World → World × List CleanupFailure
  | [], world => (world, [])
  | l :: libraries, world =>
    let (world, failures) := cleanLibrary sys c l world
    let (world, later) := removePrefixTemplates c libraries world
    (world, failures ++ later)

/-! ## What removing an entry comes to -/

/-- No call on the entry itself fails, and a folder is on the volume. -/
def Passable (device : Nat) (path : Path) : World → Prop
  | .leaf _ => removeFile sys path = none
  | .folder b _ => enterFolder sys device path b = none ∧ sys .rmdir path = none

/-- The entry can be removed: nothing in it stands in the way. -/
def Removable (device : Nat) (path : Path) (e : World) : Prop := ∀ q x, e.Has q x → Passable sys device (path ++ q) x

variable {sys} {device : Nat} {folder path : Path}

theorem removeLoop_cons (name : Bytes) (e : World) (rest : Entries) :
    removeLoop sys device folder (.cons name e rest) =
      match removeTemplateEntry sys device (folder ++ [name]) e with
      | some (left, code) => (.cons name left rest, some code)
      | none => removeLoop sys device folder rest := by
  cases e with
  | leaf a =>
    show removeLoop sys device folder (.leaf name a rest) = _
    rw [removeLoop, removeTemplateEntry]
    cases removeFile sys (folder ++ [name]) <;> rfl
  | folder b inner => rfl

theorem removeLoop_done (t : Entries) : (removeLoop sys device folder t).2 = none → (removeLoop sys device folder t).1 = .done := by
  have hall := FolderTree.induct (P := fun t : Entries ↦ (removeLoop sys device folder t).2 = none → (removeLoop sys device folder t).1 = .done)
    (Q := fun _ ↦ True) (fun _ ↦ rfl) ?_ (fun _ ↦ trivial) (fun _ _ _ ↦ trivial)
  · exact hall.1 t
  · intro n e rest _ ih
    rw [removeLoop_cons]
    cases removeTemplateEntry sys device (folder ++ [n]) e with
    | none => exact ih
    | some left => exact fun h ↦ absurd h (Option.some_ne_none _)

theorem has_leaf {a : Leaf} {q : Path} {x : World} (h : Entry.Has (.leaf a) q x) : q = [] ∧ x = .leaf a := by
  cases h
  exact ⟨rfl, rfl⟩

theorem removable_folder {b : FolderInfo} {inner : Entries} :
    Removable sys device path (.folder b inner) ↔ enterFolder sys device path b = none ∧ sys .rmdir path = none ∧
      ∀ name e, (name, e) ∈ inner.toList → Removable sys device (path ++ [name]) e := by
  constructor
  · intro h
    have hself := h [] _ (.here _)
    rw [List.append_nil] at hself
    refine ⟨hself.1, hself.2, ?_⟩
    intro name e hmem q x hx
    rw [List.append_assoc]
    exact h (name :: q) x (.inner hmem hx)
  · intro h q x hx
    cases hx with
    | here =>
      rw [List.append_nil]
      exact ⟨h.1, h.2.1⟩
    | inner hmem hx =>
      have hbelow := h.2.2 _ _ hmem _ x hx
      rwa [List.append_assoc] at hbelow

theorem removeFolder_eq_none {b : FolderInfo} {inner : Entries} {emptied : Entries × Option Errno} :
    removeFolder sys device path b inner emptied = none ↔
      enterFolder sys device path b = none ∧ emptied.2 = none ∧ removeDir sys path emptied.1 = none := by
  unfold removeFolder
  cases enterFolder sys device path b with
  | some code => exact iff_of_false (Option.some_ne_none _) fun h ↦ absurd h.1 (Option.some_ne_none _)
  | none =>
    obtain ⟨left, _ | code⟩ := emptied
    · show (removeDir sys path left).map _ = none ↔ _
      rw [Option.map_eq_none_iff]
      exact ⟨fun h ↦ ⟨rfl, rfl, h⟩, fun h ↦ h.2.2⟩
    · exact iff_of_false (Option.some_ne_none _) fun h ↦ absurd h.2.1 (Option.some_ne_none _)

/-- An entry is gone exactly when it could be removed, and a loop gets to its end exactly when every entry could. -/
theorem removal_eq_none :
    (∀ t : Entries, ∀ folder, (removeLoop sys device folder t).2 = none ↔
      ∀ name e, (name, e) ∈ t.toList → Removable sys device (folder ++ [name]) e) ∧
    ∀ e : World, ∀ path, removeTemplateEntry sys device path e = none ↔ Removable sys device path e := by
  -- On the tree, for a folder's entries and for an entry at once.
  apply FolderTree.induct
  · intro folder
    exact iff_of_true rfl fun _ _ h ↦ absurd h List.not_mem_nil
  · intro n e rest ihEntry ih folder
    rw [removeLoop_cons, FolderTree.toList_cons]
    have hsplit : (∀ name e', (name, e') ∈ (n, e) :: rest.toList → Removable sys device (folder ++ [name]) e') ↔
        Removable sys device (folder ++ [n]) e ∧ ∀ name e', (name, e') ∈ rest.toList → Removable sys device (folder ++ [name]) e' := by
      constructor
      · intro h
        exact ⟨h n e List.mem_cons_self, fun name e' hmem ↦ h name e' (List.mem_cons_of_mem _ hmem)⟩
      · rintro ⟨hfirst, hrest⟩ name e' hmem
        obtain heq | hmem := List.mem_cons.mp hmem
        · obtain ⟨rfl, rfl⟩ := Prod.mk.inj heq
          exact hfirst
        · exact hrest name e' hmem
    rw [hsplit, ← ihEntry, ← ih]
    cases removeTemplateEntry sys device (folder ++ [n]) e with
    | none => exact ⟨fun h ↦ ⟨rfl, h⟩, fun h ↦ h.2⟩
    | some left => exact iff_of_false (Option.some_ne_none _) fun h ↦ absurd h.1 (Option.some_ne_none _)
  · intro a path
    rw [removeTemplateEntry, Option.map_eq_none_iff]
    constructor
    · intro h q x hx
      obtain ⟨rfl, rfl⟩ := has_leaf hx
      rwa [List.append_nil]
    · intro h
      have hself := h [] _ (.here _)
      rwa [List.append_nil] at hself
  · intro b inner ih path
    rw [removeTemplateEntry, removeFolder_eq_none, removable_folder, ← ih]
    refine and_congr_right fun _ ↦ ⟨fun h ↦ ?_, fun h ↦ ?_⟩
    · rw [removeDir, removeLoop_done inner h.1] at h
      exact ⟨((Option.orElse_eq_none _ _).mp h.2).1, h.1⟩
    · rw [removeDir, removeLoop_done inner h.2, h.1]
      exact ⟨h.2, rfl⟩

/-- A folder on another volume stands in the way, and nothing is done to it. -/
def Foreign (device : Nat) (x : World) : Prop := ∃ b inner, x = .folder b inner ∧ b.dev ≠ device

theorem removal_foreign {x : World} (hx : Foreign device x) :
    (∀ t : Entries, ∀ folder n p, (t.item? n).bind (Entry.find? p) = some x →
      ((removeLoop sys device folder t).1.item? n).bind (Entry.find? p) = some x) ∧
    ∀ e : World, ∀ path p, e.find? p = some x →
      ∃ left code, removeTemplateEntry sys device path e = some (left, code) ∧ left.find? p = some x := by
  obtain ⟨b, inner, rfl, hdev⟩ := hx
  -- On the tree, for a folder's entries and for an entry at once.
  apply FolderTree.induct
  · intro folder n p h
    exact h
  · intro m e rest ihEntry ih folder n p h
    rw [removeLoop_cons]
    by_cases hn : m = n
    · rw [hn, FolderTree.item?_cons_self] at h
      obtain ⟨left, code, hleft, hfind⟩ := ihEntry (folder ++ [m]) p h
      rw [hleft]
      show ((FolderTree.cons m left rest).item? n).bind _ = _
      rw [hn, FolderTree.item?_cons_self]
      exact hfind
    · rw [FolderTree.item?_cons_ne hn] at h
      cases removeTemplateEntry sys device (folder ++ [m]) e with
      | none => exact ih folder n p h
      | some left =>
        show ((FolderTree.cons m left.1 rest).item? n).bind _ = _
        rw [FolderTree.item?_cons_ne hn]
        exact h
  · intro a path p h
    cases p with
    | nil => cases h
    | cons n p => cases h
  · intro b' inner' ih path p h
    rw [removeTemplateEntry]
    unfold removeFolder
    cases henter : enterFolder sys device path b' with
    | some code => exact ⟨_, _, rfl, h⟩
    | none =>
      cases p with
      | nil =>
        obtain ⟨rfl, rfl⟩ := Entry.folder.inj (Option.some.inj h)
        -- The folder itself is on another volume, and is not entered.
        have hbusy : sameFolder device b' b' = none := by
          rw [enterFolder, Option.orElse_eq_none, Option.orElse_eq_none, Option.orElse_eq_none,
            Option.orElse_eq_none] at henter
          exact henter.2.2.2.1
        rw [sameFolder, if_neg fun h ↦ hdev h.1] at hbusy
        cases hbusy
      | cons n p =>
        have hkept := ih path n p h
        cases hloop : removeLoop sys device path inner' with
        | mk left code =>
          cases code with
          | some code =>
            rw [hloop] at hkept
            exact ⟨_, _, rfl, hkept⟩
          | none =>
            have hdone := removeLoop_done inner' (congrArg Prod.snd hloop)
            rw [hdone] at hkept
            cases hkept

/-! ## The loop over the folder -/

section

variable {builds : List Bytes}

/-- What the loop does with one entry, and with the rest. -/
theorem cleanEntries_cons (name : Bytes) (e : World) (rest : List (Bytes × World)) :
    cleanEntries sys device builds folder ((name, e) :: rest) =
      let cleaned := cleanEntries sys device builds folder rest
      if removes builds name then
        match removeTemplateEntry sys device (folder ++ [name]) e with
        | some (e', code) => ((name, e') :: cleaned.1, .template folder name code :: cleaned.2)
        | none => cleaned
      else ((name, e) :: cleaned.1, cleaned.2) := rfl

theorem cleanEntries_kept {name : Bytes} (h : removes builds name = false) (l : List (Bytes × World)) :
    (FolderTree.ofList (cleanEntries sys device builds folder l).1).item? name = (FolderTree.ofList l).item? name := by
  induction l with
  | nil => rfl
  | cons x rest ih =>
    obtain ⟨m, e⟩ := x
    rw [cleanEntries_cons]
    show _ = (FolderTree.cons m e (.ofList rest)).item? name
    by_cases hm : m = name
    · rw [hm, h]
      show (FolderTree.cons name e (.ofList _)).item? name = _
      rw [FolderTree.item?_cons_self, FolderTree.item?_cons_self]
    · rw [FolderTree.item?_cons_ne hm, ← ih]
      cases removes builds m with
      | false => exact FolderTree.item?_cons_ne hm e _
      | true =>
        cases removeTemplateEntry sys device (folder ++ [m]) e with
        | none => rfl
        | some left => exact FolderTree.item?_cons_ne hm left.1 _

theorem cleanEntries_foreign {x : World} (hx : Foreign device x) {name : Bytes} {p : Path} (l : List (Bytes × World))
    (h : ((FolderTree.ofList l).item? name).bind (Entry.find? p) = some x) :
    ((FolderTree.ofList (cleanEntries sys device builds folder l).1).item? name).bind (Entry.find? p) = some x := by
  induction l with
  | nil => exact h
  | cons y rest ih =>
    obtain ⟨m, e⟩ := y
    rw [cleanEntries_cons]
    change ((FolderTree.cons m e (.ofList rest)).item? name).bind _ = _ at h
    -- The entry that holds the folder stays, since its removal stops at the volume's border.
    by_cases hm : m = name
    · rw [hm, FolderTree.item?_cons_self] at h
      cases removes builds m with
      | false =>
        show ((FolderTree.cons m e (.ofList _)).item? name).bind _ = _
        rw [hm, FolderTree.item?_cons_self]
        exact h
      | true =>
        obtain ⟨left, code, hleft, hfind⟩ := (removal_foreign hx).2 e (folder ++ [m]) p h
        rw [hleft]
        show ((FolderTree.cons m left (.ofList _)).item? name).bind _ = _
        rw [hm, FolderTree.item?_cons_self]
        exact hfind
    · rw [FolderTree.item?_cons_ne hm] at h
      cases removes builds m with
      | false =>
        show ((FolderTree.cons m e (.ofList _)).item? name).bind _ = _
        rw [FolderTree.item?_cons_ne hm]
        exact ih h
      | true =>
        cases removeTemplateEntry sys device (folder ++ [m]) e with
        | none => exact ih h
        | some left =>
          show ((FolderTree.cons m left.1 (.ofList _)).item? name).bind _ = _
          rw [FolderTree.item?_cons_ne hm]
          exact ih h

theorem cleanEntries_left (l : List (Bytes × World)) (h : (cleanEntries sys device builds folder l).2 = []) :
    (cleanEntries sys device builds folder l).1 = l.filter fun x ↦ !removes builds x.1 := by
  induction l with
  | nil => rfl
  | cons x rest ih =>
    obtain ⟨m, e⟩ := x
    rw [cleanEntries_cons] at h ⊢
    rw [List.filter_cons]
    cases hm : removes builds m with
    | false =>
      rw [hm] at h
      exact congrArg ((m, e) :: ·) (ih h)
    | true =>
      rw [hm] at h
      cases hleft : removeTemplateEntry sys device (folder ++ [m]) e with
      | none =>
        rw [hleft] at h
        exact ih h
      | some left =>
        rw [hleft] at h
        cases h

/-- A name is left when an entry of it is no template or could not be removed, whatever becomes of the others. -/
theorem mem_cleanEntries {name : Bytes} (l : List (Bytes × World)) :
    name ∈ (cleanEntries sys device builds folder l).1.map Prod.fst ↔
      ∃ e, (name, e) ∈ l ∧ (removes builds name = true → ¬Removable sys device (folder ++ [name]) e) := by
  induction l with
  | nil => exact iff_of_false List.not_mem_nil fun h ↦ absurd h.choose_spec.1 List.not_mem_nil
  | cons x rest ih =>
    obtain ⟨m, e⟩ := x
    rw [cleanEntries_cons]
    -- The first entry, or one of the others.
    have hsplit : (∃ e', (name, e') ∈ (m, e) :: rest ∧ (removes builds name = true → ¬Removable sys device (folder ++ [name]) e')) ↔
        (name = m ∧ (removes builds m = true → ¬Removable sys device (folder ++ [m]) e)) ∨
          ∃ e', (name, e') ∈ rest ∧ (removes builds name = true → ¬Removable sys device (folder ++ [name]) e') := by
      constructor
      · rintro ⟨e', hmem, hstays⟩
        obtain heq | hmem := List.mem_cons.mp hmem
        · obtain ⟨rfl, rfl⟩ := Prod.mk.inj heq
          exact .inl ⟨rfl, hstays⟩
        · exact .inr ⟨e', hmem, hstays⟩
      · rintro (⟨rfl, hstays⟩ | ⟨e', hmem, hstays⟩)
        · exact ⟨e, List.mem_cons_self, hstays⟩
        · exact ⟨e', List.mem_cons_of_mem _ hmem, hstays⟩
    rw [hsplit, ← ih]
    cases hm : removes builds m with
    | false =>
      show name ∈ m :: _ ↔ _
      rw [List.mem_cons]
      exact or_congr_left (iff_self_and.mpr fun _ h ↦ absurd h Bool.false_ne_true)
    | true =>
      have hgone : removeTemplateEntry sys device (folder ++ [m]) e = none ↔ Removable sys device (folder ++ [m]) e :=
        removal_eq_none.2 e (folder ++ [m])
      cases hleft : removeTemplateEntry sys device (folder ++ [m]) e with
      | none =>
        refine (or_iff_right fun h ↦ ?_).symm
        exact h.2 rfl (hgone.mp hleft)
      | some left =>
        show name ∈ m :: _ ↔ _
        rw [List.mem_cons]
        refine or_congr_left (iff_self_and.mpr fun _ _ hremovable ↦ ?_)
        rw [hgone.mpr hremovable] at hleft
        cases hleft

/-- The failures of the loop are those of the templates that cannot be removed. -/
theorem mem_cleanEntries_failures {f : CleanupFailure} (l : List (Bytes × World)) :
    f ∈ (cleanEntries sys device builds folder l).2 ↔
      ∃ name e left code, (name, e) ∈ l ∧ removes builds name = true ∧
        removeTemplateEntry sys device (folder ++ [name]) e = some (left, code) ∧ f = .template folder name code := by
  induction l with
  | nil => exact iff_of_false List.not_mem_nil fun h ↦ absurd h.choose_spec.choose_spec.choose_spec.choose_spec.1 List.not_mem_nil
  | cons x rest ih =>
    obtain ⟨m, e⟩ := x
    have hlater : f ∈ (cleanEntries sys device builds folder rest).2 → ∃ name e' left code, (name, e') ∈ (m, e) :: rest ∧
        removes builds name = true ∧ removeTemplateEntry sys device (folder ++ [name]) e' = some (left, code) ∧
        f = .template folder name code := by
      intro h
      obtain ⟨name, e', left, code, hmem, hrest⟩ := ih.mp h
      exact ⟨name, e', left, code, List.mem_cons_of_mem _ hmem, hrest⟩
    rw [cleanEntries_cons]
    constructor
    · cases hm : removes builds m with
      | false => exact hlater
      | true =>
        cases hleft : removeTemplateEntry sys device (folder ++ [m]) e with
        | none => exact hlater
        | some left =>
          intro h
          obtain rfl | h := List.mem_cons.mp h
          · exact ⟨m, e, left.1, left.2, List.mem_cons_self, hm, hleft, rfl⟩
          · exact hlater h
    · rintro ⟨name, e', left, code, hmem, hname, hleft, rfl⟩
      obtain heq | hmem := List.mem_cons.mp hmem
      · obtain ⟨rfl, rfl⟩ := Prod.mk.inj heq
        rw [if_pos hname, hleft]
        exact List.mem_cons_self
      · have hin := ih.mpr ⟨name, e', left, code, hmem, hname, hleft, rfl⟩
        cases removes builds m with
        | false => exact hin
        | true =>
          cases removeTemplateEntry sys device (folder ++ [m]) e with
          | none => exact hin
          | some left => exact List.mem_cons_of_mem _ hin

end

/-! ## A library -/

section

variable {c : Cleanup} {l : SteamLibrary} {entries : Entries}

variable (sys c l) in
/-- The lock is held, and that is not to be reported. -/
def PassedOver : Prop := sys .flock l.lock = some .wouldblock ∧ c.reportBusy = false

variable (sys c l) in
/-- What becomes of the template folder, and what is reported. -/
inductive FolderCleaned : Option World → Option World → List CleanupFailure → Prop
  | missing : FolderCleaned none none []
  | passed (x : World) (h : PassedOver sys c l) : FolderCleaned (some x) (some x) []
  | failed (x : Option World) (code : Errno) : FolderCleaned x x [.library l.templates code]
  | cleaned (b : FolderInfo) (inner : Entries) (h : sys .flock l.lock = none) :
      FolderCleaned (some (.folder b inner))
        (some (.folder b (.ofList (cleanEntries sys b.dev c.builds l.templates inner.toList).1)))
        (cleanEntries sys b.dev c.builds l.templates inner.toList).2
  | removed (b : FolderInfo) (inner : Entries) (h : sys .flock l.lock = none) (hc : c.removingFolder = true ∧ c.builds = [])
      (hleft : cleanEntries sys b.dev c.builds l.templates inner.toList = ([], [])) :
      FolderCleaned (some (.folder b inner)) none []

theorem names_ne : templateLock ≠ prefixTemplateFolder := by decide

theorem item?_withLock {name : Bytes} (h : name ≠ templateLock) : (withLock entries).item? name = entries.item? name := by
  rw [withLock]
  cases entries.item? templateLock with
  | none => exact FolderTree.item?_add_ne h _ _
  | some lock => rfl

/-- The lock is as it was, or it is new and empty. -/
def LockMade (before after : Option World) : Prop := after = before ∨ before = none ∧ after = some (.leaf (.file []))

theorem lockMade_withLock : LockMade (entries.item? templateLock) ((withLock entries).item? templateLock) := by
  rw [withLock]
  cases h : entries.item? templateLock with
  | none => exact .inr ⟨rfl, FolderTree.item?_add_self h _⟩
  | some lock => exact .inl h

theorem openFolder_ok {x : World} {b : FolderInfo} {inner : Entries} (h : openFolder sys path x = .ok (b, inner)) :
    x = .folder b inner := by
  cases x with
  | leaf a =>
    unfold openFolder at h
    cases hcall : sys .openFolder path with
    | some code =>
      rw [hcall] at h
      cases h
    | none =>
      rw [hcall] at h
      cases a <;> cases h
  | folder b' inner' =>
    rw [openFolder] at h
    cases hcall : sys .openFolder path with
    | some code =>
      rw [hcall] at h
      cases h
    | none =>
      rw [hcall] at h
      obtain ⟨rfl, rfl⟩ := Prod.mk.inj (Except.ok.inj h)
      rfl

variable (sys c l) in
theorem visitLocked_cases (lock : Option World) (templates : World) :
    (visitLocked sys c l lock templates = .passed ∧ PassedOver sys c l) ∨
      (∃ code, visitLocked sys c l lock templates = .failed code) ∨
      ∃ b inner, visitLocked sys c l lock templates = .opened b inner ∧ templates = .folder b inner ∧ sys .flock l.lock = none := by
  unfold visitLocked
  cases checkLock sys l.lock lock with
  | some code => exact .inr (.inl ⟨code, rfl⟩)
  | none =>
    cases hlock : sys .flock l.lock with
    | some code =>
      by_cases hbusy : code = .wouldblock ∧ c.reportBusy = false
      · exact .inl ⟨if_pos hbusy, by rw [hlock, hbusy.1], hbusy.2⟩
      · exact .inr (.inl ⟨code, if_neg hbusy⟩)
    | none =>
      cases hopen : openFolder sys l.templates templates with
      | error code => exact .inr (.inl ⟨code, rfl⟩)
      | ok opened =>
        dsimp only
        cases sys .fstat l.templates <|> sys .list l.templates with
        | some code => exact .inr (.inl ⟨code, rfl⟩)
        | none => exact .inr (.inr ⟨opened.1, opened.2, rfl, openFolder_ok hopen, rfl⟩)

variable (sys c l entries) in
/-- What the calls before the loop come to, and what they leave. -/
theorem visit_cases : ∃ locked, (visit sys c l entries).1 = locked ∧ (locked = entries ∨ locked = withLock entries) ∧
    (((visit sys c l entries).2 = .passed ∧ (entries.item? prefixTemplateFolder = none ∨ PassedOver sys c l)) ∨
      (∃ code, (visit sys c l entries).2 = .failed code) ∨
      ∃ b inner, (visit sys c l entries).2 = .opened b inner ∧ entries.item? prefixTemplateFolder = some (.folder b inner) ∧
        sys .flock l.lock = none) := by
  refine ⟨_, rfl, ?_⟩
  unfold visit
  cases sys .stat l.templates with
  | some code => exact ⟨.inl rfl, .inr (.inl ⟨code, rfl⟩)⟩
  | none =>
    cases htemplates : entries.item? prefixTemplateFolder with
    | none => exact ⟨.inl rfl, .inl ⟨rfl, .inl rfl⟩⟩
    | some templates =>
      dsimp only
      cases openLock sys l.lock (entries.item? templateLock) with
      | some code => exact ⟨.inl rfl, .inr (.inl ⟨code, rfl⟩)⟩
      | none =>
        refine ⟨.inr rfl, ?_⟩
        obtain h | h | ⟨b, inner, h, rfl, hlock⟩ := visitLocked_cases sys c l (entries.item? templateLock) templates
        · exact .inl ⟨h.1, .inr h.2⟩
        · exact .inr (.inl h)
        · exact .inr (.inr ⟨b, inner, h, rfl, hlock⟩)

variable (sys c l entries) in
theorem cleanCompatdata_spec :
    (∀ name, name ≠ prefixTemplateFolder → name ≠ templateLock → (cleanCompatdata sys c l entries).1.item? name = entries.item? name) ∧
      LockMade (entries.item? templateLock) ((cleanCompatdata sys c l entries).1.item? templateLock) ∧
      FolderCleaned sys c l (entries.item? prefixTemplateFolder) ((cleanCompatdata sys c l entries).1.item? prefixTemplateFolder)
        (cleanCompatdata sys c l entries).2 := by
  obtain ⟨locked, hlocked, hmade, hvisit⟩ := visit_cases sys c l entries
  have hothers : ∀ name, name ≠ templateLock → locked.item? name = entries.item? name := by
    intro name hname
    obtain rfl | rfl := hmade
    · rfl
    · exact item?_withLock hname
  have hlock : LockMade (entries.item? templateLock) (locked.item? templateLock) := by
    obtain rfl | rfl := hmade
    · exact .inl rfl
    · exact lockMade_withLock
  have hfolder := hothers prefixTemplateFolder names_ne.symm
  unfold cleanCompatdata
  obtain ⟨hkind, hpassed⟩ | ⟨code, hkind⟩ | ⟨b, inner, hkind, htemplates, hfree⟩ := hvisit
  · rw [show visit sys c l entries = (locked, .passed) from Prod.ext hlocked hkind]
    refine ⟨fun name _ hname ↦ hothers name hname, hlock, ?_⟩
    show FolderCleaned sys c l _ (locked.item? prefixTemplateFolder) []
    rw [hfolder]
    cases h : entries.item? prefixTemplateFolder with
    | none => exact .missing
    | some x => exact .passed x (hpassed.resolve_left (by rw [h]; exact Option.some_ne_none _))
  · rw [show visit sys c l entries = (locked, .failed code) from Prod.ext hlocked hkind]
    refine ⟨fun name _ hname ↦ hothers name hname, hlock, ?_⟩
    show FolderCleaned sys c l _ (locked.item? prefixTemplateFolder) _
    rw [hfolder]
    exact .failed _ code
  · rw [show visit sys c l entries = (locked, .opened b inner) from Prod.ext hlocked hkind]
    dsimp only
    split
    · next hc =>
      -- The folder goes only when nothing is left in it.
      have hleft : cleanEntries sys b.dev c.builds l.templates inner.toList = ([], []) := by
        rw [removeDir, Option.orElse_eq_none, FolderTree.toList_ofList] at hc
        have hempty := hc.2.2.2.2
        cases hl : (cleanEntries sys b.dev c.builds l.templates inner.toList).1 with
        | nil => exact Prod.ext hl hc.2.2.1
        | cons x rest =>
          rw [hl] at hempty
          cases hempty
      refine ⟨fun name hname hlockName ↦ ?_, ?_, ?_⟩
      · exact (FolderTree.item?_erase_ne hname locked).trans (hothers name hlockName)
      · rw [FolderTree.item?_erase_ne names_ne]
        exact hlock
      · rw [FolderTree.item?_erase_self, htemplates, hleft]
        exact .removed b inner hfree ⟨hc.1, hc.2.1⟩ hleft
    · refine ⟨fun name hname hlockName ↦ ?_, ?_, ?_⟩
      · rw [FolderTree.item?_change_ne hname]
        exact hothers name hlockName
      · rw [FolderTree.item?_change_ne names_ne]
        exact hlock
      · rw [FolderTree.item?_change_self, hfolder, htemplates]
        exact .cleaned b inner hfree

/-- An entry of `compatdata`, and what is below it. -/
theorem find?_compatdata {world : World} {b : FolderInfo} (h : world.find? l.compatdata = some (.folder b entries)) (name : Bytes)
    (q : Path) : world.find? (l.compatdata ++ name :: q) = (entries.item? name).bind (Entry.find? q) := by
  rw [Entry.find?_append, h]
  rfl

theorem find?_compatdata_modify {world : World} {b : FolderInfo} (h : world.find? l.compatdata = some (.folder b entries))
    (entries' : Entries) (name : Bytes) (q : Path) :
    (world.modify (fun _ ↦ entries') l.compatdata).find? (l.compatdata ++ name :: q) =
      (entries'.item? name).bind (Entry.find? q) := by
  rw [Entry.find?_modify_append, h]
  rfl

theorem bind_find?_nil (x : Option World) : x.bind (Entry.find? []) = x := by
  cases x <;> rfl

variable (sys c l) in
/-- What a library's pass does to the drives: its lock may be made, its template folder is cleaned, nothing else is changed. -/
structure Passes (before after : World) (failures : List CleanupFailure) : Prop where
  outside : ∀ q, ¬l.templates <+: q → q ≠ l.lock → after.kind? q = before.kind? q
  lock : LockMade (before.find? l.lock) (after.find? l.lock)
  templates : FolderCleaned sys c l (before.find? l.templates) (after.find? l.templates) failures

theorem Passes.refl {world : World} {failures : List CleanupFailure}
    (h : FolderCleaned sys c l (world.find? l.templates) (world.find? l.templates) failures) : Passes sys c l world world failures :=
  ⟨fun _ _ _ ↦ rfl, .inl rfl, h⟩

/-- Where the lock is made there was nothing, so nothing below it changes. -/
theorem LockMade.below {x y : Option World} (h : LockMade x y) (n : Bytes) (q : Path) :
    y.bind (Entry.find? (n :: q)) = x.bind (Entry.find? (n :: q)) := by
  obtain rfl | ⟨rfl, rfl⟩ := h
  · rfl
  · rfl

theorem cleanLibrary_passes (world : World) :
    Passes sys c l world (cleanLibrary sys c l world).1 (cleanLibrary sys c l world).2 := by
  unfold cleanLibrary
  cases hfind : world.find? l.compatdata with
  | none =>
    have hnone : world.find? l.templates = none := Entry.find?_eq_none_of_append hfind _
    cases sys .openFolder l.compatdata with
    | some code => exact .refl (.failed _ code)
    | none =>
      apply Passes.refl
      rw [hnone]
      exact .missing
  | some compatdata =>
    dsimp only
    cases hopen : openFolder sys l.compatdata compatdata with
    | error code => exact .refl (.failed _ code)
    | ok opened =>
      obtain ⟨b, entries⟩ := opened
      rw [openFolder_ok hopen] at hfind
      obtain ⟨hothers, hlock, hfolder⟩ := cleanCompatdata_spec sys c l entries
      have hbefore := find?_compatdata hfind
      have hafter := find?_compatdata_modify hfind (cleanCompatdata sys c l entries).1
      refine ⟨fun q hq hqlock ↦ ?_, ?_, ?_⟩
      · -- Beside the templates and their lock, which stand in `compatdata`.
        by_cases hbelow : ∃ name r, q = l.compatdata ++ name :: r
        · obtain ⟨name, r, rfl⟩ := hbelow
          apply congrArg (Option.map Entry.kind)
          rw [hafter, hbefore]
          have hfolderName : name ≠ prefixTemplateFolder := by
            rintro rfl
            exact hq ((List.prefix_append_right_inj _).mpr (List.prefix_append [prefixTemplateFolder] r))
          by_cases hname : name = templateLock
          · cases r with
            | nil => exact absurd (congrArg (fun n ↦ l.compatdata ++ [n]) hname) hqlock
            | cons m r =>
              rw [hname]
              exact hlock.below m r
          · rw [hothers name hfolderName hname]
        · exact Entry.kind?_modify world fun name r h ↦ hbelow ⟨name, r, h⟩
      · show LockMade (world.find? (l.compatdata ++ [templateLock])) ((world.modify _ l.compatdata).find? (l.compatdata ++ [templateLock]))
        rw [hafter, hbefore, bind_find?_nil, bind_find?_nil]
        exact hlock
      · show FolderCleaned sys c l (world.find? (l.compatdata ++ [prefixTemplateFolder]))
          ((world.modify _ l.compatdata).find? (l.compatdata ++ [prefixTemplateFolder])) _
        rw [hafter, hbefore, bind_find?_nil, bind_find?_nil]
        exact hfolder

/-! ## What a library is left with -/

/-- The entries of a folder that may be missing. -/
def contentsOf : Option World → List (Bytes × World)
  | none => []
  | some x => x.inside.toList

variable (sys c l) in
/-- What is said of the template folder, by what is at its path before and after. -/
structure Kept (before after : Option World) (failures : List CleanupFailure) : Prop where
  /-- Without a failure the entries that are no template of a build that is gone are left, as they were. -/
  left : failures = [] → ¬PassedOver sys c l → contentsOf after = (contentsOf before).filter fun x ↦ !removes c.builds x.1
  /-- An entry stays as it is where it is not to be removed. -/
  kept : ∀ name q, removes c.builds name = false → after.bind (Entry.find? (name :: q)) = before.bind (Entry.find? (name :: q))
  /-- A folder on another volume stays as it is, with all that is in it. -/
  volume : ∀ root t q b t', before = some (.folder root t) → before.bind (Entry.find? q) = some (.folder b t') → b.dev ≠ root.dev →
    after.bind (Entry.find? q) = some (.folder b t')
  /-- What is left of the templates depends on each of them alone. -/
  own : ¬PassedOver sys c l → (∀ code, .library l.templates code ∉ failures) → ∀ root t, before = some (.folder root t) →
    ∀ name, name ∈ (contentsOf after).map Prod.fst ↔
      ∃ e, (name, e) ∈ t.toList ∧ (removes c.builds name = true → ¬Removable sys root.dev (l.templates ++ [name]) e)
  /-- A template that is left is reported. -/
  reported : ¬PassedOver sys c l → ∀ name, removes c.builds name = true → name ∈ (contentsOf after).map Prod.fst →
    ∃ code, .template l.templates name code ∈ failures ∨ .library l.templates code ∈ failures
  /-- Only a template that cannot be removed is reported, or the whole library. -/
  failure : ∀ f ∈ failures, (∃ code, f = .library l.templates code) ∨ ∃ root t name e code, before = some (.folder root t) ∧
    (name, e) ∈ t.toList ∧ removes c.builds name = true ∧ ¬Removable sys root.dev (l.templates ++ [name]) e ∧
    f = .template l.templates name code
  /-- The folder goes only when it is empty and is to go. -/
  folder : (after.map Entry.kind = before.map Entry.kind) ∨
    (c.removingFolder = true ∧ c.builds = [] ∧ failures = [] ∧ after = none)
  /-- A library that is passed over or fails as a whole is left alone. -/
  untouched : (PassedOver sys c l ∨ ∃ code, .library l.templates code ∈ failures) → after = before

theorem contentsOf_bind {x : Option World} (name : Bytes) (q : Path) :
    x.bind (Entry.find? (name :: q)) = ((FolderTree.ofList (contentsOf x)).item? name).bind (Entry.find? q) := by
  cases x with
  | none => rfl
  | some x =>
    rw [contentsOf, FolderTree.ofList_toList]
    rfl

theorem not_passedOver (h : sys .flock l.lock = none) : ¬PassedOver sys c l := by
  rintro ⟨hbusy, -⟩
  rw [h] at hbusy
  cases hbusy

/-- Where the folder stays as it is, nothing is to be said but that a failure of the library is reported. -/
theorem Kept.same {x : Option World} {failures : List CleanupFailure}
    (h : x = none ∧ failures = [] ∨ PassedOver sys c l ∧ failures = [] ∨ ∃ code, failures = [.library l.templates code]) :
    Kept sys c l x x failures where
  left hnone hbusy := by
    obtain ⟨rfl, -⟩ | ⟨hpassed, -⟩ | ⟨code, rfl⟩ := h
    · rfl
    · exact absurd hpassed hbusy
    · cases hnone
  kept _ _ _ := rfl
  volume _ _ _ _ _ _ hq _ := hq
  own hbusy hwhole root t hx := by
    obtain ⟨rfl, -⟩ | ⟨hpassed, -⟩ | ⟨code, rfl⟩ := h
    · cases hx
    · exact absurd hpassed hbusy
    · exact absurd List.mem_cons_self (hwhole code)
  reported hbusy name _ hname := by
    obtain ⟨rfl, -⟩ | ⟨hpassed, -⟩ | ⟨code, rfl⟩ := h
    · cases hname
    · exact absurd hpassed hbusy
    · exact ⟨code, .inr List.mem_cons_self⟩
  failure f hf := by
    obtain ⟨-, rfl⟩ | ⟨-, rfl⟩ | ⟨code, rfl⟩ := h
    · cases hf
    · cases hf
    · exact .inl ⟨code, List.mem_singleton.mp hf⟩
  folder := .inl rfl
  untouched _ := rfl

theorem Kept.cleaned (b : FolderInfo) (inner : Entries) (hfree : sys .flock l.lock = none) {after : Option World}
    (hafter : contentsOf after = (cleanEntries sys b.dev c.builds l.templates inner.toList).1)
    (hfolder : after = some (.folder b (.ofList (cleanEntries sys b.dev c.builds l.templates inner.toList).1)) ∨
      c.removingFolder = true ∧ c.builds = [] ∧ (cleanEntries sys b.dev c.builds l.templates inner.toList) = ([], []) ∧ after = none) :
    Kept sys c l (some (.folder b inner)) after (cleanEntries sys b.dev c.builds l.templates inner.toList).2 where
  left hnone _ := by
    rw [hafter]
    exact cleanEntries_left _ hnone
  kept name q hname := by
    rw [contentsOf_bind, contentsOf_bind, hafter, cleanEntries_kept hname]
    rfl
  volume root t q b' t' hroot hq hdev := by
    obtain ⟨rfl, rfl⟩ := Entry.folder.inj (Option.some.inj hroot)
    cases q with
    | nil =>
      obtain ⟨rfl, rfl⟩ := Entry.folder.inj (Option.some.inj hq)
      exact absurd rfl hdev
    | cons name q =>
      rw [contentsOf_bind] at hq ⊢
      rw [hafter]
      exact cleanEntries_foreign ⟨b', t', rfl, hdev⟩ _ hq
  own _ _ root t hroot name := by
    obtain ⟨rfl, rfl⟩ := Entry.folder.inj (Option.some.inj hroot)
    rw [hafter]
    exact mem_cleanEntries _
  -- A template still there is one whose removal failed, and has its failure.
  reported _ name hname hmem := by
    rw [hafter] at hmem
    obtain ⟨e, hin, hstays⟩ := (mem_cleanEntries _).mp hmem
    cases hleft : removeTemplateEntry sys b.dev (l.templates ++ [name]) e with
    | none => exact absurd ((removal_eq_none.2 e _).mp hleft) (hstays hname)
    | some left => exact ⟨left.2, .inl ((mem_cleanEntries_failures _).mpr ⟨name, e, left.1, left.2, hin, hname, hleft, rfl⟩)⟩
  failure f hf := by
    obtain ⟨name, e, left, code, hmem, hname, hleft, rfl⟩ := (mem_cleanEntries_failures _).mp hf
    refine .inr ⟨b, inner, name, e, code, rfl, hmem, hname, ?_, rfl⟩
    intro hremovable
    rw [(removal_eq_none.2 e _).mpr hremovable] at hleft
    cases hleft
  folder := by
    obtain rfl | ⟨hc, hbuilds, hleft, rfl⟩ := hfolder
    · exact .inl rfl
    · exact .inr ⟨hc, hbuilds, congrArg Prod.snd hleft, rfl⟩
  untouched h := by
    obtain hpassed | ⟨code, hcode⟩ := h
    · exact absurd hpassed (not_passedOver hfree)
    · obtain ⟨name, e, left, code', -, -, -, hf⟩ := (mem_cleanEntries_failures _).mp hcode
      cases hf

theorem FolderCleaned.kept {before after : Option World} {failures : List CleanupFailure}
    (h : FolderCleaned sys c l before after failures) : Kept sys c l before after failures := by
  cases h with
  | missing => exact .same (.inl ⟨rfl, rfl⟩)
  | passed x hpassed => exact .same (.inr (.inl ⟨hpassed, rfl⟩))
  | failed x code => exact .same (.inr (.inr ⟨code, rfl⟩))
  | cleaned b inner hfree => exact .cleaned b inner hfree (FolderTree.toList_ofList _) (.inl rfl)
  | removed b inner hfree hc hleft =>
    have hfailures := congrArg Prod.snd hleft
    have hgone : Kept sys c l (some (.folder b inner)) none _ :=
      .cleaned b inner hfree (congrArg Prod.fst hleft).symm (.inr ⟨hc.1, hc.2, hleft, rfl⟩)
    rwa [hfailures] at hgone

/-! ## All libraries -/

/-- Neither library's folder is in the other's. -/
def Apart (o l : SteamLibrary) : Prop := ¬o.compatdata <+: l.templates ∧ ¬l.templates <+: o.compatdata

theorem cleanLibrary_apart {o : SteamLibrary} (h : Apart o l) (world : World) :
    (cleanLibrary sys c o world).1.find? l.templates = world.find? l.templates := by
  unfold cleanLibrary
  cases world.find? o.compatdata with
  | none =>
    dsimp only
    cases sys .openFolder o.compatdata <;> rfl
  | some compatdata =>
    dsimp only
    cases openFolder sys o.compatdata compatdata with
    | error code => rfl
    | ok opened => exact Entry.find?_modify world h.1 h.2

theorem removePrefixTemplates_apart {libraries : List SteamLibrary} (h : ∀ o ∈ libraries, Apart o l) (world : World) :
    (removePrefixTemplates sys c libraries world).1.find? l.templates = world.find? l.templates := by
  induction libraries generalizing world with
  | nil => rfl
  | cons o libraries ih =>
    obtain ⟨hfirst, hrest⟩ := List.forall_mem_cons.mp h
    exact (ih hrest _).trans (cleanLibrary_apart hfirst world)

/-- Off the template folders and the locks nothing is changed. -/
theorem removePrefixTemplates_outside {libraries : List SteamLibrary} {q : Path}
    (h : ∀ o ∈ libraries, ¬o.templates <+: q ∧ q ≠ o.lock) (world : World) :
    (removePrefixTemplates sys c libraries world).1.kind? q = world.kind? q := by
  induction libraries generalizing world with
  | nil => rfl
  | cons o libraries ih =>
    obtain ⟨hfirst, hrest⟩ := List.forall_mem_cons.mp h
    exact (ih hrest _).trans ((cleanLibrary_passes world).outside q hfirst.1 hfirst.2)

theorem removePrefixTemplates_cons (o : SteamLibrary) (libraries : List SteamLibrary) (world : World) :
    removePrefixTemplates sys c (o :: libraries) world =
      ((removePrefixTemplates sys c libraries (cleanLibrary sys c o world).1).1,
        (cleanLibrary sys c o world).2 ++ (removePrefixTemplates sys c libraries (cleanLibrary sys c o world).1).2) := rfl

theorem removePrefixTemplates_append (earlier later : List SteamLibrary) (world : World) :
    removePrefixTemplates sys c (earlier ++ later) world =
      ((removePrefixTemplates sys c later (removePrefixTemplates sys c earlier world).1).1,
        (removePrefixTemplates sys c earlier world).2 ++ (removePrefixTemplates sys c later (removePrefixTemplates sys c earlier world).1).2) := by
  induction earlier generalizing world with
  | nil => rfl
  | cons o earlier ih =>
    rw [List.cons_append, removePrefixTemplates_cons, ih, removePrefixTemplates_cons, List.append_assoc]

end

end

/-- Every library of a run, between the libraries before it and those after it. -/
theorem removePrefixTemplates_spec (sys : Sys) (c : Cleanup) (earlier later : List SteamLibrary) (l : SteamLibrary) (world : World) :
    let run := removePrefixTemplates sys c (earlier ++ l :: later) world
    let before := (removePrefixTemplates sys c earlier world).1
    let pass := cleanLibrary sys c l before
    run.2 = (removePrefixTemplates sys c earlier world).2 ++ (pass.2 ++ (removePrefixTemplates sys c later pass.1).2) ∧
      Kept sys c l (before.find? l.templates) (pass.1.find? l.templates) pass.2 ∧
      ((∀ o ∈ earlier ++ later, Apart o l) →
        before.find? l.templates = world.find? l.templates ∧ run.1.find? l.templates = pass.1.find? l.templates) ∧
      (∀ q, ¬l.templates <+: q → q ≠ l.lock → pass.1.kind? q = before.kind? q) ∧
      LockMade (before.find? l.lock) (pass.1.find? l.lock) ∧
      (∀ q, (∀ o ∈ earlier ++ l :: later, ¬o.templates <+: q ∧ q ≠ o.lock) → run.1.kind? q = world.kind? q) ∧
      (∀ name, removes c.builds name = false ↔
        (∃ build ∈ c.builds, ∃ flavor, slotOf name = prefixTemplate build flavor) ∨
          ¬((∃ build, IsTemplateName build name) ∨ c.builds = [] ∧ name = bridgeCacheFolder)) ∧
      ∀ (build : CompatRun.BuildId) (r : RunnerChoice), removes c.builds (templateDirName build.text r) = true ↔ build.text ∉ c.builds := by
  intro run before pass
  have hrun : run = ((removePrefixTemplates sys c later pass.1).1,
      (removePrefixTemplates sys c earlier world).2 ++ (pass.2 ++ (removePrefixTemplates sys c later pass.1).2)) :=
    removePrefixTemplates_append earlier (l :: later) world
  have hpasses : Passes sys c l before pass.1 pass.2 := cleanLibrary_passes before
  refine ⟨congrArg Prod.snd hrun, hpasses.templates.kept, ?_, hpasses.outside, hpasses.lock,
    fun q hq ↦ removePrefixTemplates_outside hq world, fun name ↦ removes_eq_false_iff, fun build r ↦ ?_⟩
  · intro hapart
    obtain ⟨hearlier, hlater⟩ := List.forall_mem_append.mp hapart
    rw [hrun]
    exact ⟨removePrefixTemplates_apart hearlier world, removePrefixTemplates_apart hlater pass.1⟩
  · exact removes_templateDirName c.builds build r

def firstLibrary : SteamLibrary := ⟨[ascii "a"]⟩
def secondLibrary : SteamLibrary := ⟨[ascii "b"]⟩

def templateOf (build : String) : Bytes := prefixTemplate (ascii build) .rosetta

/-- The folders above a library's templates. -/
def libraryFolder (name : Bytes) (templates rest : Entries) : Entries :=
  .folder name ⟨0, 1⟩ (.folder (ascii "steamapps") ⟨0, 2⟩ (.folder (ascii "compatdata") ⟨0, 3⟩
    (.folder prefixTemplateFolder ⟨0, 4⟩ templates .done) .done) .done) rest

/-- Two libraries, the second with the templates of three builds, one of which has another volume in it. -/
def twoLibraries : World :=
  .folder ⟨0, 0⟩ (libraryFolder (ascii "a") (.folder (templateOf "1") ⟨0, 5⟩ .done .done)
    (libraryFolder (ascii "b")
      (.folder (templateOf "1") ⟨0, 6⟩ (.leaf (ascii "f") (.file [7]) .done)
        (.folder (templateOf "2") ⟨0, 7⟩ (.leaf (ascii "f") (.file [8]) .done)
          (.folder (templateOf "3") ⟨0, 8⟩ (.folder (ascii "v") ⟨1, 1⟩ .done .done) .done))) .done))

def noFailure : Sys := fun _ _ ↦ none

def twoRun : World × List CleanupFailure :=
  removePrefixTemplates noFailure ⟨[ascii "2"], true, false⟩ [firstLibrary, secondLibrary] twoLibraries

/-- The build that is listed keeps its template as it is, and of the other two the one with a volume in it is left. -/
theorem removePrefixTemplates_spec_second :
    (∀ q, (twoRun.1.find? secondLibrary.templates).bind (Entry.find? (templateOf "2" :: q)) =
        (twoLibraries.find? secondLibrary.templates).bind (Entry.find? (templateOf "2" :: q))) ∧
      (contentsOf (twoRun.1.find? secondLibrary.templates)).map Prod.fst = [templateOf "2", templateOf "3"] ∧
      .template secondLibrary.templates (templateOf "3") .busy ∈ twoRun.2 := by
  obtain ⟨-, hkept, hapart, -⟩ :=
    removePrefixTemplates_spec noFailure ⟨[ascii "2"], true, false⟩ [firstLibrary] [] secondLibrary twoLibraries
  have hfirst : Apart firstLibrary secondLibrary := by
    unfold Apart
    decide
  obtain ⟨hbefore, hafter⟩ := hapart (List.forall_mem_singleton.mpr hfirst)
  rw [← hafter, hbefore] at hkept
  exact ⟨fun q ↦ hkept.kept _ q (by decide), by decide, by decide⟩

/-- The lock is held, and nothing else fails. -/
def heldLock : Sys
  | .flock, _ => some .wouldblock
  | _, _ => none

def goneTemplate : Bytes := prefixTemplate (ascii "1") .rosetta

/-- A drive whose library, at its root, has the template of one build. -/
def oneTemplate : World :=
  .folder ⟨0, 1⟩ (.folder (ascii "steamapps") ⟨0, 2⟩ (.folder (ascii "compatdata") ⟨0, 3⟩
    (.folder prefixTemplateFolder ⟨0, 4⟩ (.folder goneTemplate ⟨0, 5⟩ .done .done) .done) .done) .done)

/-- A pass that does not report a held lock fails nothing, and the template of a build that is gone is left. -/
theorem removePrefixTemplates_held :
    (removePrefixTemplates heldLock ⟨[], false, false⟩ [⟨[]⟩] oneTemplate).2 = [] ∧ removes [] goneTemplate = true ∧
      (removePrefixTemplates heldLock ⟨[], false, false⟩ [⟨[]⟩] oneTemplate).1.kind? ((⟨[]⟩ : SteamLibrary).templates ++ [goneTemplate]) =
        some (.inr ⟨0, 5⟩) := by
  decide

end NotProton.Runners
