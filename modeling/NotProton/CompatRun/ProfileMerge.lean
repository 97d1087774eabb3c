import NotProton.Library.Lists
import NotProton.Library.Numeral
import NotProton.Library.Shell
import NotProton.Library.TreeWalk

/-!
# ProfileMerge — saves of an old profile to where Steam Cloud looks for them (`compat_run.sh`)

The profile is one tree on a volume that tells names apart by every letter, and nobody else changes it meanwhile.  Two commands
may follow a link: `rm -f` of a new place whose folder is one, and `ln -s` to an old place that is one still.  Where they end
up in the profile is a parameter.
-/

open NotProton.Library

namespace NotProton.CompatRun.ProfileMerge

/-! ## The profile -/

abbrev Path := List Bytes

inductive Node
  | file (content : Bytes)
  | link (target : Bytes)
  /-- neither a file nor a folder -/
  | special
  deriving DecidableEq

abbrev Item := Entry Bytes Node Unit

/-- What an entry is, without what is in it. -/
abbrev Kind := Node ⊕ Unit

/-- `[ -L … ]` -/
def isLink : Option Kind → Bool
  | some (.inl (.link _)) => true
  | _ => false

/-- What the calls come to, each at the path it is about. -/
structure Sys where
  /-- `[ -r … ] && [ -x … ]` -/
  readable : Path → Bool
  mkdir : Path → Bool
  /-- What `cp -Ppn` of a link leaves: nothing, or the link with the status of the command. -/
  copyLink : Path → Option Bool
  /-- What `cp -pn` of anything else leaves in the new file if it makes one, and its status. -/
  copy : Path → Option Bytes × Bool
  /-- `cmp` can read this entry and the one it is compared with; for what is no file, also that it finds the two the same. -/
  cmp : Path → Bool
  rename : Path → Bool
  remove : Path → Bool
  symlink : Path → Bool
  /-- The folder of the profile that a link leads to. -/
  leads : Path → Option Path

/-- A new entry with nothing in it, where its folder is there and its name is free. -/
def make (path : Path) (e w : Item) : Option Item :=
  if w.kind? path.dropLast = some (.inr ()) && (w.kind? path).isNone then
    some (w.modify (FolderTree.add (path.getLast?.getD []) e) path.dropLast)
  else none

def newFolder : Item := .folder () .done

variable (sys : Sys)

/-- `mkdir -p` of what is left of a path, from a folder that is there. -/
def mkdirP (there : Path) : Path → Item → Item × Bool
  | [], w => (w, true)
  | name :: left, w =>
    match w.kind? (there ++ [name]) with
    | some (.inr ()) => mkdirP (there ++ [name]) left w
    | some (.inl _) => (w, false)
    | none =>
      match if sys.mkdir (there ++ [name]) then make (there ++ [name]) newFolder w else none with
      | some w => mkdirP (there ++ [name]) left w
      | none => (w, false)

/-! ## `merge_user_dir` -/

/-- The profile, and whether something went wrong. -/
structure Merge where
  world : Item
  failed : Bool

def Merge.fail (s : Merge) : Merge := { s with failed := true }

/-- From coming to a folder of `src` to the `for` over its entries. -/
def enterDir (src dst rest : Path) (s : Merge) : Except Merge (Merge × Bool) :=
  let dstDir := dst ++ rest
  if !sys.readable (src ++ rest) then .ok (s.fail, false)
  else if isLink (s.world.kind? dstDir) then .ok (s.fail, false)
  else if rest.inits.tail.any fun part ↦ isLink (s.world.kind? (dst ++ part)) then .ok (s.fail, false)
  else if (s.world.kind? dstDir).any Sum.isLeft then .ok (s.fail, false)
  else
    let made := mkdirP sys [] dstDir s.world
    if made.2 then .ok ({ s with world := made.1 }, true) else .ok ({ world := made.1, failed := true }, false)

/-- Two links that say the same, or two files with the same in them. -/
def sameEntry (path : Path) : Node → Kind → Bool
  | .link text, .inl (.link made) => commandOutput text = commandOutput made
  | .file content, .inl (.file there) => sys.cmp path && content = there
  | _, _ => false

/-- `cp` to a place that is free, and whether all went well. -/
def copyEntry (path landing : Path) (entry : Node) (w : Item) : Item × Bool :=
  match entry with
  | .link text =>
    match sys.copyLink path, make landing (.leaf (.link text)) w with
    | some ok, some w => (w, ok)
    | _, _ => (w, false)
  | entry =>
    match (sys.copy path).1.bind fun left ↦ (make landing (.leaf (.file left)) w).map fun w ↦ (left, w) with
    | some (left, w) => (w, (sys.copy path).2 && sys.cmp path && (entry = .file left || entry = .special))
    | none => (w, false)

/-- The body of the `for`. -/
def mergeEntry (src dst path : Path) (e : Item) (s : Merge) : Except Merge Merge :=
  match e with
  -- a folder goes to the end of the list
  | .folder _ _ => .ok s
  | .leaf entry =>
    match s.world.kind? (dst ++ path) with
    | some there => .ok (if sameEntry sys (src ++ path) entry there then s else s.fail)
    | none =>
      let copied := copyEntry sys (src ++ path) (dst ++ path) entry s.world
      .ok ⟨copied.1, s.failed || !copied.2⟩

/-- `src` is as it was found when the merge begins. -/
def mergeUserDir (src dst : Path) (w : Item) : Item × Bool :=
  let entries := (w.find? src).elim .done Entry.inside
  let merged := stateOf (walk (enterDir sys src dst) (fun _ ↦ true) (mergeEntry sys src dst) [([], entries)] ⟨w, false⟩)
  (merged.world, !merged.failed)

/-! ## `migrate_user_paths` -/

structure Place where
  folder : Path
  name : Bytes
  deriving DecidableEq

def Place.path (place : Place) : Path := place.folder ++ [place.name]

structure Pair where
  old : Place
  new : Place
  link : Bytes
  deriving DecidableEq

/-- `"$old BACKUP"`, and then with the numbers from two on. -/
def backup (old : Place) (i : Nat) : Place :=
  ⟨old.folder, old.name ++ if i = 0 then ascii " BACKUP" else ascii " BACKUP " ++ decimal (i + 1)⟩

/-- The first of the names for a backup that the folder has not. -/
def freeBackup (old : Place) (w : Item) : Place :=
  let taken := (w.find? old.folder).elim [] fun e ↦ e.inside.toList.map Prod.fst
  backup old (firstFree (fun path ↦ (w.kind? path).isSome) (fun i ↦ (backup old i).path) taken.length 0)

/-- A link on the way to the entry. -/
def held (place : Place) (w : Item) : Bool := place.folder.inits.tail.any fun part ↦ isLink (w.kind? part)

/-- `*"drive_c/users/steamuser/$old_rel"` -/
def leadsBack (old : Place) (text : Bytes) : Bool :=
  (ascii "drive_c/users/steamuser/" ++ [47].intercalate old.path).isSuffixOf (commandOutput text)

/-- `rm -f` of an entry that is no folder. -/
def removed (place : Place) (w : Item) : Item := w.modify (FolderTree.erase place.name) place.folder

/-- `ln -s`, which may fail. -/
def makeLink (pair : Pair) (path : Path) (w : Item) : Item :=
  if sys.symlink path then (make path (.leaf (.link pair.link)) w).getD w else w

/-- The last step for a pair: the old place leads to the new one. -/
def aliasOld (pair : Pair) (w : Item) : Item :=
  match w.kind? pair.old.path with
  | none => makeLink sys pair pair.old.path (mkdirP sys [] pair.old.folder w).1
  | some (.inl (.link text)) =>
    if commandOutput text = pair.link then w
    else if sys.remove pair.old.path then makeLink sys pair pair.old.path (removed pair.old w)
    else
      -- the link is there still, and a link to a folder gets the new one inside
      match sys.leads pair.old.path with
      | some folder => makeLink sys pair (folder ++ [afterLastSlash pair.link]) w
      | none => w
  | some _ => w

/-- What stands at a place, whose folder may be a link. -/
def reached (place : Place) (w : Item) : Option Place :=
  if held place w then (sys.leads place.folder).map fun folder ↦ ⟨folder, place.name⟩ else some place

/-- A link at the new place that leads to the old one goes. -/
def clearNew (pair : Pair) (w : Item) : Item :=
  match reached sys pair.new w with
  | none => w
  | some place =>
    match w.kind? place.path with
    | some (.inl (.link text)) => if leadsBack pair.old text && sys.remove place.path then removed place w else w
    | _ => w

/-- The body of the `for` over the pairs. -/
def migratePair (pair : Pair) (w : Item) : Item × Bool :=
  let w := clearNew sys pair w
  if isLink (w.kind? pair.new.path) then (w, false)
  else if held pair.old w || held pair.new w then (w, false)
  else if (w.kind? pair.old.path).isSome && !isLink (w.kind? pair.old.path) then
    let merged := mergeUserDir sys pair.old.path pair.new.path w
    if !merged.2 then (merged.1, false)
    else if sys.rename pair.old.path then
      let aside := merged.1.modify (FolderTree.rename pair.old.name (freeBackup pair.old merged.1).name) pair.old.folder
      (aliasOld sys pair aside, true)
    else (merged.1, false)
  else (aliasOld sys pair w, true)

def userPairs : List Pair := [
  ⟨⟨[ascii "Local Settings"], ascii "Application Data"⟩, ⟨[ascii "AppData"], ascii "Local"⟩, ascii "../AppData/Local"⟩,
  ⟨⟨[], ascii "Application Data"⟩, ⟨[ascii "AppData"], ascii "Roaming"⟩, ascii "./AppData/Roaming"⟩,
  ⟨⟨[], ascii "My Documents"⟩, ⟨[], ascii "Documents"⟩, ascii "./Documents"⟩]

/-- The pairs one after the other, with what the calls come to while each is moved, and whether none failed. -/
def migrateUserPaths (sys : Pair → Sys) : List Pair → Item → Item × Bool
  | [], w => (w, true)
  | pair :: pairs, w =>
    let first := migratePair (sys pair) pair w
    let rest := migrateUserPaths sys pairs first.1
    (rest.1, first.2 && rest.2)

/-! ## Entries that are made -/

/-- Neither is on the way to the other. -/
def Apart (p q : Path) : Prop := ¬p <+: q ∧ ¬q <+: p

theorem Apart.symm {p q : Path} (h : Apart p q) : Apart q p := And.symm h

theorem Apart.below {p q : Path} (h : Apart p q) (r : Path) : Apart (p ++ r) q := by
  apply And.intro
  · exact fun hpre ↦ h.1 ((List.prefix_append p r).trans hpre)
  · exact fun hpre ↦ (List.prefix_or_prefix_of_prefix hpre (List.prefix_append p r)).elim h.2 h.1

/-- Nothing is lost, and what is new is below a place or on the way to it. -/
structure Adds (place : Path) (w w' : Item) : Prop where
  kept : ∀ q k, w.kind? q = some k → w'.kind? q = some k
  frame : ∀ q, Apart q place → w'.kind? q = w.kind? q

theorem Adds.refl (place : Path) (w : Item) : Adds place w w := ⟨fun _ _ h ↦ h, fun _ _ ↦ rfl⟩

variable {sys} {w w' w'' : Item}

theorem Adds.trans {place : Path} (h : Adds place w w') (h' : Adds place w' w'') : Adds place w w'' :=
  ⟨fun q k hk ↦ h'.kept q k (h.kept q k hk), fun q hq ↦ (h'.frame q hq).trans (h.frame q hq)⟩

theorem kind?_make {path : Path} {e : Item} (he : e.inside = .done) (h : make path e w = some w') (q : Path) :
    w'.kind? q = if q = path then some e.kind else w.kind? q := by
  rw [make] at h
  split_ifs at h with hok
  obtain rfl := Option.some.inj h
  obtain ⟨hfolder, hnone⟩ := Bool.and_eq_true_iff.mp hok
  rw [Option.isNone_iff_eq_none] at hnone
  have hne : path ≠ [] := by
    rintro rfl
    cases hnone
  have hpath : path.dropLast ++ [path.getLast?.getD []] = path := by
    rw [List.getLast?_eq_some_getLast hne]
    exact List.dropLast_append_getLast hne
  rw [Entry.kind?_modify_add he (by rw [hpath, hnone]), hpath, of_decide_eq_true hfolder]
  simp

theorem make_free {path : Path} {e : Item} (h : make path e w = some w') : w.kind? path = none := by
  rw [make] at h
  split_ifs at h with hok
  exact Option.isNone_iff_eq_none.mp (Bool.and_eq_true_iff.mp hok).2

theorem make_kept {path : Path} {e : Item} (he : e.inside = .done) (h : make path e w = some w') {q : Path} {k : Kind}
    (hk : w.kind? q = some k) : w'.kind? q = some k := by
  have hne : q ≠ path := by
    rintro rfl
    rw [make_free h] at hk
    cases hk
  rw [kind?_make he h, if_neg hne, hk]

theorem make_adds {path place : Path} {e : Item} (he : e.inside = .done) (h : make path e w = some w')
    (hplace : ¬Apart path place) : Adds place w w' := by
  refine ⟨fun q k ↦ make_kept he h, fun q hq ↦ ?_⟩
  rw [kind?_make he h, if_neg]
  rintro rfl
  exact hplace hq

/-- `mkdir -p` makes folders on the way, and loses nothing. -/
theorem mkdirP_spec (sys : Sys) (there left : Path) (w : Item) :
    (∀ q k, w.kind? q = some k → (mkdirP sys there left w).1.kind? q = some k) ∧
      ∀ q, ¬q <+: there ++ left → (mkdirP sys there left w).1.kind? q = w.kind? q := by
  induction left generalizing there w with
  | nil => exact ⟨fun _ _ h ↦ h, fun _ _ ↦ rfl⟩
  | cons name left ih =>
    have hpath : there ++ [name] ++ left = there ++ name :: left := by rw [List.append_assoc]; rfl
    rw [mkdirP]
    split
    · rw [← hpath]
      exact ih _ w
    · exact ⟨fun _ _ h ↦ h, fun _ _ ↦ rfl⟩
    · split
      · rename_i made hmade
        split_ifs at hmade
        obtain ⟨hkept, hframe⟩ := ih (there ++ [name]) made
        refine ⟨fun q k hk ↦ hkept q k (make_kept rfl hmade hk), fun q hq ↦ ?_⟩
        have hne : q ≠ there ++ [name] := by
          rintro rfl
          exact hq (by rw [← hpath]; exact List.prefix_append _ _)
        rw [hframe q (by rwa [hpath]), kind?_make rfl hmade, if_neg hne]
      · exact ⟨fun _ _ h ↦ h, fun _ _ ↦ rfl⟩

theorem mkdirP_adds (sys : Sys) (path place : Path) (w : Item) (hplace : ∀ q, q <+: path → ¬Apart q place) :
    Adds place w (mkdirP sys [] path w).1 :=
  ⟨(mkdirP_spec sys [] path w).1, fun q hq ↦ (mkdirP_spec sys [] path w).2 q fun hpre ↦ hplace q hpre hq⟩

/-! ## The merge -/

/-- An entry came along. -/
def Landed : Node → Option Kind → Prop
  | .file content, there => there = some (.inl (.file content))
  | .link text, there => ∃ made, there = some (.inl (.link made)) ∧ commandOutput made = commandOutput text
  | .special, _ => True

theorem Landed.stays {entry : Node} {there there' : Option Kind} (h : ∀ k, there = some k → there' = some k)
    (hentry : Landed entry there) : Landed entry there' := by
  cases entry with
  | file content => exact h _ hentry
  | link text =>
    obtain ⟨made, hmade, htext⟩ := hentry
    exact ⟨made, h _ hmade, htext⟩
  | special => trivial

/-- A merge goes on: it adds to `dst`, and a failure stays. -/
structure Merges (dst : Path) (s s' : Merge) : Prop where
  adds : Adds dst s.world s'.world
  failed : s.failed = true → s'.failed = true

/-- An entry of `src` came along, or the merge says that it failed. -/
def Done (dst path : Path) (e : Item) (s : Merge) : Prop :=
  s.failed = true ∨ ∀ entry, e = .leaf entry → Landed entry (s.world.kind? (dst ++ path))

theorem below_related (dst rest : Path) : ¬Apart (dst ++ rest) dst := fun h ↦ h.2 (List.prefix_append dst rest)

theorem copyEntry_spec (sys : Sys) (path dst rest : Path) (entry : Node) (w : Item) :
    Adds dst w (copyEntry sys path (dst ++ rest) entry w).1 ∧
      ((copyEntry sys path (dst ++ rest) entry w).2 = true →
        Landed entry ((copyEntry sys path (dst ++ rest) entry w).1.kind? (dst ++ rest))) := by
  have hfile : ∀ entry : Node, (∀ text, entry ≠ .link text) →
      copyEntry sys path (dst ++ rest) entry w = match (sys.copy path).1.bind fun left ↦
          (make (dst ++ rest) (.leaf (.file left)) w).map fun w ↦ (left, w) with
        | some (left, w) => (w, (sys.copy path).2 && sys.cmp path && (entry = .file left || entry = .special))
        | none => (w, false) := by
    intro entry hlink
    cases entry with
    | file content => rfl
    | link text => exact absurd rfl (hlink text)
    | special => rfl
  by_cases hlink : ∃ text, entry = .link text
  · obtain ⟨text, rfl⟩ := hlink
    rw [copyEntry]
    split
    · rename_i ok made _ hmade
      refine ⟨make_adds rfl hmade (below_related dst rest), fun _ ↦ ⟨text, ?_, rfl⟩⟩
      rw [kind?_make rfl hmade, if_pos rfl]
      rfl
    · exact ⟨Adds.refl _ _, fun h ↦ (by cases h)⟩
  · rw [hfile entry fun text h ↦ hlink ⟨text, h⟩]
    split
    · rename_i left made hleft
      obtain ⟨content, -, hmap⟩ := Option.bind_eq_some_iff.mp hleft
      obtain ⟨made', hmade, heq⟩ := Option.map_eq_some_iff.mp hmap
      obtain ⟨rfl, rfl⟩ := Prod.mk.inj heq
      refine ⟨make_adds rfl hmade (below_related dst rest), fun hok ↦ ?_⟩
      have hthere : made'.kind? (dst ++ rest) = some (.inl (.file content)) := by
        rw [kind?_make rfl hmade, if_pos rfl]
        rfl
      -- `cmp` found the copy equal, so it is the entry's own content.
      have hsame := (Bool.and_eq_true_iff.mp hok).2
      cases entry with
      | file content' =>
        have hcontent : content' = content := by simpa using hsame
        rw [hcontent]
        exact hthere
      | link text => exact absurd ⟨text, rfl⟩ hlink
      | special => trivial
    · exact ⟨Adds.refl _ _, fun h ↦ (by cases h)⟩

theorem sameEntry_landed {path : Path} {entry : Node} {there : Kind} (h : sameEntry sys path entry there = true) :
    Landed entry (some there) := by
  unfold sameEntry at h
  split at h
  · exact ⟨_, rfl, (of_decide_eq_true h).symm⟩
  · obtain rfl := of_decide_eq_true (Bool.and_eq_true_iff.mp h).2
    rfl
  · cases h

theorem mergeEntry_rule (sys : Sys) (src dst : Path) :
    VisitRule (mergeEntry sys src dst) (fun _ _ ↦ True) (Merges dst) (Done dst) where
  refl s := ⟨Adds.refl _ _, fun h ↦ h⟩
  trans s t u h h' := ⟨h.adds.trans h'.adds, fun hs ↦ h'.failed (h.failed hs)⟩
  step path e s _ := by
    unfold mergeEntry
    cases e with
    | folder b inner => exact ⟨Adds.refl _ _, fun h ↦ h⟩
    | leaf entry =>
      cases s.world.kind? (dst ++ path) with
      | some there =>
        show Merges dst s (if sameEntry sys (src ++ path) entry there then s else s.fail)
        split_ifs
        · exact ⟨Adds.refl _ _, fun h ↦ h⟩
        · exact ⟨Adds.refl _ _, fun _ ↦ rfl⟩
      | none =>
        refine ⟨(copyEntry_spec sys (src ++ path) dst path entry s.world).1, fun h ↦ ?_⟩
        exact Bool.or_eq_true_iff.mpr (.inl h)
  done path e s s' _ h := by
    unfold mergeEntry at h
    cases e with
    | folder b inner => exact .inr fun entry he ↦ (by cases he)
    | leaf entry =>
      -- What is there already has to be the same entry; what is not is copied.
      cases hthere : s.world.kind? (dst ++ path) with
      | some there =>
        rw [hthere] at h
        obtain rfl := Except.ok.inj h
        split_ifs with hsame
        · refine .inr fun entry' he ↦ ?_
          obtain rfl := Entry.leaf.inj he
          rw [hthere]
          exact sameEntry_landed hsame
        · exact .inl rfl
      | none =>
        rw [hthere] at h
        obtain rfl := Except.ok.inj h
        cases hok : (copyEntry sys (src ++ path) (dst ++ path) entry s.world).2 with
        | false => exact .inl (by simp)
        | true =>
          refine .inr fun entry' he ↦ ?_
          obtain rfl := Entry.leaf.inj he
          exact (copyEntry_spec sys (src ++ path) dst path entry s.world).2 hok
  keep path e s s' hs h := by
    obtain hfailed | hlanded := h
    · exact .inl (hs.failed hfailed)
    · exact .inr fun entry he ↦ (hlanded entry he).stays (hs.adds.kept _)

/-- A folder passed over always leaves the mark of a failure. -/
theorem enterDir_spec (sys : Sys) (src dst rest : Path) (s : Merge) :
    ∃ s' b, enterDir sys src dst rest s = .ok (s', b) ∧ Merges dst s s' ∧ (b = false → s'.failed = true) := by
  have hadds : Adds dst s.world (mkdirP sys [] (dst ++ rest) s.world).1 := mkdirP_adds sys _ _ s.world fun q hq hapart ↦
    (List.prefix_or_prefix_of_prefix hq (List.prefix_append dst rest)).elim hapart.1 hapart.2
  have hfail : Merges dst s s.fail := ⟨Adds.refl _ _, fun _ ↦ rfl⟩
  rw [enterDir]
  dsimp only
  by_cases hmade : (mkdirP sys [] (dst ++ rest) s.world).2 = true
  · rw [if_pos hmade]
    split_ifs
    · exact ⟨_, _, rfl, hfail, fun _ ↦ rfl⟩
    · exact ⟨_, _, rfl, hfail, fun _ ↦ rfl⟩
    · exact ⟨_, _, rfl, hfail, fun _ ↦ rfl⟩
    · exact ⟨_, _, rfl, hfail, fun _ ↦ rfl⟩
    · exact ⟨_, _, rfl, ⟨hadds, fun h ↦ h⟩, fun h ↦ (by cases h)⟩
  · rw [if_neg hmade]
    split_ifs
    · exact ⟨_, _, rfl, hfail, fun _ ↦ rfl⟩
    · exact ⟨_, _, rfl, hfail, fun _ ↦ rfl⟩
    · exact ⟨_, _, rfl, hfail, fun _ ↦ rfl⟩
    · exact ⟨_, _, rfl, hfail, fun _ ↦ rfl⟩
    · exact ⟨_, _, rfl, ⟨hadds, fun _ ↦ rfl⟩, fun _ ↦ rfl⟩

theorem enterDir_rule (sys : Sys) (src dst : Path) : EnterRule (enterDir sys src dst) (Merges dst) (Done dst) where
  step rest s s' b h := by
    obtain ⟨t, c, ht, hmerges, -⟩ := enterDir_spec sys src dst rest s
    rw [ht] at h
    obtain ⟨rfl, -⟩ := Prod.mk.inj (Except.ok.inj h)
    exact hmerges
  stop rest s s' h := by
    obtain ⟨t, c, ht, -, -⟩ := enterDir_spec sys src dst rest s
    rw [ht] at h
    cases h
  pass rest s s' q e h := by
    obtain ⟨t, c, ht, -, hfailed⟩ := enterDir_spec sys src dst rest s
    rw [ht] at h
    obtain ⟨rfl, hc⟩ := Prod.mk.inj (Except.ok.inj h)
    exact .inl (hfailed hc)

theorem mergeEntry_ok (sys : Sys) (src dst path : Path) (e : Item) (s : Merge) : ∃ s', mergeEntry sys src dst path e s = .ok s' := by
  cases e with
  | folder b inner => exact ⟨_, rfl⟩
  | leaf entry =>
    rw [mergeEntry]
    split
    · exact ⟨_, rfl⟩
    · exact ⟨_, rfl⟩

/-- A merge takes nothing away and adds below `dst` only; when it says that it worked, all of `src` came along. -/
theorem mergeUserDir_spec (sys : Sys) (src dst : Path) (w : Item) :
    Adds dst w (mergeUserDir sys src dst w).1 ∧
      ((mergeUserDir sys src dst w).2 = true → ∀ rest entry, rest ≠ [] → w.kind? (src ++ rest) = some (.inl entry) →
        Landed entry ((mergeUserDir sys src dst w).1.kind? (dst ++ rest))) := by
  have hvisit := mergeEntry_rule sys src dst
  have henter := enterDir_rule sys src dst
  rw [mergeUserDir]
  dsimp only
  obtain ⟨s, hs⟩ := @walk_ok _ _ _ _ _ (fun _ ↦ true) _ (fun path s ↦ (enterDir_spec sys src dst path s).imp fun _ ⟨b, h, _⟩ ↦ ⟨b, h⟩)
    (mergeEntry_ok sys src dst) [([], (w.find? src).elim .done Entry.inside)] ⟨w, false⟩
  have hrel : Merges dst ⟨w, false⟩ (stateOf (walk (enterDir sys src dst) (fun _ ↦ true) (mergeEntry sys src dst)
      [([], (w.find? src).elim .done Entry.inside)] ⟨w, false⟩)) := walk_rel hvisit henter (fun _ _ _ ↦ trivial) _
  rw [hs] at hrel ⊢
  refine ⟨hrel.adds, fun hok rest entry hne hentry ↦ ?_⟩
  obtain ⟨x, hx, hkind⟩ := Option.map_eq_some_iff.mp (show (w.find? (src ++ rest)).map Entry.kind = _ from hentry)
  rw [Entry.find?_append] at hx
  obtain ⟨e, he, hx⟩ := Option.bind_eq_some_iff.mp hx
  rw [he] at hs
  obtain rfl : x = .leaf entry := by
    cases x with
    | leaf a => rw [Sum.inl.inj hkind]
    | folder b inner => cases hkind
  cases Entry.has_of_find? hx with
  | here => exact absurd rfl hne
  | inner hmem hx =>
    have hdone := walk_done hvisit henter (fun _ _ _ ↦ trivial) hs [] _ (List.mem_singleton_self _) _ _ _ _ hmem hx fun _ _ _ ↦ rfl
    obtain hfailed | hlanded := hdone
    · have hok' : (!s.failed) = true := hok
      rw [hfailed] at hok'
      cases hok'
    · exact hlanded entry rfl

/-! ## A free name for a backup -/

theorem backup_injective (old : Place) : Function.Injective (backup old) := by
  have hshort : (ascii " BACKUP").length = 7 := rfl
  have hlong : (ascii " BACKUP ").length = 8 := rfl
  intro i j h
  have hrest := List.append_cancel_left (show old.name ++ _ = old.name ++ _ from congrArg Place.name h)
  have hlen := congrArg List.length hrest
  split_ifs at hrest hlen with hi hj hj
  · rw [hi, hj]
  · rw [List.length_append] at hlen
    omega
  · rw [List.length_append] at hlen
    omega
  · have := decimal_inj (List.append_cancel_left hrest)
    omega

theorem backup_name_ne (old : Place) (i : Nat) : old.name ≠ (backup old i).name := by
  have hshort : (ascii " BACKUP").length = 7 := rfl
  have hlong : (ascii " BACKUP ").length = 8 := rfl
  intro h
  have hlen := congrArg List.length h
  rw [backup, List.length_append] at hlen
  split_ifs at hlen
  · omega
  · rw [List.length_append] at hlen
    omega

/-- The search for a name ends with one that is free. -/
theorem freeBackup_spec (old : Place) (w : Item) : ∃ i, freeBackup old w = backup old i ∧ w.kind? (backup old i).path = none := by
  refine ⟨_, rfl, ?_⟩
  have hinj : Function.Injective fun i ↦ (backup old i).path := by
    intro i j h
    have hname := (List.append_inj' (show (backup old i).folder ++ [_] = (backup old j).folder ++ [_] from h) rfl).2
    apply backup_injective old
    rw [Place.mk.injEq]
    exact ⟨rfl, List.singleton_inj.mp hname⟩
  let names := (w.find? old.folder).elim [] fun e ↦ e.inside.toList.map Prod.fst
  -- A name that is taken is one of the folder's, and these are finitely many.
  have htaken : ∀ i, (w.kind? (backup old i).path).isSome = true → (backup old i).path ∈ names.map fun name ↦ old.folder ++ [name] := by
    intro i hsome
    apply List.mem_map_of_mem
    rw [Place.path, Entry.kind?_below] at hsome
    split at hsome
    · rename_i b inner hfolder
      have hmem : ∃ e, ((backup old i).name, e) ∈ inner.toList := by
        cases hitem : inner.item? (backup old i).name with
        | none =>
          rw [hitem] at hsome
          cases hsome
        | some e =>
          rw [FolderTree.item?, Option.map_eq_some_iff] at hitem
          obtain ⟨x, hx, rfl⟩ := hitem
          have hname : x.1 = (backup old i).name := by simpa using List.find?_some hx
          exact ⟨x.2, hname ▸ List.mem_of_find?_eq_some hx⟩
      obtain ⟨e, he⟩ := hmem
      show (backup old i).name ∈ (w.find? old.folder).elim [] fun e ↦ e.inside.toList.map Prod.fst
      rw [show w.find? old.folder = some (.folder b inner) from hfolder]
      exact List.mem_map_of_mem he
    · cases hsome
  have hfree := @firstFree_free _ (fun path ↦ (w.kind? path).isSome) _ hinj _ htaken names.length (by rw [List.length_map]) 0
  rwa [← Option.not_isSome_iff_eq_none, Bool.not_eq_true]

/-! ## Entries that are removed, moved aside and linked -/

theorem Place.path_append (place : Place) (rest : Path) : place.path ++ rest = place.folder ++ place.name :: rest := by
  rw [path, List.append_assoc]
  rfl

theorem none_below {p : Path} (h : w.kind? p = none) (rest : Path) : w.kind? (p ++ rest) = none := by
  rw [Entry.kind?, Option.map_eq_none_iff] at h ⊢
  exact Entry.find?_eq_none_of_append h rest

theorem leaf_below {p rest : Path} {entry : Node} (h : w.kind? p = some (.inl entry)) (hne : rest ≠ []) : w.kind? (p ++ rest) = none := by
  cases rest with
  | nil => exact absurd rfl hne
  | cons name rest =>
    obtain ⟨x, hx, hkind⟩ := Option.map_eq_some_iff.mp h
    rw [Entry.kind?_below, hx]
    cases x with
    | leaf entry => rfl
    | folder b inner => cases hkind

theorem kind?_removed {place : Place} {entry : Node} (h : w.kind? place.path = some (.inl entry)) (q : Path) :
    (removed place w).kind? q = if q = place.path then none else w.kind? q := by
  rw [removed]
  by_cases hbelow : ∃ rest, q = place.path ++ rest
  · obtain ⟨rest, rfl⟩ := hbelow
    rw [place.path_append, Entry.kind?_modify_erase_self, ← place.path_append]
    split_ifs with hq
    · rfl
    · exact (leaf_below h fun hnil ↦ hq (by rw [hnil, List.append_nil])).symm
  · have hne : ∀ rest, q ≠ place.folder ++ place.name :: rest := fun rest hq ↦ hbelow ⟨rest, by rw [hq, place.path_append]⟩
    rw [Entry.kind?_modify_erase_ne hne, if_neg fun hq ↦ hbelow ⟨[], by rw [hq, List.append_nil]⟩]

/-- No entry of its own is at a place: nothing, or a link. -/
def Gone (there : Option Kind) : Prop := there = none ∨ isLink there = true

/-- Where `ln -s` makes the link when the old one could not be removed. -/
def Strayed (sys : Sys) (pair : Pair) (q : Path) : Prop :=
  sys.remove pair.old.path = false ∧ ∃ folder, sys.leads pair.old.path = some folder ∧ q = folder ++ [afterLastSlash pair.link]

/-- Where `rm -f` removes a link when the folder of the new place is one. -/
def Cleared (sys : Sys) (pair : Pair) (q : Path) : Prop :=
  sys.remove q = true ∧ ∃ folder, sys.leads pair.new.folder = some folder ∧ q = folder ++ [pair.new.name]

/-- Nothing changed but for a link, that came or went at a place both commands may get to. -/
def Shifts (reach : Prop) (there there' : Option Kind) : Prop := there' = there ∨ Gone there ∧ Gone there' ∧ reach

theorem Shifts.mono {reach reach' : Prop} {there there' : Option Kind} (h : Shifts reach there there') (hr : reach → reach') :
    Shifts reach' there there' := h.imp_right fun h ↦ ⟨h.1, h.2.1, hr h.2.2⟩

theorem Shifts.trans {reach : Prop} {a b c : Option Kind} (h : Shifts reach a b) (h' : Shifts reach b c) : Shifts reach a c := by
  obtain rfl | ⟨ha, hb, hr⟩ := h
  · exact h'
  · obtain rfl | ⟨-, hc, -⟩ := h'
    · exact .inr ⟨ha, hb, hr⟩
    · exact .inr ⟨ha, hc, hr⟩

theorem Shifts.gone {reach : Prop} {there there' : Option Kind} (h : Shifts reach there there') (hgone : Gone there) : Gone there' := by
  obtain rfl | ⟨-, hgone', -⟩ := h
  · exact hgone
  · exact hgone'

/-- Nothing is lost but a link at the old place, and what is new is there, on the way or where the link strays. -/
structure Aliased (sys : Sys) (pair : Pair) (w w' : Item) : Prop where
  kept : ∀ q k, w.kind? q = some k → w'.kind? q = some k ∨ isLink (some k) = true ∧ q = pair.old.path
  frame : ∀ q, Apart q pair.old.path → Shifts (Strayed sys pair q) (w.kind? q) (w'.kind? q)
  gone : Gone (w.kind? pair.old.path) → Gone (w'.kind? pair.old.path)

theorem apart_ne {p q : Path} (h : Apart p q) : p ≠ q := by
  rintro rfl
  exact h.1 (List.prefix_refl _)

/-- A link that was made, or nothing. -/
theorem makeLink_spec (sys : Sys) (pair : Pair) (path : Path) (w : Item) :
    makeLink sys pair path w = w ∨ w.kind? path = none ∧
      ∀ q, (makeLink sys pair path w).kind? q = if q = path then some (.inl (.link pair.link)) else w.kind? q := by
  rw [makeLink]
  split_ifs
  · cases hmade : make path (.leaf (.link pair.link)) w with
    | none => exact .inl rfl
    | some w' => exact .inr ⟨make_free hmade, kind?_make rfl hmade⟩
  · exact .inl rfl

theorem makeLink_kept (sys : Sys) (pair : Pair) (path : Path) {q : Path} {k : Kind} (h : w.kind? q = some k) :
    (makeLink sys pair path w).kind? q = some k := by
  obtain hsame | ⟨hfree, hkind⟩ := makeLink_spec sys pair path w
  · rwa [hsame]
  · rw [hkind, if_neg, h]
    rintro rfl
    rw [hfree] at h
    cases h

theorem makeLink_old (sys : Sys) (pair : Pair) (w : Item) :
    (∀ q, q ≠ pair.old.path → (makeLink sys pair pair.old.path w).kind? q = w.kind? q) ∧
      (Gone (w.kind? pair.old.path) → Gone ((makeLink sys pair pair.old.path w).kind? pair.old.path)) := by
  obtain hsame | ⟨-, hkind⟩ := makeLink_spec sys pair pair.old.path w
  · rw [hsame]
    exact ⟨fun _ _ ↦ rfl, fun h ↦ h⟩
  · refine ⟨fun q hq ↦ by rw [hkind, if_neg hq], fun _ ↦ .inr ?_⟩
    rw [hkind, if_pos rfl]
    rfl

theorem aliasOld_aliased (sys : Sys) (pair : Pair) (w : Item) : Aliased sys pair w (aliasOld sys pair w) := by
  have hsame : Aliased sys pair w w := ⟨fun _ _ h ↦ .inl h, fun _ _ ↦ .inl rfl, fun h ↦ h⟩
  rw [aliasOld]
  split
  · -- Nothing is there: its folder is made, and the link in it.
    rename_i hnone
    obtain ⟨hkept, hframe⟩ := mkdirP_spec sys [] pair.old.folder w
    obtain ⟨hother, hgone⟩ := makeLink_old sys pair (mkdirP sys [] pair.old.folder w).1
    have hfolder : ∀ q, ¬q <+: pair.old.folder → (mkdirP sys [] pair.old.folder w).1.kind? q = w.kind? q := hframe
    refine ⟨fun q k hk ↦ .inl (makeLink_kept sys pair _ (hkept q k hk)), fun q hq ↦ .inl ?_, fun _ ↦ hgone (.inl ?_)⟩
    · rw [hother q (apart_ne hq), hfolder q fun hpre ↦ hq.1 (hpre.trans (List.prefix_append _ _))]
    · rw [hfolder, hnone]
      intro hpre
      have := hpre.length_le
      rw [Place.path, List.length_append] at this
      simp at this
  · -- A link is there: another one's is removed, and where that fails `ln -s` goes into the folder it leads to.
    rename_i text hold
    by_cases htext : commandOutput text = pair.link
    · rw [if_pos htext]
      exact hsame
    rw [if_neg htext]
    cases hremove : sys.remove pair.old.path with
    | true =>
      rw [if_pos rfl]
      have hremoved := kind?_removed hold
      obtain ⟨hother, hgone⟩ := makeLink_old sys pair (removed pair.old w)
      refine ⟨fun q k hk ↦ ?_, fun q hq ↦ .inl ?_, fun _ ↦ hgone (.inl ?_)⟩
      · by_cases hq : q = pair.old.path
        · rw [hq, hold] at hk
          obtain rfl := Option.some.inj hk
          exact .inr ⟨rfl, hq⟩
        · exact .inl (makeLink_kept sys pair _ (by rw [hremoved, if_neg hq, hk]))
      · rw [hother q (apart_ne hq), hremoved, if_neg (apart_ne hq)]
      · rw [hremoved, if_pos rfl]
    | false =>
      rw [if_neg Bool.false_ne_true]
      split
      · rename_i folder hleads
        refine ⟨fun q k hk ↦ .inl (makeLink_kept sys pair _ hk), fun q _ ↦ ?_, fun _ ↦ ?_⟩
        · obtain hsame | ⟨hfree, hkind⟩ := makeLink_spec sys pair (folder ++ [afterLastSlash pair.link]) w
          · exact .inl (by rw [hsame])
          · by_cases hq : q = folder ++ [afterLastSlash pair.link]
            · refine .inr ⟨.inl (by rw [hq, hfree]), .inr ?_, hremove, folder, hleads, hq⟩
              rw [hkind, if_pos hq]
              rfl
            · exact .inl (by rw [hkind, if_neg hq])
        · rw [makeLink_kept sys pair _ hold]
          exact .inr rfl
      · exact hsame
  · exact hsame

/-! ## One pair -/

/-- The old place and its backups are not on the way to the new one, nor behind it, and the new place is no folder of its own. -/
structure PairApart (pair : Pair) : Prop where
  old : Apart pair.old.path pair.new.path
  backup : ∀ i, Apart (backup pair.old i).path pair.new.path
  name : pair.new.name ∉ pair.new.folder

theorem backup_apart (old : Place) (i : Nat) : Apart (backup old i).path old.path := by
  have hne := backup_name_ne old i
  apply And.intro
  · intro hpre
    have hname := (List.prefix_append_right_inj old.folder).mp (show old.folder ++ [_] <+: old.folder ++ [_] from hpre)
    simp [hne.symm] at hname
  · intro hpre
    have hname := (List.prefix_append_right_inj old.folder).mp (show old.folder ++ [_] <+: old.folder ++ [_] from hpre)
    simp [hne] at hname

/-- Away from the places of a pair and from the name its old place went aside under, if it did. -/
structure Beside (pair : Pair) (aside : Option Nat) (q : Path) : Prop where
  old : Apart q pair.old.path
  new : Apart q pair.new.path
  backup : ∀ i, aside = some i → Apart q (backup pair.old i).path

/-- What moving a pair may change: all it does is at its own places or through a link, and what is not a link is where it was,
unless the whole old place went aside under a name that was free. -/
structure Moved (sys : Sys) (pair : Pair) (aside : Option Nat) (w w' : Item) : Prop where
  free : ∀ i, aside = some i → w.kind? (backup pair.old i).path = none
  moved : ∀ i, aside = some i → ∀ rest k, w.kind? (pair.old.path ++ rest) = some k →
    w'.kind? ((backup pair.old i).path ++ rest) = some k
  kept : ∀ q k, w.kind? q = some k → (aside ≠ none → ¬pair.old.path <+: q) →
    w'.kind? q = some k ∨ isLink (some k) = true ∧ (q = pair.old.path ∨ q = pair.new.path ∨ Cleared sys pair q)
  frame : ∀ q, Beside pair aside q → Shifts (Cleared sys pair q ∨ Strayed sys pair q) (w.kind? q) (w'.kind? q)

/-- All of the old place is at the new one, and no entry away from both is lost. -/
structure Merged (pair : Pair) (w w' : Item) : Prop where
  gone : Gone (w'.kind? pair.old.path)
  landed : ∀ rest entry, rest ≠ [] → w.kind? (pair.old.path ++ rest) = some (.inl entry) →
    Landed entry (w'.kind? (pair.new.path ++ rest))

def KeepsBeside (pair : Pair) (w w' : Item) : Prop :=
  ∀ q k, Apart q pair.old.path → Apart q pair.new.path → w.kind? q = some k → w'.kind? q = some k

/-- A place cleared of a link that leads to the old place, or left alone. -/
theorem clearNew_spec (sys : Sys) (pair : Pair) (w : Item) :
    clearNew sys pair w = w ∨ ∃ place, reached sys pair.new w = some place ∧ sys.remove place.path = true ∧
      isLink (w.kind? place.path) = true ∧
      ∀ q, (clearNew sys pair w).kind? q = if q = place.path then none else w.kind? q := by
  rw [clearNew]
  split
  · exact .inl rfl
  · rename_i place hreached
    split
    · rename_i text hlink
      split_ifs with hgo
      · refine .inr ⟨place, hreached, (Bool.and_eq_true_iff.mp hgo).2, ?_, kind?_removed hlink⟩
        rw [hlink]
        rfl
      · exact .inl rfl
    · exact .inl rfl

variable (sys) in
/-- Where the folder of the new place is no link, only the new place is cleared. -/
theorem clearNew_here {pair : Pair} (hheld : held pair.new w = false) :
    (∀ q k, w.kind? q = some k → (clearNew sys pair w).kind? q = some k ∨ isLink (some k) = true ∧ q = pair.new.path) ∧
      ∀ q, q ≠ pair.new.path → (clearNew sys pair w).kind? q = w.kind? q := by
  obtain hsame | ⟨place, hreached, -, hlink, hkind⟩ := clearNew_spec sys pair w
  · rw [hsame]
    exact ⟨fun _ _ h ↦ .inl h, fun _ _ ↦ rfl⟩
  · obtain rfl : pair.new = place := by
      rw [reached, hheld] at hreached
      exact Option.some.inj hreached
    refine ⟨fun q k hk ↦ ?_, fun q hq ↦ by rw [hkind, if_neg hq]⟩
    by_cases hq : q = pair.new.path
    · rw [hq] at hk
      rw [hk] at hlink
      exact .inr ⟨hlink, hq⟩
    · exact .inl (by rw [hkind, if_neg hq, hk])

variable (sys) in
/-- Where it is one, that is still so afterwards: the link that goes has another name. -/
theorem clearNew_held {pair : Pair} (hname : pair.new.name ∉ pair.new.folder) (hheld : held pair.new w = true) :
    Moved sys pair none w (clearNew sys pair w) ∧ held pair.new (clearNew sys pair w) = true := by
  obtain hsame | ⟨place, hreached, hremove, hlink, hkind⟩ := clearNew_spec sys pair w
  · rw [hsame]
    exact ⟨⟨by simp, by simp, fun _ _ h _ ↦ .inl h, fun _ _ ↦ .inl rfl⟩, hheld⟩
  · rw [reached, if_pos hheld] at hreached
    obtain ⟨folder, hleads, rfl⟩ := Option.map_eq_some_iff.mp hreached
    have hcleared : Cleared sys pair (folder ++ [pair.new.name]) := ⟨hremove, folder, hleads, rfl⟩
    refine ⟨⟨by simp, by simp, fun q k hk _ ↦ ?_, fun q _ ↦ ?_⟩, ?_⟩
    · by_cases hq : q = folder ++ [pair.new.name]
      · rw [hq] at hk
        refine .inr ⟨?_, .inr (.inr (hq ▸ hcleared))⟩
        rw [← hk]
        exact hlink
      · exact .inl (by rw [hkind]; exact (if_neg hq).trans hk)
    · by_cases hq : q = folder ++ [pair.new.name]
      · rw [hq]
        refine .inr ⟨.inr hlink, .inl ?_, .inl hcleared⟩
        rw [hkind]
        exact if_pos rfl
      · exact .inl (by rw [hkind]; exact if_neg hq)
    · obtain ⟨part, hpart, hpartLink⟩ := List.any_eq_true.mp hheld
      refine List.any_eq_true.mpr ⟨part, hpart, ?_⟩
      rw [hkind, if_neg, hpartLink]
      -- a part of the way is made of the folders' names
      rintro rfl
      have hpre := (List.mem_inits _ _).mp (List.mem_of_mem_tail hpart)
      apply hname
      exact hpre.subset (List.mem_append_right _ (List.mem_singleton_self _))

/-- The old place under the name of a free backup: what was below the one is below the other. -/
theorem kind?_aside {old : Place} {i : Nat} (hfree : w.kind? (backup old i).path = none) :
    let aside := w.modify (FolderTree.rename old.name (backup old i).name) old.folder
    (∀ rest, aside.kind? (old.path ++ rest) = none) ∧
      (∀ rest, aside.kind? ((backup old i).path ++ rest) = w.kind? (old.path ++ rest)) ∧
      ∀ q, ¬old.path <+: q → ¬(backup old i).path <+: q → aside.kind? q = w.kind? q := by
  have hne := backup_name_ne old i
  refine ⟨fun rest ↦ ?_, fun rest ↦ ?_, fun q hold hbackup ↦ ?_⟩
  · rw [Place.path_append, Entry.kind?_modify_rename_old hne]
  · rw [Place.path_append, Place.path_append]
    exact Entry.kind?_modify_rename_new hne hfree rest
  · apply Entry.kind?_modify_rename_ne
    · rintro rest rfl
      exact hold ⟨rest, old.path_append rest⟩
    · rintro rest rfl
      exact hbackup ⟨rest, (backup old i).path_append rest⟩

theorem Gone.below {p rest : Path} (h : Gone (w.kind? p)) (hne : rest ≠ []) : w.kind? (p ++ rest) = none := by
  obtain hnone | hlink := h
  · exact none_below hnone rest
  · unfold isLink at hlink
    split at hlink
    · rename_i text hp
      exact leaf_below hp hne
    · cases hlink

/-- Something was put at the new place or a link taken from it, and nothing was done elsewhere. -/
structure AtNew (pair : Pair) (w w' : Item) : Prop where
  kept : ∀ q k, w.kind? q = some k → w'.kind? q = some k ∨ isLink (some k) = true ∧ q = pair.new.path
  frame : ∀ q, Apart q pair.new.path → w'.kind? q = w.kind? q

theorem AtNew.moved {pair : Pair} (h : AtNew pair w w') : Moved sys pair none w w' :=
  ⟨by simp, by simp, fun q k hk _ ↦ (h.kept q k hk).imp_right fun hlink ↦ ⟨hlink.1, .inr (.inl hlink.2)⟩,
    fun q hq ↦ .inl (h.frame q hq.new)⟩

variable (sys) in
/-- Nothing of its own was at the old place, and the link to the new one is made there. -/
theorem AtNew.alias {pair : Pair} (h : AtNew pair w w') (hpair : PairApart pair) (hgone : Gone (w'.kind? pair.old.path)) :
    Moved sys pair none w (aliasOld sys pair w') ∧ Merged pair w (aliasOld sys pair w') ∧
      KeepsBeside pair w (aliasOld sys pair w') := by
  have halias := aliasOld_aliased sys pair w'
  refine ⟨⟨by simp, by simp, fun q k hk _ ↦ ?_, fun q hq ↦ ?_⟩, ⟨halias.gone hgone, ?_⟩, ?_⟩
  · obtain hkept | ⟨hlink, hq⟩ := h.kept q k hk
    · exact (halias.kept q k hkept).imp_right fun h ↦ ⟨h.1, .inl h.2⟩
    · exact .inr ⟨hlink, .inr (.inl hq)⟩
  · rw [← h.frame q hq.new]
    exact (halias.frame q hq.old).mono .inr
  · intro rest entry hne hentry
    rw [← h.frame _ (hpair.old.below rest), hgone.below hne] at hentry
    cases hentry
  · intro q k hqold hqnew hk
    rw [← h.frame q hqnew] at hk
    obtain hkept | ⟨-, hq⟩ := halias.kept q k hk
    · exact hkept
    · exact absurd hq (apart_ne hqold)

variable (sys) in
/-- All of the old place is at the new one, and it goes aside under a name that is free. -/
theorem AtNew.aside {pair : Pair} (h : AtNew pair w w') (hpair : PairApart pair)
    (hlanded : ∀ rest entry, rest ≠ [] → w.kind? (pair.old.path ++ rest) = some (.inl entry) →
      Landed entry (w'.kind? (pair.new.path ++ rest))) {i : Nat} (hfree : w'.kind? (backup pair.old i).path = none) :
    let aside := aliasOld sys pair (w'.modify (FolderTree.rename pair.old.name (backup pair.old i).name) pair.old.folder)
    Moved sys pair (some i) w aside ∧ Merged pair w aside ∧ KeepsBeside pair w aside := by
  obtain ⟨hnone, hmoved, hother⟩ := kind?_aside hfree
  generalize w'.modify (FolderTree.rename pair.old.name (backup pair.old i).name) pair.old.folder = aside at *
  have halias := aliasOld_aliased sys pair aside
  have hgone : aside.kind? pair.old.path = none := by
    have := hnone []
    rwa [List.append_nil] at this
  -- nothing stands below the name that was free
  have hbeside : ∀ q k, w'.kind? q = some k → ¬pair.old.path <+: q → aside.kind? q = some k := by
    intro q k hk hbelow
    rw [hother q hbelow, hk]
    rintro ⟨rest, rfl⟩
    rw [none_below hfree rest] at hk
    cases hk
  refine ⟨⟨?_, ?_, fun q k hk hbelow ↦ ?_, fun q hq ↦ ?_⟩, ⟨halias.gone (.inl hgone), ?_⟩, ?_⟩
  · rintro _ ⟨⟩
    rw [← h.frame _ (hpair.backup i), hfree]
  · rintro _ ⟨⟩ rest k hk
    rw [← h.frame _ (hpair.old.below rest)] at hk
    obtain hkept | ⟨-, hq⟩ := halias.kept ((backup pair.old i).path ++ rest) k (by rw [hmoved, hk])
    · exact hkept
    · exact absurd hq (apart_ne ((backup_apart pair.old i).below rest))
  · obtain hm | ⟨hlink, hq⟩ := h.kept q k hk
    · exact (halias.kept q k (hbeside q k hm (hbelow (Option.some_ne_none i)))).imp_right fun h ↦ ⟨h.1, .inl h.2⟩
    · exact .inr ⟨hlink, .inr (.inl hq)⟩
  · have hsame : aside.kind? q = w.kind? q := by
      rw [hother q hq.old.2 (hq.backup i rfl).2, h.frame q hq.new]
    rw [← hsame]
    exact (halias.frame q hq.old).mono .inr
  · -- the alias takes no entry that landed: it is made at the old place
    intro rest entry hne hentry
    refine (hlanded rest entry hne hentry).stays fun k hk ↦ ?_
    have hnew := hpair.old.symm.below rest
    obtain hkept | ⟨-, hq⟩ := halias.kept _ k (hbeside _ k hk hnew.2)
    · exact hkept
    · exact absurd hq (apart_ne hnew)
  · intro q k hqold hqnew hk
    rw [← h.frame q hqnew] at hk
    obtain hkept | ⟨-, hq⟩ := halias.kept q k (hbeside q k hk hqold.2)
    · exact hkept
    · exact absurd hq (apart_ne hqold)

/-- One pair: nothing of it is lost, and a success has the two places as one. -/
theorem migratePair_spec (sys : Sys) {pair : Pair} (hpair : PairApart pair) (w : Item) :
    ∃ aside, Moved sys pair aside w (migratePair sys pair w).1 ∧
      ((migratePair sys pair w).2 = true →
        Merged pair w (migratePair sys pair w).1 ∧ KeepsBeside pair w (migratePair sys pair w).1) := by
  cases hheld : held pair.new w with
  | true =>
    obtain ⟨hmoved, hheld'⟩ := clearNew_held sys hpair.name hheld
    -- The folder of the new place is still a link, and the merge is not tried.
    have hfails : migratePair sys pair w = (clearNew sys pair w, false) := by
      rw [migratePair]
      dsimp only
      rw [hheld', Bool.or_true, if_pos rfl, ite_self]
    rw [hfails]
    exact ⟨none, hmoved, fun h ↦ (by cases h)⟩
  | false =>
    obtain ⟨hfirst, hframe⟩ := clearNew_here sys hheld
    have hcleared : AtNew pair w (clearNew sys pair w) := ⟨hfirst, fun q hq ↦ hframe q (apart_ne hq)⟩
    obtain ⟨hadds, hlanded⟩ := mergeUserDir_spec sys pair.old.path pair.new.path (clearNew sys pair w)
    have hmerged : AtNew pair w (mergeUserDir sys pair.old.path pair.new.path (clearNew sys pair w)).1 := by
      refine ⟨fun q k hk ↦ (hfirst q k hk).imp_left (hadds.kept q k), fun q hq ↦ ?_⟩
      rw [hadds.frame q hq, hcleared.frame q hq]
    rw [migratePair]
    dsimp only
    split_ifs with hlink hheld' hthere hfailed hrename
    · exact ⟨none, hcleared.moved, fun h ↦ (by cases h)⟩
    · exact ⟨none, hcleared.moved, fun h ↦ (by cases h)⟩
    · exact ⟨none, hmerged.moved, fun h ↦ (by cases h)⟩
    · -- Everything landed, so the old place goes aside under the first free name.
      obtain ⟨i, hi, hfree⟩ :=
        freeBackup_spec pair.old (mergeUserDir sys pair.old.path pair.new.path (clearNew sys pair w)).1
      rw [hi]
      obtain ⟨hmoved, hdone⟩ := hmerged.aside sys hpair (fun rest entry hne hentry ↦
        hlanded (by simpa using hfailed) rest entry hne (by rw [hcleared.frame _ (hpair.old.below rest), hentry])) hfree
      exact ⟨some i, hmoved, fun _ ↦ hdone⟩
    · exact ⟨none, hmerged.moved, fun h ↦ (by cases h)⟩
    · -- Nothing of its own was at the old place.
      have hgone : Gone ((clearNew sys pair w).kind? pair.old.path) := by
        cases hkind : (clearNew sys pair w).kind? pair.old.path with
        | none => exact .inl rfl
        | some k =>
          rw [hkind] at hthere
          exact .inr (by simpa using hthere)
      obtain ⟨hmoved, hdone⟩ := hcleared.alias sys hpair hgone
      exact ⟨none, hmoved, fun _ ↦ hdone⟩

/-! ## All pairs -/

/-- The places a pair is about. -/
inductive Root (pair : Pair) : Path → Prop
  | old : Root pair pair.old.path
  | new : Root pair pair.new.path
  | backup (i : Nat) : Root pair (backup pair.old i).path

/-- What one pair is about is out of the way of the other one, and no link that the one clears is named like a backup of the other. -/
structure Away (pair other : Pair) : Prop where
  apart : ∀ root root', Root pair root → Root other root' → Apart root root'
  names : ∀ i, (backup other.old i).name ≠ pair.new.name

theorem Away.beside {pair other : Pair} (h : Away pair other) {root : Path} (hroot : Root pair root) (aside : Option Nat)
    (rest : Path) : Beside other aside (root ++ rest) :=
  ⟨(h.apart _ _ hroot .old).below rest, (h.apart _ _ hroot .new).below rest, fun i _ ↦ (h.apart _ _ hroot (.backup i)).below rest⟩

theorem Away.ne {pair other : Pair} (h : Away pair other) : other ≠ pair := by
  rintro rfl
  exact apart_ne (h.apart _ _ .old .old) rfl

/-- A path where a link may have come or gone. -/
def Reached (sys : Pair → Sys) (pairs : List Pair) (q : Path) : Prop :=
  ∃ pair ∈ pairs, Cleared (sys pair) pair q ∨ Strayed (sys pair) pair q

/-- Each pair's old place went aside under a name that was free, with everything in it, or stayed.  Every file and folder that
did not go aside is where it was, and away from the places and those names nothing changed. -/
structure Kept (sys : Pair → Sys) (pairs : List Pair) (aside : Pair → Option Nat) (before after : Item) : Prop where
  free : ∀ pair ∈ pairs, ∀ i, aside pair = some i → before.kind? (backup pair.old i).path = none
  moved : ∀ pair ∈ pairs, ∀ i, aside pair = some i → ∀ rest k, before.kind? (pair.old.path ++ rest) = some k →
    isLink (some k) = false → after.kind? ((backup pair.old i).path ++ rest) = some k
  kept : ∀ q k, before.kind? q = some k → isLink (some k) = false →
    (∀ pair ∈ pairs, aside pair ≠ none → ¬pair.old.path <+: q) → after.kind? q = some k
  frame : ∀ q, (∀ pair ∈ pairs, Beside pair (aside pair) q) → Shifts (Reached sys pairs q) (before.kind? q) (after.kind? q)

/-- All went well: the places are as one, and what is away from them is there. -/
structure AllMerged (pairs : List Pair) (before after : Item) : Prop where
  merged : ∀ pair ∈ pairs, Merged pair before after
  keeps : ∀ q k, (∀ pair ∈ pairs, Apart q pair.old.path ∧ Apart q pair.new.path) → before.kind? q = some k → after.kind? q = some k

/-- The first pair of several, and then the others. -/
theorem Kept.cons {sys : Pair → Sys} {pair : Pair} {pairs : List Pair} (haway : ∀ other ∈ pairs, Away pair other)
    (haway' : ∀ other ∈ pairs, Away other pair) {a : Option Nat} {aside : Pair → Option Nat} (h : Moved (sys pair) pair a w w')
    (hrest : Kept sys pairs aside w' w'') : Kept sys (pair :: pairs) (Function.update aside pair a) w w'' := by
  have hhere : Function.update aside pair a pair = a := Function.update_self ..
  have hthere : ∀ other ∈ pairs, Function.update aside pair a other = aside other :=
    fun other hmem ↦ Function.update_of_ne (haway other hmem).ne _ _
  -- The link that the first pair clears is not named like a backup of another one.
  have hcleared : ∀ other ∈ pairs, ∀ i, ¬Cleared (sys pair) pair (backup other.old i).path := by
    rintro other hmem i ⟨-, folder, -, hq⟩
    have hlast := (List.append_inj' (show (backup other.old i).folder ++ [_] = folder ++ [_] from hq) rfl).2
    exact (haway other hmem).names i (List.singleton_inj.mp hlast)
  refine ⟨?_, ?_, fun q k hk hlink hbelow ↦ ?_, fun q hq ↦ ?_⟩
  · intro other hmem i hi
    obtain rfl | hmem := List.mem_cons.mp hmem
    · exact h.free i (hhere ▸ hi)
    · rw [hthere other hmem] at hi
      by_contra hsome
      obtain ⟨k, hk⟩ := Option.ne_none_iff_exists'.mp hsome
      have hbeside := (haway' other hmem).beside (.backup i) none []
      rw [List.append_nil] at hbeside
      obtain hkept | ⟨-, hq | hq | hq⟩ := h.kept _ k hk fun _ ↦ hbeside.old.2
      · rw [hrest.free other hmem i hi] at hkept
        cases hkept
      · exact apart_ne hbeside.old hq
      · exact apart_ne hbeside.new hq
      · exact hcleared other hmem i hq
  · -- What the first pair moved stays there while the others move, and what they move it left alone.
    intro other hmem i hi rest k hk hlink
    obtain rfl | hmem := List.mem_cons.mp hmem
    · refine hrest.kept _ k (h.moved i (hhere ▸ hi) rest k hk) hlink fun other hmem _ ↦ ?_
      exact ((haway other hmem).beside (.backup i) none rest).old.2
    · rw [hthere other hmem] at hi
      refine hrest.moved other hmem i hi rest k ?_ hlink
      obtain hkept | ⟨hlink', -⟩ := h.kept _ k hk fun _ ↦ ((haway' other hmem).beside .old none rest).old.2
      · exact hkept
      · rw [hlink] at hlink'
        cases hlink'
  · have hhead := hbelow pair List.mem_cons_self
    rw [hhere] at hhead
    obtain hkept | ⟨hlink', -⟩ := h.kept q k hk hhead
    · refine hrest.kept q k hkept hlink fun other hmem haside ↦ ?_
      exact hbelow other (List.mem_cons_of_mem _ hmem) (by rwa [hthere other hmem])
    · rw [hlink] at hlink'
      cases hlink'
  · have hhead := hq pair List.mem_cons_self
    rw [hhere] at hhead
    have hfirst := (h.frame q hhead).mono fun hreach ↦ (⟨pair, List.mem_cons_self, hreach⟩ : Reached sys (pair :: pairs) q)
    refine hfirst.trans ((hrest.frame q fun other hmem ↦ ?_).mono fun hreach ↦ ?_)
    · rw [← hthere other hmem]
      exact hq other (List.mem_cons_of_mem _ hmem)
    · obtain ⟨other, hmem, hreach⟩ := hreach
      exact ⟨other, List.mem_cons_of_mem _ hmem, hreach⟩

theorem AllMerged.cons {sys : Pair → Sys} {pair : Pair} {pairs : List Pair} (haway : ∀ other ∈ pairs, Away pair other)
    (haway' : ∀ other ∈ pairs, Away other pair) {aside : Pair → Option Nat} (h : Merged pair w w') (hkeeps : KeepsBeside pair w w')
    (hrest : Kept sys pairs aside w' w'') (hmerged : AllMerged pairs w' w'') : AllMerged (pair :: pairs) w w'' := by
  constructor
  · intro other hmem
    obtain rfl | hmem := List.mem_cons.mp hmem
    · refine ⟨?_, fun rest entry hne hentry ↦ ?_⟩
      · refine (hrest.frame other.old.path fun third hmem ↦ ?_).gone h.gone
        have hbeside := (haway third hmem).beside .old (aside third) []
        rwa [List.append_nil] at hbeside
      · refine (h.landed rest entry hne hentry).stays fun k hk ↦ hmerged.keeps _ k (fun third hmem ↦ ?_) hk
        have hbeside := (haway third hmem).beside .new none rest
        exact ⟨hbeside.old, hbeside.new⟩
    · obtain ⟨hgone, hlanded⟩ := hmerged.merged other hmem
      refine ⟨hgone, fun rest entry hne hentry ↦ hlanded rest entry hne ?_⟩
      have hbeside := (haway' other hmem).beside .old none rest
      exact hkeeps _ _ hbeside.old hbeside.new hentry
  · intro q k hq hk
    obtain ⟨hold, hnew⟩ := hq pair List.mem_cons_self
    exact hmerged.keeps q k (fun other hmem ↦ hq other (List.mem_cons_of_mem _ hmem)) (hkeeps q k hold hnew hk)

theorem migrateUserPaths_run (sys : Pair → Sys) {pairs : List Pair} (hpairs : ∀ pair ∈ pairs, PairApart pair)
    (haway : pairs.Pairwise fun pair other ↦ Away pair other ∧ Away other pair) (w : Item) :
    ∃ aside, Kept sys pairs aside w (migrateUserPaths sys pairs w).1 ∧
      ((migrateUserPaths sys pairs w).2 = true → AllMerged pairs w (migrateUserPaths sys pairs w).1) := by
  induction pairs generalizing w with
  | nil =>
    refine ⟨fun _ ↦ none, ⟨?_, ?_, fun q k hk _ _ ↦ hk, fun q _ ↦ .inl rfl⟩, fun _ ↦ ⟨?_, fun q k _ hk ↦ hk⟩⟩
    · exact fun _ h ↦ absurd h List.not_mem_nil
    · exact fun _ h ↦ absurd h List.not_mem_nil
    · exact fun _ h ↦ absurd h List.not_mem_nil
  | cons pair pairs ih =>
    obtain ⟨haway, hpairwise⟩ := List.pairwise_cons.mp haway
    obtain ⟨a, hmoved, hok⟩ := migratePair_spec (sys pair) (hpairs pair List.mem_cons_self) w
    rw [migrateUserPaths]
    dsimp only
    generalize migratePair (sys pair) pair w = first at *
    obtain ⟨aside, hkept, hmerged⟩ := ih (fun pair hmem ↦ hpairs pair (List.mem_cons_of_mem _ hmem)) hpairwise first.1
    have hto := fun other hmem ↦ (haway other hmem).1
    have hfrom := fun other hmem ↦ (haway other hmem).2
    refine ⟨Function.update aside pair a, .cons hto hfrom hmoved hkept, fun hall ↦ ?_⟩
    obtain ⟨hfirst, hlast⟩ := Bool.and_eq_true_iff.mp hall
    obtain ⟨hone, hbeside⟩ := hok hfirst
    exact .cons hto hfrom hone hbeside hkept (hmerged hlast)

/-! ## The pairs of `migrate_user_paths` -/

/-- The first letters of the first name: enough to tell the old places from the new ones, and a backup has those of its place. -/
def start (path : Path) : Bytes := (path.headD []).take 4

theorem apart_of_start {p q : Path} (hp : p ≠ []) (hq : q ≠ []) (h : start p ≠ start q) : Apart p q := by
  have hsame : ∀ {p q : Path}, p ≠ [] → p <+: q → start p = start q := by
    rintro p q hp ⟨r, rfl⟩
    cases p with
    | nil => exact absurd rfl hp
    | cons name p => rfl
  exact ⟨fun hpre ↦ h (hsame hp hpre), fun hpre ↦ h (hsame hq hpre).symm⟩

theorem Place.path_ne (place : Place) : place.path ≠ [] := List.concat_ne_nil _ _

theorem backup_start {old : Place} (hname : 4 ≤ old.name.length) (i : Nat) : start (backup old i).path = start old.path := by
  rw [Place.path, Place.path, backup]
  cases old.folder with
  | nil => exact List.take_append_of_le_length hname
  | cons name folder => rfl

theorem backup_name {old : Place} (hname : 4 ≤ old.name.length) (i : Nat) : (backup old i).name.take 4 = old.name.take 4 :=
  List.take_append_of_le_length hname

/-- What tells the places of two pairs apart. -/
def StartsApart (pair other : Pair) : Prop :=
  start pair.old.path ≠ start other.old.path ∧ start pair.old.path ≠ start other.new.path ∧
    start pair.new.path ≠ start other.old.path ∧ ¬pair.new.path <+: other.new.path ∧ ¬other.new.path <+: pair.new.path ∧
    other.old.name.take 4 ≠ pair.new.name.take 4

instance : DecidableRel StartsApart := fun _ _ ↦ by unfold StartsApart; infer_instance

theorem StartsApart.away {pair other : Pair} (hname : 4 ≤ pair.old.name.length) (hother : 4 ≤ other.old.name.length)
    (h : StartsApart pair other) : Away pair other := by
  obtain ⟨hold, hnew, hnew', hpre, hpre', hnames⟩ := h
  constructor
  · intro root root' hroot hroot'
    cases hroot with
    | old =>
      cases hroot' with
      | old => exact apart_of_start (Place.path_ne _) (Place.path_ne _) hold
      | new => exact apart_of_start (Place.path_ne _) (Place.path_ne _) hnew
      | backup j => exact apart_of_start (Place.path_ne _) (Place.path_ne _) (by rwa [backup_start hother])
    | new =>
      cases hroot' with
      | old => exact apart_of_start (Place.path_ne _) (Place.path_ne _) hnew'
      | new => exact ⟨hpre, hpre'⟩
      | backup j => exact apart_of_start (Place.path_ne _) (Place.path_ne _) (by rwa [backup_start hother])
    | backup i =>
      cases hroot' with
      | old => exact apart_of_start (Place.path_ne _) (Place.path_ne _) (by rwa [backup_start hname])
      | new => exact apart_of_start (Place.path_ne _) (Place.path_ne _) (by rwa [backup_start hname])
      | backup j => exact apart_of_start (Place.path_ne _) (Place.path_ne _) (by rwa [backup_start hname, backup_start hother])
  · intro i hsame
    apply hnames
    rw [← backup_name hother i, hsame]

theorem userPairs_names : ∀ pair ∈ userPairs, 4 ≤ pair.old.name.length := by decide

theorem userPairs_apart : ∀ pair ∈ userPairs, PairApart pair := by
  have hstarts : ∀ pair ∈ userPairs, start pair.old.path ≠ start pair.new.path ∧ pair.new.name ∉ pair.new.folder := by decide
  intro pair hmem
  obtain ⟨hstart, hname⟩ := hstarts pair hmem
  refine ⟨apart_of_start (Place.path_ne _) (Place.path_ne _) hstart, fun i ↦ ?_, hname⟩
  refine apart_of_start (Place.path_ne _) (Place.path_ne _) ?_
  rwa [backup_start (userPairs_names pair hmem)]

theorem userPairs_away : userPairs.Pairwise fun pair other ↦ Away pair other ∧ Away other pair := by
  have hstarts : userPairs.Pairwise fun pair other ↦ StartsApart pair other ∧ StartsApart other pair := by decide
  refine hstarts.imp_of_mem ?_
  intro pair other hmem hother hapart
  have hname := userPairs_names pair hmem
  have hname' := userPairs_names other hother
  exact ⟨hapart.1.away hname hname', hapart.2.away hname' hname⟩

/-- Whatever fails, no save is lost: each old place went aside with all of its files and folders under a name that was free, or
stayed, and every other file and folder is where it was.  A success has every file and link of an old place at the new one,
and nothing but a link at the old one.  Away from the places and those names nothing changes but a link, where `rm -f` or
`ln -s` followed one. -/
theorem migrateUserPaths_keeps (sys : Pair → Sys) (profile : Item) :
    let after := migrateUserPaths sys userPairs profile
    (∃ aside, Kept sys userPairs aside profile after.1) ∧
      (after.2 = true → ∀ pair ∈ userPairs, Merged pair profile after.1) := by
  obtain ⟨aside, hkept, hmerged⟩ := migrateUserPaths_run sys userPairs_apart userPairs_away profile
  exact ⟨⟨aside, hkept⟩, fun hok ↦ (hmerged hok).merged⟩

end NotProton.CompatRun.ProfileMerge
