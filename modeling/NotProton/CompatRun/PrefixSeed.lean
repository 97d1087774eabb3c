import NotProton.Library.Shell
import NotProton.Library.TreeWalk

/-!
# PrefixSeed — a new prefix from the files of its template (`compat_run.sh`)

The copy of the template and the prefix are two trees on a volume that tells names apart by every letter, and nobody else
changes them meanwhile.  A file is known by its inode.  Each call that makes an entry may fail.
-/

open NotProton.Library

namespace NotProton.CompatRun.PrefixSeed

/-! ## The two trees -/

abbrev Path := List Bytes

inductive Node
  | file (inode : Nat)
  | link (target : Bytes)
  /-- neither a file nor a folder -/
  | special (inode : Nat)
  deriving DecidableEq

abbrev Item := Entry Bytes Node Unit

/-- What an entry is, without what is in it. -/
abbrev Kind := Node ⊕ Unit

def pathText (path : Path) : Bytes := path.flatMap (47 :: ·)

/-- What the calls come to. -/
structure Sys where
  /-- `[ -r "$directory" ] && [ -x "$directory" ]`, of the prefix -/
  directoryReadable : Path → Bool
  /-- `[ -r "$source_dir" ] && [ -x "$source_dir" ]`, of the template -/
  sourceReadable : Path → Bool
  mkdir : Path → Bool
  symlink : Path → Bool
  link : Path → Bool
  /-- What a link of the template leads to, where that is no folder. -/
  follow : Path → Option Node

/-- A new entry with nothing in it. -/
def put (folder : Path) (name : Bytes) (e pfx : Item) : Item := pfx.modify (FolderTree.add name e) folder

def newFolder : Item := .folder () .done

/-- `case "$relative/$name" in /drive_c/users/steamuser/*` -/
def inSteamuser (path : Path) : Bool := (ascii "/drive_c/users/steamuser/").isPrefixOf (pathText path)

def systemReg : Bytes := ascii "system.reg"
def updateTimestamp : Bytes := ascii ".update-timestamp"

/-- The two files that are linked last. -/
def isLast (path : Path) : Bool := path = [systemReg] || path = [updateTimestamp]

variable (sys : Sys)

/-! ## The walk -/

/-- A file or a link of the template where the prefix has nothing. -/
def installLeaf (folder : Path) (name : Bytes) (source : Node) (pfx : Item) : Except Item Item :=
  let target := folder ++ [name]
  match source with
  | .link text =>
    if sys.symlink target then
      let pfx := put folder name (.leaf (.link (commandOutput text))) pfx
      match pfx.kind? target with
      | some (.inl (.link made)) => if commandOutput text = commandOutput made then .ok pfx else .error pfx
      | _ => .error pfx
    else .error pfx
  | .file inode =>
    if sys.link target then
      let pfx := put folder name (.leaf (.file inode)) pfx
      if pfx.kind? target = some (.inl (.file inode)) then .ok pfx else .error pfx
    else .error pfx
  | .special _ => .error pfx

/-- The body of the `for` over the entries of a folder, for the entry that goes to `target`. -/
def installEntry (target : Path) (source : Item) (pfx : Item) : Except Item Item :=
  let folder := target.dropLast
  let name := target.getLast?.getD []
  if isLast target then .ok pfx
  else match source with
    | .folder _ _ =>
      match pfx.kind? target with
      | none =>
        if sys.mkdir target then
          let pfx := put folder name newFolder pfx
          if pfx.kind? target = some (.inr ()) then .ok pfx else .error pfx
        else .error pfx
      | some there => if there = .inr () then .ok pfx else .error pfx
    | .leaf source =>
      match pfx.kind? target with
      | none => installLeaf sys folder name source pfx
      | some there =>
        if inSteamuser target then .ok pfx
        else match source, there with
          | .link text, .inl (.link made) => if commandOutput text = commandOutput made then .ok pfx else .error pfx
          | _, _ => .error pfx

/-- A folder of the template is gone through where it can be read and the prefix has it. -/
def enterFolder (relative : Path) (pfx : Item) : Bool := pfx.kind? relative = some (.inr ()) && sys.sourceReadable relative

/-- `ln -h` of a file of the template to the top of the prefix, into a folder that has the name. -/
def linkFile (name : Bytes) (source : Option Node) (pfx : Item) : Option Item :=
  source.bind fun source ↦ match pfx.kind? [name] with
    | none => if sys.link [name] then some (put [] name (.leaf source) pfx) else none
    | some (.inr _) =>
      if (pfx.kind? [name, name]).isNone && sys.link [name, name] then some (put [name] name (.leaf source) pfx) else none
    | some (.inl _) => none

/-- The file a name at the top of the template leads to. -/
def fileAt (name : Bytes) (template : Item) : Option Node :=
  match template.kind? [name] with
  | some (.inl (.link _)) => sys.follow [name]
  | some (.inl node) => some node
  | _ => none

/-- `[ -f "$seed_scratch/.update-timestamp" ]` -/
def isFile : Option Node → Bool
  | some (.file _) => true
  | _ => false

def isLink : Option Kind → Bool
  | some (.inl (.link _)) => true
  | _ => false

/-- From the `ln` of `system.reg` on. -/
def commit (template : Item) (pfx : Item) : Except Item Item :=
  match linkFile sys systemReg (fileAt sys systemReg template) pfx with
  | none => .error pfx
  | some pfx =>
    if !isLink (pfx.kind? [systemReg]) && (fileAt sys systemReg template).map Sum.inl = pfx.kind? [systemReg] then
      if isFile (fileAt sys updateTimestamp template) then
        match linkFile sys updateTimestamp (fileAt sys updateTimestamp template) pfx with
        | none => .error pfx
        | some pfx => .ok pfx
      else .ok pfx
    else .error pfx

/-- `install_seed_tree`: the prefix it leaves, and whether it succeeds. -/
def installSeedTree (template : Item) (pfx : Item) : Except Item Item :=
  match walk (allow (enterFolder sys)) (fun path ↦ !isLast path) (installEntry sys) [([], template.inside)] pfx with
  | .error pfx => .error pfx
  | .ok pfx => commit sys template pfx

/-! ## Before it -/

/-- The links `prefix_is_bare` knows, each behind its path and a colon. -/
def knownLinks : List Bytes :=
  [ascii "/dosdevices/c::../drive_c", ascii "/dosdevices/z::/", ascii "/drive_c/users/crossover:steamuser",
    ascii "/drive_c/users/steamuser/My Documents:./Documents",
    ascii "/drive_c/users/steamuser/Application Data:./AppData/Roaming",
    ascii "/drive_c/users/steamuser/Local Settings/Application Data:../AppData/Local"]

/-- The body of the `for` of `prefix_is_bare`; `record` is what `game_drive_record` prints. -/
def isBareNode (record : Bytes) (part : Path) : Item → Bool
  | .leaf (.link text) =>
    let text := commandOutput text
    (pathText part = ascii "/dosdevices/s:" && text = record) || knownLinks.contains (pathText part ++ 58 :: text)
  | .leaf (.file _) => inSteamuser part
  | .leaf (.special _) => false
  | .folder _ _ =>
    [ascii "/drive_c", ascii "/drive_c/users", ascii "/drive_c/users/steamuser", ascii "/dosdevices"].contains (pathText part) ||
      inSteamuser part

def bareEntry (record : Bytes) (part : Path) (node : Item) (_ : Unit) : Except Unit Unit :=
  if isBareNode record part node then .ok () else .error ()

/-- `prefix_is_bare` -/
def prefixIsBare (record : Bytes) (pfx : Item) : Bool :=
  match pfx with
  | .leaf _ => false
  | .folder _ entries =>
    match walk (allow fun path _ ↦ sys.directoryReadable path) (fun _ ↦ true) (bareEntry record) [([], entries)] () with
    | .ok _ => true
    | .error _ => false

/-- `copy_template_into_prefix`, from the copy of the template on. -/
def copyTemplateIntoPrefix (record : Bytes) (copied : Bool) (template : Item) (pfx : Item) : Except Item Item :=
  if copied && prefixIsBare sys record pfx then installSeedTree sys template pfx else .error pfx

/-! ## One entry more -/

/-- The entry of the template that a new entry of the prefix is: a link without the newlines `$(…)` drops, and at the end
the file a link leads to. -/
def Placed (path : Path) : Item → Kind → Prop
  | .folder _ _, kind => kind = .inr ()
  | .leaf (.link text), kind =>
    if isLast path then (sys.follow path).map .inl = some kind else kind = .inl (.link (commandOutput text))
  | .leaf node, kind => kind = .inl node

/-- What the prefix has stays, and what it gets is the template's. -/
structure Grows (template before after : Item) : Prop where
  kept : ∀ q kind, before.kind? q = some kind → after.kind? q = some kind
  fresh : ∀ q kind, before.kind? q = none → after.kind? q = some kind → ∃ x, template.Has q x ∧ Placed sys q x kind

variable {sys} {template before after later pfx : Item}

theorem Grows.refl (template pfx : Item) : Grows sys template pfx pfx :=
  ⟨fun _ _ h ↦ h, fun _ _ hnone hsome ↦ absurd (hnone.symm.trans hsome) (Option.some_ne_none _).symm⟩

theorem Grows.trans (h : Grows sys template before after) (h' : Grows sys template after later) : Grows sys template before later := by
  constructor
  · exact fun q kind hq ↦ h'.kept q kind (h.kept q kind hq)
  · intro q kind hnone hsome
    cases hafter : after.kind? q with
    | none => exact h'.fresh q kind hafter hsome
    | some there =>
      have hsame : there = kind := Option.some.inj ((h'.kept q there hafter).symm.trans hsome)
      exact h.fresh q kind hnone (hsame ▸ hafter)

theorem kind?_put {folder : Path} {name : Bytes} {e : Item} (he : e.inside = .done) (hnone : pfx.kind? (folder ++ [name]) = none)
    (q : Path) : (put folder name e pfx).kind? q =
      if q = folder ++ [name] ∧ (pfx.kind? folder).any Sum.isRight = true then some e.kind else pfx.kind? q :=
  Entry.kind?_modify_add he hnone q

theorem grows_put {folder : Path} {name : Bytes} {e x : Item} (he : e.inside = .done)
    (hnone : pfx.kind? (folder ++ [name]) = none) (hx : template.Has (folder ++ [name]) x)
    (hplaced : Placed sys (folder ++ [name]) x e.kind) : Grows sys template pfx (put folder name e pfx) := by
  constructor
  · intro q kind hq
    rw [kind?_put he hnone, if_neg]
    · exact hq
    · rintro ⟨rfl, -⟩
      rw [hnone] at hq
      cases hq
  · intro q kind hq hsome
    rw [kind?_put he hnone] at hsome
    split_ifs at hsome with hnew
    · obtain ⟨rfl, -⟩ := hnew
      exact ⟨x, hx, Option.some.inj hsome ▸ hplaced⟩
    · exact absurd (hq.symm.trans hsome) (Option.some_ne_none _).symm

/-- The walk leaves the two files alone that are linked last. -/
structure Walks (sys : Sys) (template before after : Item) : Prop extends Grows sys template before after where
  last : ∀ q, isLast q = true → after.kind? q = before.kind? q

theorem Walks.refl (template pfx : Item) : Walks sys template pfx pfx :=
  { toGrows := Grows.refl template pfx
    last := fun _ _ ↦ rfl }

theorem Walks.trans (h : Walks sys template before after) (h' : Walks sys template after later) : Walks sys template before later :=
  { toGrows := h.toGrows.trans h'.toGrows
    last := fun q hq ↦ (h'.last q hq).trans (h.last q hq) }

theorem walks_put {folder : Path} {name : Bytes} {e x : Item} (he : e.inside = .done)
    (hnone : pfx.kind? (folder ++ [name]) = none) (hx : template.Has (folder ++ [name]) x)
    (hplaced : Placed sys (folder ++ [name]) x e.kind) (hlast : isLast (folder ++ [name]) = false) :
    Walks sys template pfx (put folder name e pfx) := by
  refine ⟨grows_put he hnone hx hplaced, ?_⟩
  intro q hq
  rw [kind?_put he hnone, if_neg]
  rintro ⟨rfl, -⟩
  rw [hq] at hlast
  cases hlast

/-- The entry of the template has come to the prefix, or the prefix has something of its own in its user's folder. -/
def Arrived (q : Path) (x after : Item) : Prop :=
  match x with
  | .folder _ _ => after.kind? q = some (.inr ())
  | .leaf node =>
    (∃ there, after.kind? q = some (.inl there) ∧ match node with
      | .link text => ∃ made, there = .link made ∧ commandOutput made = commandOutput text
      | node => there = node) ∨
    inSteamuser q = true ∧ after.kind? q ≠ none

theorem Arrived.grows {q : Path} {x : Item} (h : Arrived q x before) (hgrows : Grows sys template before after) : Arrived q x after := by
  cases x with
  | folder b inner => exact hgrows.kept _ _ h
  | leaf node =>
    obtain ⟨there, hthere, hnode⟩ | ⟨huser, hsome⟩ := h
    · exact .inl ⟨there, hgrows.kept _ _ hthere, hnode⟩
    · obtain ⟨kind, hkind⟩ := Option.ne_none_iff_exists'.mp hsome
      exact .inr ⟨huser, by rw [hgrows.kept _ _ hkind]; exact Option.some_ne_none _⟩

theorem installLeaf_rule {folder : Path} {name : Bytes} {source : Node} (hx : template.Has (folder ++ [name]) (.leaf source))
    (hlast : isLast (folder ++ [name]) = false) (hnone : pfx.kind? (folder ++ [name]) = none) :
    Walks sys template pfx (stateOf (installLeaf sys folder name source pfx)) ∧
      ∀ pfx', installLeaf sys folder name source pfx = .ok pfx' → Arrived (folder ++ [name]) (.leaf source) pfx' := by
  cases source with
  | special inode =>
    refine ⟨Walks.refl _ _, fun pfx' h ↦ ?_⟩
    cases h
  | file inode =>
    -- `ln` makes a hard link, which has to be the template's own file afterwards.
    have hput : Walks sys template pfx (put folder name (.leaf (.file inode)) pfx) := walks_put rfl hnone hx rfl hlast
    unfold installLeaf
    dsimp only
    split_ifs with hlink hthere
    · refine ⟨hput, fun pfx' hok ↦ ?_⟩
      obtain rfl := Except.ok.inj hok
      exact .inl ⟨_, hthere, rfl⟩
    · exact ⟨hput, fun _ h ↦ h.elim⟩
    · exact ⟨Walks.refl _ _, fun _ h ↦ h.elim⟩
  | link text =>
    have hplaced : Placed sys (folder ++ [name]) (.leaf (.link text)) (.inl (.link (commandOutput text))) := by
      rw [Placed, hlast, if_neg Bool.false_ne_true]
    have hput : Walks sys template pfx (put folder name (.leaf (.link (commandOutput text))) pfx) := walks_put rfl hnone hx hplaced hlast
    unfold installLeaf
    dsimp only
    split_ifs with hlink
    · split
      · rename_i made hmade
        split_ifs with hsame
        · refine ⟨hput, fun pfx' hok ↦ ?_⟩
          obtain rfl := Except.ok.inj hok
          exact .inl ⟨_, hmade, made, rfl, hsame.symm⟩
        · exact ⟨hput, fun _ h ↦ h.elim⟩
      · exact ⟨hput, fun _ h ↦ (by cases h)⟩
    · exact ⟨Walks.refl _ _, fun _ h ↦ h.elim⟩

theorem dropLast_snoc_getLast {target : Path} (h : target ≠ []) : target.dropLast ++ [target.getLast?.getD []] = target := by
  rw [List.getLast?_eq_some_getLast h, Option.getD_some, List.dropLast_append_getLast]

/-- What is said of the entries that are not linked last. -/
def ArrivedOrLast (q : Path) (x after : Item) : Prop := isLast q = true ∨ Arrived q x after

theorem installEntry_rule {target : Path} {source : Item} (hne : target ≠ []) (hx : template.Has target source) :
    Walks sys template pfx (stateOf (installEntry sys target source pfx)) ∧
      ∀ pfx', installEntry sys target source pfx = .ok pfx' → ArrivedOrLast target source pfx' := by
  have htarget := dropLast_snoc_getLast hne
  by_cases hlast : isLast target = true
  · -- `system.reg` and the timestamp are left to the end.
    unfold installEntry
    dsimp only
    rw [if_pos hlast]
    exact ⟨Walks.refl _ _, fun _ _ ↦ .inl hlast⟩
  · unfold installEntry
    dsimp only
    rw [if_neg hlast]
    rw [Bool.not_eq_true] at hlast
    cases source with
    | folder b inner =>
      dsimp only
      cases hthere : pfx.kind? target with
      | none =>
        have hput : Walks sys template pfx (put target.dropLast (target.getLast?.getD []) newFolder pfx) :=
          walks_put rfl (htarget.symm ▸ hthere) (x := .folder b inner) (htarget.symm ▸ hx) rfl (htarget.symm ▸ hlast)
        dsimp only
        split_ifs with hmkdir hmade
        · refine ⟨hput, fun pfx' hok ↦ .inr ?_⟩
          obtain rfl := Except.ok.inj hok
          exact hmade
        · exact ⟨hput, fun _ h ↦ h.elim⟩
        · exact ⟨Walks.refl _ _, fun _ h ↦ h.elim⟩
      | some there =>
        dsimp only
        split_ifs with hfolder
        · refine ⟨Walks.refl _ _, fun pfx' hok ↦ .inr ?_⟩
          obtain rfl := Except.ok.inj hok
          rw [hfolder] at hthere
          exact hthere
        · exact ⟨Walks.refl _ _, fun _ h ↦ h.elim⟩
    | leaf node =>
      dsimp only
      cases hthere : pfx.kind? target with
      | none =>
        dsimp only
        have hleaf := @installLeaf_rule sys template pfx target.dropLast (target.getLast?.getD []) node (htarget.symm ▸ hx)
          (htarget.symm ▸ hlast) (htarget.symm ▸ hthere)
        rw [htarget] at hleaf
        exact ⟨hleaf.1, fun pfx' hok ↦ .inr (hleaf.2 pfx' hok)⟩
      | some there =>
        dsimp only
        -- What is there stays: the profile is the user's own, anything else has to hold the same text.
        split_ifs with huser
        · refine ⟨Walks.refl _ _, fun pfx' hok ↦ .inr (.inr ⟨huser, ?_⟩)⟩
          obtain rfl := Except.ok.inj hok
          rw [hthere]
          exact Option.some_ne_none _
        · split
          · rename_i text made
            split_ifs with hsame
            · refine ⟨Walks.refl _ _, fun pfx' hok ↦ .inr (.inl ?_)⟩
              obtain rfl := Except.ok.inj hok
              exact ⟨_, hthere, made, rfl, hsame.symm⟩
            · exact ⟨Walks.refl _ _, fun _ h ↦ h.elim⟩
          · exact ⟨Walks.refl _ _, fun _ h ↦ (by cases h)⟩

theorem installEntry_visitRule (sys : Sys) (template : Item) :
    VisitRule (installEntry sys) (fun p x ↦ p ≠ [] ∧ template.Has p x) (Walks sys template) ArrivedOrLast :=
  { refl := Walks.refl template
    trans := fun _ _ _ ↦ Walks.trans
    step := fun _ _ _ hof ↦ (installEntry_rule hof.1 hof.2).1
    done := fun _ _ _ pfx' hof hok ↦ (installEntry_rule hof.1 hof.2).2 pfx' hok
    keep := fun _ _ _ _ hgrows ↦ Or.imp_right fun h ↦ h.grows hgrows.toGrows }

theorem below_template {p : Path} {x : Item} (h : Queue.Below [([], template.inside)] p x) : p ≠ [] ∧ template.Has p x := by
  obtain ⟨path, t, hmem, n, e, q, hn, hq, rfl⟩ := h
  obtain ⟨rfl, rfl⟩ := Prod.mk.inj (List.mem_singleton.mp hmem)
  cases template with
  | leaf a => cases hn
  | folder b inner => exact ⟨List.cons_ne_nil _ _, .inner hn hq⟩

/-- Everything of the template is there but what is linked last. -/
def Complete (template after : Item) : Prop :=
  ∀ name q x, template.Has (name :: q) x → name ≠ systemReg → name ≠ updateTimestamp → Arrived (name :: q) x after

/-- The walk. -/
theorem walk_seed (sys : Sys) (template pfx : Item) :
    let after := walk (allow (enterFolder sys)) (fun path ↦ !isLast path) (installEntry sys) [([], template.inside)] pfx
    Walks sys template pfx (stateOf after) ∧ ∀ pfx', after = .ok pfx' → Complete template pfx' := by
  have hrule := installEntry_visitRule sys template
  have henter : EnterRule (allow (enterFolder sys)) (Walks sys template) ArrivedOrLast := .allow hrule.refl
  refine ⟨walk_rel hrule henter (fun p x ↦ below_template) pfx, ?_⟩
  intro pfx' hok name q x hx hsystem htime
  have hlast : ∀ r, isLast (name :: r) = false := by
    intro r
    simp [isLast, hsystem, htime]
  cases hx with
  | inner hmem hx =>
    have hdone := walk_done hrule henter (fun p x ↦ below_template) hok [] _ (List.mem_singleton_self _) name _ q x hmem hx
      fun r _ _ ↦ by rw [List.nil_append, hlast]; rfl
    rw [List.nil_append, ArrivedOrLast, hlast] at hdone
    exact hdone.resolve_left Bool.false_ne_true

/-! ## A bare prefix -/

theorem prefixIsBare_nodes {record : Bytes} (h : prefixIsBare sys record pfx = true) {q : Path} {x : Item} (hne : q ≠ [])
    (hx : pfx.Has q x) : isBareNode record q x = true := by
  have hrule : VisitRule (bareEntry record) (fun _ _ ↦ True) (fun _ _ ↦ True) fun p node _ ↦ isBareNode record p node = true := by
    refine ⟨fun _ ↦ trivial, fun _ _ _ _ _ ↦ trivial, fun _ _ _ _ ↦ trivial, ?_, fun _ _ _ _ _ h ↦ h⟩
    intro p node s s' _ hok
    rw [bareEntry] at hok
    split_ifs at hok with hbare
    exact hbare
  cases hx with
  | here => exact absurd rfl hne
  | inner hmem hx =>
    rw [prefixIsBare] at h
    split at h
    · rename_i s hok
      have hdone := walk_done hrule (.allow hrule.refl) (fun _ _ _ ↦ trivial) hok [] _ (List.mem_singleton_self _) _ _ _ x hmem hx fun _ _ _ ↦ rfl
      rwa [List.nil_append] at hdone
    · cases h

/-- At the top of a bare prefix every name starts with the same letter. -/
theorem isBareNode_head {record name : Bytes} {x : Item} (h : isBareNode record [name] x = true) : name.head? = some 100 := by
  -- Every path the check knows of starts with `/d`.
  have hstart : ∀ s : Bytes, s.take 2 = [47, 100] → ∀ r, r.head? ≠ some 100 → s = pathText [name] ++ r → name.head? = some 100 := by
    rintro s hs r hr rfl
    cases name with
    | nil =>
      cases r with
      | nil => cases hs
      | cons c r =>
        obtain ⟨-, hc⟩ := List.cons.inj hs
        exact absurd (congrArg some (List.cons.inj hc).1) hr
    | cons c name =>
      obtain ⟨-, hc⟩ := List.cons.inj hs
      exact congrArg some (List.cons.inj hc).1
  have huser : inSteamuser [name] = true → name.head? = some 100 := by
    intro hin
    obtain ⟨r, hr⟩ := List.isPrefixOf_iff_prefix.mp hin
    exact hstart _ (by rw [← hr]; rfl) [] (Option.some_ne_none _).symm (List.append_nil _).symm
  cases x with
  | leaf node =>
    cases node with
    | file inode => exact huser h
    | special inode => cases h
    | link text =>
      obtain hdrive | hknown := Bool.or_eq_true_iff.mp h
      · have hpath := of_decide_eq_true (Bool.and_eq_true_iff.mp hdrive).1
        exact hstart _ (by rw [hpath]; rfl) [] (Option.some_ne_none _).symm (List.append_nil _).symm
      · have hall : ∀ s ∈ knownLinks, s.take 2 = [47, 100] := by decide
        exact hstart _ (hall _ (List.contains_iff_mem.mp hknown)) (58 :: commandOutput text) (by simp) rfl
  | folder b inner =>
    obtain hfolder | hin := Bool.or_eq_true_iff.mp h
    · have hall : ∀ s ∈ [ascii "/drive_c", ascii "/drive_c/users", ascii "/drive_c/users/steamuser", ascii "/dosdevices"],
          s.take 2 = [47, 100] := by decide
      exact hstart _ (hall _ (List.contains_iff_mem.mp hfolder)) [] (Option.some_ne_none _).symm (List.append_nil _).symm
    · exact huser hin

theorem prefixIsBare_top {record name : Bytes} (h : prefixIsBare sys record pfx = true) (hname : name.head? ≠ some 100) :
    pfx.kind? [name] = none := by
  rw [Entry.kind?, Option.map_eq_none_iff]
  by_contra hsome
  obtain ⟨x, hx⟩ := Option.ne_none_iff_exists'.mp hsome
  exact hname (isBareNode_head (prefixIsBare_nodes h (List.cons_ne_nil _ _) (Entry.has_of_find? hx)))

theorem prefixIsBare_folder {record : Bytes} (h : prefixIsBare sys record pfx = true) : pfx.kind? [] = some (.inr ()) := by
  cases pfx with
  | leaf a => cases h
  | folder b inner => rfl

/-! ## The two files at the end -/

theorem fileAt_placed {name : Bytes} {node : Node} (hlast : isLast [name] = true) (h : fileAt sys name template = some node) :
    ∃ x, template.Has [name] x ∧ Placed sys [name] x (.inl node) := by
  unfold fileAt at h
  have hhas : ∀ node', template.kind? [name] = some (.inl node') → template.Has [name] (.leaf node') := by
    intro node' hkind
    obtain ⟨x, hx, hkind⟩ := Option.map_eq_some_iff.mp hkind
    cases x with
    | leaf a =>
      obtain rfl := Sum.inl.inj hkind
      exact Entry.has_of_find? hx
    | folder b inner => cases hkind
  split at h
  · rename_i text hkind
    refine ⟨_, hhas _ hkind, ?_⟩
    rw [Placed, hlast, if_pos rfl, h]
    rfl
  · rename_i node' hlink hkind
    obtain rfl := Option.some.inj h
    refine ⟨_, hhas _ hkind, ?_⟩
    cases node' with
    | file inode => rfl
    | special inode => rfl
    | link text => exact absurd rfl (hlink text)
  · cases h

theorem linkFile_rule {name : Bytes} (hlast : isLast [name] = true) (hroot : pfx.kind? [] = some (.inr ()))
    (hnone : pfx.kind? [name] = none) (h : linkFile sys name (fileAt sys name template) pfx = some after) :
    Grows sys template pfx after ∧
      ∃ node, fileAt sys name template = some node ∧ ∀ q, after.kind? q = if q = [name] then some (.inl node) else pfx.kind? q := by
  rw [linkFile, Option.bind_eq_some_iff] at h
  obtain ⟨node, hnode, h⟩ := h
  rw [hnone] at h
  dsimp only at h
  split_ifs at h
  obtain rfl := Option.some.inj h
  obtain ⟨x, hx, hplaced⟩ := fileAt_placed hlast hnode
  refine ⟨grows_put rfl hnone hx hplaced, node, hnode, ?_⟩
  intro q
  rw [kind?_put rfl hnone q, hroot]
  simp [Entry.kind]

theorem commit_rule (hroot : pfx.kind? [] = some (.inr ())) (hsystem : pfx.kind? [systemReg] = none)
    (htime : pfx.kind? [updateTimestamp] = none) :
    Grows sys template pfx (stateOf (commit sys template pfx)) ∧
      ((stateOf (commit sys template pfx)).kind? [updateTimestamp] ≠ none → ∃ pfx', commit sys template pfx = .ok pfx') ∧
      ∀ pfx', commit sys template pfx = .ok pfx' →
        (∃ node, fileAt sys systemReg template = some node ∧ pfx'.kind? [systemReg] = some (.inl node)) ∧
        (isFile (fileAt sys updateTimestamp template) = true →
          pfx'.kind? [updateTimestamp] = (fileAt sys updateTimestamp template).map .inl) := by
  have hapart : [updateTimestamp] ≠ [systemReg] := by decide
  unfold commit
  cases hfirst : linkFile sys systemReg (fileAt sys systemReg template) pfx with
  | none => exact ⟨Grows.refl _ _, fun h ↦ absurd htime h, fun _ h ↦ (by cases h)⟩
  | some first =>
    obtain ⟨hgrows, node, hnode, hkinds⟩ := linkFile_rule rfl hroot hsystem hfirst
    have hfirstSystem : first.kind? [systemReg] = some (.inl node) := by rw [hkinds, if_pos rfl]
    have hfirstTime : first.kind? [updateTimestamp] = none := by rw [hkinds, if_neg hapart, htime]
    have hfirstRoot : first.kind? [] = some (.inr ()) := hgrows.kept _ _ hroot
    dsimp only
    by_cases hsame : (!isLink (first.kind? [systemReg]) && (fileAt sys systemReg template).map Sum.inl = first.kind? [systemReg]) = true
    · rw [if_pos hsame]
      -- The timestamp comes last, and only if the template has one.
      by_cases hfile : isFile (fileAt sys updateTimestamp template) = true
      · rw [if_pos hfile]
        cases hsecond : linkFile sys updateTimestamp (fileAt sys updateTimestamp template) first with
        | none => exact ⟨hgrows, fun h ↦ absurd hfirstTime h, fun _ h ↦ (by cases h)⟩
        | some second =>
          obtain ⟨hgrows', node', hnode', hkinds'⟩ := linkFile_rule rfl hfirstRoot hfirstTime hsecond
          refine ⟨hgrows.trans hgrows', fun _ ↦ ⟨second, rfl⟩, ?_⟩
          intro pfx' hok
          obtain rfl := Except.ok.inj hok
          refine ⟨⟨node, hnode, by rw [hkinds', if_neg hapart.symm, hfirstSystem]⟩, fun _ ↦ ?_⟩
          rw [hkinds', if_pos rfl, hnode']
          rfl
      · rw [if_neg hfile]
        refine ⟨hgrows, fun _ ↦ ⟨first, rfl⟩, ?_⟩
        intro pfx' hok
        obtain rfl := Except.ok.inj hok
        exact ⟨⟨node, hnode, hfirstSystem⟩, fun h ↦ absurd h hfile⟩
    · rw [if_neg hsame]
      exact ⟨hgrows, fun h ↦ absurd hfirstTime h, fun _ h ↦ (by cases h)⟩

/-! ## The whole of it -/

/-- No name stands twice in a folder. -/
def NamesApart (e : Item) : Prop := ∀ p b t, e.Has p (.folder b t) → (t.toList.map Prod.fst).Nodup

theorem NamesApart.unique {e x y : Item} {q : Path} (h : NamesApart e) (hx : e.Has q x) (hy : e.Has q y) : x = y := by
  induction hx with
  | here =>
    cases hy
    rfl
  | inner hmem hx ih =>
    cases hy with
    | inner hmem' hy =>
      have hsame := List.inj_on_of_nodup_map (h [] _ _ (.here _)) hmem hmem' rfl
      obtain rfl := (Prod.mk.inj hsame).2
      exact ih (fun p b t hp ↦ h (_ :: p) b t (.inner hmem hp)) hy

/-- The entry of the template is in the prefix, or the prefix still has its own in its user's folder. -/
def InPlace (before : Item) (q : Path) (x after : Item) : Prop :=
  match x with
  | .folder _ _ => after.kind? q = some (.inr ())
  | .leaf node =>
    (∃ there, after.kind? q = some (.inl there) ∧ match node with
      | .link text => ∃ made, there = .link made ∧ commandOutput made = commandOutput text
      | node => there = node) ∨
    inSteamuser q = true ∧ before.kind? q ≠ none ∧ after.kind? q = before.kind? q

theorem Arrived.inPlace {q : Path} {x : Item} (h : Arrived q x after) (hapart : NamesApart template)
    (hgrows : Grows sys template before after) (hx : template.Has q x) (hlast : isLast q = false) : InPlace before q x after := by
  cases x with
  | folder b inner => exact h
  | leaf node =>
    obtain hthere | ⟨huser, hsome⟩ := h
    · exact .inl hthere
    · cases hbefore : before.kind? q with
      | some kind => exact .inr ⟨huser, by rw [hbefore]; exact Option.some_ne_none _, by rw [hgrows.kept q kind hbefore, hbefore]⟩
      | none =>
        -- what is new there is this entry of the template
        obtain ⟨kind, hkind⟩ := Option.ne_none_iff_exists'.mp hsome
        obtain ⟨y, hy, hplaced⟩ := hgrows.fresh q kind hbefore hkind
        obtain rfl := hapart.unique hx hy
        cases node with
        | file inode =>
          obtain rfl : kind = .inl (.file inode) := hplaced
          exact .inl ⟨_, hkind, rfl⟩
        | special inode =>
          obtain rfl : kind = .inl (.special inode) := hplaced
          exact .inl ⟨_, hkind, rfl⟩
        | link text =>
          rw [Placed, hlast, if_neg Bool.false_ne_true] at hplaced
          rw [hplaced] at hkind
          exact .inl ⟨_, hkind, _, rfl, commandOutput_idem text⟩

/-- Every entry of the template is in place but the two that are linked last, and what would be below them. -/
def AllInPlace (template before after : Item) : Prop :=
  ∀ name q x, template.Has (name :: q) x → name ≠ systemReg → name ≠ updateTimestamp → InPlace before (name :: q) x after

/-- Whatever fails, nothing the prefix had changes and all that is new is the template's, though it may be a part of it; a
success leaves everything in place; `system.reg` comes only when all else is there, and the timestamp only with success. -/
theorem copyTemplateIntoPrefix_spec (sys : Sys) (record : Bytes) (copied : Bool) (template pfx : Item) (hapart : NamesApart template) :
    let after := copyTemplateIntoPrefix sys record copied template pfx
    Grows sys template pfx (stateOf after) ∧
      (∀ pfx', after = .ok pfx' → AllInPlace template pfx pfx' ∧
        (∃ node, fileAt sys systemReg template = some node ∧ pfx'.kind? [systemReg] = some (.inl node)) ∧
        (isFile (fileAt sys updateTimestamp template) = true →
          pfx'.kind? [updateTimestamp] = (fileAt sys updateTimestamp template).map .inl)) ∧
      ((stateOf after).kind? [systemReg] ≠ none → pfx.kind? [systemReg] = none → AllInPlace template pfx (stateOf after)) ∧
      ((stateOf after).kind? [updateTimestamp] ≠ none → pfx.kind? [updateTimestamp] = none → ∃ pfx', after = .ok pfx') := by
  intro after
  by_cases hgo : (copied && prefixIsBare sys record pfx) = true
  · have hafter : after = installSeedTree sys template pfx := if_pos hgo
    have hbare := (Bool.and_eq_true_iff.mp hgo).2
    have hsystem : pfx.kind? [systemReg] = none := prefixIsBare_top hbare (by decide)
    have htime : pfx.kind? [updateTimestamp] = none := prefixIsBare_top hbare (by decide)
    obtain ⟨hwalk, hcomplete⟩ := walk_seed sys template pfx
    rw [hafter, installSeedTree]
    cases hwalked : walk (allow (enterFolder sys)) (fun path ↦ !isLast path) (installEntry sys) [([], template.inside)] pfx with
    | error broken =>
      rw [hwalked] at hwalk
      refine ⟨hwalk.toGrows, fun _ h ↦ (by cases h), fun h ↦ ?_, fun h ↦ ?_⟩
      · exact absurd ((hwalk.last [systemReg] rfl).trans hsystem) h
      · exact absurd ((hwalk.last [updateTimestamp] rfl).trans htime) h
    | ok walked =>
      rw [hwalked] at hwalk
      -- The walk brought all but the last two files, which are committed in their order.
      have hroot : walked.kind? [] = some (.inr ()) := hwalk.kept _ _ (prefixIsBare_folder hbare)
      obtain ⟨hgrows, hstamp, hok⟩ := @commit_rule sys template walked hroot ((hwalk.last [systemReg] rfl).trans hsystem)
        ((hwalk.last [updateTimestamp] rfl).trans htime)
      have hall : AllInPlace template pfx (stateOf (commit sys template walked)) := by
        intro name q x hx hname hname'
        have harrived := (hcomplete walked hwalked name q x hx hname hname').grows hgrows
        exact harrived.inPlace hapart (hwalk.toGrows.trans hgrows) hx (by simp [isLast, hname, hname'])
      refine ⟨hwalk.toGrows.trans hgrows, ?_, fun _ _ ↦ hall, fun h _ ↦ hstamp h⟩
      intro pfx' hdone
      have hdone' : commit sys template walked = .ok pfx' := hdone
      rw [hdone'] at hall
      exact ⟨hall, hok pfx' hdone'⟩
  · have hafter : after = .error pfx := if_neg hgo
    rw [hafter]
    refine ⟨Grows.refl _ _, fun _ h ↦ (by cases h), fun h h' ↦ absurd h' h, fun h h' ↦ absurd h' h⟩

def allWork : Sys := ⟨fun _ ↦ true, fun _ ↦ true, fun _ ↦ true, fun _ ↦ true, fun _ ↦ true, fun _ ↦ none⟩

/-- A folder and `system.reg`. -/
def smallTemplate : Item := .folder () (.folder (ascii "drive_c") () .done (.leaf systemReg (.file 7) .done))

theorem smallTemplate_apart : NamesApart smallTemplate := by
  intro p b t hp
  cases hp with
  | here => decide
  | inner hmem hp =>
    simp only [FolderTree.toList, List.mem_cons, List.not_mem_nil, or_false] at hmem
    obtain heq | heq := hmem
    · cases heq
      cases hp with
      | here => exact List.nodup_nil
      | inner hmem _ => cases hmem
    · cases heq
      cases hp

/-- The prefix with the folder, before `system.reg` is linked. -/
def seededFolder : Item := put [] (ascii "drive_c") newFolder newFolder

theorem smallTemplate_seeded :
    copyTemplateIntoPrefix allWork [] true smallTemplate newFolder = .ok (put [] systemReg (.leaf (.file 7)) seededFolder) := by
  have hbare : prefixIsBare allWork [] newFolder = true := by
    have hwalk : walk (allow fun path _ ↦ allWork.directoryReadable path) (fun _ ↦ true) (bareEntry []) [([], .done)] () = .ok () := by
      have henter : allWork.directoryReadable [] = true := rfl
      rw [walk, allow, if_pos henter]
      show walk _ _ _ [] () = _
      rw [walk]
    unfold prefixIsBare newFolder
    dsimp only
    rw [hwalk]
  have hfirst : visitAll (installEntry allWork) [] smallTemplate.inside.toList newFolder = .ok seededFolder := rfl
  have hwalk : walk (allow (enterFolder allWork)) (fun path ↦ !isLast path) (installEntry allWork) [([], smallTemplate.inside)] newFolder =
      .ok seededFolder := by
    have henter : enterFolder allWork [] newFolder = true := rfl
    have hagain : enterFolder allWork [ascii "drive_c"] seededFolder = true := by decide
    rw [walk, allow, if_pos henter]
    dsimp only
    rw [hfirst]
    show walk _ _ _ [([ascii "drive_c"], .done)] seededFolder = _
    rw [walk, allow, if_pos hagain]
    show walk _ _ _ [] seededFolder = _
    rw [walk]
  have hgo : (true && prefixIsBare allWork [] newFolder) = true := hbare
  rw [copyTemplateIntoPrefix, if_pos hgo, installSeedTree, hwalk]
  rfl

theorem copyTemplateIntoPrefix_small :
    AllInPlace smallTemplate newFolder (put [] systemReg (.leaf (.file 7)) seededFolder) ∧
      ∃ node, fileAt allWork systemReg smallTemplate = some node ∧
        (put [] systemReg (.leaf (.file 7)) seededFolder).kind? [systemReg] = some (.inl node) :=
  have hspec := (copyTemplateIntoPrefix_spec allWork [] true smallTemplate newFolder smallTemplate_apart).2.1 _ smallTemplate_seeded
  ⟨hspec.1, hspec.2.1⟩

end NotProton.CompatRun.PrefixSeed
