import NotProton.Library.Shell
import NotProton.Library.LittleEndian
import NotProton.Library.Numeral

/-!
# BundleListing — whether two bundles are the same (`appinfo.swift`, `compat_run.sh`)

The helper walks both trees together.  The script makes a text of each, a line for every path, and compares the texts.
`canonical` is what Swift's `==` compares of two strings, and `crc` is what `cksum` computes besides the size.
-/

open NotProton.Library

namespace NotProton.CompatRun

/-- What stands at a path. -/
inductive TreeNode
  | file (mode : Nat) (content : Bytes)
  | link (target : Bytes)
  | folder
  deriving DecidableEq

/-- The entries of a folder, each with the entries in it: there are none unless it is a folder. -/
inductive Entries
  | done
  | item (name : Bytes) (node : TreeNode) (inner rest : Entries)

namespace Entries

def names : Entries → List Bytes
  | done => []
  | item name _ _ rest => name :: rest.names

def find (name : Bytes) : Entries → Option (TreeNode × Entries)
  | done => none
  | item name' node inner rest => if name = name' then some (node, inner) else rest.find name

/-- What stands at a path, by its names. -/
def at? : List Bytes → Entries → Option TreeNode
  | [], _ => some .folder
  | name :: p, es =>
      match es.find name with
      | none => none
      | some (node, inner) => if node = .folder then inner.at? p else if p = [] then some node else none

/-- The paths below a folder. -/
def nodes : Entries → List (List Bytes × TreeNode)
  | done => []
  | item name node inner rest =>
      ([name], node) :: (inner.nodes.map fun x ↦ (name :: x.1, x.2)) ++ rest.nodes

/-- What `contentsOfDirectory` returns of a tree, which leaves out the names that start with `._`. -/
def shown : Entries → Entries
  | done => done
  | item name node inner rest =>
      if [46, 95] <+: name then rest.shown else item name node inner.shown rest.shown

/-- A name of a file system, without a newline, and so the target of a link. -/
def WellFormed : Entries → Prop
  | done => True
  | item name node inner rest =>
      (name ≠ [] ∧ 47 ∉ name ∧ 10 ∉ name) ∧ name ∉ rest.names ∧ (∀ target, node = .link target → 10 ∉ target) ∧
        (node ≠ .folder → inner = .done) ∧ inner.WellFormed ∧ rest.WellFormed

end Entries

/-- A bundle's folder. -/
structure Bundle where
  entries : Entries
  well_formed : entries.WellFormed

/-! ## The helper -/

section

variable (canonical : Bytes → Bytes)

/-- The kinds, and what `sameBundle` compares of a link and of a file. -/
def sameAttributes : TreeNode → TreeNode → Bool
  | .link target, .link target' => canonical target == canonical target'
  | .folder, .folder => true
  | .file mode content, .file mode' content' => mode == mode' && content == content'
  | _, _ => false

def sameNames (a b : Entries) : Bool := a.names.toFinset == b.names.toFinset

/-- The loop over the names of a folder. -/
def sameEntries : Entries → Entries → Bool
  | .done, _ => true
  | .item name node inner rest, other =>
      (match other.find name with
        | none => false
        | some (node', inner') =>
            if sameAttributes canonical node node' = false then false
            else if node = .folder then sameNames inner inner' && sameEntries inner inner'
            else true) && sameEntries rest other

def sameBundle (a b : Bundle) : Bool :=
  sameNames a.entries.shown b.entries.shown && sameEntries canonical a.entries.shown b.entries.shown

end

/-! ## The script -/

def octal (n : Nat) : Bytes := (Nat.toDigits 8 n).map fun c ↦ UInt8.ofNat c.toNat

/-- A path as `find .` prints it. -/
def pathText (p : List Bytes) : Bytes := 46 :: p.flatMap fun name ↦ 47 :: name

/-- `LC_ALL=C sort` -/
def PathLe (x y : List Bytes × TreeNode) : Prop := (pathText x.1).map UInt8.toNat ≤ (pathText y.1).map UInt8.toNat

instance : DecidableRel PathLe := fun x y ↦
  inferInstanceAs (Decidable ((pathText x.1).map UInt8.toNat ≤ (pathText y.1).map UInt8.toNat))

/-- What `find . | sort` prints, with what stands there. -/
def sortedPaths (b : Bundle) : List (List Bytes × TreeNode) := (([], .folder) :: b.entries.nodes).insertionSort PathLe

section

variable (canonical : Bytes → Bytes) (crc : Bytes → Nat)

/-- A line of the listing; `%Lp` is the lower nine bits of the mode. -/
def listingLine (x : List Bytes × TreeNode) : Bytes :=
  match x.2 with
  | .link target => ascii "l " ++ pathText x.1 ++ 32 :: commandOutput (target ++ [10])
  | .folder => ascii "d " ++ pathText x.1
  | .file mode content =>
      ascii "f " ++ pathText x.1 ++
        32 :: (octal (mode % 512) ++ 32 :: (decimal (crc content) ++ 32 :: decimal content.length))

def bundleListing (b : Bundle) : Bytes :=
  commandOutput ((sortedPaths b).flatMap fun x ↦ listingLine crc x ++ [10])

/-- `bundle_matches`, with or without the helper; every file can be read, so the helper answers. -/
def bundleMatches (installed : Bool) (a b : Bundle) : Bool :=
  if installed then sameBundle canonical a b else bundleListing crc a == bundleListing crc b

end

/-! ## The same tree -/

/-- The same paths, and at each the same kind, target, permissions and content. -/
def Same (a b : Bundle) : Prop := ∀ p, a.entries.at? p = b.entries.at? p

/-- A node but for how its target is written. -/
def TreeNode.canon (canonical : Bytes → Bytes) : TreeNode → TreeNode
  | .link target => .link (canonical target)
  | .file mode content => .file mode content
  | .folder => .folder

/-- A path without a `._` name. -/
def Shown (p : List Bytes) : Prop := ∀ name ∈ p, ¬[46, 95] <+: name

instance (p : List Bytes) : Decidable (Shown p) := inferInstanceAs (Decidable (∀ name ∈ p, _))

/-- The same but for `._` names, and for how targets are written. -/
def SameUpToTargets (canonical : Bytes → Bytes) (a b : Bundle) : Prop :=
  ∀ p, Shown p →
    (a.entries.at? p).map (TreeNode.canon canonical) = (b.entries.at? p).map (TreeNode.canon canonical)

/-- The same but for the three bits above the permissions, and for where a link's path ends and its target begins. -/
def Alike (x y : List Bytes × TreeNode) : Prop :=
  match x.2, y.2 with
  | .folder, .folder => x.1 = y.1
  | .file mode content, .file mode' content' => x.1 = y.1 ∧ mode % 512 = mode' % 512 ∧ content = content'
  | .link target, .link target' => pathText x.1 ++ 32 :: target = pathText y.1 ++ 32 :: target'
  | _, _ => False

/-- Path for path in the order of their texts. -/
def SameUpToLines (a b : Bundle) : Prop := List.Forall₂ Alike (sortedPaths a) (sortedPaths b)

/-! ## Trees by their paths -/

namespace Entries

theorem find_of_notMem {name : Bytes} {es : Entries} (h : name ∉ es.names) : es.find name = none := by
  induction es with
  | done => rfl
  | item name' node inner rest _ ih =>
    rw [names, List.mem_cons, not_or] at h
    rw [find, if_neg h.1]
    exact ih h.2

theorem at?_singleton {name : Bytes} {es : Entries} : es.at? [name] ≠ none ↔ name ∈ es.names := by
  induction es with
  | done => exact iff_of_false (fun h ↦ h rfl) List.not_mem_nil
  | item name' node inner rest _ ih =>
    rw [at?, find, names, List.mem_cons]
    by_cases hname : name = name'
    · rw [if_pos hname]
      apply iff_of_true ?_ (.inl hname)
      show (if node = .folder then inner.at? [] else if [] = [] then some node else none) ≠ none
      rw [if_pos rfl]
      split <;> nofun
    · rw [if_neg hname, or_iff_right hname]
      exact ih

theorem at?_of_notMem {name : Bytes} {es : Entries} (h : name ∉ es.names) (p : List Bytes) :
    es.at? (name :: p) = none := by
  rw [at?, find_of_notMem h]

theorem at?_rest {name name' : Bytes} {node : TreeNode} {inner rest : Entries} (h : name' ≠ name) (p : List Bytes) :
    (item name node inner rest).at? (name' :: p) = rest.at? (name' :: p) := by
  rw [at?, at?, find, if_neg h]

theorem at?_self {name : Bytes} {node : TreeNode} {inner rest : Entries} (p : List Bytes) :
    (item name node inner rest).at? (name :: p) =
      if node = .folder then inner.at? p else if p = [] then some node else none := by
  rw [at?, find, if_pos rfl]

theorem mem_names_shown {name : Bytes} {es : Entries} (h : name ∈ es.shown.names) : name ∈ es.names := by
  induction es with
  | done => exact h
  | item name' node inner rest _ ih =>
    rw [shown] at h
    rw [names, List.mem_cons]
    split at h
    · exact .inr (ih h)
    · rw [names, List.mem_cons] at h
      exact h.imp_right ih

theorem WellFormed.shown {es : Entries} (h : es.WellFormed) : es.shown.WellFormed := by
  induction es with
  | done => trivial
  | item name node inner rest ihinner ihrest =>
    obtain ⟨hname, hfresh, htarget, hleaf, hinner, hrest⟩ := h
    rw [Entries.shown]
    split
    · exact ihrest hrest
    · refine ⟨hname, fun hmem ↦ hfresh (mem_names_shown hmem), htarget, fun hnode ↦ ?_, ihinner hinner, ihrest hrest⟩
      rw [hleaf hnode, Entries.shown]

/-- What is shown stands where it stood, and the rest is gone. -/
theorem at?_shown (es : Entries) (p : List Bytes) : es.shown.at? p = if Shown p then es.at? p else none := by
  have hnil : Shown [] := fun name h ↦ absurd h List.not_mem_nil
  have hcons : ∀ name p, Shown (name :: p) ↔ ¬[46, 95] <+: name ∧ Shown p := fun name p ↦ List.forall_mem_cons
  induction es generalizing p with
  | done =>
    cases p with
    | nil => rw [if_pos hnil, shown]
    | cons name p =>
      rw [shown]
      split <;> rfl
  | item name node inner rest ihinner ihrest =>
    cases p with
    | nil =>
      rw [if_pos hnil, at?]
      cases (item name node inner rest).shown <;> rfl
    | cons name' p =>
      rw [shown]
      -- A hidden name goes with all that is in it.
      by_cases hhidden : [46, 95] <+: name
      · rw [if_pos hhidden, ihrest]
        by_cases hshown : Shown (name' :: p)
        · have hne : name' ≠ name := fun e ↦ ((hcons name' p).mp hshown).1 (e ▸ hhidden)
          rw [if_pos hshown, if_pos hshown, at?_rest hne]
        · rw [if_neg hshown, if_neg hshown]
      · rw [if_neg hhidden]
        by_cases hname : name' = name
        · subst hname
          simp only [at?_self, ihinner, hcons, hhidden, not_false_eq_true, true_and]
          by_cases hshown : Shown p
          · simp only [if_pos hshown]
          · have hp : p ≠ [] := by
              rintro rfl
              exact hshown hnil
            simp only [if_neg hshown, if_neg hp, ite_self]
        · rw [at?_rest hname, at?_rest hname, ihrest]

end Entries

/-! ## What the helper answers -/

section

variable {canonical : Bytes → Bytes}

theorem sameAttributes_iff {node node' : TreeNode} :
    sameAttributes canonical node node' = true ↔ node.canon canonical = node'.canon canonical := by
  cases node <;> cases node' <;> simp [sameAttributes, TreeNode.canon]

theorem canon_eq_folder {node : TreeNode} : node.canon canonical = .folder ↔ node = .folder := by
  cases node <;> simp [TreeNode.canon]

/-- Two folders hold the same up to targets when they have the same names, and the same under each. -/
theorem at?_eq_iff {es other : Entries} :
    (∀ p, (es.at? p).map (TreeNode.canon canonical) = (other.at? p).map (TreeNode.canon canonical)) ↔
      sameNames es other = true ∧
        ∀ name ∈ es.names, ∀ p,
          (es.at? (name :: p)).map (TreeNode.canon canonical) =
            (other.at? (name :: p)).map (TreeNode.canon canonical) := by
  have hmem : sameNames es other = true ↔ ∀ name, name ∈ es.names ↔ name ∈ other.names := by
    rw [sameNames, beq_iff_eq, Finset.ext_iff]
    simp only [List.mem_toFinset]
  rw [hmem]
  apply Iff.intro
  · intro h
    refine ⟨fun name ↦ ?_, fun name _ p ↦ h (name :: p)⟩
    have hone := h [name]
    rw [← Entries.at?_singleton, ← Entries.at?_singleton, ne_eq, ne_eq, not_iff_not, ← Option.map_eq_none_iff, hone,
      Option.map_eq_none_iff]
  · intro h p
    cases p with
    | nil => rfl
    | cons name p =>
      by_cases hname : name ∈ es.names
      · exact h.2 name hname p
      · rw [Entries.at?_of_notMem hname, Entries.at?_of_notMem fun hother ↦ hname ((h.1 name).mpr hother)]

theorem self_node (node : TreeNode) (es : Entries) :
    (if node = .folder then es.at? [] else if ([] : List Bytes) = [] then some node else none) = some node := by
  by_cases hfolder : node = .folder
  · rw [if_pos hfolder, hfolder]
    rfl
  · rw [if_neg hfolder, if_pos rfl]

/-- One entry against what stands under its name on the other side. -/
theorem sameItem_iff {node node' : TreeNode} {inner inner' : Entries}
    (hinner : sameEntries canonical inner inner' = true ↔ ∀ name ∈ inner.names, ∀ p,
      (inner.at? (name :: p)).map (TreeNode.canon canonical) =
        (inner'.at? (name :: p)).map (TreeNode.canon canonical)) :
    (if sameAttributes canonical node node' = false then false
      else if node = .folder then sameNames inner inner' && sameEntries canonical inner inner' else true) = true ↔
      ∀ p : List Bytes,
        (if node = .folder then inner.at? p else if p = [] then some node else none).map (TreeNode.canon canonical) =
          (if node' = .folder then inner'.at? p else if p = [] then some node' else none).map
            (TreeNode.canon canonical) := by
  cases hattributes : sameAttributes canonical node node' with
  | false =>
    rw [if_pos rfl]
    apply iff_of_false nofun
    intro h
    -- At the path of the entry itself the two nodes are compared.
    have hcanon := h []
    rw [self_node, self_node, Option.map_some, Option.map_some, Option.some.injEq] at hcanon
    rw [sameAttributes_iff.mpr hcanon] at hattributes
    cases hattributes
  | true =>
    have hcanon := sameAttributes_iff.mp hattributes
    have hfolder : node = .folder ↔ node' = .folder := by
      rw [← @canon_eq_folder canonical node, hcanon, canon_eq_folder]
    rw [if_neg (by decide)]
    by_cases hnode : node = .folder
    · simp only [if_pos hnode, if_pos (hfolder.mp hnode)]
      rw [Bool.and_eq_true, hinner, ← at?_eq_iff]
    · simp only [if_neg hnode, if_neg (mt hfolder.mpr hnode)]
      apply iff_of_true trivial
      intro p
      by_cases hp : p = []
      · rw [if_pos hp, if_pos hp, Option.map_some, Option.map_some, hcanon]
      · rw [if_neg hp, if_neg hp]

theorem sameEntries_iff {es other : Entries} (hes : es.WellFormed) :
    sameEntries canonical es other = true ↔ ∀ name ∈ es.names, ∀ p,
      (es.at? (name :: p)).map (TreeNode.canon canonical) = (other.at? (name :: p)).map (TreeNode.canon canonical) := by
  induction es generalizing other with
  | done => exact iff_of_true rfl nofun
  | item name node inner rest ihinner ihrest =>
    obtain ⟨-, hfresh, -, -, hwfinner, hwfrest⟩ := hes
    have hrest : (∀ name' ∈ rest.names, ∀ p,
        ((Entries.item name node inner rest).at? (name' :: p)).map (TreeNode.canon canonical) =
          (other.at? (name' :: p)).map (TreeNode.canon canonical)) ↔ sameEntries canonical rest other = true := by
      rw [ihrest hwfrest]
      apply forall₂_congr
      intro name' hname'
      have hne : name' ≠ name := fun he ↦ hfresh (he ▸ hname')
      simp only [Entries.at?_rest hne]
    have hself (p : List Bytes) : (Entries.item name node inner rest).at? (name :: p) =
        if node = .folder then inner.at? p else if p = [] then some node else none := by
      rw [Entries.at?, Entries.find, if_pos rfl]
    rw [Entries.names, List.forall_mem_cons, hrest, sameEntries, Bool.and_eq_true]
    apply and_congr_left
    intro _
    simp only [hself]
    -- A name of the one that the other does not have differs in itself.
    cases hfind : other.find name with
    | none =>
      apply iff_of_false nofun
      intro h
      have hother : other.at? [name] = none := by rw [Entries.at?, hfind]
      have hnil := h []
      rw [self_node, hother] at hnil
      cases hnil
    | some found =>
      obtain ⟨node', inner'⟩ := found
      simp only [Entries.at?, hfind]
      exact sameItem_iff (ihinner hwfinner)

theorem sameBundle_iff (a b : Bundle) : sameBundle canonical a b = true ↔ SameUpToTargets canonical a b := by
  rw [sameBundle, Bool.and_eq_true, sameEntries_iff a.well_formed.shown, ← at?_eq_iff, SameUpToTargets]
  apply forall_congr'
  intro p
  rw [Entries.at?_shown, Entries.at?_shown]
  by_cases hp : Shown p
  · rw [if_pos hp, if_pos hp]
    exact ⟨fun h _ ↦ h, fun h ↦ h hp⟩
  · rw [if_neg hp, if_neg hp]
    exact iff_of_true rfl fun h ↦ absurd h hp

end

/-! ## The paths -/

namespace Entries

theorem mem_nodes {es : Entries} (h : es.WellFormed) {p : List Bytes} {x : TreeNode} :
    (p, x) ∈ es.nodes ↔ p ≠ [] ∧ es.at? p = some x := by
  induction es generalizing p with
  | done =>
    apply iff_of_false List.not_mem_nil
    rintro ⟨hp, hat⟩
    cases p with
    | nil => exact hp rfl
    | cons name p => cases hat
  | item name node inner rest ihinner ihrest =>
    obtain ⟨-, hfresh, -, hleaf, hwfinner, hwfrest⟩ := h
    rw [nodes, List.mem_append, List.mem_cons, List.mem_map, ihrest hwfrest]
    cases p with
    | nil => simp
    | cons name' p =>
      -- A path goes into the first entry or into the others, by its first name.
      by_cases hname : name' = name
      · subst hname
        have hself : (item name' node inner rest).at? (name' :: p) =
            if node = .folder then inner.at? p else if p = [] then some node else none := by
          rw [at?, find, if_pos rfl]
        have hinner : (∃ a ∈ inner.nodes, (name' :: a.1, a.2) = (name' :: p, x)) ↔ p ≠ [] ∧ inner.at? p = some x := by
          rw [← ihinner hwfinner]
          simp
        rw [at?_of_notMem hfresh, hinner, hself]
        by_cases hnode : node = .folder
        · rw [if_pos hnode]
          by_cases hp : p = []
          · subst hp
            simp [at?, hnode, eq_comm]
          · simp [hp]
        · rw [if_neg hnode, hleaf hnode]
          by_cases hp : p = []
          · subst hp
            simp [eq_comm]
          · obtain ⟨name'', q, rfl⟩ := List.exists_cons_of_ne_nil hp
            simp [at?, find]
      · rw [at?_rest hname]
        simp [hname, Ne.symm hname]

theorem nodup_nodes {es : Entries} (h : es.WellFormed) : es.nodes.Nodup := by
  induction es with
  | done => exact List.nodup_nil
  | item name node inner rest ihinner ihrest =>
    obtain ⟨-, hfresh, -, -, hwfinner, hwfrest⟩ := h
    have hmap : (inner.nodes.map fun x ↦ (name :: x.1, x.2)).Nodup := (ihinner hwfinner).map fun x y hxy ↦ by
      obtain ⟨hp, hx⟩ := Prod.mk.inj hxy
      exact Prod.ext (List.cons.inj hp).2 hx
    rw [nodes]
    apply List.nodup_append'.mpr
    refine ⟨List.nodup_cons.mpr ⟨?_, hmap⟩, ihrest hwfrest, ?_⟩
    · intro hmem
      obtain ⟨⟨p, x⟩, hx, heq⟩ := List.mem_map.mp hmem
      obtain rfl : p = [] := (List.cons.inj (Prod.mk.inj heq).1).2
      exact ((mem_nodes hwfinner).mp hx).1 rfl
    · -- Below the entry every path starts with its name, and no other does.
      intro x hx hxrest
      obtain ⟨p, node'⟩ := x
      have hhead : ∃ q, p = name :: q := by
        obtain hx | hx := List.mem_cons.mp hx
        · exact ⟨[], (Prod.mk.inj hx).1⟩
        · obtain ⟨y, -, heq⟩ := List.mem_map.mp hx
          exact ⟨y.1, (Prod.mk.inj heq).1.symm⟩
      obtain ⟨q, rfl⟩ := hhead
      have hat := ((mem_nodes hwfrest).mp hxrest).2
      rw [at?_of_notMem hfresh] at hat
      cases hat

/-- The names of a path of the tree, without a slash or a newline, and its target. -/
theorem nodes_plain {es : Entries} (h : es.WellFormed) {p : List Bytes} {x : TreeNode} (hx : (p, x) ∈ es.nodes) :
    (∀ name ∈ p, 47 ∉ name ∧ 10 ∉ name) ∧ ∀ target, x = .link target → 10 ∉ target := by
  induction es generalizing p with
  | done => cases hx
  | item name node inner rest ihinner ihrest =>
    obtain ⟨hname, -, htarget, -, hwfinner, hwfrest⟩ := h
    rw [nodes, List.mem_append, List.mem_cons, List.mem_map] at hx
    obtain (hx | ⟨y, hy, heq⟩) | hx := hx
    · obtain ⟨rfl, rfl⟩ := Prod.mk.inj hx
      exact ⟨List.forall_mem_singleton.mpr hname.2, htarget⟩
    · obtain ⟨rfl, rfl⟩ := Prod.mk.inj heq
      have hbelow := ihinner hwfinner hy
      exact ⟨List.forall_mem_cons.mpr ⟨hname.2, hbelow.1⟩, hbelow.2⟩
    · exact ihrest hwfrest hx

end Entries

/-- What `find` finds. -/
def Bundle.found (b : Bundle) : List (List Bytes × TreeNode) := ([], .folder) :: b.entries.nodes

theorem mem_found {b : Bundle} {p : List Bytes} {x : TreeNode} : (p, x) ∈ b.found ↔ b.entries.at? p = some x := by
  rw [Bundle.found, List.mem_cons, Entries.mem_nodes b.well_formed]
  cases p with
  | nil => simp [Entries.at?, eq_comm]
  | cons name p => simp

theorem nodup_found (b : Bundle) : b.found.Nodup := by
  apply List.nodup_cons.mpr
  refine ⟨fun hmem ↦ ?_, Entries.nodup_nodes b.well_formed⟩
  exact ((Entries.mem_nodes b.well_formed).mp hmem).1 rfl

theorem found_plain {b : Bundle} {x : List Bytes × TreeNode} (h : x ∈ b.found) :
    (∀ name ∈ x.1, 47 ∉ name ∧ 10 ∉ name) ∧ ∀ target, x.2 = .link target → 10 ∉ target := by
  obtain rfl | h := List.mem_cons.mp h
  · exact ⟨nofun, nofun⟩
  · exact Entries.nodes_plain b.well_formed h

theorem intercalate_cons (c : UInt8) (s : Bytes) (l : List Bytes) :
    [c].intercalate (s :: l) = s ++ l.flatMap fun t ↦ c :: t := by
  induction l generalizing s with
  | nil => simp [List.intercalate, List.intersperse]
  | cons t l ih =>
    have hrest := ih t
    simp only [List.intercalate] at hrest
    rw [List.intercalate, List.intersperse_cons_cons, List.flatten_cons, List.flatten_cons, hrest, List.flatMap_cons]
    rfl

theorem pathText_eq (p : List Bytes) : pathText p = [47].intercalate ([46] :: p) := (intercalate_cons 47 [46] p).symm

/-- Names without a slash can be read off the text of their path. -/
theorem pathText_inj {p q : List Bytes} (hp : ∀ name ∈ p, 47 ∉ name) (hq : ∀ name ∈ q, 47 ∉ name)
    (h : pathText p = pathText q) : p = q := by
  have hsplit {p : List Bytes} (hp : ∀ name ∈ p, 47 ∉ name) : (pathText p).splitOn 47 = [46] :: p := by
    have hall : ∀ name ∈ [46] :: p, (47 : UInt8) ∉ name := List.forall_mem_cons.mpr ⟨by decide, hp⟩
    rw [pathText_eq, List.splitOn_intercalate 47 hall (List.cons_ne_nil _ _)]
  have hlists := hsplit hp
  rw [h, hsplit hq] at hlists
  exact (List.cons.inj hlists).2.symm

theorem sortedPaths_perm (b : Bundle) : (sortedPaths b).Perm b.found := List.perm_insertionSort PathLe b.found

instance : Std.Total PathLe := ⟨fun x y ↦ le_total ((pathText x.1).map UInt8.toNat) ((pathText y.1).map UInt8.toNat)⟩

instance : IsTrans (List Bytes × TreeNode) PathLe := ⟨fun _ _ _ hxy hyz ↦ le_trans hxy hyz⟩

/-- The order of the listing depends on the tree only. -/
theorem sortedPaths_eq_iff (a b : Bundle) : sortedPaths a = sortedPaths b ↔ Same a b := by
  apply Iff.intro
  · intro h p
    have hmem (x : TreeNode) : a.entries.at? p = some x ↔ b.entries.at? p = some x := by
      rw [← mem_found, ← mem_found, ← (sortedPaths_perm a).mem_iff, ← (sortedPaths_perm b).mem_iff, h]
    exact Option.ext hmem
  · intro hsame
    have hmem : ∀ x, x ∈ a.found ↔ x ∈ b.found := fun x ↦ by rw [mem_found, mem_found, hsame x.1]
    have hperm : a.found.Perm b.found := (List.perm_ext_iff_of_nodup (nodup_found a) (nodup_found b)).mpr hmem
    apply List.Perm.eq_of_pairwise ?_ (List.pairwise_insertionSort PathLe a.found)
      (List.pairwise_insertionSort PathLe b.found) ((sortedPaths_perm a).trans (hperm.trans (sortedPaths_perm b).symm))
    intro x y hx hy hxy hyx
    have hx := (sortedPaths_perm a).mem_iff.mp hx
    have hy := (hmem y).mpr ((sortedPaths_perm b).mem_iff.mp hy)
    have htext : pathText x.1 = pathText y.1 :=
      List.map_injective_iff.mpr (fun _ _ ↦ UInt8.toNat_inj.mp) (le_antisymm hxy hyx)
    have hpath := pathText_inj (fun name hname ↦ ((found_plain hx).1 name hname).1)
      (fun name hname ↦ ((found_plain hy).1 name hname).1) htext
    have hnode := mem_found.mp hx
    rw [hpath, mem_found.mp hy] at hnode
    exact Prod.ext hpath (Option.some.inj hnode).symm

/-! ## The lines -/

/-- A text ends at the first `c`. -/
theorem append_cons_inj {c : UInt8} {s s' t t' : Bytes} (hs : c ∉ s) (hs' : c ∉ s') (h : s ++ c :: t = s' ++ c :: t') :
    s = s' ∧ t = t' := by
  have hsplit := splitAt_append hs t
  rw [h, splitAt_append hs' t'] at hsplit
  obtain ⟨hfirst, hrest⟩ := Prod.mk.inj hsplit
  exact ⟨hfirst.symm, (Option.some.inj hrest).symm⟩

/-- And begins behind the last one. -/
theorem append_cons_inj_right {c : UInt8} {s s' t t' : Bytes} (ht : c ∉ t) (ht' : c ∉ t')
    (h : s ++ c :: t = s' ++ c :: t') : s = s' ∧ t = t' := by
  have hreverse : t.reverse ++ c :: s.reverse = t'.reverse ++ c :: s'.reverse := by
    have := congrArg List.reverse h
    simpa using this
  obtain ⟨hlast, hfirst⟩ := append_cons_inj (by simpa using ht) (by simpa using ht') hreverse
  exact ⟨List.reverse_inj.mp hfirst, List.reverse_inj.mp hlast⟩

theorem lines_inj {l l' : List Bytes} (h : ∀ line ∈ l, 10 ∉ line) (h' : ∀ line ∈ l', 10 ∉ line)
    (heq : (l.flatMap fun line ↦ line ++ [10]) = l'.flatMap fun line ↦ line ++ [10]) : l = l' := by
  induction l generalizing l' with
  | nil =>
    cases l' with
    | nil => rfl
    | cons line l' => simp at heq
  | cons line l ih =>
    cases l' with
    | nil => simp at heq
    | cons line' l' =>
      rw [List.flatMap_cons, List.flatMap_cons, List.append_assoc, List.append_assoc] at heq
      obtain ⟨hline, hrest⟩ := append_cons_inj (h line List.mem_cons_self) (h' line' List.mem_cons_self) heq
      rw [hline, ih (fun x hx ↦ h x (List.mem_cons_of_mem _ hx)) (fun x hx ↦ h' x (List.mem_cons_of_mem _ hx)) hrest]

/-- The substitution takes the newline of the last line, and no more. -/
theorem commandOutput_lines {l : List Bytes} (hne : l ≠ []) (h : ∀ line ∈ l, 10 ∉ line ∧ line ≠ []) :
    commandOutput (l.flatMap fun line ↦ line ++ [10]) ++ [10] = l.flatMap fun line ↦ line ++ [10] := by
  obtain ⟨init, last, rfl⟩ : ∃ init last, l = init ++ [last] := ⟨_, _, (List.dropLast_append_getLast hne).symm⟩
  obtain ⟨hlast, hlastNe⟩ := h last (List.mem_append_right _ (List.mem_singleton_self last))
  obtain ⟨front, b, rfl⟩ : ∃ front b, last = front ++ [b] := ⟨_, _, (List.dropLast_append_getLast hlastNe).symm⟩
  have hb : b ≠ 10 := fun hb ↦ hlast (hb ▸ List.mem_append_right _ (List.mem_singleton_self _))
  rw [List.flatMap_append, List.flatMap_singleton, ← List.append_assoc, commandOutput_newline, ← List.append_assoc,
    commandOutput, List.rdropWhile_concat_neg _ _ _ (by simpa using hb)]

section

variable {crc : Bytes → Nat}

theorem pathText_notMem {p : List Bytes} (h : ∀ name ∈ p, 10 ∉ name) : 10 ∉ pathText p := by
  unfold pathText
  rw [List.mem_cons, List.mem_flatMap]
  rintro (hdot | ⟨name, hname, hmem⟩)
  · exact absurd hdot (by decide)
  · obtain hslash | hmem := List.mem_cons.mp hmem
    · exact absurd hslash (by decide)
    · exact h name hname hmem

/-- A link's line has its target as it is. -/
theorem listingLine_link {p : List Bytes} {target : Bytes} (h : 10 ∉ target) :
    listingLine crc (p, .link target) = ascii "l " ++ (pathText p ++ 32 :: target) := by
  show ascii "l " ++ pathText p ++ 32 :: commandOutput (target ++ [10]) = _
  rw [commandOutput_line h, List.append_assoc]

/-- The letter a line begins with. -/
def TreeNode.letter : TreeNode → UInt8
  | .link _ => 108
  | .folder => 100
  | .file _ _ => 102

theorem listingLine_head (x : List Bytes × TreeNode) : (listingLine crc x).head? = some x.2.letter := by
  obtain ⟨p, node⟩ := x
  cases node <;> rfl

theorem listingLine_notMem {x : List Bytes × TreeNode} (hpath : ∀ name ∈ x.1, 10 ∉ name)
    (htarget : ∀ target, x.2 = .link target → 10 ∉ target) : 10 ∉ listingLine crc x ∧ listingLine crc x ≠ [] := by
  have htext := pathText_notMem hpath
  have hdigits (base n : Nat) (hpos : 0 < base) (hbase : base ≤ 10) :
      10 ∉ (Nat.toDigits base n).map fun d ↦ UInt8.ofNat d.toNat := digits_notMem hpos hbase (by decide)
  obtain ⟨p, node⟩ := x
  cases node with
  | link target =>
    have hnewline := htarget target rfl
    rw [listingLine_link hnewline]
    refine ⟨?_, by simp [pathText]⟩
    simp only [List.mem_append, List.mem_cons, not_or]
    exact ⟨by decide, htext, by decide, hnewline⟩
  | folder =>
    refine ⟨?_, by simp [listingLine, pathText]⟩
    rw [listingLine, List.mem_append, not_or]
    exact ⟨by decide, htext⟩
  | file mode content =>
    refine ⟨?_, by simp [listingLine, pathText]⟩
    simp only [listingLine, List.mem_append, List.mem_cons, not_or]
    exact ⟨⟨by decide, htext⟩, by decide, hdigits 8 _ (by decide) (by decide), by decide,
      hdigits 10 _ (by decide) (by decide), by decide, hdigits 10 _ (by decide) (by decide)⟩

/-- Two lines are the same where the paths are alike: only the lines of links do not say where a path ends. -/
theorem listingLine_eq_iff (hcksum : ∀ s t, crc s = crc t → s.length = t.length → s = t) {x y : List Bytes × TreeNode}
    (hx : (∀ name ∈ x.1, 47 ∉ name ∧ 10 ∉ name) ∧ ∀ target, x.2 = .link target → 10 ∉ target)
    (hy : (∀ name ∈ y.1, 47 ∉ name ∧ 10 ∉ name) ∧ ∀ target, y.2 = .link target → 10 ∉ target) :
    listingLine crc x = listingLine crc y ↔ Alike x y := by
  obtain ⟨p, node⟩ := x
  obtain ⟨q, node'⟩ := y
  have hpath : pathText p = pathText q ↔ p = q :=
    ⟨pathText_inj (fun name hname ↦ (hx.1 name hname).1) fun name hname ↦ (hy.1 name hname).1, congrArg pathText⟩
  have hdigits (base n : Nat) (hpos : 0 < base) (hbase : base ≤ 10) :
      32 ∉ (Nat.toDigits base n).map fun d ↦ UInt8.ofNat d.toNat := digits_notMem hpos hbase (by decide)
  by_cases hletter : node.letter = node'.letter
  · cases node <;> cases node' <;> try simp [TreeNode.letter] at hletter
    case link.link target target' =>
      rw [listingLine_link (hx.2 target rfl), listingLine_link (hy.2 target' rfl), List.append_right_inj]
      rfl
    case folder.folder =>
      show ascii "d " ++ pathText p = ascii "d " ++ pathText q ↔ _
      rw [List.append_right_inj]
      exact hpath
    case file.file mode content mode' content' =>
      show ascii "f " ++ pathText p ++ 32 :: (octal (mode % 512) ++ 32 :: (decimal (crc content) ++
          32 :: decimal content.length)) = ascii "f " ++ pathText q ++ 32 :: (octal (mode' % 512) ++
          32 :: (decimal (crc content') ++ 32 :: decimal content'.length)) ↔ _
      apply Iff.intro
      · intro h
        -- The last three words have no blank in them.
        have hassoc (s t u v : Bytes) :
            s ++ 32 :: (t ++ 32 :: (u ++ 32 :: v)) = s ++ 32 :: t ++ 32 :: u ++ 32 :: v := by
          simp only [List.append_assoc, List.cons_append]
        rw [hassoc, hassoc] at h
        obtain ⟨h, hsize⟩ := append_cons_inj_right (hdigits 10 _ (by decide) (by decide))
          (hdigits 10 _ (by decide) (by decide)) h
        obtain ⟨h, hsum⟩ := append_cons_inj_right (hdigits 10 _ (by decide) (by decide))
          (hdigits 10 _ (by decide) (by decide)) h
        obtain ⟨h, hmode⟩ := append_cons_inj_right (hdigits 8 _ (by decide) (by decide))
          (hdigits 8 _ (by decide) (by decide)) h
        exact ⟨hpath.mp (List.append_right_inj _ |>.mp h), digits_inj (by decide) (by decide) hmode,
          hcksum _ _ (digits_inj (by decide) (by decide) hsum) (digits_inj (by decide) (by decide) hsize)⟩
      · rintro ⟨rfl, hmode, rfl⟩
        rw [hmode]
  · apply iff_of_false
    · intro h
      have hheads := congrArg List.head? h
      rw [listingLine_head, listingLine_head] at hheads
      exact hletter (Option.some.inj hheads)
    · intro h
      cases node <;> cases node' <;> first | exact h | exact hletter rfl

end

theorem forall₂_congr_mem {α β : Type} {R S : α → β → Prop} {l : List α} {m : List β}
    (h : ∀ a ∈ l, ∀ b ∈ m, R a b ↔ S a b) : List.Forall₂ R l m ↔ List.Forall₂ S l m := by
  induction l generalizing m with
  | nil => cases m <;> simp
  | cons a l ih =>
    cases m with
    | nil => simp
    | cons b m =>
      rw [List.forall₂_cons, List.forall₂_cons, h a List.mem_cons_self b List.mem_cons_self,
        ih fun x hx y hy ↦ h x (List.mem_cons_of_mem a hx) y (List.mem_cons_of_mem b hy)]

theorem bundleListing_eq_iff {crc : Bytes → Nat} (hcksum : ∀ s t, crc s = crc t → s.length = t.length → s = t)
    (a b : Bundle) : bundleListing crc a = bundleListing crc b ↔ SameUpToLines a b := by
  have hplain (b : Bundle) {x : List Bytes × TreeNode} (hx : x ∈ sortedPaths b) :=
    found_plain ((sortedPaths_perm b).mem_iff.mp hx)
  have hlines (b : Bundle) : ∀ line ∈ (sortedPaths b).map (listingLine crc), 10 ∉ line ∧ line ≠ [] := by
    rw [List.forall_mem_map]
    intro x hx
    exact listingLine_notMem (fun name hname ↦ ((hplain b hx).1 name hname).2) (hplain b hx).2
  have hne (b : Bundle) : (sortedPaths b).map (listingLine crc) ≠ [] := by
    intro hnil
    rw [List.map_eq_nil_iff] at hnil
    have hperm := sortedPaths_perm b
    rw [hnil] at hperm
    cases hperm.nil_eq
  have htext (b : Bundle) : bundleListing crc b ++ [10] =
      ((sortedPaths b).map (listingLine crc)).flatMap fun line ↦ line ++ [10] := by
    rw [← commandOutput_lines (hne b) (hlines b), bundleListing, List.flatMap_map]
  have hsame : bundleListing crc a = bundleListing crc b ↔
      (sortedPaths a).map (listingLine crc) = (sortedPaths b).map (listingLine crc) := by
    apply Iff.intro
    · intro h
      have hflat := (htext a).symm.trans ((congrArg (· ++ [10]) h).trans (htext b))
      exact lines_inj (fun line hline ↦ (hlines a line hline).1) (fun line hline ↦ (hlines b line hline).1) hflat
    · intro h
      have hnewline : bundleListing crc a ++ [10] = bundleListing crc b ++ [10] := by rw [htext, htext, h]
      exact List.append_cancel_right hnewline
  rw [hsame, SameUpToLines, ← List.forall₂_eq_eq_eq, List.forall₂_map_left_iff, List.forall₂_map_right_iff]
  exact forall₂_congr_mem fun x hx y hy ↦ listingLine_eq_iff hcksum (hplain a hx) (hplain b hy)

/-- The helper and the script give one answer, and say that two bundles are the same when they are, exactly where a
difference hides neither in two spellings of a link's target nor in the lines of the listing. -/
theorem bundleMatches_iff (canonical : Bytes → Bytes) (crc : Bytes → Nat)
    (hcksum : ∀ s t, crc s = crc t → s.length = t.length → s = t) (a b : Bundle) :
    (∀ installed, bundleMatches canonical crc installed a b = true ↔ Same a b) ↔
      (SameUpToTargets canonical a b → Same a b) ∧ (SameUpToLines a b → Same a b) := by
  have hhelper : bundleMatches canonical crc true a b = true ↔ SameUpToTargets canonical a b := sameBundle_iff a b
  have hscript : bundleMatches canonical crc false a b = true ↔ SameUpToLines a b := by
    rw [← bundleListing_eq_iff hcksum]
    exact beq_iff_eq
  have htargets (h : Same a b) : SameUpToTargets canonical a b := fun p _ ↦ by rw [h p]
  have hlines (h : Same a b) : SameUpToLines a b :=
    (bundleListing_eq_iff hcksum a b).mp (by rw [bundleListing, bundleListing, (sortedPaths_eq_iff a b).mpr h])
  rw [Bool.forall_bool, hhelper, hscript, and_comm]
  exact and_congr ⟨Iff.mp, fun h ↦ ⟨h, htargets⟩⟩ ⟨Iff.mp, fun h ↦ ⟨h, hlines⟩⟩

/-- A bundle with one link. -/
def linkBundle (name target : Bytes) (hname : (name ≠ [] ∧ 47 ∉ name ∧ 10 ∉ name) ∧ 10 ∉ target) : Bundle where
  entries := .item name (.link target) .done .done
  well_formed := by
    refine ⟨hname.1, List.not_mem_nil, ?_, fun _ ↦ rfl, trivial, trivial⟩
    intro target' h
    rw [← TreeNode.link.inj h]
    exact hname.2

/-- A sum that tells contents apart, with the one `cksum` has for no bytes. -/
def someCrc (s : Bytes) : Nat := if s = [] then 4294967295 else leNat s

theorem someCrc_inj (s t : Bytes) (h : someCrc s = someCrc t) (hlen : s.length = t.length) : s = t := by
  unfold someCrc at h
  by_cases hs : s = []
  · have ht : t = [] := List.length_eq_zero_iff.mp (by rw [← hlen, hs]; rfl)
    rw [hs, ht]
  · have ht : t ≠ [] := by
      rintro rfl
      exact hs (List.length_eq_zero_iff.mp hlen)
    rw [if_neg hs, if_neg ht] at h
    exact leNat_inj hlen h

/-- Two links of one name that go to different places. -/
theorem bundleMatches_iff_links :
    bundleMatches id someCrc false (linkBundle (ascii "a") (ascii "b") (by decide))
      (linkBundle (ascii "a") (ascii "c") (by decide)) = true ↔
        Same (linkBundle (ascii "a") (ascii "b") (by decide)) (linkBundle (ascii "a") (ascii "c") (by decide)) := by
  refine (bundleMatches_iff id someCrc someCrc_inj _ _).mpr ⟨fun h ↦ ?_, fun h ↦ ?_⟩ false
  · exact absurd (h [ascii "a"] (by decide)) (by decide)
  · exact absurd ((bundleListing_eq_iff someCrc_inj _ _).mpr h) (by decide)

/-- `a b` to `c` has the line of `a` to `b c`. -/
theorem listing_ambiguous : ¬ ∀ installed,
    bundleMatches id someCrc installed (linkBundle (ascii "a b") (ascii "c") (by decide))
      (linkBundle (ascii "a") (ascii "b c") (by decide)) = true ↔
        Same (linkBundle (ascii "a b") (ascii "c") (by decide)) (linkBundle (ascii "a") (ascii "b c") (by decide)) := by
  intro h
  have hsame := (h false).mp (by decide)
  exact absurd (hsame [ascii "a"]) (by decide)

end NotProton.CompatRun
