import NotProton.Util.Pe

/-!
# PeIcon — the icon of a Windows program as an ICO file (`peicon.c`)

As in `Pe`, the outer `none` stands for a read or a write outside a buffer, the inner one for no icon.
-/

open NotProton.Library

namespace NotProton.Util

def npPeMaxLeaves : Nat := 4096
def npPeMaxImage : Nat := 16 * 1024 * 1024
def npPeMaxDepth : Nat := 3
def npPeMaxVisits : Nat := 65536
def npPeMaxIco : Nat := 32 * 1024 * 1024
def npPeMaxIcoImgs : Nat := 64

/-- `np_leaf_t` -/
structure Leaf where
  type : Nat
  id : Nat
  rva : Nat
  size : Nat
  deriving DecidableEq

/-- What `walk` changes: the leaves so far and how many entries may still be visited. -/
structure Walked where
  leaves : List Leaf
  visits : Nat

/-- The loop of `walk` over the entries that are left; `inner` walks a directory with this type and id. -/
def walkLoop (v : View) (inner : Nat → Nat → Nat → Walked → Option Walked) (base node depth type id : Nat) :
    Nat → Nat → Walked → Option Walked
  | 0, _, s => some s
  | left + 1, i, s =>
      if s.visits = 0 then some s
      else
        let s := { s with visits := s.visits - 1 }
        let entry := node + 16 + i * 8
        let fields : Pe (Nat × Nat) := do
          let nameField ← npPeRd32 v entry
          let offField ← npPeRd32 v (entry + 4)
          pure (nameField, offField)
        match fields.run with
        | none => none
        | some none => some s
        | some (some (nameField, offField)) =>
            let rtype := if depth = 0 then nameField else type
            let rid := if depth = 1 then nameField else id
            if 2 ^ 31 ≤ offField then
              match inner (base + offField % 2 ^ 31) rtype rid s with
              | none => none
              | some s =>
                  if npPeMaxLeaves ≤ s.leaves.length then some s
                  else walkLoop v inner base node depth type id left (i + 1) s
            else
              let at_ := base + offField
              let data : Pe (Nat × Nat) := do
                let rva ← npPeRd32 v at_
                let size ← npPeRd32 v (at_ + 4)
                pure (rva, size)
              match data.run with
              | none => none
              | some none => some s
              | some (some (rva, size)) =>
                  -- The array has room for so many leaves.
                  if npPeMaxLeaves ≤ s.leaves.length then none
                  else
                    let s := { s with leaves := s.leaves ++ [⟨rtype, rid, rva, size⟩] }
                    if npPeMaxLeaves ≤ s.leaves.length then some s
                    else walkLoop v inner base node depth type id left (i + 1) s

/-- `walk`, with so many levels left to the deepest one. -/
def walk (v : View) (base : Nat) : Nat → Nat → Nat → Nat → Walked → Option Walked
  | 0, _, _, _, s => some s
  | room + 1, node, type, id, s =>
      if npPeMaxLeaves ≤ s.leaves.length then some s
      else
        let counts : Pe Nat := do
          let named ← npPeRd16 v (node + 12)
          let ids ← npPeRd16 v (node + 14)
          pure (named + ids)
        match counts.run with
        | none => none
        | some none => some s
        | some (some total) =>
            walkLoop v (walk v base room) base node (npPeMaxDepth - (room + 1)) type id (min total npPeMaxEntries) 0 s

/-- The loop of `lowest_group` -/
def lowestGroup : List Leaf → Option Leaf → Option Leaf
  | [], best => best
  | l :: leaves, best =>
      if l.type ≠ npRtGroupIcon then lowestGroup leaves best
      else
        match best with
        | none => lowestGroup leaves (some l)
        | some b => lowestGroup leaves (if l.id < b.id then some l else some b)

/-- `image_with_id`, the index of the leaf for its address -/
def imageWithId (leaves : List Leaf) (id : Nat) : Option (Nat × Leaf) :=
  match leaves.findIdx? fun l ↦ l.type == npRtIcon && l.id == id with
  | none => none
  | some k => leaves[k]?.map fun l ↦ (k, l)

/-- An image that is taken: its leaf, with the index, and the 16 bytes of its record. -/
structure Picked where
  index : Nat
  leaf : Leaf
  record : Bytes

/-- One round of the loop over the group, where a failure is a `continue`. -/
def pickEntry (v : View) (leaves : List Leaf) (groupAt i : Nat) : Pe Picked := do
  let e := groupAt + 6 + i * 14
  let w ← npPeRd8 v e
  let h ← npPeRd8 v (e + 1)
  let colors ← npPeRd8 v (e + 2)
  let planes ← npPeRd16 v (e + 4)
  let bits ← npPeRd16 v (e + 6)
  let id ← npPeRd16 v (e + 12)
  match imageWithId leaves id with
  | none => failure
  | some (k, img) => do
      require (img.size ≠ 0 ∧ img.size ≤ npPeMaxImage)
      let at_ ← npPeRvaOff v img.rva
      require (img.size ≤ v.n ∧ at_ ≤ v.n - img.size)
      let record := leBytes 1 w ++ leBytes 1 h ++ leBytes 1 colors ++ [0] ++ leBytes 2 planes ++ leBytes 2 bits ++
        leBytes 4 img.size ++ [0, 0, 0, 0]
      pure ⟨k, img, record⟩

/-- The loop over the group with the entries that are left; `payload` is the size of the images so far. -/
def pickLoop (v : View) (leaves : List Leaf) (groupAt : Nat) :
    Nat → Nat → List Picked → Nat → Option (List Picked × Nat)
  | 0, _, picked, payload => some (picked, payload)
  | left + 1, i, picked, payload =>
      match (pickEntry v leaves groupAt i).run with
      | none => none
      | some none => pickLoop v leaves groupAt left (i + 1) picked payload
      | some (some pick) =>
          if picked.any fun q ↦ q.index == pick.index then pickLoop v leaves groupAt left (i + 1) picked payload
          else if npPeMaxIco - payload < pick.leaf.size then some (picked, payload)
          else pickLoop v leaves groupAt left (i + 1) (picked ++ [pick]) (payload + pick.leaf.size)

/-- Bytes over what a buffer holds. -/
def store (buf : Bytes) (off : Nat) (s : Bytes) : Option Bytes :=
  if off + s.length ≤ buf.length then some (splice buf off s) else none

/-- The loop that writes the directory and the images. -/
def writeLoop (v : View) : List Picked → Nat → Nat → Bytes → Option Bytes
  | [], _, _, ico => some ico
  | pick :: picked, i, at_, ico =>
      let r := 6 + i * 16
      match store ico r pick.record with
      | none => none
      | some ico =>
          match store ico (r + 12) (leBytes 4 at_) with
          | none => none
          | some ico =>
              match (npPeRvaOff v pick.leaf.rva).run with
              | none => none
              | some none => writeLoop v picked (i + 1) at_ ico
              | some (some src) =>
                  match load v.p src pick.leaf.size with
                  | none => none
                  | some s =>
                      match store ico at_ s with
                      | none => none
                      | some ico => writeLoop v picked (i + 1) (at_ + pick.leaf.size) ico

/-- The group that is taken: where it is and how many of its images are looked at. -/
def groupOf (v : View) (leaves : List Leaf) : Pe (Nat × Nat) :=
  match lowestGroup leaves none with
  | none => failure
  | some group => do
      let groupAt ← npPeRvaOff v group.rva
      require (6 ≤ group.size)
      require (group.size ≤ v.n ∧ groupAt ≤ v.n - group.size)
      let count ← npPeRd16 v (groupAt + 4)
      require (count ≠ 0)
      require (6 + count * 14 ≤ group.size)
      pure (groupAt, min count npPeMaxIcoImgs)

/-- `junk` is what the memory holds that is allocated for the file. -/
def buildIco (junk : Nat → UInt8) (v : View) (rsrcRva : Nat) : Option (Option Bytes) :=
  match (npPeRvaOff v rsrcRva).run with
  | none => none
  | some none => some none
  | some (some base) =>
      match walk v base npPeMaxDepth base 0 0 ⟨[], npPeMaxVisits⟩ with
      | none => none
      | some s =>
          match (groupOf v s.leaves).run with
          | none => none
          | some none => some none
          | some (some (groupAt, count)) =>
              match pickLoop v s.leaves groupAt count 0 [] 0 with
              | none => none
              | some (picked, payload) =>
                  if picked.length = 0 then some none
                  else
                    let header := 6 + picked.length * 16
                    let total := header + payload
                    let ico := (List.range total).map junk
                    match store ico 0 (leBytes 2 0) with
                    | none => none
                    | some ico =>
                        match store ico 2 (leBytes 2 1) with
                        | none => none
                        | some ico =>
                            match store ico 4 (leBytes 2 picked.length) with
                            | none => none
                            | some ico => (writeLoop v picked 0 header ico).map some

def iconFromMap (junk : Nat → UInt8) (map : Bytes) : Option (Option Bytes) :=
  match (npPeOpen map).run with
  | none => none
  | some none => some none
  | some (some v) => buildIco junk v v.rsrcRva

/-- `np_pe_icon_ico` for what a regular file holds. -/
def npPeIconIco (junk : Nat → UInt8) (file : Bytes) : Option (Option Bytes) :=
  if file.length ≤ 0x40 then some none else iconFromMap junk file

/-! ## The resource tree -/

/-- A leaf below a directory of the tree.  The entries of the top directory are the types, those below them the ids; the
upper bit of an entry's offset tells a directory. -/
inductive IsLeaf (p : Bytes) (base : Nat) : Nat → Nat → Nat → Nat → Leaf → Prop
  | leaf {node depth type id i named ids nameField offField rva size} (hnamed : numAt p 2 (node + 12) = some named)
      (hids : numAt p 2 (node + 14) = some ids) (hi : i < named + ids)
      (hname : numAt p 4 (node + 16 + i * 8) = some nameField)
      (hoff : numAt p 4 (node + 16 + i * 8 + 4) = some offField) (hleaf : offField < 2 ^ 31)
      (hrva : numAt p 4 (base + offField) = some rva) (hsize : numAt p 4 (base + offField + 4) = some size) :
      IsLeaf p base node depth type id
        ⟨if depth = 0 then nameField else type, if depth = 1 then nameField else id, rva, size⟩
  | dir {node depth type id i named ids nameField offField l} (hnamed : numAt p 2 (node + 12) = some named)
      (hids : numAt p 2 (node + 14) = some ids) (hi : i < named + ids)
      (hname : numAt p 4 (node + 16 + i * 8) = some nameField)
      (hoff : numAt p 4 (node + 16 + i * 8 + 4) = some offField) (hdir : 2 ^ 31 ≤ offField)
      (hl : IsLeaf p base (base + offField % 2 ^ 31) (depth + 1) (if depth = 0 then nameField else type)
        (if depth = 1 then nameField else id) l) : IsLeaf p base node depth type id l

/-- A walk adds leaves below the directory, and never more than there is room for. -/
def WalkAdds (p : Bytes) (base node depth type id : Nat) (s : Walked) (result : Option Walked) : Prop :=
  ∃ s' new, result = some s' ∧ s'.leaves = s.leaves ++ new ∧ s'.leaves.length ≤ npPeMaxLeaves ∧
    ∀ l ∈ new, IsLeaf p base node depth type id l

section
variable {v : View} {base node depth type id : Nat} {s : Walked}

theorem WalkAdds.refl (hs : s.leaves.length ≤ npPeMaxLeaves) : WalkAdds v.p base node depth type id s (some s) :=
  ⟨s, [], rfl, (List.append_nil _).symm, hs, List.forall_mem_nil _⟩

/-- More leaves after some. -/
theorem WalkAdds.trans {t : Walked} {added : List Leaf} {result : Option Walked} (ht : t.leaves = s.leaves ++ added)
    (hadded : ∀ l ∈ added, IsLeaf v.p base node depth type id l)
    (h : WalkAdds v.p base node depth type id t result) : WalkAdds v.p base node depth type id s result := by
  obtain ⟨s', new, hresult, hleaves, hlen, hnew⟩ := h
  refine ⟨s', added ++ new, hresult, by rw [hleaves, ht, List.append_assoc], hlen, fun l hl ↦ ?_⟩
  exact (List.mem_append.mp hl).elim (hadded l) (hnew l)

/-- Two reads in a row. -/
theorem pair_run {α : Type} (h : v.Mapped) (w a b : Nat) (f : Nat → Nat → α) :
    (do let x ← npPeRd w v a
        let y ← npPeRd w v b
        pure (f x y) : Pe α).run =
      some (match numAt v.p w a, numAt v.p w b with
        | some x, some y => some (f x y)
        | _, _ => none) := by
  rw [OptionT.run_bind, npPeRd_run h]
  cases numAt v.p w a with
  | none => rfl
  | some x =>
    show (npPeRd w v b >>= fun y ↦ pure (f x y) : Pe α).run = _
    rw [OptionT.run_bind, npPeRd_run h]
    cases numAt v.p w b <;> rfl

theorem pair32_run (h : v.Mapped) (a b : Nat) :
    (do let x ← npPeRd32 v a
        let y ← npPeRd32 v b
        pure (x, y) : Pe (Nat × Nat)).run =
      some (match numAt v.p 4 a, numAt v.p 4 b with
        | some x, some y => some (x, y)
        | _, _ => none) := pair_run h 4 a b Prod.mk

theorem pair16_run (h : v.Mapped) (a b : Nat) :
    (do let x ← npPeRd16 v a
        let y ← npPeRd16 v b
        pure (x + y) : Pe Nat).run =
      some (match numAt v.p 2 a, numAt v.p 2 b with
        | some x, some y => some (x + y)
        | _, _ => none) := pair_run h 2 a b (· + ·)

theorem walkLoop_spec (h : v.Mapped) {inner : Nat → Nat → Nat → Walked → Option Walked}
    (hinner : ∀ node type id s, s.leaves.length ≤ npPeMaxLeaves →
      WalkAdds v.p base node (depth + 1) type id s (inner node type id s))
    {named ids left i : Nat} (hnamed : numAt v.p 2 (node + 12) = some named)
    (hids : numAt v.p 2 (node + 14) = some ids) (hi : i + left ≤ named + ids)
    (hs : s.leaves.length < npPeMaxLeaves) :
    WalkAdds v.p base node depth type id s (walkLoop v inner base node depth type id left i s) := by
  induction left generalizing i s with
  | zero => exact .refl (Nat.le_of_lt hs)
  | succ left ih =>
    rw [walkLoop]
    split
    · exact .refl (Nat.le_of_lt hs)
    · simp only
      rw [pair32_run h]
      cases hname : numAt v.p 4 (node + 16 + i * 8) with
      | none => exact ⟨_, [], rfl, (List.append_nil _).symm, Nat.le_of_lt hs, List.forall_mem_nil _⟩
      | some nameField =>
        cases hoff : numAt v.p 4 (node + 16 + i * 8 + 4) with
        | none => exact ⟨_, [], rfl, (List.append_nil _).symm, Nat.le_of_lt hs, List.forall_mem_nil _⟩
        | some offField =>
          simp only
          split
          · -- The entry leads to a node below, whose leaves come first.
            rename_i hdir
            obtain ⟨s', new, hresult, hleaves, hlen, hnew⟩ := hinner (base + offField % 2 ^ 31)
              (if depth = 0 then nameField else type) (if depth = 1 then nameField else id)
              { s with visits := s.visits - 1 } (Nat.le_of_lt hs)
            have hnew' : ∀ l ∈ new, IsLeaf v.p base node depth type id l :=
              fun l hl ↦ .dir hnamed hids (by omega) hname hoff hdir (hnew l hl)
            rw [hresult]
            simp only
            split
            · exact ⟨s', new, rfl, hleaves, hlen, hnew'⟩
            · exact .trans hleaves hnew' (ih (by omega) (by omega))
          · -- Or to a leaf, which is added.
            rename_i hleaf
            rw [pair32_run h]
            cases hrva : numAt v.p 4 (base + offField) with
            | none => exact ⟨_, [], rfl, (List.append_nil _).symm, Nat.le_of_lt hs, List.forall_mem_nil _⟩
            | some rva =>
              cases hsize : numAt v.p 4 (base + offField + 4) with
              | none => exact ⟨_, [], rfl, (List.append_nil _).symm, Nat.le_of_lt hs, List.forall_mem_nil _⟩
              | some size =>
                simp only
                rw [if_neg (by omega)]
                have hnew : IsLeaf v.p base node depth type id ⟨if depth = 0 then nameField else type,
                    if depth = 1 then nameField else id, rva, size⟩ :=
                  .leaf hnamed hids (by omega) hname hoff (by omega) hrva hsize
                generalize Leaf.mk (if depth = 0 then nameField else type) (if depth = 1 then nameField else id) rva
                  size = l at hnew ⊢
                have hall : ∀ l' ∈ [l], IsLeaf v.p base node depth type id l' := List.forall_mem_singleton.mpr hnew
                have hlen : (s.leaves ++ [l]).length = s.leaves.length + 1 := by
                  rw [List.length_append, List.length_singleton]
                split
                · exact ⟨⟨s.leaves ++ [l], s.visits - 1⟩, [l], rfl, rfl, by simp only [hlen]; omega, hall⟩
                · exact WalkAdds.trans (t := ⟨s.leaves ++ [l], s.visits - 1⟩) rfl hall
                    (ih (by omega) (by simp only [hlen]; omega))

theorem walk_spec (h : v.Mapped) {room : Nat} (hroom : room ≤ npPeMaxDepth) (node type id : Nat) (s : Walked)
    (hs : s.leaves.length ≤ npPeMaxLeaves) :
    WalkAdds v.p base node (npPeMaxDepth - room) type id s (walk v base room node type id s) := by
  induction room generalizing node type id s with
  | zero => exact .refl hs
  | succ room ih =>
    rw [walk]
    split
    · exact .refl hs
    · rename_i hlt
      simp only
      rw [pair16_run h]
      cases hnamed : numAt v.p 2 (node + 12) with
      | none => exact .refl hs
      | some named =>
        cases hids : numAt v.p 2 (node + 14) with
        | none => exact .refl hs
        | some ids =>
          have hdepth : npPeMaxDepth - (room + 1) + 1 = npPeMaxDepth - room := by omega
          refine walkLoop_spec h (fun node type id s hs ↦ ?_) hnamed hids (by omega) (by omega)
          rw [hdepth]
          exact ih (by omega) node type id s hs

/-! ## The group and its images -/

/-- The group with the lowest id. -/
theorem lowestGroup_some {leaves : List Leaf} {best : Option Leaf} {group : Leaf}
    (hbest : ∀ b, best = some b → b.type = npRtGroupIcon) (h : lowestGroup leaves best = some group) :
    group.type = npRtGroupIcon ∧ (group ∈ leaves ∨ best = some group) ∧
      (∀ b, best = some b → group.id ≤ b.id) ∧ ∀ l ∈ leaves, l.type = npRtGroupIcon → group.id ≤ l.id := by
  -- By the leaves; the best so far is the lowest of those behind.
  induction leaves generalizing best with
  | nil =>
    rw [lowestGroup] at h
    subst h
    exact ⟨hbest group rfl, .inr rfl, fun b hb ↦ by rw [Option.some.inj hb], List.forall_mem_nil _⟩
  | cons l leaves ih =>
    unfold lowestGroup at h
    by_cases hl : l.type = npRtGroupIcon
    · rw [if_neg (not_not.mpr hl)] at h
      have hadd : ∀ b, (group.type = npRtGroupIcon ∧ (group ∈ leaves ∨ some b = some group) ∧
          (∀ b', some b = some b' → group.id ≤ b'.id) ∧ ∀ l ∈ leaves, l.type = npRtGroupIcon → group.id ≤ l.id) →
          group.id ≤ b.id := fun b hb ↦ hb.2.2.1 b rfl
      cases best with
      | none =>
        have hrest := ih (fun b hb ↦ by rw [← Option.some.inj hb]; exact hl) h
        refine ⟨hrest.1, .inl ?_, fun b hb ↦ (nomatch hb), List.forall_mem_cons.mpr ⟨fun _ ↦ hadd l hrest, hrest.2.2.2⟩⟩
        obtain hmem | hgroup := hrest.2.1
        · exact List.mem_cons_of_mem _ hmem
        · rw [Option.some.inj hgroup]
          exact List.mem_cons_self
      | some b =>
        simp only at h
        split at h
        · rename_i hlt
          have hrest := ih (fun b hb ↦ by rw [← Option.some.inj hb]; exact hl) h
          have hle := hadd l hrest
          refine ⟨hrest.1, .inl ?_, fun b' hb ↦ by rw [← Option.some.inj hb]; omega,
            List.forall_mem_cons.mpr ⟨fun _ ↦ hle, hrest.2.2.2⟩⟩
          obtain hmem | hgroup := hrest.2.1
          · exact List.mem_cons_of_mem _ hmem
          · rw [Option.some.inj hgroup]
            exact List.mem_cons_self
        · rename_i hge
          have hrest := ih hbest h
          have hle := hadd b hrest
          exact ⟨hrest.1, hrest.2.1.imp_left (List.mem_cons_of_mem _), hrest.2.2.1,
            List.forall_mem_cons.mpr ⟨fun _ ↦ by omega, hrest.2.2.2⟩⟩
    · rw [if_pos hl] at h
      obtain ⟨htype, hmem, hlow, hall⟩ := ih hbest h
      exact ⟨htype, hmem.imp_left (List.mem_cons_of_mem _), hlow,
        List.forall_mem_cons.mpr ⟨fun h ↦ absurd h hl, hall⟩⟩

theorem imageWithId_some {leaves : List Leaf} {id k : Nat} {img : Leaf} (h : imageWithId leaves id = some (k, img)) :
    img ∈ leaves ∧ img.type = npRtIcon ∧ img.id = id := by
  unfold imageWithId at h
  split at h
  · cases h
  · rename_i j hj
    obtain ⟨hlt, hp, -⟩ := List.findIdx?_eq_some_iff_getElem.mp hj
    rw [List.getElem?_eq_getElem hlt] at h
    cases h
    rw [Bool.and_eq_true, beq_iff_eq, beq_iff_eq] at hp
    exact ⟨List.getElem_mem hlt, hp⟩

/-- The image that the `i`th entry of the group names, with the record that describes it. -/
structure Names (v : View) (leaves : List Leaf) (groupAt i : Nat) (pick : Picked) : Prop where
  mem : pick.leaf ∈ leaves
  type : pick.leaf.type = npRtIcon
  id : numAt v.p 2 (groupAt + 6 + i * 14 + 12) = some pick.leaf.id
  size_pos : 0 < pick.leaf.size
  size_le : pick.leaf.size ≤ npPeMaxImage
  data : ∃ src, (npPeRvaOff v pick.leaf.rva).run = some (some src) ∧ src + pick.leaf.size ≤ v.p.length
  record : pick.record = slice v.p (groupAt + 6 + i * 14) 3 ++ [0] ++ slice v.p (groupAt + 6 + i * 14 + 4) 4 ++
    leBytes 4 pick.leaf.size ++ [0, 0, 0, 0]

theorem pickEntry_safe (h : v.Mapped) (leaves : List Leaf) (groupAt i : Nat) :
    Pe.Safe (pickEntry v leaves groupAt i) := by
  refine (npPeRd_safe h 1 _).bind fun _ ↦ (npPeRd_safe h 1 _).bind fun _ ↦ (npPeRd_safe h 1 _).bind fun _ ↦
    (npPeRd16_safe h _).bind fun _ ↦ (npPeRd16_safe h _).bind fun _ ↦ (npPeRd16_safe h _).bind fun id ↦ ?_
  cases imageWithId leaves id with
  | none => exact .failure
  | some found =>
    exact (Pe.Safe.require _).bind fun _ ↦ (npPeRvaOff_safe h _).bind fun _ ↦ (Pe.Safe.require _).bind fun _ ↦ .pure _

/-- A number that was read is written back as the bytes it was read from. -/
theorem numAt_some {p : Bytes} {w off n : Nat} (h : numAt p w off = some n) :
    off + w ≤ p.length ∧ leBytes w n = slice p off w := by
  unfold numAt at h
  split at h
  · rename_i hle
    rw [← Option.some.inj h]
    exact ⟨hle, leBytes_leNat (slice_length hle)⟩
  · cases h

theorem rd_some (h : v.Mapped) {w off n : Nat} (hrun : (npPeRd w v off).run = some (some n)) :
    numAt v.p w off = some n := by
  rw [npPeRd_run h] at hrun
  exact Option.some.inj hrun

theorem slice_add {α : Type} (l : List α) (o m n : Nat) : slice l o (m + n) = slice l o m ++ slice l (o + m) n := by
  rw [slice, slice, slice, List.take_add, List.drop_drop]

theorem pickEntry_some (h : v.Mapped) {leaves : List Leaf} {groupAt i : Nat} {pick : Picked}
    (hrun : (pickEntry v leaves groupAt i).run = some (some pick)) : Names v leaves groupAt i pick := by
  obtain ⟨w, hw, hrun⟩ := Pe.of_bind hrun
  obtain ⟨hh, hhh, hrun⟩ := Pe.of_bind hrun
  obtain ⟨colors, hcolors, hrun⟩ := Pe.of_bind hrun
  obtain ⟨planes, hplanes, hrun⟩ := Pe.of_bind hrun
  obtain ⟨bits, hbits, hrun⟩ := Pe.of_bind hrun
  obtain ⟨id, hid, hrun⟩ := Pe.of_bind hrun
  cases himg : imageWithId leaves id with
  | none =>
    rw [himg] at hrun
    cases hrun
  | some found =>
    obtain ⟨k, img⟩ := found
    rw [himg] at hrun
    obtain ⟨⟨hpos, hmax⟩, hrun⟩ := Pe.of_require hrun
    obtain ⟨src, hsrc, hrun⟩ := Pe.of_bind hrun
    obtain ⟨⟨hroom, hin⟩, hrun⟩ := Pe.of_require hrun
    cases hrun
    obtain ⟨hmem, htype, hleaf⟩ := imageWithId_some himg
    rw [View.Mapped] at h
    refine ⟨hmem, htype, hleaf ▸ rd_some h hid, Nat.pos_of_ne_zero hpos, hmax, ⟨src, hsrc, ?_⟩, ?_⟩
    · show src + img.size ≤ v.p.length
      omega
    -- The fields of the record are read one by one and stand together in the group.
    have hthree : slice v.p (groupAt + 6 + i * 14) 3 = leBytes 1 w ++ leBytes 1 hh ++ leBytes 1 colors := by
      rw [(numAt_some (rd_some h hw)).2, (numAt_some (rd_some h hhh)).2, (numAt_some (rd_some h hcolors)).2,
        ← slice_add, ← slice_add]
    have hfour : slice v.p (groupAt + 6 + i * 14 + 4) 4 = leBytes 2 planes ++ leBytes 2 bits := by
      rw [(numAt_some (rd_some h hplanes)).2, (numAt_some (rd_some h hbits)).2, ← slice_add]
    rw [hthree, hfour]
    simp only [List.append_assoc]

def totalSize (picked : List Picked) : Nat := (picked.map fun pick ↦ pick.leaf.size).sum

/-- The images are taken in the order of the entries that name them, as long as there is room. -/
theorem pickLoop_spec (h : v.Mapped) (leaves : List Leaf) (groupAt left i : Nat) (picked : List Picked) (payload : Nat)
    (hpayload : payload ≤ npPeMaxIco) :
    ∃ new entries, pickLoop v leaves groupAt left i picked payload = some (picked ++ new, payload + totalSize new) ∧
      payload + totalSize new ≤ npPeMaxIco ∧ new.length ≤ left ∧ entries.Pairwise (· < ·) ∧
      (∀ e ∈ entries, i ≤ e ∧ e < i + left) ∧ List.Forall₂ (Names v leaves groupAt) entries new := by
  induction left generalizing i picked payload with
  | zero =>
    exact ⟨[], [], by rw [pickLoop, List.append_nil]; rfl, hpayload, Nat.le_refl 0, .nil, List.forall_mem_nil _, .nil⟩
  | succ left ih =>
    -- An entry that names no image, or one too many, is passed over.
    have hskip : ∃ new entries, pickLoop v leaves groupAt left (i + 1) picked payload =
        some (picked ++ new, payload + totalSize new) ∧ payload + totalSize new ≤ npPeMaxIco ∧ new.length ≤ left + 1 ∧
        entries.Pairwise (· < ·) ∧ (∀ e ∈ entries, i ≤ e ∧ e < i + (left + 1)) ∧
        List.Forall₂ (Names v leaves groupAt) entries new := by
      obtain ⟨new, entries, hloop, hsum, hlen, hsorted, hin, hnames⟩ := ih (i + 1) picked payload hpayload
      refine ⟨new, entries, hloop, hsum, by omega, hsorted, fun e he ↦ ?_, hnames⟩
      have := hin e he
      omega
    rw [pickLoop]
    cases hrun : (pickEntry v leaves groupAt i).run with
    | none => exact absurd hrun (pickEntry_safe h leaves groupAt i)
    | some r =>
      cases r with
      | none => exact hskip
      | some pick =>
        simp only
        split
        · exact hskip
        · split
          · exact ⟨[], [], by rw [List.append_nil]; rfl, hpayload, Nat.zero_le _, .nil, List.forall_mem_nil _, .nil⟩
          · rename_i hroom
            obtain ⟨new, entries, hloop, hsum, hlen, hsorted, hin, hnames⟩ :=
              ih (i + 1) (picked ++ [pick]) (payload + pick.leaf.size) (by omega)
            have htotal : totalSize (pick :: new) = pick.leaf.size + totalSize new := rfl
            refine ⟨pick :: new, i :: entries, ?_, by omega, by rw [List.length_cons]; omega,
              List.pairwise_cons.mpr ⟨fun e he ↦ ?_, hsorted⟩, List.forall_mem_cons.mpr ⟨by omega, fun e he ↦ ?_⟩,
              .cons (pickEntry_some h hrun) hnames⟩
            · rw [hloop, htotal, List.append_assoc, List.singleton_append, Nat.add_assoc]
            · have := hin e he
              omega
            · have := hin e he
              omega

/-! ## The file that is written -/

/-- The directory for images from `at_` on, each with the first eight bytes of its entry. -/
def icoDir : Nat → List (Bytes × Bytes) → Bytes
  | _, [] => []
  | at_, (head, image) :: images =>
      (head ++ (leBytes 4 image.length ++ leBytes 4 at_)) ++ icoDir (at_ + image.length) images

def imageBytes (images : List (Bytes × Bytes)) : Bytes := images.flatMap Prod.snd

/-- An ICO file: the header, the directory, the images. -/
def icoFile (images : List (Bytes × Bytes)) : Bytes :=
  leBytes 2 0 ++ (leBytes 2 1 ++ (leBytes 2 images.length ++
    (icoDir (6 + images.length * 16) images ++ imageBytes images)))

theorem store_append {a b x s : Bytes} {off : Nat} (hoff : off = a.length) (hx : x.length = s.length) :
    store (a ++ (x ++ b)) off s = some (a ++ (s ++ b)) := by
  have hroom : 0 + s.length ≤ x.length := by omega
  rw [store, if_pos (by rw [List.length_append, List.length_append]; omega), hoff, ← Nat.add_zero a.length,
    splice_append_right, splice_append_left hroom, splice, List.take_zero, List.nil_append, Nat.zero_add,
    List.drop_eq_nil_of_le (by omega), List.append_nil]

/-- What an image that is taken writes: the beginning of its entry and its bytes. -/
def Writes (v : View) (pick : Picked) (image : Bytes × Bytes) : Prop :=
  image.1.length = 8 ∧ image.2.length = pick.leaf.size ∧
    pick.record = image.1 ++ (leBytes 4 image.2.length ++ [0, 0, 0, 0]) ∧
    ∃ src, (npPeRvaOff v pick.leaf.rva).run = some (some src) ∧ load v.p src pick.leaf.size = some image.2

/-- The loop fills the directory and the space behind it. -/
theorem writeLoop_spec {picked : List Picked} {images : List (Bytes × Bytes)}
    (h : List.Forall₂ (Writes v) picked images) {i : Nat} {dir data : Bytes} (at_ : Nat) (s mid : Bytes)
    (hs : s.length = 6 + i * 16)
    (hdir : dir.length = picked.length * 16) (hat : at_ = s.length + dir.length + mid.length)
    (hdata : data.length = totalSize picked) :
    writeLoop v picked i at_ (s ++ (dir ++ (mid ++ data))) =
      some (s ++ (icoDir at_ images ++ (mid ++ imageBytes images))) := by
  induction h generalizing i at_ s dir mid data with
  | nil =>
    rw [List.eq_nil_of_length_eq_zero hdir, List.eq_nil_of_length_eq_zero hdata]
    rfl
  | @cons pick image picked images hpick h ih =>
    obtain ⟨head, image⟩ := image
    obtain ⟨hhead, hsize, hrecord, src, hsrc, hload⟩ := hpick
    simp only at hhead hsize hrecord hload
    obtain ⟨entry, dir', rfl, hentry, hdir'⟩ : ∃ a b, dir = a ++ b ∧ a.length = 16 ∧ b.length = picked.length * 16 :=
      exists_append_of_length (by rw [hdir, List.length_cons]; omega)
    obtain ⟨space, data', rfl, hspace, hdata'⟩ : ∃ a b, data = a ++ b ∧ a.length = pick.leaf.size ∧
        b.length = totalSize picked := exists_append_of_length hdata
    have hrecord_length : pick.record.length = 16 := by
      simp only [hrecord, List.length_append, hhead, leBytes_length]
      rfl
    -- The record, its offset and the image are stored one after another, each at its place.
    have hfirst : store (s ++ (entry ++ dir' ++ (mid ++ (space ++ data')))) (6 + i * 16) pick.record =
        some (s ++ (pick.record ++ (dir' ++ (mid ++ (space ++ data'))))) := by
      rw [List.append_assoc entry]
      exact store_append hs.symm (by omega)
    have hsecond : store (s ++ (pick.record ++ (dir' ++ (mid ++ (space ++ data'))))) (6 + i * 16 + 12) (leBytes 4 at_) =
        some ((s ++ (head ++ (leBytes 4 image.length ++ leBytes 4 at_))) ++ (dir' ++ (mid ++ (space ++ data')))) := by
      have hsplit : s ++ (pick.record ++ (dir' ++ (mid ++ (space ++ data')))) =
          (s ++ (head ++ leBytes 4 image.length)) ++ ([0, 0, 0, 0] ++ (dir' ++ (mid ++ (space ++ data')))) := by
        rw [hrecord]
        simp only [List.append_assoc]
      rw [hsplit, store_append (by simp only [List.length_append, hhead, leBytes_length]; omega) (by
        rw [leBytes_length]; rfl)]
      simp only [List.append_assoc]
    generalize hs' : s ++ (head ++ (leBytes 4 image.length ++ leBytes 4 at_)) = s' at hsecond
    have hs'_length : s'.length = 6 + (i + 1) * 16 := by
      rw [← hs']
      simp only [List.length_append, hhead, leBytes_length]
      omega
    rw [List.length_append] at hat
    have hthird : store (s' ++ (dir' ++ (mid ++ (space ++ data')))) at_ image =
        some (s' ++ (dir' ++ ((mid ++ image) ++ data'))) := by
      have hsplit : s' ++ (dir' ++ (mid ++ (space ++ data'))) = (s' ++ (dir' ++ mid)) ++ (space ++ data') := by
        simp only [List.append_assoc]
      rw [hsplit, store_append (by simp only [List.length_append]; omega) (by omega)]
      simp only [List.append_assoc]
    rw [writeLoop, hfirst]
    simp only
    rw [hsecond]
    simp only
    rw [hsrc]
    simp only
    rw [hload]
    simp only
    rw [hthird]
    simp only
    rw [ih (at_ + pick.leaf.size) s' (mid ++ image) hs'_length hdir' (by rw [List.length_append]; omega) hdata', ← hs',
      icoDir, hsize]
    simp only [imageBytes, List.flatMap_cons, List.append_assoc]

/-- The bytes an image is, and the first eight bytes of its entry in the directory, from the entry of the group. -/
def imageOf (p : Bytes) (groupAt e : Nat) (src size : Nat) : Bytes × Bytes :=
  (slice p (groupAt + 6 + e * 14) 3 ++ [0] ++ slice p (groupAt + 6 + e * 14 + 4) 4, slice p src size)

/-- The icon that an entry of the group names. -/
def Named (v : View) (leaves : List Leaf) (groupAt e : Nat) (image : Bytes × Bytes) : Prop :=
  ∃ leaf ∈ leaves, leaf.type = npRtIcon ∧ numAt v.p 2 (groupAt + 6 + e * 14 + 12) = some leaf.id ∧
    ∃ src, (npPeRvaOff v leaf.rva).run = some (some src) ∧ src + leaf.size ≤ v.p.length ∧
      image = imageOf v.p groupAt e src leaf.size

theorem images_of_names {leaves : List Leaf} {groupAt : Nat} {entries : List Nat} {picked : List Picked}
    (hin : ∀ e ∈ entries, groupAt + 6 + (e + 1) * 14 ≤ v.p.length)
    (hnames : List.Forall₂ (Names v leaves groupAt) entries picked) :
    ∃ images, List.Forall₂ (Named v leaves groupAt) entries images ∧ List.Forall₂ (Writes v) picked images ∧
      images.length = picked.length ∧ (imageBytes images).length = totalSize picked ∧
      ∀ image ∈ images, image.1.length = 8 := by
  -- On the entries picked, with the images in the same order.
  induction hnames with
  | nil => exact ⟨[], .nil, .nil, rfl, rfl, List.forall_mem_nil _⟩
  | @cons e pick entries picked hname hnames ih =>
    rw [List.forall_mem_cons] at hin
    obtain ⟨images, hnamed, hwrites, hlen, hsize, hhead⟩ := ih hin.2
    obtain ⟨src, hsrc, hdata⟩ := hname.data
    have hfit := hin.1
    have hthree : (slice v.p (groupAt + 6 + e * 14) 3).length = 3 := slice_length (by omega)
    have hfour : (slice v.p (groupAt + 6 + e * 14 + 4) 4).length = 4 := slice_length (by omega)
    have hhead8 : (imageOf v.p groupAt e src pick.leaf.size).1.length = 8 := by
      simp only [imageOf, List.length_append, hthree, hfour]
      rfl
    have hbytes : (imageOf v.p groupAt e src pick.leaf.size).2.length = pick.leaf.size := slice_length hdata
    refine ⟨imageOf v.p groupAt e src pick.leaf.size :: images,
      .cons ⟨pick.leaf, hname.mem, hname.type, hname.id, src, hsrc, hdata, rfl⟩ hnamed,
      .cons ⟨hhead8, hbytes, ?_, src, hsrc, ?_⟩ hwrites, by rw [List.length_cons, hlen, List.length_cons], ?_,
      List.forall_mem_cons.mpr ⟨hhead8, hhead⟩⟩
    · rw [hname.record, hbytes, imageOf]
      simp only [List.append_assoc]
    · rw [load, if_pos hdata]
      rfl
    · rw [imageBytes, List.flatMap_cons, List.length_append, hbytes]
      show _ + (imageBytes images).length = pick.leaf.size + totalSize picked
      rw [hsize]

/-- The file that is written over whatever the memory holds. -/
theorem writeIco_spec (junk : Nat → UInt8) {picked : List Picked} {images : List (Bytes × Bytes)}
    (h : List.Forall₂ (Writes v) picked images) (hlen : images.length = picked.length) :
    ∃ ico₁ ico₂ ico₃,
      store ((List.range (6 + picked.length * 16 + totalSize picked)).map junk) 0 (leBytes 2 0) = some ico₁ ∧
      store ico₁ 2 (leBytes 2 1) = some ico₂ ∧ store ico₂ 4 (leBytes 2 picked.length) = some ico₃ ∧
      writeLoop v picked 0 (6 + picked.length * 16) ico₃ = some (icoFile images) := by
  have hlength : ((List.range (6 + picked.length * 16 + totalSize picked)).map junk).length =
      2 + (2 + (2 + (picked.length * 16 + totalSize picked))) := by
    rw [List.length_map, List.length_range]
    omega
  generalize (List.range (6 + picked.length * 16 + totalSize picked)).map junk = ico at hlength ⊢
  obtain ⟨a, ico, rfl, ha, hlength⟩ := exists_append_of_length hlength
  obtain ⟨b, ico, rfl, hb, hlength⟩ := exists_append_of_length hlength
  obtain ⟨c, ico, rfl, hc, hlength⟩ := exists_append_of_length hlength
  obtain ⟨dir, data, rfl, hdir, hdata⟩ := exists_append_of_length hlength
  refine ⟨leBytes 2 0 ++ (b ++ (c ++ (dir ++ data))), leBytes 2 0 ++ (leBytes 2 1 ++ (c ++ (dir ++ data))),
    leBytes 2 0 ++ (leBytes 2 1 ++ (leBytes 2 picked.length ++ (dir ++ data))), ?_, ?_, ?_, ?_⟩
  · exact store_append (a := []) rfl (by rw [ha, leBytes_length])
  · exact store_append (by rw [leBytes_length]) (by rw [hb, leBytes_length])
  · rw [← List.append_assoc, ← List.append_assoc (leBytes 2 0)]
    exact store_append (a := leBytes 2 0 ++ leBytes 2 1) rfl (by rw [hc, leBytes_length])
  · have hwrite := writeLoop_spec h (i := 0) (6 + picked.length * 16)
      (leBytes 2 0 ++ (leBytes 2 1 ++ leBytes 2 picked.length)) [] rfl hdir (by rw [hdir]; rfl) hdata
    simp only [List.append_assoc, List.nil_append] at hwrite
    rw [hwrite, icoFile, hlen]

/-- What is in the file that comes of a program. -/
structure Extracted (v : View) (ico : Bytes) (images : List (Bytes × Bytes)) : Prop where
  count_pos : 0 < images.length
  count_le : images.length ≤ npPeMaxIcoImgs
  size_le : (imageBytes images).length ≤ npPeMaxIco
  head : ∀ image ∈ images, image.1.length = 8
  ico : ico = icoFile images
  named : ∃ base s group groupAt count entries, (npPeRvaOff v v.rsrcRva).run = some (some base) ∧
    walk v base npPeMaxDepth base 0 0 ⟨[], npPeMaxVisits⟩ = some s ∧
    (∀ l ∈ s.leaves, IsLeaf v.p base base 0 0 0 l) ∧ group ∈ s.leaves ∧ group.type = npRtGroupIcon ∧
    (∀ l ∈ s.leaves, l.type = npRtGroupIcon → group.id ≤ l.id) ∧ (npPeRvaOff v group.rva).run = some (some groupAt) ∧
    groupAt + group.size ≤ v.p.length ∧ numAt v.p 2 (groupAt + 4) = some count ∧ 6 + count * 14 ≤ group.size ∧
    entries.Pairwise (· < ·) ∧ (∀ e ∈ entries, e < count) ∧ List.Forall₂ (Named v s.leaves groupAt) entries images

theorem groupOf_safe (h : v.Mapped) (leaves : List Leaf) : Pe.Safe (groupOf v leaves) := by
  unfold groupOf
  cases lowestGroup leaves none with
  | none => exact .failure
  | some group =>
    exact (npPeRvaOff_safe h _).bind fun _ ↦ (Pe.Safe.require _).bind fun _ ↦ (Pe.Safe.require _).bind fun _ ↦
      (npPeRd16_safe h _).bind fun _ ↦ (Pe.Safe.require _).bind fun _ ↦ (Pe.Safe.require _).bind fun _ ↦ .pure _

theorem groupOf_some (h : v.Mapped) {leaves : List Leaf} {groupAt n : Nat}
    (hrun : (groupOf v leaves).run = some (some (groupAt, n))) :
    ∃ group count, lowestGroup leaves none = some group ∧ (npPeRvaOff v group.rva).run = some (some groupAt) ∧
      groupAt + group.size ≤ v.p.length ∧ numAt v.p 2 (groupAt + 4) = some count ∧ 6 + count * 14 ≤ group.size ∧
      n = min count npPeMaxIcoImgs := by
  unfold groupOf at hrun
  cases hgroup : lowestGroup leaves none with
  | none =>
    rw [hgroup] at hrun
    cases hrun
  | some group =>
    rw [hgroup] at hrun
    obtain ⟨groupAt', hat, hrun⟩ := Pe.of_bind hrun
    obtain ⟨-, hrun⟩ := Pe.of_require hrun
    obtain ⟨hin, hrun⟩ := Pe.of_require hrun
    obtain ⟨count, hcount, hrun⟩ := Pe.of_bind hrun
    obtain ⟨-, hrun⟩ := Pe.of_require hrun
    obtain ⟨hfit, hrun⟩ := Pe.of_require hrun
    cases hrun
    rw [View.Mapped] at h
    have hcount' : numAt v.p 2 (groupAt + 4) = some count := rd_some h hcount
    exact ⟨group, count, rfl, hat, by omega, hcount', hfit, rfl⟩

/-- The extractor finds nothing, or writes the images that the group names. -/
theorem buildIco_spec (h : v.Mapped) (junk : Nat → UInt8) :
    buildIco junk v v.rsrcRva = some none ∨
      ∃ ico images, buildIco junk v v.rsrcRva = some (some ico) ∧ Extracted v ico images := by
  unfold buildIco
  cases hbase : (npPeRvaOff v v.rsrcRva).run with
  | none => exact absurd hbase (npPeRvaOff_safe h _)
  | some r =>
    cases r with
    | none => exact .inl rfl
    | some base =>
      -- The walk gives leaves of the tree only, and the group is one of them.
      obtain ⟨s, new, hwalk, hleaves, -, hnew⟩ : WalkAdds v.p base base 0 0 0 ⟨[], npPeMaxVisits⟩
        (walk v base npPeMaxDepth base 0 0 ⟨[], npPeMaxVisits⟩) :=
          walk_spec h (Nat.le_refl _) base 0 0 _ (Nat.zero_le _)
      rw [List.nil_append] at hleaves
      rw [← hleaves] at hnew
      simp only
      rw [hwalk]
      simp only
      cases hgroup : (groupOf v s.leaves).run with
      | none => exact absurd hgroup (groupOf_safe h _)
      | some r =>
        cases r with
        | none => exact .inl rfl
        | some found =>
          obtain ⟨groupAt, n⟩ := found
          obtain ⟨group, count, hlowest, hat, hfile, hcount, hfit, rfl⟩ := groupOf_some h hgroup
          obtain ⟨htype, hmem, -, hlow⟩ := lowestGroup_some (by intro b hb; cases hb) hlowest
          obtain ⟨picked, entries, hpick, hsum, hlen, hsorted, hin, hnames⟩ :=
            pickLoop_spec h s.leaves groupAt (min count npPeMaxIcoImgs) 0 [] 0 (Nat.zero_le _)
          simp only
          rw [hpick, List.nil_append, Nat.zero_add]
          rw [Nat.zero_add] at hsum
          simp only
          split
          · exact .inl rfl
          · rename_i hne
            have hcount_lt : ∀ e ∈ entries, e < count := fun e he ↦ by
              have := (hin e he).2
              omega
            obtain ⟨images, hnamed, hwrites, himages, hbytes, hhead⟩ := images_of_names (fun e he ↦ by
              have := hcount_lt e he
              omega) hnames
            refine .inr ⟨icoFile images, images, ?_, ?_⟩
            · obtain ⟨ico₁, ico₂, ico₃, hfirst, hsecond, hthird, hwrite⟩ := writeIco_spec junk hwrites himages
              rw [hfirst]
              simp only
              rw [hsecond]
              simp only
              rw [hthird]
              simp only
              rw [hwrite]
              rfl
            · refine ⟨by omega, by omega, by omega, hhead, rfl, base, s, group, groupAt, count, entries, hbase, hwalk,
                hnew, hmem.resolve_right (by intro h; cases h), htype, hlow, hat, hfile, hcount, hfit, hsorted, hcount_lt,
                hnamed⟩

end

/-! ## Well-formed files -/

/-- An ICO file as a reader sees it: the images that its entries describe are behind the directory, one after the other
up to the end of the file. -/
structure WellFormedIco (ico : Bytes) (images : List (Bytes × Bytes)) : Prop where
  reserved : numAt ico 2 0 = some 0
  type : numAt ico 2 2 = some 1
  count : numAt ico 2 4 = some images.length
  length : ico.length = 6 + images.length * 16 + (imageBytes images).length
  entry : ∀ before head image after, images = before ++ (head, image) :: after →
    slice ico (6 + before.length * 16) 8 = head ∧
    numAt ico 4 (6 + before.length * 16 + 8) = some image.length ∧
    numAt ico 4 (6 + before.length * 16 + 12) = some (6 + images.length * 16 + (imageBytes before).length) ∧
    slice ico (6 + images.length * 16 + (imageBytes before).length) image.length = image

theorem numAt_of_start {p : Bytes} {w off n : Nat} (hw : 0 < w) (hn : n < 256 ^ w) (h : leBytes w n <+: p.drop off) :
    numAt p w off = some n := by
  have hne : leBytes w n ≠ [] := List.ne_nil_of_length_pos (by rw [leBytes_length]; exact hw)
  have hle := add_length_le_of_start h hne
  have hslice := slice_of_start h
  rw [leBytes_length] at hle hslice
  rw [numAt, if_pos hle, hslice, leNat_leBytes hn]

section
variable {images before after : List (Bytes × Bytes)} {head image : Bytes}

theorem length_icoDir (h : ∀ image ∈ images, image.1.length = 8) (at_ : Nat) :
    (icoDir at_ images).length = images.length * 16 := by
  induction images generalizing at_ with
  | nil => rfl
  | cons image images ih =>
    obtain ⟨head, image⟩ := image
    rw [List.forall_mem_cons] at h
    have hhead : head.length = 8 := h.1
    simp only [icoDir, List.length_append, leBytes_length, ih h.2, hhead, List.length_cons]
    omega

/-- The entry of an image has the offset behind the images before it. -/
theorem icoDir_append (before images : List (Bytes × Bytes)) (at_ : Nat) :
    icoDir at_ (before ++ images) = icoDir at_ before ++ icoDir (at_ + (imageBytes before).length) images := by
  induction before generalizing at_ with
  | nil => rfl
  | cons image before ih =>
    obtain ⟨head, image⟩ := image
    have hcons : imageBytes ((head, image) :: before) = image ++ imageBytes before := rfl
    rw [List.cons_append, icoDir, ih, icoDir, hcons, List.length_append, ← Nat.add_assoc]
    simp only [List.append_assoc]

theorem imageBytes_append (before after : List (Bytes × Bytes)) :
    imageBytes (before ++ after) = imageBytes before ++ imageBytes after := List.flatMap_append

theorem icoFile_wellFormed (hcount : images.length ≤ npPeMaxIcoImgs) (hsize : (imageBytes images).length ≤ npPeMaxIco)
    (hhead : ∀ image ∈ images, image.1.length = 8) : WellFormedIco (icoFile images) images := by
  have hdir := length_icoDir hhead (6 + images.length * 16)
  have hfile : leBytes 2 0 ++ (leBytes 2 1 ++ (leBytes 2 images.length ++
      (icoDir (6 + images.length * 16) images ++ imageBytes images))) <+: (icoFile images).drop 0 := List.prefix_rfl
  obtain ⟨h0, h2, h4, h6, hdata⟩ : leBytes 2 0 <+: (icoFile images).drop 0 ∧
      leBytes 2 1 <+: (icoFile images).drop 2 ∧ leBytes 2 images.length <+: (icoFile images).drop 4 ∧
      icoDir (6 + images.length * 16) images <+: (icoFile images).drop 6 ∧
      imageBytes images <+: (icoFile images).drop (6 + images.length * 16) := by
    simp only [prefix_drop_append, leBytes_length, hdir] at hfile
    exact hfile
  have hlimit : images.length < 256 ^ 2 := by
    rw [npPeMaxIcoImgs] at hcount
    omega
  rw [npPeMaxIcoImgs] at hcount
  rw [npPeMaxIco] at hsize
  refine ⟨numAt_of_start (by decide) (by decide) h0, numAt_of_start (by decide) (by decide) h2,
    numAt_of_start (by decide) hlimit h4, ?_, ?_⟩
  · simp only [icoFile, List.length_append, leBytes_length, hdir]
    omega
  · generalize icoFile images = ico at h6 hdata ⊢
    -- The directory's entry for one image, by the images before it.
    intro before head image after hsplit
    have hhead_image : head.length = 8 := hhead (head, image) (hsplit ▸ List.mem_append_right _ List.mem_cons_self)
    have hbefore : (icoDir (6 + images.length * 16) before).length = before.length * 16 :=
      length_icoDir (fun i hi ↦ hhead i (hsplit ▸ List.mem_append_left _ hi)) _
    have hbytes : imageBytes images = imageBytes before ++ (image ++ imageBytes after) := by
      rw [hsplit, imageBytes_append]
      rfl
    have hlen : (imageBytes images).length =
        (imageBytes before).length + (image.length + (imageBytes after).length) := by
      rw [hbytes, List.length_append, List.length_append]
    rw [hbytes, prefix_drop_append, prefix_drop_append] at hdata
    generalize hn : 6 + images.length * 16 = n at h6 hdata hbefore ⊢
    rw [hsplit, icoDir_append, prefix_drop_append, hbefore, icoDir] at h6
    simp only [prefix_drop_append, leBytes_length, hhead_image] at h6
    obtain ⟨-, ⟨hentry, hsizeAt, hoffAt⟩, -⟩ := h6
    refine ⟨?_, numAt_of_start (by decide) (by omega) hsizeAt, numAt_of_start (by decide) (by omega) hoffAt,
      slice_of_start hdata.2.1⟩
    rw [← hhead_image]
    exact slice_of_start hentry

/-- For every file: no icon, or a well-formed one with the images that the group names; and data of a name is in the
file. -/
theorem npPeIconIco_spec (file : Bytes) :
    (∀ junk, npPeIconIco junk file = some none ∨
      ∃ ico v images, npPeIconIco junk file = some (some ico) ∧ (npPeOpen file).run = some (some v) ∧ v.p = file ∧
        0 < images.length ∧ images.length ≤ 64 ∧ WellFormedIco ico images ∧ Extracted v ico images) ∧
    (npPeOpen file).run ≠ none ∧
    ∀ v, (npPeOpen file).run = some (some v) → ∀ name, (npPeRcdata v name).run = some none ∨
      ∃ at_ size, (npPeRcdata v name).run = some (some (at_, size)) ∧ at_ + size ≤ file.length := by
  refine ⟨fun junk ↦ ?_, npPeOpen_safe file, fun v hv name ↦ ?_⟩
  · rw [npPeIconIco]
    split
    · exact .inl rfl
    · rw [iconFromMap]
      cases hopen : (npPeOpen file).run with
      | none => exact absurd hopen (npPeOpen_safe file)
      | some r =>
        cases r with
        | none => exact .inl rfl
        | some v =>
          obtain ⟨hp, hv⟩ := npPeOpen_some hopen
          obtain hnone | ⟨ico, images, hico, hext⟩ := buildIco_spec hv junk
          · exact .inl hnone
          · exact .inr ⟨ico, v, images, hico, rfl, hp, hext.count_pos, hext.count_le,
              hext.ico ▸ icoFile_wellFormed hext.count_le hext.size_le hext.head, hext⟩
  · obtain ⟨hp, hmapped⟩ := npPeOpen_some hv
    cases hrun : (npPeRcdata v name).run with
    | none => exact absurd hrun (npPeRcdata_safe hmapped name)
    | some r =>
      cases r with
      | none => exact .inl rfl
      | some found => exact .inr ⟨found.1, found.2, rfl, hp ▸ npPeRcdata_some hmapped hrun⟩

end

end NotProton.Util
