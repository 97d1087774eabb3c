import NotProton.Library.LittleEndian
import NotProton.Library.SearchTree

/-!
# UserShortcuts — the non-Steam shortcuts in the client's memory (`usershortcuts.c`)

The shortcuts stand in a `CUtlRBTree`: nodes in one array, linked by their places.  Where its fields are was read off
the client's code by `probe_layout`, how many nodes the array has was not.
-/

open NotProton.Library

namespace NotProton.UserShortcuts

def treeDepthMax : Nat := 64

/-- The part of `layout_t` that `find_shortcut` reads, as `probe_layout` lets it pass. -/
structure Layout where
  root : Nat
  nodes : Nat
  stride : Nat
  key : Nat
  value : Nat
  stride_le : 16 ≤ stride ∧ stride ≤ 64
  key_le : key + 4 ≤ stride
  value_le : value + 8 ≤ stride

def npPlausibleAddr (v : Nat) : Bool := 0x100000000 ≤ v && v < 0x800000000000

def npPlausiblePtr (v : Nat) : Bool := npPlausibleAddr v && v % 8 == 0

/-- A pointer that is passed on where it is plausible. -/
def ifPlausible (p : Nat) : Option Nat := if npPlausiblePtr p = true then some p else none

theorem ifPlausible_eq_some {p q : Nat} : ifPlausible p = some q ↔ npPlausiblePtr p = true ∧ p = q := by
  rw [ifPlausible, Option.ite_none_right_eq_some, Option.some.injEq]

/-- The number in `width` bytes of the memory. -/
def readAt (mem : Nat → UInt8) (addr width : Nat) : Nat := leNat ((List.range width).map fun k ↦ mem (addr + k))

/-- An `int32_t` from its bits. -/
def int32 (v : Nat) : Int := if v < 2 ^ 31 then v else v - 2 ^ 32

/-- What a search returns, `none` for a null pointer, and what it reads of the nodes: addresses and widths. -/
structure Search where
  found : Option Nat
  reads : List (Nat × Nat)

section

variable (mem : Nat → UInt8) (l : Layout) (nodes appid : Nat)

/-- The loop of `find_shortcut`, with the depth counted down. -/
def findLoop : Nat → Int → Search
  | depth, i =>
      if i = -1 then ⟨none, []⟩
      else
        match depth with
        | 0 => ⟨none, []⟩
        | depth + 1 =>
            if i < 0 then ⟨none, []⟩
            else
              let node := nodes + i.toNat * l.stride
              let key := readAt mem (node + l.key) 4
              if key = appid then
                let shortcut := readAt mem (node + l.value) 8
                ⟨ifPlausible shortcut, [(node + l.key, 4), (node + l.value, 8)]⟩
              else
                let link := node + if key > appid then 0 else 4
                let below := findLoop depth (int32 (readAt mem link 4))
                ⟨below.found, (node + l.key, 4) :: (link, 4) :: below.reads⟩

/-- A node of the array. -/
def nodeAt (i : Nat) : LinkedNode Nat where
  key := readAt mem (nodes + i * l.stride + l.key) 4
  left := int32 (readAt mem (nodes + i * l.stride) 4)
  right := int32 (readAt mem (nodes + i * l.stride + 4) 4)

/-- The address of a node's shortcut. -/
def shortcutAt (i : Nat) : Nat := readAt mem (nodes + i * l.stride + l.value) 8

/-- A read inside `count` nodes from the node `first` on. -/
def Inside (first count : Nat) (read : Nat × Nat) : Prop :=
  nodes + first * l.stride ≤ read.1 ∧ read.1 + read.2 ≤ nodes + (first + count) * l.stride

end

def nodesOf (mem : Nat → UInt8) (l : Layout) (shortcuts : Nat) : Nat := readAt mem (shortcuts + l.nodes) 8

def rootOf (mem : Nat → UInt8) (l : Layout) (shortcuts : Nat) : Int := int32 (readAt mem (shortcuts + l.root) 4)

/-- `find_shortcut` -/
def findShortcut (mem : Nat → UInt8) (l : Layout) (shortcuts appid : Nat) : Search :=
  let nodes := nodesOf mem l shortcuts
  if npPlausiblePtr nodes = false then ⟨none, []⟩
  else findLoop mem l nodes appid treeDepthMax (rootOf mem l shortcuts)

/-! ## The search -/

section

variable {mem : Nat → UInt8} {l : Layout} {nodes appid : Nat}

theorem inside_key (i : Nat) : Inside l nodes i 1 (nodes + i * l.stride + l.key, 4) := by
  have hkey := l.key_le
  show _ ∧ nodes + i * l.stride + l.key + 4 ≤ _
  rw [Nat.add_mul, Nat.one_mul]
  omega

theorem inside_value (i : Nat) : Inside l nodes i 1 (nodes + i * l.stride + l.value, 8) := by
  have hvalue := l.value_le
  show _ ∧ nodes + i * l.stride + l.value + 8 ≤ _
  rw [Nat.add_mul, Nat.one_mul]
  omega

theorem inside_link (i : Nat) {off : Nat} (h : off ≤ 4) : Inside l nodes i 1 (nodes + i * l.stride + off, 4) := by
  have hstride := l.stride_le
  show _ ∧ nodes + i * l.stride + off + 4 ≤ _
  rw [Nat.add_mul, Nat.one_mul]
  omega

theorem Inside.array {i count : Nat} {read : Nat × Nat} (h : Inside l nodes i 1 read) (hi : i < count) :
    Inside l nodes 0 count read := by
  have hfirst : i * l.stride + l.stride ≤ count * l.stride := by
    rw [← Nat.succ_mul]
    exact Nat.mul_le_mul_right _ hi
  obtain ⟨hlow, hhigh⟩ := h
  rw [Nat.add_mul, Nat.one_mul] at hhigh
  show nodes + 0 * l.stride ≤ _ ∧ _ ≤ nodes + (0 + count) * l.stride
  rw [Nat.zero_mul, Nat.zero_add]
  omega

/-- The loop is a descent in the nodes, and reads the nodes of the descent. -/
theorem findLoop_eq (depth : Nat) (i : Int) :
    (findLoop mem l nodes appid depth i).found = ((descend (nodeAt mem l nodes) appid depth i).found.bind fun j ↦ ifPlausible (shortcutAt mem l nodes j)) ∧
    ∀ read ∈ (findLoop mem l nodes appid depth i).reads, ∃ j ∈ (descend (nodeAt mem l nodes) appid depth i).visited,
      Inside l nodes j 1 read := by
  induction depth generalizing i with
  | zero =>
    have hnone : findLoop mem l nodes appid 0 i = ⟨none, []⟩ := by
      unfold findLoop
      split <;> rfl
    rw [hnone]
    exact ⟨rfl, fun _ h ↦ absurd h List.not_mem_nil⟩
  | succ depth ih =>
    unfold findLoop descend
    by_cases hnone : i = -1
    · rw [if_pos hnone, if_pos (by omega)]
      exact ⟨rfl, fun _ h ↦ absurd h List.not_mem_nil⟩
    rw [if_neg hnone]
    by_cases hneg : i < 0
    · simp only [if_pos hneg]
      exact ⟨rfl, fun _ h ↦ absurd h List.not_mem_nil⟩
    simp only [if_neg hneg]
    by_cases hkey : readAt mem (nodes + i.toNat * l.stride + l.key) 4 = appid
    · rw [if_pos hkey, if_pos (show (nodeAt mem l nodes i.toNat).key = appid from hkey)]
      refine ⟨by rw [Option.bind_some, shortcutAt], ?_⟩
      intro read hread
      refine ⟨i.toNat, List.mem_singleton_self _, ?_⟩
      obtain rfl | hread := List.mem_cons.mp hread
      · exact inside_key _
      · rw [List.mem_singleton.mp hread]
        exact inside_value _
    · rw [if_neg hkey, if_neg (show (nodeAt mem l nodes i.toNat).key ≠ appid from hkey)]
      -- the link that is read is the node's own, to the left or to the right
      have hlink : int32 (readAt mem (nodes + i.toNat * l.stride + if readAt mem (nodes + i.toNat * l.stride + l.key) 4 > appid
          then 0 else 4) 4) = if appid < (nodeAt mem l nodes i.toNat).key then (nodeAt mem l nodes i.toNat).left
            else (nodeAt mem l nodes i.toNat).right := by
        show _ = if readAt mem (nodes + i.toNat * l.stride + l.key) 4 > appid then _ else _
        split <;> rfl
      rw [hlink]
      obtain ⟨hfound, hreads⟩ := ih (if appid < (nodeAt mem l nodes i.toNat).key then (nodeAt mem l nodes i.toNat).left
        else (nodeAt mem l nodes i.toNat).right)
      refine ⟨hfound, ?_⟩
      intro read hread
      obtain rfl | hread := List.mem_cons.mp hread
      · exact ⟨i.toNat, List.mem_cons_self, inside_key _⟩
      obtain rfl | hread := List.mem_cons.mp hread
      · refine ⟨i.toNat, List.mem_cons_self, inside_link _ ?_⟩
        split <;> omega
      · obtain ⟨j, hj, hinside⟩ := hreads read hread
        exact ⟨j, List.mem_cons_of_mem _ hj, hinside⟩

end

/-- In a tree in order that is not too deep the search returns the shortcut of the node that has the app id, exactly
where the tree has one, and reads nodes of the array only.  In any memory it looks at `TREE_DEPTH_MAX` nodes at most,
each linked from the one before it, so that it leaves the array over a link past the array's end only. -/
theorem findShortcut_spec (mem : Nat → UInt8) (l : Layout) (shortcuts appid : Nat) :
    let nodes := nodesOf mem l shortcuts
    let node := nodeAt mem l nodes
    let search := findShortcut mem l shortcuts appid
    (∀ count t, npPlausiblePtr nodes = true → Spells node count (rootOf mem l shortcuts) t → Ordered node t →
      t.height ≤ treeDepthMax →
        (∀ p, search.found = some p ↔
          npPlausiblePtr p = true ∧ ∃ j, InTree t j ∧ (node j).key = appid ∧ shortcutAt mem l nodes j = p) ∧
        ∀ read ∈ search.reads, Inside l nodes 0 count read) ∧
    (∃ visited : List Nat, visited.length ≤ treeDepthMax ∧ Linked node (rootOf mem l shortcuts) visited ∧
      ∀ read ∈ search.reads, ∃ j ∈ visited, Inside l nodes j 1 read) ∧
    ∀ count : Nat, rootOf mem l shortcuts < count → (∀ j < count, (node j).left < count ∧ (node j).right < count) →
      ∀ read ∈ search.reads, Inside l nodes 0 count read := by
  intro nodes node search
  obtain ⟨hfound, hreads⟩ := @findLoop_eq mem l nodes appid treeDepthMax (rootOf mem l shortcuts)
  have hlinked := @descend_linked Nat _ node appid treeDepthMax (rootOf mem l shortcuts)
  -- where the array's address is not plausible nothing is read
  have hsearch : search = findLoop mem l nodes appid treeDepthMax (rootOf mem l shortcuts) ∨
      npPlausiblePtr nodes = false ∧ search = ⟨none, []⟩ := by
    by_cases hptr : npPlausiblePtr nodes = false
    · right
      exact ⟨hptr, by simp only [search, findShortcut]; rw [if_pos hptr]⟩
    · left
      simp only [search, findShortcut]
      rw [if_neg hptr]
  have hvisited : ∀ read ∈ search.reads,
      ∃ j ∈ (descend node appid treeDepthMax (rootOf mem l shortcuts)).visited, Inside l nodes j 1 read := by
    cases hsearch with
    | inl heq => rwa [heq]
    | inr hnone =>
      rw [hnone.2]
      nofun
  refine ⟨?_, ⟨_, descend_visited_length _ _, hlinked, hvisited⟩, ?_⟩
  · intro count t hptr hspells hordered hheight
    obtain ⟨hdescend, hplaces⟩ := @descend_spec Nat _ node appid count treeDepthMax _ t hspells hordered hheight
    apply And.intro
    · intro p
      cases hsearch with
      | inr hnone => exact absurd (hptr.symm.trans hnone.1) (by decide)
      | inl heq =>
        rw [heq, hfound, Option.bind_eq_some_iff]
        apply Iff.intro
        · rintro ⟨j, hj, hp⟩
          obtain ⟨hvalue, rfl⟩ := ifPlausible_eq_some.mp hp
          exact ⟨hvalue, j, ((hdescend j).mp hj).1, ((hdescend j).mp hj).2, rfl⟩
        · rintro ⟨hvalue, j, hj, hkey, rfl⟩
          exact ⟨j, (hdescend j).mpr ⟨hj, hkey⟩, ifPlausible_eq_some.mpr ⟨hvalue, rfl⟩⟩
    · intro read hread
      obtain ⟨j, hj, hinside⟩ := hvisited read hread
      exact hinside.array (hspells.lt (hplaces j hj))
  · intro count hroot hlinks read hread
    obtain ⟨j, hj, hinside⟩ := hvisited read hread
    exact hinside.array (hlinked.lt hroot hlinks j hj)

def smallLayout : Layout := ⟨0, 8, 32, 16, 24, by decide, by decide, by decide⟩

/-- A node of 32 bytes: its links, its key and its shortcut's address. -/
def nodeBytes (left right key shortcut : Nat) : Bytes :=
  leBytes 4 left ++ leBytes 4 right ++ leBytes 8 0 ++ leBytes 4 key ++ leBytes 4 0 ++ leBytes 8 shortcut

/-- The root is the second of three nodes. -/
def threeNodes (a : Nat) : UInt8 :=
  if a < 16 then (leBytes 8 1 ++ leBytes 8 0x100000000).getD a 0
  else (nodeBytes 0xFFFFFFFF 0xFFFFFFFF 10 0x200000000 ++ nodeBytes 0 2 20 0x200000040 ++
    nodeBytes 0xFFFFFFFF 0xFFFFFFFF 30 0x200000080).getD (a - 0x100000000) 0

/-- The shortcut of the last node is found, in the array. -/
theorem findShortcut_spec_three : (findShortcut threeNodes smallLayout 0 30).found = some 0x200000080 ∧
    ∀ read ∈ (findShortcut threeNodes smallLayout 0 30).reads, Inside smallLayout 0x100000000 0 3 read := by
  have hnodes : nodesOf threeNodes smallLayout 0 = 0x100000000 := by decide
  let node := nodeAt threeNodes smallLayout 0x100000000
  have hends : ((node 0).left < 0 ∧ (node 0).right < 0) ∧ (node 2).left < 0 ∧ (node 2).right < 0 := by decide
  have htree : Spells node 3 (rootOf threeNodes smallLayout 0) (.node 1 (.node 0 .nil .nil) (.node 2 .nil .nil)) :=
    ⟨by decide, by decide, ⟨by decide, by decide, hends.1⟩, by decide, by decide, hends.2⟩
  have hone {i j : Nat} (h : InTree (.node j .nil .nil) i) : i = j := h.elim id fun h ↦ h.elim False.elim False.elim
  have hordered : Ordered node (.node 1 (.node 0 .nil .nil) (.node 2 .nil .nil)) := by
    refine ⟨⟨trivial, trivial, nofun, nofun⟩, ⟨trivial, trivial, nofun, nofun⟩, fun i hi ↦ ?_, fun i hi ↦ ?_⟩
    · rw [hone hi]
      decide
    · rw [hone hi]
      decide
  have hspec := findShortcut_spec threeNodes smallLayout 0 30
  simp only [hnodes] at hspec
  obtain ⟨hfound, hreads⟩ := hspec.1 3 _ (by decide) htree hordered (by decide)
  exact ⟨(hfound _).mpr ⟨by decide, 2, .inr (.inr (.inl rfl)), by decide, by decide⟩, hreads⟩

/-- A root past the end of an array of one node is followed. -/
theorem find_leaves_array : ¬ ∀ (mem : Nat → UInt8) (l : Layout) (shortcuts appid count : Nat),
    ∀ read ∈ (findShortcut mem l shortcuts appid).reads, Inside l (nodesOf mem l shortcuts) 0 count read := by
  intro h
  let l : Layout := ⟨0, 8, 32, 16, 24, by decide, by decide, by decide⟩
  -- the nodes at 0x100000000, the root 7
  have hout := h (fun a ↦ if a = 0 then 7 else if a = 12 then 1 else 0) l 0 1 1 (0x100000000 + 7 * 32 + 16, 4)
    (by decide)
  have hend := hout.2
  revert hend
  decide

end NotProton.UserShortcuts
