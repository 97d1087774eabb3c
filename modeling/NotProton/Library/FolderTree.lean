import Mathlib.Data.List.Basic

/-!
# FolderTree — named entries in folders inside folders

A path is the names on the way from an entry to one inside it.  Where a name is used twice in a folder, the
first use counts.
-/

namespace NotProton.Library

/-- What is in a folder: leaves and folders. -/
inductive FolderTree (ν α β : Type)
  | done
  | leaf (name : ν) (a : α) (rest : FolderTree ν α β)
  | folder (name : ν) (b : β) (inner rest : FolderTree ν α β)

inductive Entry (ν α β : Type)
  | leaf (a : α)
  | folder (b : β) (inner : FolderTree ν α β)

variable {ν α β : Type}

namespace FolderTree

def toList : FolderTree ν α β → List (ν × Entry ν α β)
  | done => []
  | leaf n a rest => (n, .leaf a) :: rest.toList
  | folder n b inner rest => (n, .folder b inner) :: rest.toList

def cons (n : ν) : Entry ν α β → FolderTree ν α β → FolderTree ν α β
  | .leaf a, rest => leaf n a rest
  | .folder b inner, rest => folder n b inner rest

def ofList : List (ν × Entry ν α β) → FolderTree ν α β
  | [] => done
  | (n, e) :: rest => cons n e (ofList rest)

@[simp] theorem toList_cons (n : ν) (e : Entry ν α β) (t : FolderTree ν α β) : (cons n e t).toList = (n, e) :: t.toList := by
  cases e <;> rfl

@[simp] theorem ofList_toList (t : FolderTree ν α β) : ofList t.toList = t := by
  induction t with
  | done => rfl
  | leaf n a rest ih =>
    show leaf n a (ofList rest.toList) = leaf n a rest
    rw [ih]
  | folder n b inner rest _ ih =>
    show folder n b inner (ofList rest.toList) = folder n b inner rest
    rw [ih]

@[simp] theorem toList_ofList (l : List (ν × Entry ν α β)) : (ofList l).toList = l := by
  induction l with
  | nil => rfl
  | cons x l ih =>
    show (cons x.1 x.2 (ofList l)).toList = x :: l
    rw [toList_cons, ih]

/-- Folders and what is in them at once: the entries of a folder one after the other, then the folder. -/
theorem induct {P : FolderTree ν α β → Prop} {Q : Entry ν α β → Prop} (done : P done)
    (cons : ∀ n e rest, Q e → P rest → P (cons n e rest)) (leaf : ∀ a, Q (.leaf a)) (folder : ∀ b inner, P inner → Q (.folder b inner)) :
    (∀ t, P t) ∧ ∀ e, Q e := by
  have htree : ∀ t, P t := by
    intro t
    induction t with
    | done => exact done
    | leaf n a rest ih => exact cons n (.leaf a) rest (leaf a) ih
    | folder n b inner rest ihInner ih => exact cons n (.folder b inner) rest (folder b inner ihInner) ih
  refine ⟨htree, ?_⟩
  intro e
  cases e with
  | leaf a => exact leaf a
  | folder b inner => exact folder b inner (htree inner)

variable [DecidableEq ν]

def item? (n : ν) (t : FolderTree ν α β) : Option (Entry ν α β) := (t.toList.find? (·.1 = n)).map Prod.snd

/-- Every entry of the name changed. -/
def change (n : ν) (f : Entry ν α β → Entry ν α β) (t : FolderTree ν α β) : FolderTree ν α β :=
  ofList (t.toList.map fun x ↦ if x.1 = n then (x.1, f x.2) else x)

def erase (n : ν) (t : FolderTree ν α β) : FolderTree ν α β := ofList (t.toList.filter (·.1 ≠ n))

/-- The entry added behind the others. -/
def add (n : ν) (e : Entry ν α β) (t : FolderTree ν α β) : FolderTree ν α β := ofList (t.toList ++ [(n, e)])

/-- The entry of the first name under the other one. -/
def rename (n m : ν) (t : FolderTree ν α β) : FolderTree ν α β := (t.item? n).elim t fun e ↦ (t.erase n).add m e

theorem item?_cons_self (n : ν) (e : Entry ν α β) (t : FolderTree ν α β) : (cons n e t).item? n = some e := by
  rw [item?, toList_cons, List.find?_cons_of_pos (by simp)]
  rfl

theorem item?_cons_ne {n m : ν} (h : n ≠ m) (e : Entry ν α β) (t : FolderTree ν α β) : (cons n e t).item? m = t.item? m := by
  rw [item?, toList_cons, List.find?_cons_of_neg (by simpa using h), item?]

theorem item?_change_self (n : ν) (f : Entry ν α β → Entry ν α β) (t : FolderTree ν α β) :
    (t.change n f).item? n = (t.item? n).map f := by
  rw [item?, item?, change, toList_ofList]
  induction t.toList with
  | nil => rfl
  | cons x l ih =>
    by_cases hx : x.1 = n
    · simp [hx]
    · simpa [hx] using ih

theorem item?_change_ne {n m : ν} (h : m ≠ n) (f : Entry ν α β → Entry ν α β) (t : FolderTree ν α β) :
    (t.change n f).item? m = t.item? m := by
  rw [item?, item?, change, toList_ofList]
  induction t.toList with
  | nil => rfl
  | cons x l ih =>
    by_cases hx : x.1 = n
    · have hne : ¬x.1 = m := fun hm ↦ h (hm.symm.trans hx)
      simpa [hx, Ne.symm h] using ih
    · by_cases hm : x.1 = m
      · simp [hm, h]
      · simpa [hx, hm] using ih

theorem item?_erase_self (n : ν) (t : FolderTree ν α β) : (t.erase n).item? n = none := by
  rw [item?, erase, toList_ofList, Option.map_eq_none_iff, List.find?_eq_none]
  intro x hx
  simpa using (List.mem_filter.mp hx).2

theorem item?_erase_ne {n m : ν} (h : m ≠ n) (t : FolderTree ν α β) : (t.erase n).item? m = t.item? m := by
  rw [item?, item?, erase, toList_ofList, List.find?_filter]
  have hsame : (fun x : ν × Entry ν α β ↦ decide (decide (x.1 ≠ n) = true ∧ decide (x.1 = m) = true)) = fun x ↦ decide (x.1 = m) := by
    funext x
    by_cases hx : x.1 = m
    · simp [hx, h]
    · simp [hx]
  rw [hsame]

theorem item?_add_ne {n m : ν} (h : m ≠ n) (e : Entry ν α β) (t : FolderTree ν α β) : (t.add n e).item? m = t.item? m := by
  rw [item?, item?, add, toList_ofList, List.find?_append]
  simp [Ne.symm h]

theorem item?_add_self {n : ν} {t : FolderTree ν α β} (h : t.item? n = none) (e : Entry ν α β) : (t.add n e).item? n = some e := by
  rw [item?, Option.map_eq_none_iff] at h
  rw [item?, add, toList_ofList, List.find?_append, h]
  simp

theorem item?_rename_old {n m : ν} (h : n ≠ m) (t : FolderTree ν α β) : (t.rename n m).item? n = none := by
  rw [rename]
  cases hn : t.item? n with
  | none => exact hn
  | some e =>
    show ((t.erase n).add m e).item? n = none
    rw [item?_add_ne h, item?_erase_self]

theorem item?_rename_new {n m : ν} (h : n ≠ m) {t : FolderTree ν α β} (hm : t.item? m = none) : (t.rename n m).item? m = t.item? n := by
  rw [rename]
  cases hn : t.item? n with
  | none => exact hm
  | some e =>
    show ((t.erase n).add m e).item? m = some e
    rw [item?_add_self (by rw [item?_erase_ne h.symm, hm])]

theorem item?_rename_ne {n m k : ν} (hn : k ≠ n) (hm : k ≠ m) (t : FolderTree ν α β) : (t.rename n m).item? k = t.item? k := by
  rw [rename]
  cases t.item? n with
  | none => rfl
  | some e =>
    show ((t.erase n).add m e).item? k = t.item? k
    rw [item?_add_ne hm, item?_erase_ne hn]

end FolderTree

namespace Entry

/-- The entry without what is in it. -/
def kind : Entry ν α β → α ⊕ β
  | leaf a => .inl a
  | folder b _ => .inr b

/-- What is in a folder, nothing for a leaf. -/
def inside : Entry ν α β → FolderTree ν α β
  | leaf _ => .done
  | folder _ inner => inner

/-- `e.Has p x`: `x` is in `e` under the path `p`, also where another use of a name comes first. -/
inductive Has : Entry ν α β → List ν → Entry ν α β → Prop
  | here (e : Entry ν α β) : Has e [] e
  | inner {b : β} {t : FolderTree ν α β} {n : ν} {e x : Entry ν α β} {p : List ν} (hmem : (n, e) ∈ t.toList)
      (h : Has e p x) : Has (folder b t) (n :: p) x

variable [DecidableEq ν]

def find? : List ν → Entry ν α β → Option (Entry ν α β)
  | [], e => some e
  | n :: p, e => (e.inside.item? n).bind (find? p)

def kind? (p : List ν) (e : Entry ν α β) : Option (α ⊕ β) := (e.find? p).map kind

/-- What is in the folder at the path changed. -/
def modify (g : FolderTree ν α β → FolderTree ν α β) : List ν → Entry ν α β → Entry ν α β
  | _, leaf a => leaf a
  | [], folder b inner => folder b (g inner)
  | n :: p, folder b inner => folder b (inner.change n (modify g p))

theorem find?_append (p q : List ν) (e : Entry ν α β) : e.find? (p ++ q) = (e.find? p).bind (find? q) := by
  induction p generalizing e with
  | nil => rfl
  | cons n p ih =>
    show (e.inside.item? n).bind (find? (p ++ q)) = ((e.inside.item? n).bind (find? p)).bind (find? q)
    cases e.inside.item? n with
    | none => rfl
    | some x => exact ih x

theorem find?_snoc {p : List ν} {n : ν} {e x : Entry ν α β} (h : e.find? p = some x) :
    e.find? (p ++ [n]) = x.inside.item? n := by
  rw [find?_append, h]
  show (x.inside.item? n).bind (find? []) = x.inside.item? n
  cases x.inside.item? n <;> rfl

/-- Nothing is below what is not there, and nothing below a leaf. -/
theorem find?_eq_none_of_append {p : List ν} {e : Entry ν α β} (h : e.find? p = none) (q : List ν) : e.find? (p ++ q) = none := by
  rw [find?_append, h]
  rfl

theorem has_of_find? {p : List ν} {e x : Entry ν α β} (h : e.find? p = some x) : Has e p x := by
  induction p generalizing e with
  | nil =>
    obtain rfl := Option.some.inj h
    exact .here e
  | cons n p ih =>
    obtain ⟨y, hy, hx⟩ := Option.bind_eq_some_iff.mp (show (e.inside.item? n).bind (find? p) = some x from h)
    rw [FolderTree.item?, Option.map_eq_some_iff] at hy
    obtain ⟨z, hz, rfl⟩ := hy
    have hn : z.1 = n := by simpa using List.find?_some hz
    cases e with
    | leaf a => cases hz
    | folder b inner =>
      have hmem : (n, z.2) ∈ inner.toList := hn ▸ List.mem_of_find?_eq_some hz
      exact .inner hmem (ih hx)

@[simp] theorem kind_modify (g : FolderTree ν α β → FolderTree ν α β) (p : List ν) (e : Entry ν α β) : (e.modify g p).kind = e.kind := by
  cases e <;> cases p <;> rfl

/-- A change inside the folder at `p` is seen at that folder and below it only. -/
theorem find?_modify_append (g : FolderTree ν α β → FolderTree ν α β) (p q : List ν) (e : Entry ν α β) :
    (e.modify g p).find? (p ++ q) = ((e.find? p).map (modify g [])).bind (find? q) := by
  induction p generalizing e with
  | nil => rfl
  | cons n p ih =>
    cases e with
    | leaf a => rfl
    | folder b inner =>
      show ((inner.change n (modify g p)).item? n).bind (find? (p ++ q)) =
        (((inner.item? n).bind (find? p)).map (modify g [])).bind (find? q)
      rw [FolderTree.item?_change_self]
      cases inner.item? n with
      | none => rfl
      | some x => exact ih x

theorem kind?_modify {g : FolderTree ν α β → FolderTree ν α β} {p q : List ν} (e : Entry ν α β) (h : ∀ n r, q ≠ p ++ n :: r) :
    (e.modify g p).kind? q = e.kind? q := by
  induction p generalizing e q with
  | nil =>
    cases q with
    | nil => exact congrArg some (kind_modify g [] e)
    | cons n r => exact absurd rfl (h n r)
  | cons m p ih =>
    cases e with
    | leaf a => rfl
    | folder b inner =>
      cases q with
      | nil => rfl
      | cons n q =>
        show (((inner.change m (modify g p)).item? n).bind (find? q)).map kind = ((inner.item? n).bind (find? q)).map kind
        by_cases hn : n = m
        · rw [hn, FolderTree.item?_change_self]
          cases inner.item? m with
          | none => rfl
          | some x =>
            refine ih x fun k r hq ↦ h k r ?_
            rw [hq, hn]
            rfl
        · rw [FolderTree.item?_change_ne hn]

/-- Entries off the way to the folder are the same, with all that is in them. -/
theorem find?_modify {g : FolderTree ν α β → FolderTree ν α β} {p q : List ν} (e : Entry ν α β) (h : ¬p <+: q) (h' : ¬q <+: p) :
    (e.modify g p).find? q = e.find? q := by
  induction p generalizing e q with
  | nil => exact absurd List.nil_prefix h
  | cons m p ih =>
    cases e with
    | leaf a => rfl
    | folder b inner =>
      cases q with
      | nil => exact absurd List.nil_prefix h'
      | cons n q =>
        show ((inner.change m (modify g p)).item? n).bind (find? q) = (inner.item? n).bind (find? q)
        by_cases hn : n = m
        · rw [hn, FolderTree.item?_change_self]
          rw [hn, List.cons_prefix_cons, not_and] at h h'
          cases inner.item? m with
          | none => rfl
          | some x => exact ih x (h rfl) (h' rfl)
        · rw [FolderTree.item?_change_ne hn]

/-- An entry with nothing in it, added to a folder that has none of the name: it is new, and nothing else is. -/
theorem kind?_modify_add {e : Entry ν α β} (he : e.inside = .done) {p : List ν} {n : ν} {w : Entry ν α β}
    (hnone : w.kind? (p ++ [n]) = none) (q : List ν) :
    (w.modify (FolderTree.add n e) p).kind? q =
      if q = p ++ [n] ∧ (w.kind? p).any Sum.isRight = true then some e.kind else w.kind? q := by
  -- Only paths below the folder can change, and there only if it is one.
  by_cases hbelow : ∃ m r, q = p ++ m :: r
  · obtain ⟨m, r, rfl⟩ := hbelow
    have hq : (w.modify (FolderTree.add n e) p).kind? (p ++ m :: r) =
        (((w.find? p).map (modify (FolderTree.add n e) [])).bind (find? (m :: r))).map kind := by
      rw [kind?, find?_modify_append]
    have hold : w.kind? (p ++ m :: r) = ((w.find? p).bind (find? (m :: r))).map kind := by rw [kind?, find?_append]
    rw [hq, hold]
    cases hp : w.find? p with
    | none =>
      have hno : ¬(p ++ m :: r = p ++ [n] ∧ (w.kind? p).any Sum.isRight = true) := by
        rw [kind?, hp]
        exact fun h ↦ Bool.false_ne_true h.2
      rw [if_neg hno]
      rfl
    | some x =>
      cases x with
      | leaf a =>
        have hno : ¬(p ++ m :: r = p ++ [n] ∧ (w.kind? p).any Sum.isRight = true) := by
          rw [kind?, hp]
          exact fun h ↦ Bool.false_ne_true h.2
        rw [if_neg hno]
        rfl
      | folder b inner =>
        have hentry : inner.item? n = none := by
          rw [kind?, find?_snoc hp, Option.map_eq_none_iff] at hnone
          exact hnone
        have hfolder : (w.kind? p).any Sum.isRight = true := by rw [kind?, hp]; rfl
        show (((inner.add n e).item? m).bind (find? r)).map kind = _
        by_cases hm : m = n
        · subst hm
          rw [FolderTree.item?_add_self hentry]
          cases r with
          | nil => rw [if_pos ⟨rfl, hfolder⟩]; rfl
          | cons k r =>
            have hno : p ++ m :: k :: r ≠ p ++ [m] := fun h ↦ by simp at h
            rw [if_neg fun h ↦ hno h.1]
            show ((e.inside.item? k).bind (find? r)).map kind = ((inner.item? m).bind (find? (k :: r))).map kind
            rw [he, hentry]
            rfl
        · have hno : p ++ m :: r ≠ p ++ [n] := fun h ↦ hm (by simpa using (List.cons.inj (List.append_cancel_left h)).1)
          rw [FolderTree.item?_add_ne hm, if_neg fun h ↦ hno h.1]
          rfl
  · have hne : q ≠ p ++ [n] := fun h ↦ hbelow ⟨n, [], h⟩
    rw [kind?_modify w fun m r h ↦ hbelow ⟨m, r, h⟩, if_neg fun h ↦ hne h.1]

/-- What is below a folder that was changed inside. -/
theorem kind?_modify_below (g : FolderTree ν α β → FolderTree ν α β) (p : List ν) (n : ν) (r : List ν) (w : Entry ν α β) :
    (w.modify g p).kind? (p ++ n :: r) = match w.find? p with
      | some (folder _ inner) => (((g inner).item? n).bind (find? r)).map kind
      | _ => none := by
  rw [kind?, find?_modify_append]
  cases w.find? p with
  | none => rfl
  | some x => cases x <;> rfl

theorem kind?_below (p : List ν) (n : ν) (r : List ν) (w : Entry ν α β) :
    w.kind? (p ++ n :: r) = match w.find? p with
      | some (folder _ inner) => ((inner.item? n).bind (find? r)).map kind
      | _ => none := by
  rw [kind?, find?_append]
  cases w.find? p with
  | none => rfl
  | some x => cases x <;> rfl

/-- Nothing is left at the name and below it, and all else stays. -/
theorem kind?_modify_erase_self (p : List ν) (n : ν) (r : List ν) (w : Entry ν α β) :
    (w.modify (FolderTree.erase n) p).kind? (p ++ n :: r) = none := by
  rw [kind?_modify_below]
  split
  · rw [FolderTree.item?_erase_self]
    rfl
  · rfl

theorem kind?_modify_erase_ne {p q : List ν} {n : ν} (h : ∀ r, q ≠ p ++ n :: r) (w : Entry ν α β) :
    (w.modify (FolderTree.erase n) p).kind? q = w.kind? q := by
  by_cases hbelow : ∃ m r, q = p ++ m :: r
  · obtain ⟨m, r, rfl⟩ := hbelow
    have hne : m ≠ n := fun hm ↦ h r (by rw [hm])
    rw [kind?_modify_below, kind?_below]
    split
    · rw [FolderTree.item?_erase_ne hne]
    · rfl
  · exact kind?_modify w fun m r hq ↦ hbelow ⟨m, r, hq⟩

theorem kind?_modify_rename_old {n m : ν} (hne : n ≠ m) (p r : List ν) (w : Entry ν α β) :
    (w.modify (FolderTree.rename n m) p).kind? (p ++ n :: r) = none := by
  rw [kind?_modify_below]
  split
  · rw [FolderTree.item?_rename_old hne]
    rfl
  · rfl

/-- All that was at the old name and below it is at the new one. -/
theorem kind?_modify_rename_new {p : List ν} {n m : ν} {w : Entry ν α β} (hne : n ≠ m) (hfree : w.kind? (p ++ [m]) = none) (r : List ν) :
    (w.modify (FolderTree.rename n m) p).kind? (p ++ m :: r) = w.kind? (p ++ n :: r) := by
  rw [kind?_modify_below, kind?_below]
  rw [kind?_below] at hfree
  split
  · rename_i b inner hp
    have hm : inner.item? m = none := by
      rw [hp] at hfree
      simpa [find?] using hfree
    rw [FolderTree.item?_rename_new hne hm]
  · rfl

theorem kind?_modify_rename_ne {p q : List ν} {n m : ν} (hn : ∀ r, q ≠ p ++ n :: r) (hm : ∀ r, q ≠ p ++ m :: r) (w : Entry ν α β) :
    (w.modify (FolderTree.rename n m) p).kind? q = w.kind? q := by
  by_cases hbelow : ∃ k r, q = p ++ k :: r
  · obtain ⟨k, r, rfl⟩ := hbelow
    rw [kind?_modify_below, kind?_below]
    split
    · rw [FolderTree.item?_rename_ne (fun h ↦ hn r (by rw [h])) fun h ↦ hm r (by rw [h])]
    · rfl
  · exact kind?_modify w fun k r hq ↦ hbelow ⟨k, r, hq⟩

end Entry

end NotProton.Library
