import NotProton.Library.Text

/-!
# Spawn — the environment a child of Steam gets (`hook_spawn.c`)

Our libraries are taken out of what other programs inherit and put back for `steam_osx` and `Steam Helper`.
Allocation is taken to succeed.
-/

open NotProton.Library

namespace NotProton.Hooks

def npInsertKey : Bytes := ascii "DYLD_INSERT_LIBRARIES="

def compatKey : Bytes := ascii "STEAM_COMPAT_DATA_PATH="

/-- The last component of a path. -/
def baseName (path : Bytes) : Bytes := (path.splitOn 47).getLastD []

def npTargetKeepsInsert : Option Bytes → Bool
  | none => true
  | some path => baseName path == ascii "steam_osx" || baseName path == ascii "Steam Helper"

def npIsInsert (entry : Bytes) : Bool := npInsertKey.isPrefixOf entry

def blockKey : Bytes := ascii "SDL_JOYSTICK_BLACKLIST_DEVICES="

/-- The values `np_remember_ours` found in the process's own environment. -/
structure Ours where
  insert : Bytes
  block : Option Bytes

def Ours.insertEntry (ours : Ours) : Bytes := npInsertKey ++ ours.insert

def Ours.blockEntry (ours : Ours) : Option Bytes := ours.block.map (blockKey ++ ·)

def npWithInsert (ours : Ours) (envp : List Bytes) : Option (List Bytes) :=
  if envp.any npIsInsert then none else some (envp ++ [ours.insertEntry])

def npListHas (list part : Bytes) : Bool := !part.isEmpty && (list.splitOn 58).any (· == part)

/-- One round of the loop in `np_drop_ours`: what stands in `out`, and `dropped`. -/
def dropStep (ours : Bytes) (st : Bytes × Nat) (part : Bytes) : Bytes × Nat :=
  if npListHas ours part then (st.1, st.2 + 1)
  else if part = [] then st
  else ((if st.1 = [] then [] else st.1 ++ [58]) ++ part, st.2)

def npDropOurs (ours value : Bytes) : Bytes × Nat := (value.splitOn 58).foldl (dropStep ours) ([], 0)

/-- The loop of `np_without_insert`: `clean`, how far `spare` has got, how far it was written, and `changed`. -/
structure Clean where
  clean : List Bytes
  spare : Nat
  written : Nat
  changed : Bool

def cleanStep (ours : Ours) (compat : Bool) (st : Clean) (entry : Bytes) : Clean :=
  if ours.blockEntry = some entry then { st with changed := true }
  else if compat && npIsInsert entry then { st with changed := true }
  else if npIsInsert entry then
    let r := npDropOurs ours.insert (entry.drop npInsertKey.length)
    let used := npInsertKey.length + r.1.length + 1
    let st := { st with written := max st.written (st.spare + used) }
    if r.2 ≠ 0 then
      if r.1 = [] then { st with changed := true }
      else { st with clean := st.clean ++ [npInsertKey ++ r.1], spare := st.spare + used, changed := true }
    else { st with clean := st.clean ++ [entry] }
  else { st with clean := st.clean ++ [entry] }

def hasCompat (envp : List Bytes) : Bool := envp.any compatKey.isPrefixOf

/-- The bytes behind `clean`. -/
def spareRoom (envp : List Bytes) : Nat := ((envp.filter npIsInsert).map fun entry ↦ entry.length + 1).sum

def cleanLoop (ours : Ours) (envp : List Bytes) : Clean :=
  envp.foldl (cleanStep ours (hasCompat envp)) ⟨[], 0, 0, false⟩

def npWithoutInsert (ours : Ours) (envp : List Bytes) : Option (List Bytes) :=
  let st := cleanLoop ours envp
  if st.changed then some st.clean else none

/-- The environment a child is started with, by any of the three hooks. -/
def npSpawnFiltered (ours : Ours) (path : Option Bytes) (envp : List Bytes) : List Bytes :=
  ((if npTargetKeepsInsert path then npWithInsert ours envp else npWithoutInsert ours envp)).getD envp

/-! ## What the lists say -/

/-- The libraries a list names. -/
def libraries (list : Bytes) : List Bytes := (list.splitOn 58).filter (· ≠ [])

def insertValue (entry : Bytes) : Bytes := entry.drop npInsertKey.length

/-- An insert entry names one of our libraries. -/
def NamesOurs (ours : Ours) (entry : Bytes) : Prop :=
  ∃ part ∈ libraries (insertValue entry), part ∈ libraries ours.insert

instance (ours : Ours) (entry : Bytes) : Decidable (NamesOurs ours entry) :=
  inferInstanceAs (Decidable (∃ part ∈ libraries (insertValue entry), part ∈ libraries ours.insert))

/-- What other programs are left of an entry. -/
def keptEntry (ours : Ours) (compat : Bool) (entry : Bytes) : Option Bytes :=
  if ours.blockEntry = some entry then none
  else if npIsInsert entry = false then some entry
  else if compat then none
  else if ¬ NamesOurs ours entry then some entry
  else
    match (libraries (insertValue entry)).filter (· ∉ libraries ours.insert) with
    | [] => none
    | part :: parts => some (npInsertKey ++ ([58] : Bytes).intercalate (part :: parts))

/-- What the environment of a child has to be: for `steam_osx` and `Steam Helper` the insert that counts names all
our libraries and nothing else changes; every other child has none of ours and keeps the rest. -/
def ChildOk (ours : Ours) (path : Option Bytes) (envp out : List Bytes) : Prop :=
  if npTargetKeepsInsert path then
    (∃ entry, out.find? npIsInsert = some entry ∧ libraries ours.insert ⊆ libraries (insertValue entry)) ∧
      out.filter (fun entry ↦ !npIsInsert entry) = envp.filter fun entry ↦ !npIsInsert entry
  else
    out = envp.filterMap (keptEntry ours (hasCompat envp)) ∧
      (∀ entry ∈ out, npIsInsert entry = true → ¬ NamesOurs ours entry) ∧
      (∀ block, ours.blockEntry = some block → block ∉ out) ∧
      (cleanLoop ours envp).written ≤ spareRoom envp

/-! ## np_drop_ours -/

theorem npListHas_iff {list part : Bytes} : npListHas list part = true ↔ part ∈ libraries list := by
  rw [npListHas, Bool.and_eq_true, Bool.not_eq_true', List.isEmpty_eq_false_iff, List.any_eq_true, libraries,
    List.mem_filter, decide_eq_true_eq]
  constructor
  · rintro ⟨hne, other, hmem, hsame⟩
    rw [beq_iff_eq] at hsame
    exact ⟨hsame ▸ hmem, hne⟩
  · rintro ⟨hmem, hne⟩
    exact ⟨hne, part, hmem, beq_self_eq_true part⟩

theorem intercalate_concat {sep part : Bytes} {parts : List Bytes} (h : parts ≠ []) :
    sep.intercalate (parts ++ [part]) = sep.intercalate parts ++ sep ++ part := by
  induction parts with
  | nil => exact absurd rfl h
  | cons first rest ih =>
    cases rest with
    | nil => simp [List.intercalate]
    | cons second rest =>
      have hrest := ih (List.cons_ne_nil second rest)
      rw [List.cons_append, List.cons_append, List.intercalate_cons_cons, ← List.cons_append, hrest,
        List.intercalate_cons_cons]
      simp only [List.append_assoc]

theorem intercalate_eq_nil {parts : List Bytes} (h : ∀ part ∈ parts, part ≠ []) :
    ([58] : Bytes).intercalate parts = [] ↔ parts = [] := by
  cases parts with
  | nil => simp
  | cons first rest =>
    have hfirst := h first List.mem_cons_self
    cases rest with
    | nil => simp [List.intercalate, hfirst]
    | cons second rest => simp [List.intercalate_cons_cons, hfirst]

/-- The parts that are kept, those that are not counted. -/
theorem foldl_dropStep (ours : Bytes) (parts : List Bytes) :
    parts.foldl (dropStep ours) ([], 0) =
      (([58] : Bytes).intercalate (parts.filter fun part ↦ part ≠ [] ∧ part ∉ libraries ours),
        parts.countP (npListHas ours)) := by
  induction parts using List.reverseRecOn with
  | nil => rfl
  | append_singleton parts part ih =>
    rw [List.foldl_append, List.foldl_cons, List.foldl_nil, ih, List.filter_append, List.countP_append, dropStep]
    by_cases hours : npListHas ours part = true
    · have hmem := npListHas_iff.mp hours
      simp [hours, hmem]
    · have hmem : part ∉ libraries ours := fun hm ↦ hours (npListHas_iff.mpr hm)
      rw [if_neg hours]
      by_cases hnil : part = []
      · have hnone : npListHas ours [] = false := rfl
        simp [hnil, hnone]
      · have hkept : ∀ p ∈ parts.filter (fun part ↦ part ≠ [] ∧ part ∉ libraries ours), p ≠ [] := by
          intro p hp
          exact (of_decide_eq_true (List.mem_filter.mp hp).2).1
        have hone : [part].filter (fun part ↦ part ≠ [] ∧ part ∉ libraries ours) = [part] := by simp [hnil, hmem]
        have hcount : [part].countP (npListHas ours) = 0 := by simp [hours]
        rw [if_neg hnil, hone, hcount, Nat.add_zero]
        generalize parts.filter (fun part ↦ part ≠ [] ∧ part ∉ libraries ours) = kept at hkept ⊢
        by_cases hempty : kept = []
        · simp [hempty, List.intercalate]
        · have hsome : ([58] : Bytes).intercalate kept ≠ [] := fun e ↦ hempty ((intercalate_eq_nil hkept).mp e)
          rw [if_neg hsome, intercalate_concat hempty]

theorem npDropOurs_eq (ours value : Bytes) : npDropOurs ours value =
    (([58] : Bytes).intercalate ((libraries value).filter (· ∉ libraries ours)),
      (value.splitOn 58).countP (npListHas ours)) := by
  have hfilter : (libraries value).filter (· ∉ libraries ours) =
      (value.splitOn 58).filter fun part ↦ part ≠ [] ∧ part ∉ libraries ours := by
    rw [show libraries value = (value.splitOn 58).filter (· ≠ []) from rfl, List.filter_filter]
    congr 1
    funext part
    simp [Bool.and_comm]
  rw [npDropOurs, foldl_dropStep, hfilter]

/-- What is left of a list is no longer than it was. -/
theorem npDropOurs_length (ours value : Bytes) : (npDropOurs ours value).1.length ≤ value.length := by
  have hloop : ∀ (parts : List Bytes) (st : Bytes × Nat) (room : Nat), (st.1 ≠ [] → st.1.length + 1 ≤ room) →
      (parts.foldl (dropStep ours) st).1 ≠ [] →
      (parts.foldl (dropStep ours) st).1.length + 1 ≤ room + (parts.map fun part ↦ part.length + 1).sum := by
    intro parts
    induction parts with
    | nil => exact fun st room hst hne ↦ hst hne
    | cons part parts ih =>
      intro st room hst hne
      rw [List.foldl_cons] at hne ⊢
      have hstep : (dropStep ours st part).1 ≠ [] → (dropStep ours st part).1.length + 1 ≤ room + (part.length + 1) := by
        unfold dropStep
        split
        · exact fun h ↦ (hst h).trans (Nat.le_add_right _ _)
        split
        · exact fun h ↦ (hst h).trans (Nat.le_add_right _ _)
        · intro _
          -- the colon stands for the end of the part before
          by_cases hempty : st.1 = []
          · simp [hempty]
          · have hroom := hst hempty
            simp only [if_neg hempty, List.length_append, List.length_singleton]
            omega
      have hrest := ih _ _ hstep hne
      rw [List.map_cons, List.sum_cons]
      omega
  by_cases hne : (npDropOurs ours value).1 = []
  · rw [hne]
    exact Nat.zero_le _
  · have htotal := hloop (value.splitOn 58) ([], 0) 0 (fun h ↦ absurd rfl h) hne
    rw [splitOn_length] at htotal
    show ((value.splitOn 58).foldl (dropStep ours) ([], 0)).1.length ≤ value.length
    omega

theorem dropped_iff (ours : Ours) (entry : Bytes) :
    (npDropOurs ours.insert (insertValue entry)).2 ≠ 0 ↔ NamesOurs ours entry := by
  rw [npDropOurs_eq, ← Nat.pos_iff_ne_zero, List.countP_pos_iff]
  constructor
  · rintro ⟨part, hmem, hours⟩
    have hin := npListHas_iff.mp hours
    refine ⟨part, ?_, hin⟩
    rw [libraries, List.mem_filter] at hin ⊢
    exact ⟨hmem, hin.2⟩
  · rintro ⟨part, hmem, hin⟩
    exact ⟨part, (List.mem_filter.mp hmem).1, npListHas_iff.mpr hin⟩

/-! ## The loop over the environment -/

/-- What the loop has after the entries `done`. -/
structure CleanOk (ours : Ours) (compat : Bool) (done : List Bytes) (st : Clean) : Prop where
  clean : st.clean = done.filterMap (keptEntry ours compat)
  same : st.changed = false → st.clean = done
  spare : st.spare ≤ spareRoom done
  written : st.written ≤ spareRoom done

theorem spareRoom_append (done : List Bytes) (entry : Bytes) :
    spareRoom (done ++ [entry]) = spareRoom done + if npIsInsert entry then entry.length + 1 else 0 := by
  unfold spareRoom
  rw [List.filter_append, List.map_append, List.sum_append]
  cases h : npIsInsert entry <;> simp [h]

theorem insertEntry_length {entry : Bytes} (h : npIsInsert entry = true) :
    npInsertKey.length + (insertValue entry).length = entry.length := by
  have hle := (List.isPrefixOf_iff_prefix.mp h).length_le
  rw [insertValue, List.length_drop]
  omega

theorem CleanOk.step {ours : Ours} {compat : Bool} {done : List Bytes} {st : Clean} (h : CleanOk ours compat done st)
    (entry : Bytes) : CleanOk ours compat (done ++ [entry]) (cleanStep ours compat st entry) := by
  have hroom := spareRoom_append done entry
  have hmore : spareRoom done ≤ spareRoom (done ++ [entry]) := by omega
  have hclean : (done ++ [entry]).filterMap (keptEntry ours compat) =
      st.clean ++ (keptEntry ours compat entry).toList := by
    rw [List.filterMap_append, ← h.clean]
    cases hkept : keptEntry ours compat entry <;> simp [hkept]
  rw [cleanStep]
  -- Our own block entry goes, in every environment.
  by_cases hblock : ours.blockEntry = some entry
  · rw [if_pos hblock]
    have hkept : keptEntry ours compat entry = none := if_pos hblock
    exact ⟨by rw [hclean, hkept, Option.toList_none, List.append_nil], (fun e ↦ by cases e), h.spare.trans hmore,
      h.written.trans hmore⟩
  rw [if_neg hblock]
  cases hinsert : npIsInsert entry with
  | false =>
    have hkept : keptEntry ours compat entry = some entry := by rw [keptEntry, if_neg hblock, if_pos hinsert]
    rw [Bool.and_false]
    simp only [Bool.false_eq_true, if_false]
    exact ⟨by rw [hclean, hkept, Option.toList_some], (fun e ↦ by rw [h.same e]), h.spare.trans hmore, h.written.trans hmore⟩
  | true =>
    have hnot : npIsInsert entry ≠ false := by rw [hinsert]; exact Bool.noConfusion
    rw [Bool.and_true]
    cases compat with
    | true =>
      have hkept : keptEntry ours true entry = none := by rw [keptEntry, if_neg hblock, if_neg hnot, if_pos rfl]
      simp only [if_true]
      exact ⟨by rw [hclean, hkept, Option.toList_none, List.append_nil], (fun e ↦ by cases e), h.spare.trans hmore,
        h.written.trans hmore⟩
    | false =>
      -- An insert of Steam's is written anew without our libraries, into room of its own length.
      have hlength := insertEntry_length hinsert
      have hshort := npDropOurs_length ours.insert (insertValue entry)
      have hdropped := dropped_iff ours entry
      have hlist := congrArg Prod.fst (npDropOurs_eq ours.insert (insertValue entry))
      rw [if_pos hinsert] at hroom
      simp only [Bool.false_eq_true, if_false, if_true]
      rw [show entry.drop npInsertKey.length = insertValue entry from rfl]
      generalize npDropOurs ours.insert (insertValue entry) = r at hshort hdropped hlist ⊢
      have hwritten : max st.written (st.spare + (npInsertKey.length + r.1.length + 1)) ≤ spareRoom (done ++ [entry]) := by
        have hspare := h.spare
        have hwrote := h.written
        omega
      by_cases hnames : NamesOurs ours entry
      · rw [if_pos (hdropped.mpr hnames)]
        have hkept : keptEntry ours false entry =
            match (libraries (insertValue entry)).filter (· ∉ libraries ours.insert) with
            | [] => none
            | part :: parts => some (npInsertKey ++ ([58] : Bytes).intercalate (part :: parts)) := by
          rw [keptEntry, if_neg hblock, if_neg hnot, if_neg Bool.false_ne_true, if_neg (not_not.mpr hnames)]
        have hparts : ∀ part ∈ (libraries (insertValue entry)).filter (· ∉ libraries ours.insert), part ≠ [] := by
          intro part hpart
          exact of_decide_eq_true (List.mem_filter.mp (List.mem_filter.mp hpart).1).2
        -- Where nothing but ours was inserted the entry goes altogether.
        by_cases hempty : r.1 = []
        · rw [if_pos hempty]
          have hnone := (intercalate_eq_nil hparts).mp (hlist.symm.trans hempty)
          rw [hnone] at hkept
          exact ⟨by rw [hclean, hkept, Option.toList_none, List.append_nil], (fun e ↦ by cases e), h.spare.trans hmore, hwritten⟩
        · rw [if_neg hempty]
          have hsome : keptEntry ours false entry = some (npInsertKey ++ r.1) := by
            rw [hkept, hlist]
            cases hfilter : (libraries (insertValue entry)).filter (· ∉ libraries ours.insert) with
            | nil => exact absurd (hlist.trans ((intercalate_eq_nil hparts).mpr hfilter)) hempty
            | cons part parts => rfl
          refine ⟨by rw [hclean, hsome, Option.toList_some], (fun e ↦ by cases e), ?_, hwritten⟩
          have hspare := h.spare
          show st.spare + (npInsertKey.length + r.1.length + 1) ≤ _
          omega
      · rw [if_neg fun hne ↦ hnames (hdropped.mp hne)]
        have hkept : keptEntry ours false entry = some entry := by
          rw [keptEntry, if_neg hblock, if_neg hnot, if_neg Bool.false_ne_true, if_pos hnames]
        exact ⟨by rw [hclean, hkept, Option.toList_some], (fun e ↦ by rw [h.same e]), h.spare.trans hmore, hwritten⟩

theorem cleanOk_cleanLoop (ours : Ours) (envp : List Bytes) :
    CleanOk ours (hasCompat envp) envp (cleanLoop ours envp) := by
  have hloop : ∀ (compat : Bool) (entries : List Bytes),
      CleanOk ours compat entries (entries.foldl (cleanStep ours compat) ⟨[], 0, 0, false⟩) := by
    intro compat entries
    induction entries using List.reverseRecOn with
    | nil => exact ⟨rfl, fun _ ↦ rfl, Nat.zero_le _, Nat.zero_le _⟩
    | append_singleton entries entry ih =>
      rw [List.foldl_append]
      exact ih.step entry
  exact hloop _ envp

/-! ## The child -/

theorem keptEntry_blockEntry {ours : Ours} {compat : Bool} {entry kept : Bytes}
    (h : keptEntry ours compat entry = some kept) : ours.blockEntry ≠ some kept := by
  have hother : ∀ list : Bytes, ours.blockEntry ≠ some (npInsertKey ++ list) := by
    intro list he
    cases hblock : ours.block with
    | none =>
      rw [Ours.blockEntry, hblock] at he
      cases he
    | some block =>
      rw [Ours.blockEntry, hblock, Option.map_some, Option.some.injEq] at he
      have hhead := congrArg List.head? he
      have hblockHead : blockKey.head? = some 83 := by decide
      have hinsertHead : npInsertKey.head? = some 68 := by decide
      rw [List.head?_append, List.head?_append, hblockHead, hinsertHead] at hhead
      cases hhead
  unfold keptEntry at h
  split at h
  · cases h
  next hblock =>
  split at h
  · exact Option.some.inj h ▸ hblock
  split at h
  · cases h
  split at h
  · exact Option.some.inj h ▸ hblock
  split at h
  · cases h
  · exact Option.some.inj h ▸ hother _

theorem keptEntry_names {ours : Ours} {compat : Bool} {entry kept : Bytes} (h : keptEntry ours compat entry = some kept)
    (hinsert : npIsInsert kept = true) : ¬ NamesOurs ours kept := by
  unfold keptEntry at h
  split at h
  · cases h
  split at h
  next hnot =>
    rw [Option.some.inj h, hinsert] at hnot
    cases hnot
  split at h
  · cases h
  split at h
  next hnames => exact Option.some.inj h ▸ hnames
  split at h
  · cases h
  next part parts hparts =>
    rw [← Option.some.inj h]
    rintro ⟨library, hlibrary, hours⟩
    have hall : ∀ p ∈ part :: parts, (58 : UInt8) ∉ p ∧ p ∉ libraries ours.insert := by
      intro p hp
      rw [← hparts, List.mem_filter, decide_eq_true_eq] at hp
      exact ⟨notMem_of_mem_splitOn (List.mem_filter.mp hp.1).1, hp.2⟩
    rw [insertValue, List.drop_left, libraries,
      List.splitOn_intercalate 58 (fun p hp ↦ (hall p hp).1) (List.cons_ne_nil _ _)] at hlibrary
    exact (hall library (List.mem_filter.mp hlibrary).1).2 hours

theorem npWithoutInsert_getD (ours : Ours) (envp : List Bytes) :
    (npWithoutInsert ours envp).getD envp = envp.filterMap (keptEntry ours (hasCompat envp)) := by
  have hok := cleanOk_cleanLoop ours envp
  unfold npWithoutInsert
  simp only
  split
  · exact hok.clean
  next hchanged =>
    rw [Option.getD_none, ← hok.clean, hok.same (Bool.not_eq_true _ ▸ hchanged)]

/-- The child's environment is as it has to be just if it is another program's, or brings no insert of its own, or one
that names all our libraries. -/
theorem npSpawnFiltered_ok_iff (ours : Ours) (path : Option Bytes) (envp : List Bytes) :
    ChildOk ours path envp (npSpawnFiltered ours path envp) ↔
      (npTargetKeepsInsert path = true → ∀ entry, envp.find? npIsInsert = some entry →
        libraries ours.insert ⊆ libraries (insertValue entry)) := by
  unfold ChildOk npSpawnFiltered
  by_cases hkeep : npTargetKeepsInsert path = true
  · simp only [hkeep, if_true, forall_const]
    by_cases hany : envp.any npIsInsert = true
    · -- an insert of any kind is left as it is
      rw [npWithInsert, if_pos hany, Option.getD_none]
      constructor
      · rintro ⟨⟨entry, hfind, hsub⟩, -⟩ other hother
        rw [hfind] at hother
        exact Option.some.inj hother ▸ hsub
      · intro hall
        obtain ⟨entry, hfind⟩ := Option.isSome_iff_exists.mp (List.find?_isSome.mpr (List.any_eq_true.mp hany))
        exact ⟨⟨entry, hfind, hall entry hfind⟩, rfl⟩
    · have hnone : envp.find? npIsInsert = none := by
        rw [List.find?_eq_none]
        exact fun entry hentry hinsert ↦ hany (List.any_eq_true.mpr ⟨entry, hentry, hinsert⟩)
      rw [npWithInsert, if_neg hany, Option.getD_some]
      have hours : npIsInsert ours.insertEntry = true := List.isPrefixOf_iff_prefix.mpr (List.prefix_append _ _)
      constructor
      · intro _ entry hentry
        rw [hnone] at hentry
        cases hentry
      · intro _
        refine ⟨⟨ours.insertEntry, ?_, ?_⟩, ?_⟩
        · rw [List.find?_append, hnone, Option.none_or, List.find?_cons, hours]
        · rw [insertValue, Ours.insertEntry, List.drop_left]
          exact List.Subset.refl _
        · rw [List.filter_append, List.filter_cons_of_neg (by rw [hours]; exact Bool.false_ne_true), List.filter_nil,
            List.append_nil]
  · simp only [hkeep, Bool.false_eq_true, if_false, false_implies, iff_true]
    rw [npWithoutInsert_getD]
    refine ⟨rfl, ?_, ?_, (cleanOk_cleanLoop ours envp).written⟩
    · intro kept hkept hinsert
      obtain ⟨entry, -, hentry⟩ := List.mem_filterMap.mp hkept
      exact keptEntry_names hentry hinsert
    · intro block hblock hmem
      obtain ⟨entry, -, hentry⟩ := List.mem_filterMap.mp hmem
      exact keptEntry_blockEntry hentry hblock

def notProtonOurs : Ours where
  insert := ascii "/Applications/Steam.app/Contents/MacOS/notproton.dylib"
  block := some (ascii "0x05ac/0x0004")

/-- The environment Steam gives a game, with its overlay. -/
def overlayEnv : List Bytes := [ascii "PATH=/bin", ascii "DYLD_INSERT_LIBRARIES=/S/gameoverlayrenderer.dylib"]

theorem npSpawnFiltered_overlay : ¬ ChildOk notProtonOurs (some (ascii "/Applications/Steam.app/Contents/MacOS/steam_osx"))
    overlayEnv (npSpawnFiltered notProtonOurs (some (ascii "/Applications/Steam.app/Contents/MacOS/steam_osx")) overlayEnv) := by
  have hkeep : npTargetKeepsInsert (some (ascii "/Applications/Steam.app/Contents/MacOS/steam_osx")) = true := by
    decide
  have hsame : npSpawnFiltered notProtonOurs (some (ascii "/Applications/Steam.app/Contents/MacOS/steam_osx")) overlayEnv =
      overlayEnv := by decide
  have hfirst : overlayEnv.find? npIsInsert = some (ascii "DYLD_INSERT_LIBRARIES=/S/gameoverlayrenderer.dylib") := by
    decide
  have hmissing : notProtonOurs.insert ∈ libraries notProtonOurs.insert ∧
      notProtonOurs.insert ∉ libraries (insertValue (ascii "DYLD_INSERT_LIBRARIES=/S/gameoverlayrenderer.dylib")) := by
    decide
  rw [ChildOk, if_pos hkeep, hsame, hfirst]
  rintro ⟨⟨entry, hentry, hsub⟩, -⟩
  rw [← Option.some.inj hentry] at hsub
  exact hmissing.2 (hsub hmissing.1)

end NotProton.Hooks
