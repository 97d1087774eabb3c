import NotProton.WebPatch.Applied

/-!
# Scanner — the shortcuts of the two passes over a script (`webpatch.c`)

`count_matches` has `memmem` look for the literal text a pattern begins with, and the replacing pass copies a run of
bytes no enabled pattern begins with.  Neither passes over a match.
-/

open NotProton.Library

namespace NotProton.WebPatch

/-! ## The loops of the source -/

/-- `match_at`: how much of the script matches at `pos`, 0 for nothing. -/
def npMatchAt (inp : Inputs) (src find : Bytes) (pos : Nat) : Nat × Caps :=
  let f := find.headD 0
  if capIndex f = none ∧ markerText inp f = none ∧ src.getD pos 0 ≠ f then (0, noCaps)
  else if (capIndex f).isSome ∧ 0 < pos ∧ (isIdentChar (src.getD (pos - 1) 0) = true ∨ src.getD (pos - 1) 0 = 46) then
    (0, noCaps)
  else (matchFind inp find (src.drop pos) noCaps).getD (0, noCaps)

/-- `mark_start`, on the table `can_start`. -/
def markStart (inp : Inputs) (canStart : UInt8 → Bool) (find : Bytes) : UInt8 → Bool :=
  let f := find.headD 0
  if (markerText inp f).isSome then fun _ ↦ true
  else if (capIndex f).isSome then fun c ↦ canStart c || (isIdentChar c && !isDigit c)
  else Function.update canStart f true

/-- The table of all that is enabled. -/
def canStart (inp : Inputs) (gates : List Gate) : UInt8 → Bool :=
  (gates.map Gate.find).foldl (markStart inp) fun _ ↦ false

def memmem (hay needle : Bytes) : Option Nat :=
  (List.range (hay.length + 1)).find? fun i ↦ needle.isPrefixOf (hay.drop i)

/-- The loop of `count_matches`. -/
def countLoop (inp : Inputs) (src find : Bytes) (i n : Nat) : Nat :=
  if i < src.length then
    let lit := literalStart inp find
    match if lit = [] then some 0 else memmem (src.drop i) lit with
    | none => n
    | some skip =>
        let used := (npMatchAt inp src find (i + skip)).1
        if used ≠ 0 then countLoop inp src find (i + skip + used) (n + 1)
        else countLoop inp src find (i + skip + 1) n
  else n
termination_by src.length - i

def npCountMatches (inp : Inputs) (src find : Bytes) : Nat := countLoop inp src find 0 0

/-- The first enabled pattern that matches. -/
def firstHit (inp : Inputs) (src : Bytes) (i : Nat) : List Gate → Option (Nat × Gate × Caps)
  | [] => none
  | g :: gates =>
      let r := npMatchAt inp src g.find i
      if r.1 ≠ 0 then some (r.1, g, r.2) else firstHit inp src i gates

theorem firstHit_pos {inp : Inputs} {src : Bytes} {i u : Nat} {g : Gate} {caps : Caps} {gates : List Gate}
    (h : firstHit inp src i gates = some (u, g, caps)) : 0 < u := by
  induction gates with
  | nil => cases h
  | cons g' gates ih =>
    simp only [firstHit] at h
    split at h
    · next hused =>
      obtain ⟨rfl, -⟩ := Prod.mk.inj (Option.some.inj h)
      exact Nat.pos_of_ne_zero hused
    · exact ih h

/-- The scan loop of `np_webpatch_transform`. -/
def emitLoop (inp : Inputs) (gates : List Gate) (start : UInt8 → Bool) (src : Bytes) (i : Nat) : Option Bytes :=
  if i < src.length then
    let plain := (src.drop i).takeWhile fun c ↦ !start c
    if plain ≠ [] then (emitLoop inp gates start src (i + plain.length)).map (plain ++ ·)
    else
      match hhit : firstHit inp src i gates with
      | some (used, g, caps) =>
          (outExpand inp g.replace caps).bind fun text ↦
            (emitLoop inp gates start src (i + used)).map (text ++ ·)
      | none => (emitLoop inp gates start src (i + 1)).map (src.getD i 0 :: ·)
  else some []
termination_by src.length - i
decreasing_by
  · have hpos : 0 < plain.length := List.length_pos_of_ne_nil ‹_›
    show src.length - (i + plain.length) < src.length - i
    omega
  · have := firstHit_pos hhit
    omega
  · omega

/-! ## The loops without the shortcuts -/

/-- `match_at` at every place that no earlier match covers. -/
def countEvery (inp : Inputs) (src find : Bytes) (i : Nat) : Nat :=
  if i < src.length then
    let used := (npMatchAt inp src find i).1
    if used ≠ 0 then 1 + countEvery inp src find (i + used) else countEvery inp src find (i + 1)
  else 0
termination_by src.length - i

/-- Every enabled pattern at every place that no earlier match covers. -/
def emitEvery (inp : Inputs) (gates : List Gate) (src : Bytes) (i : Nat) : Option Bytes :=
  if i < src.length then
    match hhit : firstHit inp src i gates with
    | some (used, g, caps) =>
        (outExpand inp g.replace caps).bind fun text ↦ (emitEvery inp gates src (i + used)).map (text ++ ·)
    | none => (emitEvery inp gates src (i + 1)).map (src.getD i 0 :: ·)
  else some []
termination_by src.length - i
decreasing_by
  · have := firstHit_pos hhit
    omega
  · omega

/-! ## A match at a place -/

section

variable {inp : Inputs} {src : Bytes}

variable (inp) in
/-- A pattern matches where `match_at` is not 0. -/
theorem matchAt_eq (find : Bytes) {pos : Nat} (hpos : pos < src.length) :
    matchAt inp find (prevAt none src pos) (src.drop pos) =
      if (npMatchAt inp src find pos).1 = 0 then none else some (npMatchAt inp src find pos) := by
  have hbyte : src.getD pos 0 = src[pos] := List.getD_eq_getElem _ _ hpos
  rw [List.drop_eq_getElem_cons hpos]
  cases find with
  | nil =>
    have hnone : npMatchAt inp src [] pos = (0, noCaps) := by
      rw [npMatchAt]
      split_ifs <;> rfl
    rw [hnone, if_pos rfl]
    rfl
  | cons f find =>
    -- A capture at the start does not begin inside a name.
    have hprev : (prevAt none src pos).any (fun p ↦ isIdentChar p || p == 46) = true ↔
        0 < pos ∧ (isIdentChar (src.getD (pos - 1) 0) = true ∨ src.getD (pos - 1) 0 = 46) := by
      cases pos with
      | zero => simp [prevAt]
      | succ p =>
        rw [prevAt, List.getElem?_eq_getElem (by omega), Option.any_some, Nat.add_sub_cancel,
          List.getD_eq_getElem _ _ (by omega), Bool.or_eq_true, beq_iff_eq]
        exact (and_iff_right (Nat.succ_pos p)).symm
    have hdef : npMatchAt inp src (f :: find) pos =
        if capIndex f = none ∧ markerText inp f = none ∧ src.getD pos 0 ≠ f then (0, noCaps)
        else if (capIndex f).isSome = true ∧ 0 < pos ∧
            (isIdentChar (src.getD (pos - 1) 0) = true ∨ src.getD (pos - 1) 0 = 46) then (0, noCaps)
        else (matchFind inp (f :: find) (src.drop pos) noCaps).getD (0, noCaps) := rfl
    rw [hdef, hbyte]
    simp only [matchAt, hprev, ← List.drop_eq_getElem_cons hpos]
    by_cases hfirst : capIndex f = none ∧ markerText inp f = none ∧ src[pos] ≠ f
    · rw [if_pos hfirst, if_pos hfirst, if_pos rfl]
    · rw [if_neg hfirst, if_neg hfirst]
      by_cases hbehind : (capIndex f).isSome = true ∧ 0 < pos ∧
          (isIdentChar (src.getD (pos - 1) 0) = true ∨ src.getD (pos - 1) 0 = 46)
      · rw [if_pos hbehind, if_pos hbehind, if_pos rfl]
      · rw [if_neg hbehind, if_neg hbehind]
        cases hm : matchFind inp (f :: find) (src.drop pos) noCaps with
        | none => rfl
        | some r =>
          obtain ⟨u, caps⟩ := r
          cases u with
          | zero => rfl
          | succ u => rfl

theorem npMatchAt_literalStart {find : Bytes} {pos : Nat} (h : (npMatchAt inp src find pos).1 ≠ 0) :
    (literalStart inp find).isPrefixOf (src.drop pos) = true := by
  unfold npMatchAt at h
  simp only at h
  split at h
  · exact absurd rfl h
  split at h
  · exact absurd rfl h
  cases hm : matchFind inp find (src.drop pos) noCaps with
  | none =>
    rw [hm] at h
    exact absurd rfl h
  | some r => exact matchFind_literalStart hm

theorem markStart_eq (start : UInt8 → Bool) (find : Bytes) (c : UInt8) :
    markStart inp start find c = (start c || startsWith inp find c) := by
  have hset (f : UInt8) : Function.update start f true c = (start c || decide (c = f)) := by
    by_cases hc : c = f
    · rw [hc, Function.update_self, decide_eq_true rfl, Bool.or_true]
    · rw [Function.update_of_ne hc, decide_eq_false hc, Bool.or_false]
  cases find with
  | nil => exact hset 0
  | cons f find =>
    rw [markStart, startsWith, List.headD_cons]
    split_ifs
    · rw [Bool.or_true]
    · rfl
    · exact hset f

/-- The table marks a byte when one of the enabled patterns does. -/
theorem canStart_eq (gates : List Gate) (c : UInt8) :
    canStart inp gates c = gates.any fun g ↦ startsWith inp g.find c := by
  have hfold (start : UInt8 → Bool) : (gates.map Gate.find).foldl (markStart inp) start c =
      (start c || gates.any fun g ↦ startsWith inp g.find c) := by
    induction gates generalizing start with
    | nil => rw [List.map_nil, List.foldl_nil, List.any_nil, Bool.or_false]
    | cons g gates ih =>
      rw [List.map_cons, List.foldl_cons, ih, markStart_eq, List.any_cons, Bool.or_assoc]
  exact hfold fun _ ↦ false

/-- Where an enabled pattern matches, the table marks the byte. -/
theorem canStart_of_match {gates : List Gate} {g : Gate} (hg : g ∈ gates) {pos : Nat} (hpos : pos < src.length)
    (h : (npMatchAt inp src g.find pos).1 ≠ 0) : canStart inp gates (src.getD pos 0) = true := by
  have hm := matchAt_eq inp g.find hpos
  rw [if_neg h, List.drop_eq_getElem_cons hpos] at hm
  rw [canStart_eq, List.getD_eq_getElem _ _ hpos]
  exact List.any_eq_true.mpr ⟨g, hg, startsWith_of_matchAt hm⟩

/-! ## The counting pass -/

theorem prevAt_drop {α : Type} (s : List α) (i k : Nat) :
    prevAt (prevAt none s i) (s.drop i) k = prevAt none s (i + k) := by
  cases k with
  | zero => rfl
  | succ k => rw [prevAt, List.getElem?_drop, ← Nat.add_assoc, prevAt]

/-- What a scan still has to pass over does not count. -/
theorem countP_scan {α β : Type} (m : Matcher α β) (prev : Option α) (k : Nat) (s : List α) :
    (scan m prev k s).countP Option.isSome = (scan m (prevAt prev s k) 0 (s.drop k)).countP Option.isSome := by
  induction s generalizing prev k with
  | nil => cases k <;> rfl
  | cons c s ih =>
    cases k with
    | zero => rfl
    | succ k =>
      rw [scan, List.countP_cons_of_neg Bool.false_ne_true, ih, prevAt_cons, List.drop_succ_cons]

/-- The matches a plain scan still finds from a place on. -/
def countFromHere (inp : Inputs) (src find : Bytes) (i : Nat) : Nat :=
  (scan (matchAt inp find) (prevAt none src i) 0 (src.drop i)).countP Option.isSome

theorem countFromHere_end {find : Bytes} {i : Nat} (h : src.length ≤ i) : countFromHere inp src find i = 0 := by
  rw [countFromHere, List.drop_eq_nil_of_le h]
  rfl

theorem countFromHere_hit {find : Bytes} {i : Nat} (hi : i < src.length) (h : (npMatchAt inp src find i).1 ≠ 0) :
    countFromHere inp src find i = 1 + countFromHere inp src find (i + (npMatchAt inp src find i).1) := by
  have hm := matchAt_eq inp find hi
  rw [if_neg h] at hm
  have hpast : i + 1 + ((npMatchAt inp src find i).1 - 1) = i + (npMatchAt inp src find i).1 := by omega
  have hprev : prevAt none src (i + 1) = some src[i] := List.getElem?_eq_getElem hi
  have hrest := countP_scan (matchAt inp find) (some src[i]) ((npMatchAt inp src find i).1 - 1) (src.drop (i + 1))
  rw [← hprev, prevAt_drop, List.drop_drop, hpast, hprev] at hrest
  rw [countFromHere, List.drop_eq_getElem_cons hi]
  rw [List.drop_eq_getElem_cons hi] at hm
  rw [scan, hm]
  simp only [List.countP_cons, hrest, Option.isSome_some, if_true]
  rw [countFromHere, Nat.add_comm]

theorem countFromHere_miss {find : Bytes} {i : Nat} (hi : i < src.length) (h : (npMatchAt inp src find i).1 = 0) :
    countFromHere inp src find i = countFromHere inp src find (i + 1) := by
  have hm := matchAt_eq inp find hi
  rw [if_pos h] at hm
  rw [countFromHere, countFromHere, List.drop_eq_getElem_cons hi]
  rw [List.drop_eq_getElem_cons hi] at hm
  rw [scan, hm, List.countP_cons_of_neg Bool.false_ne_true, prevAt, List.getElem?_eq_getElem hi]

/-- Places where nothing matches may be jumped over. -/
theorem countFromHere_jump {find : Bytes} {i skip : Nat} (hin : i + skip ≤ src.length)
    (h : ∀ j < skip, (npMatchAt inp src find (i + j)).1 = 0) :
    countFromHere inp src find i = countFromHere inp src find (i + skip) := by
  induction skip with
  | zero => rfl
  | succ skip ih =>
    rw [ih (by omega) fun j hj ↦ h j (by omega), countFromHere_miss (by omega) (h skip (by omega))]
    rfl

theorem memmem_some {hay needle : Bytes} {k : Nat} (h : memmem hay needle = some k) :
    needle.isPrefixOf (hay.drop k) = true ∧ ∀ j < k, needle.isPrefixOf (hay.drop j) = false := by
  obtain ⟨hk, -, hj⟩ := List.find?_range_eq_some.mp h
  refine ⟨hk, ?_⟩
  intro j hlt
  rw [← Bool.not_eq_true']
  exact hj j hlt

theorem memmem_none {hay needle : Bytes} (h : memmem hay needle = none) {j : Nat} (hj : j ≤ hay.length) :
    needle.isPrefixOf (hay.drop j) = false := by
  rw [← Bool.not_eq_true]
  exact List.find?_eq_none.mp h j (List.mem_range.mpr (by omega))

/-- Where `count_matches` goes on looking. -/
def jump (inp : Inputs) (src find : Bytes) (i : Nat) : Option Nat :=
  if literalStart inp find = [] then some 0 else memmem (src.drop i) (literalStart inp find)

/-- A place the literal text does not stand at is no match. -/
theorem npMatchAt_of_not_prefix {find : Bytes} {pos : Nat}
    (h : (literalStart inp find).isPrefixOf (src.drop pos) = false) : (npMatchAt inp src find pos).1 = 0 := by
  by_contra hmatch
  rw [npMatchAt_literalStart hmatch] at h
  cases h

theorem jump_some {find : Bytes} {i skip : Nat} (hi : i < src.length) (h : jump inp src find i = some skip) :
    i + skip < src.length ∧ ∀ j < skip, (npMatchAt inp src find (i + j)).1 = 0 := by
  rw [jump] at h
  split at h
  · obtain rfl := Option.some.inj h
    exact ⟨hi, nofun⟩
  · next hlit =>
    obtain ⟨hfound, hbefore⟩ := memmem_some h
    rw [List.drop_drop] at hfound
    have hlen := (List.isPrefixOf_iff_prefix.mp hfound).length_le
    have hpos := List.length_pos_of_ne_nil hlit
    rw [List.length_drop] at hlen
    refine ⟨by omega, ?_⟩
    intro j hj
    apply npMatchAt_of_not_prefix
    rw [← List.drop_drop]
    exact hbefore j hj

theorem jump_none {find : Bytes} {i j : Nat} (hj : i + j < src.length) (h : jump inp src find i = none) :
    (npMatchAt inp src find (i + j)).1 = 0 := by
  rw [jump] at h
  split at h
  · cases h
  · apply npMatchAt_of_not_prefix
    rw [← List.drop_drop]
    exact memmem_none h (by rw [List.length_drop]; omega)

/-- The loop with the jump adds what a plain scan still finds. -/
theorem countLoop_eq (find : Bytes) (i n : Nat) :
    countLoop inp src find i n = n + countFromHere inp src find i := by
  fun_induction countLoop inp src find i n with
  | case1 i n hi lit hjump =>
    have hnone (j : Nat) (hj : j < src.length - i) : (npMatchAt inp src find (i + j)).1 = 0 :=
      jump_none (by omega) hjump
    rw [countFromHere_jump (by omega) hnone, countFromHere_end (by omega), Nat.add_zero]
  | case2 i n hi lit skip hjump used hused ih =>
    obtain ⟨hin, hmiss⟩ := jump_some hi hjump
    rw [ih, countFromHere_jump (by omega) hmiss, countFromHere_hit hin hused, ← Nat.add_assoc]
  | case3 i n hi lit skip hjump used hused ih =>
    obtain ⟨hin, hmiss⟩ := jump_some hi hjump
    rw [ih, countFromHere_jump (by omega) hmiss, countFromHere_miss hin (not_not.mp hused)]
  | case4 i n hi => rw [countFromHere_end (by omega), Nat.add_zero]

variable (inp src) in
theorem countEvery_eq (find : Bytes) (i : Nat) : countEvery inp src find i = countFromHere inp src find i := by
  fun_induction countEvery inp src find i with
  | case1 i hi used hused ih => rw [ih, countFromHere_hit hi hused]
  | case2 i hi used hused ih => rw [ih, countFromHere_miss hi (not_not.mp hused)]
  | case3 i hi => rw [countFromHere_end (by omega)]

/-! ## The replacing pass -/

/-- A byte the table does not mark starts no match. -/
theorem firstHit_unmarked {gates : List Gate} {i : Nat} (hi : i < src.length)
    (h : canStart inp gates (src.getD i 0) = false) : firstHit inp src i gates = none := by
  have hmiss : ∀ g ∈ gates, (npMatchAt inp src g.find i).1 = 0 := by
    intro g hg
    by_contra hmatch
    rw [canStart_of_match hg hi hmatch] at h
    cases h
  clear h
  induction gates with
  | nil => rfl
  | cons g gates ih =>
    simp only [firstHit]
    rw [if_neg (not_not.mpr (hmiss g List.mem_cons_self))]
    exact ih fun g hg ↦ hmiss g (List.mem_cons_of_mem _ hg)

theorem emitEvery_miss {gates : List Gate} {i : Nat} (hi : i < src.length) (h : firstHit inp src i gates = none) :
    emitEvery inp gates src i = (emitEvery inp gates src (i + 1)).map (src.getD i 0 :: ·) := by
  rw [emitEvery, if_pos hi]
  split
  · next hhit =>
    rw [h] at hhit
    cases hhit
  · rfl

theorem emitEvery_hit {gates : List Gate} {i used : Nat} {g : Gate} {caps : Caps} (hi : i < src.length)
    (h : firstHit inp src i gates = some (used, g, caps)) :
    emitEvery inp gates src i =
      (outExpand inp g.replace caps).bind fun text ↦ (emitEvery inp gates src (i + used)).map (text ++ ·) := by
  rw [emitEvery, if_pos hi]
  split
  · next hhit =>
    rw [h] at hhit
    cases hhit
    rfl
  · next hhit =>
    rw [h] at hhit
    cases hhit

/-- A run of bytes the table does not mark goes out as it is. -/
theorem emitEvery_run {gates : List Gate} {i n : Nat} (hin : i + n ≤ src.length)
    (h : ∀ j < n, canStart inp gates (src.getD (i + j) 0) = false) :
    emitEvery inp gates src i = (emitEvery inp gates src (i + n)).map ((src.drop i).take n ++ ·) := by
  induction n generalizing i with
  | zero =>
    rw [List.take_zero]
    exact Option.map_id'.symm
  | succ n ih =>
    have hi : i < src.length := by omega
    have hmarked : ∀ j < n, canStart inp gates (src.getD (i + 1 + j) 0) = false := by
      intro j hj
      rw [Nat.add_assoc, Nat.add_comm 1]
      exact h (j + 1) (by omega)
    have hrest := ih (by omega) hmarked
    rw [emitEvery_miss hi (firstHit_unmarked hi (h 0 (by omega))), hrest, Option.map_map, List.drop_eq_getElem_cons hi,
      List.take_succ_cons, List.getD_eq_getElem _ _ hi, Nat.add_assoc, Nat.add_comm 1]
    rfl

theorem emitLoop_eq (gates : List Gate) (i : Nat) :
    emitLoop inp gates (canStart inp gates) src i = emitEvery inp gates src i := by
  fun_induction emitLoop inp gates (canStart inp gates) src i with
  | case1 i hi plain hplain ih =>
    have hrun_le : plain <+: src.drop i := List.takeWhile_prefix _
    have hlen := hrun_le.length_le
    rw [List.length_drop] at hlen
    have hrun : ∀ j < plain.length, canStart inp gates (src.getD (i + j) 0) = false := by
      intro j hj
      have hmarked := List.mem_takeWhile_imp (List.getElem_mem hj)
      rw [Bool.not_eq_true'] at hmarked
      have hbyte : plain[j] = src[i + j] := by
        rw [hrun_le.getElem hj, List.getElem_drop]
      rw [List.getD_eq_getElem _ _ (by omega), ← hbyte]
      exact hmarked
    rw [emitEvery_run (by omega) hrun, ← List.prefix_iff_eq_take.mp hrun_le, ih]
  | case2 i hi plain hplain used g caps hhit ih => 
    rw [emitEvery_hit hi hhit]
    simp only [ih]
  | case3 i hi plain hplain hhit ih => rw [emitEvery_miss hi hhit, ih]
  | case4 i hi => rw [emitEvery, if_neg hi]

/-! ## The model of the transformation -/

variable (inp) in
theorem firstMatch_eq (gates : List Gate) {i : Nat} (hi : i < src.length) :
    firstMatch (fun g : Gate ↦ matchAt inp g.find) gates (prevAt none src i) (src.drop i) = firstHit inp src i gates := by
  induction gates with
  | nil => rfl
  | cons g gates ih =>
    rw [firstMatch, List.findSome?_cons, matchAt_eq inp g.find hi]
    simp only [firstHit]
    by_cases hused : (npMatchAt inp src g.find i).1 = 0
    · rw [if_pos hused, if_neg (not_not.mpr hused)]
      exact ih
    · rw [if_neg hused, if_pos hused]
      rfl

variable (inp) in
theorem emit_skip (gates : List Gate) (prev : Option UInt8) (k : Nat) (s : Bytes) :
    emit inp gates prev k s = emit inp gates (prevAt prev s k) 0 (s.drop k) := by
  induction s generalizing prev k with
  | nil => cases k <;> rfl
  | cons c s ih =>
    cases k with
    | zero => rfl
    | succ k => rw [emit, ih, prevAt_cons, List.drop_succ_cons]

theorem emit_eq_emitEvery (gates : List Gate) (i : Nat) :
    emit inp gates (prevAt none src i) 0 (src.drop i) = emitEvery inp gates src i := by
  fun_induction emitEvery inp gates src i with
  | case1 i hi used g caps hhit ih =>
    have hpos := firstHit_pos hhit
    have hpast : i + 1 + (used - 1) = i + used := by omega
    have hprev : prevAt none src (i + 1) = some src[i] := List.getElem?_eq_getElem hi
    have hrest := emit_skip inp gates (some src[i]) (used - 1) (src.drop (i + 1))
    rw [← hprev, prevAt_drop, List.drop_drop, hpast, ih, hprev] at hrest
    have hfirst := firstMatch_eq inp gates hi
    rw [hhit, List.drop_eq_getElem_cons hi] at hfirst
    rw [List.drop_eq_getElem_cons hi, emit, if_pos (startsWith_of_firstMatch hfirst), hfirst]
    simp only [hrest]
  | case2 i hi hhit ih =>
    have hfirst := firstMatch_eq inp gates hi
    rw [hhit, List.drop_eq_getElem_cons hi] at hfirst
    have hprev : prevAt none src (i + 1) = some src[i] := List.getElem?_eq_getElem hi
    rw [List.drop_eq_getElem_cons hi, emit, hfirst, ← hprev, ih, List.getD_eq_getElem _ _ hi, ite_self]
  | case3 i hi =>
    rw [List.drop_eq_nil_of_le (by omega)]
    rfl

end

/-- The passes with their shortcuts do what trying `match_at` everywhere does, and take no empty match. -/
theorem shortcuts_exact (inp : Inputs) (src : Bytes) :
    (∀ find, npCountMatches inp src find = countEvery inp src find 0 ∧
      countEvery inp src find 0 = countScan (matchAt inp find) src) ∧
    (∀ gates : List Gate, ∀ g ∈ gates, ∀ pos < src.length, (npMatchAt inp src g.find pos).1 ≠ 0 →
      canStart inp gates (src.getD pos 0) = true) ∧
    (∀ gates, emitLoop inp gates (canStart inp gates) src 0 = emitEvery inp gates src 0 ∧
      emitEvery inp gates src 0 = emit inp gates none 0 src) ∧
    (∀ find i h, Finds (matchAt inp find) src i h → h = npMatchAt inp src find i ∧ 0 < h.1) ∧
    ∀ gates i hit, firstHit inp src i gates = some hit → 0 < hit.1 := by
  refine ⟨?_, ?_, ?_, ?_, ?_⟩
  · intro find
    have hevery := countEvery_eq inp src find 0
    apply And.intro
    · rw [npCountMatches, countLoop_eq, Nat.zero_add, hevery]
    · exact hevery
  · intro gates g hg pos hpos h
    exact canStart_of_match hg hpos h
  · intro gates
    exact ⟨emitLoop_eq gates 0, (emit_eq_emitEvery gates 0).symm⟩
  · rintro find i ⟨u, caps⟩ hfinds
    obtain ⟨hi, hm, -⟩ := (finds_iff _ _ _ _).mp hfinds
    have hpos := matchAt_pos hm
    rw [matchAt_eq inp find hi] at hm
    split at hm
    · cases hm
    · exact ⟨(Option.some.inj hm).symm, hpos⟩
  · rintro gates i ⟨u, g, caps⟩ h
    exact firstHit_pos h

end NotProton.WebPatch
