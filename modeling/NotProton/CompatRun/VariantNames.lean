import NotProton.CompatRun.HiddenControllers
import NotProton.Library.Shell

/-!
# VariantNames — the folders of variant runners and who takes them for what (`compat_run.sh`, `RunnerStore.swift`)

A variant runner is `crossover-<build>+<id>+<id>@<hash>`, its scratch and its lock are hidden beside it.  The names
are matched back by shell globs and by the app's prefix tests.
-/

open NotProton.Library

namespace NotProton.CompatRun

/-! ## Ids and builds -/

def isIdByte (c : UInt8) : Bool := isUpper c || isLower c || isDigit c || c == 46 || c == 95 || c == 45

/-- `conf_id_ok` of a variant. -/
def variantIdOk (id : Bytes) : Bool :=
  decide (id.length ≤ 64) && (id.head?.any fun c ↦ isUpper c || isLower c || isDigit c) && id.all isIdByte

/-- `case "$np_build" in *[!A-Za-z0-9.-]*) np_build=""` -/
def isBuildIdByte (c : UInt8) : Bool := isUpper c || isLower c || isDigit c || c == 46 || c == 45

structure BuildId where
  text : Bytes
  ne_nil : text ≠ []
  ok : text.all isBuildIdByte = true

/-- What is asked for: ids with `+` between them. -/
structure VariantRequest where
  text : Bytes
  ok : ∀ part ∈ text.splitOn 43, part = [] ∨ variantIdOk part = true

def VariantRequest.ids (r : VariantRequest) : List Bytes := (r.text.splitOn 43).filter (· ≠ [])

/-! ## The stem -/

/-- The words an unquoted expansion is split into. -/
def fields (s : Bytes) : List Bytes :=
  ((s.map fun c ↦ if c = 9 ∨ c = 10 then 32 else c).splitOn 32).filter (· ≠ [])

/-- `${s% }` -/
def dropSpace (s : Bytes) : Bytes := if s.getLast? = some 32 then s.dropLast else s

/-- `tr '+' '\n' | grep -v '^$' | sort -u | tr '\n' ' '` -/
def npVariantNames (asked : Bytes) : Bytes :=
  (sortU (((asked.map fun c ↦ if c = 43 then 10 else c).splitOn 10).filter (· ≠ []))).flatMap (· ++ [32])

/-- `np_v_keep` of `np_variant_usable`, by the names `np_variant_read` can read. -/
def npVariantUsable (reads : Bytes → Bool) (asked : Bytes) : Bytes :=
  ((fields asked).filter reads).flatMap (· ++ [32])

def npVariantDirName (build sel : Bytes) : Bytes :=
  ascii "crossover-" ++ build ++ (fields sel).flatMap (43 :: ·)

/-- The last part of `np_v_stem` in `np_variant_resolve`, `none` where the base runner is left to run. -/
def npVariantStem (reads : Bytes → Bool) (build request : Bytes) : Option Bytes :=
  let asked := commandOutput (npVariantNames request)
  if asked = [] then none
  else
    let keep := npVariantUsable reads asked
    if keep = [] then none else some (commandOutput (npVariantDirName build (dropSpace keep)))

/-! ## Folders -/

/-- `$np_v_stem@<hash>` -/
def variantFolder (stem hash : Bytes) : Bytes := stem ++ 64 :: hash

/-- The suffixes of the hidden names beside a variant's folder. -/
def scratchSuffixes : List Bytes := [ascii ".new", ascii ".old", ascii ".removing"]

def lockName (stem : Bytes) : Bytes := 46 :: stem ++ ascii ".lock"

/-- A name that is made for the stem. -/
inductive MadeFor (stem : Bytes) : Bytes → Prop
  | folder (hash : Bytes) : MadeFor stem (variantFolder stem hash)
  | scratch (hash : Bytes) {suffix : Bytes} (h : suffix ∈ scratchSuffixes) :
      MadeFor stem (46 :: variantFolder stem hash ++ suffix)
  | lock : MadeFor stem (lockName stem)

/-- `hasPrefix` and `contains` of `clonedBuilds`. -/
def isClonedBuild (name : Bytes) : Bool := (ascii "crossover-").isPrefixOf name && !name.contains 43

/-- `clonedBuilds`, before it sorts. -/
def clonedBuilds (entries : List Bytes) : List Bytes := (entries.filter isClonedBuild).map (·.drop 10)

def isVariantEntry (build name : Bytes) : Bool :=
  (ascii "crossover-" ++ build ++ [43]).isPrefixOf name || (ascii ".crossover-" ++ build ++ [43]).isPrefixOf name

def variantEntries (build : Bytes) (entries : List Bytes) : List Bytes := entries.filter (isVariantEntry build)

/-- The pattern `before*after`. -/
def betweenGlob (before after name : Bytes) : Bool :=
  before.isPrefixOf name && after.isSuffixOf name && decide (before.length + after.length ≤ name.length)

/-- A folder among the runners, as `np_variant_last_good` looks at it. -/
structure RunnerDir where
  name : Bytes
  used : Option Nat
  wine : Bool
  base : Bytes
  touched : Bool

/-- `np_variant_last_good` -/
def npVariantLastGood (stem baseNow : Bytes) (dirs : List RunnerDir) : Option RunnerDir :=
  ((dirs.filter fun d ↦ betweenGlob (stem ++ [64]) [] d.name && d.used.isSome).insertionSort
    fun d e ↦ e.used.getD 0 ≤ d.used.getD 0).find? fun d ↦ d.wine && d.base == baseNow && d.touched

/-- What the clean-up finds: the lock, and how each command on a name ends. -/
structure CleanUp where
  lockable : Bool
  isDir : Bytes → Bool
  recent : Bytes → Bool
  busy : Bytes → Bool
  moved : Bytes → Bool
  removed : Bytes → Bool

def isScratchOf (stem name : Bytes) : Bool :=
  scratchSuffixes.any fun suffix ↦ betweenGlob (46 :: stem ++ [64]) suffix name

/-- `np_variant_sweep`, on the names among the runners. -/
def npVariantSweep (w : CleanUp) (stem : Bytes) (names : List Bytes) : List Bytes :=
  if names.any (isScratchOf stem) && w.lockable then
    (names.filter fun name ↦ !(isScratchOf stem name && w.removed name)) ++
      if lockName stem ∈ names then [] else [lockName stem]
  else names

/-- One folder of the loop in `np_variant_gc`. -/
def gcStep (w : CleanUp) (keep : Bytes) (names : List Bytes) (old : Bytes) : List Bytes :=
  if !w.isDir old || old == keep then names
  else if w.recent old then names
  else if w.busy old then names
  else
    let trash := 46 :: old ++ ascii ".removing"
    if !w.moved old then names
    else
      let names := names.filter (· ≠ old)
      if w.removed trash then names.filter (· ≠ trash)
      else if trash ∈ names then names else names ++ [trash]

/-- `np_variant_gc` -/
def npVariantGc (w : CleanUp) (stem keep : Bytes) (names : List Bytes) : List Bytes :=
  let names := npVariantSweep w stem names
  (names.filter (betweenGlob (stem ++ [64]) [])).foldl (gcStep w keep) names

/-! ## Sorted lists of names -/

instance : IsTrans Bytes (· ≤ ·) := ⟨fun _ _ _ h h' ↦ List.le_trans h h'⟩

/-- Sorted lists without repetition that have the same members are the same. -/
theorem sorted_ext {l m : List Bytes} (hl : l.Pairwise (· ≤ ·)) (hm : m.Pairwise (· ≤ ·)) (hl' : l.Nodup) (hm' : m.Nodup)
    (h : ∀ x, x ∈ l ↔ x ∈ m) : l = m :=
  List.Perm.eq_of_pairwise (fun _ _ _ _ h h' ↦ List.le_antisymm h h') hl hm ((List.perm_ext_iff_of_nodup hl' hm').mpr h)

theorem sortU_sorted (l : List Bytes) : (sortU l).Pairwise (· ≤ ·) := List.pairwise_insertionSort _ _

theorem sortU_nodup (l : List Bytes) : (sortU l).Nodup := ((List.perm_insertionSort _ _).nodup_iff).mpr (List.nodup_dedup l)

/-! ## Ids in texts -/

/-- No byte that separates anything is in an id. -/
theorem isIdByte_ne {c d : UInt8} (h : isIdByte c = true) (hd : d ∈ [9, 10, 32, 43, 64]) : c ≠ d := by
  rintro rfl
  have hall : ∀ c ∈ ([9, 10, 32, 43, 64] : List UInt8), isIdByte c = false := by decide +kernel
  rw [hall c hd] at h
  cases h

theorem variantIdOk_ne_nil {id : Bytes} (h : variantIdOk id = true) : id ≠ [] := by
  rintro rfl
  cases h

theorem variantIdOk_notMem {id : Bytes} (h : variantIdOk id = true) {d : UInt8} (hd : d ∈ [9, 10, 32, 43, 64]) : d ∉ id := by
  rw [variantIdOk, Bool.and_eq_true] at h
  intro hmem
  exact isIdByte_ne (List.all_eq_true.mp h.2 d hmem) hd rfl

theorem isBuildIdByte_ne {c d : UInt8} (h : isBuildIdByte c = true) (hd : d ∈ [10, 43, 64]) : c ≠ d := by
  rintro rfl
  have hall : ∀ c ∈ ([10, 43, 64] : List UInt8), isBuildIdByte c = false := by decide +kernel
  rw [hall c hd] at h
  cases h

theorem BuildId.notMem (build : BuildId) {d : UInt8} (hd : d ∈ [10, 43, 64]) : d ∉ build.text :=
  fun hmem ↦ isBuildIdByte_ne (List.all_eq_true.mp build.ok d hmem) hd rfl

theorem VariantRequest.ids_ok (r : VariantRequest) : ∀ id ∈ r.ids, variantIdOk id = true := by
  intro id hid
  obtain ⟨hpart, hne⟩ := List.mem_filter.mp hid
  exact (r.ok id hpart).resolve_left (of_decide_eq_true hne)

/-- `tr '+' '\n'` and splitting at newlines splits at `+`. -/
theorem splitOn_plus {s : Bytes} (h : 10 ∉ s) : (s.map fun c ↦ if c = 43 then 10 else c).splitOn 10 = s.splitOn 43 := by
  induction s with
  | nil => rfl
  | cons c s ih =>
    rw [List.mem_cons, not_or] at h
    rw [List.map_cons]
    by_cases hc : c = 43
    · rw [if_pos hc, hc, splitOn_cons_self, splitOn_cons_self, ih h.2]
    · rw [if_neg hc, splitOn_cons_ne (Ne.symm h.1), splitOn_cons_ne hc, ih h.2]

theorem VariantRequest.no_newline (r : VariantRequest) : 10 ∉ r.text := by
  have hall : r.text.all (· ≠ 10) = true := by
    apply all_of_splitOn (c := 43) (by decide)
    intro part hpart
    rw [List.all_eq_true]
    intro c hc
    obtain rfl | hok := r.ok part hpart
    · cases hc
    · apply decide_eq_true
      rintro rfl
      exact variantIdOk_notMem hok (by decide) hc
  intro hmem
  exact absurd (List.all_eq_true.mp hall 10 hmem) (by decide)

/-- Words with a space after each are split into themselves. -/
theorem fields_words {ids : List Bytes} (h : ∀ id ∈ ids, variantIdOk id = true) : fields (ids.flatMap (· ++ [32])) = ids := by
  have hsame : ∀ c ∈ ids.flatMap (· ++ [32]), (if c = 9 ∨ c = 10 then 32 else c) = id c := by
    intro c hc
    obtain ⟨word, hword, hc⟩ := List.mem_flatMap.mp hc
    apply if_neg
    rintro (rfl | rfl)
    · obtain hc | hc := List.mem_append.mp hc
      · exact variantIdOk_notMem (h word hword) (by decide) hc
      · exact absurd (List.mem_singleton.mp hc) (by decide)
    · obtain hc | hc := List.mem_append.mp hc
      · exact variantIdOk_notMem (h word hword) (by decide) hc
      · exact absurd (List.mem_singleton.mp hc) (by decide)
  rw [fields, List.map_congr_left hsame, List.map_id, splitOn_flatMap fun word hword ↦ variantIdOk_notMem (h word hword) (by decide),
    List.filter_append]
  have hall : ids.filter (· ≠ []) = ids := by
    apply List.filter_eq_self.mpr
    intro word hword
    exact decide_eq_true (variantIdOk_ne_nil (h word hword))
  rw [hall]
  exact List.append_nil ids

theorem fields_concat (s : Bytes) : fields (s ++ [32]) = fields s := by
  rw [fields, List.map_append, List.map_singleton, if_neg (by decide), List.splitOn_append_cons_self,
    List.filter_append, fields]
  exact List.append_nil _

theorem fields_dropSpace (s : Bytes) : fields (dropSpace s) = fields s := by
  rw [dropSpace]
  split
  · next hlast =>
    rw [← fields_concat, ← List.dropLast_append_getLast? 32 hlast]
    simp
  · rfl

/-! ## What the stem is -/

/-- The ids that are asked for and usable, each once, in order. -/
def usableIds (reads : Bytes → Bool) (r : VariantRequest) : List Bytes := (sortU r.ids).filter reads

def stemOf (build : Bytes) (ids : List Bytes) : Bytes := ascii "crossover-" ++ build ++ ids.flatMap (43 :: ·)

theorem mem_usableIds {reads : Bytes → Bool} {r : VariantRequest} {id : Bytes} :
    id ∈ usableIds reads r ↔ id ∈ r.ids ∧ reads id = true := by
  rw [usableIds, List.mem_filter, mem_sortU]

theorem usableIds_ok {reads : Bytes → Bool} {r : VariantRequest} : ∀ id ∈ usableIds reads r, variantIdOk id = true :=
  fun id hid ↦ r.ids_ok id (mem_usableIds.mp hid).1

theorem notMem_flatMap {ids : List Bytes} {f : Bytes → Bytes} {d : UInt8} (h : ∀ id ∈ ids, d ∉ f id) : d ∉ ids.flatMap f := by
  intro hmem
  obtain ⟨id, hid, hd⟩ := List.mem_flatMap.mp hmem
  exact h id hid hd

theorem stemOf_notMem (build : BuildId) {ids : List Bytes} (h : ∀ id ∈ ids, variantIdOk id = true) {d : UInt8}
    (hd : d ∈ [10, 64]) : d ∉ stemOf build.text ids := by
  have hsub : ∀ d ∈ ([10, 64] : List UInt8), d ∈ ([10, 43, 64] : List UInt8) ∧ d ∈ ([9, 10, 32, 43, 64] : List UInt8) ∧
      d ≠ 43 ∧ d ∉ ascii "crossover-" := by
    decide +kernel
  obtain ⟨hbuild, hid, hplus, hstart⟩ := hsub d hd
  rw [stemOf, List.mem_append, List.mem_append, not_or, not_or]
  refine ⟨⟨hstart, build.notMem hbuild⟩, notMem_flatMap ?_⟩
  intro id hmem
  rw [List.mem_cons, not_or]
  exact ⟨hplus, variantIdOk_notMem (h id hmem) hid⟩

theorem npVariantStem_eq (reads : Bytes → Bool) (build : BuildId) (r : VariantRequest) :
    npVariantStem reads build.text r.text =
      if usableIds reads r = [] then none else some (stemOf build.text (usableIds reads r)) := by
  have hsorted : ∀ id ∈ sortU r.ids, variantIdOk id = true := fun id hid ↦ r.ids_ok id (mem_sortU.mp hid)
  have hnames : npVariantNames r.text = (sortU r.ids).flatMap (· ++ [32]) := by
    rw [npVariantNames, splitOn_plus r.no_newline, VariantRequest.ids]
  have hasked : commandOutput (npVariantNames r.text) = (sortU r.ids).flatMap (· ++ [32]) := by
    rw [hnames]
    apply commandOutput_of_notMem
    apply notMem_flatMap
    intro id hid
    rw [List.mem_append, not_or]
    exact ⟨variantIdOk_notMem (hsorted id hid) (by decide), by decide⟩
  have hempty (ids : List Bytes) : ids.flatMap (· ++ [32]) = [] ↔ ids = [] := by
    cases ids <;> simp
  have hkeep : npVariantUsable reads ((sortU r.ids).flatMap (· ++ [32])) = (usableIds reads r).flatMap (· ++ [32]) := by
    rw [npVariantUsable, fields_words hsorted, usableIds]
  have hdir : commandOutput (npVariantDirName build.text (dropSpace ((usableIds reads r).flatMap (· ++ [32])))) =
      stemOf build.text (usableIds reads r) := by
    rw [npVariantDirName, fields_dropSpace, fields_words usableIds_ok]
    exact commandOutput_of_notMem (stemOf_notMem build usableIds_ok (by decide))
  unfold npVariantStem
  simp only [hasked, hempty, hkeep, hdir]
  by_cases hnone : sortU r.ids = []
  · rw [if_pos hnone, if_pos (by rw [usableIds, hnone]; rfl)]
  · rw [if_neg hnone]

theorem splitOn_plus_words {pre : Bytes} {ids : List Bytes} (hpre : 43 ∉ pre) (h : ∀ id ∈ ids, variantIdOk id = true) :
    (pre ++ ids.flatMap (43 :: ·)).splitOn 43 = pre :: ids := by
  induction ids generalizing pre with
  | nil =>
    rw [List.flatMap_nil, List.append_nil]
    exact List.splitOn_eq_singleton hpre
  | cons id ids ih =>
    obtain ⟨hid, hids⟩ := List.forall_mem_cons.mp h
    rw [List.flatMap_cons, List.cons_append, List.splitOn_append_cons_self_of_not_mem hpre,
      ih (variantIdOk_notMem hid (by decide)) hids]

/-- One stem is for one build and one set of ids. -/
theorem stemOf_inj {build build' : BuildId} {ids ids' : List Bytes} (h : ∀ id ∈ ids, variantIdOk id = true)
    (h' : ∀ id ∈ ids', variantIdOk id = true) (heq : stemOf build.text ids = stemOf build'.text ids') :
    build.text = build'.text ∧ ids = ids' := by
  rw [stemOf, stemOf, List.append_assoc, List.append_assoc] at heq
  have hrest := congrArg (List.splitOn 43) (List.append_cancel_left heq)
  rw [splitOn_plus_words (build.notMem (by decide)) h, splitOn_plus_words (build'.notMem (by decide)) h'] at hrest
  exact List.cons.inj hrest

theorem usableIds_congr {reads reads' : Bytes → Bool} {r r' : VariantRequest}
    (h : ∀ id, id ∈ r.ids ∧ reads id = true ↔ id ∈ r'.ids ∧ reads' id = true) :
    usableIds reads r = usableIds reads' r' := by
  apply sorted_ext ((sortU_sorted _).filter _) ((sortU_sorted _).filter _) ((sortU_nodup _).filter _) ((sortU_nodup _).filter _)
  intro id
  exact mem_usableIds.trans ((h id).trans mem_usableIds.symm)

/-! ## Names made for a stem -/

/-- The stem of some build and some usable ids. -/
structure VariantStem where
  build : BuildId
  ids : List Bytes
  ids_ok : ∀ id ∈ ids, variantIdOk id = true
  some_id : ids ≠ []

def VariantStem.text (s : VariantStem) : Bytes := stemOf s.build.text s.ids

section

variable {s t : VariantStem} {name : Bytes}

theorem VariantStem.no_at (s : VariantStem) : 64 ∉ s.text := stemOf_notMem s.build s.ids_ok (by decide)

theorem VariantStem.text_eq (s : VariantStem) : ∃ rest, s.text = ascii "crossover-" ++ s.build.text ++ 43 :: rest := by
  obtain ⟨id, ids, hids⟩ := List.exists_cons_of_ne_nil s.some_id
  rw [VariantStem.text, stemOf, hids, List.flatMap_cons]
  exact ⟨id ++ ids.flatMap (43 :: ·), rfl⟩

theorem VariantStem.head (s : VariantStem) : s.text.head? = some 99 := by
  obtain ⟨rest, hrest⟩ := s.text_eq
  rw [hrest, List.append_assoc]
  rfl

/-- A stem does not begin like a hidden name. -/
theorem VariantStem.ne_hidden (s : VariantStem) (rest hidden : Bytes) : s.text ++ rest ≠ 46 :: hidden := by
  intro h
  have hhead := congrArg List.head? h
  rw [List.head?_append, s.head] at hhead
  cases hhead

/-- What stands before the first separator. -/
theorem takeWhile_before {d : UInt8} {stem rest : Bytes} (h : d ∉ stem) : (stem ++ d :: rest).takeWhile (· ≠ d) = stem := by
  have hall : ∀ c ∈ stem, decide (c ≠ d) = true := by
    intro c hc
    apply decide_eq_true
    rintro rfl
    exact h hc
  rw [List.takeWhile_append_of_pos hall, List.takeWhile_cons_of_neg (by simp), List.append_nil]

/-- What the clean-up of a stem may take away or make. -/
def Touched (stem name : Bytes) : Prop :=
  betweenGlob (stem ++ [64]) [] name = true ∨ isScratchOf stem name = true ∨ name = lockName stem

theorem betweenGlob_prefix {before after : Bytes} (h : betweenGlob before after name = true) : ∃ rest, name = before ++ rest := by
  rw [betweenGlob, Bool.and_eq_true, Bool.and_eq_true] at h
  obtain ⟨rest, hrest⟩ := List.isPrefixOf_iff_prefix.mp h.1.1
  exact ⟨rest, hrest.symm⟩

theorem isScratchOf_prefix {stem : Bytes} (h : isScratchOf stem name = true) :
    ∃ rest, name = 46 :: (stem ++ 64 :: rest) := by
  obtain ⟨suffix, -, hglob⟩ := List.any_eq_true.mp h
  obtain ⟨rest, hrest⟩ := betweenGlob_prefix hglob
  refine ⟨rest, ?_⟩
  rw [hrest, List.cons_append, List.cons_append, List.append_assoc]
  rfl

theorem VariantStem.lock_no_at (s : VariantStem) : 64 ∉ lockName s.text := by
  rw [lockName, List.cons_append, List.mem_cons, List.mem_append, not_or, not_or]
  exact ⟨by decide, s.no_at, by decide⟩

/-- A name with a stem and an `@` in front is for that stem. -/
theorem VariantStem.eq_of_at {rest rest' : Bytes} (h : s.text ++ 64 :: rest = t.text ++ 64 :: rest') : s.text = t.text := by
  have htake := congrArg (List.takeWhile (· ≠ 64)) h
  rwa [takeWhile_before s.no_at, takeWhile_before t.no_at] at htake

theorem variantFolder_mem (stem hash : Bytes) : 64 ∈ variantFolder stem hash :=
  List.mem_append_right stem List.mem_cons_self

theorem scratchName_eq (stem hash suffix : Bytes) :
    46 :: variantFolder stem hash ++ suffix = 46 :: (stem ++ 64 :: (hash ++ suffix)) := by
  rw [variantFolder, List.cons_append, List.append_assoc, List.cons_append]

/-- The clean-up of one stem touches nothing made for another. -/
theorem MadeFor.touched (hmade : MadeFor t.text name) (h : Touched s.text name) : s.text = t.text := by
  -- The stem ends at the first `@`, which a lock file's name has not.
  obtain hglob | hscratch | hlock := h
  · obtain ⟨rest, hrest⟩ := betweenGlob_prefix hglob
    rw [List.append_assoc, List.singleton_append] at hrest
    cases hmade with
    | folder hash => exact VariantStem.eq_of_at hrest.symm
    | scratch hash hsuffix =>
      rw [scratchName_eq] at hrest
      exact absurd hrest.symm (s.ne_hidden _ _)
    | lock => exact absurd (hrest ▸ variantFolder_mem s.text rest) t.lock_no_at
  · obtain ⟨rest, hrest⟩ := isScratchOf_prefix hscratch
    cases hmade with
    | folder hash => exact absurd hrest (t.ne_hidden _ _)
    | scratch hash hsuffix =>
      rw [scratchName_eq] at hrest
      exact VariantStem.eq_of_at (List.cons.inj hrest).2.symm
    | lock =>
      have hat : 64 ∈ lockName t.text := by
        rw [hrest]
        exact List.mem_cons_of_mem _ (variantFolder_mem s.text rest)
      exact absurd hat t.lock_no_at
  · cases hmade with
    | folder hash => exact absurd (hlock ▸ variantFolder_mem t.text hash) s.lock_no_at
    | @scratch hash suffix hsuffix =>
      rw [scratchName_eq] at hlock
      have hat : 64 ∈ lockName s.text := by
        rw [← hlock]
        exact List.mem_cons_of_mem _ (variantFolder_mem t.text (hash ++ suffix))
      exact absurd hat s.lock_no_at
    | lock =>
      rw [lockName, lockName, List.cons_append, List.cons_append] at hlock
      exact (List.append_cancel_right (List.cons.inj hlock).2).symm

/-! ## The app -/

/-- No name made for a variant is taken for a base runner. -/
theorem MadeFor.not_cloned (h : MadeFor t.text name) : isClonedBuild name = false := by
  rw [isClonedBuild, Bool.and_eq_false_iff]
  cases h with
  | folder hash =>
    obtain ⟨rest, hrest⟩ := t.text_eq
    right
    have hplus : (43 : UInt8) ∈ variantFolder t.text hash := by
      rw [variantFolder, hrest, List.append_assoc]
      exact List.mem_append_right _ List.mem_cons_self
    rw [List.contains_iff_mem.mpr hplus]
    rfl
  | scratch hash hsuffix => exact .inl rfl
  | lock => exact .inl rfl

theorem prefix_plus_iff {pre b c rest : Bytes} (hb : 43 ∉ b) (hc : 43 ∉ c) :
    (pre ++ b ++ [43]).isPrefixOf (pre ++ c ++ 43 :: rest) = true ↔ b = c := by
  rw [List.isPrefixOf_iff_prefix, List.append_assoc, List.append_assoc, List.prefix_append_right_inj]
  apply Iff.intro
  · rintro ⟨tail, htail⟩
    rw [List.append_assoc, List.singleton_append] at htail
    have htake := congrArg (List.takeWhile (· ≠ 43)) htail
    rwa [takeWhile_before hb, takeWhile_before hc] at htake
  · rintro rfl
    exact ⟨rest, by rw [List.append_assoc, List.singleton_append]⟩

/-- A hidden name does not begin like a shown one, nor the other way round. -/
theorem not_prefix_of_head {pre b : Bytes} {c d : UInt8} (h : pre.head? = some c) (hname : name.head? = some d) (hcd : c ≠ d) :
    (pre ++ b).isPrefixOf name = false := by
  rw [← Bool.not_eq_true, List.isPrefixOf_iff_prefix]
  rintro ⟨tail, rfl⟩
  rw [List.append_assoc, List.head?_append, h] at hname
  exact hcd (Option.some.inj hname)

/-- A name made for a variant is an entry of its own build. -/
theorem MadeFor.variantEntry_iff (h : MadeFor t.text name) (build : BuildId) :
    isVariantEntry build.text name = true ↔ build.text = t.build.text := by
  obtain ⟨rest, hrest⟩ := t.text_eq
  have hb := build.notMem (d := 43) (by decide)
  have hc := t.build.notMem (d := 43) (by decide)
  have hdot : ascii ".crossover-" = 46 :: ascii "crossover-" := by decide
  have hidden (tail : Bytes) : isVariantEntry build.text (46 :: (t.text ++ tail)) = true ↔ build.text = t.build.text := by
    have hnot : (ascii "crossover-" ++ build.text ++ [43]).isPrefixOf (46 :: (t.text ++ tail)) = false := by
      have hstart : (ascii "crossover-").head? = some 99 := by decide
      rw [List.append_assoc]
      exact not_prefix_of_head hstart rfl (by decide)
    rw [isVariantEntry, hnot, Bool.false_or, hrest, List.append_assoc _ _ tail, ← List.cons_append, ← List.cons_append, ← hdot, List.cons_append]
    exact prefix_plus_iff hb hc
  cases h with
  | folder hash =>
    have hhead : (variantFolder t.text hash).head? = some 99 := by
      rw [variantFolder, List.head?_append, t.head]
      rfl
    have hnot : (ascii ".crossover-" ++ build.text ++ [43]).isPrefixOf (variantFolder t.text hash) = false := by
      have hdots : (ascii ".crossover-").head? = some 46 := by decide
      rw [List.append_assoc]
      exact not_prefix_of_head hdots hhead (by decide)
    rw [isVariantEntry, hnot, Bool.or_false, variantFolder, hrest, List.append_assoc _ _ (64 :: hash), List.cons_append]
    exact prefix_plus_iff hb hc
  | scratch hash hsuffix =>
    rw [scratchName_eq]
    exact hidden _
  | lock => exact hidden _

theorem MadeFor.clonedBuilds_cons (h : MadeFor t.text name) (entries : List Bytes) :
    clonedBuilds (name :: entries) = clonedBuilds entries := by
  rw [clonedBuilds, List.filter_cons_of_neg (by rw [h.not_cloned]; decide), clonedBuilds]

theorem MadeFor.mem_variantEntries (h : MadeFor t.text name) (build : BuildId) {entries : List Bytes} (hmem : name ∈ entries) :
    name ∈ variantEntries build.text entries ↔ build.text = t.build.text := by
  rw [variantEntries, List.mem_filter, h.variantEntry_iff]
  exact and_iff_right hmem

/-! ## The clean-up -/

theorem mem_npVariantSweep {w : CleanUp} {stem : Bytes} {names : List Bytes} (h : ¬ Touched stem name) :
    name ∈ npVariantSweep w stem names ↔ name ∈ names := by
  have hscratch : isScratchOf stem name = false := by
    rw [← Bool.not_eq_true]
    exact fun hs ↦ h (.inr (.inl hs))
  have hlock : name ≠ lockName stem := fun hl ↦ h (.inr (.inr hl))
  rw [npVariantSweep]
  split
  · have hnew : name ∉ if lockName stem ∈ names then [] else [lockName stem] := by
      split
      · exact List.not_mem_nil
      · rwa [List.mem_singleton]
    rw [List.mem_append, or_iff_left hnew, List.mem_filter, hscratch, Bool.false_and]
    exact and_iff_left rfl
  · exact Iff.rfl

/-- The name a folder is moved to is a scratch name of its stem. -/
theorem isScratchOf_trash {stem old : Bytes} (h : betweenGlob (stem ++ [64]) [] old = true) :
    isScratchOf stem (46 :: old ++ ascii ".removing") = true := by
  obtain ⟨rest, rfl⟩ := betweenGlob_prefix h
  apply List.any_eq_true.mpr
  refine ⟨ascii ".removing", by decide, ?_⟩
  rw [betweenGlob, Bool.and_eq_true, Bool.and_eq_true, decide_eq_true_iff, List.isPrefixOf_iff_prefix, List.isSuffixOf_iff_suffix]
  refine ⟨⟨?_, List.suffix_append _ _⟩, ?_⟩
  · exact ⟨rest ++ ascii ".removing", by simp⟩
  · simp only [List.length_append, List.length_cons]
    omega

theorem mem_gcStep {w : CleanUp} {stem keep old : Bytes} {names : List Bytes} (h : ¬ Touched stem name)
    (hold : betweenGlob (stem ++ [64]) [] old = true) : name ∈ gcStep w keep names old ↔ name ∈ names := by
  have hne : name ≠ old := by
    rintro rfl
    exact h (.inl hold)
  have htrash : name ≠ 46 :: old ++ ascii ".removing" := by
    rintro rfl
    exact h (.inr (.inl (isScratchOf_trash hold)))
  have hkept : name ∈ names.filter (· ≠ old) ↔ name ∈ names := by
    rw [List.mem_filter, decide_eq_true_iff]
    exact and_iff_left hne
  unfold gcStep
  split
  · exact Iff.rfl
  split
  · exact Iff.rfl
  split
  · exact Iff.rfl
  simp only
  split
  · exact Iff.rfl
  split
  · rw [List.mem_filter, decide_eq_true_iff, and_iff_left htrash, hkept]
  split
  · exact hkept
  · rw [List.mem_append, List.mem_singleton, or_iff_left htrash, hkept]

theorem mem_npVariantGc {w : CleanUp} {stem keep : Bytes} {names : List Bytes} (h : ¬ Touched stem name) :
    name ∈ npVariantGc w stem keep names ↔ name ∈ names := by
  have hfold (olds : List Bytes) (hglob : ∀ old ∈ olds, betweenGlob (stem ++ [64]) [] old = true) (names : List Bytes) :
      name ∈ olds.foldl (gcStep w keep) names ↔ name ∈ names := by
    induction olds generalizing names with
    | nil => exact Iff.rfl
    | cons old olds ih =>
      obtain ⟨hold, holds⟩ := List.forall_mem_cons.mp hglob
      rw [List.foldl_cons, ih holds, mem_gcStep h hold]
  rw [npVariantGc, hfold _ (fun old hold ↦ (List.mem_filter.mp hold).2), mem_npVariantSweep h]

theorem npVariantLastGood_touched {stem baseNow : Bytes} {dirs : List RunnerDir} {d : RunnerDir}
    (h : npVariantLastGood stem baseNow dirs = some d) : d ∈ dirs ∧ Touched stem d.name := by
  have hmem := List.mem_of_find?_eq_some h
  rw [List.mem_insertionSort, List.mem_filter, Bool.and_eq_true] at hmem
  exact ⟨hmem.1, .inl hmem.2.1⟩

end

/-! ## Names that are made for a stem, and no others -/

theorem betweenGlob_split {before after name : Bytes} (h : betweenGlob before after name = true) :
    ∃ middle, name = before ++ middle ++ after := by
  rw [betweenGlob, Bool.and_eq_true, Bool.and_eq_true, decide_eq_true_iff, List.isPrefixOf_iff_prefix,
    List.isSuffixOf_iff_suffix] at h
  obtain ⟨⟨⟨rest, rfl⟩, hafter⟩, hlen⟩ := h
  rw [List.length_append] at hlen
  -- what follows `before` is long enough to hold all of `after`
  obtain ⟨middle, rfl⟩ := List.suffix_of_suffix_length_le hafter (List.suffix_append before rest) (by omega)
  exact ⟨middle, (List.append_assoc _ _ _).symm⟩

/-- What the clean-up of a stem may take away or make is made for the stem. -/
theorem Touched.madeFor {stem name : Bytes} (h : Touched stem name) : MadeFor stem name := by
  rcases h with hglob | hscratch | rfl
  · obtain ⟨hash, rfl⟩ := betweenGlob_prefix hglob
    rw [List.append_assoc, List.singleton_append]
    exact .folder hash
  · obtain ⟨suffix, hsuffix, hglob⟩ := List.any_eq_true.mp hscratch
    obtain ⟨hash, rfl⟩ := betweenGlob_split hglob
    have hname : 46 :: stem ++ [64] ++ hash ++ suffix = 46 :: variantFolder stem hash ++ suffix := by
      rw [variantFolder, List.cons_append, List.cons_append, List.append_assoc stem, List.singleton_append]
    rw [hname]
    exact .scratch hash hsuffix
  · exact .lock

/-- Every name made for a stem is one that its clean-up may touch. -/
theorem MadeFor.touchedBy {stem name : Bytes} (h : MadeFor stem name) : Touched stem name := by
  cases h with
  | folder hash =>
    left
    rw [betweenGlob, Bool.and_eq_true, Bool.and_eq_true, decide_eq_true_iff, List.isPrefixOf_iff_prefix, List.isSuffixOf_iff_suffix]
    refine ⟨⟨⟨hash, by rw [variantFolder, List.append_assoc]; rfl⟩, List.nil_suffix⟩, ?_⟩
    simp [variantFolder]
  | @scratch hash suffix hsuffix =>
    right
    left
    refine List.any_eq_true.mpr ⟨suffix, hsuffix, ?_⟩
    rw [scratchName_eq, betweenGlob, Bool.and_eq_true, Bool.and_eq_true, decide_eq_true_iff, List.isPrefixOf_iff_prefix,
      List.isSuffixOf_iff_suffix]
    refine ⟨⟨⟨hash ++ suffix, by simp⟩, ⟨46 :: (stem ++ 64 :: hash), by simp⟩⟩, ?_⟩
    simp only [List.length_cons, List.length_append, List.length_nil]
    omega
  | lock => exact .inr (.inr rfl)

theorem npVariantStem_isSome {reads : Bytes → Bool} {build : BuildId} {r : VariantRequest} :
    (npVariantStem reads build.text r.text).isSome = true ↔ ∃ id ∈ r.ids, reads id = true := by
  rw [npVariantStem_eq]
  by_cases hnone : usableIds reads r = []
  · rw [if_pos hnone]
    refine ⟨fun h ↦ (by cases h), fun ⟨id, hid⟩ ↦ ?_⟩
    have hmem : id ∈ usableIds reads r := mem_usableIds.mpr hid
    rw [hnone] at hmem
    cases hmem
  · rw [if_neg hnone]
    obtain ⟨id, hid⟩ := List.exists_mem_of_ne_nil _ hnone
    exact ⟨fun _ ↦ ⟨id, mem_usableIds.mp hid⟩, fun _ ↦ rfl⟩

/-- The stem that is resolved is one of the build and of the ids that are usable. -/
theorem npVariantStem_some {reads : Bytes → Bool} {build : BuildId} {r : VariantRequest} {stem : Bytes}
    (h : npVariantStem reads build.text r.text = some stem) :
    ∃ s : VariantStem, s.build = build ∧ s.ids = usableIds reads r ∧ s.text = stem := by
  rw [npVariantStem_eq] at h
  split at h
  · cases h
  · next hne => exact ⟨⟨build, usableIds reads r, usableIds_ok, hne⟩, rfl, rfl, Option.some.inj h⟩

/-- Variant folders never collide: a stem is made where an id is usable and tells the build and the set of ids, the app takes each
name for what it is, and cleaning up for one stem touches and returns what is made for that stem, and nothing else. -/
theorem variantNames_apart :
    (∀ (reads reads' : Bytes → Bool) (build : BuildId) (r r' : VariantRequest),
      (∀ id, id ∈ r.ids ∧ reads id = true ↔ id ∈ r'.ids ∧ reads' id = true) →
      npVariantStem reads build.text r.text = npVariantStem reads' build.text r'.text) ∧
    (∀ (reads reads' : Bytes → Bool) (build build' : BuildId) (r r' : VariantRequest) (stem : Bytes),
      npVariantStem reads build.text r.text = some stem → npVariantStem reads' build'.text r'.text = some stem →
      build.text = build'.text ∧ ∀ id, id ∈ r.ids ∧ reads id = true ↔ id ∈ r'.ids ∧ reads' id = true) ∧
    (∀ (reads : Bytes → Bool) (build : BuildId) (r : VariantRequest),
      ((∃ id ∈ r.ids, reads id = true) → ∃ s : VariantStem, s.build = build ∧
        npVariantStem reads build.text r.text = some s.text) ∧
      ((∀ id ∈ r.ids, reads id = false) → npVariantStem reads build.text r.text = none)) ∧
    (∀ (s t : VariantStem) (name : Bytes), MadeFor s.text name → MadeFor t.text name →
      s.build.text = t.build.text ∧ s.ids = t.ids) ∧
    (∀ (s : VariantStem) (name : Bytes) (build : BuildId) (entries : List Bytes), MadeFor s.text name →
      clonedBuilds (name :: entries) = clonedBuilds entries ∧
        (name ∈ entries → (name ∈ variantEntries build.text entries ↔ build.text = s.build.text))) ∧
    (∀ (s : VariantStem) (w : CleanUp) (keep name : Bytes) (names : List Bytes), ¬ MadeFor s.text name →
      (name ∈ npVariantSweep w s.text names ↔ name ∈ names) ∧
        (name ∈ npVariantGc w s.text keep names ↔ name ∈ names)) ∧
    ∀ (s : VariantStem) (baseNow : Bytes) (dirs : List RunnerDir) (d : RunnerDir),
      npVariantLastGood s.text baseNow dirs = some d → d ∈ dirs ∧ MadeFor s.text d.name := by
  refine ⟨?_, ?_, ?_, ?_, ?_, ?_, ?_⟩
  · intro reads reads' build r r' h
    rw [npVariantStem_eq, npVariantStem_eq, usableIds_congr h]
  · intro reads reads' build build' r r' stem h h'
    obtain ⟨s, rfl, hids, hs⟩ := npVariantStem_some h
    obtain ⟨s', rfl, hids', hs'⟩ := npVariantStem_some h'
    obtain ⟨hbuild, heq⟩ := stemOf_inj s.ids_ok s'.ids_ok (hs.trans hs'.symm)
    refine ⟨hbuild, ?_⟩
    intro id
    rw [← mem_usableIds, ← mem_usableIds, ← hids, ← hids', heq]
  · intro reads build r
    refine ⟨fun h ↦ ?_, fun h ↦ ?_⟩
    · obtain ⟨stem, hstem⟩ := Option.isSome_iff_exists.mp (npVariantStem_isSome.mpr h)
      obtain ⟨s, hbuild, -, rfl⟩ := npVariantStem_some hstem
      exact ⟨s, hbuild, hstem⟩
    · rw [← Option.not_isSome_iff_eq_none, npVariantStem_isSome]
      rintro ⟨id, hid, hreads⟩
      rw [h id hid] at hreads
      cases hreads
  · intro s t name hs ht
    exact stemOf_inj s.ids_ok t.ids_ok (ht.touched hs.touchedBy)
  · intro s name build entries h
    exact ⟨h.clonedBuilds_cons entries, h.mem_variantEntries build⟩
  · intro s w keep name names hmade
    -- What a clean-up matches with its globs is made for the stem.
    have hfree : ¬ Touched s.text name := fun h ↦ hmade h.madeFor
    exact ⟨mem_npVariantSweep hfree, mem_npVariantGc hfree⟩
  · intro s baseNow dirs d h
    obtain ⟨hmem, htouched⟩ := npVariantLastGood_touched h
    exact ⟨hmem, htouched.madeFor⟩

def buildId : BuildId := ⟨ascii "26.1", by decide, by decide⟩

def dxmtStem : VariantStem := ⟨buildId, [ascii "dxmt", ascii "fsr"], by decide, by decide⟩

/-- The folders of the runners: a base runner, two builds of one variant and one of another. -/
def runnerNames : List Bytes :=
  [ascii "crossover-26.1", ascii "crossover-26.1+dxmt@0a", ascii "crossover-26.1+dxmt+fsr@0b", ascii "crossover-26.1+dxmt+fsr@0c"]

def allWell : CleanUp := ⟨true, fun _ ↦ true, fun _ ↦ false, fun _ ↦ false, fun _ ↦ true, fun _ ↦ true⟩

theorem crossover_not_madeFor : ∀ name ∈ [ascii "crossover-26.1", ascii "crossover-26.1+dxmt@0a"], ¬ MadeFor dxmtStem.text name := by
  intro name hname hmade
  have htouched : betweenGlob (dxmtStem.text ++ [64]) [] name = false ∧ isScratchOf dxmtStem.text name = false ∧
      name ≠ lockName dxmtStem.text := by
    have hall : ∀ name ∈ [ascii "crossover-26.1", ascii "crossover-26.1+dxmt@0a"],
        betweenGlob (dxmtStem.text ++ [64]) [] name = false ∧ isScratchOf dxmtStem.text name = false ∧
          name ≠ lockName dxmtStem.text := by decide
    exact hall name hname
  rcases hmade.touchedBy with h | h | h
  · rw [htouched.1] at h
    cases h
  · rw [htouched.2.1] at h
    cases h
  · exact htouched.2.2 h

/-- The clean-up for one variant takes its old build away and leaves the base runner and the other variant. -/
theorem variantNames_apart_dxmt :
    npVariantGc allWell dxmtStem.text (ascii "crossover-26.1+dxmt+fsr@0c") runnerNames =
      [ascii "crossover-26.1", ascii "crossover-26.1+dxmt@0a", ascii "crossover-26.1+dxmt+fsr@0c"] ∧
    ∀ name ∈ [ascii "crossover-26.1", ascii "crossover-26.1+dxmt@0a"],
      name ∈ npVariantGc allWell dxmtStem.text (ascii "crossover-26.1+dxmt+fsr@0c") runnerNames ↔ name ∈ runnerNames := by
  obtain ⟨-, -, -, -, -, hclean, -⟩ := variantNames_apart
  exact ⟨by decide, fun name hname ↦ (hclean dxmtStem allWell _ name runnerNames (crossover_not_madeFor name hname)).2⟩

end NotProton.CompatRun
