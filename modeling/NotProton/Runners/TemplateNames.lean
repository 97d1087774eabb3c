import NotProton.CompatRun.VariantNames
import NotProton.Runners.SupportedRunner

/-!
# TemplateNames — the names in a library's template folder (`compat_run.sh`, `RunnerInstaller.swift`)

The run script makes a name of the build, the architecture and the variant ids, the app takes it apart at its
first `+`.
-/

open NotProton.Library NotProton.CompatRun

namespace NotProton.Runners

/-! ## What the app looks for -/

def Flavor.unixDir : Flavor → Bytes
  | .rosetta => ascii "x86_64-unix"
  | .fex => ascii "aarch64-unix"

def Flavor.allCases : List Flavor := [.rosetta, .fex]

/-- The last part of `prefixTemplate(forBuild:flavor:in:)`. -/
def prefixTemplate (build : Bytes) (flavor : Flavor) : Bytes := ascii "crossover-" ++ build ++ 45 :: flavor.unixDir

def prefixTemplates (build : Bytes) : List Bytes := Flavor.allCases.map (prefixTemplate build)

def prefixTemplateFolder : Bytes := ascii "notproton-template"
def bridgeCacheFolder : Bytes := ascii "bridge"
def templateLock : Bytes := ascii ".notproton-template.lock"

/-- `name.prefix { $0 != "+" }` -/
def slotOf (name : Bytes) : Bytes := name.takeWhile (· ≠ 43)

/-- What `before(…)after` captures. -/
def between (before after name : Bytes) : Bytes := (name.drop before.length).take (name.length - before.length - after.length)

/-- `crossover-[A-Za-z0-9.-]+-(x86_64|aarch64)-unix` -/
def slotMatches (slot : Bytes) : Bool :=
  Flavor.allCases.any fun flavor ↦
    let build := between (ascii "crossover-") (45 :: flavor.unixDir) slot
    betweenGlob (ascii "crossover-") (45 :: flavor.unixDir) slot && build ≠ [] && build.all isBuildIdByte

/-- `(\+[A-Za-z0-9._-]+)+` -/
def keyMatches (key : Bytes) : Bool :=
  match key.splitOn 43 with
  | [] :: ids => ids ≠ [] && ids.all fun id ↦ id ≠ [] && id.all isIdByte
  | _ => false

/-- `template` in `removePrefixTemplates`. -/
def isTemplate (name : Bytes) : Bool :=
  slotMatches (slotOf name) && (slotOf name = name || keyMatches (name.drop (slotOf name).length))

/-- Whether the entry of the name is removed when these builds are kept. -/
def removes (builds : List Bytes) (name : Bytes) : Bool :=
  if (builds.flatMap prefixTemplates).contains (slotOf name) then false
  else isTemplate name || builds = [] && name = bridgeCacheFolder

/-! ## What the run script makes -/

/-- `wine_unix`, of a runner that has a FEX build or of one that has none. -/
def wineUnix (root : Bytes) : Flavor → Bytes
  | .fex => root ++ ascii "/lib/wine/aarch64-unix"
  | .rosetta => root ++ ascii "/lib/wine/x86_64-unix"

/-- `crossover-$np_build-${wine_unix##*/}` -/
def runnerId (build wineUnix : Bytes) : Bytes := ascii "crossover-" ++ build ++ 45 :: afterLastSlash wineUnix

/-- `case "$np_variant" in *[!A-Za-z0-9._+-]*) np_variant="" ;; esac` -/
def npVariant (asked : Bytes) : Bytes := if asked.all fun c ↦ isIdByte c || c == 43 then asked else []

/-- What stands after the last `pattern`, `none` where there is none. -/
def afterLast? (pattern : Bytes) : Bytes → Option Bytes
  | [] => if pattern = [] then some [] else none
  | c :: s =>
    match afterLast? pattern s with
    | some rest => some rest
    | none => if pattern.isPrefixOf (c :: s) then some ((c :: s).drop pattern.length) else none

/-- `np_variant_key=${np_v_stem##*/crossover-"$np_build"}`, nothing where there is no stem. -/
def npVariantKey (reads : Bytes → Bool) (support build request : Bytes) : Bytes :=
  match npVariantStem reads build request with
  | none => []
  | some name =>
    let stem := support ++ ascii "/runners/" ++ name
    (afterLast? (ascii "/crossover-" ++ build) stem).getD stem

/-- A run of the script: what it is asked for, what is installed, and whether a runner with the variants is there in
the end. -/
structure RunnerChoice where
  support : Bytes
  root : Bytes
  flavor : Flavor
  asked : Bytes
  reads : Bytes → Bool
  resolved : Bool

/-- The last part of `template_dir`. -/
def templateDirName (build : Bytes) (r : RunnerChoice) : Bytes :=
  runnerId build (wineUnix r.root r.flavor) ++
    if npVariant r.asked ≠ [] ∧ r.resolved = true then npVariantKey r.reads r.support build (npVariant r.asked) else []

/-! ## The names the app takes for templates -/

/-- A template's name: its runner's slot, and the key of its variants. -/
structure IsTemplateName (build : Bytes) (name : Bytes) : Prop where
  ne_nil : build ≠ []
  ok : build.all isBuildIdByte = true
  named : ∃ (flavor : Flavor) (ids : List Bytes), (∀ id ∈ ids, id ≠ [] ∧ id.all isIdByte = true) ∧
    name = prefixTemplate build flavor ++ ids.flatMap (43 :: ·)

theorem prefixTemplate_injective {build build' : Bytes} {flavor flavor' : Flavor}
    (h : prefixTemplate build flavor = prefixTemplate build' flavor') : build = build' ∧ flavor = flavor' := by
  rw [prefixTemplate, prefixTemplate, List.append_assoc, List.append_assoc] at h
  have hrest := List.append_cancel_left h
  -- the byte twelve before the end is `-` for one architecture and `a` for the other
  have hlast := congrArg (fun s : Bytes ↦ s.reverse.take 12) hrest
  cases flavor <;> cases flavor'
  · exact ⟨List.append_cancel_right hrest, rfl⟩
  · simp [Flavor.unixDir, ascii] at hlast
  · simp [Flavor.unixDir, ascii] at hlast
  · exact ⟨List.append_cancel_right hrest, rfl⟩

theorem between_append (before middle after : Bytes) : between before after (before ++ middle ++ after) = middle := by
  rw [between, List.append_assoc, List.drop_left, List.length_append, List.length_append, Nat.add_sub_cancel_left,
    Nat.add_sub_cancel]
  exact List.take_left

theorem betweenGlob_iff {before after name : Bytes} :
    betweenGlob before after name = true ↔ name = before ++ between before after name ++ after := by
  rw [betweenGlob, Bool.and_eq_true, Bool.and_eq_true, decide_eq_true_iff, List.isPrefixOf_iff_prefix, List.isSuffixOf_iff_suffix]
  constructor
  · intro h
    obtain ⟨⟨⟨rest, rfl⟩, hsuffix⟩, hlen⟩ := h
    rw [List.length_append] at hlen
    have hrest : after <:+ rest := List.suffix_of_suffix_length_le hsuffix (List.suffix_append before rest) (by omega)
    obtain ⟨middle, rfl⟩ := hrest
    rw [← List.append_assoc, between_append]
  · intro h
    have hlen := congrArg List.length h
    rw [List.length_append, List.length_append] at hlen
    have hpre : before <+: name := by
      rw [h, List.append_assoc]
      exact List.prefix_append ..
    have hsuffix : after <:+ name := by
      rw [h]
      exact List.suffix_append ..
    exact ⟨⟨hpre, hsuffix⟩, by omega⟩

theorem slotMatches_iff {slot : Bytes} :
    slotMatches slot = true ↔ ∃ build flavor, build ≠ [] ∧ build.all isBuildIdByte = true ∧ slot = prefixTemplate build flavor := by
  rw [slotMatches, List.any_eq_true]
  constructor
  · intro h
    obtain ⟨flavor, -, hmatch⟩ := h
    rw [Bool.and_eq_true, Bool.and_eq_true, betweenGlob_iff] at hmatch
    exact ⟨_, flavor, of_decide_eq_true hmatch.1.2, hmatch.2, hmatch.1.1⟩
  · intro h
    obtain ⟨build, flavor, hne, hok, rfl⟩ := h
    have hbetween : between (ascii "crossover-") (45 :: flavor.unixDir) (prefixTemplate build flavor) = build := between_append ..
    refine ⟨flavor, by cases flavor <;> decide, ?_⟩
    rw [Bool.and_eq_true, Bool.and_eq_true, betweenGlob_iff, hbetween]
    exact ⟨⟨rfl, decide_eq_true hne⟩, hok⟩

theorem prefixTemplate_notMem {build : Bytes} (h : build.all isBuildIdByte = true) (flavor : Flavor) :
    43 ∉ prefixTemplate build flavor := by
  rw [prefixTemplate, List.mem_append, List.mem_append, not_or, not_or]
  have hbuild : 43 ∉ build := fun hmem ↦ isBuildIdByte_ne (List.all_eq_true.mp h 43 hmem) (by decide) rfl
  refine ⟨⟨by decide, hbuild⟩, ?_⟩
  cases flavor <;> decide

theorem flatMap_splitOn (s : Bytes) : ((43 :: s).splitOn 43).tail.flatMap (43 :: ·) = 43 :: s := by
  rw [splitOn_cons_self, List.tail_cons]
  induction s with
  | nil => rfl
  | cons c s ih =>
    by_cases hc : c = 43
    · rw [hc, splitOn_cons_self, List.flatMap_cons, ih]
      rfl
    · rw [splitOn_cons_ne hc]
      cases hs : s.splitOn 43 with
      | nil => exact absurd hs (List.splitOn_ne_nil 43 s)
      | cons first parts =>
        rw [hs, List.flatMap_cons, List.cons_append, List.cons.injEq] at ih
        rw [List.modifyHead_cons, List.flatMap_cons, List.cons_append, List.cons_append, ih.2]

theorem notMem_of_all_isIdByte {id : Bytes} (h : id.all isIdByte = true) : 43 ∉ id :=
  fun hmem ↦ isIdByte_ne (List.all_eq_true.mp h 43 hmem) (by decide) rfl

theorem splitOn_key {pre : Bytes} {ids : List Bytes} (hpre : 43 ∉ pre) (h : ∀ id ∈ ids, id.all isIdByte = true) :
    (pre ++ ids.flatMap (43 :: ·)).splitOn 43 = pre :: ids := by
  induction ids generalizing pre with
  | nil =>
    rw [List.flatMap_nil, List.append_nil]
    exact List.splitOn_eq_singleton hpre
  | cons id ids ih =>
    obtain ⟨hid, hids⟩ := List.forall_mem_cons.mp h
    rw [List.flatMap_cons, List.cons_append, List.splitOn_append_cons_self_of_not_mem hpre,
      ih (notMem_of_all_isIdByte hid) hids]

theorem keyMatches_iff {key : Bytes} :
    keyMatches key = true ↔
      ∃ ids : List Bytes, ids ≠ [] ∧ (∀ id ∈ ids, id ≠ [] ∧ id.all isIdByte = true) ∧ key = ids.flatMap (43 :: ·) := by
  constructor
  · intro h
    cases key with
    | nil => exact absurd h (by decide)
    | cons c key =>
      by_cases hc : c = 43
      · have hkey := flatMap_splitOn key
        rw [hc] at h ⊢
        rw [keyMatches] at h
        rw [splitOn_cons_self] at h hkey
        rw [List.tail_cons] at hkey
        have hids := (Bool.and_eq_true ..).mp h
        refine ⟨key.splitOn 43, of_decide_eq_true hids.1, ?_, hkey.symm⟩
        intro id hid
        have hok := (Bool.and_eq_true ..).mp (List.all_eq_true.mp hids.2 id hid)
        exact ⟨of_decide_eq_true hok.1, hok.2⟩
      · -- The part before the first `+` must be empty.
        rw [keyMatches, splitOn_cons_ne hc] at h
        cases hs : key.splitOn 43 with
        | nil => exact absurd hs (List.splitOn_ne_nil 43 key)
        | cons first parts =>
          rw [hs] at h
          cases h
  · intro h
    obtain ⟨ids, hne, hids, rfl⟩ := h
    have hsplit : (ids.flatMap (43 :: ·)).splitOn 43 = [] :: ids :=
      splitOn_key List.not_mem_nil fun id hid ↦ (hids id hid).2
    rw [keyMatches, hsplit]
    refine (Bool.and_eq_true ..).mpr ⟨decide_eq_true hne, List.all_eq_true.mpr ?_⟩
    intro id hid
    exact (Bool.and_eq_true ..).mpr ⟨decide_eq_true (hids id hid).1, (hids id hid).2⟩

/-- The slot of a template's name is what stands before its key. -/
theorem slotOf_template {build : Bytes} (h : build.all isBuildIdByte = true) (flavor : Flavor) (ids : List Bytes) :
    slotOf (prefixTemplate build flavor ++ ids.flatMap (43 :: ·)) = prefixTemplate build flavor := by
  have hplus := prefixTemplate_notMem h flavor
  cases ids with
  | nil =>
    rw [List.flatMap_nil, List.append_nil]
    apply List.takeWhile_eq_self_iff.mpr
    intro c hc
    apply decide_eq_true
    rintro rfl
    exact hplus hc
  | cons id ids => exact takeWhile_before hplus

theorem isTemplate_iff {name : Bytes} : isTemplate name = true ↔ ∃ build, IsTemplateName build name := by
  rw [isTemplate, Bool.and_eq_true, Bool.or_eq_true, decide_eq_true_iff, slotMatches_iff]
  constructor
  · intro h
    obtain ⟨⟨build, flavor, hne, hok, hslot⟩, hkey⟩ := h
    refine ⟨build, hne, hok, flavor, ?_⟩
    obtain hname | hkey := hkey
    · exact ⟨[], List.forall_mem_nil _, by rw [List.flatMap_nil, List.append_nil, ← hslot, hname]⟩
    · obtain ⟨ids, -, hids, hdrop⟩ := keyMatches_iff.mp hkey
      refine ⟨ids, hids, ?_⟩
      have hsplit : slotOf name ++ name.drop (slotOf name).length = name := List.prefix_iff_eq_append.mp (List.takeWhile_prefix _)
      rw [← hslot, ← hdrop, hsplit]
  · intro h
    obtain ⟨build, hne, hok, flavor, ids, hids, rfl⟩ := h
    rw [slotOf_template hok]
    refine ⟨⟨build, flavor, hne, hok, rfl⟩, ?_⟩
    by_cases hnone : ids = []
    · rw [hnone, List.flatMap_nil, List.append_nil]
      exact .inl rfl
    · rw [List.drop_left]
      exact .inr (keyMatches_iff.mpr ⟨ids, hnone, hids, rfl⟩)

/-- What is kept: the entries whose slot is a kept build's, and those that are no template. -/
theorem removes_eq_false_iff {builds : List Bytes} {name : Bytes} :
    removes builds name = false ↔
      (∃ build ∈ builds, ∃ flavor, slotOf name = prefixTemplate build flavor) ∨
        ¬((∃ build, IsTemplateName build name) ∨ builds = [] ∧ name = bridgeCacheFolder) := by
  have hkept : (builds.flatMap prefixTemplates).contains (slotOf name) = true ↔
      ∃ build ∈ builds, ∃ flavor, slotOf name = prefixTemplate build flavor := by
    rw [List.contains_iff_mem, List.mem_flatMap]
    refine exists_congr fun build ↦ and_congr_right fun _ ↦ List.mem_map.trans ?_
    constructor
    · rintro ⟨flavor, -, h⟩
      exact ⟨flavor, h.symm⟩
    · rintro ⟨flavor, h⟩
      exact ⟨flavor, by cases flavor <;> decide, h.symm⟩
  rw [← hkept, ← isTemplate_iff, removes]
  by_cases h : (builds.flatMap prefixTemplates).contains (slotOf name) = true
  · rw [if_pos h]
    exact iff_of_true rfl (.inl h)
  · rw [if_neg h, Bool.or_eq_false_iff, Bool.and_eq_false_iff, decide_eq_false_iff_not, decide_eq_false_iff_not,
      not_or, not_and_or, Bool.not_eq_true, or_iff_right h]

/-! ## The names the run script makes -/

/-- `removes` of a template's name with a key asks for its build only. -/
theorem removes_template {builds : List Bytes} {build : Bytes} (hne : build ≠ []) (hok : build.all isBuildIdByte = true)
    (flavor : Flavor) {ids : List Bytes} (hids : ∀ id ∈ ids, id ≠ [] ∧ id.all isIdByte = true) :
    removes builds (prefixTemplate build flavor ++ ids.flatMap (43 :: ·)) = true ↔ build ∉ builds := by
  rw [← Bool.not_eq_false, not_iff_not, removes_eq_false_iff, slotOf_template hok]
  constructor
  · rintro (⟨kept, hkept, flavor', hslot⟩ | hno)
    · rwa [(prefixTemplate_injective hslot).1]
    · exact absurd (.inl ⟨build, hne, hok, flavor, ids, hids, rfl⟩) hno
  · intro h
    exact .inl ⟨build, h, flavor, rfl⟩

theorem afterLastSlash_append {s name : Bytes} (h : 47 ∉ name) : afterLastSlash (s ++ 47 :: name) = name := by
  have hall : ∀ c ∈ name.reverse, decide (c ≠ 47) = true := by
    intro c hc
    apply decide_eq_true
    rintro rfl
    exact h (List.mem_reverse.mp hc)
  rw [afterLastSlash, List.reverse_append, List.reverse_cons, List.append_assoc, List.takeWhile_append_of_pos hall,
    List.singleton_append, List.takeWhile_cons_of_neg (by simp), List.append_nil, List.reverse_reverse]

theorem runnerId_eq (build root : Bytes) (flavor : Flavor) : runnerId build (wineUnix root flavor) = prefixTemplate build flavor := by
  cases flavor with
  | rosetta =>
    have hsplit : wineUnix root .rosetta = (root ++ ascii "/lib/wine") ++ 47 :: ascii "x86_64-unix" := by
      rw [List.append_assoc]
      rfl
    rw [runnerId, hsplit, afterLastSlash_append (by decide)]
    rfl
  | fex =>
    have hsplit : wineUnix root .fex = (root ++ ascii "/lib/wine") ++ 47 :: ascii "aarch64-unix" := by
      rw [List.append_assoc]
      rfl
    rw [runnerId, hsplit, afterLastSlash_append (by decide)]
    rfl

theorem afterLast?_eq_none {pattern s : Bytes} (h : 47 ∉ s) : afterLast? (47 :: pattern) s = none := by
  induction s with
  | nil => rfl
  | cons c s ih =>
    rw [List.mem_cons, not_or] at h
    have hno : (47 :: pattern).isPrefixOf (c :: s) = false := by
      rw [List.isPrefixOf, beq_eq_false_iff_ne.mpr h.1]
      rfl
    rw [afterLast?, ih h.2]
    show (if (47 :: pattern).isPrefixOf (c :: s) = true then _ else none) = none
    rw [hno]
    rfl

theorem afterLast?_append {pattern s t : Bytes} (h : afterLast? pattern t = some s) (pre : Bytes) :
    afterLast? pattern (pre ++ t) = some s := by
  induction pre with
  | nil => exact h
  | cons c pre ih =>
    rw [List.cons_append, afterLast?, ih]

/-- The last pattern that begins with a slash, where no slash comes after. -/
theorem afterLast?_slash {pattern s : Bytes} (hp : 47 ∉ pattern) (h : 47 ∉ s) (pre : Bytes) :
    afterLast? (47 :: pattern) (pre ++ (47 :: pattern ++ s)) = some s := by
  apply afterLast?_append
  have hrest : 47 ∉ pattern ++ s := by
    rw [List.mem_append, not_or]
    exact ⟨hp, h⟩
  have hpre : (47 :: pattern).isPrefixOf (47 :: (pattern ++ s)) = true :=
    List.isPrefixOf_iff_prefix.mpr (List.prefix_append (47 :: pattern) s)
  rw [List.cons_append, afterLast?, afterLast?_eq_none hrest]
  show (if (47 :: pattern).isPrefixOf (47 :: (pattern ++ s)) = true then _ else none) = some s
  rw [if_pos hpre]
  exact congrArg some (@List.drop_left _ (47 :: pattern) _)

/-- A word is not empty and has no byte that the text it is from has not. -/
theorem mem_fields {s word : Bytes} (h : word ∈ fields s) : word ≠ [] ∧ ∀ c ∈ word, c ∈ s ∧ c ≠ 32 := by
  rw [fields, List.mem_filter] at h
  refine ⟨of_decide_eq_true h.2, ?_⟩
  intro c hc
  have hne : c ≠ 32 := by
    rintro rfl
    exact notMem_of_mem_splitOn h.1 hc
  refine ⟨?_, hne⟩
  have hmem : c ∈ s.map fun c ↦ if c = 9 ∨ c = 10 then 32 else c := by
    by_contra hno
    exact notMem_of_splitOn hno h.1 hc
  obtain ⟨d, hd, hdc⟩ := List.mem_map.mp hmem
  by_cases hblank : d = 9 ∨ d = 10
  · rw [if_pos hblank] at hdc
    exact absurd hdc.symm hne
  · rw [if_neg hblank] at hdc
    rwa [← hdc]

theorem mem_dropSpace {s : Bytes} {c : UInt8} (h : c ∈ dropSpace s) : c ∈ s := by
  rw [dropSpace] at h
  split at h
  · exact List.mem_of_mem_dropLast h
  · exact h

theorem mem_npVariantNames {request : Bytes} {c : UInt8} (h : c ∈ npVariantNames request) : c = 32 ∨ c ∈ request ∧ c ≠ 43 := by
  rw [npVariantNames, List.mem_flatMap] at h
  obtain ⟨piece, hpiece, hc⟩ := h
  obtain hc | hc := List.mem_append.mp hc
  · rw [mem_sortU, List.mem_filter] at hpiece
    have hmem : c ∈ request.map fun c ↦ if c = 43 then 10 else c := by
      by_contra hno
      exact notMem_of_splitOn hno hpiece.1 hc
    obtain ⟨d, hd, hdc⟩ := List.mem_map.mp hmem
    by_cases hplus : d = 43
    · rw [if_pos hplus] at hdc
      rw [← hdc] at hc
      exact absurd hc (notMem_of_mem_splitOn hpiece.1)
    · rw [if_neg hplus] at hdc
      rw [← hdc]
      exact .inr ⟨hd, hplus⟩
  · exact .inl (List.mem_singleton.mp hc)

/-- The words that are usable, of the bytes of the request. -/
theorem usable_words {reads : Bytes → Bool} {request : Bytes} (h : request.all (fun c ↦ isIdByte c || c == 43) = true) :
    ∀ id ∈ fields (dropSpace (npVariantUsable reads (commandOutput (npVariantNames request)))), id ≠ [] ∧ id.all isIdByte = true := by
  intro id hid
  have hword := mem_fields hid
  refine ⟨hword.1, List.all_eq_true.mpr ?_⟩
  intro c hc
  obtain ⟨hin, hspace⟩ := hword.2 c hc
  have husable := mem_dropSpace hin
  rw [npVariantUsable, List.mem_flatMap] at husable
  obtain ⟨asked, hasked, hc⟩ := husable
  have hc : c ∈ asked := (List.mem_append.mp hc).resolve_right fun hlast ↦ hspace (List.mem_singleton.mp hlast)
  have hnames : c ∈ npVariantNames request :=
    (List.rdropWhile_prefix _ _).subset ((mem_fields (List.mem_filter.mp hasked).1).2 c hc).1
  obtain ⟨hmem, hplus⟩ := (mem_npVariantNames hnames).resolve_left hspace
  have hbyte := List.all_eq_true.mp h c hmem
  rw [Bool.or_eq_true, beq_iff_eq] at hbyte
  exact hbyte.resolve_right hplus

theorem stemOf_notMem_newline {build : Bytes} {ids : List Bytes} (hbuild : build.all isBuildIdByte = true)
    (hids : ∀ id ∈ ids, id ≠ [] ∧ id.all isIdByte = true) : 10 ∉ stemOf build ids := by
  rw [stemOf, List.mem_append, List.mem_append, not_or, not_or]
  refine ⟨⟨by decide, fun hmem ↦ isBuildIdByte_ne (List.all_eq_true.mp hbuild 10 hmem) (by decide) rfl⟩, notMem_flatMap ?_⟩
  intro id hid
  rw [List.mem_cons, not_or]
  exact ⟨by decide, fun hmem ↦ isIdByte_ne (List.all_eq_true.mp (hids id hid).2 10 hmem) (by decide) rfl⟩

/-- The ids in a stem's name are words of the request. -/
theorem npVariantStem_ids {reads : Bytes → Bool} {build request name : Bytes} (hbuild : build.all isBuildIdByte = true)
    (hrequest : request.all (fun c ↦ isIdByte c || c == 43) = true) (h : npVariantStem reads build request = some name) :
    ∃ ids : List Bytes, (∀ id ∈ ids, id ≠ [] ∧ id.all isIdByte = true) ∧ name = stemOf build ids := by
  rw [npVariantStem] at h
  split at h
  · cases h
  · dsimp only at h
    split at h
    · cases h
    · obtain rfl := Option.some.inj h
      have hids := @usable_words reads _ hrequest
      exact ⟨_, hids, commandOutput_of_notMem (stemOf_notMem_newline hbuild hids)⟩

theorem npVariantKey_eq {reads : Bytes → Bool} {support build request : Bytes} (hbuild : build.all isBuildIdByte = true)
    (hrequest : request.all (fun c ↦ isIdByte c || c == 43) = true) :
    ∃ ids : List Bytes, (∀ id ∈ ids, id ≠ [] ∧ id.all isIdByte = true) ∧
      npVariantKey reads support build request = ids.flatMap (43 :: ·) := by
  rw [npVariantKey]
  cases hstem : npVariantStem reads build request with
  | none => exact ⟨[], List.forall_mem_nil _, rfl⟩
  | some name =>
    obtain ⟨ids, hids, rfl⟩ := npVariantStem_ids hbuild hrequest hstem
    refine ⟨ids, hids, ?_⟩
    have hsplit : support ++ ascii "/runners/" ++ stemOf build ids =
        (support ++ ascii "/runners") ++ (47 :: (ascii "crossover-" ++ build) ++ ids.flatMap (43 :: ·)) := by
      have hslash : ascii "/runners/" = ascii "/runners" ++ [47] := by decide
      rw [hslash, stemOf]
      simp only [List.append_assoc, List.cons_append, List.nil_append]
    have hpattern : 47 ∉ ascii "crossover-" ++ build := by
      rw [List.mem_append, not_or]
      refine ⟨by decide, fun hmem ↦ ?_⟩
      exact absurd (List.all_eq_true.mp hbuild 47 hmem) (by decide)
    have hkey : 47 ∉ ids.flatMap (43 :: ·) := by
      refine notMem_flatMap fun id hid ↦ ?_
      rw [List.mem_cons, not_or]
      exact ⟨by decide, fun hmem ↦ absurd (List.all_eq_true.mp (hids id hid).2 47 hmem) (by decide)⟩
    show (afterLast? (47 :: (ascii "crossover-" ++ build)) (support ++ ascii "/runners/" ++ stemOf build ids)).getD _ = _
    rw [hsplit, afterLast?_slash hpattern hkey]
    rfl

/-- A name the run script makes is a template's, of the script's build. -/
theorem templateDirName_eq (build : BuildId) (r : RunnerChoice) :
    ∃ ids : List Bytes, (∀ id ∈ ids, id ≠ [] ∧ id.all isIdByte = true) ∧
      templateDirName build.text r = prefixTemplate build.text r.flavor ++ ids.flatMap (43 :: ·) := by
  rw [templateDirName, runnerId_eq]
  by_cases h : npVariant r.asked ≠ [] ∧ r.resolved = true
  · have hrequest : (npVariant r.asked).all (fun c ↦ isIdByte c || c == 43) = true := by
      rw [npVariant]
      split
      · next hok => exact hok
      · rfl
    obtain ⟨ids, hids, hkey⟩ := @npVariantKey_eq r.reads r.support _ _ build.ok hrequest
    rw [if_pos h, hkey]
    exact ⟨ids, hids, rfl⟩
  · rw [if_neg h]
    exact ⟨[], List.forall_mem_nil _, rfl⟩

/-- A template of the run script is removed exactly when its build is not kept. -/
theorem removes_templateDirName (builds : List Bytes) (build : BuildId) (r : RunnerChoice) :
    removes builds (templateDirName build.text r) = true ↔ build.text ∉ builds := by
  obtain ⟨ids, hids, hname⟩ := templateDirName_eq build r
  rw [hname]
  exact removes_template build.ne_nil build.ok r.flavor hids

end NotProton.Runners
