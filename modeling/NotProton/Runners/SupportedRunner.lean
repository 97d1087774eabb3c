import NotProton.Library.Text
import NotProton.Library.Lists

/-!
# SupportedRunner — the builds and the tool names they are offered under (`SupportedRunner.swift`)

The ntdll hashes and the release versions of a build name no tool and are left out.
-/

open NotProton.Library

namespace NotProton.Runners

inductive Flavor
  | rosetta
  | fex
  deriving DecidableEq

def Flavor.rawValue : Flavor → Bytes
  | .rosetta => utf8 "rosetta"
  | .fex => utf8 "fex"

structure CompatTool where
  name : Bytes
  flavor : Flavor
  display : Bytes
  deriving DecidableEq

structure InstalledTool where
  tool : CompatTool
  build : Bytes
  deriving DecidableEq

def InstalledTool.name (t : InstalledTool) : Bytes := t.tool.name
def InstalledTool.display (t : InstalledTool) : Bytes := t.tool.display

/-- `rebuilds` keeps the loader hash of each rebuild. -/
structure RunnerBuild where
  bundleVersion : Bytes
  flavor : Option Bytes
  loaderSHA256 : Bytes
  tools : List CompatTool
  rebuilds : List Bytes := []
  deriving DecidableEq

def RunnerBuild.id (b : RunnerBuild) : Bytes :=
  match b.flavor with
  | some flavor => b.bundleVersion ++ 45 :: flavor
  | none => b.bundleVersion

def RunnerBuild.matching (b : RunnerBuild) (hash : Bytes) : Option RunnerBuild :=
  if hash = b.loaderSHA256 then some b
  else (b.rebuilds.find? (· = hash)).map fun rebuild ↦ { b with loaderSHA256 := rebuild }

/-! ## The allow list -/

def legacyToolName : Bytes := utf8 "notproton"

def toolPreference : List Bytes :=
  [legacyToolName, utf8 "notproton-fex", utf8 "notproton-fex-rosetta", utf8 "notproton-preview",
    utf8 "notproton-fex-41069", utf8 "notproton-fex-rosetta-41069", utf8 "notproton-preview-41069",
    utf8 "notproton-fex-41073", utf8 "notproton-fex-rosetta-41073", utf8 "notproton-preview-41073",
    utf8 "notproton-26.3"]

def legacyHolders : List Bytes :=
  [utf8 "27.0.0.40921-fex", utf8 "27.0.0.40921", utf8 "27.0.0.41069-fex", utf8 "27.0.0.41069"]

def all : List RunnerBuild :=
  [{ bundleVersion := utf8 "26.3.0.39832"
     flavor := none
     loaderSHA256 := utf8 "b5edb0444b5b25ba0aa5091be1cba11680130895c338cc8044101bce98802a63"
     tools := [⟨utf8 "notproton-26.3", .rosetta, utf8 "CrossOver 26.3"⟩]
     rebuilds := [utf8 "35aeb1a75a48f3b053dbf2395deac33c530a0b0b7db0bc6357362348af9514ce"] },
   { bundleVersion := utf8 "27.0.0.40921"
     flavor := none
     loaderSHA256 := utf8 "b59d5fdccb62d425230a4e4d157c50c25b63ff586832c60cc5b12b4d6053ab80"
     tools := [⟨utf8 "notproton-preview", .rosetta, utf8 "CrossOver 2026 08 21-X86 - Rosetta"⟩] },
   { bundleVersion := utf8 "27.0.0.40921"
     flavor := some (utf8 "fex")
     loaderSHA256 := utf8 "7a6ea337c9caf2217454bec9537371e5d8ca302406bbed40b65316c1a636c4ab"
     tools :=
       [⟨utf8 "notproton-fex", .fex, utf8 "CrossOver 2026 08 21-ARM64 - FEX"⟩,
        ⟨utf8 "notproton-fex-rosetta", .rosetta, utf8 "CrossOver 2026 08 21-ARM64 - Rosetta"⟩] },
   { bundleVersion := utf8 "27.0.0.41069"
     flavor := none
     loaderSHA256 := utf8 "8286bfd0c6d2ae337e11784926d371a9f7ed7e8da870bd2f435c2bce8eb3c148"
     tools := [⟨utf8 "notproton-preview-41069", .rosetta, utf8 "CrossOver 2026 10 06-X86 - Rosetta"⟩] },
   { bundleVersion := utf8 "27.0.0.41069"
     flavor := some (utf8 "fex")
     loaderSHA256 := utf8 "ef2b9a0ad185d8caa2960a97c135a75b8b85ca62425599e35cf672f787fba64c"
     tools :=
       [⟨utf8 "notproton-fex-41069", .fex, utf8 "CrossOver 2026 10 06-ARM64 - FEX"⟩,
        ⟨utf8 "notproton-fex-rosetta-41069", .rosetta, utf8 "CrossOver 2026 10 06-ARM64 - Rosetta"⟩] },
   { bundleVersion := utf8 "27.0.0.41073"
     flavor := none
     loaderSHA256 := utf8 "57144ccad16e75a171d48ea4b20974183e76c1cd5f5022bfc4b8917016b126b5"
     tools := [⟨utf8 "notproton-preview-41073", .rosetta, utf8 "CrossOver 2026 10 15-X86 - Rosetta"⟩] },
   { bundleVersion := utf8 "27.0.0.41073"
     flavor := some (utf8 "fex")
     loaderSHA256 := utf8 "f4cedebfb30efc1e91e46ee25296abeb526fe7d814041d7cc6ca693bd4b8cb7b"
     tools :=
       [⟨utf8 "notproton-fex-41073", .fex, utf8 "CrossOver 2026 10 15-ARM64 - FEX"⟩,
        ⟨utf8 "notproton-fex-rosetta-41073", .rosetta, utf8 "CrossOver 2026 10 15-ARM64 - Rosetta"⟩] }]

/-- `SupportedRunners.build(id:)`. -/
def buildOf (id : Bytes) : Option RunnerBuild := all.find? (·.id = id)

inductive LegacyHolder
  | build (id : Bytes)
  | nobody
  deriving DecidableEq

def LegacyHolder.id? : LegacyHolder → Option Bytes
  | .build id => some id
  | .nobody => none

/-- A tool of a build and its place in that build's list. -/
abbrev Offer := RunnerBuild × CompatTool × Nat

def RunnerBuild.offers (b : RunnerBuild) : List Offer := b.tools.zipIdx.map fun tool ↦ (b, tool)

/-- The name a tool is served under: the first tool of the holder takes the legacy one. -/
def servedName (holder : Option Bytes) (o : Offer) : Bytes :=
  if holder = some o.1.id ∧ o.2.2 = 0 then legacyToolName else o.2.1.name

def serve (holder : Option Bytes) (o : Offer) : InstalledTool :=
  ⟨⟨servedName holder o, o.2.1.flavor, o.2.1.display⟩, o.1.id⟩

/-- `tool.flavor != .fex || fexAvailable || kept.contains(name)`. -/
def shown (fexAvailable : Bool) (kept : List Bytes) (t : InstalledTool) : Bool :=
  t.tool.flavor != .fex || fexAvailable || kept.contains t.name

def rank (t : InstalledTool) : Nat := toolPreference.idxOf t.name

/-- Sorted by rank, tools of one rank in the order they came. -/
def byRank (served : List InstalledTool) : List InstalledTool :=
  (served.zipIdx.insertionSort fun a b ↦
    rank a.1 < rank b.1 ∨ rank a.1 = rank b.1 ∧ a.2 ≤ b.2).map Prod.fst

def tools (builds : List RunnerBuild) (legacy : LegacyHolder) (fexAvailable : Bool) (kept : List Bytes) :
    List InstalledTool :=
  let installed := builds.map RunnerBuild.id
  let served := (all.filter fun b ↦ installed.contains b.id).flatMap fun b ↦
    b.offers.map (serve legacy.id?)
  byRank (served.filter (shown fexAvailable kept))

/-! ## What the allow list promises -/

def offered : List Offer := all.flatMap RunnerBuild.offers

theorem ids_nodup : (all.map RunnerBuild.id).Nodup := by decide

theorem own_names : (offered.map fun o ↦ o.2.1.name).Nodup ∧ ∀ o ∈ offered, o.2.1.name ≠ legacyToolName := by
  decide

/-- A field of the tool list: not empty, and without a tab or a newline. -/
def isField (s : Bytes) : Bool := !s.isEmpty && s.all fun c ↦ c != 9 && c != 10

theorem offered_fields : ∀ o ∈ offered,
    isField o.2.1.name ∧ isField o.1.id ∧ isField o.2.1.flavor.rawValue ∧ isField o.2.1.display := by
  decide

theorem offer_injOn_name {o o' : Offer} (ho : o ∈ offered) (ho' : o' ∈ offered)
    (h : o.2.1.name = o'.2.1.name) : o = o' :=
  List.inj_on_of_nodup_map own_names.1 ho ho' h

theorem id_injOn {b b' : RunnerBuild} (hb : b ∈ all) (hb' : b' ∈ all) (h : b.id = b'.id) : b = b' :=
  List.inj_on_of_nodup_map ids_nodup hb hb' h

theorem mem_offered {o : Offer} : o ∈ offered ↔ o.1 ∈ all ∧ (o.2.1, o.2.2) ∈ o.1.tools.zipIdx := by
  simp only [offered, RunnerBuild.offers, List.mem_flatMap, List.mem_map]
  constructor
  · rintro ⟨b, hb, tool, htool, rfl⟩
    exact ⟨hb, htool⟩
  · intro h
    exact ⟨o.1, h.1, _, h.2, rfl⟩

/-! ## The tools of the installed builds -/

theorem byRank_perm (served : List InstalledTool) : (byRank served).Perm served := by
  have h := (List.perm_insertionSort (fun a b : InstalledTool × Nat ↦
    rank a.1 < rank b.1 ∨ rank a.1 = rank b.1 ∧ a.2 ≤ b.2) served.zipIdx).map Prod.fst
  rwa [List.zipIdx_map_fst] at h

theorem mem_tools {builds : List RunnerBuild} {legacy : LegacyHolder} {fexAvailable : Bool}
    {kept : List Bytes} {t : InstalledTool} :
    t ∈ tools builds legacy fexAvailable kept ↔
      (∃ o ∈ offered, o.1.id ∈ builds.map RunnerBuild.id ∧ serve legacy.id? o = t) ∧
        shown fexAvailable kept t = true := by
  rw [tools, (byRank_perm _).mem_iff, List.mem_filter, List.mem_flatMap]
  apply and_congr_left'
  simp only [List.mem_filter, List.contains_iff_mem, offered, List.mem_flatMap, List.mem_map]
  constructor
  · rintro ⟨b, ⟨hb, hid⟩, o, ho, rfl⟩
    have hbo : o.1 = b := by
      obtain ⟨tool, -, rfl⟩ := List.mem_map.mp ho
      rfl
    exact ⟨o, ⟨b, hb, ho⟩, by rw [hbo]; exact hid, rfl⟩
  · rintro ⟨o, ⟨b, hb, ho⟩, hid, rfl⟩
    have hbo : o.1 = b := by
      obtain ⟨tool, -, rfl⟩ := List.mem_map.mp ho
      rfl
    exact ⟨b, ⟨hb, by rw [← hbo]; exact hid⟩, o, ho, rfl⟩

/-- No two offers are served under one name, whoever holds the legacy one. -/
theorem servedName_injOn (holder : Option Bytes) {o o' : Offer} (ho : o ∈ offered) (ho' : o' ∈ offered)
    (h : servedName holder o = servedName holder o') : o = o' := by
  unfold servedName at h
  by_cases hl : holder = some o.1.id ∧ o.2.2 = 0
  · by_cases hl' : holder = some o'.1.id ∧ o'.2.2 = 0
    · -- both are the first tool of the holder
      have hid : o.1.id = o'.1.id := Option.some.inj (hl.1.symm.trans hl'.1)
      have hb : o.1 = o'.1 := id_injOn (mem_offered.mp ho).1 (mem_offered.mp ho').1 hid
      have ht := (mem_offered.mp ho).2
      have ht' := (mem_offered.mp ho').2
      rw [hl.2, List.mem_zipIdx_iff_getElem?] at ht
      rw [hl'.2, ← hb, List.mem_zipIdx_iff_getElem?, ht] at ht'
      exact Prod.ext hb (Prod.ext (Option.some.inj ht') (hl.2.trans hl'.2.symm))
    · rw [if_pos hl, if_neg hl'] at h
      exact absurd h.symm (own_names.2 o' ho')
  · by_cases hl' : holder = some o'.1.id ∧ o'.2.2 = 0
    · rw [if_neg hl, if_pos hl'] at h
      exact absurd h (own_names.2 o ho)
    · rw [if_neg hl, if_neg hl'] at h
      exact offer_injOn_name ho ho' h

theorem tools_names_nodup (builds : List RunnerBuild) (legacy : LegacyHolder) (fexAvailable : Bool)
    (kept : List Bytes) : ((tools builds legacy fexAvailable kept).map InstalledTool.name).Nodup := by
  have hsub : (((all.filter fun b ↦ (builds.map RunnerBuild.id).contains b.id).flatMap RunnerBuild.offers)).Sublist
      offered := List.Sublist.flatMap List.filter_sublist _
  have hserved : ((((all.filter fun b ↦ (builds.map RunnerBuild.id).contains b.id).flatMap
      RunnerBuild.offers).map (serve legacy.id?)).map InstalledTool.name).Nodup := by
    rw [List.map_map]
    apply List.Nodup.map_on
    · intro o ho o' ho' h
      exact servedName_injOn legacy.id? (hsub.subset ho) (hsub.subset ho') h
    · exact (List.Nodup.of_map _ own_names.1).sublist hsub
  have hmap := (byRank_perm (((all.filter fun b ↦ (builds.map RunnerBuild.id).contains b.id).flatMap fun b ↦
    b.offers.map (serve legacy.id?)).filter (shown fexAvailable kept))).map InstalledTool.name
  rw [tools, hmap.nodup_iff]
  rw [List.map_flatMap] at hserved
  exact hserved.sublist (List.filter_sublist.map _)

end NotProton.Runners
