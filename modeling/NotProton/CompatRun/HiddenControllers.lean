import NotProton.Library.Shell

/-!
# HiddenControllers — which WineBus device keys NotProton owns (`compat_run.sh`)

Lists of ids are lists of lines, as the shell passes them between `awk`, `sed` and `sort`.  The other
settings of the import file touch no device key and are left out; of `system.reg` only the lines are
kept that the plan reads.
-/

open NotProton.Library

namespace NotProton.CompatRun

def isHex (c : UInt8) : Bool := isDigit c || (97 ≤ c && c ≤ 102)

/-- `[0-9a-f]\{4\}` at the start of a text, and what follows it. -/
def fourHex (s : Bytes) : Option (Bytes × Bytes) :=
  if (s.take 4).length = 4 ∧ (s.take 4).all isHex then some (s.take 4, s.drop 4) else none

/-- `/^[0-9a-f]{4}\/[0-9a-f]{4}$/` -/
def isId (s : Bytes) : Bool :=
  match fourHex s with
  | some (_, 47 :: rest) => (fourHex rest).any fun product ↦ product.2 = []
  | _ => false

/-- `[[:space:]]`, within a line. -/
def isSpace (c : UInt8) : Bool := c == 32 || c == 9 || (11 ≤ c && c ≤ 13)

/-- The `sed` of `controller_ids`, on one line. -/
def controllerId (line : Bytes) : Option Bytes :=
  match line.dropWhile isSpace with
  | 48 :: 120 :: s =>
    match fourHex s with
    | some (vendor, 47 :: 48 :: 120 :: s) =>
      match fourHex s with
      | some (product, rest) => if rest.all isSpace then some (vendor ++ 47 :: product) else none
      | none => none
    | _ => none
  | _ => none

/-- `sort -u` -/
def sortU (l : List Bytes) : List Bytes := l.dedup.insertionSort (· ≤ ·)

def controllerIds (list : Bytes) : List Bytes :=
  let lowered := list.map fun c ↦ if c = 44 then 10 else if 65 ≤ c && c ≤ 70 then c + 32 else c
  sortU ((lowered.splitOn 10).filterMap controllerId)

/-- The `awk` of `ids_without`: the lines up to `--` are left out of those after it. -/
def idsWithout (ids without : List Bytes) : List Bytes :=
  let input := without ++ ascii "--" :: ids
  let b := input.takeWhile (· ≠ ascii "--")
  (input.dropWhile (· ≠ ascii "--")).filter fun line ↦ line ≠ ascii "--" && line ≠ [] && !b.contains line

/-- `sed '/^$/d' | sort -u` -/
def sortedLines (ids : List Bytes) : List Bytes := sortU (ids.filter (· ≠ []))

def devicesStart : Bytes := ascii "[system\\\\controlset001\\\\services\\\\winebus\\\\devices\\\\"

/-- The id of a device key's line in `system.reg`. -/
def registryId (line : Bytes) : Option Bytes :=
  let lower := line.map toLower
  if line.head? = some 91 ∧ devicesStart.isPrefixOf lower then
    let rest := lower.drop devicesStart.length
    if isId (rest.take 9) ∧ (rest.drop 9).head? = some 93 then some (rest.take 9) else none
  else none

/-- The prefix's `system.reg` and the ownership file, by their lines; `none` where there is no file. -/
structure Controllers where
  systemReg : Option (List Bytes)
  file : Option (List Bytes)

def inRegistry (s : Controllers) : List Bytes := sortU ((s.systemReg.getD []).filterMap registryId)

def ownedIds (s : Controllers) : List Bytes := (s.file.getD []).filter isId

/-- The lines have a key for a device. -/
def hasKey (lines : List Bytes) (id : Bytes) : Bool := lines.any fun line ↦ registryId line = some id

/-- `reg import` of keys to add and keys to remove, as Wine documents it: keys appear only from the first
list and vanish only from the second, and where it succeeds all of both are carried out. -/
structure Imports (succeeded : Bool) (add remove lines lines' : List Bytes) : Prop where
  added : ∀ id, hasKey lines' id = true → hasKey lines id = true ∨ id ∈ add
  removed : ∀ id, hasKey lines id = true → id ∉ remove → hasKey lines' id = true
  all_added : succeeded = true → ∀ id ∈ add, id ∉ remove → hasKey lines' id = true
  all_removed : succeeded = true → ∀ id ∈ remove, hasKey lines' id = false

/-- How `reg import` ends, and what it leaves of `system.reg`. -/
structure Import where
  succeeded : Bool
  lines : List Bytes → List Bytes → List Bytes → List Bytes
  imports : ∀ add remove before, (∀ id ∈ add, isId id = true) →
    Imports succeeded add remove before (lines add remove before)

/-- What one launch finds.  `tracked` is that the ownership file has a path and is no link. -/
structure ControllerLaunch where
  verb : Bytes
  rawControllers : Bool
  ignore : Bytes
  except : Bytes
  tracked : Bool
  widened : Bool
  settingsWritten : Bool
  restApplied : Bool
  imported : Import
  narrowed : Bool

/-- `controllers_wanted`, before the registry is looked at. -/
def askedControllers (l : ControllerLaunch) (s : Controllers) : List Bytes :=
  let listed := idsWithout (controllerIds l.ignore) (controllerIds l.except)
  let wanted := sortedLines (listed ++ [ascii "057e/2006", ascii "057e/2007", ascii "057e/2009"])
  if l.verb = ascii "run" then sortedLines (wanted ++ ownedIds s) else wanted

/-- `controllers_wanted` -/
def wantedControllers (l : ControllerLaunch) (s : Controllers) : List Bytes :=
  if l.rawControllers then []
  else idsWithout (askedControllers l s) (idsWithout (inRegistry s) (ownedIds s))

structure ControllerPlan where
  add : List Bytes
  remove : List Bytes
  wanted : List Bytes

/-- `write_owned_controllers` -/
def writeOwnedControllers (succeeds : Bool) (ids : List Bytes) (s : Controllers) : Option Controllers :=
  if succeeds then some { s with file := some (sortedLines ids) } else none

/-- `plan_hidden_controllers`, `none` where it fails. -/
def planHiddenControllers (l : ControllerLaunch) (s : Controllers) : Option (ControllerPlan × Controllers) :=
  if !l.tracked then none
  else
    let owned := ownedIds s
    let wanted := wantedControllers l s
    let plan : ControllerPlan :=
      { add := idsWithout wanted (inRegistry s), remove := idsWithout owned wanted, wanted := wanted }
    (writeOwnedControllers l.widened (owned ++ wanted) s).map fun s ↦ (plan, s)

/-! ## The import -/

/-- What `settings_already_applied` asks of the device keys; `restApplied` is all else it asks. -/
def settingsAlreadyApplied (l : ControllerLaunch) (add remove : List Bytes) (s : Controllers) : Bool :=
  l.restApplied && s.systemReg.any fun lines ↦ add.all (hasKey lines) && remove.all fun id ↦ !hasKey lines id

/-- `import_prefix_settings` -/
def importPrefixSettings (l : ControllerLaunch) (s : Controllers) : Controllers :=
  let planned := planHiddenControllers l s
  let add := (planned.map (·.1.add)).getD []
  let remove := (planned.map (·.1.remove)).getD []
  let s := (planned.map (·.2)).getD s
  if !l.settingsWritten then s
  else
    let applied := settingsAlreadyApplied l add remove s
    let s := if applied then s
      else { s with systemReg := some (l.imported.lines add remove (s.systemReg.getD [])) }
    let status := applied || l.imported.succeeded
    match planned with
    | some (plan, _) => if status then (writeOwnedControllers l.narrowed plan.wanted s).getD s else s
    | none => s

/-- The launches one after another. -/
def controllerRun (s : Controllers) (launches : List ControllerLaunch) : Controllers :=
  launches.foldl (fun s l ↦ importPrefixSettings l s) s

/-! ## Ids -/

theorem fourHex_some {s hex rest : Bytes} (h : fourHex s = some (hex, rest)) :
    hex.length = 4 ∧ hex.all isHex = true ∧ s = hex ++ rest := by
  unfold fourHex at h
  split_ifs at h with hc
  obtain ⟨rfl, rfl⟩ := Prod.mk.inj (Option.some.inj h)
  exact ⟨hc.1, hc.2, (List.take_append_drop 4 s).symm⟩

theorem fourHex_append {hex : Bytes} (hlen : hex.length = 4) (hhex : hex.all isHex = true) (rest : Bytes) :
    fourHex (hex ++ rest) = some (hex, rest) := by
  have htake : (hex ++ rest).take 4 = hex := by rw [← hlen, List.take_left]
  have hdrop : (hex ++ rest).drop 4 = rest := by rw [← hlen, List.drop_left]
  rw [fourHex, htake, hdrop, if_pos ⟨hlen, hhex⟩]

theorem isId_iff {s : Bytes} : isId s = true ↔ ∃ vendor product : Bytes,
    vendor.length = 4 ∧ vendor.all isHex = true ∧ product.length = 4 ∧ product.all isHex = true ∧
      s = vendor ++ 47 :: product := by
  constructor
  · intro h
    unfold isId at h
    split at h
    · rename_i vendor rest hvendor
      obtain ⟨product, hproduct, hnil⟩ := (Option.any_eq_true _ _).mp h
      have hv := fourHex_some hvendor
      have hp := fourHex_some hproduct
      rw [of_decide_eq_true hnil, List.append_nil] at hp
      exact ⟨vendor, product.1, hv.1, hv.2.1, hp.1, hp.2.1, by rw [hv.2.2, hp.2.2]⟩
    · cases h
  · rintro ⟨vendor, product, hv, hv', hp, hp', rfl⟩
    have hproduct : fourHex product = some (product, []) := by
      rw [← List.append_nil product, fourHex_append (by simpa using hp) (by simpa using hp')]
      simp
    rw [isId, fourHex_append hv hv']
    simp [hproduct]

theorem isId_length {id : Bytes} (h : isId id = true) : id.length = 9 := by
  obtain ⟨vendor, product, hv, -, hp, -, rfl⟩ := isId_iff.mp h
  simp only [List.length_append, List.length_cons]
  omega

theorem isId_ne {id : Bytes} (h : isId id = true) : id ≠ [] ∧ id ≠ ascii "--" := by
  have hlen := isId_length h
  constructor
  · rintro rfl
    cases hlen
  · rintro rfl
    revert hlen
    decide

theorem controllerId_isId {line id : Bytes} (h : controllerId line = some id) : isId id = true := by
  unfold controllerId at h
  split at h
  · split at h
    · rename_i vendor s hvendor
      split at h
      · rename_i product rest hproduct
        split_ifs at h
        have hv := fourHex_some hvendor
        have hp := fourHex_some hproduct
        exact isId_iff.mpr ⟨vendor, product, hv.1, hv.2.1, hp.1, hp.2.1, (Option.some.inj h).symm⟩
      · cases h
    · cases h
  · cases h

@[simp] theorem mem_sortU {l : List Bytes} {x : Bytes} : x ∈ sortU l ↔ x ∈ l := by
  rw [sortU, List.mem_insertionSort, List.mem_dedup]

@[simp] theorem mem_sortedLines {l : List Bytes} {x : Bytes} : x ∈ sortedLines l ↔ x ∈ l ∧ x ≠ [] := by
  rw [sortedLines, mem_sortU, List.mem_filter, decide_eq_true_eq]

theorem mem_idsWithout {ids without : List Bytes} (h : ∀ x ∈ without, isId x = true) {x : Bytes} :
    x ∈ idsWithout ids without ↔ x ∈ ids ∧ x ≠ ascii "--" ∧ x ≠ [] ∧ x ∉ without := by
  have hne : ∀ x ∈ without, decide (x ≠ ascii "--") = true := fun x hx ↦ decide_eq_true (isId_ne (h x hx)).2
  have htake : (without ++ ascii "--" :: ids).takeWhile (· ≠ ascii "--") = without := by
    rw [List.takeWhile_append_of_pos hne, List.takeWhile_cons_of_neg (by simp), List.append_nil]
  have hdrop : (without ++ ascii "--" :: ids).dropWhile (· ≠ ascii "--") = ascii "--" :: ids := by
    rw [List.dropWhile_append_of_pos hne, List.dropWhile_cons_of_neg (by simp)]
  simp only [idsWithout, htake, hdrop, List.mem_filter, List.mem_cons, Bool.and_eq_true, decide_eq_true_eq,
    Bool.not_eq_true', List.contains_eq_mem, decide_eq_false_iff_not]
  tauto

theorem ownedIds_isId {s : Controllers} : ∀ id ∈ ownedIds s, isId id = true :=
  fun _ hid ↦ (List.mem_filter.mp hid).2

theorem registryId_isId {line id : Bytes} (h : registryId line = some id) : isId id = true := by
  unfold registryId at h
  dsimp only at h
  split_ifs at h with hstart hid
  rw [← Option.some.inj h]
  exact hid.1

theorem inRegistry_isId {s : Controllers} : ∀ id ∈ inRegistry s, isId id = true := by
  intro id hid
  rw [inRegistry, mem_sortU] at hid
  obtain ⟨line, -, hline⟩ := List.mem_filterMap.mp hid
  exact registryId_isId hline

theorem controllerIds_isId {list : Bytes} : ∀ id ∈ controllerIds list, isId id = true := by
  intro id hid
  rw [controllerIds, mem_sortU] at hid
  obtain ⟨line, -, hline⟩ := List.mem_filterMap.mp hid
  exact controllerId_isId hline

theorem askedControllers_isId {l : ControllerLaunch} {s : Controllers} :
    ∀ id ∈ askedControllers l s, isId id = true := by
  have hlisted : ∀ id ∈ idsWithout (controllerIds l.ignore) (controllerIds l.except), isId id = true := by
    intro id hid
    exact controllerIds_isId id ((mem_idsWithout controllerIds_isId).mp hid).1
  have hswitch : ∀ id ∈ [ascii "057e/2006", ascii "057e/2007", ascii "057e/2009"], isId id = true := by
    decide
  intro id hid
  unfold askedControllers at hid
  dsimp only at hid
  split_ifs at hid
  · rw [mem_sortedLines, List.mem_append, mem_sortedLines, List.mem_append] at hid
    obtain ⟨⟨hid | hid, -⟩ | hid, -⟩ := hid
    · exact hlisted id hid
    · exact hswitch id hid
    · exact ownedIds_isId id hid
  · rw [mem_sortedLines, List.mem_append] at hid
    obtain ⟨hid | hid, -⟩ := hid
    · exact hlisted id hid
    · exact hswitch id hid

/-- The ids of the registry that are someone else's. -/
theorem mem_foreign {s : Controllers} {id : Bytes} :
    id ∈ idsWithout (inRegistry s) (ownedIds s) ↔ id ∈ inRegistry s ∧ id ∉ ownedIds s := by
  rw [mem_idsWithout ownedIds_isId]
  constructor
  · rintro ⟨hreg, -, -, howned⟩
    exact ⟨hreg, howned⟩
  · rintro ⟨hreg, howned⟩
    have hne := isId_ne (inRegistry_isId id hreg)
    exact ⟨hreg, hne.2, hne.1, howned⟩

theorem wantedControllers_sub {l : ControllerLaunch} {s : Controllers} {id : Bytes} (h : id ∈ wantedControllers l s) :
    isId id = true ∧ (id ∈ inRegistry s → id ∈ ownedIds s) := by
  unfold wantedControllers at h
  split_ifs at h
  · cases h
  · rw [mem_idsWithout fun x hx ↦ inRegistry_isId x (mem_foreign.mp hx).1, mem_foreign] at h
    obtain ⟨hasked, -, -, hforeign⟩ := h
    refine ⟨askedControllers_isId id hasked, fun hreg ↦ ?_⟩
    by_contra howned
    exact hforeign ⟨hreg, howned⟩

/-! ## The registry after an import -/

theorem hasKey_iff {lines : List Bytes} {id : Bytes} : hasKey lines id = true ↔ id ∈ lines.filterMap registryId := by
  simp only [hasKey, List.any_eq_true, decide_eq_true_eq, List.mem_filterMap]

theorem map_toLower_hex {s : Bytes} (h : s.all isHex = true) : s.map toLower = s := by
  have hhex : ∀ c, isHex c = true → toLower c = c := forall_byte (by decide +kernel)
  have hid : s.map toLower = s.map id := by
    apply List.map_congr_left
    intro c hc
    exact hhex c (List.all_eq_true.mp h c hc)
  rw [hid, List.map_id]

theorem mem_inRegistry {s : Controllers} {id : Bytes} :
    id ∈ inRegistry s ↔ hasKey (s.systemReg.getD []) id = true := by
  rw [inRegistry, mem_sortU, hasKey_iff]

/-! ## One launch -/

section launch

variable {l : ControllerLaunch} {s : Controllers}

theorem mem_ownedIds_sortedLines {reg : Option (List Bytes)} {ids : List Bytes} (h : ∀ id ∈ ids, isId id = true)
    {id : Bytes} : id ∈ ownedIds ⟨reg, some (sortedLines ids)⟩ ↔ id ∈ ids := by
  rw [ownedIds, List.mem_filter, Option.getD_some, mem_sortedLines]
  constructor
  · exact fun hid ↦ hid.1.1
  · exact fun hid ↦ ⟨⟨hid, (isId_ne (h id hid)).1⟩, h id hid⟩

/-- The plan's lists, once the ownership file has been widened. -/
theorem planHiddenControllers_some {plan : ControllerPlan} {s₁ : Controllers}
    (h : planHiddenControllers l s = some (plan, s₁)) :
    plan = { add := idsWithout (wantedControllers l s) (inRegistry s)
             remove := idsWithout (ownedIds s) (wantedControllers l s), wanted := wantedControllers l s } ∧
      s₁ = { s with file := some (sortedLines (ownedIds s ++ wantedControllers l s)) } := by
  unfold planHiddenControllers at h
  split_ifs at h
  dsimp only [writeOwnedControllers] at h
  split_ifs at h
  · obtain ⟨hplan, hs₁⟩ := Prod.mk.inj (Option.some.inj h)
    exact ⟨hplan.symm, hs₁.symm⟩
  · cases h

theorem mem_plan_add {plan : ControllerPlan} {s₁ : Controllers} (h : planHiddenControllers l s = some (plan, s₁))
    {id : Bytes} : id ∈ plan.add ↔ id ∈ wantedControllers l s ∧ id ∉ inRegistry s := by
  rw [(planHiddenControllers_some h).1, mem_idsWithout inRegistry_isId]
  constructor
  · exact fun hid ↦ ⟨hid.1, hid.2.2.2⟩
  · rintro ⟨hwanted, hreg⟩
    have hne := isId_ne (wantedControllers_sub hwanted).1
    exact ⟨hwanted, hne.2, hne.1, hreg⟩

theorem mem_plan_remove {plan : ControllerPlan} {s₁ : Controllers} (h : planHiddenControllers l s = some (plan, s₁))
    {id : Bytes} : id ∈ plan.remove ↔ id ∈ ownedIds s ∧ id ∉ wantedControllers l s := by
  rw [(planHiddenControllers_some h).1, mem_idsWithout fun x hx ↦ (wantedControllers_sub hx).1]
  constructor
  · exact fun hid ↦ ⟨hid.1, hid.2.2.2⟩
  · rintro ⟨howned, hwanted⟩
    have hne := isId_ne (ownedIds_isId id howned)
    exact ⟨howned, hne.2, hne.1, hwanted⟩

theorem mem_widened {plan : ControllerPlan} {s₁ : Controllers} (h : planHiddenControllers l s = some (plan, s₁))
    {id : Bytes} : id ∈ ownedIds s₁ ↔ id ∈ ownedIds s ∨ id ∈ wantedControllers l s := by
  have hids : ∀ id ∈ ownedIds s ++ wantedControllers l s, isId id = true := by
    intro id hid
    obtain hid | hid := List.mem_append.mp hid
    · exact ownedIds_isId id hid
    · exact (wantedControllers_sub hid).1
  rw [(planHiddenControllers_some h).2, mem_ownedIds_sortedLines hids, List.mem_append]

/-- Keys appear only where they are wanted and vanish only where they were owned. -/
structure Between (add remove : List Bytes) (s s' : Controllers) : Prop where
  added : ∀ id ∈ inRegistry s', id ∈ inRegistry s ∨ id ∈ add
  removed : ∀ id ∈ inRegistry s, id ∉ remove → id ∈ inRegistry s'

/-- The import did all it was asked to. -/
def Applied (add remove : List Bytes) (s s' : Controllers) : Prop :=
  ∀ id, id ∈ inRegistry s' ↔ (id ∈ inRegistry s ∨ id ∈ add) ∧ id ∉ remove

theorem Applied.between {add remove : List Bytes} {s s' : Controllers} (h : Applied add remove s s') :
    Between add remove s s' :=
  ⟨fun id hid ↦ ((h id).mp hid).1, fun id hid hr ↦ (h id).mpr ⟨.inl hid, hr⟩⟩

/-- Skipping the import is as good as carrying it out. -/
theorem applied_of_already {add remove : List Bytes} (h : settingsAlreadyApplied l add remove s = true) :
    Applied add remove s s := by
  unfold settingsAlreadyApplied at h
  rw [Bool.and_eq_true, Option.any_eq_true] at h
  obtain ⟨-, lines, hlines, hkeys⟩ := h
  rw [Bool.and_eq_true, List.all_eq_true, List.all_eq_true] at hkeys
  intro id
  rw [mem_inRegistry, hlines, Option.getD_some]
  constructor
  · intro hid
    refine ⟨.inl hid, fun hr ↦ ?_⟩
    have := hkeys.2 id hr
    rw [hid] at this
    cases this
  · rintro ⟨hid | hid, -⟩
    · exact hid
    · exact hkeys.1 id hid

theorem Imports.between {done : Bool} {add remove lines lines' : List Bytes} (h : Imports done add remove lines lines')
    {file : Option (List Bytes)} (hlines : lines = s.systemReg.getD []) : Between add remove s ⟨some lines', file⟩ := by
  constructor
  · intro id hid
    rw [mem_inRegistry] at hid ⊢
    rw [← hlines]
    exact h.added id hid
  · intro id hid hr
    rw [mem_inRegistry, ← hlines] at hid
    rw [mem_inRegistry]
    exact h.removed id hid hr

theorem Imports.applied {add remove lines lines' : List Bytes} (h : Imports true add remove lines lines')
    {file : Option (List Bytes)} (hlines : lines = s.systemReg.getD []) : Applied add remove s ⟨some lines', file⟩ := by
  intro id
  rw [mem_inRegistry, mem_inRegistry, ← hlines, Option.getD_some]
  constructor
  · intro hid
    refine ⟨h.added id hid, fun hr ↦ ?_⟩
    rw [h.all_removed rfl id hr] at hid
    cases hid
  · rintro ⟨hid | hid, hr⟩
    · exact h.removed id hid hr
    · exact h.all_added rfl id hid hr

/-- A launch without a plan changes neither the ids of the registry nor the file. -/
theorem importPrefixSettings_unplanned (h : planHiddenControllers l s = none) :
    (∀ id, id ∈ inRegistry (importPrefixSettings l s) ↔ id ∈ inRegistry s) ∧
      ownedIds (importPrefixSettings l s) = ownedIds s := by
  have hbetween : Between [] [] s ⟨some (l.imported.lines [] [] (s.systemReg.getD [])), s.file⟩ :=
    (l.imported.imports [] [] _ fun id hid ↦ absurd hid List.not_mem_nil).between rfl
  simp only [importPrefixSettings, h, Option.map_none, Option.getD_none]
  split_ifs
  · exact ⟨fun id ↦ Iff.rfl, rfl⟩
  · exact ⟨fun id ↦ Iff.rfl, rfl⟩
  · refine ⟨fun id ↦ ⟨fun hid ↦ ?_, fun hid ↦ hbetween.removed id hid List.not_mem_nil⟩, rfl⟩
    exact (hbetween.added id hid).resolve_right List.not_mem_nil

/-- A launch with a plan: the file is narrowed only once the plan has been applied. -/
theorem importPrefixSettings_planned {plan : ControllerPlan} {s₁ : Controllers}
    (h : planHiddenControllers l s = some (plan, s₁)) :
    ∃ reg status, Between plan.add plan.remove s ⟨reg, s₁.file⟩ ∧
      (status = true → Applied plan.add plan.remove s ⟨reg, s₁.file⟩) ∧
      (l.settingsWritten = true → l.imported.succeeded = true → status = true) ∧
      importPrefixSettings l s =
        if status && l.narrowed then ⟨reg, some (sortedLines plan.wanted)⟩ else ⟨reg, s₁.file⟩ := by
  have hreg : s₁.systemReg = s.systemReg := by rw [(planHiddenControllers_some h).2]
  have hadd : ∀ id ∈ plan.add, isId id = true := fun id hid ↦ (wantedControllers_sub ((mem_plan_add h).mp hid).1).1
  cases hw : l.settingsWritten with
  | false =>
    refine ⟨s.systemReg, false, ⟨fun id hid ↦ .inl hid, fun id hid _ ↦ hid⟩, by simp, by simp, ?_⟩
    simp [importPrefixSettings, h, hw, ← hreg]
  | true =>
    cases ha : settingsAlreadyApplied l plan.add plan.remove s₁ with
    | true =>
      -- the import is skipped
      have happlied : Applied plan.add plan.remove s ⟨s.systemReg, s₁.file⟩ := by
        have hsame : inRegistry s₁ = inRegistry s := by rw [inRegistry, hreg, inRegistry]
        intro id
        have hid := applied_of_already ha id
        rwa [hsame] at hid
      refine ⟨s.systemReg, true, happlied.between, fun _ ↦ happlied, fun _ _ ↦ rfl, ?_⟩
      cases hn : l.narrowed <;> simp [importPrefixSettings, h, hw, ha, hn, writeOwnedControllers, ← hreg]
    | false =>
      have himports := l.imported.imports plan.add plan.remove (s.systemReg.getD []) hadd
      refine ⟨_, l.imported.succeeded, himports.between rfl, fun hdone ↦ ?_, fun _ hdone ↦ hdone, ?_⟩
      · rw [hdone] at himports
        exact himports.applied rfl
      · cases hd : l.imported.succeeded with
        | true =>
          cases hn : l.narrowed <;>
            simp [importPrefixSettings, h, hw, ha, hn, hd, writeOwnedControllers, ← hreg]
        | false => simp [importPrefixSettings, h, hw, ha, hd, ← hreg]

end launch

/-! ## Every run -/

/-- The foreign ids are in the registry and nobody's here, and every other id of it is owned. -/
structure Tracks (isForeign : Bytes → Prop) (s : Controllers) : Prop where
  kept : ∀ id, isForeign id → id ∈ inRegistry s ∧ id ∉ ownedIds s
  covered : ∀ id ∈ inRegistry s, isForeign id ∨ id ∈ ownedIds s

section runs

variable {isForeign : Bytes → Prop} {l : ControllerLaunch} {s : Controllers}

theorem Tracks.not_wanted (h : Tracks isForeign s) {id : Bytes} (hid : isForeign id) : id ∉ wantedControllers l s :=
  fun hwanted ↦ (h.kept id hid).2 ((wantedControllers_sub hwanted).2 (h.kept id hid).1)

/-- Once a plan is applied the registry holds the foreign ids and the wanted ones. -/
theorem Tracks.applied {plan : ControllerPlan} {s₁ s' : Controllers} (h : Tracks isForeign s)
    (hplan : planHiddenControllers l s = some (plan, s₁)) (happlied : Applied plan.add plan.remove s s') (id : Bytes) :
    id ∈ inRegistry s' ↔ isForeign id ∨ id ∈ wantedControllers l s := by
  rw [happlied id, mem_plan_add hplan, mem_plan_remove hplan]
  constructor
  · rintro ⟨hreg | hadd, hremove⟩
    · by_cases hwanted : id ∈ wantedControllers l s
      · exact .inr hwanted
      · exact .inl ((h.covered id hreg).resolve_right fun howned ↦ hremove ⟨howned, hwanted⟩)
    · exact .inr hadd.1
  · rintro (hforeign | hwanted)
    · exact ⟨.inl (h.kept id hforeign).1, fun hremove ↦ (h.kept id hforeign).2 hremove.1⟩
    · refine ⟨?_, fun hremove ↦ hremove.2 hwanted⟩
      by_cases hreg : id ∈ inRegistry s
      · exact .inl hreg
      · exact .inr ⟨hwanted, hreg⟩

theorem Tracks.launch (h : Tracks isForeign s) (l : ControllerLaunch) :
    Tracks isForeign (importPrefixSettings l s) := by
  cases hplan : planHiddenControllers l s with
  | none =>
    obtain ⟨hreg, howned⟩ := importPrefixSettings_unplanned hplan
    constructor
    · intro id hid
      rw [hreg, howned]
      exact h.kept id hid
    · intro id hid
      rw [howned]
      exact h.covered id ((hreg id).mp hid)
  | some planned =>
    obtain ⟨plan, s₁⟩ := planned
    obtain ⟨reg, status, hbetween, happlied, -, heq⟩ := importPrefixSettings_planned hplan
    have hwide : ∀ id, id ∈ ownedIds ⟨reg, s₁.file⟩ ↔ id ∈ ownedIds s ∨ id ∈ wantedControllers l s :=
      fun id ↦ mem_widened hplan
    rw [heq]
    split_ifs with hnarrow
    · -- the plan is applied and the file holds what is wanted
      rw [Bool.and_eq_true] at hnarrow
      have hreg := h.applied hplan (happlied hnarrow.1)
      have hwanted : plan.wanted = wantedControllers l s := by rw [(planHiddenControllers_some hplan).1]
      have hfile : ∀ id, id ∈ ownedIds ⟨reg, some (sortedLines plan.wanted)⟩ ↔ id ∈ wantedControllers l s := by
        intro id
        rw [hwanted, mem_ownedIds_sortedLines fun x hx ↦ (wantedControllers_sub hx).1]
      constructor
      · intro id hid
        exact ⟨(hreg id).mpr (.inl hid), fun howned ↦ h.not_wanted hid ((hfile id).mp howned)⟩
      · intro id hid
        rw [hfile]
        exact (hreg id).mp hid
    · -- the file still holds what was owned and what is wanted
      constructor
      · intro id hid
        constructor
        · apply hbetween.removed id (h.kept id hid).1
          exact fun hremove ↦ (h.kept id hid).2 ((mem_plan_remove hplan).mp hremove).1
        · rw [hwide]
          rintro (howned | hwanted)
          · exact (h.kept id hid).2 howned
          · exact h.not_wanted hid hwanted
      · intro id hid
        rw [hwide]
        obtain hreg | hadd := hbetween.added id hid
        · exact (h.covered id hreg).imp_right .inl
        · exact .inr (.inr ((mem_plan_add hplan).mp hadd).1)

theorem Tracks.run (h : Tracks isForeign s) (launches : List ControllerLaunch) :
    Tracks isForeign (controllerRun s launches) := by
  induction launches generalizing s with
  | nil => exact h
  | cons l launches ih => exact ih (h.launch l)

end runs

/-- The import and both writes of the ownership file succeed. -/
structure ControllerLaunch.Succeeds (l : ControllerLaunch) : Prop where
  tracked : l.tracked = true
  widened : l.widened = true
  settingsWritten : l.settingsWritten = true
  imported : l.imported.succeeded = true
  narrowed : l.narrowed = true

/-- A launch that succeeds leaves the foreign ids and the wanted ones, and owns the wanted ones. -/
theorem Tracks.succeeds {isForeign : Bytes → Prop} {l : ControllerLaunch} {s : Controllers}
    (h : Tracks isForeign s) (hl : l.Succeeds) :
    (∀ id, id ∈ inRegistry (importPrefixSettings l s) ↔ isForeign id ∨ id ∈ wantedControllers l s) ∧
      ∃ lines, (importPrefixSettings l s).file = some lines ∧ ∀ line, line ∈ lines ↔ line ∈ wantedControllers l s := by
  cases hplan : planHiddenControllers l s with
  | none => simp [planHiddenControllers, hl.tracked, hl.widened, writeOwnedControllers] at hplan
  | some planned =>
    obtain ⟨plan, s₁⟩ := planned
    obtain ⟨reg, status, -, happlied, hstatus, heq⟩ := importPrefixSettings_planned hplan
    have hdone := hstatus hl.settingsWritten hl.imported
    rw [hdone, hl.narrowed, Bool.and_self, if_pos rfl, (planHiddenControllers_some hplan).1] at heq
    rw [heq]
    refine ⟨h.applied hplan (happlied hdone), _, rfl, fun line ↦ ?_⟩
    rw [mem_sortedLines]
    exact ⟨And.left, fun hline ↦ ⟨hline, (isId_ne (wantedControllers_sub hline).1).1⟩⟩

/-- From any registry and ownership file, over any launches: an id that was there and not owned stays
and is never owned, every id is such a one or owned, and a launch that succeeds leaves exactly the
foreign ids and the wanted ones. -/
theorem controllers_owned (s₀ : Controllers) (launches : List ControllerLaunch) :
    (∀ id ∈ inRegistry s₀, id ∉ ownedIds s₀ →
        id ∈ inRegistry (controllerRun s₀ launches) ∧ id ∉ ownedIds (controllerRun s₀ launches)) ∧
      (∀ id ∈ inRegistry (controllerRun s₀ launches),
        (id ∈ inRegistry s₀ ∧ id ∉ ownedIds s₀) ∨ id ∈ ownedIds (controllerRun s₀ launches)) ∧
      ∀ l : ControllerLaunch, l.Succeeds →
        (∀ id, id ∈ inRegistry (controllerRun s₀ (launches ++ [l])) ↔
          (id ∈ inRegistry s₀ ∧ id ∉ ownedIds s₀) ∨ id ∈ wantedControllers l (controllerRun s₀ launches)) ∧
        ∃ lines, (controllerRun s₀ (launches ++ [l])).file = some lines ∧
          ∀ line, line ∈ lines ↔ line ∈ wantedControllers l (controllerRun s₀ launches) := by
  have hstart : Tracks (fun id ↦ id ∈ inRegistry s₀ ∧ id ∉ ownedIds s₀) s₀ := by
    constructor
    · exact fun id hid ↦ hid
    · intro id hid
      by_cases howned : id ∈ ownedIds s₀
      · exact .inr howned
      · exact .inl ⟨hid, howned⟩
  have hrun := hstart.run launches
  refine ⟨fun id hid howned ↦ hrun.kept id ⟨hid, howned⟩, hrun.covered, fun l hl ↦ ?_⟩
  have hlast : controllerRun s₀ (launches ++ [l]) = importPrefixSettings l (controllerRun s₀ launches) := by
    simp [controllerRun]
  rw [hlast]
  exact hrun.succeeds hl

/-! ## A registry that carries an import out -/

/-- The line Wine saves a device key with. -/
def deviceLine (id : Bytes) : Bytes :=
  ascii "[System\\\\ControlSet001\\\\Services\\\\WineBus\\\\Devices\\\\" ++ id ++ [93]

def addKey (lines : List Bytes) (id : Bytes) : List Bytes :=
  if hasKey lines id then lines else lines ++ [deviceLine id]

def removeKey (lines : List Bytes) (id : Bytes) : List Bytes := lines.filter fun line ↦ registryId line ≠ some id

theorem registryId_deviceLine {id : Bytes} (h : isId id = true) : registryId (deviceLine id) = some id := by
  have hlower : id.map toLower = id := by
    obtain ⟨vendor, product, -, hv, -, hp, rfl⟩ := isId_iff.mp h
    rw [List.map_append, List.map_cons, map_toLower_hex hv, map_toLower_hex hp]
    rfl
  have hstart : (ascii "[System\\\\ControlSet001\\\\Services\\\\WineBus\\\\Devices\\\\").map toLower = devicesStart := by
    decide
  have hline : (deviceLine id).map toLower = devicesStart ++ (id ++ [93]) := by
    rw [deviceLine, List.map_append, List.map_append, hstart, hlower, List.append_assoc]
    rfl
  have hhead : (deviceLine id).head? = some 91 := by
    rw [deviceLine, ascii, String.toList]
    rfl
  have htake : (id ++ [93]).take 9 = id := by rw [← isId_length h, List.take_left]
  have hdrop : (id ++ [93]).drop 9 = [93] := by rw [← isId_length h, List.drop_left]
  rw [registryId, hline]
  dsimp only
  rw [if_pos ⟨hhead, List.isPrefixOf_iff_prefix.mpr (List.prefix_append _ _)⟩, List.drop_left, htake, hdrop,
    if_pos ⟨h, rfl⟩]

theorem hasKey_addKey {lines : List Bytes} {id x : Bytes} (h : isId id = true) :
    hasKey (addKey lines id) x = true ↔ hasKey lines x = true ∨ x = id := by
  unfold addKey
  split_ifs with hkey
  · constructor
    · exact .inl
    · rintro (hx | rfl)
      · exact hx
      · exact hkey
  · simp only [hasKey_iff, List.filterMap_append, List.mem_append, List.filterMap_cons, List.filterMap_nil,
      registryId_deviceLine h, List.mem_singleton]

theorem hasKey_removeKey {lines : List Bytes} {id x : Bytes} :
    hasKey (removeKey lines id) x = true ↔ hasKey lines x = true ∧ x ≠ id := by
  simp only [hasKey, removeKey, List.any_eq_true, List.mem_filter, decide_eq_true_eq]
  constructor
  · rintro ⟨line, ⟨hline, hne⟩, hx⟩
    exact ⟨⟨line, hline, hx⟩, fun h ↦ hne (h ▸ hx)⟩
  · rintro ⟨⟨line, hline, hx⟩, hne⟩
    exact ⟨line, ⟨hline, fun h ↦ hne (Option.some.inj (hx.symm.trans h))⟩, hx⟩

theorem hasKey_foldl_addKey {add lines : List Bytes} (h : ∀ id ∈ add, isId id = true) {x : Bytes} :
    hasKey (add.foldl addKey lines) x = true ↔ hasKey lines x = true ∨ x ∈ add := by
  induction add generalizing lines with
  | nil => simp
  | cons id add ih =>
    obtain ⟨hid, hadd⟩ := List.forall_mem_cons.mp h
    rw [List.foldl_cons, ih hadd, hasKey_addKey hid, List.mem_cons]
    tauto

theorem hasKey_foldl_removeKey {remove lines : List Bytes} {x : Bytes} :
    hasKey (remove.foldl removeKey lines) x = true ↔ hasKey lines x = true ∧ x ∉ remove := by
  induction remove generalizing lines with
  | nil => simp
  | cons id remove ih =>
    rw [List.foldl_cons, ih, hasKey_removeKey, List.mem_cons]
    tauto

/-- An import that adds the keys it is to add, and then removes those it is to remove. -/
def importAll : Import where
  succeeded := true
  lines add remove before := remove.foldl removeKey (add.foldl addKey before)
  imports := by
    intro add remove before h
    constructor
    · intro id hid
      rw [hasKey_foldl_removeKey, hasKey_foldl_addKey h] at hid
      exact hid.1
    · intro id hid hr
      rw [hasKey_foldl_removeKey, hasKey_foldl_addKey h]
      exact ⟨.inl hid, hr⟩
    · intro _ id hid hr
      rw [hasKey_foldl_removeKey, hasKey_foldl_addKey h]
      exact ⟨.inr hid, hr⟩
    · intro _ id hid
      rw [Bool.eq_false_iff, ne_eq, hasKey_foldl_removeKey]
      exact fun hkey ↦ hkey.2 hid

/-- The player's own key for one pad, and a launch that hides another. -/
theorem controllers_owned_twoPads :
    ascii "28de/1304" ∉ ownedIds (controllerRun ⟨some [deviceLine (ascii "28de/1304")], none⟩
        [⟨ascii "run", false, ascii "0x28DE/0x1304,0x054c/0x0ce6", [], true, true, true, false, importAll, true⟩]) ∧
      ascii "054c/0ce6" ∈ inRegistry (controllerRun ⟨some [deviceLine (ascii "28de/1304")], none⟩
        [⟨ascii "run", false, ascii "0x28DE/0x1304,0x054c/0x0ce6", [], true, true, true, false, importAll, true⟩]) := by
  constructor
  · exact ((controllers_owned _ _).1 (ascii "28de/1304") (by decide) (by decide)).2
  · have h := (controllers_owned ⟨some [deviceLine (ascii "28de/1304")], none⟩ []).2.2
      ⟨ascii "run", false, ascii "0x28DE/0x1304,0x054c/0x0ce6", [], true, true, true, false, importAll, true⟩
      ⟨rfl, rfl, rfl, rfl, rfl⟩
    exact (h.1 (ascii "054c/0ce6")).mpr (.inr (by decide))

end NotProton.CompatRun
