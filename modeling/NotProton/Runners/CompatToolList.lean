import NotProton.Runners.SupportedRunner

/-!
# CompatToolList — the list of tool names the app writes (`RunnerStore.swift`)

One `sync` reads the list the last one wrote, the installed builds and the `runners/current` link of
a 1.0 install, writes the new list and then prunes the link.  What it prunes of the bridge names no
tool and is left out.
-/

open NotProton.Library

namespace NotProton.Runners

/-- The runners folder: the names in it, which clones are there, and what their loaders hash to. -/
structure Folder where
  entries : List Bytes
  hasClone : Bytes → Bool
  loaderSHA256 : Bytes → Option Bytes

def cloneStart : Bytes := utf8 "crossover-"

def clonedBuilds (runners : Folder) : List Bytes :=
  ((runners.entries.filter fun name ↦ cloneStart.isPrefixOf name && !name.contains 43).map
    (·.drop cloneStart.length)).insertionSort (· ≤ ·)

/-- `RunnerStore.build(cloned:)`. -/
def clonedBuild (runners : Folder) (id : Bytes) : Option RunnerBuild :=
  (buildOf id).bind fun build ↦
    if build.rebuilds = [] then some build
    else some (((runners.loaderSHA256 id).bind build.matching).getD build)

def installedBuilds (runners : Folder) : List RunnerBuild :=
  ((clonedBuilds runners).filterMap (clonedBuild runners)).filter fun b ↦ runners.hasClone b.id

def installedIds (runners : Folder) : List Bytes := (installedBuilds runners).map RunnerBuild.id

/-! ## Reading and writing the list -/

def rowOf (t : InstalledTool) : List Bytes := [t.name, t.build, t.tool.flavor.rawValue, t.display]

/-- A tool's line, without its newline. -/
def lineOf (t : InstalledTool) : Bytes :=
  t.name ++ 9 :: (t.build ++ 9 :: (t.tool.flavor.rawValue ++ 9 :: t.display))

def contents (tools : List InstalledTool) : Bytes := tools.flatMap fun t ↦ lineOf t ++ [10]

/-- `split(separator:)`, which leaves out empty pieces. -/
def split (c : UInt8) (s : Bytes) : List Bytes := (s.splitOn c).filter (· ≠ [])

def rows (listed : Option Bytes) : List (List Bytes) := (split 10 (listed.getD [])).map (split 9)

/-- The names of the list, which FEX tools are kept by. -/
def listedNames (listed : Option Bytes) : List Bytes := (rows listed).filterMap List.head?

/-- The name and build of a row that an installed build allowed to hold the legacy name has. -/
def holderRow (ids : List Bytes) : List Bytes → Option (Bytes × Bytes)
  | name :: build :: _ => if ids.contains build && legacyHolders.contains build then some (name, build) else none
  | _ => none

/-- The build that `runners/current` points into. -/
def currentBuild (target : Bytes) : Option Bytes :=
  ((split 47 target).find? (cloneStart.isPrefixOf ·)).map (·.drop cloneStart.length)

def legacyHolder (builds : List RunnerBuild) (listed : Option Bytes) (current : Option Bytes) : LegacyHolder :=
  let ids := builds.map RunnerBuild.id
  let held := (rows listed).filterMap (holderRow ids)
  match held.find? (·.1 = legacyToolName) with
  | some row => .build row.2
  | none =>
    if held ≠ [] then .nobody
    else match current.bind currentBuild with
      | some id => if ids.contains id && legacyHolders.contains id then .build id else .nobody
      | none => .nobody

/-- What stays between two syncs: the list file and the link of a 1.0 install. -/
structure Store where
  toolList : Option Bytes
  current : Option Bytes

/-- What a sync finds around it.  `written` tells whether the list file could be replaced. -/
structure Moment where
  runners : Folder
  fexAvailable : Bool
  legacyLayoutInUse : Bool
  written : Bool

/-- `resolved(...).tools`. -/
def resolved (m : Moment) (s : Store) : List InstalledTool :=
  let builds := installedBuilds m.runners
  let holder := legacyHolder builds s.toolList s.current
  let kept := listedNames s.toolList ++ if holder.id?.isSome then [legacyToolName] else []
  tools builds holder m.fexAvailable kept

def prune (m : Moment) (s : Store) : Store :=
  if m.legacyLayoutInUse then s else { s with current := none }

/-- `none` where it throws; else whether the list changed. -/
def sync (m : Moment) (s : Store) : Option (Bool × Store) :=
  let text := contents (resolved m s)
  let changed := !(s.toolList = some text || (s.toolList.isNone && text.isEmpty))
  if !changed then some (false, prune m s)
  else if m.written then some (true, prune m { s with toolList := some text })
  else none

/-- A sync, or something that puts `runners/current` there or takes it away. -/
inductive Event
  | sync (m : Moment)
  | link (target : Option Bytes)

def step (s : Store) : Event → Store
  | .sync m => ((sync m s).map Prod.snd).getD s
  | .link target => { s with current := target }

def run (s : Store) (events : List Event) : Store := events.foldl step s

/-- No list, or one that a sync wrote from whatever it had found. -/
def Start (s : Store) : Prop := s.toolList = none ∨ ∃ m s₀, s.toolList = some (contents (resolved m s₀))

/-- The rows listed after some events. -/
def listedRows (s : Store) : List (List Bytes) := rows s.toolList

/-! ## Reading back what was written -/

theorem isField_iff {s : Bytes} : isField s = true ↔ s ≠ [] ∧ 9 ∉ s ∧ 10 ∉ s := by
  simp only [isField, Bool.and_eq_true, Bool.not_eq_true', List.isEmpty_eq_false_iff, List.all_eq_true,
    bne_iff_ne, ne_eq]
  constructor
  · intro h
    exact ⟨h.1, fun h9 ↦ (h.2 9 h9).1 rfl, fun h10 ↦ (h.2 10 h10).2 rfl⟩
  · intro h
    exact ⟨h.1, fun c hc ↦ ⟨fun e ↦ h.2.1 (e ▸ hc), fun e ↦ h.2.2 (e ▸ hc)⟩⟩

/-- Every field of the row can be told from its neighbours. -/
def Legible (t : InstalledTool) : Prop := ∀ field ∈ rowOf t, isField field = true

theorem split_lineOf {t : InstalledTool} (h : Legible t) : split 9 (lineOf t) = rowOf t := by
  have hfield : ∀ field ∈ rowOf t, field ≠ [] ∧ 9 ∉ field ∧ 10 ∉ field := fun field hf ↦ isField_iff.mp (h field hf)
  simp only [rowOf, List.forall_mem_cons] at hfield
  rw [split, lineOf, List.splitOn_append_cons_self_of_not_mem hfield.1.2.1,
    List.splitOn_append_cons_self_of_not_mem hfield.2.1.2.1,
    List.splitOn_append_cons_self_of_not_mem hfield.2.2.1.2.1,
    List.splitOn_eq_singleton hfield.2.2.2.1.2.1]
  simp [rowOf, hfield]

theorem lineOf_spec {t : InstalledTool} (h : Legible t) : 10 ∉ lineOf t ∧ lineOf t ≠ [] := by
  have hfield : ∀ field ∈ rowOf t, field ≠ [] ∧ 9 ∉ field ∧ 10 ∉ field := fun field hf ↦ isField_iff.mp (h field hf)
  simp only [rowOf, List.forall_mem_cons] at hfield
  simp [lineOf, hfield]

theorem rows_contents {ts : List InstalledTool} (h : ∀ t ∈ ts, Legible t) :
    rows (some (contents ts)) = ts.map rowOf := by
  have hlines : contents ts = (ts.map lineOf).flatMap fun line ↦ line ++ [10] := by
    rw [contents, List.flatMap_map]
  have hsplit : split 10 (contents ts) = ts.map lineOf := by
    rw [split, hlines, splitOn_flatMap, List.filter_append]
    · rw [List.filter_eq_self.mpr]
      · simp
      · intro line hline
        obtain ⟨t, ht, rfl⟩ := List.mem_map.mp hline
        simpa using (lineOf_spec (h t ht)).2
    · intro line hline
      obtain ⟨t, ht, rfl⟩ := List.mem_map.mp hline
      exact (lineOf_spec (h t ht)).1
  rw [rows, Option.getD_some, hsplit, List.map_map]
  apply List.map_congr_left
  intro t ht
  exact split_lineOf (h t ht)

/-! ## What every list looks like -/

/-- One holder served every tool of the list, and no name is in it twice. -/
structure Proper (ts : List InstalledTool) : Prop where
  names : (ts.map InstalledTool.name).Nodup
  served : ∃ holder : Option Bytes, (∀ id, holder = some id → id ∈ legacyHolders) ∧
    ∀ t ∈ ts, ∃ o ∈ offered, serve holder o = t

theorem Proper.nil : Proper [] := ⟨List.nodup_nil, none, by simp, by simp⟩

theorem legible_serve (holder : Option Bytes) {o : Offer} (ho : o ∈ offered) : Legible (serve holder o) := by
  have h := offered_fields o ho
  have hname : isField (servedName holder o) = true := by
    unfold servedName
    split
    · decide
    · exact h.1
  intro field hf
  simp only [rowOf, List.mem_cons, List.not_mem_nil, or_false] at hf
  obtain rfl | rfl | rfl | rfl := hf
  · exact hname
  · exact h.2.1
  · exact h.2.2.1
  · exact h.2.2.2

theorem Proper.legible {ts : List InstalledTool} (h : Proper ts) : ∀ t ∈ ts, Legible t := by
  obtain ⟨holder, -, hserved⟩ := h.served
  intro t ht
  obtain ⟨o, ho, rfl⟩ := hserved t ht
  exact legible_serve holder ho

theorem Proper.eq_of_name {ts : List InstalledTool} (h : Proper ts) {t t' : InstalledTool} (ht : t ∈ ts)
    (ht' : t' ∈ ts) (hname : t.name = t'.name) : t = t' :=
  List.inj_on_of_nodup_map h.names ht ht' hname

/-- The list file of the store stands for these tools. -/
structure Stands (s : Store) (ts : List InstalledTool) : Prop where
  proper : Proper ts
  rows_eq : listedRows s = ts.map rowOf

theorem Stands.names_eq {s : Store} {ts : List InstalledTool} (h : Stands s ts) :
    listedNames s.toolList = ts.map InstalledTool.name := by
  rw [listedNames, show rows s.toolList = ts.map rowOf from h.rows_eq, List.filterMap_map,
    ← List.filterMap_eq_map]
  rfl

theorem holderRow_mem {fields : List (List Bytes)} {ids : List Bytes} {row : Bytes × Bytes}
    (h : row ∈ fields.filterMap (holderRow ids)) : row.2 ∈ legacyHolders := by
  obtain ⟨f, -, hf⟩ := List.mem_filterMap.mp h
  unfold holderRow at hf
  split at hf
  · simp only [Option.ite_none_right_eq_some, Bool.and_eq_true, List.contains_iff_mem] at hf
    rw [← Option.some.inj hf.2]
    exact hf.1.2
  · cases hf

theorem Stands.held_eq {s : Store} {ts : List InstalledTool} (h : Stands s ts) (ids : List Bytes) {row : Bytes × Bytes} :
    row ∈ (rows s.toolList).filterMap (holderRow ids) ↔
      ∃ t ∈ ts, (t.name, t.build) = row ∧ t.build ∈ ids ∧ t.build ∈ legacyHolders := by
  rw [show rows s.toolList = ts.map rowOf from h.rows_eq, List.filterMap_map, List.mem_filterMap]
  simp only [Function.comp_apply, rowOf, holderRow, Bool.and_eq_true, List.contains_iff_mem,
    Option.ite_none_right_eq_some, Option.some.injEq]
  tauto

/-- Whoever holds the legacy name is allowed to, and was listed with it or came before any row of an
installed holder was. -/
theorem legacyHolder_spec {builds : List RunnerBuild} {listed current : Option Bytes} {id : Bytes}
    (h : (legacyHolder builds listed current).id? = some id) :
    id ∈ legacyHolders ∧ ((legacyToolName, id) ∈ (rows listed).filterMap (holderRow (builds.map RunnerBuild.id)) ∨
      (rows listed).filterMap (holderRow (builds.map RunnerBuild.id)) = []) := by
  unfold legacyHolder at h
  dsimp only at h
  split at h
  · rename_i row hfind
    have hrow := List.mem_of_find?_eq_some hfind
    have hname : row.1 = legacyToolName := by simpa using List.find?_some hfind
    have hid : row.2 = id := Option.some.inj h
    have hmem : (legacyToolName, id) ∈ (rows listed).filterMap (holderRow (builds.map RunnerBuild.id)) := by
      rwa [← hname, ← hid]
    exact ⟨hid ▸ holderRow_mem hrow, .inl hmem⟩
  · split at h
    · cases h
    · rename_i hempty
      rw [ne_eq, not_not] at hempty
      split at h
      · split at h
        · rename_i hboth
          simp only [Bool.and_eq_true, List.contains_iff_mem] at hboth
          exact ⟨Option.some.inj h ▸ hboth.2, .inr hempty⟩
        · cases h
      · cases h

/-- A holder that is listed with the legacy name, and alone with it, keeps it. -/
theorem legacyHolder_of_row {builds : List RunnerBuild} {listed current : Option Bytes} {id : Bytes}
    (hrow : (legacyToolName, id) ∈ (rows listed).filterMap (holderRow (builds.map RunnerBuild.id)))
    (honly : ∀ id', (legacyToolName, id') ∈ (rows listed).filterMap (holderRow (builds.map RunnerBuild.id)) →
      id' = id) : legacyHolder builds listed current = .build id := by
  unfold legacyHolder
  dsimp only
  split
  · rename_i row hfind
    have hname : row.1 = legacyToolName := by simpa using List.find?_some hfind
    have hmem := List.mem_of_find?_eq_some hfind
    rw [honly row.2 (by rwa [← hname])]
  · rename_i hfind
    have := List.find?_eq_none.mp hfind _ hrow
    simp at this

theorem resolved_proper (m : Moment) (s : Store) : Proper (resolved m s) := by
  constructor
  · exact tools_names_nodup _ _ _ _
  · refine ⟨(legacyHolder (installedBuilds m.runners) s.toolList s.current).id?,
      fun id hid ↦ (legacyHolder_spec hid).1, fun t ht ↦ ?_⟩
    obtain ⟨⟨o, ho, -, hserve⟩, -⟩ := mem_tools.mp ht
    exact ⟨o, ho, hserve⟩

/-! ## What a sync keeps -/

/-- Only the first tool of the holder goes by the legacy name. -/
theorem servedName_legacy {holder : Option Bytes} {o : Offer} (ho : o ∈ offered) :
    servedName holder o = legacyToolName ↔ holder = some o.1.id ∧ o.2.2 = 0 := by
  unfold servedName
  split
  · rename_i h
    exact iff_of_true rfl h
  · rename_i h
    exact iff_of_false (own_names.2 o ho) h

/-- A tool that is listed for a build which is still installed is served under that name again. -/
theorem servedName_kept {m : Moment} {s : Store} {ts : List InstalledTool} (h : Stands s ts)
    {holder : Option Bytes} (hholder : ∀ id, holder = some id → id ∈ legacyHolders)
    (hserved : ∀ t ∈ ts, ∃ o ∈ offered, serve holder o = t) {o : Offer} (ho : o ∈ offered)
    (hmem : serve holder o ∈ ts) (hinst : o.1.id ∈ installedIds m.runners) :
    servedName (legacyHolder (installedBuilds m.runners) s.toolList s.current).id? o = servedName holder o := by
  by_cases hl : holder = some o.1.id ∧ o.2.2 = 0
  · -- it is listed under the legacy name, so its row is the one that is found
    have hname : (serve holder o).name = legacyToolName := (servedName_legacy ho).mpr hl
    have hheld : legacyHolder (installedBuilds m.runners) s.toolList s.current = .build o.1.id := by
      apply legacyHolder_of_row
      · exact (h.held_eq _).mpr ⟨_, hmem, by rw [hname]; rfl, hinst, hholder _ hl.1⟩
      · intro id' hrow
        obtain ⟨t, ht, hpair, -, -⟩ := (h.held_eq _).mp hrow
        have htname : t.name = legacyToolName := congrArg Prod.fst hpair
        rw [h.proper.eq_of_name ht hmem (htname.trans hname.symm)] at hpair
        exact (congrArg Prod.snd hpair).symm
    rw [hheld, (servedName_legacy ho).mpr hl]
    exact (servedName_legacy ho).mpr ⟨rfl, hl.2⟩
  · -- it is listed under its own name, so the holder is not its build
    have hnot : ¬((legacyHolder (installedBuilds m.runners) s.toolList s.current).id? = some o.1.id ∧
        o.2.2 = 0) := by
      rintro ⟨hnow, hfirst⟩
      obtain ⟨hallowed, hrow | hempty⟩ := legacyHolder_spec hnow
      · obtain ⟨t, ht, hpair, -, -⟩ := (h.held_eq _).mp hrow
        obtain ⟨o', ho', rfl⟩ := hserved t ht
        have hl' := (servedName_legacy ho').mp (congrArg Prod.fst hpair)
        have hid : o'.1.id = o.1.id := congrArg Prod.snd hpair
        exact hl ⟨hid ▸ hl'.1, hfirst⟩
      · have hrow := (h.held_eq ((installedBuilds m.runners).map RunnerBuild.id)).mpr
          ⟨_, hmem, rfl, hinst, hallowed⟩
        rw [hempty] at hrow
        cases hrow
    rw [servedName, servedName, if_neg hl, if_neg hnot]

theorem resolved_keeps {m : Moment} {s : Store} {ts : List InstalledTool} (h : Stands s ts) {t : InstalledTool}
    (ht : t ∈ ts) (hinst : t.build ∈ installedIds m.runners) : t ∈ resolved m s := by
  obtain ⟨holder, hholder, hserved⟩ := h.proper.served
  obtain ⟨o, ho, rfl⟩ := hserved t ht
  have hname := servedName_kept h hholder hserved ho ht hinst
  rw [resolved, mem_tools]
  constructor
  · exact ⟨o, ho, hinst, by rw [serve, serve, hname]⟩
  · have hlisted : (serve holder o).name ∈ listedNames s.toolList := by
      rw [h.names_eq]
      exact List.mem_map_of_mem ht
    simp [shown, hlisted]

theorem stands_of_text {s : Store} {m : Moment} {s₀ : Store} (h : s.toolList = some (contents (resolved m s₀))) :
    Stands s (resolved m s₀) := by
  constructor
  · exact resolved_proper m s₀
  · rw [listedRows, h, rows_contents (resolved_proper m s₀).legible]

theorem Start.stands {s : Store} (h : Start s) : ∃ ts, Stands s ts := by
  obtain h | ⟨m, s₀, h⟩ := h
  · exact ⟨[], Proper.nil, by rw [listedRows, h]; rfl⟩
  · exact ⟨_, stands_of_text h⟩

@[simp] theorem prune_toolList (m : Moment) (s : Store) : (prune m s).toolList = s.toolList := by
  unfold prune
  split <;> rfl

theorem contents_eq_nil {ts : List InstalledTool} (h : contents ts = []) : ts = [] := by
  cases ts with
  | nil => rfl
  | cons t ts => simp [contents] at h

/-- A sync that throws leaves the store as it is; any other leaves the list it resolved. -/
theorem step_sync (m : Moment) (s : Store) :
    step s (.sync m) = s ∨ listedRows (step s (.sync m)) = (resolved m s).map rowOf := by
  have hrows := rows_contents (resolved_proper m s).legible
  by_cases hsame : s.toolList = some (contents (resolved m s))
  · right
    have hsync : sync m s = some (false, prune m s) := by
      simp [sync, ← hsame]
    rw [step, hsync, listedRows, Option.map_some, Option.getD_some, prune_toolList, hsame, hrows]
  · by_cases hempty : s.toolList = none ∧ contents (resolved m s) = []
    · right
      have hsync : sync m s = some (false, prune m s) := by
        simp [sync, hempty]
      rw [step, hsync, listedRows, Option.map_some, Option.getD_some, prune_toolList, hempty.1,
        contents_eq_nil hempty.2]
      rfl
    · -- A list that differs is written, unless an empty one is all there would be.
      have hchanged : (!(decide (s.toolList = some (contents (resolved m s))) ||
          (s.toolList.isNone && (contents (resolved m s)).isEmpty))) = true := by
        rw [decide_eq_false hsame, Bool.false_or, Bool.not_eq_true', Bool.eq_false_iff]
        intro hboth
        rw [Bool.and_eq_true, Option.isNone_iff_eq_none, List.isEmpty_iff] at hboth
        exact hempty hboth
      cases hw : m.written with
      | true =>
        right
        have hsync : sync m s = some (true, prune m { s with toolList := some (contents (resolved m s)) }) := by
          simp only [sync, hchanged, hw]
          rfl
        rw [step, hsync, listedRows, Option.map_some, Option.getD_some, prune_toolList]
        exact hrows
      | false =>
        left
        have hsync : sync m s = none := by
          simp only [sync, hchanged, hw]
          rfl
        rw [step, hsync]
        rfl

/-- One event: every tool listed for a build that a sync finds installed stays listed. -/
theorem step_stands {s : Store} {ts : List InstalledTool} (h : Stands s ts) (e : Event) :
    ∃ ts', Stands (step s e) ts' ∧
      ∀ t ∈ ts, (∀ m, e = .sync m → t.build ∈ installedIds m.runners) → t ∈ ts' := by
  cases e with
  | link target => exact ⟨ts, ⟨h.proper, h.rows_eq⟩, fun t ht _ ↦ ht⟩
  | sync m =>
    obtain hthrow | hrows := step_sync m s
    · exact ⟨ts, by rwa [hthrow], fun t ht _ ↦ ht⟩
    · exact ⟨resolved m s, ⟨resolved_proper m s, hrows⟩, fun t ht hinst ↦ resolved_keeps h ht (hinst m rfl)⟩

/-- Any run of events. -/
theorem run_stands {s : Store} {ts : List InstalledTool} (h : Stands s ts) (events : List Event) :
    ∃ ts', Stands (run s events) ts' ∧
      ∀ t ∈ ts, (∀ m, .sync m ∈ events → t.build ∈ installedIds m.runners) → t ∈ ts' := by
  induction events generalizing s ts with
  | nil => exact ⟨ts, h, fun t ht _ ↦ ht⟩
  | cons e events ih =>
    obtain ⟨ts₁, h₁, hkeep₁⟩ := step_stands h e
    obtain ⟨ts', h', hkeep'⟩ := ih h₁
    refine ⟨ts', h', fun t ht hinst ↦ ?_⟩
    apply hkeep' t
    · apply hkeep₁ t ht
      intro m he
      exact hinst m (he ▸ List.mem_cons_self)
    · intro m hm
      exact hinst m (List.mem_cons_of_mem e hm)

theorem run_append (s : Store) (before later : List Event) : run s (before ++ later) = run (run s before) later :=
  List.foldl_append

/-- In every run of syncs no name is listed twice, and a row stays listed as long as every later sync
finds its build installed; no other build is listed under its name meanwhile. -/
theorem toolNames_stay (s : Store) (hs : Start s) (before later : List Event) :
    ((listedRows (run s before)).map List.head?).Nodup ∧ (∀ row ∈ listedRows (run s before), row.length = 4) ∧
      ∀ name build flavor display, [name, build, flavor, display] ∈ listedRows (run s before) →
        (∀ m, .sync m ∈ later → build ∈ installedIds m.runners) →
          [name, build, flavor, display] ∈ listedRows (run s (before ++ later)) ∧
            ∀ row ∈ listedRows (run s (before ++ later)), row.head? = some name → row[1]? = some build := by
  obtain ⟨ts₀, h₀⟩ := hs.stands
  obtain ⟨ts, h, -⟩ := run_stands h₀ before
  obtain ⟨ts', h', hkeep⟩ := run_stands h later
  refine ⟨?_, ?_, ?_⟩
  · rw [h.rows_eq, List.map_map]
    have hnames := h.proper.names.map (Option.some_injective Bytes)
    rwa [List.map_map] at hnames
  · rw [h.rows_eq]
    intro row hrow
    obtain ⟨t, -, rfl⟩ := List.mem_map.mp hrow
    rfl
  · -- A row is a tool of the state, and every later sync that finds its build keeps it.
    intro name build flavor display hrow hinst
    rw [h.rows_eq] at hrow
    obtain ⟨t, ht, hfields⟩ := List.mem_map.mp hrow
    simp only [rowOf, List.cons.injEq, and_true] at hfields
    have ht' : t ∈ ts' := hkeep t ht fun m hm ↦ hfields.2.1 ▸ hinst m hm
    rw [run_append, h'.rows_eq]
    constructor
    · exact List.mem_map.mpr ⟨t, ht', by simp [rowOf, hfields]⟩
    · intro row hrow' hname
      obtain ⟨u, hu, rfl⟩ := List.mem_map.mp hrow'
      have hut : u = t := h'.proper.eq_of_name hu ht' ((Option.some.inj hname).trans hfields.1.symm)
      rw [hut]
      exact congrArg some hfields.2.1

/-- A folder in which exactly these builds are cloned. -/
def cloned (ids : List Bytes) : Folder where
  entries := ids.map (cloneStart ++ ·)
  hasClone := fun _ ↦ true
  loaderSHA256 := fun _ ↦ none

/-- A 1.0 install of the FEX Preview that later gets the Rosetta one, on a Mac that runs no FEX. -/
theorem toolNames_stay_legacy :
    [utf8 "notproton", utf8 "27.0.0.40921-fex", utf8 "fex", utf8 "CrossOver 2026 08 21-ARM64 - FEX"] ∈
      listedRows (run ⟨none, some (utf8 "crossover-27.0.0.40921-fex/CrossOver")⟩
        [.sync ⟨cloned [utf8 "27.0.0.40921-fex"], false, false, true⟩,
          .sync ⟨cloned [utf8 "27.0.0.40921-fex", utf8 "27.0.0.40921"], false, false, true⟩]) := by
  have h := toolNames_stay ⟨none, some (utf8 "crossover-27.0.0.40921-fex/CrossOver")⟩ (.inl rfl)
    [.sync ⟨cloned [utf8 "27.0.0.40921-fex"], false, false, true⟩]
    [.sync ⟨cloned [utf8 "27.0.0.40921-fex", utf8 "27.0.0.40921"], false, false, true⟩]
  refine (h.2.2 _ _ _ _ ?_ ?_).1
  · decide
  · intro m hm
    simp only [List.mem_cons, List.not_mem_nil, or_false, Event.sync.injEq] at hm
    rw [hm]
    decide

end NotProton.Runners
