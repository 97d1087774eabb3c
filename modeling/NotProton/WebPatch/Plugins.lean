import NotProton.CompatRun.Environment
import NotProton.Library.Chain

/-!
# Plugins — which plugins the panel counts as on (`webpatch.c`, `conf.c`)

`feat_build` writes the records of the descriptor reader out as JavaScript, and the panel follows
`depends` through them.  Labels, choices, ranges and the like decide nothing here and are left out.
-/

open NotProton.Library

namespace NotProton.WebPatch

/-! ## The records the descriptor reader delivers -/

/-- The fields of a record, in the order they were read. -/
abbrev Fields := List (Bytes × Bytes)

def npConfGet (kv : Fields) (name : Bytes) : Option Bytes := (kv.find? (·.1 = name)).map Prod.snd

def npConfAll (kv : Fields) (name : Bytes) : List Bytes := (kv.filter (·.1 = name)).map Prod.snd

def isToolByte (c : UInt8) : Bool :=
  isUpper c || isLower c || isDigit c || c == 46 || c == 95 || c == 45

/-- `conf_tool_ok` -/
def confToolOk (v : Bytes) : Bool :=
  let name := if v.getLast? = some 42 then v.dropLast else v
  v ≠ [] && name ≠ [] && name.all isToolByte

/-- `conf_id_ok` of a plugin. -/
def confIdOk (id : Bytes) : Bool :=
  (ascii "NOTPROTON_").isPrefixOf id && id.length ≠ 10 &&
    (id.drop 10).all fun c ↦ isUpper c || isDigit c || c == 95

/-- A record the reader takes: it has its label, no empty value and only tools that may be named. -/
structure PluginRec where
  id : Bytes
  kv : Fields
  id_ok : confIdOk id = true
  label : (npConfGet kv (ascii "label")).isSome
  values : ∀ f ∈ kv, f.2 ≠ []
  tools_ok : ∀ f ∈ kv, f.1 = ascii "tools" → confToolOk f.2 = true

/-- The records of a directory, with no control character in a value. -/
structure PluginTable where
  recs : List PluginRec
  nodup : (recs.map PluginRec.id).Nodup
  limit : recs.length ≤ 32
  plain : ∀ r ∈ recs, ∀ f ∈ r.kv, ∀ c ∈ f.2, 32 ≤ c

/-- The table `np_conf_normalise` prints for the same records. -/
def PluginTable.table (t : PluginTable) : CompatRun.ConfTable :=
  t.recs.flatMap fun r ↦ r.kv.map fun f ↦ ⟨r.id, f.1, f.2⟩

/-! ## Writing them out -/

/-- `out_jsstr` -/
def outJsstr (v : Bytes) : Bytes :=
  34 :: ((v.flatMap fun c ↦ if c = 34 ∨ c = 92 then [92, c] else if c < 32 then [] else [c]) ++ [34])

/-- The string literal JavaScript reads after its opening quote, with the two escapes that are written. -/
def readJsstr : Bytes → Option (Bytes × Bytes)
  | [] => none
  | 34 :: s => some ([], s)
  | 92 :: c :: s =>
      if c = 34 ∨ c = 92 then (readJsstr s).map fun r ↦ (c :: r.1, r.2) else none
  | c :: s => if c = 92 then none else (readJsstr s).map fun r ↦ (c :: r.1, r.2)

/-- What a text is to the page. -/
def jsText (v : Bytes) : Bytes := v.filter (32 ≤ ·)

theorem readJsstr_cons {c : UInt8} (h : c ≠ 34) (h' : c ≠ 92) (s : Bytes) :
    readJsstr (c :: s) = (readJsstr s).map fun r ↦ (c :: r.1, r.2) := by
  rw [readJsstr.eq_def]
  split
  · rename_i heq
    cases heq
  · rename_i heq
    exact absurd (List.cons.inj heq).1 h
  · rename_i heq
    exact absurd (List.cons.inj heq).1 h'
  · rename_i heq
    obtain ⟨rfl, rfl⟩ := List.cons.inj heq
    rw [if_neg h']

theorem readJsstr_outJsstr (v rest : Bytes) : (outJsstr v ++ rest).head? = some 34 ∧
    readJsstr ((outJsstr v ++ rest).drop 1) = some (jsText v, rest) := by
  refine ⟨rfl, ?_⟩
  simp only [outJsstr, List.cons_append, List.drop_succ_cons, List.drop_zero]
  induction v with
  | nil => rfl
  | cons c v ih =>
    rw [List.flatMap_cons, List.append_assoc, List.append_assoc, jsText, List.filter_cons]
    rw [List.append_assoc] at ih
    by_cases hq : c = 34 ∨ c = 92
    · rw [if_pos hq, List.cons_append, List.singleton_append, readJsstr, if_pos hq, ih]
      obtain rfl | rfl := hq <;> rfl
    · obtain ⟨hq, hb⟩ := not_or.mp hq
      rw [if_neg (not_or.mpr ⟨hq, hb⟩)]
      by_cases hlow : c < 32
      · rw [if_pos hlow, List.nil_append, ih, if_neg (by simpa using hlow)]
        rfl
      · rw [if_neg hlow, List.singleton_append, readJsstr_cons hq hb, ih, if_pos (by simpa using hlow)]
        rfl

/-- `resolve_home_path` into a buffer of `size` bytes. -/
def resolveHomePath (size : Nat) (home rel : Bytes) : Option Bytes :=
  if rel = [] then none
  else
    let path :=
      if rel.head? = some 47 then rel
      else
        home ++ 47 ::
          if (ascii "~/").isPrefixOf rel then rel.drop 2
          else if (ascii "$HOME/").isPrefixOf rel then rel.drop 6
          else rel
    if path.length < size then some path else none

/-- `feat_exists` -/
def featExists (home : Bytes) (isFile : Bytes → Bool) (rel : Bytes) : Bool :=
  (resolveHomePath 2048 home rel).any isFile

/-- The entry of `ready`: whether the plugin has what it requires. -/
def featReady (home : Bytes) (isFile : Bytes → Bool) (r : PluginRec) : Bool :=
  let requires := npConfAll r.kv (ascii "requires")
  requires = [] || requires.any (featExists home isFile)

/-- The row of a plugin, as the page reads it. -/
structure Feat where
  k : Bytes
  on : Bytes
  dep : Bytes
  ev : Option (List Bytes)
  tl : Option (List Bytes)
  rq : Option Bytes
  ty : Option Bytes

/-- `feat_put_list` -/
def featPutList (r : PluginRec) (field : Bytes) : Option (List Bytes) :=
  if (npConfGet r.kv field).isSome then some ((npConfAll r.kv field).map jsText) else none

def featRow (home : Bytes) (isFile : Bytes → Bool) (r : PluginRec) : Feat where
  k := jsText r.id
  on := jsText ((npConfGet r.kv (ascii "on")).getD (ascii "1"))
  dep := jsText ((npConfGet r.kv (ascii "depends")).getD [])
  ev := featPutList r (ascii "env")
  tl := featPutList r (ascii "tools")
  rq :=
    if npConfGet r.kv (ascii "inject") = some (ascii "1") then
      (((npConfAll r.kv (ascii "requires")).find? (featExists home isFile)).bind (resolveHomePath 2048 home)).map jsText
    else none
  ty := (npConfGet r.kv (ascii "type")).map jsText

/-! ## The panel -/

/-- What the panel is built over: both inputs of `feat_build`, the tool, and how it reads an option. -/
structure Panel where
  ready : List (Bytes × Bool)
  feats : List Feat
  tool : Bytes
  ours : Bool
  get : Bytes → Bytes

def featBuild (t : PluginTable) (home : Bytes) (isFile : Bytes → Bool) (tool : Bytes) (ours : Bool)
    (get : Bytes → Bytes) : Panel where
  ready := t.recs.map fun r ↦ (r.id, featReady home isFile r)
  feats := t.recs.map (featRow home isFile)
  tool := tool
  ours := ours
  get := get

/-- `npFor` -/
def npFor (p : Panel) (pat : Bytes) : Bool :=
  if pat.getLast? = some 42 then pat.dropLast.isPrefixOf p.tool else pat = p.tool

/-- `MSCXFeat` -/
def mscxFeat (p : Panel) : List Feat := p.feats.filter fun f ↦ (f.tl.map (·.any (npFor p))).getD true

/-- `MSCXReady[k]!==0` -/
def isReady (p : Panel) (k : Bytes) : Bool := p.ready.lookup k ≠ some false

def npKey (p : Panel) (f : Feat) : Bytes :=
  if p.ours then f.k
  else if (ascii "NOTPROTON_ENV_").isPrefixOf f.k then f.k.drop (ascii "NOTPROTON_ENV_").length else f.k

def npHas (p : Panel) (f : Feat) : Bool :=
  (f.rq.all fun rq ↦ ((p.get (ascii "DYLD_INSERT_LIBRARIES")).splitOn 58).contains rq) &&
    (f.ev.getD []).all fun e ↦ p.get (splitAt 61 e).1 = (splitAt 61 e).2.getD []

/-- The part of `on1` about the row itself. -/
def holds (p : Panel) (f : Feat) : Bool :=
  if f.ty.any (· ≠ []) then p.get (npKey p f) ≠ []
  else if p.ours then p.get f.k = f.on
  else npHas p f

/-- `on1`, at the depth `n` it counts up. -/
def on1 (p : Panel) (k : Bytes) (n : Nat) : Bool :=
  match (mscxFeat p).find? (·.k = k) with
  | none => false
  | some f =>
    if h : n < 32 then
      isReady p k && holds p f && (f.dep = [] || on1 p f.dep (n + 1))
    else false
termination_by 32 - n

/-- `np_feat_active`, at the level it counts up. -/
def npFeatActive (l : CompatRun.Launch) (id : Bytes) (n : Nat) : Bool :=
  if h : n ≤ 32 then
    CompatRun.npConfHas l.table id && CompatRun.npFeatForTool l id && CompatRun.npFeatSwitched l id &&
      CompatRun.npFeatInstalled l id &&
        let dep := CompatRun.npConfValue l.table id (ascii "depends")
        (dep = [] || npFeatActive l dep (n + 1))
  else false
termination_by 33 - n

/-! ## Patterns -/

/-- `case "$s" in ($pat)` for a pattern without `?`, brackets or backslashes. -/
def caseMatches : Bytes → Bytes → Bool
  | [], s => s.isEmpty
  | 42 :: pat, s => s.tails.any (caseMatches pat)
  | c :: pat, s => s.head? = some c && caseMatches pat (s.drop 1)

theorem caseMatches_cons {c : UInt8} (h : c ≠ 42) (pat s : Bytes) :
    caseMatches (c :: pat) s = (s.head? = some c && caseMatches pat (s.drop 1)) := by
  rw [caseMatches.eq_def]
  split
  · rename_i heq
    cases heq
  · rename_i heq
    exact absurd (List.cons.inj heq).1 h
  · rename_i heq
    obtain ⟨rfl, rfl⟩ := List.cons.inj heq
    rfl

theorem caseMatches_plain {pat : Bytes} (h : 42 ∉ pat) (s : Bytes) : caseMatches pat s = decide (pat = s) := by
  induction pat generalizing s with
  | nil => cases s <;> rfl
  | cons c pat ih =>
    obtain ⟨hc, hpat⟩ := not_or.mp fun hor ↦ h (List.mem_cons.mpr hor)
    rw [caseMatches_cons (Ne.symm hc), ih hpat]
    cases s with
    | nil => simp
    | cons b s => simp [eq_comm]

theorem caseMatches_star {pat : Bytes} (h : 42 ∉ pat) (s : Bytes) :
    caseMatches (pat ++ [42]) s = pat.isPrefixOf s := by
  induction pat generalizing s with
  | nil =>
    rw [List.nil_append, caseMatches, List.isPrefixOf_nil_left, List.any_eq_true]
    exact ⟨[], by simp, rfl⟩
  | cons c pat ih =>
    obtain ⟨hc, hpat⟩ := not_or.mp fun hor ↦ h (List.mem_cons.mpr hor)
    rw [List.cons_append, caseMatches_cons (Ne.symm hc), ih hpat]
    cases s with
    | nil => simp
    | cons b s => simp [List.isPrefixOf, beq_eq_decide, eq_comm]

/-- On what `conf_tool_ok` lets through the glob of the launch is the panel's prefix test. -/
theorem caseMatches_eq_toolMatches {pat : Bytes} (h : confToolOk pat = true) (tool : Bytes) :
    caseMatches pat tool = CompatRun.toolMatches tool pat := by
  have hbyte : ∀ c, isToolByte c = true → c ≠ 42 := forall_byte (by decide +kernel)
  simp only [confToolOk, Bool.and_eq_true, decide_eq_true_eq, List.all_eq_true] at h
  obtain ⟨⟨hne, -⟩, hall⟩ := h
  unfold CompatRun.toolMatches
  by_cases hstar : pat.getLast? = some 42
  · rw [if_pos hstar] at hall ⊢
    have hpat : pat = pat.dropLast ++ [42] := by
      rw [← List.dropLast_append_getLast hne, List.dropLast_concat]
      rw [List.getLast?_eq_getLast_of_ne_nil hne] at hstar
      rw [Option.some.inj hstar]
    conv_lhs => rw [hpat]
    exact caseMatches_star (fun hmem ↦ hbyte 42 (hall 42 hmem) rfl) tool
  · rw [if_neg hstar] at hall ⊢
    exact caseMatches_plain (fun hmem ↦ hbyte 42 (hall 42 hmem) rfl) tool

/-! ## Both as walks along `depends` -/

/-- The row of a plugin is there, ready, and on by its own value. -/
def rowOn (p : Panel) (k : Bytes) : Bool :=
  ((mscxFeat p).find? (·.k = k)).any fun f ↦ isReady p k && holds p f

def rowParent (p : Panel) (k : Bytes) : Option Bytes :=
  ((mscxFeat p).find? (·.k = k)).bind fun f ↦ if f.dep = [] then none else some f.dep

theorem on1_eq_ends (p : Panel) (fuel : Nat) (k : Bytes) (hfuel : fuel ≤ 32) :
    on1 p k (32 - fuel) = ends (rowOn p) (rowParent p) fuel k := by
  induction fuel generalizing k with
  | zero =>
    rw [on1, ends]
    split
    · rfl
    · exact dif_neg (by omega)
  | succ fuel ih =>
    rw [on1, ends, rowOn, rowParent]
    split
    · rename_i hfind
      rw [hfind]
      rfl
    · rename_i f hfind
      rw [dif_pos (by omega), hfind, Option.any_some, Option.bind_some]
      congr 1
      by_cases hdep : f.dep = []
      · simp [hdep]
      · have hnext := ih f.dep (by omega)
        rw [show 32 - fuel = 32 - (fuel + 1) + 1 by omega] at hnext
        simpa [hdep] using hnext

def pluginOn (l : CompatRun.Launch) (id : Bytes) : Bool :=
  CompatRun.npConfHas l.table id && CompatRun.npFeatForTool l id && CompatRun.npFeatSwitched l id &&
    CompatRun.npFeatInstalled l id

def pluginParent (l : CompatRun.Launch) (id : Bytes) : Option Bytes :=
  let dep := CompatRun.npConfValue l.table id (ascii "depends")
  if dep = [] then none else some dep

theorem npFeatActive_eq_ends (l : CompatRun.Launch) (fuel : Nat) (id : Bytes) (hfuel : fuel ≤ 33) :
    npFeatActive l id (33 - fuel) = ends (pluginOn l) (pluginParent l) fuel id := by
  induction fuel generalizing id with
  | zero =>
    rw [npFeatActive, ends]
    exact dif_neg (by omega)
  | succ fuel ih =>
    rw [npFeatActive, ends, pluginOn, pluginParent, dif_pos (by omega)]
    congr 1
    by_cases hdep : CompatRun.npConfValue l.table id (ascii "depends") = []
    · simp [hdep]
    · have hnext := ih (CompatRun.npConfValue l.table id (ascii "depends")) (by omega)
      rw [show 33 - fuel = 33 - (fuel + 1) + 1 by omega] at hnext
      simpa [hdep] using hnext

/-- It is the recursion with its levels counted down. -/
theorem npFeatActive_eq (l : CompatRun.Launch) (id : Bytes) : npFeatActive l id 0 = CompatRun.npFeatActive l 33 id := by
  have hdown : ∀ fuel id, CompatRun.npFeatActive l fuel id = ends (pluginOn l) (pluginParent l) fuel id := by
    intro fuel
    induction fuel with
    | zero => exact fun id ↦ rfl
    | succ fuel ih =>
      intro id
      rw [CompatRun.npFeatActive, ends, pluginOn, pluginParent]
      congr 1
      by_cases hdep : CompatRun.npConfValue l.table id (ascii "depends") = []
      · simp [hdep]
      · simpa [hdep] using ih (CompatRun.npConfValue l.table id (ascii "depends"))
  rw [hdown, ← npFeatActive_eq_ends l 33 id le_rfl]

/-! ## One table, read from both sides -/

theorem npConfGet_eq_none {kv : Fields} {name : Bytes} : npConfGet kv name = none ↔ npConfAll kv name = [] := by
  simp [npConfGet, npConfAll, List.filter_eq_nil_iff]

theorem npConfAll_head (kv : Fields) (name : Bytes) : (npConfAll kv name).head? = npConfGet kv name := by
  rw [npConfAll, npConfGet, List.head?_map, List.head?_filter]

theorem mem_npConfAll {kv : Fields} {name v : Bytes} : v ∈ npConfAll kv name ↔ (name, v) ∈ kv := by
  simp only [npConfAll, List.mem_map, List.mem_filter, decide_eq_true_eq]
  constructor
  · rintro ⟨f, ⟨hf, rfl⟩, rfl⟩
    exact hf
  · exact fun hf ↦ ⟨_, ⟨hf, rfl⟩, rfl⟩

section table

variable {t : PluginTable} {r : PluginRec}

/-- A record's rows are its own fields, one after another. -/
theorem values_rows (r' : PluginRec) (id field : Bytes) :
    CompatRun.npConfValues (r'.kv.map fun f ↦ ⟨r'.id, f.1, f.2⟩) id field =
      if r'.id = id then npConfAll r'.kv field else [] := by
  rw [CompatRun.npConfValues, List.filter_map, List.map_map]
  split_ifs with hid
  · simp only [npConfAll, Function.comp_def, hid, true_and]
  · simp [Function.comp_def, hid]

theorem values_append (rows rows' : CompatRun.ConfTable) (id field : Bytes) :
    CompatRun.npConfValues (rows ++ rows') id field =
      CompatRun.npConfValues rows id field ++ CompatRun.npConfValues rows' id field := by
  simp [CompatRun.npConfValues]

theorem values_other {recs : List PluginRec} {id : Bytes} (h : id ∉ recs.map PluginRec.id) (field : Bytes) :
    CompatRun.npConfValues (recs.flatMap fun r ↦ r.kv.map fun f ↦ ⟨r.id, f.1, f.2⟩) id field = [] := by
  induction recs with
  | nil => rfl
  | cons r' recs ih =>
    obtain ⟨hne, hrest⟩ := not_or.mp fun hor ↦ h (List.mem_cons.mpr hor)
    rw [List.flatMap_cons, values_append, values_rows, if_neg (Ne.symm hne), ih hrest, List.append_nil]

theorem table_values (hr : r ∈ t.recs) (field : Bytes) :
    CompatRun.npConfValues t.table r.id field = npConfAll r.kv field := by
  have hnodup := t.nodup
  rw [PluginTable.table]
  generalize t.recs = recs at hr hnodup ⊢
  induction recs with
  | nil => cases hr
  | cons r' recs ih =>
    rw [List.map_cons, List.nodup_cons] at hnodup
    rw [List.flatMap_cons, values_append, values_rows]
    obtain rfl | hr := List.mem_cons.mp hr
    · rw [if_pos rfl, values_other hnodup.1, List.append_nil]
    · have hne : r'.id ≠ r.id := fun hid ↦ hnodup.1 (hid ▸ List.mem_map_of_mem hr)
      rw [if_neg hne, List.nil_append, ih hr hnodup.2]

theorem table_value (hr : r ∈ t.recs) (field : Bytes) :
    CompatRun.npConfValue t.table r.id field = (npConfGet r.kv field).getD [] := by
  rw [CompatRun.npConfValue, table_values hr, npConfAll_head]

/-- Every record has at least its label's row. -/
theorem table_has {id : Bytes} : CompatRun.npConfHas t.table id = true ↔ ∃ r ∈ t.recs, r.id = id := by
  simp only [CompatRun.npConfHas, PluginTable.table, List.any_eq_true, List.mem_flatMap, List.mem_map,
    decide_eq_true_eq]
  constructor
  · rintro ⟨row, ⟨r, hr, f, hf, rfl⟩, hid⟩
    exact ⟨r, hr, hid⟩
  · rintro ⟨r, hr, hid⟩
    obtain ⟨v, hv⟩ := Option.isSome_iff_exists.mp r.label
    obtain ⟨f, hfind, -⟩ := Option.map_eq_some_iff.mp hv
    exact ⟨_, ⟨r, hr, f, List.mem_of_find?_eq_some hfind, rfl⟩, hid⟩

theorem value_ne_nil {field v : Bytes} (hv : npConfGet r.kv field = some v) : v ≠ [] := by
  obtain ⟨f, hfind, rfl⟩ := Option.map_eq_some_iff.mp hv
  exact r.values f (List.mem_of_find?_eq_some hfind)

theorem jsText_plain {v : Bytes} (h : ∀ c ∈ v, 32 ≤ c) : jsText v = v := by
  rw [jsText, List.filter_eq_self]
  intro c hc
  exact decide_eq_true (h c hc)

theorem jsText_value (hr : r ∈ t.recs) {field v : Bytes} (hv : npConfGet r.kv field = some v) : jsText v = v := by
  obtain ⟨f, hfind, rfl⟩ := Option.map_eq_some_iff.mp hv
  exact jsText_plain (t.plain r hr f (List.mem_of_find?_eq_some hfind))

theorem jsText_getD (hr : r ∈ t.recs) (field : Bytes) {d : Bytes} (hd : jsText d = d) :
    jsText ((npConfGet r.kv field).getD d) = (npConfGet r.kv field).getD d := by
  cases hv : npConfGet r.kv field with
  | none => exact hd
  | some v => exact jsText_value hr hv

theorem map_jsText_values (hr : r ∈ t.recs) (field : Bytes) :
    (npConfAll r.kv field).map jsText = npConfAll r.kv field := by
  have hid : (npConfAll r.kv field).map jsText = (npConfAll r.kv field).map id := by
    apply List.map_congr_left
    intro v hv
    exact jsText_plain (t.plain r hr _ (mem_npConfAll.mp hv))
  rw [hid, List.map_id]

theorem jsText_id (r : PluginRec) : jsText r.id = r.id := by
  have hbyte : ∀ c, (isUpper c || isDigit c || c == 95) = true → 32 ≤ c := forall_byte (by decide +kernel)
  have hstart : ∀ c ∈ ascii "NOTPROTON_", 32 ≤ c := by decide +kernel
  have hok := r.id_ok
  simp only [confIdOk, Bool.and_eq_true, List.all_eq_true] at hok
  apply jsText_plain
  intro c hc
  obtain ⟨rest, hrest⟩ := List.isPrefixOf_iff_prefix.mp hok.1.1
  have hdrop : r.id.drop 10 = rest := by
    rw [← hrest]
    exact List.drop_left' (by decide)
  rw [← hrest] at hc
  obtain hc | hc := List.mem_append.mp hc
  · exact hstart c hc
  · exact hbyte c (hok.2 c (hdrop ▸ hc))

end table

/-! ## One plugin, seen from both sides -/

section agree

variable {t : PluginTable} {r : PluginRec} {l : CompatRun.Launch}

/-- The panel over the launch's table, files, tool and options. -/
def panelOf (t : PluginTable) (l : CompatRun.Launch) : Panel :=
  featBuild t l.home l.isFile l.toolName true l.var

theorem featPutList_eq (hr : r ∈ t.recs) (field : Bytes) :
    featPutList r field = if npConfAll r.kv field = [] then none else some (npConfAll r.kv field) := by
  rw [featPutList, map_jsText_values hr]
  by_cases hnone : npConfAll r.kv field = []
  · rw [if_pos hnone, npConfGet_eq_none.mpr hnone]
    rfl
  · have hsome : (npConfGet r.kv field).isSome = true := by
      rw [Option.isSome_iff_ne_none]
      exact fun h ↦ hnone (npConfGet_eq_none.mp h)
    rw [if_neg hnone, if_pos hsome]

/-- The filter on `tl` keeps what `np_feat_for_tool` lets through. -/
theorem forTool_eq (htable : l.table = t.table) (hr : r ∈ t.recs) :
    ((featRow l.home l.isFile r).tl.map (·.any (npFor (panelOf t l)))).getD true = CompatRun.npFeatForTool l r.id := by
  have hvalues : ∀ pat ∈ npConfAll r.kv (ascii "tools"), pat ≠ [] :=
    fun pat hpat ↦ r.values _ (mem_npConfAll.mp hpat)
  show ((featPutList r (ascii "tools")).map _).getD true = _
  rw [featPutList_eq hr, CompatRun.npFeatForTool, htable, table_values hr]
  by_cases hnone : npConfAll r.kv (ascii "tools") = []
  · simp [hnone]
  · rw [if_neg hnone, Option.map_some, Option.getD_some]
    simp only [hnone, decide_false, Bool.false_or]
    rw [Bool.eq_iff_iff, List.any_eq_true, List.any_eq_true]
    constructor
    · rintro ⟨pat, hpat, hmatch⟩
      exact ⟨pat, hpat, Bool.and_eq_true_iff.mpr ⟨decide_eq_true (hvalues pat hpat), hmatch⟩⟩
    · rintro ⟨pat, hpat, hmatch⟩
      exact ⟨pat, hpat, (Bool.and_eq_true_iff.mp hmatch).2⟩

theorem npHomePath_eq {home rel : Bytes} : CompatRun.npHomePath home rel =
    if rel.head? = some 47 then rel
    else home ++ 47 ::
      if (ascii "~/").isPrefixOf rel then rel.drop 2
      else if (ascii "$HOME/").isPrefixOf rel then rel.drop 6
      else rel := by
  have hslash : ascii "/" = [47] := by decide
  have htilde : (ascii "~/").length = 2 := by decide
  have hhome : (ascii "$HOME/").length = 6 := by decide
  simp only [CompatRun.npHomePath, CompatRun.stripStart, htilde, hhome, hslash, List.append_assoc,
    List.singleton_append]
  split_ifs <;> rfl

/-- A file too deep for the panel's buffer is none that can be there. -/
theorem featExists_eq (hshort : ∀ path, l.isFile path = true → path.length < 2048) {rel : Bytes} (hrel : rel ≠ []) :
    featExists l.home l.isFile rel = l.isFile (CompatRun.npHomePath l.home rel) := by
  rw [featExists, resolveHomePath, if_neg hrel, ← npHomePath_eq]
  dsimp only
  split_ifs with hlen
  · rfl
  · rw [Option.any_none, eq_comm, ← Bool.not_eq_true]
    exact fun hfile ↦ hlen (hshort _ hfile)

theorem npHomePath_ne_nil {home rel : Bytes} (hrel : rel ≠ []) : CompatRun.npHomePath home rel ≠ [] := by
  rw [npHomePath_eq]
  split_ifs <;> simp [hrel]

theorem installed_eq (htable : l.table = t.table) (hshort : ∀ path, l.isFile path = true → path.length < 2048)
    (hr : r ∈ t.recs) : featReady l.home l.isFile r = CompatRun.npFeatInstalled l r.id := by
  have hvalues : ∀ v ∈ npConfAll r.kv (ascii "requires"), v ≠ [] := fun v hv ↦ r.values _ (mem_npConfAll.mp hv)
  rw [featReady, CompatRun.npFeatInstalled, CompatRun.npFeatRequires, htable, table_values hr, table_value hr]
  have hfirst : (npConfGet r.kv (ascii "requires")).getD [] = [] ↔ npConfAll r.kv (ascii "requires") = [] := by
    rw [← npConfGet_eq_none]
    cases hget : npConfGet r.kv (ascii "requires") with
    | none => simp
    | some v => simpa using value_ne_nil hget
  have hany : (npConfAll r.kv (ascii "requires")).any (featExists l.home l.isFile) = true ↔
      (((npConfAll r.kv (ascii "requires")).map (CompatRun.npHomePath l.home)).find? l.isFile).getD [] ≠ [] := by
    rw [List.any_eq_true]
    constructor
    · rintro ⟨v, hv, hexists⟩
      rw [featExists_eq hshort (hvalues v hv)] at hexists
      cases hfind : ((npConfAll r.kv (ascii "requires")).map (CompatRun.npHomePath l.home)).find? l.isFile with
      | none => exact absurd hexists (List.find?_eq_none.mp hfind _ (List.mem_map_of_mem hv))
      | some path =>
        obtain ⟨w, hw, rfl⟩ := List.mem_map.mp (List.mem_of_find?_eq_some hfind)
        exact npHomePath_ne_nil (hvalues w hw)
    · intro hne
      cases hfind : ((npConfAll r.kv (ascii "requires")).map (CompatRun.npHomePath l.home)).find? l.isFile with
      | none => exact absurd (by rw [hfind]; rfl) hne
      | some path =>
        obtain ⟨w, hw, rfl⟩ := List.mem_map.mp (List.mem_of_find?_eq_some hfind)
        exact ⟨w, hw, by rw [featExists_eq hshort (hvalues w hw)]; exact List.find?_some hfind⟩
  rw [Bool.eq_iff_iff, Bool.or_eq_true, Bool.or_eq_true, hany, decide_eq_true_eq, decide_eq_true_eq,
    decide_eq_true_eq, hfirst]

theorem switched_eq (htable : l.table = t.table) (hr : r ∈ t.recs) :
    holds (panelOf t l) (featRow l.home l.isFile r) = CompatRun.npFeatSwitched l r.id := by
  have hid : (featRow l.home l.isFile r).k = r.id := jsText_id r
  have hkey : npKey (panelOf t l) (featRow l.home l.isFile r) = r.id := hid
  have hget : (panelOf t l).get = l.var := rfl
  rw [CompatRun.npFeatSwitched, htable, table_value hr, table_value hr, holds, hkey, hid, hget]
  cases htype : npConfGet r.kv (ascii "type") with
  | some v =>
    have hv := value_ne_nil htype
    have hty : (featRow l.home l.isFile r).ty = some v := by
      rw [featRow, htype, Option.map_some, jsText_value hr htype]
    rw [hty, Option.getD_some, if_pos (by simpa using hv), if_pos hv]
  | none =>
    have hty : (featRow l.home l.isFile r).ty = none := by rw [featRow, htype, Option.map_none]
    have hone : jsText (ascii "1") = ascii "1" := by decide
    have hon : (featRow l.home l.isFile r).on = (npConfGet r.kv (ascii "on")).getD (ascii "1") :=
      jsText_getD hr (ascii "on") hone
    have hours : (panelOf t l).ours = true := rfl
    rw [hty, hon, if_neg (by simp), if_pos hours, if_neg (by simp)]
    cases hvalue : npConfGet r.kv (ascii "on") with
    | none => simp
    | some v => simp [value_ne_nil hvalue]

theorem lookup_ready (hr : r ∈ t.recs) : (panelOf t l).ready.lookup r.id = some (featReady l.home l.isFile r) := by
  apply lookup_of_mem
  · show ((t.recs.map _).map Prod.fst).Nodup
    rw [List.map_map]
    exact t.nodup
  · exact List.mem_map.mpr ⟨r, hr, rfl⟩

/-- The row of a plugin among those the panel keeps. -/
theorem find_row (htable : l.table = t.table) (hr : r ∈ t.recs) :
    (mscxFeat (panelOf t l)).find? (·.k = r.id) =
      if CompatRun.npFeatForTool l r.id = true then some (featRow l.home l.isFile r) else none := by
  have honly : ∀ f ∈ (panelOf t l).feats, f.k = r.id → f = featRow l.home l.isFile r := by
    intro f hf hk
    obtain ⟨r', hr', rfl⟩ := List.mem_map.mp hf
    have hid : r'.id = r.id := (jsText_id r').symm.trans hk
    rw [List.inj_on_of_nodup_map t.nodup hr' hr hid]
  rw [← forTool_eq htable hr]
  split_ifs with hkeep
  · apply find?_eq_some_of_unique
    · exact List.mem_filter.mpr ⟨List.mem_map_of_mem hr, hkeep⟩
    · exact decide_eq_true (jsText_id r)
    · intro f hf hk
      exact honly f (List.mem_filter.mp hf).1 (of_decide_eq_true hk)
  · rw [List.find?_eq_none]
    intro f hf hk
    obtain ⟨hmem, hkept⟩ := List.mem_filter.mp hf
    rw [honly f hmem (of_decide_eq_true hk)] at hkept
    exact hkeep hkept

theorem find_row_other {k : Bytes} (hk : ∀ r ∈ t.recs, r.id ≠ k) : (mscxFeat (panelOf t l)).find? (·.k = k) = none := by
  rw [List.find?_eq_none]
  intro f hf hfk
  obtain ⟨r, hr, rfl⟩ := List.mem_map.mp (List.mem_filter.mp hf).1
  exact hk r hr ((jsText_id r).symm.trans (of_decide_eq_true hfk))

/-- A row is on in the panel exactly when its plugin is on at the launch, parents apart. -/
theorem rowOn_eq (htable : l.table = t.table) (hshort : ∀ path, l.isFile path = true → path.length < 2048) (k : Bytes) :
    rowOn (panelOf t l) k = pluginOn l k := by
  by_cases hk : ∃ r ∈ t.recs, r.id = k
  · obtain ⟨r, hr, rfl⟩ := hk
    have hhas : CompatRun.npConfHas l.table r.id = true := by
      rw [htable, table_has]
      exact ⟨r, hr, rfl⟩
    rw [rowOn, pluginOn, find_row htable hr, hhas, ← installed_eq htable hshort hr, ← switched_eq htable hr]
    cases CompatRun.npFeatForTool l r.id with
    | false => rfl
    | true =>
      rw [if_pos rfl, Option.any_some, isReady, lookup_ready hr]
      cases featReady l.home l.isFile r <;> simp
  · have hhas : CompatRun.npConfHas l.table k = false := by
      rw [htable, ← Bool.not_eq_true, table_has]
      exact hk
    rw [rowOn, pluginOn, find_row_other fun r hr hid ↦ hk ⟨r, hr, hid⟩, hhas]
    rfl

theorem rowParent_eq (htable : l.table = t.table) {k : Bytes} (hon : pluginOn l k = true) :
    rowParent (panelOf t l) k = pluginParent l k := by
  simp only [pluginOn, Bool.and_eq_true] at hon
  rw [htable, table_has] at hon
  obtain ⟨⟨⟨⟨r, hr, rfl⟩, htool⟩, -⟩, -⟩ := hon
  have hdep : (featRow l.home l.isFile r).dep = (npConfGet r.kv (ascii "depends")).getD [] := jsText_getD hr _ rfl
  rw [rowParent, pluginParent, find_row htable hr, if_pos htool, Option.bind_some, hdep, htable, table_value hr]

/-- Every plugin that is on is one of the table's. -/
theorem pluginOn_mem (htable : l.table = t.table) (k : Bytes) (h : pluginOn l k = true) :
    k ∈ t.recs.map PluginRec.id := by
  simp only [pluginOn, Bool.and_eq_true] at h
  rw [htable, table_has] at h
  obtain ⟨⟨⟨⟨r, hr, rfl⟩, -⟩, -⟩, -⟩ := h
  exact List.mem_map_of_mem hr

end agree

/-- On every table of the descriptor reader, whatever depends on what, the panel counts a plugin as on
exactly when the launch activates it; the launch's globs say what the panel's prefix tests say. -/
theorem on1_eq_npFeatActive (t : PluginTable) (l : CompatRun.Launch) (htable : l.table = t.table)
    (hshort : ∀ path, l.isFile path = true → path.length < 2048) :
    (∀ k, on1 (panelOf t l) k 0 = npFeatActive l k 0) ∧
      ∀ r ∈ t.recs, ∀ pat ∈ npConfAll r.kv (ascii "tools"), caseMatches pat l.toolName = npFor (panelOf t l) pat := by
  constructor
  · intro k
    have hpanel := on1_eq_ends (panelOf t l) 32 k le_rfl
    have hlaunch := npFeatActive_eq_ends l 33 k le_rfl
    rw [Nat.sub_self] at hpanel hlaunch
    rw [hpanel, hlaunch, ← ends_congr (fun k ↦ (rowOn_eq htable hshort k).symm)
      (fun k hk ↦ (rowParent_eq htable hk).symm) 32 k, Bool.eq_iff_iff]
    constructor
    · intro h
      exact ends_mono h (by omega)
    · intro h
      apply ends_mono (ends_length (pluginOn_mem htable) h)
      rw [List.length_map]
      exact t.limit
  · intro r hr pat hpat
    exact caseMatches_eq_toolMatches (r.tools_ok _ (mem_npConfAll.mp hpat) rfl) l.toolName

/-- A plugin that requires a file, and a choice under it. -/
def framescope : PluginTable where
  recs :=
    [{ id := ascii "NOTPROTON_FS"
       kv := [(ascii "label", ascii "FS"), (ascii "requires", ascii "fs.dylib"), (ascii "tools", ascii "notproton*")]
       id_ok := by decide
       label := by decide
       values := by decide
       tools_ok := by decide },
     { id := ascii "NOTPROTON_FS_POS"
       kv := [(ascii "label", ascii "Pos"), (ascii "type", ascii "choice"), (ascii "depends", ascii "NOTPROTON_FS")]
       id_ok := by decide
       label := by decide
       values := by decide
       tools_ok := by decide }]
  nodup := by decide
  limit := by decide
  plain := by decide +kernel

def framescopeLaunch : CompatRun.Launch where
  env := []
  var := fun name ↦
    if name = ascii "HOME" then ascii "/h"
    else if name = ascii "NOTPROTON_FS" then ascii "1"
    else if name = ascii "NOTPROTON_FS_POS" then ascii "tl"
    else []
  table := framescope.table
  toolName := ascii "notproton-fex"
  isFile := fun path ↦ path = ascii "/h/fs.dylib"
  gameApp := ascii "/g.app"
  loaderArgs := []
  inserts := []
  featDylibs := []
  gameCwd := []
  env_nodup := by decide
  env_names := by simp
  env_var := by simp
  gameApp_abs := by decide

theorem framescope_on :
    on1 (panelOf framescope framescopeLaunch) (ascii "NOTPROTON_FS_POS") 0 = true ∧
      npFeatActive framescopeLaunch (ascii "NOTPROTON_FS_POS") 0 = true := by
  have hshort : ∀ path, framescopeLaunch.isFile path = true → path.length < 2048 := by
    intro path hpath
    rw [of_decide_eq_true hpath]
    decide
  have h := (on1_eq_npFeatActive framescope framescopeLaunch rfl hshort).1 (ascii "NOTPROTON_FS_POS")
  have hon : npFeatActive framescopeLaunch (ascii "NOTPROTON_FS_POS") 0 = true := by
    rw [npFeatActive_eq]
    decide
  exact ⟨h.trans hon, hon⟩

end NotProton.WebPatch
