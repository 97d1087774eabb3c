import NotProton.Defaults
import NotProton.PrefixState
import NotProton.Runners.CompatToolList

/-!
# ToolListReader — the tool list as the client's side reads it (`compat.c`)

The app writes a line for every tool it serves, the library inside Steam reads them back when it starts.  A list
that runs out of memory while it grows is left out.
-/

open NotProton.Library NotProton.Defaults

namespace NotProton.Runners

/-! ## Reading -/

def toolDirName : Bytes := ascii "notproton"

/-- `is_name_char` with `"._-"` -/
def isNameChar (c : UInt8) : Bool := isLower c || isUpper c || isDigit c || c == 46 || c == 95 || c == 45

def isToken (s : Bytes) : Bool := s ≠ [] && s.all isNameChar

def isToolName (s : Bytes) : Bool := toolDirName.isPrefixOf s && isToken s

def isDisplay (s : Bytes) : Bool := s ≠ [] && s.all fun c ↦ c != 34 && c != 92 && 32 ≤ c

/-- `tool_entry_t` without its folder. -/
structure ToolRow where
  name : Bytes
  build : Bytes
  flavor : Bytes
  display : Bytes
  deriving DecidableEq

def ToolRow.fields (r : ToolRow) : List Bytes := [r.name, r.build, r.flavor, r.display]

/-- What `parse_tool_line` asks of the four fields. -/
def ToolRow.valid (r : ToolRow) : Bool :=
  isToolName r.name && npIsBuildId r.build && (r.flavor = ascii "fex" || r.flavor = ascii "rosetta") && isDisplay r.display &&
    decide (r.name.length < 64) && decide (r.build.length < npBuildIdMax + 1) && decide (r.display.length < 96)

/-- `parse_tool_line`: a line may have more than four fields. -/
def parseToolLine (line : Bytes) : Option ToolRow :=
  match (split 9 line).take 4 with
  | [name, build, flavor, display] =>
    let r : ToolRow := ⟨name, build, flavor, display⟩
    if r.valid then some r else none
  | _ => none

structure ToolEntry where
  row : ToolRow
  dir : Bytes
  deriving DecidableEq

/-- One line of the loop in `np_compat_load_tool_list`. -/
def toolLine (toolsDir : Bytes) (tools : List ToolEntry) (line : Bytes) : List ToolEntry :=
  let line := line.takeWhile fun c ↦ c ≠ 13 ∧ c ≠ 10
  if line = [] then tools
  else match parseToolLine line with
    | none => tools
    | some r =>
      if tools.any (·.row.name = r.name) then tools
      else tools ++ [⟨r, snprintf 640 (toolsDir ++ 47 :: r.name)⟩]

/-- `g_tools`, nothing where the list is missing. -/
def npCompatLoadToolList (toolsDir : Bytes) : Option Bytes → List ToolEntry
  | none => []
  | some text => (fgetsLines 512 text.length text).foldl (toolLine toolsDir) []

def entryOf (toolsDir : Bytes) (r : ToolRow) : ToolEntry := ⟨r, snprintf 640 (toolsDir ++ 47 :: r.name)⟩

/-! ## What is read of any text -/

theorem parseToolLine_valid {line : Bytes} {r : ToolRow} (h : parseToolLine line = some r) : r.valid = true := by
  unfold parseToolLine at h
  split at h
  · dsimp only at h
    split at h
    · next hvalid => rwa [Option.some.inj h] at hvalid
    · cases h
  · cases h

/-- What every loop over lines keeps: valid tools of different names, each in the folder of its name. -/
structure ToolsKept (toolsDir : Bytes) (tools : List ToolEntry) : Prop where
  valid : ∀ e ∈ tools, e.row.valid = true
  dirs : ∀ e ∈ tools, e = entryOf toolsDir e.row
  names : (tools.map (·.row.name)).Nodup

theorem ToolsKept.line {toolsDir : Bytes} {tools : List ToolEntry} (h : ToolsKept toolsDir tools) (line : Bytes) :
    ToolsKept toolsDir (toolLine toolsDir tools line) := by
  unfold toolLine
  dsimp only
  split
  · exact h
  · cases hrow : parseToolLine (line.takeWhile fun c ↦ c ≠ 13 ∧ c ≠ 10) with
    | none => exact h
    | some r =>
      dsimp only
      split
      · exact h
      · next hnew =>
        -- A second row of a name is passed over.
        have hfresh : r.name ∉ tools.map (·.row.name) := by
          intro hmem
          obtain ⟨e, he, hname⟩ := List.mem_map.mp hmem
          exact hnew (List.any_eq_true.mpr ⟨e, he, decide_eq_true hname⟩)
        refine ⟨?_, ?_, ?_⟩
        · intro e he
          obtain he | he := List.mem_append.mp he
          · exact h.valid e he
          · rw [List.mem_singleton.mp he]
            exact parseToolLine_valid hrow
        · intro e he
          obtain he | he := List.mem_append.mp he
          · exact h.dirs e he
          · rw [List.mem_singleton.mp he]
            rfl
        · rw [List.map_append, List.nodup_append]
          refine ⟨h.names, List.nodup_singleton _, ?_⟩
          intro name hname other hother
          rw [List.mem_singleton.mp hother]
          rintro rfl
          exact hfresh hname

theorem foldl_toolLine_kept {toolsDir : Bytes} (lines : List Bytes) {tools : List ToolEntry} (h : ToolsKept toolsDir tools) :
    ToolsKept toolsDir (lines.foldl (toolLine toolsDir) tools) := by
  induction lines generalizing tools with
  | nil => exact h
  | cons line lines ih => exact ih (h.line line)

/-- Whatever the file holds, the list is one of valid tools with different names. -/
theorem npCompatLoadToolList_kept (toolsDir : Bytes) (text : Option Bytes) : ToolsKept toolsDir (npCompatLoadToolList toolsDir text) := by
  cases text with
  | none => exact ⟨fun _ h ↦ absurd h List.not_mem_nil, fun _ h ↦ absurd h List.not_mem_nil, List.nodup_nil⟩
  | some text =>
    exact foldl_toolLine_kept _ ⟨fun _ h ↦ absurd h List.not_mem_nil, fun _ h ↦ absurd h List.not_mem_nil, List.nodup_nil⟩

/-! ## What is read of a list of tools -/

/-- The line of a tool, without its newline. -/
def rowLine (r : ToolRow) : Bytes := r.name ++ 9 :: (r.build ++ 9 :: (r.flavor ++ 9 :: r.display))

def toolListText (rows : List ToolRow) : Bytes := (rows.map rowLine).flatMap (· ++ [10])

theorem isNameChar_ne {c : UInt8} (h : isNameChar c = true) : c ∉ ([0, 9, 10, 13] : List UInt8) := by
  have hall : ∀ c ∈ ([0, 9, 10, 13] : List UInt8), isNameChar c = false := by simp [isNameChar, isLower, isUpper, isDigit]
  intro hmem
  rw [hall c hmem] at h
  cases h

theorem flavors_eq : ascii "fex" = [102, 101, 120] ∧ ascii "rosetta" = [114, 111, 115, 101, 116, 116, 97] := by
  constructor <;> rfl

/-- A field of a valid tool is not empty and has no byte that ends a field, a line or the text. -/
theorem ToolRow.field_ok {r : ToolRow} (h : r.valid = true) :
    ∀ field ∈ r.fields, field ≠ [] ∧ ∀ c ∈ field, c ∉ ([0, 9, 10, 13] : List UInt8) := by
  simp only [ToolRow.valid, Bool.and_eq_true, Bool.or_eq_true, decide_eq_true_eq] at h
  obtain ⟨⟨⟨⟨⟨⟨hname, hbuild⟩, hflavor⟩, hdisplay⟩, -⟩, -⟩, -⟩ := h
  intro field hfield
  simp only [ToolRow.fields, List.mem_cons, List.not_mem_nil, or_false] at hfield
  obtain rfl | rfl | rfl | rfl := hfield
  · simp only [isToolName, isToken, Bool.and_eq_true, decide_eq_true_eq] at hname
    exact ⟨hname.2.1, fun c hc ↦ isNameChar_ne (List.all_eq_true.mp hname.2.2 c hc)⟩
  · simp only [npIsBuildId, Bool.and_eq_true, decide_eq_true_eq] at hbuild
    refine ⟨List.ne_nil_of_length_pos hbuild.1.2, fun c hc ↦ isNameChar_ne ?_⟩
    have hc := List.all_eq_true.mp hbuild.1.1 c hc
    simp only [Bool.or_eq_true] at hc
    simp only [isNameChar, Bool.or_eq_true]
    tauto
  · obtain hflavor | hflavor := hflavor
    · rw [hflavor, flavors_eq.1]
      simp
    · rw [hflavor, flavors_eq.2]
      simp
  · simp only [isDisplay, Bool.and_eq_true, decide_eq_true_eq] at hdisplay
    refine ⟨hdisplay.1, fun c hc ↦ ?_⟩
    have hall := List.all_eq_true.mp hdisplay.2 c hc
    simp only [Bool.and_eq_true, decide_eq_true_eq] at hall
    have hlow : ∀ d ∈ ([0, 9, 10, 13] : List UInt8), ¬32 ≤ d := by simp
    exact fun hmem ↦ hlow c hmem hall.2

theorem ToolRow.line_ok {r : ToolRow} (h : r.valid = true) : ∀ c ∈ rowLine r, c ∉ ([0, 10, 13] : List UInt8) := by
  have hfields := ToolRow.field_ok h
  simp only [ToolRow.fields, List.forall_mem_cons] at hfields
  have hsub : ∀ c : UInt8, c ∉ ([0, 9, 10, 13] : List UInt8) → c ∉ ([0, 10, 13] : List UInt8) := by
    intro c hc hmem
    exact hc (by simp only [List.mem_cons, List.not_mem_nil, or_false] at hmem ⊢; tauto)
  intro c hc
  simp only [rowLine, List.mem_append, List.mem_cons] at hc
  obtain hc | rfl | hc | rfl | hc | rfl | hc := hc
  · exact hsub c (hfields.1.2 c hc)
  · decide
  · exact hsub c (hfields.2.1.2 c hc)
  · decide
  · exact hsub c (hfields.2.2.1.2 c hc)
  · decide
  · exact hsub c (hfields.2.2.2.1.2 c hc)

theorem ToolRow.line_length {r : ToolRow} (h : r.valid = true) : (rowLine r).length ≤ 511 := by
  simp only [ToolRow.valid, Bool.and_eq_true, Bool.or_eq_true, decide_eq_true_eq] at h
  have hflavor : r.flavor.length ≤ 7 := by
    obtain hflavor | hflavor := h.1.1.1.1.2
    · rw [hflavor, flavors_eq.1]
      decide
    · rw [hflavor, flavors_eq.2]
      decide
  have hmax : npBuildIdMax = 63 := rfl
  simp only [rowLine, List.length_append, List.length_cons]
  omega

theorem split_rowLine {r : ToolRow} (h : r.valid = true) : split 9 (rowLine r) = r.fields := by
  have hfields := ToolRow.field_ok h
  simp only [ToolRow.fields, List.forall_mem_cons] at hfields
  have hnine : ∀ {field : Bytes}, (∀ c ∈ field, c ∉ ([0, 9, 10, 13] : List UInt8)) → 9 ∉ field :=
    fun hall hmem ↦ hall 9 hmem (by decide)
  rw [split, rowLine, List.splitOn_append_cons_self_of_not_mem (hnine hfields.1.2),
    List.splitOn_append_cons_self_of_not_mem (hnine hfields.2.1.2),
    List.splitOn_append_cons_self_of_not_mem (hnine hfields.2.2.1.2), List.splitOn_eq_singleton (hnine hfields.2.2.2.1.2)]
  simp [ToolRow.fields, hfields]

theorem parseToolLine_rowLine {r : ToolRow} (h : r.valid = true) : parseToolLine (rowLine r) = some r := by
  rw [parseToolLine, split_rowLine h]
  exact if_pos h

theorem takeWhile_line {line : Bytes} (h : ∀ c ∈ line, c ∉ ([0, 10, 13] : List UInt8)) :
    (line.takeWhile fun c ↦ c ≠ 13 ∧ c ≠ 10) = line := by
  apply List.takeWhile_eq_self_iff.mpr
  intro c hc
  apply decide_eq_true
  exact ⟨fun h13 ↦ h c hc (by rw [h13]; decide), fun h10 ↦ h c hc (by rw [h10]; decide)⟩

theorem toolLine_newline (toolsDir : Bytes) (tools : List ToolEntry) (line : Bytes) :
    toolLine toolsDir tools (line ++ [10]) = toolLine toolsDir tools line := by
  have hcut : ((line ++ [10]).takeWhile fun c ↦ c ≠ 13 ∧ c ≠ 10) = line.takeWhile fun c ↦ c ≠ 13 ∧ c ≠ 10 := by
    rw [List.takeWhile_append]
    split
    · rw [List.takeWhile_cons_of_neg (by decide), List.append_nil]
      next hlen => exact ((List.takeWhile_prefix _).eq_of_length hlen).symm
    · rfl
  rw [toolLine, hcut, toolLine]

theorem toolLine_row {toolsDir : Bytes} {known : List ToolRow} {r : ToolRow} (h : r.valid = true)
    (hnew : r.name ∉ known.map ToolRow.name) :
    toolLine toolsDir (known.map (entryOf toolsDir)) (rowLine r) = (known ++ [r]).map (entryOf toolsDir) := by
  have hne : rowLine r ≠ [] := by
    rw [rowLine]
    exact List.append_ne_nil_of_right_ne_nil _ (List.cons_ne_nil _ _)
  have hnone : ((known.map (entryOf toolsDir)).any fun e ↦ decide (e.row.name = r.name)) = false := by
    rw [List.any_eq_false]
    intro e he
    obtain ⟨r', hr', rfl⟩ := List.mem_map.mp he
    intro hname
    exact hnew (List.mem_map.mpr ⟨r', hr', of_decide_eq_true hname⟩)
  unfold toolLine
  rw [takeWhile_line (ToolRow.line_ok h)]
  dsimp only
  rw [if_neg hne, parseToolLine_rowLine h]
  dsimp only
  rw [hnone, List.map_append]
  rfl

theorem foldl_toolLine_rows {toolsDir : Bytes} {rows known : List ToolRow} (h : ∀ r ∈ rows, r.valid = true)
    (hnames : ((known ++ rows).map ToolRow.name).Nodup) :
    (rows.map rowLine).foldl (toolLine toolsDir) (known.map (entryOf toolsDir)) = (known ++ rows).map (entryOf toolsDir) := by
  induction rows generalizing known with
  | nil => rw [List.append_nil, List.map_nil, List.foldl_nil]
  | cons r rows ih =>
    obtain ⟨hr, hrows⟩ := List.forall_mem_cons.mp h
    have hnew : r.name ∉ known.map ToolRow.name := by
      rw [List.map_append, List.nodup_append] at hnames
      exact fun hmem ↦ hnames.2.2 r.name hmem r.name List.mem_cons_self rfl
    rw [List.map_cons, List.foldl_cons, toolLine_row hr hnew]
    rw [List.append_cons known r rows] at hnames ⊢
    exact ih hrows hnames

theorem toolListText_lines {rows : List ToolRow} (h : ∀ r ∈ rows, r.valid = true) :
    0 ∉ toolListText rows ∧ (toolListText rows).splitOn 10 = rows.map rowLine ++ [[]] ∧
      ∀ line ∈ (toolListText rows).splitOn 10, line.length ≤ 511 := by
  have hlineOk : ∀ line ∈ rows.map rowLine, ∀ c ∈ line, c ∉ ([0, 10, 13] : List UInt8) := by
    intro line hline
    obtain ⟨r, hr, rfl⟩ := List.mem_map.mp hline
    exact ToolRow.line_ok (h r hr)
  have hsplit : (toolListText rows).splitOn 10 = rows.map rowLine ++ [[]] :=
    splitOn_flatMap fun line hline hmem ↦ hlineOk line hline 10 hmem (by decide)
  refine ⟨?_, hsplit, ?_⟩
  · rw [toolListText, List.mem_flatMap]
    rintro ⟨line, hline, hmem⟩
    obtain hmem | hmem := List.mem_append.mp hmem
    · exact hlineOk line hline 0 hmem (by decide)
    · exact absurd (List.mem_singleton.mp hmem) (by decide)
  · rw [hsplit]
    intro line hline
    obtain hline | hline := List.mem_append.mp hline
    · obtain ⟨r, hr, rfl⟩ := List.mem_map.mp hline
      exact ToolRow.line_length (h r hr)
    · rw [List.mem_singleton.mp hline]
      exact Nat.zero_le _

/-- A list of valid tools of different names is read as it was written. -/
theorem npCompatLoadToolList_rows (toolsDir : Bytes) {rows : List ToolRow} (h : ∀ r ∈ rows, r.valid = true)
    (hnames : (rows.map ToolRow.name).Nodup) :
    npCompatLoadToolList toolsDir (some (toolListText rows)) = rows.map (entryOf toolsDir) := by
  obtain ⟨hnul, hsplit, hlines⟩ := toolListText_lines h
  rw [npCompatLoadToolList, foldl_fgetsLines (toolLine_newline toolsDir) (fun _ ↦ rfl) (by omega) hnul hlines (Nat.le_refl _), hsplit,
    List.foldl_append]
  exact congrArg (fun tools ↦ [[]].foldl (toolLine toolsDir) tools) (@foldl_toolLine_rows toolsDir rows [] h hnames)

/-! ## What the prefix page reads -/

theorem filterMap_fgetsLines {α : Type} {f : Bytes → Option α} (hnewline : ∀ line, f (line ++ [10]) = f line) (hblank : f [] = none)
    {n fuel : Nat} {s : Bytes} (hn : 0 < n) (hnul : 0 ∉ s) (hlines : ∀ line ∈ s.splitOn 10, line.length ≤ n)
    (hfuel : s.length ≤ fuel) : (fgetsLines (n + 1) fuel s).filterMap f = (s.splitOn 10).filterMap f := by
  have hfold : ∀ lines : List Bytes, ∀ acc : List α, lines.foldl (fun acc line ↦ acc ++ (f line).toList) acc = acc ++ lines.filterMap f := by
    intro lines
    induction lines with
    | nil => exact fun acc ↦ (List.append_nil acc).symm
    | cons line lines ih =>
      intro acc
      rw [List.foldl_cons, ih, List.append_assoc, List.filterMap_cons]
      cases f line <;> rfl
  have hloop := @foldl_fgetsLines (List α) (fun acc line ↦ acc ++ (f line).toList) (fun acc line ↦ by rw [hnewline])
    (fun acc ↦ by rw [hblank]; exact List.append_nil acc) n fuel s hn hnul hlines hfuel []
  rwa [hfold, hfold, List.nil_append, List.nil_append] at hloop

theorem chomp_newline (line : Bytes) : chomp (line ++ [10]) = chomp line := by
  rw [chomp, List.rdropWhile_concat_pos _ _ _ (by decide), chomp]

theorem chomp_eq_self {line : Bytes} (h : ∀ c ∈ line, c ∉ ([0, 10, 13] : List UInt8)) : chomp line = line := by
  apply List.rdropWhile_eq_self_iff.mpr
  intro hne
  have hlast := h _ (List.getLast_mem hne)
  simp only [List.mem_cons, List.not_mem_nil, or_false, not_or] at hlast
  simp [hlast]

theorem toolFields_rowLine {r : ToolRow} (h : r.valid = true) :
    PrefixState.toolFields (rowLine r) = some (r.name, r.build, r.flavor, r.display) := by
  have hfields := ToolRow.field_ok h
  simp only [ToolRow.fields, List.forall_mem_cons] at hfields
  have hnine : ∀ {field : Bytes}, (∀ c ∈ field, c ∉ ([0, 9, 10, 13] : List UInt8)) → 9 ∉ field :=
    fun hall hmem ↦ hall 9 hmem (by decide)
  rw [PrefixState.toolFields, rowLine, splitAt_append (hnine hfields.1.2)]
  dsimp only
  rw [splitAt_append (hnine hfields.2.1.2)]
  dsimp only
  rw [splitAt_append (hnine hfields.2.2.1.2)]

theorem readTool_rows {rows : List ToolRow} (h : ∀ r ∈ rows, r.valid = true) (hnames : (rows.map ToolRow.name).Nodup)
    {host : PrefixState.Host} {root : Bytes} (htext : host.text (root ++ ascii "/tools") = some (toolListText rows)) {r : ToolRow}
    (hr : r ∈ rows) : PrefixState.readTool host root r.name = (r.build, r.flavor, r.display) := by
  obtain ⟨hnul, hsplit, hlines⟩ := toolListText_lines h
  have hlong : ∀ line ∈ (toolListText rows).splitOn 10, line.length ≤ 2047 := fun line hline ↦ (hlines line hline).trans (by omega)
  -- `fgets` reads whole lines, since none is longer than its buffer.
  have hread : (fgetsLines PrefixState.lineMaxLen (toolListText rows).length (toolListText rows)).filterMap
      (fun line ↦ PrefixState.toolFields (chomp line)) = rows.map fun r ↦ (r.name, r.build, r.flavor, r.display) := by
    rw [show PrefixState.lineMaxLen = 2047 + 1 from rfl,
      filterMap_fgetsLines (fun line ↦ by rw [chomp_newline]) rfl (by omega) hnul hlong (Nat.le_refl _), hsplit, List.filterMap_append,
      List.filterMap_map]
    have heach : ∀ r ∈ rows, ((fun line ↦ PrefixState.toolFields (chomp line)) ∘ rowLine) r =
        some (r.name, r.build, r.flavor, r.display) := by
      intro r hr
      rw [Function.comp_apply, chomp_eq_self (ToolRow.line_ok (h r hr)), toolFields_rowLine (h r hr)]
    rw [List.filterMap_congr heach, ← List.filterMap_eq_map]
    exact List.append_nil _
  have hne : r.name ≠ [] := (ToolRow.field_ok (h r hr) r.name List.mem_cons_self).1
  have hfind : (rows.map fun r ↦ (r.name, r.build, r.flavor, r.display)).find? (fun l ↦ l.1 = r.name) =
      some (r.name, r.build, r.flavor, r.display) := by
    apply find?_eq_some_of_unique (List.mem_map.mpr ⟨r, hr, rfl⟩) (by simp)
    intro x hx hname
    obtain ⟨r', hr', rfl⟩ := List.mem_map.mp hx
    rw [List.inj_on_of_nodup_map hnames hr' hr (of_decide_eq_true hname)]
  have hvalid := h r hr
  simp only [ToolRow.valid, Bool.and_eq_true, Bool.or_eq_true, decide_eq_true_eq] at hvalid
  have hflavor : r.flavor.length ≤ 7 := by
    obtain hflavor | hflavor := hvalid.1.1.1.1.2
    · rw [hflavor, flavors_eq.1]
      decide
    · rw [hflavor, flavors_eq.2]
      decide
  have hmax : npBuildIdMax = 63 := rfl
  have hfield : PrefixState.fieldMax = 256 := rfl
  rw [PrefixState.readTool, if_neg hne, htext]
  dsimp only
  rw [hread, hfind]
  dsimp only
  rw [snprintf_of_lt (by omega), snprintf_of_lt (by omega), snprintf_of_lt (by omega)]

/-! ## The list the app leaves after any run -/

def rowOfTool (t : InstalledTool) : ToolRow := ⟨t.name, t.build, t.tool.flavor.rawValue, t.display⟩

theorem contents_eq (ts : List InstalledTool) : contents ts = toolListText (ts.map rowOfTool) := by
  rw [contents, toolListText, List.map_map, List.flatMap_map]
  rfl

/-- Every offer passes the reader's checks, under its own name and under the legacy one. -/
theorem offered_valid : ∀ o ∈ offered, (⟨o.2.1.name, o.1.id, o.2.1.flavor.rawValue, o.2.1.display⟩ : ToolRow).valid = true ∧
    (⟨legacyToolName, o.1.id, o.2.1.flavor.rawValue, o.2.1.display⟩ : ToolRow).valid = true := by
  decide

theorem resolved_valid (m : Moment) (s : Store) : ∀ r ∈ (resolved m s).map rowOfTool, r.valid = true := by
  intro r hr
  obtain ⟨t, ht, rfl⟩ := List.mem_map.mp hr
  obtain ⟨holder, -, hserved⟩ := (resolved_proper m s).served
  obtain ⟨o, ho, rfl⟩ := hserved t ht
  have hvalid := offered_valid o ho
  by_cases hlegacy : holder = some o.1.id ∧ o.2.2 = 0
  · have hname : servedName holder o = legacyToolName := if_pos hlegacy
    rw [rowOfTool, serve, hname]
    exact hvalid.2
  · have hname : servedName holder o = o.2.1.name := if_neg hlegacy
    rw [rowOfTool, serve, hname]
    exact hvalid.1

theorem resolved_names (m : Moment) (s : Store) : (((resolved m s).map rowOfTool).map ToolRow.name).Nodup := by
  rw [List.map_map]
  exact (resolved_proper m s).names

/-- The list file is always one that a sync wrote. -/
theorem Start.step {s : Store} (h : Start s) (e : Event) : Start (step s e) := by
  cases e with
  | link target => exact h
  | sync m =>
    have hkept : ∀ s' : Store, s'.toolList = s.toolList → Start s' := by
      intro s' hs'
      rw [Start, hs']
      exact h
    rw [Runners.step, sync]
    split
    · exact hkept _ (prune_toolList m s)
    · split
      · exact .inr ⟨m, s, prune_toolList m _⟩
      · exact h

theorem Start.run {s : Store} (h : Start s) (events : List Event) : Start (run s events) := by
  induction events generalizing s with
  | nil => exact h
  | cons e events ih => exact ih (h.step e)

/-- The rows a list file stands for, whoever reads it. -/
theorem Start.rows {s : Store} (h : Start s) : ∃ rows : List ToolRow, (∀ r ∈ rows, r.valid = true) ∧ (rows.map ToolRow.name).Nodup ∧
    listedRows s = rows.map ToolRow.fields ∧ (s.toolList = none ∧ rows = [] ∨ s.toolList = some (toolListText rows)) := by
  obtain hnone | ⟨m, s₀, htext⟩ := h
  · refine ⟨[], List.forall_mem_nil _, List.nodup_nil, ?_, .inl ⟨hnone, rfl⟩⟩
    rw [listedRows, hnone]
    rfl
  · refine ⟨(resolved m s₀).map rowOfTool, resolved_valid m s₀, resolved_names m s₀, ?_, .inr ?_⟩
    · rw [(stands_of_text htext).rows_eq, List.map_map]
      rfl
    · rw [htext, contents_eq]

/-- After any run of syncs the client's side has the tools the app lists, in its order, each in the folder of its name, and
the prefix page is told each tool's build, flavor and display name. -/
theorem npCompatLoadToolList_run (s : Store) (hs : Start s) (events : List Event) (toolsDir : Bytes) :
    (npCompatLoadToolList toolsDir (run s events).toolList).map (·.row.fields) = listedRows (run s events) ∧
      (∀ e ∈ npCompatLoadToolList toolsDir (run s events).toolList, e.dir = snprintf 640 (toolsDir ++ 47 :: e.row.name)) ∧
      ∀ (host : PrefixState.Host) (root : Bytes), host.text (root ++ ascii "/tools") = (run s events).toolList →
        ∀ name build flavor display, [name, build, flavor, display] ∈ listedRows (run s events) →
          PrefixState.readTool host root name = (build, flavor, display) := by
  obtain ⟨rows, hvalid, hnames, hlisted, htext⟩ := (hs.run events).rows
  have hload : npCompatLoadToolList toolsDir (run s events).toolList = rows.map (entryOf toolsDir) := by
    obtain ⟨hnone, rfl⟩ | htext := htext
    · rw [hnone]
      rfl
    · rw [htext]
      exact npCompatLoadToolList_rows toolsDir hvalid hnames
  refine ⟨?_, ?_, ?_⟩
  · rw [hload, hlisted, List.map_map]
    rfl
  · intro e he
    exact congrArg ToolEntry.dir ((npCompatLoadToolList_kept toolsDir _).dirs e he)
  · intro host root hhost name build flavor display hrow
    rw [hlisted] at hrow
    obtain ⟨r, hr, hfields⟩ := List.mem_map.mp hrow
    simp only [ToolRow.fields, List.cons.injEq, and_true] at hfields
    obtain ⟨rfl, rfl, rfl, rfl⟩ := hfields
    obtain ⟨-, rfl⟩ | htext := htext
    · cases hr
    · exact readTool_rows hvalid hnames (hhost.trans htext) hr

theorem npCompatLoadToolList_run_one :
    (npCompatLoadToolList (ascii "/tools")
      (run ⟨none, none⟩ [.sync ⟨cloned [utf8 "26.3.0.39832"], false, false, true⟩]).toolList).map (·.row.fields) =
      listedRows (run ⟨none, none⟩ [.sync ⟨cloned [utf8 "26.3.0.39832"], false, false, true⟩]) :=
  (npCompatLoadToolList_run ⟨none, none⟩ (.inl rfl) _ _).1

end NotProton.Runners
