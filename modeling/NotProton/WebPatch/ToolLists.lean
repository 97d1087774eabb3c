import NotProton.WebPatch.Settings

/-!
# ToolLists — the names of tools in the page (`webpatch.c`)

Two more of the page's inputs are arrays of tool names, built into a buffer whose size is worked out ahead like the
settings are.  A null pointer in an array of names is `none`.
-/

open NotProton.Library NotProton.Defaults

namespace NotProton.WebPatch

def npWebpatchFexToolsMax : Nat := 16

/-- `names[i] && *names[i] && is_tool_name(names[i])` -/
def isTool (name : Option Bytes) : Bool := name.any fun name ↦ !name.isEmpty && isToolName name

def jsTool (j : TextBuffer) (name : Option Bytes) : TextBuffer :=
  if isTool name = false then j
  else
    let j := if j.ok && j.text.getLast? != some 91 then jsPut j (ascii ",") else j
    jsPut (jsPut (jsPut j (ascii "\"")) (name.getD [])) (ascii "\"")

/-- The text `np_webpatch_set_fex_tools` leaves for the page. -/
def npWebpatchSetFexTools (names : List (Option Bytes)) : Option Bytes :=
  let names := (names.take npWebpatchFexToolsMax).map (Option.map cString)
  let j := jsAlloc (3 + (names.map fun name ↦ 3 + (name.getD []).length).sum) (by omega)
  let j := jsPut j (ascii "[")
  jsDone (jsPut (names.foldl jsTool j) (ascii "]"))

/-- `g_var_tool`, `g_var_build` and `g_var_arch` at one place. -/
structure VarTool where
  tool : Bytes
  build : Bytes
  arch : Bytes

/-- A name, a build and an architecture of the same place. -/
abbrev ToolRow := Option Bytes × Option Bytes × Option Bytes

def varTool (row : ToolRow) : Option VarTool :=
  if isTool row.1 && isTool row.2.1 then
    some ⟨snprintf npToolNameMax (row.1.getD []), snprintf npToolNameMax (row.2.1.getD []),
      snprintf npToolNameMax (row.2.2.getD [])⟩
  else none

/-- The first loop, which ends where its arrays are full. -/
def varTools (rows : List ToolRow) : List VarTool := (rows.filterMap varTool).take npWebpatchBuildsMax

def jsOurTool (j : TextBuffer) (t : VarTool × Nat) : TextBuffer :=
  let j := if t.2 ≠ 0 then jsPut j (ascii ",") else j
  jsPut (jsPut (jsPut j (ascii "\"")) t.1.tool) (ascii "\"")

/-- What `np_webpatch_set_tool_builds` keeps, and the text it leaves for the page. -/
def npWebpatchSetToolBuilds (rows : List ToolRow) : List VarTool × Option Bytes :=
  let tools := varTools (rows.map fun row ↦ (row.1.map cString, row.2.1.map cString, row.2.2.map cString))
  let j := jsAlloc (tools.length * (npToolNameMax + 3) + 3) (by omega)
  let j := jsPut j (ascii "[")
  (tools, jsDone (jsPut (tools.zipIdx.foldl jsOurTool j) (ascii "]")))

/-! ## Names as literals -/

def toolLiteral (name : Bytes) : JsLiteral := .string (plainText name)

theorem toolLiteral_print {name : Bytes} (h : isToolName name = true) : (toolLiteral name).print = 34 :: (name ++ [34]) := by
  rw [isToolName, Bool.and_eq_true] at h
  rw [toolLiteral, JsLiteral.print, quote, plainText_val (all_mono isPlainChar_of_tool h.2)]

theorem isTool_name {name : Option Bytes} (h : isTool name = true) : isToolName (name.getD []) = true := by
  cases name with
  | none => cases h
  | some name => exact (Bool.and_eq_true_iff.mp h).2

theorem wrote_quoted {name : Bytes} (h : isToolName name = true) (j : TextBuffer) :
    j.Wrote (toolLiteral name).print (jsPut (jsPut (jsPut j (ascii "\"")) name) (ascii "\"")) := by
  rw [toolLiteral_print h]
  exact ((TextBuffer.wrote_put j (ascii "\"")).append (TextBuffer.wrote_put _ name)).append (TextBuffer.wrote_put _ (ascii "\""))

theorem loop_jsTool : JsArrayLoop jsTool isTool (fun name ↦ toolLiteral (name.getD []))
    fun name ↦ 3 + (name.getD []).length where
  skips := by
    intro j name hname
    rw [jsTool, if_pos hname]
  writes := by
    intro j name hname hok
    -- The comma is left out behind the opening bracket only.
    have hcomma : j.Wrote (if j.text.getLast? = some 91 then [] else [44])
        (if j.ok && j.text.getLast? != some 91 then jsPut j (ascii ",") else j) := by
      by_cases hlast : j.text.getLast? = some 91
      · simp only [hlast, hok, bne_self_eq_false, Bool.and_false, if_true]
        exact TextBuffer.wrote_nil j
      · simp only [hok, bne_iff_ne.mpr hlast, Bool.and_self, if_true, if_neg hlast]
        exact TextBuffer.wrote_put j _
    have hshown : ¬isTool name = false := by
      rw [hname]
      decide
    have hstep := hcomma.append (wrote_quoted (isTool_name hname) _)
    unfold jsTool
    rw [if_neg hshown]
    exact hstep
  ends := by
    intro name
    rw [toolLiteral, JsLiteral.print, quote, ← List.cons_append, List.getLast?_concat]
    decide
  fits := by
    intro name hname
    rw [toolLiteral_print (isTool_name hname), List.length_cons, List.length_append, List.length_singleton]
    omega

/-- The names among the first sixteen that are a tool's. -/
def fexToolsLiteral (names : List (Option Bytes)) : JsLiteral :=
  .array ((((names.take npWebpatchFexToolsMax).map (Option.map cString)).filter isTool).map
    fun name ↦ toolLiteral (name.getD []))

theorem npWebpatchSetFexTools_eq (names : List (Option Bytes)) :
    npWebpatchSetFexTools names = some (fexToolsLiteral names).print :=
  loop_jsTool.array_eq _

/-! ## The tools of the builds -/

theorem varTools_name {rows : List ToolRow} : ∀ t ∈ varTools rows, isToolName t.tool = true := by
  intro t ht
  obtain ⟨row, -, hrow⟩ := List.mem_filterMap.mp (List.mem_of_mem_take ht)
  rw [varTool] at hrow
  split at hrow
  next hok =>
    cases hrow
    have hname := isTool_name (Bool.and_eq_true_iff.mp hok).1
    have hlength : (row.1.getD []).length < npToolNameMax := by
      rw [isToolName, Bool.and_eq_true, decide_eq_true_iff] at hname
      exact hname.1
    rw [snprintf_of_lt hlength]
    exact hname
  next => cases hrow

def ourToolText (t : VarTool × Nat) : Bytes := (if t.2 ≠ 0 then [44] else []) ++ (toolLiteral t.1.tool).print

theorem wrote_jsOurTool {t : VarTool × Nat} (h : isToolName t.1.tool = true) (j : TextBuffer) :
    j.Wrote (ourToolText t) (jsOurTool j t) := by
  have hcomma : j.Wrote (if t.2 ≠ 0 then [44] else []) (if t.2 ≠ 0 then jsPut j (ascii ",") else j) := by
    split
    · exact TextBuffer.wrote_put j _
    · exact TextBuffer.wrote_nil j
  exact hcomma.append (wrote_quoted h _)

theorem wrote_ourTools {tools : List (VarTool × Nat)} (h : ∀ t ∈ tools, isToolName t.1.tool = true) (j : TextBuffer) :
    j.Wrote (tools.flatMap ourToolText) (tools.foldl jsOurTool j) := by
  induction tools generalizing j with
  | nil => exact TextBuffer.wrote_nil j
  | cons t tools ih =>
    obtain ⟨ht, htools⟩ := List.forall_mem_cons.mp h
    exact (wrote_jsOurTool ht j).append (ih htools _)

/-- The names with their commas are the inside of an array, and each takes the room counted for it. -/
theorem ourTools_text {tools : List VarTool} (h : ∀ t ∈ tools, isToolName t.tool = true) :
    tools.zipIdx.flatMap ourToolText = printItems (tools.map fun t ↦ toolLiteral t.tool) ∧
      (tools.zipIdx.flatMap ourToolText).length ≤ tools.length * (npToolNameMax + 3) := by
  induction tools using List.reverseRecOn with
  | nil => exact ⟨rfl, Nat.zero_le _⟩
  | append_singleton tools t ih =>
    obtain ⟨htools, ht⟩ := List.forall_mem_append.mp h
    have ht := ht t (List.mem_singleton_self t)
    obtain ⟨htext, hlength⟩ := ih htools
    have hcomma : (if tools.length ≠ 0 then ([44] : Bytes) else []) =
        if (tools.map fun t ↦ toolLiteral t.tool) = [] then [] else [44] := by
      cases tools <;> rfl
    have hname : t.tool.length < npToolNameMax := by
      rw [isToolName, Bool.and_eq_true, decide_eq_true_iff] at ht
      exact ht.1
    rw [List.zipIdx_append, List.flatMap_append, List.zipIdx_singleton, List.flatMap_singleton, Nat.zero_add]
    apply And.intro
    · rw [htext, ourToolText, hcomma, List.map_append, List.map_singleton, printItems_concat, List.append_assoc]
    · have hone : (ourToolText (t, tools.length)).length ≤ npToolNameMax + 3 := by
        rw [ourToolText, List.length_append, toolLiteral_print ht, List.length_cons, List.length_append, List.length_singleton]
        split
        · rw [List.length_singleton]
          omega
        · rw [List.length_nil]
          omega
      rw [List.length_append, List.length_append, List.length_singleton, Nat.add_mul, Nat.one_mul]
      omega

def toolBuildsLiteral (tools : List VarTool) : JsLiteral := .array (tools.map fun t ↦ toolLiteral t.tool)

theorem npWebpatchSetToolBuilds_eq (rows : List ToolRow) :
    (npWebpatchSetToolBuilds rows).2 = some (toolBuildsLiteral (npWebpatchSetToolBuilds rows).1).print := by
  let tools := varTools (rows.map fun row ↦ (row.1.map cString, row.2.1.map cString, row.2.2.map cString))
  have hnames : ∀ t ∈ tools, isToolName t.tool = true := varTools_name
  have hindexed : ∀ t ∈ tools.zipIdx, isToolName t.1.tool = true := by
    intro t ht
    exact hnames t.1 (List.fst_mem_of_mem_zipIdx ht)
  obtain ⟨htext, hlength⟩ := ourTools_text hnames
  have hw := ((TextBuffer.wrote_put (jsAlloc (tools.length * (npToolNameMax + 3) + 3) (by omega)) (ascii "[")).append
    (wrote_ourTools hindexed _)).append (TextBuffer.wrote_put _ (ascii "]"))
  have hsize : (ascii "[" ++ tools.zipIdx.flatMap ourToolText ++ ascii "]").length < tools.length * (npToolNameMax + 3) + 3 := by
    rw [List.length_append, List.length_append, show (ascii "[").length = 1 from rfl, show (ascii "]").length = 1 from rfl]
    omega
  obtain ⟨hok, hresult⟩ := hw.of_empty hsize
  have hprint : ascii "[" ++ tools.zipIdx.flatMap ourToolText ++ ascii "]" =
      (JsLiteral.array (tools.map fun t ↦ toolLiteral t.tool)).print := by
    rw [JsLiteral.print, ← htext]
    rfl
  exact (if_pos hok).trans (congrArg some (hresult.trans hprint))

/-! ## The page's inputs -/

/-- The builds among the first thirty-two that the page can show. -/
def buildsLiteral (builds : List NpWebpatchBuild) : JsLiteral :=
  .array (((builds.take npWebpatchBuildsMax).filter NpWebpatchBuild.shown).map buildLiteral)

/-- Whatever the inputs are, each text has room in its buffer and is the literal of all that is to be shown of them, from
end to end. -/
theorem npWebpatchInputs_complete :
    (∀ names, npWebpatchSetFexTools names = some (fexToolsLiteral names).print ∧
      parseLiteral (fexToolsLiteral names).print = some (fexToolsLiteral names)) ∧
    (∀ rosetta fex, npWebpatchSetDefaults rosetta fex = some (defaultsLiteral rosetta fex).print ∧
      parseLiteral (defaultsLiteral rosetta fex).print = some (defaultsLiteral rosetta fex)) ∧
    (∀ builds, npWebpatchSetBuilds builds = some (buildsLiteral builds).print ∧
      parseLiteral (buildsLiteral builds).print = some (buildsLiteral builds)) ∧
    ∀ rows, (npWebpatchSetToolBuilds rows).2 = some (toolBuildsLiteral (npWebpatchSetToolBuilds rows).1).print ∧
      parseLiteral (toolBuildsLiteral (npWebpatchSetToolBuilds rows).1).print =
        some (toolBuildsLiteral (npWebpatchSetToolBuilds rows).1) := by
  refine ⟨?_, ?_, ?_, ?_⟩
  · intro names
    exact ⟨npWebpatchSetFexTools_eq names, parseLiteral_print _⟩
  · intro rosetta fex
    exact ⟨npWebpatchSetDefaults_eq rosetta fex, parseLiteral_print _⟩
  · intro builds
    exact ⟨npWebpatchSetBuilds_eq builds, parseLiteral_print _⟩
  · intro rows
    exact ⟨npWebpatchSetToolBuilds_eq rows, parseLiteral_print _⟩

end NotProton.WebPatch
