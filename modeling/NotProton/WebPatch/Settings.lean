import NotProton.Defaults
import NotProton.Library.JsLiteral

/-!
# Settings — the saved settings in the Settings page (`webpatch.c`)

The page gets the settings as JavaScript literals, built into buffers whose size is worked out ahead,
and sends an object back as `KEY=value` lines.  Allocation is taken to succeed.
-/

open NotProton.Library NotProton.Defaults

namespace NotProton.WebPatch

def npToolNameMax : Nat := 128
def npWebpatchBuildsMax : Nat := 32

def isIdentChar (c : UInt8) : Bool := isLower c || isUpper c || isDigit c || c == 95 || c == 36

def isToolName (name : Bytes) : Bool :=
  name.length < npToolNameMax && name.all fun c ↦ isIdentChar c || c == 46 || c == 45

def isSettingKey (s : Bytes) : Bool := !s.isEmpty && s.all fun c ↦ isUpper c || isDigit c || c == 95

def isSettingValue (s : Bytes) : Bool := s.all fun c ↦ isIdentChar c || c == 46 || c == 61

def isLabel (s : Bytes) : Bool := !s.isEmpty && s.all fun c ↦ !(c < 32 || c == 34 || c == 92)

def jsPut (j : TextBuffer) (s : Bytes) : TextBuffer := j.put s

/-- `js_alloc`. -/
def jsAlloc (size : Nat) (h : 0 < size) : TextBuffer := .empty size h

/-- `js_done`. -/
def jsDone (j : TextBuffer) : Option Bytes := if j.ok then some j.text else none

/-- The key and value of a line the page takes. -/
def settingOf (line : Bytes) : Option (Bytes × Bytes) :=
  match splitAt 61 line with
  | (key, some value) =>
      if isSettingKey key = true ∧ isSettingValue value = true then some (key, value) else none
  | (_, none) => none

/-- One line of the loop in `js_settings`, with its `first`. -/
def jsSettingsLine (st : TextBuffer × Bool) (line : Bytes) : TextBuffer × Bool :=
  match settingOf line with
  | none => st
  | some (key, value) =>
      let j := if st.2 then st.1 else jsPut st.1 (ascii ",")
      let j := jsPut (jsPut (jsPut j (ascii "\"")) key) (ascii "\":\"")
      (jsPut (jsPut j value) (ascii "\""), false)

def jsSettings (j : TextBuffer) (lines : Option Bytes) : TextBuffer :=
  match lines with
  | none => jsPut j (ascii "null")
  | some lines =>
      let j := jsPut j (ascii "\x7b")
      let st := ((cString lines).splitOn 10).foldl jsSettingsLine (j, true)
      jsPut st.1 (ascii "\x7d")

/-- The text `np_webpatch_set_defaults` leaves for the page. -/
def npWebpatchSetDefaults (rosetta fex : Option Bytes) : Option Bytes :=
  let j := jsAlloc (32 + 3 * ((cString (rosetta.getD [])).length + (cString (fex.getD [])).length))
    (by omega)
  let j := jsPut j (ascii "\x7brosetta:")
  let j := jsSettings j rosetta
  let j := jsPut j (ascii ",fex:")
  let j := jsSettings j fex
  jsDone (jsPut j (ascii "\x7d"))

structure NpWebpatchBuild where
  tool : Bytes
  build : Bytes
  label : Bytes
  fex : Bool
  override : Option Bytes

def NpWebpatchBuild.shown (b : NpWebpatchBuild) : Bool :=
  !b.tool.isEmpty && isToolName b.tool && npIsBuildId b.build && isLabel b.label

/-- The room `np_webpatch_set_builds` counts for one build. -/
def NpWebpatchBuild.room (b : NpWebpatchBuild) : Nat :=
  64 + b.tool.length + b.build.length + b.label.length +
    match b.override with
    | some lines => 3 * (cString lines).length + 8
    | none => 4

def jsBuild (j : TextBuffer) (b : NpWebpatchBuild) : TextBuffer :=
  if b.shown = false then j
  else
    let j := if j.ok && j.text.getLast? != some 91 then jsPut j (ascii ",") else j
    let j := jsPut (jsPut j (ascii "\x7bid:\"")) b.tool
    let j := jsPut (jsPut j (ascii "\",build:\"")) b.build
    let j := jsPut j (if b.fex then ascii "\",runner:\"fex\",label:\""
      else ascii "\",runner:\"rosetta\",label:\"")
    let j := jsPut (jsPut j b.label) (ascii "\",override:")
    jsPut (jsSettings j b.override) (ascii "\x7d")

/-- The text `np_webpatch_set_builds` leaves for the page. -/
def npWebpatchSetBuilds (builds : List NpWebpatchBuild) : Option Bytes :=
  let builds := builds.take npWebpatchBuildsMax
  let j := jsAlloc (3 + (builds.map NpWebpatchBuild.room).sum) (by omega)
  let j := jsPut j (ascii "[")
  jsDone (jsPut (builds.foldl jsBuild j) (ascii "]"))

/-! ## The page's own side -/

/-- `ser`: an object as the lines the page sends. -/
def ser (d : List (Bytes × Bytes)) : Bytes :=
  ([10] : Bytes).intercalate ((objectKeys d).map fun k ↦ k ++ 61 :: (d.lookup k).getD [])

/-- The object of settings a literal makes, none for `null`. -/
def settingsObject (l : JsLiteral) : Option (List (Bytes × Bytes)) :=
  l.props.map fun ps ↦ ps.filterMap fun p ↦
    match p.2 with
    | .string text => some (p.1, text.1)
    | _ => none

/-- The settings the page has for a runner, from the text it is given. -/
def pageDefaults (text : Bytes) (runner : Nat) : Option (List (Bytes × Bytes)) :=
  ((parseLiteral text).bind fun l ↦
    l.prop (if runner = npDefaultsFex then ascii "fex" else ascii "rosetta")).bind settingsObject

/-- `x.id===tool`. -/
def itemNamed (tool : Bytes) (item : JsLiteral) : Bool :=
  match item.prop (ascii "id") with
  | some (.string id) => decide (id.1 = tool)
  | _ => false

/-- A build's own settings in the page: of the first build with the tool's name. -/
def pageOverride (text : Bytes) (tool : Bytes) : Option (List (Bytes × Bytes)) :=
  match parseLiteral text with
  | some (.array items) =>
      ((items.find? (itemNamed tool)).bind fun item ↦ item.prop (ascii "override")).bind
        settingsObject
  | _ => none

/-! ## The literals these texts are -/

def plainText (s : Bytes) : PlainText :=
  if h : s.all isPlainChar = true then ⟨s, h⟩ else ⟨[], rfl⟩

theorem plainText_val {s : Bytes} (h : s.all isPlainChar = true) : (plainText s).1 = s := by
  rw [plainText, dif_pos h]

/-- A byte of the classes the page's filters are made of stands for itself in a string. -/
theorem isPlainChar_of_ident :
    ∀ c : UInt8, (isIdentChar c || c == 46 || c == 61) = true → isPlainChar c = true :=
  forall_byte (by decide +kernel)

theorem isPlainChar_of_key :
    ∀ c : UInt8, (isUpper c || isDigit c || c == 95) = true → isPlainChar c = true :=
  forall_byte (by decide +kernel)

theorem isPlainChar_of_tool :
    ∀ c : UInt8, (isIdentChar c || c == 46 || c == 45) = true → isPlainChar c = true :=
  forall_byte (by decide +kernel)

theorem isPlainChar_of_label :
    ∀ c : UInt8, (!(c < 32 || c == 34 || c == 92)) = true → isPlainChar c = true :=
  forall_byte (by decide +kernel)

theorem all_mono {p q : UInt8 → Bool} (hpq : ∀ c, p c = true → q c = true) {s : Bytes}
    (h : s.all p = true) : s.all q = true :=
  List.all_eq_true.mpr fun c hc ↦ hpq c (List.all_eq_true.mp h c hc)

/-- The keys and values the page takes from a text. -/
def shownPairs (lines : Bytes) : List (Bytes × Bytes) :=
  ((cString lines).splitOn 10).filterMap settingOf

def propOf (kv : Bytes × Bytes) : JsKey × JsLiteral :=
  (.quoted (plainText kv.1), .string (plainText kv.2))

def settingsLiteral : Option Bytes → JsLiteral
  | none => .null
  | some lines => .object ((shownPairs lines).map propOf)

theorem settingOf_some {line : Bytes} {kv : Bytes × Bytes} (h : settingOf line = some kv) :
    line = lineOf kv ∧ isSettingKey kv.1 = true ∧ isSettingValue kv.2 = true := by
  unfold settingOf at h
  split at h
  next key value hsplit =>
    split at h
    next hok =>
      cases h
      have hspec := splitAt_spec 61 line
      rw [hsplit] at hspec
      exact ⟨hspec, hok⟩
    next => cases h
  next => cases h

theorem propOf_plain {line : Bytes} {kv : Bytes × Bytes} (h : settingOf line = some kv) :
    (plainText kv.1).1 = kv.1 ∧ (plainText kv.2).1 = kv.2 := by
  obtain ⟨-, hkey, hvalue⟩ := settingOf_some h
  rw [isSettingKey, Bool.and_eq_true] at hkey
  exact ⟨plainText_val (all_mono isPlainChar_of_key hkey.2),
    plainText_val (all_mono isPlainChar_of_ident hvalue)⟩

/-- What the loop writes for lines that come after others, or first. -/
def settingsText (first : Bool) (pairs : List (Bytes × Bytes)) : Bytes :=
  if pairs = [] then []
  else if first then printProps (pairs.map propOf)
  else 44 :: printProps (pairs.map propOf)

theorem settingsText_cons (first : Bool) (kv : Bytes × Bytes) (pairs : List (Bytes × Bytes)) :
    settingsText first (kv :: pairs) =
      (if first then [] else [44]) ++ (quote (plainText kv.1) ++ 58 :: quote (plainText kv.2)) ++
        settingsText false pairs := by
  have hprint : printProps ((kv :: pairs).map propOf) =
      quote (plainText kv.1) ++ 58 :: quote (plainText kv.2) ++ settingsText false pairs := by
    rw [List.map_cons, propOf, printProps_cons, JsKey.print, JsLiteral.print, settingsText]
    cases pairs <;> simp
  rw [settingsText, if_neg (List.cons_ne_nil kv pairs), hprint]
  cases first <;> simp

theorem wrote_jsSettingsLines (lines : List Bytes) (j : TextBuffer) (first : Bool) :
    j.Wrote (settingsText first (lines.filterMap settingOf))
      (lines.foldl jsSettingsLine (j, first)).1 := by
  induction lines generalizing j first with
  | nil => exact TextBuffer.wrote_nil j
  | cons line lines ih =>
    cases hset : settingOf line with
    | none =>
      rw [List.foldl_cons, List.filterMap_cons_none hset]
      simp only [jsSettingsLine, hset]
      exact ih j first
    | some kv =>
      obtain ⟨hkey, hvalue⟩ := propOf_plain hset
      rw [List.foldl_cons, List.filterMap_cons_some hset, settingsText_cons]
      simp only [jsSettingsLine, hset]
      refine TextBuffer.Wrote.append ?_ (ih _ false)
      have hcomma : j.Wrote (if first then [] else [44])
          (if first = true then j else jsPut j (ascii ",")) := by
        cases first
        · exact TextBuffer.wrote_put j _
        · exact TextBuffer.wrote_nil j
      have hrest := (((hcomma.append (TextBuffer.wrote_put _ (ascii "\""))).append
        (TextBuffer.wrote_put _ kv.1)).append (TextBuffer.wrote_put _ (ascii "\":\""))).append
        (TextBuffer.wrote_put _ kv.2) |>.append (TextBuffer.wrote_put _ (ascii "\""))
      simpa [quote, hkey, hvalue, ascii, jsPut] using hrest

theorem printProps_shownPairs (lines : Bytes) :
    printProps ((shownPairs lines).map propOf) = settingsText true (shownPairs lines) := by
  unfold settingsText
  split
  next hnil => rw [hnil]; simp [printProps]
  next => rfl

theorem wrote_jsSettings (j : TextBuffer) (lines : Option Bytes) :
    j.Wrote (settingsLiteral lines).print (jsSettings j lines) := by
  cases lines with
  | none =>
    rw [settingsLiteral, JsLiteral.print]
    exact TextBuffer.wrote_put j _
  | some lines =>
    have h := ((j.wrote_put (ascii "\x7b")).append (wrote_jsSettingsLines
      ((cString lines).splitOn 10) _ true)).append (TextBuffer.wrote_put _ (ascii "\x7d"))
    rw [settingsLiteral, JsLiteral.print, printProps_shownPairs]
    exact h

theorem settingsText_length (first : Bool) (lines : List Bytes) :
    (settingsText first (lines.filterMap settingOf)).length ≤
      3 * (lines.map fun line ↦ line.length + 1).sum := by
  induction lines generalizing first with
  | nil => exact Nat.zero_le _
  | cons line lines ih =>
    rw [List.map_cons, List.sum_cons]
    cases hset : settingOf line with
    | none =>
      rw [List.filterMap_cons_none hset]
      have := ih first
      omega
    | some kv =>
      obtain ⟨hkey, hvalue⟩ := propOf_plain hset
      obtain ⟨hline, hname, -⟩ := settingOf_some hset
      have hlen : line.length = kv.1.length + kv.2.length + 1 := by
        rw [hline, lineOf, List.length_append, List.length_cons]
        omega
      have hkv : (quote (plainText kv.1) ++ 58 :: quote (plainText kv.2)).length =
          kv.1.length + kv.2.length + 5 := by
        simp only [quote, hkey, hvalue, List.length_append, List.length_cons, List.length_nil]
        omega
      -- The five bytes of quotes and colon are paid by the name, which is not empty.
      have hpos : 0 < kv.1.length := by
        cases hk : kv.1 with
        | nil => rw [hk] at hname; cases hname
        | cons c s => exact Nat.succ_pos _
      have hcomma : (if first = true then ([] : Bytes) else [44]).length ≤ 1 := by
        cases first <;> simp
      have hrest := ih false
      rw [List.filterMap_cons_some hset, settingsText_cons, List.length_append, List.length_append,
        hkv]
      omega

/-- Three bytes for each one given, and a few more, are enough. -/
theorem settingsLiteral_length (lines : Option Bytes) :
    (settingsLiteral lines).print.length ≤ 3 * (cString (lines.getD [])).length + 5 := by
  cases lines with
  | none => rw [settingsLiteral, JsLiteral.print]; exact Nat.le_add_left _ _
  | some lines =>
    have h := settingsText_length true ((cString lines).splitOn 10)
    rw [splitOn_length] at h
    have htext := printProps_shownPairs lines
    rw [settingsLiteral, JsLiteral.print, htext, List.length_cons, List.length_append,
      List.length_singleton, Option.getD_some]
    rw [← shownPairs] at h
    omega

/-! ## Arrays -/

/-- A loop that puts a literal for each element it shows into an array, behind a comma where the text does not end in
the array's bracket. -/
structure JsArrayLoop {α : Type} (step : TextBuffer → α → TextBuffer) (shown : α → Bool) (item : α → JsLiteral)
    (room : α → Nat) : Prop where
  skips : ∀ (j : TextBuffer) a, shown a = false → step j a = j
  writes : ∀ (j : TextBuffer) a, shown a = true → j.ok = true →
    j.Wrote ((if j.text.getLast? = some 91 then [] else [44]) ++ (item a).print) (step j a)
  ends : ∀ a, (item a).print.getLast? ≠ some 91
  fits : ∀ a, shown a = true → (item a).print.length + 1 ≤ room a

section

variable {α : Type} {step : TextBuffer → α → TextBuffer} {shown : α → Bool} {item : α → JsLiteral} {room : α → Nat}

/-- The array so far ends in its bracket, or in the end of its last element. -/
theorem JsArrayLoop.getLast_items (h : JsArrayLoop step shown item room) (done : List α) :
    (91 :: printItems (done.map item)).getLast? = some 91 ↔ done = [] := by
  cases done using List.reverseRecOn with
  | nil => simp [printItems]
  | append_singleton done a =>
    obtain ⟨c, s, hprint, -⟩ := (item a).print_head
    have hne : (item a).print ≠ [] := by rw [hprint]; exact List.cons_ne_nil c s
    rw [List.map_append, List.map_singleton, printItems_concat, ← List.cons_append, List.getLast?_append_of_ne_nil _ hne]
    apply iff_of_false (h.ends a)
    simp

/-- The loop, with `done` in the array already. -/
theorem JsArrayLoop.foldl (h : JsArrayLoop step shown item room) (l done : List α) (j : TextBuffer) (hok : j.ok = true)
    (htext : j.text = 91 :: printItems (done.map item)) (hroom : j.text.length + (l.map room).sum + 1 < j.size) :
    let j' := l.foldl step j
    j'.Fits [93] ∧ j'.text = 91 :: printItems ((done ++ l.filter shown).map item) := by
  induction l generalizing done j with
  | nil => exact ⟨⟨hok, by simpa using hroom⟩, by simpa using htext⟩
  | cons a l ih =>
    rw [List.map_cons, List.sum_cons] at hroom
    cases ha : shown a with
    | false =>
      rw [List.foldl_cons, h.skips j a ha, List.filter_cons_of_neg (by rw [ha]; decide)]
      exact ih done j hok htext (by omega)
    | true =>
      have hlen := h.fits a ha
      have hcomma : (if j.text.getLast? = some 91 then ([] : Bytes) else [44]).length ≤ 1 := by
        split <;> decide
      have hw := h.writes j a ha hok
      have hfits : j.Fits ((if j.text.getLast? = some 91 then [] else [44]) ++ (item a).print) :=
        ⟨hok, by rw [List.length_append]; omega⟩
      have htext' := hw.text hfits
      rw [List.foldl_cons, List.filter_cons_of_pos ha]
      have hcons : done ++ a :: l.filter shown = (done ++ [a]) ++ l.filter shown := by simp
      rw [hcons]
      -- The comma depends on whether the text ends in the opening bracket.
      refine ih (done ++ [a]) (step j a) (hw.ok.mpr hfits) ?_ ?_
      · have hlast := h.getLast_items done
        rw [← htext] at hlast
        rw [htext', List.map_append, List.map_singleton, printItems_concat, ← List.cons_append,
          ← List.cons_append, ← htext, List.append_assoc]
        by_cases hnil : done = []
        · simp [hlast.mpr hnil, hnil]
        · simp [mt hlast.mp hnil, hnil]
      · rw [htext', hw.size, List.length_append, List.length_append]
        omega

/-- The whole array, with the room for its elements and three bytes more. -/
theorem JsArrayLoop.array_eq (h : JsArrayLoop step shown item room) (l : List α) :
    jsDone (jsPut (l.foldl step (jsPut (jsAlloc (3 + (l.map room).sum) (by omega)) (ascii "["))) (ascii "]")) =
      some (JsLiteral.array ((l.filter shown).map item)).print := by
  have hfits : (jsAlloc (3 + (l.map room).sum) (by omega)).Fits (ascii "[") := ⟨rfl, by
    show 0 + 1 < 3 + _
    omega⟩
  have hopen := TextBuffer.wrote_put _ _ |>.text hfits
  obtain ⟨hclose, htext⟩ := h.foldl l [] (jsPut _ (ascii "["))
    ((TextBuffer.wrote_put _ _).ok.mpr hfits)
    (by rw [jsPut, hopen]; simp [jsAlloc, TextBuffer.empty, printItems, ascii])
    (by
      rw [jsPut, hopen, (TextBuffer.wrote_put _ _).size]
      show 1 + _ + 1 < 3 + _
      omega)
  have hend := fun j : TextBuffer ↦ j.wrote_put (ascii "]")
  rw [jsDone]
  refine (if_pos ((hend _).ok.mpr hclose)).trans (congrArg some ?_)
  rw [jsPut, (hend _).text hclose, htext, JsLiteral.print, List.nil_append]
  rfl

end

/-! ## The texts themselves -/

def defaultsLiteral (rosetta fex : Option Bytes) : JsLiteral :=
  .object [(.bare ⟨ascii "rosetta", by decide⟩, settingsLiteral rosetta),
    (.bare ⟨ascii "fex", by decide⟩, settingsLiteral fex)]

theorem npWebpatchSetDefaults_eq (rosetta fex : Option Bytes) :
    npWebpatchSetDefaults rosetta fex = some (defaultsLiteral rosetta fex).print := by
  have hprint : (defaultsLiteral rosetta fex).print =
      ascii "\x7brosetta:" ++ (settingsLiteral rosetta).print ++ ascii ",fex:" ++
        (settingsLiteral fex).print ++ ascii "\x7d" := by
    simp [defaultsLiteral, JsLiteral.print, printProps, JsKey.print, ascii]
  have hlen : (defaultsLiteral rosetta fex).print.length <
      32 + 3 * ((cString (rosetta.getD [])).length + (cString (fex.getD [])).length) := by
    have hr := settingsLiteral_length rosetta
    have hf := settingsLiteral_length fex
    rw [hprint]
    simp only [List.length_append, show (ascii "\x7brosetta:").length = 9 from rfl,
      show (ascii ",fex:").length = 5 from rfl, show (ascii "\x7d").length = 1 from rfl]
    omega
  have hw := ((((TextBuffer.wrote_put (jsAlloc (32 + 3 * ((cString (rosetta.getD [])).length +
    (cString (fex.getD [])).length)) (by omega)) (ascii "\x7brosetta:")).append
    (wrote_jsSettings _ rosetta)).append (TextBuffer.wrote_put _ (ascii ",fex:"))).append
    (wrote_jsSettings _ fex)).append (TextBuffer.wrote_put _ (ascii "\x7d"))
  rw [← hprint] at hw
  obtain ⟨hok, htext⟩ := hw.of_empty hlen
  exact (if_pos hok).trans (congrArg some htext)

def buildLiteral (b : NpWebpatchBuild) : JsLiteral :=
  .object [(.bare ⟨ascii "id", by decide⟩, .string (plainText b.tool)),
    (.bare ⟨ascii "build", by decide⟩, .string (plainText b.build)),
    (.bare ⟨ascii "runner", by decide⟩,
      .string (plainText (if b.fex then ascii "fex" else ascii "rosetta"))),
    (.bare ⟨ascii "label", by decide⟩, .string (plainText b.label)),
    (.bare ⟨ascii "override", by decide⟩, settingsLiteral b.override)]

/-- The names of a build the page shows need no escapes. -/
theorem shown_plain {b : NpWebpatchBuild} (h : b.shown = true) :
    (plainText b.tool).1 = b.tool ∧ (plainText b.build).1 = b.build ∧
      (plainText b.label).1 = b.label := by
  simp only [NpWebpatchBuild.shown, isToolName, npIsBuildId, isLabel, Bool.and_eq_true] at h
  obtain ⟨⟨⟨-, -, htool⟩, ⟨hbuild, -⟩, -⟩, -, hlabel⟩ := h
  have hid : ∀ c : UInt8, (isLower c || isUpper c || isDigit c || c == 46 || c == 45) = true →
      isPlainChar c = true := forall_byte (by decide +kernel)
  exact ⟨plainText_val (all_mono isPlainChar_of_tool htool), plainText_val (all_mono hid hbuild),
    plainText_val (all_mono isPlainChar_of_label hlabel)⟩

theorem buildLiteral_print {b : NpWebpatchBuild} (h : b.shown = true) :
    (buildLiteral b).print = ascii "\x7bid:\"" ++ b.tool ++ ascii "\",build:\"" ++ b.build ++
      (if b.fex then ascii "\",runner:\"fex\",label:\"" else ascii "\",runner:\"rosetta\",label:\"") ++
      b.label ++ ascii "\",override:" ++ (settingsLiteral b.override).print ++ ascii "\x7d" := by
  obtain ⟨htool, hbuild, hlabel⟩ := shown_plain h
  have hrunner : (plainText (if b.fex then ascii "fex" else ascii "rosetta")).1 =
      if b.fex then ascii "fex" else ascii "rosetta" := by
    cases b.fex <;> rfl
  simp only [buildLiteral, JsLiteral.print, printProps, JsKey.print, quote, htool, hbuild, hlabel,
    hrunner]
  cases b.fex <;> simp [ascii]

theorem buildLiteral_length {b : NpWebpatchBuild} (h : b.shown = true) :
    (buildLiteral b).print.length + 1 ≤ b.room := by
  have hs := settingsLiteral_length b.override
  have hrunner : (if b.fex then ascii "\",runner:\"fex\",label:\""
      else ascii "\",runner:\"rosetta\",label:\"").length ≤ 26 := by
    cases b.fex <;> decide
  rw [buildLiteral_print h]
  simp only [List.length_append, show (ascii "\x7bid:\"").length = 5 from rfl,
    show (ascii "\",build:\"").length = 9 from rfl, show (ascii "\",override:").length = 11 from rfl,
    show (ascii "\x7d").length = 1 from rfl]
  unfold NpWebpatchBuild.room
  cases ho : b.override with
  | none =>
    have hnull : (settingsLiteral none).print.length = 4 := by
      rw [settingsLiteral, JsLiteral.print]; rfl
    rw [hnull]
    simp only
    omega
  | some lines =>
    rw [ho, Option.getD_some] at hs
    simp only
    omega

theorem wrote_jsBuild {j : TextBuffer} {b : NpWebpatchBuild} (h : b.shown = true) (hok : j.ok = true) :
    j.Wrote ((if j.text.getLast? = some 91 then [] else [44]) ++ (buildLiteral b).print)
      (jsBuild j b) := by
  have hcomma : j.Wrote (if j.text.getLast? = some 91 then [] else [44])
      (if j.ok && j.text.getLast? != some 91 then jsPut j (ascii ",") else j) := by
    by_cases hlast : j.text.getLast? = some 91
    · simp only [hlast, hok, bne_self_eq_false, Bool.and_false, if_true]
      exact TextBuffer.wrote_nil j
    · simp only [hok, bne_iff_ne.mpr hlast, Bool.and_self, if_true, if_neg hlast]
      exact TextBuffer.wrote_put j _
  have hrest : ∀ j' : TextBuffer, j'.Wrote (buildLiteral b).print _ := fun j' ↦
    (buildLiteral_print h) ▸ (((((((((TextBuffer.wrote_put j' (ascii "\x7bid:\"")).append
      (TextBuffer.wrote_put _ b.tool)).append (TextBuffer.wrote_put _ (ascii "\",build:\""))).append
      (TextBuffer.wrote_put _ b.build)).append (TextBuffer.wrote_put _
        (if b.fex then ascii "\",runner:\"fex\",label:\"" else ascii "\",runner:\"rosetta\",label:\""))).append
      (TextBuffer.wrote_put _ b.label)).append (TextBuffer.wrote_put _ (ascii "\",override:"))).append
      (wrote_jsSettings _ b.override)).append (TextBuffer.wrote_put _ (ascii "\x7d")))
  have hw := hcomma.append (hrest _)
  have hshown : ¬ b.shown = false := by rw [h]; decide
  simp only [jsBuild, if_neg hshown]
  exact hw

theorem loop_jsBuild : JsArrayLoop jsBuild NpWebpatchBuild.shown buildLiteral NpWebpatchBuild.room where
  skips := by
    intro j b hb
    rw [jsBuild, if_pos hb]
  writes := by
    intro j b hb hok
    exact wrote_jsBuild hb hok
  ends := by
    intro b
    rw [buildLiteral, JsLiteral.print, ← List.cons_append, List.getLast?_concat]
    decide
  fits := by
    intro b hb
    exact buildLiteral_length hb

theorem npWebpatchSetBuilds_eq (builds : List NpWebpatchBuild) :
    npWebpatchSetBuilds builds = some (JsLiteral.array
      (((builds.take npWebpatchBuildsMax).filter NpWebpatchBuild.shown).map buildLiteral)).print :=
  loop_jsBuild.array_eq (builds.take npWebpatchBuildsMax)

end NotProton.WebPatch
