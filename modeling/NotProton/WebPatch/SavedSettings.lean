import NotProton.WebPatch.Settings
import NotProton.Library.Lists

/-!
# SavedSettings — from a save to the page and back

A settings file is written by `defaults.c`, read back by it, shown by `webpatch.c` and sent back by
the page.  The three sets of characters involved differ in one: the `;` between two clauses.
-/

open NotProton.Library NotProton.Defaults
open NotProton.PrefixState (Entry)

namespace NotProton.WebPatch

/-! ## The file -/

/-- A text that is taken is saved as its lines, each of them valid. -/
theorem checkedBody_some {runner : Nat} {text body : Bytes}
    (h : checkedBody runner (some text) = some body) :
    ∃ lines, Valid runner lines ∧ settingLines (cString text) = lines.map lineOf ∧
      body = bodyOf lines ∧ body.length ≤ npDefaultsTextMax := by
  simp only [checkedBody] at h
  split at h
  · cases h
  split at h
  · cases h
  next hbad =>
  split at h
  next hok =>
    obtain ⟨hlines, hvalid⟩ := eachLine_taken (not_not.mp hbad)
    have hw := wrote_putLines (textBuffer npDefaultsTextMax) (eachLine runner (cString text)).out
    have hfits := hw.ok.mp hok
    have htext := hw.text hfits
    rw [Option.some.inj h] at htext
    refine ⟨_, hvalid, hlines, htext, ?_⟩
    have hlt := hfits.2
    rw [htext]
    simp only [textBuffer, TextBuffer.empty, List.length_nil, List.nil_append] at hlt ⊢
    omega
  next => cases h

/-- Valid lines are saved, from any text that has just them and is not too long. -/
theorem checkedBody_valid {runner : Nat} {text : Bytes} {lines : List (Bytes × Bytes)}
    (h : Valid runner lines) (hlines : settingLines (cString text) = lines.map lineOf)
    (htext : (cString text).length ≤ npDefaultsTextMax)
    (hbody : (bodyOf lines).length ≤ npDefaultsTextMax) :
    checkedBody runner (some text) = some (bodyOf lines) := by
  obtain ⟨hbad, hout⟩ := eachLine_valid h hlines
  have hw := wrote_putLines (textBuffer npDefaultsTextMax) lines
  obtain ⟨hok, htext'⟩ := hw.of_empty (by omega)
  simp only [checkedBody, if_neg (Nat.not_lt.mpr htext), hbad, hout, ne_eq, not_true_eq_false,
    if_false, hok, if_true, htext']

theorem writeLocked_entry {disk disk' : Disk} {path body : Bytes}
    (h : writeLocked disk path body = some disk') :
    disk'.entry path = .file body ∧ disk'.home = disk.home ∧ disk'.writable = disk.writable ∧
      disk.writable path = true := by
  unfold writeLocked at h
  split at h
  next hw =>
    cases h
    exact ⟨if_pos rfl, rfl, rfl, hw⟩
  next => cases h

/-- A saved body is read as it was saved. -/
theorem readLines_bodyOf {disk : Disk} {path : Bytes} {runner : Nat} {lines : List (Bytes × Bytes)}
    (h : Valid runner lines) (hentry : disk.entry path = .file (bodyOf lines))
    (hlen : (bodyOf lines).length ≤ npDefaultsTextMax) :
    (readLines disk path runner (textBuffer npDefaultsTextMax)).map TextBuffer.text =
      some (bodyOf lines) := by
  simp only [readLines, hentry]
  split
  next hnil => rw [hnil]; rfl
  next =>
    obtain ⟨-, hout⟩ := eachLine_valid h (settingLines_bodyOf h)
    have hw := wrote_putLines (textBuffer npDefaultsTextMax) lines
    obtain ⟨hok, htext⟩ := hw.of_empty (by omega)
    have hsize : ¬ (npReadCeiling < (bodyOf lines).length ∨
        npDefaultsTextMax < (bodyOf lines).length) := by
      simp only [npReadCeiling, npDefaultsTextMax] at hlen ⊢
      omega
    rw [if_neg hsize, hout, if_pos hok, Option.map_some, htext]

/-! ## The page -/

/-- The page's filter takes a valid value unless it has two clauses. -/
theorem isSettingValue_iff {v : Bytes} (h : v.all isValueByte = true) :
    isSettingValue v = true ↔ (59 : UInt8) ∉ v := by
  have hbyte : ∀ c : UInt8, isValueByte c = true →
      ((isIdentChar c || c == 46 || c == 61) = true ↔ c ≠ 59) := forall_byte (by decide +kernel)
  rw [isSettingValue, List.all_eq_true]
  rw [List.all_eq_true] at h
  constructor
  · intro hall hm
    exact (hbyte 59 (by decide)).mp (hall 59 hm) rfl
  · intro hm c hc
    exact (hbyte c (h c hc)).mpr fun e ↦ hm (e ▸ hc)

theorem settingOf_lineOf {runner : Nat} {lines : List (Bytes × Bytes)} (h : Valid runner lines)
    {l : Bytes × Bytes} (hl : l ∈ lines) :
    settingOf (lineOf l) = if (59 : UInt8) ∈ l.2 then none else some l := by
  obtain ⟨i, hi, hv⟩ := h.each l hl
  obtain ⟨hkey, hne⟩ := key_bytes hi
  have hname : isSettingKey l.1 = true := by
    rw [isSettingKey, Bool.and_eq_true]
    exact ⟨by simpa using hne, hkey⟩
  have hvalue := isSettingValue_iff (validValue_bytes hv)
  rw [settingOf, splitAt_lineOf hi]
  by_cases hsemi : (59 : UInt8) ∈ l.2
  · simp [hname, hsemi, mt hvalue.mp (not_not.mpr hsemi)]
  · simp [hname, hsemi, hvalue.mpr hsemi]

theorem cString_bodyOf {runner : Nat} {lines : List (Bytes × Bytes)} (h : Valid runner lines) :
    cString (bodyOf lines) = bodyOf lines := by
  apply List.takeWhile_eq_self_iff.mpr
  intro c hc
  obtain ⟨l, hl, hm⟩ := List.mem_flatMap.mp hc
  obtain ⟨i, hi, hv⟩ := h.each l hl
  have hkey := List.all_eq_true.mp (key_bytes hi).1
  have hvalue := List.all_eq_true.mp (validValue_bytes hv)
  rw [lineOf] at hm
  rw [decide_eq_true_eq]
  rintro rfl
  simp only [List.append_assoc, List.cons_append, List.mem_append, List.mem_cons,
    List.not_mem_nil, or_false] at hm
  rcases hm with hm | hm | hm | hm
  · exact absurd (hkey 0 hm) (by decide)
  · exact absurd hm (by decide)
  · exact absurd (hvalue 0 hm) (by decide)
  · exact absurd hm (by decide)

/-- The page is shown the saved lines that have no `;`. -/
theorem shownPairs_bodyOf {runner : Nat} {lines : List (Bytes × Bytes)} (h : Valid runner lines) :
    shownPairs (bodyOf lines) = lines.filter fun l ↦ decide ((59 : UInt8) ∉ l.2) := by
  have hno : ∀ line ∈ lines.map lineOf, (10 : UInt8) ∉ line := by
    intro line hl
    obtain ⟨l, hm, rfl⟩ := List.mem_map.mp hl
    exact h.notMem_newline hm
  have hsplit := splitOn_flatMap hno
  rw [List.flatMap_map] at hsplit
  rw [shownPairs, cString_bodyOf h, bodyOf, hsplit, List.filterMap_append, List.filterMap_map]
  have hlast : ([[]] : List Bytes).filterMap settingOf = [] := rfl
  rw [hlast, List.append_nil, ← List.filterMap_eq_filter]
  apply List.filterMap_congr
  intro l hl
  rw [Function.comp_apply, settingOf_lineOf h hl]
  by_cases hsemi : (59 : UInt8) ∈ l.2 <;> simp [hsemi, Option.guard]

theorem Valid.not_index {runner : Nat} {lines : List (Bytes × Bytes)} (h : Valid runner lines) :
    ∀ l ∈ lines, isArrayIndex l.1 = false := by
  have hall : ∀ i : Fin gSettings.length, isArrayIndex (gSettings.get i).key = false := by decide
  intro l hl
  obtain ⟨i, hi, -⟩ := h.each l hl
  rw [settingIndex_key hi]
  exact hall i

theorem Valid.plain {runner : Nat} {lines : List (Bytes × Bytes)} (h : Valid runner lines)
    {l : Bytes × Bytes} (hl : l ∈ lines) (hsemi : (59 : UInt8) ∉ l.2) :
    (plainText l.1).1 = l.1 ∧ (plainText l.2).1 = l.2 :=
  propOf_plain ((settingOf_lineOf h hl).trans (if_neg hsemi))

/-- The object in the page holds the saved lines that have no `;`. -/
theorem settingsObject_bodyOf {runner : Nat} {lines : List (Bytes × Bytes)}
    (h : Valid runner lines) :
    settingsObject (settingsLiteral (some (bodyOf lines))) =
      some (lines.filter fun l ↦ decide ((59 : UInt8) ∉ l.2)) := by
  rw [settingsLiteral, shownPairs_bodyOf h]
  have hplain : ∀ l ∈ lines.filter fun l ↦ decide ((59 : UInt8) ∉ l.2),
      (plainText l.1).1 = l.1 ∧ (plainText l.2).1 = l.2 := by
    intro l hl
    obtain ⟨hm, hsemi⟩ := List.mem_filter.mp hl
    exact Valid.plain h hm (of_decide_eq_true hsemi)
  have hnodup : ((lines.filter fun l ↦ decide ((59 : UInt8) ∉ l.2)).map Prod.fst).Nodup :=
    (Valid.keys_nodup h).sublist (List.filter_sublist.map Prod.fst)
  generalize lines.filter (fun l ↦ decide ((59 : UInt8) ∉ l.2)) = shown at hplain hnodup
  have hnames : (shown.map propOf).map (fun p ↦ p.1.name) = shown.map Prod.fst := by
    rw [List.map_map]
    exact List.map_congr_left fun l hl ↦ (hplain l hl).1
  rw [settingsObject, props_object (hnames ▸ hnodup), Option.map_some, List.map_map,
    List.filterMap_map]
  congr 1
  have hid : shown.filterMap some = shown := List.filterMap_some
  refine Eq.trans (List.filterMap_congr fun l hl ↦ ?_) hid
  obtain ⟨hkey, hvalue⟩ := hplain l hl
  simp only [Function.comp_apply, propOf, JsKey.name, hkey, hvalue]

theorem pageDefaults_eq (rosetta fex : Option Bytes) (runner : Nat) :
    (npWebpatchSetDefaults rosetta fex).bind (pageDefaults · runner) =
      settingsObject (settingsLiteral (if runner = npDefaultsFex then fex else rosetta)) := by
  rw [npWebpatchSetDefaults_eq, Option.bind_some, pageDefaults, parseLiteral_print, Option.bind_some]
  split
  · exact congrArg (Option.bind · settingsObject) rfl
  · exact congrArg (Option.bind · settingsObject) rfl

theorem itemNamed_buildLiteral {b : NpWebpatchBuild} (h : b.shown = true) (tool : Bytes) :
    itemNamed tool (buildLiteral b) = decide (b.tool = tool) := by
  have hid : itemNamed tool (buildLiteral b) = decide ((plainText b.tool).1 = tool) := rfl
  rw [hid, (shown_plain h).1]

theorem pageOverride_eq {builds : List NpWebpatchBuild} {b : NpWebpatchBuild} (hb : b ∈ builds)
    (hshown : b.shown = true) (hcount : builds.length ≤ npWebpatchBuildsMax)
    (hnodup : (builds.map NpWebpatchBuild.tool).Nodup) :
    (npWebpatchSetBuilds builds).bind (pageOverride · b.tool) =
      settingsObject (settingsLiteral b.override) := by
  have hfind : (builds.filter NpWebpatchBuild.shown).find? (itemNamed b.tool ∘ buildLiteral) =
      some b := by
    refine find?_eq_some_of_unique (List.mem_filter.mpr ⟨hb, hshown⟩) ?_ fun b' hb' hname ↦ ?_
    · rw [Function.comp_apply, itemNamed_buildLiteral hshown]
      exact decide_eq_true rfl
    · obtain ⟨hb', hshown'⟩ := List.mem_filter.mp hb'
      rw [Function.comp_apply, itemNamed_buildLiteral hshown', decide_eq_true_eq] at hname
      exact List.inj_on_of_nodup_map hnodup hb' hb hname
  rw [npWebpatchSetBuilds_eq, Option.bind_some, pageOverride, parseLiteral_print,
    List.take_of_length_le hcount]
  simp only [List.find?_map, hfind, Option.map_some, Option.bind_some]
  exact congrArg (Option.bind · settingsObject) rfl

/-- What the page sends for an object of valid lines. -/
theorem ser_valid {runner : Nat} {lines : List (Bytes × Bytes)} (h : Valid runner lines) :
    ser lines = ([10] : Bytes).intercalate (lines.map lineOf) := by
  rw [ser, objectKeys_of_not_index (Valid.not_index h), List.map_map]
  congr 1
  apply List.map_congr_left
  intro l hl
  rw [Function.comp_apply, lookup_of_mem (Valid.keys_nodup h) hl]
  rfl

theorem settingLines_ser {runner : Nat} {lines : List (Bytes × Bytes)} (h : Valid runner lines) :
    settingLines (ser lines) = lines.map lineOf := by
  rw [ser_valid h, settingLines]
  by_cases hnil : lines = []
  · rw [hnil]
    rfl
  · have hno : ∀ line ∈ lines.map lineOf, (10 : UInt8) ∉ line := by
      intro line hl
      obtain ⟨l, hm, rfl⟩ := List.mem_map.mp hl
      exact h.notMem_newline hm
    rw [List.splitOn_intercalate 10 hno (by simpa using hnil), List.filter_eq_self.mpr]
    intro line hl
    obtain ⟨l, -, rfl⟩ := List.mem_map.mp hl
    simpa using lineOf_ne_nil l

/-- Joined lines are a prefix of the same lines each with its newline. -/
theorem ser_prefixOf_body {runner : Nat} {lines : List (Bytes × Bytes)} (h : Valid runner lines) :
    ser lines <+: bodyOf lines := by
  rw [ser_valid h, bodyOf]
  clear h
  induction lines with
  | nil => exact List.prefix_rfl
  | cons l lines ih =>
    cases lines with
    | nil => simp
    | cons l' lines =>
      rw [List.map_cons, List.map_cons, List.intercalate_cons_cons, List.flatMap_cons,
        ← List.map_cons, List.append_assoc, List.append_assoc]
      exact (List.prefix_append_right_inj _).mpr ((List.prefix_append_right_inj _).mpr ih)

theorem cString_ser {runner : Nat} {lines : List (Bytes × Bytes)} (h : Valid runner lines) :
    cString (ser lines) = ser lines := by
  have hbody := List.takeWhile_eq_self_iff.mp (cString_bodyOf h)
  exact List.takeWhile_eq_self_iff.mpr fun c hc ↦ hbody c ((ser_prefixOf_body h).subset hc)

/-! ## There and back -/

/-- A saved text is read back with its lines, the page's object is those lines and no others, and
what the page sends for the object is saved as the file that is there. -/
def RoundTrip (disk : Disk) (path : Bytes) (read : Option Bytes)
    (page : Bytes → Option (List (Bytes × Bytes))) (save : Bytes → Option Disk) (text : Bytes) :
    Prop :=
  ∃ out d disk', read = some out ∧ out = (settingLines text).flatMap (· ++ [10]) ∧
    page out = some d ∧ d.map lineOf = settingLines text ∧
    save (ser d) = some disk' ∧ disk'.entry path = disk.entry path

theorem mem_lineOf_iff {runner : Nat} {lines : List (Bytes × Bytes)} (h : Valid runner lines)
    {l : Bytes × Bytes} (hl : l ∈ lines) : (59 : UInt8) ∈ lineOf l ↔ (59 : UInt8) ∈ l.2 := by
  obtain ⟨i, hi, -⟩ := h.each l hl
  have hkey := List.all_eq_true.mp (key_bytes hi).1
  rw [lineOf, List.mem_append, List.mem_cons]
  constructor
  · rintro (hm | hm | hm)
    · exact absurd (hkey _ hm) (by decide)
    · exact absurd hm (by decide)
    · exact hm
  · exact fun hm ↦ .inr (.inr hm)

/-- The round trip of a saved file loses nothing exactly when no line of it has a `;`. -/
theorem roundTrip_iff {disk : Disk} {path : Bytes} {runner : Nat} {text : Bytes}
    {lines : List (Bytes × Bytes)} (h : Valid runner lines)
    (hlines : settingLines text = lines.map lineOf)
    (hentry : disk.entry path = .file (bodyOf lines)) (hwritable : disk.writable path = true)
    (hlen : (bodyOf lines).length ≤ npDefaultsTextMax)
    {read : Option Bytes} {page : Bytes → Option (List (Bytes × Bytes))}
    {save : Bytes → Option Disk} (hread : read = some (bodyOf lines))
    (hpage : page (bodyOf lines) = settingsObject (settingsLiteral (some (bodyOf lines))))
    (hsave : ∀ sent, save sent = saveFile disk path runner (some sent)) :
    RoundTrip disk path read page save text ↔ ∀ line ∈ settingLines text, (59 : UInt8) ∉ line := by
  rw [settingsObject_bodyOf h] at hpage
  constructor
  · rintro ⟨out, d, disk', hout, -, hd, hsame, -⟩
    rw [hread, Option.some.injEq] at hout
    rw [← hout, hpage, Option.some.injEq] at hd
    have hlength : d.length = lines.length := by
      simpa [hlines] using congrArg List.length hsame
    -- The page drops lines and adds none, so equal numbers are equal lists.
    have hall : lines.filter (fun l ↦ decide ((59 : UInt8) ∉ l.2)) = lines :=
      List.filter_sublist.eq_of_length (hd ▸ hlength)
    intro line hline
    rw [hlines] at hline
    obtain ⟨l, hl, rfl⟩ := List.mem_map.mp hline
    rw [mem_lineOf_iff h hl]
    exact of_decide_eq_true (List.filter_eq_self.mp hall l hl)
  · intro hno
    have hall : lines.filter (fun l ↦ decide ((59 : UInt8) ∉ l.2)) = lines := by
      refine List.filter_eq_self.mpr fun l hl ↦ decide_eq_true ?_
      rw [← mem_lineOf_iff h hl]
      exact hno _ (hlines ▸ List.mem_map_of_mem hl)
    have hser : (cString (ser lines)).length ≤ npDefaultsTextMax := by
      rw [cString_ser h]
      exact (ser_prefixOf_body h).length_le.trans hlen
    have hbody := checkedBody_valid h (by rw [cString_ser h, settingLines_ser h]) hser hlen
    have hw : writeLocked disk path (bodyOf lines) = some _ := if_pos hwritable
    refine ⟨bodyOf lines, lines, _, hread, ?_, hpage.trans (congrArg some hall), hlines.symm, ?_,
      (writeLocked_entry hw).1.trans hentry.symm⟩
    · rw [hlines, List.flatMap_map]
      rfl
    · rw [hsave, saveFile, hbody]
      exact hw

theorem saveFile_some {disk disk' : Disk} {path text : Bytes} {runner : Nat}
    (h : saveFile disk path runner (some text) = some disk') :
    ∃ lines, Valid runner lines ∧ settingLines (cString text) = lines.map lineOf ∧
      (bodyOf lines).length ≤ npDefaultsTextMax ∧ disk'.entry path = .file (bodyOf lines) ∧
      disk'.home = disk.home ∧ disk'.writable path = true := by
  unfold saveFile at h
  split at h
  · cases h
  next body hbody =>
  obtain ⟨lines, hvalid, hlines, rfl, hlen⟩ := checkedBody_some hbody
  obtain ⟨hentry, hhome, hwritable, hpath⟩ := writeLocked_entry h
  exact ⟨lines, hvalid, hlines, hlen, hentry, hhome, hwritable ▸ hpath⟩

/-- The text the page gets for a runner's set and the other runner's. -/
def defaultsText (runner : Nat) (own other : Option Bytes) : Option Bytes :=
  if runner = npDefaultsFex then npWebpatchSetDefaults other own else npWebpatchSetDefaults own other

/-- What was saved for a runner, or for one build, goes to the page and back unchanged exactly when
no line of it has a `;`, which only a `DXMT_CONFIG` of two clauses has. -/
theorem saved_roundTrip_iff (disk disk' : Disk) (runner : Nat) (text : Bytes) :
    (∀ other : Option Bytes, npDefaultsSave disk runner (some text) = some disk' →
      (RoundTrip disk' (defaultsPath disk' runner) (npDefaultsRead disk' runner npDefaultsTextMax)
          (fun out ↦ (defaultsText runner (some out) other).bind (pageDefaults · runner))
          (fun sent ↦ npDefaultsSave disk' runner (some sent)) (cString text) ↔
        ∀ line ∈ settingLines (cString text), (59 : UInt8) ∉ line)) ∧
    (∀ (before after : List NpWebpatchBuild) (b : NpWebpatchBuild),
      npDefaultsSaveBuild disk b.build runner (some text) = some disk' → b.shown = true →
      (before ++ b :: after).length ≤ npWebpatchBuildsMax →
      ((before ++ b :: after).map NpWebpatchBuild.tool).Nodup →
      (RoundTrip disk' (buildPath disk' b.build runner)
          (match npDefaultsReadBuild disk' b.build runner npDefaultsTextMax with
            | .own out => some out
            | _ => none)
          (fun out ↦ (npWebpatchSetBuilds (before ++ { b with override := some out } :: after)).bind
            (pageOverride · b.tool))
          (fun sent ↦ npDefaultsSaveBuild disk' b.build runner (some sent)) (cString text) ↔
        ∀ line ∈ settingLines (cString text), (59 : UInt8) ∉ line)) := by
  constructor
  · intro other hsaved
    unfold npDefaultsSave at hsaved
    split at hsaved
    · cases hsaved
    next hrunner =>
    obtain ⟨lines, hvalid, hlines, hlen, hentry, hhome, hwritable⟩ := saveFile_some hsaved
    have hpath : defaultsPath disk' runner = defaultsPath disk runner := by
      unfold defaultsPath
      rw [hhome]
    rw [← hpath] at hentry hwritable
    refine roundTrip_iff hvalid hlines hentry hwritable hlen ?_ ?_ fun sent ↦ ?_
    · rw [npDefaultsRead, if_neg hrunner, readLines_bodyOf hvalid hentry hlen]
    · show (defaultsText runner (some (bodyOf lines)) other).bind (pageDefaults · runner) = _
      unfold defaultsText
      split
      next hfex => rw [pageDefaults_eq, if_pos hfex]
      next hfex => rw [pageDefaults_eq, if_neg hfex]
    · rw [npDefaultsSave, if_neg hrunner]
  · intro before after b hsaved hshown hcount hnodup
    unfold npDefaultsSaveBuild at hsaved
    split at hsaved
    · cases hsaved
    next hrunner =>
    split at hsaved
    · cases hsaved
    next hbuild =>
    obtain ⟨lines, hvalid, hlines, hlen, hentry, hhome, hwritable⟩ := saveFile_some hsaved
    have hpath : buildPath disk' b.build runner = buildPath disk b.build runner := by
      unfold buildPath
      rw [hhome]
    rw [← hpath] at hentry hwritable
    refine roundTrip_iff hvalid hlines hentry hwritable hlen ?_ ?_ fun sent ↦ ?_
    · -- The build's own file is there now, so the default of the runner is not shown in its place.
      have hregular : isRegular disk' (buildPath disk' b.build runner) = true := by
        rw [isRegular, hentry]
      have hread := readLines_bodyOf hvalid hentry hlen
      obtain ⟨t, ht, htext⟩ := Option.map_eq_some_iff.mp hread
      have hok : ¬ (npDefaultsFex < runner ∨ npIsBuildId b.build = false) :=
        not_or.mpr ⟨hrunner, hbuild⟩
      simp only [npDefaultsReadBuild, if_neg hok, hregular, ht, htext, Bool.true_eq_false, if_false]
    · have hmem : ({ b with override := some (bodyOf lines) } : NpWebpatchBuild) ∈
          before ++ { b with override := some (bodyOf lines) } :: after :=
        List.mem_append_right _ List.mem_cons_self
      exact pageOverride_eq hmem hshown (by simpa using hcount) (by simpa using hnodup)
    · rw [npDefaultsSaveBuild, if_neg hrunner, if_neg hbuild]


def twoClauses : Bytes :=
  ascii "DXMT_CONFIG=d3d11.metalSpatialUpscaleFactor=1.5;d3d11.preferredMaxFrameRate=60"

def emptyDisk : Disk := ⟨some (ascii "/u"), fun _ ↦ .missing, fun _ ↦ true⟩

def threeLines : Bytes := ascii "WINEMSYNC=0\n\nDXMT_CONFIG=d3d11.preferredMaxFrameRate=60\nMTL_HUD_ENABLED=1\n"

/-- The second of three builds. -/
def someBuild : NpWebpatchBuild := ⟨ascii "np-fex", ascii "26.1", ascii "CrossOver 26.1 (FEX)", true, none⟩

def buildBefore : NpWebpatchBuild := ⟨ascii "np", ascii "26.1", ascii "CrossOver 26.1", false, some (ascii "WINEMSYNC=1\n")⟩

def buildAfter : NpWebpatchBuild := ⟨ascii "np-25", ascii "25.0", ascii "CrossOver 25", false, none⟩

/-- Three lines make the whole way, as a runner's set and as a build's own. -/
theorem saved_roundTrip_threeLines :
    (∃ disk', npDefaultsSave emptyDisk npDefaultsRosetta (some threeLines) = some disk' ∧
      RoundTrip disk' (defaultsPath disk' npDefaultsRosetta)
        (npDefaultsRead disk' npDefaultsRosetta npDefaultsTextMax)
        (fun out ↦ (defaultsText npDefaultsRosetta (some out) (some twoClauses)).bind
          (pageDefaults · npDefaultsRosetta))
        (fun sent ↦ npDefaultsSave disk' npDefaultsRosetta (some sent)) (cString threeLines)) ∧
    ∃ disk', npDefaultsSaveBuild emptyDisk someBuild.build npDefaultsFex (some threeLines) = some disk' ∧
      RoundTrip disk' (buildPath disk' someBuild.build npDefaultsFex)
        (match npDefaultsReadBuild disk' someBuild.build npDefaultsFex npDefaultsTextMax with
          | .own out => some out
          | _ => none)
        (fun out ↦ (npWebpatchSetBuilds ([buildBefore] ++ { someBuild with override := some out } :: [buildAfter])).bind
          (pageOverride · someBuild.tool))
        (fun sent ↦ npDefaultsSaveBuild disk' someBuild.build npDefaultsFex (some sent)) (cString threeLines) := by
  have hno : ∀ line ∈ settingLines (cString threeLines), (59 : UInt8) ∉ line := by decide
  have hruns : (npDefaultsSave emptyDisk npDefaultsRosetta (some threeLines)).isSome = true ∧
      (npDefaultsSaveBuild emptyDisk someBuild.build npDefaultsFex (some threeLines)).isSome = true := by decide
  obtain ⟨disk', hsaved⟩ := Option.isSome_iff_exists.mp hruns.1
  obtain ⟨disk'', hsaved'⟩ := Option.isSome_iff_exists.mp hruns.2
  apply And.intro
  · exact ⟨disk', hsaved, ((saved_roundTrip_iff _ _ _ _).1 _ hsaved).mpr hno⟩
  · exact ⟨disk'', hsaved', ((saved_roundTrip_iff _ _ _ _).2 [buildBefore] [buildAfter] someBuild hsaved' (by decide)
      (by decide) (by decide)).mpr hno⟩

/-- A factor and a frame rate together are saved and read back, and the page is shown nothing. -/
theorem twoClauses_not_shown :
    ∃ disk', npDefaultsSave emptyDisk npDefaultsRosetta (some twoClauses) = some disk' ∧
      npDefaultsRead disk' npDefaultsRosetta npDefaultsTextMax = some (twoClauses ++ [10]) ∧
      (defaultsText npDefaultsRosetta (some (twoClauses ++ [10])) (some [])).bind
        (pageDefaults · npDefaultsRosetta) = some [] ∧
      ¬ RoundTrip disk' (defaultsPath disk' npDefaultsRosetta)
        (npDefaultsRead disk' npDefaultsRosetta npDefaultsTextMax)
        (fun out ↦ (defaultsText npDefaultsRosetta (some out) (some [])).bind
          (pageDefaults · npDefaultsRosetta))
        (fun sent ↦ npDefaultsSave disk' npDefaultsRosetta (some sent)) twoClauses := by
  have hread : (npDefaultsSave emptyDisk npDefaultsRosetta (some twoClauses)).bind (fun disk' ↦
      npDefaultsRead disk' npDefaultsRosetta npDefaultsTextMax) = some (twoClauses ++ [10]) := by
    decide
  have hpage : (defaultsText npDefaultsRosetta (some (twoClauses ++ [10])) (some [])).bind
      (pageDefaults · npDefaultsRosetta) = some [] := by
    decide
  obtain ⟨disk', hsaved, hread⟩ := Option.bind_eq_some_iff.mp hread
  refine ⟨disk', hsaved, hread, hpage, ?_⟩
  rintro ⟨out, d, -, hout, -, hd, hlines, -⟩
  rw [hread, Option.some.injEq] at hout
  rw [← hout] at hd
  have hnone : [] = d := Option.some.inj (hpage.symm.trans hd)
  rw [← hnone] at hlines
  exact absurd hlines (by decide)

end NotProton.WebPatch
