import NotProton.Library.Wire

/-!
# ToolsReply — the answer to `GetCompatTools` (`compatsvc.c`)

The writer keeps the bytes it has written, which fit its buffer.  What the client looks up for an app
(the platforms, the resolved tool, the mapping, the fallback) is part of the manager here.
-/

open NotProton.Library

namespace NotProton.CompatSvc

def toolName : Nat := 1
def toolDisplayName : Nat := 2
def toolIsDefault : Nat := 3
def toolIsActive : Nat := 4
def toolIsLegacy : Nat := 5
def toolIsIncompatible : Nat := 6

def respTools : Nat := 1
def respSelected : Nat := 3
def respDefault : Nat := 4

def wireVarint : Nat := 0
def wireBytes : Nat := 2

def toolMax : Nat := 512

def compatPlatformWindows : BitVec 32 := 1
def compatToolGateHidden : BitVec 32 := 1
def platformsUnscoped : BitVec 32 := compatPlatformWindows

def resultOk : Nat := 1
def resultFail : Nat := 2
def resultIsATool : Nat := 128

/-- `NP_COMPAT_TOOL_NONE` -/
def compatToolNone : Bytes := ascii "notproton.none"

/-- `TOOL_NONE_LABEL` -/
def toolNoneLabel : Bytes := ascii "No Compatibility Tool"

/-! ## The writer -/

/-- `np_pb_t` -/
structure Pb where
  cap : Nat
  buf : Bytes
  ok : Bool
  fits : buf.length ≤ cap

def Pb.empty (cap : Nat) : Pb := ⟨cap, [], true, Nat.zero_le cap⟩

def pbByte (w : Pb) (b : UInt8) : Pb :=
  if h : w.buf.length ≥ w.cap then { w with ok := false }
  else { w with buf := w.buf ++ [b], fits := by simp only [List.length_append, List.length_singleton]; omega }

/-- The loop of `pb_varint`. -/
def pbVarint (w : Pb) (v : Nat) : Pb :=
  let b := UInt8.ofNat (v % 128)
  let w := pbByte w (if v / 128 ≠ 0 then b ||| 0x80 else b)
  if v / 128 ≠ 0 ∧ w.ok = true then pbVarint w (v / 128) else w
termination_by v
decreasing_by omega

def pbTag (w : Pb) (field wire : Nat) : Pb := pbVarint w (field * 8 + wire)

/-- The loop of `pb_blob`. -/
def pbBytes (w : Pb) : Bytes → Pb
  | [] => w
  | b :: bytes => if w.ok then pbBytes (pbByte w b) bytes else w

def pbBlob (w : Pb) (field : Nat) (bytes : Bytes) : Pb :=
  pbBytes (pbVarint (pbTag w field wireBytes) bytes.length) bytes

def pbString (w : Pb) (field : Nat) (str : Option Bytes) : Pb :=
  match str with
  | none => w
  | some str => pbBlob w field str

def pbBool (w : Pb) (field : Nat) (set : Bool) : Pb :=
  pbVarint (pbTag w field wireVarint) (if set then 1 else 0)

def pbTool (w : Pb) (respField : Nat) (name display : Option Bytes) (isActive isIncompatible : Bool) : Pb :=
  let t := Pb.empty toolMax
  let t := pbString t toolName name
  let t := pbString t toolDisplayName display
  let t := pbBool t toolIsDefault false
  let t := pbBool t toolIsActive isActive
  let t := pbBool t toolIsLegacy false
  let t := pbBool t toolIsIncompatible isIncompatible
  if t.ok then pbBlob w respField t.buf else { w with ok := false }

/-! ## The tools -/

/-- The fields of a tool of the manager that the reply reads; a name that is not set is `none`. -/
structure Tool where
  name : Option Bytes
  display : Option Bytes
  platform : BitVec 32
  gate : BitVec 32
  priority : Int
  appid : Nat

/-- The manager as this function sees it, and what the client finds for an app.  `array` is `none` where the manager
has no list, `bypass` is the flag after the one for enabled tools. -/
structure Manager where
  array : Option (List Tool)
  toolsMax : Nat
  bypass : Bool
  validPlatforms : Nat → BitVec 32
  toolForApp : Nat → Option Bytes
  appMapping : Nat → Option Bytes
  chosenTool : Option Bytes
  wildcardMapping : Nat → Option Bytes
  wouldForce : Nat → Bool
  registeredTool : Option Bytes

def offered (tool : Tool) (platforms : BitVec 32) (bypass : Bool) : Bool :=
  if platforms &&& tool.platform = 0 then false
  else if tool.gate &&& compatToolGateHidden ≠ 0 && !bypass then false
  else true

def platformsFor (mgr : Manager) (appid : Nat) : BitVec 32 :=
  if appid ≠ 0 then mgr.validPlatforms appid else platformsUnscoped

def chosenFor (mgr : Manager) (appid : Nat) : Option Bytes :=
  if appid ≠ 0 then mgr.appMapping appid else mgr.chosenTool

def holdsNone (mgr : Manager) (appid : Nat) : Bool := chosenFor mgr appid = some compatToolNone

def fallbackFor (mgr : Manager) (appid : Nat) : Option Bytes :=
  match mgr.wildcardMapping appid with
  | some name => some name
  | none => if appid = 0 ∨ mgr.wouldForce appid = true then mgr.registeredTool else none

/-- The highest priority of the tools, at least 0. -/
def bestPriority (tools : List Tool) : Int := tools.foldl (fun best t ↦ if t.priority > best then t.priority else best) 0

/-- The loop over the tools; `none` once an entry does not fit. -/
def listTools (mgr : Manager) (appid : Nat) (best : Int) (w : Pb) : List Tool → Option Pb
  | [] => some w
  | tool :: tools =>
    if !offered tool (platformsFor mgr appid) mgr.bypass then listTools mgr appid best w tools
    else
      match tool.name with
      | none => listTools mgr appid best w tools
      | some name =>
        let w := pbTool w respTools (some name) tool.display (mgr.toolForApp appid = some name)
          (best ≠ 0 ∧ tool.priority ≠ best ∧ tool.priority > 0)
        if !w.ok then none else listTools mgr appid best w tools

/-- The body of the reply, `none` where it does not fit. -/
def replyBody (mgr : Manager) (appid : Nat) (tools : List Tool) : Option Pb :=
  (listTools mgr appid (bestPriority tools) (Pb.empty ((tools.length + 3) * toolMax)) tools).bind fun w ↦
    let w := if appid ≠ 0 ∧ ((fallbackFor mgr appid).isSome ∨ holdsNone mgr appid) then
        pbTool w respTools (some compatToolNone) (some toolNoneLabel) (holdsNone mgr appid) false
      else w
    if !w.ok then none
    else
      let w := pbString w respSelected (some ((chosenFor mgr appid).getD []))
      let w := pbString w respDefault (fallbackFor mgr appid)
      if !w.ok then none else some w

/-- `CCompatManager_GetCompatTools_Request` -/
structure Request where
  hasAppid : Bool
  appid : Nat

def Request.app (request : Request) : Nat := if request.hasAppid then request.appid else 0

/-- What the page gets, and the bytes that were handed to the client's parser. -/
structure Reply where
  result : Nat
  parsed : Option Bytes

/-- `get_compat_tools`; `allocated` is that there is memory for the body, `parses` the client's parser. -/
def getCompatTools (mgr : Option Manager) (request : Request) (allocated : Bool) (parses : Bytes → Bool) : Reply :=
  let appid := request.app
  match mgr with
  | none => ⟨resultOk, none⟩
  | some mgr =>
    match mgr.array with
    | none => ⟨resultFail, none⟩
    | some tools =>
      if tools.length > mgr.toolsMax then ⟨resultFail, none⟩
      else if appid ≠ 0 ∧ !mgr.bypass ∧ tools.any (·.appid = appid) then ⟨resultIsATool, none⟩
      else if !allocated then ⟨resultFail, none⟩
      else
        match replyBody mgr appid tools with
        | none => ⟨resultFail, none⟩
        | some w =>
          -- the length goes to the parser as 32 bits
          let bytes := w.buf.take (w.buf.length % 2 ^ 32)
          ⟨if parses bytes then resultOk else resultFail, some bytes⟩

/-! ## The messages it declares -/

structure Entry where
  name : Option Bytes
  displayName : Option Bytes
  isDefault : Option Bool
  isActive : Option Bool
  isLegacy : Option Bool
  isIncompatible : Option Bool
  deriving DecidableEq

structure Response where
  tools : List Entry
  selected : Option Bytes
  default : Option Bytes
  deriving DecidableEq

/-- The texts of the fields with a number, in their order. -/
def blobs (fields : List WireField) (number : Nat) : List Bytes :=
  fields.filterMap fun f ↦
    match f.value with
    | .blob s => if f.number = number then some s else none
    | .varint _ => none

def bools (fields : List WireField) (number : Nat) : List Bool :=
  fields.filterMap fun f ↦
    match f.value with
    | .blob _ => none
    | .varint n => if f.number = number then some (n ≠ 0) else none

/-- Of a field that is not repeated the last one counts. -/
def decodeEntry (s : Bytes) : Option Entry :=
  (readFields s).map fun fields ↦
    { name := (blobs fields toolName).getLast?
      displayName := (blobs fields toolDisplayName).getLast?
      isDefault := (bools fields toolIsDefault).getLast?
      isActive := (bools fields toolIsActive).getLast?
      isLegacy := (bools fields toolIsLegacy).getLast?
      isIncompatible := (bools fields toolIsIncompatible).getLast? }

def decodeResponse (s : Bytes) : Option Response :=
  (readFields s).bind fun fields ↦
    ((blobs fields respTools).mapM decodeEntry).map fun tools ↦
      { tools := tools
        selected := (blobs fields respSelected).getLast?
        default := (blobs fields respDefault).getLast? }

/-! ## What the page should get -/

def entry (name display : Option Bytes) (isActive isIncompatible : Bool) : Entry :=
  ⟨name, display, some false, some isActive, some false, some isIncompatible⟩

/-- The offered tools that have a name. -/
def offeredEntries (mgr : Manager) (appid : Nat) (best : Int) (tools : List Tool) : List Entry :=
  tools.filterMap fun tool ↦
    if offered tool (platformsFor mgr appid) mgr.bypass then
      tool.name.map fun name ↦
        entry (some name) tool.display (mgr.toolForApp appid = some name)
          (best ≠ 0 ∧ tool.priority ≠ best ∧ tool.priority > 0)
    else none

/-- The entry for using no tool. -/
def noneEntry (mgr : Manager) (appid : Nat) : List Entry :=
  if appid ≠ 0 ∧ ((fallbackFor mgr appid).isSome ∨ holdsNone mgr appid) then
    [entry (some compatToolNone) (some toolNoneLabel) (holdsNone mgr appid) false]
  else []

def entriesFor (mgr : Manager) (appid : Nat) : List Entry :=
  let tools := mgr.array.getD []
  offeredEntries mgr appid (bestPriority tools) tools ++ noneEntry mgr appid

def responseFor (mgr : Manager) (appid : Nat) : Response :=
  ⟨entriesFor mgr appid, some ((chosenFor mgr appid).getD []), fallbackFor mgr appid⟩

def Entry.fields (e : Entry) : List WireField :=
  e.name.toList.map (fun s ↦ ⟨toolName, .blob s⟩) ++ e.displayName.toList.map (fun s ↦ ⟨toolDisplayName, .blob s⟩) ++
    e.isDefault.toList.map (fun b ↦ ⟨toolIsDefault, .varint b.toNat⟩) ++
    e.isActive.toList.map (fun b ↦ ⟨toolIsActive, .varint b.toNat⟩) ++
    e.isLegacy.toList.map (fun b ↦ ⟨toolIsLegacy, .varint b.toNat⟩) ++
    e.isIncompatible.toList.map (fun b ↦ ⟨toolIsIncompatible, .varint b.toNat⟩)

def Entry.bytes (e : Entry) : Bytes := e.fields.flatMap WireField.bytes

def Response.fields (r : Response) : List WireField :=
  r.tools.map (fun e ↦ ⟨respTools, .blob e.bytes⟩) ++ r.selected.toList.map (fun s ↦ ⟨respSelected, .blob s⟩) ++
    r.default.toList.map (fun s ↦ ⟨respDefault, .blob s⟩)

def Response.bytes (r : Response) : Bytes := r.fields.flatMap WireField.bytes

/-- Each entry fits its buffer, and the reply the room made for it. -/
def Fits (mgr : Manager) (appid : Nat) : Prop :=
  (∀ e ∈ entriesFor mgr appid, e.bytes.length ≤ toolMax) ∧
    (responseFor mgr appid).bytes.length ≤ ((mgr.array.getD []).length + 3) * toolMax

/-- The manager has a list that can be read, the app is no tool of it, and there is memory. -/
def Listed (mgr : Manager) (appid : Nat) (allocated : Bool) : Prop :=
  (∃ tools, mgr.array = some tools ∧ tools.length ≤ mgr.toolsMax ∧
    ¬ (appid ≠ 0 ∧ mgr.bypass = false ∧ tools.any (·.appid = appid) = true)) ∧ allocated = true

/-! ## Reading a message back -/

theorem blobs_append (fs gs : List WireField) (number : Nat) : blobs (fs ++ gs) number = blobs fs number ++ blobs gs number :=
  List.filterMap_append

theorem blobs_map (number n : Nat) (l : List Bytes) :
    blobs (l.map fun s ↦ ⟨n, .blob s⟩) number = if n = number then l else [] := by
  rw [blobs, List.filterMap_map]
  split_ifs with h
  · have hsome : ∀ s ∈ l, ((fun f : WireField ↦ match f.value with
        | .blob s => if f.number = number then some s else none
        | .varint _ => none) ∘ fun s ↦ ⟨n, .blob s⟩) s = some s := fun s _ ↦ if_pos h
    rw [List.filterMap_congr hsome, List.filterMap_some]
  · exact List.filterMap_eq_nil_iff.mpr fun s _ ↦ if_neg h

theorem blobs_map_varint (number n : Nat) (l : List Bool) :
    blobs (l.map fun b ↦ ⟨n, .varint b.toNat⟩) number = [] := by
  rw [blobs, List.filterMap_map]
  exact List.filterMap_eq_nil_iff.mpr fun b _ ↦ rfl

theorem bools_append (fs gs : List WireField) (number : Nat) : bools (fs ++ gs) number = bools fs number ++ bools gs number :=
  List.filterMap_append

theorem bools_map (number n : Nat) (l : List Bool) :
    bools (l.map fun b ↦ ⟨n, .varint b.toNat⟩) number = if n = number then l else [] := by
  rw [bools, List.filterMap_map]
  split_ifs with h
  · have hsome : ∀ b ∈ l, ((fun f : WireField ↦ match f.value with
        | .blob _ => none
        | .varint n => if f.number = number then some (decide (n ≠ 0)) else none) ∘
          fun b : Bool ↦ ⟨n, .varint b.toNat⟩) b = some b := by
      intro b _
      exact (if_pos h).trans (by cases b <;> rfl)
    rw [List.filterMap_congr hsome, List.filterMap_some]
  · exact List.filterMap_eq_nil_iff.mpr fun b _ ↦ if_neg h

theorem bools_map_blob (number n : Nat) (l : List Bytes) : bools (l.map fun s ↦ ⟨n, .blob s⟩) number = [] := by
  rw [bools, List.filterMap_map]
  exact List.filterMap_eq_nil_iff.mpr fun s _ ↦ rfl

theorem toList_getLast? {α : Type} (o : Option α) : o.toList.getLast? = o := by
  cases o <;> rfl

theorem decodeEntry_bytes (e : Entry) : decodeEntry e.bytes = some e := by
  rw [decodeEntry, Entry.bytes, readFields_bytes, Option.map_some]
  simp only [Entry.fields, blobs_append, blobs_map, blobs_map_varint, bools_append, bools_map, bools_map_blob]
  simp [toolName, toolDisplayName, toolIsDefault, toolIsActive, toolIsLegacy, toolIsIncompatible, toList_getLast?]

theorem Response.fields_eq (r : Response) :
    r.fields = (r.tools.map Entry.bytes).map (fun s ↦ (⟨respTools, .blob s⟩ : WireField)) ++
      r.selected.toList.map (fun s ↦ ⟨respSelected, .blob s⟩) ++ r.default.toList.map (fun s ↦ ⟨respDefault, .blob s⟩) := by
  rw [List.map_map]
  rfl

theorem decodeResponse_bytes (r : Response) : decodeResponse r.bytes = some r := by
  have htools : (r.tools.map Entry.bytes).mapM decodeEntry = some r.tools := by
    induction r.tools with
    | nil => rfl
    | cons e tools ih => simp [List.mapM_cons, decodeEntry_bytes, ih]
  have hnumbers : respTools ≠ respSelected ∧ respTools ≠ respDefault ∧ respSelected ≠ respDefault := by decide
  rw [decodeResponse, Response.bytes, readFields_bytes, Option.bind_some, Response.fields_eq]
  simp only [blobs_append, blobs_map, if_true, hnumbers.1, hnumbers.1.symm, hnumbers.2.1, hnumbers.2.1.symm,
    hnumbers.2.2, hnumbers.2.2.symm, if_false, List.append_nil, List.nil_append, htools, Option.map_some,
    toList_getLast?]

/-- A reply that breaks off is not read as the whole one. -/
theorem decodeResponse_ne {r : Response} (hsel : r.selected.isSome = true) {s : Bytes} (hpre : s <+: r.bytes)
    (hne : s ≠ r.bytes) : decodeResponse s ≠ some r := by
  intro hdecode
  obtain ⟨fs, hfs, htools⟩ := Option.bind_eq_some_iff.mp hdecode
  obtain ⟨tools, -, heq⟩ := Option.map_eq_some_iff.mp htools
  obtain ⟨gs, hgs, hwhole⟩ := readFields_prefix hpre hfs
  have hcut : gs ≠ [] := fun hnil ↦ hne (hwhole.mpr hnil)
  -- the last field is there once, and it is among those that are missing
  have hlast : ∀ front number x, r.fields = front ++ [⟨number, .blob x⟩] → blobs front number = [] →
      (blobs fs number).getLast? = none := by
    intro front number x hfields hfront
    have hinit : fs ++ gs.dropLast = front := by
      have hdrop := congrArg List.dropLast (hgs.symm.trans hfields)
      rwa [List.dropLast_append_of_ne_nil hcut, List.dropLast_concat] at hdrop
    have hnil : blobs fs number ++ blobs gs.dropLast number = [] := by rw [← blobs_append, hinit, hfront]
    rw [(List.append_eq_nil_iff.mp hnil).1]
    rfl
  have hnumbers : respTools ≠ respSelected ∧ respTools ≠ respDefault ∧ respSelected ≠ respDefault := by decide
  have hfields := r.fields_eq
  obtain ⟨chosen, hchosen⟩ := Option.isSome_iff_exists.mp hsel
  cases hdefault : r.default with
  | none =>
    rw [hdefault, hchosen, Option.toList_none, List.map_nil, List.append_nil] at hfields
    have hnone := hlast _ _ _ hfields (by rw [blobs_map, if_neg hnumbers.1])
    rw [← heq, hnone] at hchosen
    cases hchosen
  | some fallback =>
    rw [hdefault, hchosen] at hfields
    have hnone := hlast _ _ _ hfields (by
      rw [blobs_append, blobs_map, blobs_map, if_neg hnumbers.2.1, if_neg hnumbers.2.2, List.append_nil])
    rw [← heq, hnone] at hdefault
    cases hdefault

/-! ## What the writer wrote -/

/-- The writer went on by `s`, or it failed: it lacked room, or `p` did not hold. -/
structure Wrote (p : Prop) (w w' : Pb) (s : Bytes) : Prop where
  cap : w'.cap = w.cap
  ok : w'.ok = true ↔ p ∧ w.ok = true ∧ w.buf.length + s.length ≤ w.cap
  buf : w'.ok = true → w'.buf = w.buf ++ s

theorem Wrote.nil (w : Pb) : Wrote True w w [] := by
  refine ⟨rfl, ?_, fun _ ↦ (List.append_nil _).symm⟩
  have hfits := w.fits
  simp only [List.length_nil, Nat.add_zero, hfits, and_true, true_and]

theorem Wrote.append {p q : Prop} {w w₁ w₂ : Pb} {s t : Bytes} (h : Wrote p w w₁ s) (h' : Wrote q w₁ w₂ t) :
    Wrote (p ∧ q) w w₂ (s ++ t) := by
  have hlen : w₁.ok = true → w₁.buf.length = w.buf.length + s.length := fun hok ↦ by
    rw [h.buf hok, List.length_append]
  refine ⟨h'.cap.trans h.cap, ?_, ?_⟩
  · rw [h'.ok, h.cap, List.length_append]
    constructor
    · rintro ⟨hq, hok, hroom⟩
      obtain ⟨hp, hw, -⟩ := h.ok.mp hok
      rw [hlen hok] at hroom
      exact ⟨⟨hp, hq⟩, hw, by omega⟩
    · rintro ⟨⟨hp, hq⟩, hw, hroom⟩
      have hok := h.ok.mpr ⟨hp, hw, by omega⟩
      rw [hlen hok]
      exact ⟨hq, hok, by omega⟩
  · intro hok
    rw [h'.buf hok, h.buf (h'.ok.mp hok).2.1, List.append_assoc]

theorem Wrote.of_iff {p q : Prop} {w w' : Pb} {s : Bytes} (h : Wrote p w w' s) (hpq : p ↔ q) : Wrote q w w' s :=
  ⟨h.cap, by rw [h.ok, hpq], h.buf⟩

theorem wrote_pbByte (w : Pb) (b : UInt8) : Wrote True w (pbByte w b) [b] := by
  unfold pbByte
  split_ifs with hfull
  · refine ⟨rfl, ?_, fun hok ↦ absurd hok Bool.false_ne_true⟩
    simp only [Bool.false_eq_true, List.length_singleton, true_and, false_iff]
    omega
  · refine ⟨rfl, ?_, fun _ ↦ rfl⟩
    simp only [List.length_singleton, true_and]
    constructor
    · exact fun hok ↦ ⟨hok, by omega⟩
    · exact And.left

theorem or_continue {n : Nat} (h : n < 128) : UInt8.ofNat n ||| 0x80 = UInt8.ofNat (n + 128) := by
  have hall : ∀ n < 128, UInt8.ofNat n ||| 0x80 = UInt8.ofNat (n + 128) := by decide
  exact hall n h

theorem wrote_pbVarint (w : Pb) (v : Nat) : Wrote True w (pbVarint w v) (uleb v) := by
  induction v using Nat.strong_induction_on generalizing w with
  | h v ih =>
    rw [pbVarint, uleb]
    by_cases hlast : v < 128
    · have hzero : v / 128 = 0 := by omega
      rw [if_pos hlast, hzero, if_neg (by simp), if_neg (by simp), Nat.mod_eq_of_lt hlast]
      exact wrote_pbByte w _
    · have hmore : v / 128 ≠ 0 := by omega
      rw [if_neg hlast, if_pos hmore, or_continue (Nat.mod_lt v (by decide))]
      have hbyte := wrote_pbByte w (UInt8.ofNat (v % 128 + 128))
      by_cases hok : (pbByte w (UInt8.ofNat (v % 128 + 128))).ok = true
      · rw [if_pos ⟨hmore, hok⟩]
        exact (hbyte.append (ih (v / 128) (by omega) _)).of_iff (and_self_iff)
      · -- the loop ends once a byte had no room
        rw [if_neg fun h ↦ hok h.2]
        refine ⟨hbyte.cap, ?_, fun h ↦ absurd h hok⟩
        have hroom := mt hbyte.ok.mpr hok
        constructor
        · exact fun h ↦ absurd h hok
        · rintro ⟨-, hw, hle⟩
          rw [List.length_cons] at hle
          exact absurd ⟨trivial, hw, by simp only [List.length_singleton]; omega⟩ hroom

theorem wrote_pbBytes (w : Pb) (s : Bytes) : Wrote True w (pbBytes w s) s := by
  induction s generalizing w with
  | nil => exact .nil w
  | cons b s ih =>
    rw [pbBytes]
    split_ifs with hok
    · exact ((wrote_pbByte w b).append (ih _)).of_iff and_self_iff
    · refine ⟨rfl, ?_, fun h ↦ absurd h hok⟩
      constructor
      · exact fun h ↦ absurd h hok
      · exact fun h ↦ h.2.1

theorem wrote_pbBlob (w : Pb) (field : Nat) (s : Bytes) :
    Wrote True w (pbBlob w field s) (WireField.bytes ⟨field, .blob s⟩) := by
  have hlength := (wrote_pbVarint w (field * 8 + wireBytes)).append (wrote_pbVarint _ s.length)
  have hall := hlength.append (wrote_pbBytes _ s)
  rw [List.append_assoc] at hall
  exact hall.of_iff (by simp)

theorem wrote_pbBool (w : Pb) (field : Nat) (set : Bool) :
    Wrote True w (pbBool w field set) (WireField.bytes ⟨field, .varint set.toNat⟩) := by
  have hset : (if set then 1 else 0) = set.toNat := by cases set <;> rfl
  rw [pbBool, hset]
  exact ((wrote_pbVarint w _).append (wrote_pbVarint _ _)).of_iff and_self_iff

theorem wrote_pbString (w : Pb) (field : Nat) (str : Option Bytes) :
    Wrote True w (pbString w field str) ((str.toList.map fun s ↦ (⟨field, .blob s⟩ : WireField)).flatMap WireField.bytes) := by
  cases str with
  | none => exact .nil w
  | some s =>
    rw [Option.toList_some, List.map_singleton, List.flatMap_singleton]
    exact wrote_pbBlob w field s

/-- An entry is written where it fits its own buffer. -/
theorem wrote_pbTool (w : Pb) (name display : Option Bytes) (isActive isIncompatible : Bool) :
    Wrote ((entry name display isActive isIncompatible).bytes.length ≤ toolMax) w
      (pbTool w respTools name display isActive isIncompatible)
      (WireField.bytes ⟨respTools, .blob (entry name display isActive isIncompatible).bytes⟩) := by
  have hnames := (wrote_pbString (Pb.empty toolMax) toolName name).append (wrote_pbString _ toolDisplayName display)
  have hflags := ((hnames.append (wrote_pbBool _ toolIsDefault false)).append
    (wrote_pbBool _ toolIsActive isActive)).append (wrote_pbBool _ toolIsLegacy false)
  have hitem := hflags.append (wrote_pbBool _ toolIsIncompatible isIncompatible)
  have hbytes : (entry name display isActive isIncompatible).bytes = _ :=
    show (Entry.fields _).flatMap WireField.bytes = _ by
      simp only [Entry.fields, entry, Option.toList_some, List.map_cons, List.map_nil, List.flatMap_append,
        List.flatMap_cons, List.flatMap_nil, List.append_nil]
      rfl
  rw [← hbytes] at hitem
  obtain ⟨t, ht, hdef⟩ : ∃ t, Wrote (((((True ∧ True) ∧ True) ∧ True) ∧ True) ∧ True) (Pb.empty toolMax) t
      (entry name display isActive isIncompatible).bytes ∧
      pbTool w respTools name display isActive isIncompatible =
        if t.ok then pbBlob w respTools t.buf else { w with ok := false } := ⟨_, hitem, rfl⟩
  have hok : t.ok = true ↔ (entry name display isActive isIncompatible).bytes.length ≤ toolMax := by
    rw [ht.ok]
    simp [Pb.empty]
  rw [hdef]
  -- An entry cut short is not written, and the reply has failed.
  split_ifs with hfit
  · have hbuf : t.buf = (entry name display isActive isIncompatible).bytes := ht.buf hfit
    rw [hbuf]
    exact (wrote_pbBlob w respTools _).of_iff (by simp [hok.mp hfit])
  · refine ⟨rfl, ?_, fun h ↦ absurd h Bool.false_ne_true⟩
    have hno := mt hok.mpr hfit
    simp only [Bool.false_eq_true, hno, false_and]

/-- The loop over the tools writes the offered entries, or ends where one does not fit. -/
theorem listTools_spec (mgr : Manager) (appid : Nat) (best : Int) {w : Pb} (hw : w.ok = true) (tools : List Tool) :
    let fields := (offeredEntries mgr appid best tools).map fun e ↦ (⟨respTools, .blob e.bytes⟩ : WireField)
    let room := (∀ e ∈ offeredEntries mgr appid best tools, e.bytes.length ≤ toolMax) ∧
      w.buf.length + (fields.flatMap WireField.bytes).length ≤ w.cap
    (listTools mgr appid best w tools = none ∧ ¬ room) ∨
      ∃ w', listTools mgr appid best w tools = some w' ∧ room ∧ w'.ok = true ∧ w'.cap = w.cap ∧
        w'.buf = w.buf ++ fields.flatMap WireField.bytes := by
  induction tools generalizing w with
  | nil =>
    refine .inr ⟨w, rfl, ⟨fun e he ↦ absurd he List.not_mem_nil, ?_⟩, hw, rfl, (List.append_nil _).symm⟩
    exact w.fits
  | cons tool tools ih =>
    rw [listTools]
    by_cases hoffered : offered tool (platformsFor mgr appid) mgr.bypass = true
    · cases hname : tool.name with
      | none =>
        have hskip : offeredEntries mgr appid best (tool :: tools) = offeredEntries mgr appid best tools := by
          rw [offeredEntries, List.filterMap_cons_none (by rw [if_pos hoffered, hname]; rfl)]
          rfl
        rw [hoffered, hskip]
        exact ih hw
      | some name =>
        have hentry : offeredEntries mgr appid best (tool :: tools) =
            entry (some name) tool.display (mgr.toolForApp appid = some name)
              (best ≠ 0 ∧ tool.priority ≠ best ∧ tool.priority > 0) :: offeredEntries mgr appid best tools := by
          rw [offeredEntries, List.filterMap_cons_some (by rw [if_pos hoffered, hname]; rfl)]
          rfl
        have hwrote := wrote_pbTool w (some name) tool.display (mgr.toolForApp appid = some name)
          (best ≠ 0 ∧ tool.priority ≠ best ∧ tool.priority > 0)
        rw [hoffered, hentry]
        dsimp only
        rw [Bool.not_true, if_neg Bool.false_ne_true]
        generalize entry (some name) tool.display _ _ = e at hwrote ⊢
        generalize pbTool w respTools (some name) tool.display _ _ = w₁ at hwrote ⊢
        rw [List.map_cons, List.flatMap_cons, List.length_append]
        cases hok : w₁.ok with
        | false =>
          -- the entry did not fit
          refine .inl ⟨if_pos rfl, ?_⟩
          rintro ⟨hall, hroom⟩
          have hfit : w₁.ok = true :=
            hwrote.ok.mpr ⟨hall e List.mem_cons_self, hw, by omega⟩
          rw [hok] at hfit
          cases hfit
        | true =>
          obtain ⟨hfit, -, hroom₁⟩ := hwrote.ok.mp hok
          have hbuf := hwrote.buf hok
          rw [Bool.not_true, if_neg Bool.false_ne_true]
          obtain ⟨hnone, hno⟩ | ⟨w', hsome, ⟨hall, hroom⟩, hok', hcap', hbuf'⟩ := ih hok
          · refine .inl ⟨hnone, ?_⟩
            rintro ⟨hall, hroom⟩
            apply hno
            refine ⟨fun x hx ↦ hall x (List.mem_cons_of_mem _ hx), ?_⟩
            rw [hbuf, hwrote.cap, List.length_append]
            omega
          · refine .inr ⟨w', hsome, ⟨List.forall_mem_cons.mpr ⟨hfit, hall⟩, ?_⟩, hok', hcap'.trans hwrote.cap, ?_⟩
            · rw [hbuf, hwrote.cap, List.length_append] at hroom
              omega
            · rw [hbuf', hbuf, List.append_assoc]
    · have hskip : offeredEntries mgr appid best (tool :: tools) = offeredEntries mgr appid best tools := by
        simp only [offeredEntries, List.filterMap_cons, if_neg hoffered]
      rw [Bool.not_eq_true] at hoffered
      rw [hoffered, hskip]
      exact ih hw

/-! ## The whole reply -/

theorem responseFor_bytes (mgr : Manager) (appid : Nat) {tools : List Tool} (h : mgr.array = some tools) :
    (responseFor mgr appid).bytes =
      ((offeredEntries mgr appid (bestPriority tools) tools).map fun e ↦ (⟨respTools, .blob e.bytes⟩ : WireField)).flatMap
        WireField.bytes ++
      ((noneEntry mgr appid).map fun e ↦ (⟨respTools, .blob e.bytes⟩ : WireField)).flatMap WireField.bytes ++
      WireField.bytes ⟨respSelected, .blob ((chosenFor mgr appid).getD [])⟩ ++
      ((fallbackFor mgr appid).toList.map fun s ↦ (⟨respDefault, .blob s⟩ : WireField)).flatMap WireField.bytes := by
  simp only [Response.bytes, Response.fields, responseFor, entriesFor, h, Option.getD_some, List.map_append,
    List.flatMap_append, Option.toList_some, List.map_cons, List.map_nil, List.flatMap_cons, List.flatMap_nil,
    List.append_nil]

/-- The body is the response, where it fits. -/
theorem replyBody_spec (appid : Nat) {mgr : Manager} {tools : List Tool} (h : mgr.array = some tools) :
    (replyBody mgr appid tools = none ∧ ¬ Fits mgr appid) ∨
      ∃ w, replyBody mgr appid tools = some w ∧ Fits mgr appid ∧ w.buf = (responseFor mgr appid).bytes := by
  have hbytes := responseFor_bytes mgr appid h
  have hentries : entriesFor mgr appid = offeredEntries mgr appid (bestPriority tools) tools ++ noneEntry mgr appid := by
    rw [entriesFor, h]
    rfl
  have hcount : (mgr.array.getD []).length = tools.length := by rw [h, Option.getD_some]
  obtain ⟨hnone, hno⟩ | ⟨w, hsome, ⟨hall, -⟩, hok, hcap, hbuf⟩ :=
    listTools_spec mgr appid (bestPriority tools) (w := Pb.empty ((tools.length + 3) * toolMax)) rfl tools
  · -- a tool does not fit
    refine .inl ⟨by rw [replyBody, hnone, Option.bind_none], ?_⟩
    rintro ⟨hall, hroom⟩
    apply hno
    rw [hentries] at hall
    rw [hbytes, hcount] at hroom
    simp only [List.length_append] at hroom
    refine ⟨fun e he ↦ hall e (List.mem_append_left _ he), ?_⟩
    show 0 + _ ≤ (tools.length + 3) * toolMax
    omega
  · rw [replyBody, hsome, Option.bind_some]
    dsimp only
    -- the entry for no tool
    obtain ⟨w₁, hw₁, hwrote₁⟩ : ∃ w₁, (if appid ≠ 0 ∧ ((fallbackFor mgr appid).isSome ∨ holdsNone mgr appid) then
          pbTool w respTools (some compatToolNone) (some toolNoneLabel) (holdsNone mgr appid) false
        else w) = w₁ ∧
        Wrote (∀ e ∈ noneEntry mgr appid, e.bytes.length ≤ toolMax) w w₁
          (((noneEntry mgr appid).map fun e ↦ (⟨respTools, .blob e.bytes⟩ : WireField)).flatMap WireField.bytes) := by
      refine ⟨_, rfl, ?_⟩
      unfold noneEntry
      split_ifs with hentry
      · have hwrote := wrote_pbTool w (some compatToolNone) (some toolNoneLabel) (holdsNone mgr appid) false
        rw [List.map_singleton, List.flatMap_singleton]
        exact hwrote.of_iff (by simp)
      · exact (Wrote.nil w).of_iff (by simp)
    have hwrote₂ := wrote_pbString w₁ respSelected (some ((chosenFor mgr appid).getD []))
    have hwrote₃ := wrote_pbString (pbString w₁ respSelected (some ((chosenFor mgr appid).getD []))) respDefault
      (fallbackFor mgr appid)
    have hwrote := (hwrote₁.append hwrote₂).append hwrote₃
    rw [Option.toList_some, List.map_singleton, List.flatMap_singleton] at hwrote
    -- all that is written once the tools are in
    have hrest : Fits mgr appid ↔
        (pbString (pbString w₁ respSelected (some ((chosenFor mgr appid).getD []))) respDefault
          (fallbackFor mgr appid)).ok = true := by
      have hlen : w.buf.length = (((offeredEntries mgr appid (bestPriority tools) tools).map
          fun e ↦ (⟨respTools, .blob e.bytes⟩ : WireField)).flatMap WireField.bytes).length := by
        rw [hbuf]
        rfl
      rw [hwrote.ok, Fits, hentries, hbytes, hcount, hcap, hlen]
      simp only [List.length_append, Pb.empty, hok, and_true, true_and, List.forall_mem_append]
      constructor
      · rintro ⟨⟨-, hnone⟩, hroom⟩
        exact ⟨hnone, by omega⟩
      · rintro ⟨hnone, hroom⟩
        exact ⟨⟨hall, hnone⟩, by omega⟩
    rw [hw₁]
    cases hok₁ : w₁.ok with
    | false =>
      refine .inl ⟨rfl, fun hfits ↦ ?_⟩
      have hok₂ := (hwrote₃.ok.mp (hrest.mp hfits)).2.1
      rw [(hwrote₂.ok.mp hok₂).2.1] at hok₁
      cases hok₁
    | true =>
      rw [Bool.not_true, if_neg Bool.false_ne_true]
      cases hok₃ : (pbString (pbString w₁ respSelected (some ((chosenFor mgr appid).getD []))) respDefault
          (fallbackFor mgr appid)).ok with
      | false =>
        refine .inl ⟨if_pos rfl, fun hfits ↦ ?_⟩
        rw [hrest.mp hfits] at hok₃
        cases hok₃
      | true =>
        refine .inr ⟨_, if_neg (by simp), hrest.mpr hok₃, ?_⟩
        rw [hwrote.buf hok₃, hbuf, hbytes]
        simp [Pb.empty]

/-- What the function does once the manager has a list for the app. -/
theorem getCompatTools_listed {mgr : Manager} {request : Request} {allocated : Bool} (h : Listed mgr request.app allocated)
    (parses : Bytes → Bool) :
    (¬ Fits mgr request.app ∧ getCompatTools (some mgr) request allocated parses = ⟨resultFail, none⟩) ∨
      (Fits mgr request.app ∧ (getCompatTools (some mgr) request allocated parses).parsed =
        some ((responseFor mgr request.app).bytes.take ((responseFor mgr request.app).bytes.length % 2 ^ 32))) := by
  obtain ⟨⟨tools, htools, hmax, hown⟩, rfl⟩ := h
  have hown' : ¬ (request.app ≠ 0 ∧ (!mgr.bypass) = true ∧ tools.any (·.appid = request.app) = true) := by
    simpa using hown
  have hreply : getCompatTools (some mgr) request true parses =
      match replyBody mgr request.app tools with
      | none => ⟨resultFail, none⟩
      | some w =>
        let bytes := w.buf.take (w.buf.length % 2 ^ 32)
        ⟨if parses bytes then resultOk else resultFail, some bytes⟩ := by
    simp only [getCompatTools, htools]
    rw [if_neg (by omega), if_neg hown', if_neg (by simp)]
  obtain ⟨hnone, hno⟩ | ⟨w, hsome, hfits, hbuf⟩ := replyBody_spec request.app htools
  · exact .inl ⟨hno, by rw [hreply, hnone]⟩
  · exact .inr ⟨hfits, by rw [hreply, hsome, ← hbuf]⟩

theorem getCompatTools_not_listed {mgr : Manager} {request : Request} {allocated : Bool}
    (h : ¬ Listed mgr request.app allocated) (parses : Bytes → Bool) :
    (getCompatTools (some mgr) request allocated parses).parsed = none := by
  unfold getCompatTools
  dsimp only
  cases htools : mgr.array with
  | none => rfl
  | some tools =>
    dsimp only
    split_ifs with hmax hown hmem
    · rfl
    · rfl
    · rfl
    · refine absurd ⟨⟨tools, htools, by omega, ?_⟩, by simpa using hmem⟩ h
      simpa using hown

/-- What the page is promised: the bytes the parser gets are the response, within their buffer, and where anything does
not fit the request fails and the parser gets nothing. -/
def Answers (mgr : Manager) (request : Request) (allocated : Bool) (parses : Bytes → Bool) : Prop :=
  (∀ body, (getCompatTools (some mgr) request allocated parses).parsed = some body →
      decodeResponse body = some (responseFor mgr request.app) ∧
        body.length ≤ ((mgr.array.getD []).length + 3) * toolMax) ∧
    (Listed mgr request.app allocated → ¬ Fits mgr request.app →
      getCompatTools (some mgr) request allocated parses = ⟨resultFail, none⟩)

/-- A response of 2³² bytes or more is cut. -/
theorem cut_ne {mgr : Manager} {appid : Nat} (h : 2 ^ 32 ≤ (responseFor mgr appid).bytes.length) :
    decodeResponse ((responseFor mgr appid).bytes.take ((responseFor mgr appid).bytes.length % 2 ^ 32)) ≠
      some (responseFor mgr appid) := by
  apply decodeResponse_ne rfl (List.take_prefix _ _)
  intro heq
  have hlen := congrArg List.length heq
  rw [List.length_take] at hlen
  omega

/-- The reply is what the page needs unless it is longer than the 32 bits its length goes to the parser in. -/
theorem getCompatTools_iff (mgr : Manager) (request : Request) (allocated : Bool) (parses : Bytes → Bool) :
    Answers mgr request allocated parses ↔
      (Listed mgr request.app allocated → Fits mgr request.app → (responseFor mgr request.app).bytes.length < 2 ^ 32) := by
  constructor
  · intro hanswers hlisted hfits
    by_contra hlong
    obtain ⟨hno, -⟩ | ⟨-, hparsed⟩ := getCompatTools_listed hlisted parses
    · exact hno hfits
    · exact cut_ne (by omega) (hanswers.1 _ hparsed).1
  · intro hshort
    by_cases hlisted : Listed mgr request.app allocated
    · obtain ⟨hno, hfail⟩ | ⟨hfits, hparsed⟩ := getCompatTools_listed hlisted parses
      · refine ⟨fun body hbody ↦ ?_, fun _ _ ↦ hfail⟩
        rw [hfail] at hbody
        cases hbody
      · refine ⟨fun body hbody ↦ ?_, fun _ hno ↦ absurd hfits hno⟩
        rw [hparsed, Nat.mod_eq_of_lt (hshort hlisted hfits), List.take_length] at hbody
        rw [← Option.some.inj hbody]
        exact ⟨decodeResponse_bytes _, hfits.2⟩
    · refine ⟨fun body hbody ↦ ?_, fun h ↦ absurd h hlisted⟩
      rw [getCompatTools_not_listed hlisted] at hbody
      cases hbody

/-- A tool whose entry in the reply takes 512 bytes. -/
def longTool : Tool := ⟨some (List.replicate 498 97), none, compatPlatformWindows, 0, 0, 0⟩

/-- A manager with a number of them. -/
def longManager (count : Nat) : Manager :=
  ⟨some (List.replicate count longTool), count, false, fun _ ↦ 0, fun _ ↦ none, fun _ ↦ none, none, fun _ ↦ none,
    fun _ ↦ false, none⟩

theorem blob_length {number : Nat} (h : number < 15) {s : Bytes} (hs : 128 ≤ s.length) (hs' : s.length < 16384) :
    (WireField.bytes ⟨number, .blob s⟩).length = 3 + s.length := by
  have htag : (uleb (number * 8 + 2)).length = 1 := uleb_length_one (by omega)
  show (uleb (number * 8 + 2) ++ (uleb s.length ++ s)).length = _
  rw [List.length_append, List.length_append, htag, uleb_length_two hs hs']
  omega

theorem longEntry_length : (entry longTool.name none false false).bytes.length = 509 := by
  have hbool : ∀ number < 15, (WireField.bytes ⟨number, .varint false.toNat⟩).length = 2 := by
    intro number h
    show (uleb (number * 8) ++ uleb 0).length = 2
    rw [List.length_append, uleb_length_one (by omega), uleb_length_one (by decide)]
  have hname : (List.replicate 498 (97 : UInt8)).length = 498 := List.length_replicate
  rw [longTool, Entry.bytes, Entry.fields]
  simp only [entry, Option.toList_some, Option.toList_none, List.map_cons, List.map_nil, List.append_nil,
    List.flatMap_append, List.flatMap_cons, List.flatMap_nil, List.length_append]
  rw [blob_length (by decide) (by omega) (by omega), hname, hbool _ (by decide), hbool _ (by decide),
    hbool _ (by decide), hbool _ (by decide)]

theorem offeredEntries_long (count : Nat) (best : Int) :
    offeredEntries (longManager count) 0 best (List.replicate count longTool) =
      List.replicate count (entry longTool.name none false false) := by
  have hactive : decide ((longManager count).toolForApp 0 = some (List.replicate 498 97)) = false := decide_eq_false nofun
  have hpriority : decide (best ≠ 0 ∧ longTool.priority ≠ best ∧ longTool.priority > 0) = false :=
    decide_eq_false fun h ↦ absurd h.2.2 (by decide)
  have hoffered : offered longTool (platformsFor (longManager count) 0) (longManager count).bypass = true := by
    show offered longTool platformsUnscoped false = true
    decide
  rw [offeredEntries]
  apply List.filterMap_replicate_of_some
  rw [if_pos hoffered]
  show some (entry longTool.name none (decide ((longManager count).toolForApp 0 = some (List.replicate 498 97)))
    (decide (best ≠ 0 ∧ longTool.priority ≠ best ∧ longTool.priority > 0))) = _
  rw [hactive, hpriority]

theorem noneEntry_long (count : Nat) : noneEntry (longManager count) 0 = [] := if_neg fun h ↦ h.1 rfl

theorem responseFor_long (count : Nat) : (responseFor (longManager count) 0).bytes.length = count * 512 + 2 := by
  have hselected : (WireField.bytes ⟨respSelected, .blob ((chosenFor (longManager count) 0).getD [])⟩).length = 2 := by
    show (uleb (respSelected * 8 + 2) ++ (uleb 0 ++ [])).length = 2
    rw [List.length_append, List.length_append, uleb_length_one (by decide), uleb_length_one (by decide)]
    rfl
  have hfallback : fallbackFor (longManager count) 0 = none := rfl
  have hfield : (WireField.bytes ⟨respTools, .blob (entry longTool.name none false false).bytes⟩).length = 512 := by
    have h := longEntry_length
    rw [blob_length (by decide) (by omega) (by omega), h]
  rw [responseFor_bytes (longManager count) 0 rfl, offeredEntries_long, noneEntry_long, List.length_append,
    List.length_append, List.length_append, hselected, hfallback, List.map_replicate, List.length_flatMap,
    List.map_replicate, List.sum_replicate, hfield, smul_eq_mul]
  simp only [List.map_nil, List.flatMap_nil, List.length_nil, Option.toList_none, Nat.add_zero]

/-- Eight million such tools: the reply takes two bytes more than 2³², and two are what the parser gets. -/
theorem long_reply_cut : ¬ Answers (longManager (2 ^ 23)) ⟨false, 0⟩ true fun _ ↦ true := by
  have hgeneral : ∀ count, 2 ^ 32 ≤ count * 512 + 2 → ¬ Answers (longManager count) ⟨false, 0⟩ true fun _ ↦ true := by
    intro count hcount hanswers
    have hlen := responseFor_long count
    have hfits : Fits (longManager count) 0 := by
      constructor
      · intro e he
        rw [entriesFor, noneEntry_long, List.append_nil] at he
        have heq : e = entry longTool.name none false false := List.eq_of_mem_replicate (offeredEntries_long count _ ▸ he)
        rw [heq, longEntry_length]
        decide
      · rw [hlen, longManager, Option.getD_some, List.length_replicate, toolMax]
        omega
    have hlisted : Listed (longManager count) (Request.app ⟨false, 0⟩) true :=
      ⟨⟨_, rfl, by rw [List.length_replicate]; exact Nat.le_refl _, fun h ↦ h.1 rfl⟩, rfl⟩
    obtain ⟨hno, -⟩ | ⟨-, hparsed⟩ := getCompatTools_listed hlisted fun _ ↦ true
    · exact hno hfits
    · exact cut_ne (by rw [show Request.app ⟨false, 0⟩ = 0 from rfl, hlen]; exact hcount) (hanswers.1 _ hparsed).1
  have hcount : 2 ^ 32 ≤ 2 ^ 23 * 512 + 2 := by omega
  exact hgeneral _ hcount

end NotProton.CompatSvc
