import NotProton.Library.Text

/-!
# JobClass — the client's job class, read out of its code (`webui.c`)

A route NotProton serves needs a job the client can run.  Its class is taken from a route the client
serves already: the factory's first call builds the job, and the one virtual of the class that sends
a response is the handler.  Addresses and instructions wrap as the C's `uintptr_t` and `uint32_t` do.
-/

open NotProton.Library

namespace NotProton.WebUi

abbrev Addr := UInt64

/-- What the client's image and `np_webui_init` give this file to read. -/
structure Image where
  insn : Addr → UInt32
  word : Addr → UInt64
  char : Addr → UInt8
  textBase : Addr
  textEnd : Addr
  constBase : Addr
  constEnd : Addr
  registry : Addr
  registerFn : Addr
  sendResponse : Addr
  /-- Where this build's `job_handler` stands. -/
  jobHandler : Addr

def fnSpanMax : UInt64 := 0x400
def vtSlots : Nat := 24
def vtRunMin : Nat := 8
def registryMapOff : UInt64 := 96
def mapElementsOff : UInt64 := 48
def mapBoundOff : UInt64 := 72
def routeStride : UInt64 := 48
def elemDescriptorOff : UInt64 := 8
def elemFlagsOff : UInt64 := 16
def descFactory : UInt64 := 2

def npPlausiblePtr (v : UInt64) : Bool :=
  decide (0x100000000 ≤ v) && decide (v < 0x800000000000) && v &&& 0x7 == 0

def signExtend (val : UInt32) (bits : UInt32) : Addr :=
  if val &&& (1 <<< (bits - 1)) ≠ 0 then val.toUInt64 - (1 <<< bits.toUInt64) else val.toUInt64

/-- The target of a `bl`. -/
def blTarget (insn : UInt32) (pc : Addr) : Option Addr :=
  if insn &&& 0xFC000000 ≠ 0x94000000 then none
  else some (pc + 4 * signExtend (insn &&& 0x03FFFFFF) 26)

def Image.inText (m : Image) (va : Addr) : Bool :=
  m.textBase ≠ 0 && decide (m.textBase ≤ va) && decide (va < m.textEnd) && va &&& 3 == 0

/-- The address an `adrp` and `add` of one register make, 0 for any other pair. -/
def adrpAddTarget (pc : Addr) (first second : UInt32) : Addr :=
  if first &&& 0x9F000000 ≠ 0x90000000 then 0
  else
    let reg := first &&& 0x1F
    let imm := signExtend (((first >>> 5) &&& 0x7FFFF) <<< 2 ||| ((first >>> 29) &&& 3)) 21
    let page := (pc &&& ~~~ (0xFFF : Addr)) + imm <<< 12
    if second &&& 0xFF800000 ≠ 0x91000000 then 0
    else if second &&& 0x1F ≠ reg ∨ (second >>> 5) &&& 0x1F ≠ reg then 0
    else page + ((second >>> 10) &&& 0xFFF).toUInt64

/-- The target of a branch and whether it is conditional, 0 for any other instruction. -/
def branchTarget (insn : UInt32) (pc : Addr) : Addr × Bool :=
  if insn &&& 0xFC000000 = 0x14000000 then (pc + 4 * signExtend (insn &&& 0x03FFFFFF) 26, false)
  else if insn &&& 0xFF000010 = 0x54000000 ∨ insn &&& 0x7F000000 = 0x34000000 then
    (pc + (4 : Addr) * signExtend ((insn >>> 5) &&& 0x7FFFF) 19, true)
  else if insn &&& 0x7F000000 = 0x36000000 then
    (pc + (4 : Addr) * signExtend ((insn >>> 5) &&& 0x3FFF) 14, true)
  else (0, false)

/-- The instructions from `fn` on, `FN_SPAN_MAX` bytes of them. -/
def spanPcs (fn : Addr) : List Addr :=
  ((List.range (fnSpanMax.toNat / 4)).map fun k ↦ fn + 4 * UInt64.ofNat k).takeWhile fun pc ↦
    decide (pc < fn + fnSpanMax)

/-- The same, less the last: where a pair of instructions can start. -/
def pairPcs (fn : Addr) : List Addr :=
  ((List.range (fnSpanMax.toNat / 4)).map fun k ↦ fn + 4 * UInt64.ofNat k).takeWhile fun pc ↦
    decide (pc + 8 ≤ fn + fnSpanMax)

/-- The loop of `fn_calls`: a return ends the function unless an earlier branch jumps past it. -/
def fnCallsFrom (m : Image) (target : Addr) : List Addr → Addr → Bool
  | [], _ => false
  | pc :: pcs, furthest =>
      let insn := m.insn pc
      if blTarget insn pc = some target then true
      else
        let (branch, cond) := branchTarget insn pc
        if branch ≠ 0 then
          if !cond && decide (furthest ≤ pc) then false
          else fnCallsFrom m target pcs (if furthest < branch then branch else furthest)
        else
          let returns := insn == 0xD65F03C0 || insn &&& 0xFFFFFC1F == 0xD61F0000
          if returns && decide (furthest ≤ pc) then false else fnCallsFrom m target pcs furthest

def fnCalls (m : Image) (fn target : Addr) : Bool := fnCallsFrom m target (spanPcs fn) fn

/-- How many virtuals stand from `vptr` on. -/
def vtableRun (m : Image) (vptr : Addr) : Nat :=
  ((List.range vtSlots).takeWhile fun n ↦ m.inText (m.word (vptr + 8 * UInt64.ofNat n))).length

/-- The one slot that sends a response, none when two do. -/
def handlerSlot (m : Image) (vptr : Addr) (run : Nat) : Option Nat :=
  match (List.range run).filter fun i ↦
      fnCalls m (m.word (vptr + 8 * UInt64.ofNat i)) m.sendResponse with
  | [found] => some found
  | _ => none

structure JobVtable where
  vptr : Addr
  slot : Nat
  run : Nat

/-- The job class an address in a constructor names, if it reads as one. -/
def vtableAt (m : Image) (pc : Addr) : Option JobVtable :=
  let cand := adrpAddTarget pc (m.insn pc) (m.insn (pc + 4))
  if cand = 0 ∨ cand < m.constBase + 16 then none
  else if m.constEnd ≤ cand + 8 * UInt64.ofNat vtSlots then none
  else
    let run := vtableRun m cand
    if run < vtRunMin then none
    else (handlerSlot m cand run).map fun slot ↦ ⟨cand, slot, run⟩

/-- The job vtable a factory installs. -/
def vtableFromFactory (m : Image) (factory : Addr) : Option JobVtable :=
  let ctor := ((spanPcs factory).findSome? fun pc ↦ blTarget (m.insn pc) pc).getD 0
  if m.inText ctor then (pairPcs ctor).findSome? (vtableAt m) else none

/-- A route's name in the client's own table: 1 to 127 printable characters. -/
def routeAt (m : Image) (elements : Addr) (index : Nat) : Option Bytes :=
  let name := m.word (elements + UInt64.ofNat index * routeStride)
  if name < 0x100000000 ∨ 0x800000000000 ≤ name then none
  else
    let chars := (List.range 128).map fun i ↦ m.char (name + UInt64.ofNat i)
    match chars.findIdx? fun c ↦ c < 0x20 || decide (0x7e < c) with
    | some i => if chars.getD i 1 = 0 ∧ i ≠ 0 then some (chars.take i) else none
    | none => none

def walkRoutes (m : Image) : Option (Addr × Nat) :=
  if m.registry = 0 then none
  else
    let map := m.registry + registryMapOff
    let elements := m.word (map + mapElementsOff)
    -- The bound is a signed 32-bit field.
    let bound := (m.word (map + mapBoundOff)).toUInt32.toInt32.toInt
    if npPlausiblePtr elements = false ∨ bound ≤ 0 ∨ 4096 < bound then none
    else some (elements, bound.toNat)

/-- What a route of NotProton's takes over from one the client serves. -/
structure Borrowed where
  /-- The vtable's words with the two ahead of slot 0, and `job_handler` in the handler's slot. -/
  clone : List UInt64
  slot : Nat
  stockFactory : Addr
  flags : UInt64

def borrowFrom (m : Image) (elements : Addr) (i : Nat) : Option Borrowed :=
  match routeAt m elements i with
  | none => none
  | some _ =>
      let elem := elements + UInt64.ofNat i * routeStride
      let desc := m.word (elem + elemDescriptorOff)
      if npPlausiblePtr desc = false then none
      else
        let factory := m.word (desc + 8 * descFactory)
        if m.inText factory = false then none
        else
          (vtableFromFactory m factory).map fun v ↦
            { clone := ((List.range (2 + v.run)).map fun n ↦
                  m.word (v.vptr - 16 + 8 * UInt64.ofNat n)).set (2 + v.slot) m.jobHandler
              slot := v.slot
              stockFactory := factory
              flags := m.word (elem + elemFlagsOff) }

def borrowFromServedRoute (m : Image) : Option Borrowed :=
  match walkRoutes m with
  | none => none
  | some (elements, bound) => (List.range bound).findSome? (borrowFrom m elements)

/-! ## The borrowed class -/

theorem handlerSlot_lt {m : Image} {vptr : Addr} {run slot : Nat}
    (h : handlerSlot m vptr run = some slot) : slot < run := by
  unfold handlerSlot at h
  split at h
  next found hf =>
    have hm : found ∈ (List.range run).filter _ := hf ▸ List.mem_singleton_self found
    rw [← Option.some.inj h]
    exact List.mem_range.mp (List.mem_filter.mp hm).1
  next => cases h

theorem vtableRun_le (m : Image) (vptr : Addr) : vtableRun m vptr ≤ vtSlots := by
  have h := (List.takeWhile_sublist (l := List.range vtSlots) fun n ↦
    m.inText (m.word (vptr + 8 * UInt64.ofNat n))).length_le
  rwa [List.length_range] at h

theorem vtableAt_spec {m : Image} {pc : Addr} {v : JobVtable} (h : vtableAt m pc = some v) :
    v.slot < v.run ∧ v.run ≤ vtSlots := by
  simp only [vtableAt] at h
  split at h
  · cases h
  split at h
  · cases h
  split at h
  · cases h
  obtain ⟨slot, hslot, rfl⟩ := Option.map_eq_some_iff.mp h
  exact ⟨handlerSlot_lt hslot, vtableRun_le m _⟩

theorem vtableFromFactory_spec {m : Image} {factory : Addr} {v : JobVtable}
    (h : vtableFromFactory m factory = some v) : v.slot < v.run ∧ v.run ≤ vtSlots := by
  simp only [vtableFromFactory] at h
  split at h
  · obtain ⟨pc, -, hpc⟩ := List.exists_of_findSome?_eq_some h
    exact vtableAt_spec hpc
  · cases h

/-- A borrowed class fits a route's vtable and has `job_handler` where the client runs a job. -/
theorem borrowFromServedRoute_spec {m : Image} {b : Borrowed}
    (h : borrowFromServedRoute m = some b) :
    b.clone.length ≤ 2 + vtSlots ∧ b.clone[2 + b.slot]? = some m.jobHandler := by
  unfold borrowFromServedRoute at h
  split at h
  · cases h
  obtain ⟨i, -, hi⟩ := List.exists_of_findSome?_eq_some h
  unfold borrowFrom at hi
  split at hi
  · cases hi
  simp only at hi
  split at hi
  · cases hi
  split at hi
  · cases hi
  obtain ⟨v, hv, rfl⟩ := Option.map_eq_some_iff.mp hi
  obtain ⟨hslot, hrun⟩ := vtableFromFactory_spec hv
  constructor
  · simp only [List.length_set, List.length_map, List.length_range]
    omega
  · rw [List.getElem?_set_self]
    simp only [List.length_map, List.length_range]
    omega

end NotProton.WebUi
