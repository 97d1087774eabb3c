import NotProton.Conf.Record

/-!
# Reader — the descriptor files of a directory (`conf.c`)

A sink's callbacks are called in the order of the reader's list of calls.  Memory for the names and the seen ids is there.
-/

open NotProton.Library NotProton.WebPatch

namespace NotProton.Conf

/-- A call of one of the sink's functions. -/
inductive SinkCall
  | record (r : ConfRec)
  | refused (scope : Bytes) (code : ConfCode) (detail : Option Bytes)
  | file (path : Bytes)

/-- The ids of the directory so far, and what the sink was called with. -/
structure DirState where
  seen : List Bytes
  calls : List SinkCall

def DirState.refuse (out : DirState) (scope : Bytes) (code : ConfCode) (detail : Option Bytes) : DirState :=
  { out with calls := out.calls ++ [.refused scope code detail] }

/-- The reader inside a file. -/
structure FileState where
  record : ConfRec
  code : Option Refusal
  seenHeader : Bool
  out : DirState

def confAdmit (seen : List Bytes) (id : Bytes) : Option ConfCode × List Bytes :=
  if id ∈ seen then (some .dupId, seen)
  else if seen.length ≥ npConfRecordsMax then (some .limit, seen)
  else (none, seen ++ [snprintf npConfIdMax id])

/-- What `conf_emit` hands to the sink.  A record that the sink refuses itself is refused to it in the same call. -/
def confDeliver (d : Doubles) (kind : ConfKind) (s : FileState) : Option DirState :=
  if s.record.id = [] then some s.out
  else
    match s.code with
    | some (code, detail) => some (s.out.refuse s.record.id code detail)
    | none => do
        match confSchema d kind (← npConfFields s.record) with
        | some (code, detail) => some (s.out.refuse s.record.id code detail)
        | none =>
            match confAdmit s.out.seen s.record.id with
            | (some code, _) => some (s.out.refuse s.record.id code none)
            | (none, seen) => some ⟨seen, s.out.calls ++ [.record s.record]⟩

def confEmit (d : Doubles) (kind : ConfKind) (s : FileState) : Option FileState :=
  (confDeliver d kind s).map fun out ↦
    { s with record := { s.record with id := [], nkv := 0, kvlen := 0 }, out := out }

/-- The text before the last `c`. -/
def cutLast (c : UInt8) (s : Bytes) : Option Bytes := if c ∈ s then some (s.rdropWhile (· ≠ c)).dropLast else none

/-- A header, `id` being what stands between its brackets. -/
def confHeader (shown : Bytes) (kind : ConfKind) (s : FileState) (id : Bytes) : FileState :=
  let s := { s with code := none, seenHeader := true }
  if id = [] then { s with out := s.out.refuse shown .badId none }
  else
    let s := { s with record := { s.record with id := snprintf npConfIdMax id } }
    if id.length ≥ npConfIdMax ∨ confIdOk kind s.record.id = false then { s with code := some (.badId, none) } else s

/-- A field of a record that is not refused yet. -/
def confField (kind : ConfKind) (s : FileState) (name value : Bytes) : Option FileState :=
  let refuse (code : ConfCode) (detail : Option Bytes) := some { s with code := some (code, detail) }
  match confSpec kind name with
  | none => refuse .unknown (if name = [] then none else some (snprintf 64 name))
  | some spec =>
      if value = [] then refuse .empty (some spec.name)
      else if 9 ∈ value then refuse .tab (some spec.name)
      else do
        let kv ← npConfFields s.record
        if kv.countP (·.1 = spec.name) ≥ spec.most then
          refuse (if spec.most = 1 then .dupField else .limit) (some spec.name)
        else if s.record.kvlen + spec.name.length + value.length + 2 > npConfRecBuf then refuse .limit (some spec.name)
        else (confPush s.record spec.name value).map fun r ↦ { s with record := r }

/-- What a line does: the file goes on, or it ends there. -/
inductive LineEnd
  | next (s : FileState)
  | stop (out : DirState)

def confLine (d : Doubles) (shown : Bytes) (kind : ConfKind) (s : FileState) (line : Bytes) : Option LineEnd :=
  let line := line.takeWhile (· ≠ 10)
  if line.length ≥ npConfLine then some (.stop (s.out.refuse shown .lineLong none))
  else
    let k := line.dropWhile confSpace
    if k = [] ∨ k.head? = some 35 then some (.next s)
    else if k.head? = some 91 then
      match cutLast 93 k with
      | none => some (.next s)
      | some head => (confEmit d kind s).map fun s ↦
          .next (confHeader shown kind s (confTrim ((head.drop 1).dropWhile confSpace)))
    else
      match splitAt 61 k with
      | (_, none) => some (.next s)
      | (name, some value) =>
          if s.seenHeader = false then some (.stop (s.out.refuse shown .noHeader none))
          else if s.code.isSome then some (.next s)
          else (confField kind s (confTrim name) (confTrim (value.dropWhile confSpace))).map .next

def confLines (d : Doubles) (shown : Bytes) (kind : ConfKind) : FileState → List Bytes → Option DirState
  | s, [] => (confEmit d kind s).map FileState.out
  | s, line :: lines => do
      match ← confLine d shown kind s line with
      | .next s => confLines d shown kind s lines
      | .stop out => some out

/-- What the system says of directories and files. -/
structure ConfHost where
  /-- The names `readdir` gives, when `opendir` succeeds. -/
  opendir : Bytes → Option (List Bytes)
  /-- What can be read of a file that `fopen` opens. -/
  fopen : Bytes → Option Bytes

def confReadFile (d : Doubles) (host : ConfHost) (path shown : Bytes) (kind : ConfKind) (out : DirState) : Option DirState :=
  match host.fopen path with
  | none => some (out.refuse shown .unreadable none)
  | some text =>
      if text = [] then some out
      else
        confLines d shown kind ⟨ConfRec.zero, none, false, { out with calls := out.calls ++ [.file shown] }⟩
          (fgetsLines (npConfLine + 2) text.length text)

def confNameOk (name : Bytes) : Bool :=
  name.head? ≠ some 46 && (ascii ".conf").isSuffixOf name && !(9 ∈ name) && !(10 ∈ name)

def confFiles (d : Doubles) (host : ConfHost) (dir shownDir : Bytes) (kind : ConfKind) : DirState → List Bytes → Option DirState
  | out, [] => some out
  | out, name :: names => do
      let path := snprintf 2048 (dir ++ ascii "/" ++ name)
      let shown := snprintf 2048 (shownDir ++ (if shownDir ≠ [] then ascii "/" else []) ++ name)
      let out ← confReadFile d host path shown kind out
      confFiles d host dir shownDir kind out names

/-- The calls `np_conf_read_dir` makes, `shownDir` empty for none. -/
def npConfReadDir (d : Doubles) (host : ConfHost) (dir shownDir : Bytes) (kind : ConfKind) : Option (List SinkCall) :=
  match host.opendir dir with
  | none => some []
  | some names =>
      let names := (names.filter confNameOk).mergeSort fun a b ↦ decide (a ≤ b)
      (confFiles d host dir shownDir kind ⟨[], []⟩ names).map DirState.calls

/-- The records that are delivered. -/
def records (calls : List SinkCall) : List ConfRec :=
  calls.filterMap fun
    | .record r => some r
    | _ => none

/-! ## What the reader keeps to -/

/-- The records so far: their ids are the seen ones, no more than the limit, and each is packed. -/
structure DirState.Ok (out : DirState) : Prop where
  ids : (records out.calls).map ConfRec.id = out.seen
  nodup : out.seen.Nodup
  limit : out.seen.length ≤ npConfRecordsMax
  packs : ∀ r ∈ records out.calls, ∃ kv, Packs r kv

structure FileState.Ok (s : FileState) : Prop where
  packs : ∃ kv, Packs s.record kv
  id_length : s.record.id.length < npConfIdMax
  out : s.out.Ok

theorem DirState.Ok.start : DirState.Ok ⟨[], []⟩ :=
  ⟨rfl, List.nodup_nil, Nat.zero_le _, fun _ h ↦ absurd h List.not_mem_nil⟩

theorem records_append (calls calls' : List SinkCall) : records (calls ++ calls') = records calls ++ records calls' :=
  List.filterMap_append

/-- A call that delivers nothing. -/
theorem DirState.Ok.other {out : DirState} (h : out.Ok) {call : SinkCall} (hcall : records [call] = []) :
    DirState.Ok { out with calls := out.calls ++ [call] } := by
  have hrecords : records (out.calls ++ [call]) = records out.calls := by
    rw [records_append, hcall, List.append_nil]
  exact ⟨by rw [hrecords]; exact h.ids, h.nodup, h.limit, by rw [hrecords]; exact h.packs⟩

theorem DirState.Ok.refuse {out : DirState} (h : out.Ok) (scope : Bytes) (code : ConfCode) (detail : Option Bytes) :
    (out.refuse scope code detail).Ok := h.other rfl

theorem DirState.Ok.deliver {out : DirState} (h : out.Ok) {r : ConfRec} {kv : Fields} (hr : Packs r kv)
    (hid : r.id.length < npConfIdMax) (hnew : r.id ∉ out.seen) (hlimit : out.seen.length < npConfRecordsMax) :
    DirState.Ok ⟨out.seen ++ [snprintf npConfIdMax r.id], out.calls ++ [.record r]⟩ := by
  rw [snprintf_of_lt hid]
  refine ⟨?_, ?_, ?_, ?_⟩
  · rw [records_append, List.map_append, h.ids]
    rfl
  · rw [List.nodup_append]
    refine ⟨h.nodup, List.nodup_singleton _, ?_⟩
    intro id hold id' hnew' heq
    rw [List.mem_singleton.mp hnew'] at heq
    exact hnew (heq ▸ hold)
  · rw [List.length_append, List.length_singleton]
    exact hlimit
  · intro r' hr'
    rw [records_append] at hr'
    rcases List.mem_append.mp hr' with hold | hnew'
    · exact h.packs r' hold
    · rw [List.mem_singleton.mp hnew']
      exact ⟨kv, hr⟩

theorem confDeliver_ok (d : Doubles) (kind : ConfKind) {s : FileState} (h : s.Ok) :
    ∃ out, confDeliver d kind s = some out ∧ out.Ok := by
  obtain ⟨kv, hkv⟩ := h.packs
  unfold confDeliver
  split
  next => exact ⟨_, rfl, h.out⟩
  next =>
    split
    next code detail _ => exact ⟨_, rfl, h.out.refuse _ _ _⟩
    next =>
      rw [npConfFields_packs hkv, Option.bind_eq_bind, Option.bind_some]
      split
      next code detail _ => exact ⟨_, rfl, h.out.refuse _ _ _⟩
      next =>
        unfold confAdmit
        by_cases hseen : s.record.id ∈ s.out.seen
        · rw [if_pos hseen]
          exact ⟨_, rfl, h.out.refuse _ _ _⟩
        · rw [if_neg hseen]
          by_cases hlimit : s.out.seen.length ≥ npConfRecordsMax
          · rw [if_pos hlimit]
            exact ⟨_, rfl, h.out.refuse _ _ _⟩
          · rw [if_neg hlimit]
            exact ⟨_, rfl, h.out.deliver hkv h.id_length hseen (Nat.not_le.mp hlimit)⟩

theorem confEmit_ok (d : Doubles) (kind : ConfKind) {s : FileState} (h : s.Ok) : ∃ s', confEmit d kind s = some s' ∧ s'.Ok := by
  obtain ⟨out, hdeliver, hout⟩ := confDeliver_ok d kind h
  obtain ⟨kv, hkv⟩ := h.packs
  rw [confEmit, hdeliver]
  exact ⟨_, rfl, ⟨[], hkv.reset []⟩, Nat.zero_lt_succ _, hout⟩

theorem confHeader_ok (shown : Bytes) (kind : ConfKind) {s : FileState} (h : s.Ok) (id : Bytes) :
    (confHeader shown kind s id).Ok := by
  obtain ⟨kv, hkv⟩ := h.packs
  have hnamed : Packs { s.record with id := snprintf npConfIdMax id } kv :=
    ⟨hkv.size, hkv.nkv, hkv.kvlen, hkv.text, hkv.plain⟩
  have hlength : (snprintf npConfIdMax id).length < npConfIdMax := snprintf_length_lt id (by decide)
  unfold confHeader
  simp only
  split
  next => exact ⟨h.packs, h.id_length, h.out.refuse _ _ _⟩
  next =>
    split
    next => exact ⟨⟨kv, hnamed⟩, hlength, h.out⟩
    next => exact ⟨⟨kv, hnamed⟩, hlength, h.out⟩

theorem confSpec_name {kind : ConfKind} {name : Bytes} {spec : ConfSpec} (h : confSpec kind name = some spec) : 0 ∉ spec.name := by
  have hall : ∀ spec ∈ kind.specs, 0 ∉ spec.name := by
    cases kind <;> (simp only [ConfKind.specs, kPlugin, kVariant, List.forall_mem_cons]; decide)
  exact hall spec (List.mem_of_find?_eq_some h)

theorem FileState.Ok.code {s : FileState} (h : s.Ok) (code : Option Refusal) : FileState.Ok { s with code := code } :=
  ⟨h.packs, h.id_length, h.out⟩

theorem confField_ok (kind : ConfKind) {s : FileState} (h : s.Ok) (name : Bytes) {value : Bytes} (hvalue : 0 ∉ value) :
    ∃ s', confField kind s name value = some s' ∧ s'.Ok := by
  obtain ⟨kv, hkv⟩ := h.packs
  unfold confField
  simp only
  split
  next => exact ⟨_, rfl, h.code _⟩
  next spec hspec =>
    split
    next => exact ⟨_, rfl, h.code _⟩
    next hempty =>
      split
      next => exact ⟨_, rfl, h.code _⟩
      next =>
        rw [npConfFields_packs hkv, Option.bind_eq_bind, Option.bind_some]
        split
        next => exact ⟨_, rfl, h.code _⟩
        next =>
          split
          next => exact ⟨_, rfl, h.code _⟩
          next hroom =>
            have hplain : PlainField (spec.name, value) := ⟨confSpec_name hspec, hvalue, hempty⟩
            obtain ⟨r, hpush, hid, hr⟩ := hkv.push hplain (Nat.not_lt.mp hroom)
            rw [hpush]
            exact ⟨_, rfl, ⟨_, hr⟩, by rw [hid]; exact h.id_length, h.out⟩

theorem notMem_confTrim {s : Bytes} (h : 0 ∉ s) : 0 ∉ confTrim s := fun hm ↦ h ((List.rdropWhile_prefix _ _).subset hm)

theorem notMem_dropWhile {p : UInt8 → Bool} {s : Bytes} (h : 0 ∉ s) : 0 ∉ s.dropWhile p :=
  fun hm ↦ h ((List.dropWhile_suffix p).subset hm)

/-- What a line leaves, whether the file goes on or not. -/
def LineEnd.Ok : LineEnd → Prop
  | .next s => s.Ok
  | .stop out => out.Ok

theorem confLine_ok (d : Doubles) (shown : Bytes) (kind : ConfKind) {s : FileState} (h : s.Ok) {line : Bytes} (hline : 0 ∉ line) :
    ∃ e, confLine d shown kind s line = some e ∧ e.Ok := by
  have htext : 0 ∉ (line.takeWhile (· ≠ 10)).dropWhile confSpace :=
    notMem_dropWhile fun hm ↦ hline ((List.takeWhile_prefix _).subset hm)
  unfold confLine
  simp only
  split
  next => exact ⟨_, rfl, h.out.refuse _ _ _⟩
  next =>
    generalize (line.takeWhile (· ≠ 10)).dropWhile confSpace = k at *
    split
    next => exact ⟨_, rfl, h⟩
    next =>
      split
      next =>
        split
        next => exact ⟨_, rfl, h⟩
        next head _ =>
          obtain ⟨s', hemit, hs'⟩ := confEmit_ok d kind h
          rw [hemit]
          exact ⟨_, rfl, confHeader_ok shown kind hs' _⟩
      next =>
        have hspec := splitAt_spec 61 k
        split
        next => exact ⟨_, rfl, h⟩
        -- A field: a name, `=` and a value, with blanks around each.
        next name value hsplit =>
          split
          next => exact ⟨_, rfl, h.out.refuse _ _ _⟩
          next =>
            split
            next => exact ⟨_, rfl, h⟩
            next =>
              have hvalue : 0 ∉ value := by
                intro hm
                rw [hsplit] at hspec
                exact htext (by rw [hspec]; exact List.mem_append_right _ (List.mem_cons_of_mem _ hm))
              obtain ⟨s', hfield, hs'⟩ := confField_ok kind h (confTrim name) (notMem_confTrim (notMem_dropWhile (p := confSpace) hvalue))
              rw [hfield]
              exact ⟨_, rfl, hs'⟩

theorem confLines_ok (d : Doubles) (shown : Bytes) (kind : ConfKind) {lines : List Bytes} (hlines : ∀ line ∈ lines, 0 ∉ line)
    {s : FileState} (h : s.Ok) : ∃ out, confLines d shown kind s lines = some out ∧ out.Ok := by
  induction lines generalizing s with
  | nil =>
    obtain ⟨s', hemit, hs'⟩ := confEmit_ok d kind h
    rw [confLines, hemit]
    exact ⟨_, rfl, hs'.out⟩
  | cons line lines ih =>
    obtain ⟨hline, hrest⟩ := List.forall_mem_cons.mp hlines
    obtain ⟨e, hstep, he⟩ := confLine_ok d shown kind h hline
    rw [confLines, hstep, Option.bind_eq_bind, Option.bind_some]
    cases e with
    | next s' => exact ih hrest he
    | stop out => exact ⟨_, rfl, he⟩

theorem zero_notMem_fgetsLines {cap fuel : Nat} {s line : Bytes} (h : line ∈ fgetsLines cap fuel s) : 0 ∉ line := by
  induction fuel generalizing s with
  | zero => cases s <;> exact absurd h List.not_mem_nil
  | succ fuel ih =>
    by_cases hs : s = []
    · rw [hs] at h
      exact absurd h List.not_mem_nil
    · rw [fgetsLines_cons hs] at h
      rcases List.mem_cons.mp h with rfl | hrest
      · intro hm
        exact absurd (List.mem_takeWhile_imp hm) (by decide)
      · exact ih hrest

theorem confReadFile_ok (d : Doubles) (host : ConfHost) (path shown : Bytes) (kind : ConfKind) {out : DirState} (h : out.Ok) :
    ∃ out', confReadFile d host path shown kind out = some out' ∧ out'.Ok := by
  unfold confReadFile
  split
  next => exact ⟨_, rfl, h.refuse _ _ _⟩
  next text _ =>
    split
    next => exact ⟨_, rfl, h⟩
    next => exact confLines_ok d shown kind (fun _ ↦ zero_notMem_fgetsLines) ⟨⟨[], packs_zero⟩, Nat.zero_lt_succ _, h.other rfl⟩

theorem confFiles_ok (d : Doubles) (host : ConfHost) (dir shownDir : Bytes) (kind : ConfKind) (names : List Bytes) {out : DirState}
    (h : out.Ok) : ∃ out', confFiles d host dir shownDir kind out names = some out' ∧ out'.Ok := by
  induction names generalizing out with
  | nil => exact ⟨_, rfl, h⟩
  | cons name names ih =>
    obtain ⟨out', hread, hout'⟩ := confReadFile_ok d host (snprintf 2048 (dir ++ ascii "/" ++ name))
      (snprintf 2048 (shownDir ++ (if shownDir ≠ [] then ascii "/" else []) ++ name)) kind h
    rw [confFiles, hread, Option.bind_eq_bind, Option.bind_some]
    exact ih hout'

/-- What a sink may rely on, whatever is in the directory. -/
structure Delivered (calls : List SinkCall) : Prop where
  limit : (records calls).length ≤ npConfRecordsMax
  nodup : ((records calls).map ConfRec.id).Nodup
  packs : ∀ r ∈ records calls, ∃ kv, Packs r kv

theorem npConfReadDir_delivered (d : Doubles) (host : ConfHost) (dir shownDir : Bytes) (kind : ConfKind) :
    ∃ calls, npConfReadDir d host dir shownDir kind = some calls ∧ Delivered calls := by
  unfold npConfReadDir
  split
  next => exact ⟨_, rfl, Nat.zero_le _, List.nodup_nil, fun _ h ↦ absurd h List.not_mem_nil⟩
  next names _ =>
    obtain ⟨out, hfiles, hout⟩ := confFiles_ok d host dir shownDir kind
      ((names.filter confNameOk).mergeSort fun a b ↦ decide (a ≤ b)) DirState.Ok.start
    simp only
    rw [hfiles]
    refine ⟨_, rfl, ?_, ?_, hout.packs⟩
    · rw [← List.length_map ConfRec.id, hout.ids]
      exact hout.limit
    · rw [hout.ids]
      exact hout.nodup

end NotProton.Conf
