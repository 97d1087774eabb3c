import NotProton.Conf.Reader

/-!
# ConfTakes — the lists of plugins and variants (`webpatch.c`)

What the reader delivers is kept in lists of `NP_CONF_RECORDS_MAX` entries without a check.  Refusals only go to the log.
-/

open NotProton.Library NotProton.Conf

namespace NotProton.WebPatch

/-- A sink's list and how much of it is taken. -/
structure TakeCtx (α : Type) where
  list : List α
  count : Nat

/-- `feat_take` -/
def featTake (ctx : TakeCtx ConfRec) (r : ConfRec) : Option (TakeCtx ConfRec) :=
  if ctx.count < ctx.list.length then some ⟨ctx.list.set ctx.count r, ctx.count + 1⟩ else none

/-- The calls of a sink that only minds records. -/
def takeCalls {σ : Type} (take : σ → ConfRec → Option σ) : σ → List SinkCall → Option σ
  | s, [] => some s
  | s, .record r :: calls => do takeCalls take (← take s r) calls
  | s, .refused .. :: calls => takeCalls take s calls
  | s, .file _ :: calls => takeCalls take s calls

/-- `feat_load`: the list after it and the count it returns. -/
def featLoad (d : Doubles) (host : ConfHost) (home : Bytes) (list : List ConfRec) : Option (List ConfRec × Nat) :=
  let dir := home ++ ascii "/Library/Application Support/notproton/plugins"
  if dir.length ≥ 2048 then some (list, 0)
  else do
    let calls ← npConfReadDir d host dir [] .plugin
    let ctx ← takeCalls featTake ⟨list, 0⟩ calls
    some (ctx.list, ctx.count)

/-! ## Variants -/

def npVarStr : Nat := 192

/-- `np_var_t` -/
structure NpVar where
  name : Bytes
  label : Bytes
  variant : Bytes
  src : Bytes
  dst : Bytes
  builds : Bytes
  removes : Bytes

/-- An entry after `memset` or `calloc`. -/
def NpVar.zero : NpVar := ⟨[], [], [], [], [], List.replicate npConfRecBuf 0, List.replicate npConfRecBuf 0⟩

/-- `v`, `nb` and `nr` of `var_take`. -/
structure VarTake where
  v : NpVar
  nb : Nat
  nr : Nat

/-- A field's branch of the loop, with the code of a `return`. -/
def varField (home : Bytes) (t : VarTake) (f : Bytes × Bytes) : Option (VarTake × Option ConfCode) :=
  if f.1 = ascii "label" then some ({ t with v := { t.v with label := snprintf npVarStr f.2 } }, none)
  else if f.1 = ascii "variant" then some ({ t with v := { t.v with variant := snprintf npVarStr f.2 } }, none)
  else if f.1 = ascii "src" then
    match resolveHomePath 1024 home f.2 with
    | some src => some ({ t with v := { t.v with src := src } }, none)
    -- what was cut off stays in an entry that is not counted
    | none => some (t, some .limit)
  else if f.1 = ascii "dst" then some ({ t with v := { t.v with dst := snprintf npVarStr f.2 } }, none)
  else if f.1 = ascii "build" then
    (memcpy t.v.builds t.nb (f.2 ++ [0])).map fun builds ↦
      ({ t with v := { t.v with builds := builds }, nb := t.nb + (f.2.length + 1) }, none)
  else if f.1 = ascii "remove" then
    (memcpy t.v.removes t.nr (f.2 ++ [0])).map fun removes ↦
      ({ t with v := { t.v with removes := removes }, nr := t.nr + (f.2.length + 1) }, none)
  else some (t, none)

def varFields (home : Bytes) : VarTake → Fields → Option (VarTake × Option ConfCode)
  | t, [] => some (t, none)
  | t, f :: fields => do
      match ← varField home t f with
      | (t, none) => varFields home t fields
      | (t, some code) => some (t, some code)

/-- `var_take`: the list after it and the code it returns. -/
def varTake (home : Bytes) (ctx : TakeCtx NpVar) (r : ConfRec) : Option (TakeCtx NpVar × Option ConfCode) :=
  if ctx.count < ctx.list.length then do
    let fields ← npConfFields r
    let (t, code) ← varFields home ⟨{ NpVar.zero with name := snprintf npVarStr r.id }, 0, 0⟩ fields
    match code with
    | some code => some ({ ctx with list := ctx.list.set ctx.count t.v }, some code)
    | none =>
        let v := if t.v.label = [] then { t.v with label := snprintf npVarStr t.v.name } else t.v
        let v := if v.variant = [] then { v with variant := snprintf npVarStr v.name } else v
        some (⟨ctx.list.set ctx.count v, ctx.count + 1⟩, none)
  else none

/-- `var_load`: the list after it and the count it returns. -/
def varLoad (d : Doubles) (host : ConfHost) (home : Bytes) (list : List NpVar) : Option (List NpVar × Nat) := do
  let dir := snprintf 2048 (home ++ ascii "/Library/Application Support/notproton" ++ ascii "/" ++ ascii "variants")
  let calls ← npConfReadDir d host dir [] .variant
  let ctx ← takeCalls (fun ctx r ↦ (varTake home ctx r).map Prod.fst) ⟨list, 0⟩ calls
  some (ctx.list, ctx.count)

/-! ## Plugins -/

theorem takeCalls_eq {σ : Type} (take : σ → ConfRec → Option σ) (s : σ) (calls : List SinkCall) :
    takeCalls take s calls = (records calls).foldlM take s := by
  induction calls generalizing s with
  | nil => rfl
  | cons call calls ih =>
    cases call with
    | record r =>
      show (take s r).bind (fun s ↦ takeCalls take s calls) = (take s r).bind fun s ↦ (records calls).foldlM take s
      congr 1
      funext s
      exact ih s
    | refused scope code detail => exact ih s
    | file path => exact ih s

theorem featTake_run (rs : List ConfRec) {ctx : TakeCtx ConfRec} (hroom : ctx.count + rs.length ≤ ctx.list.length) :
    ∃ ctx', rs.foldlM featTake ctx = some ctx' ∧ ctx'.list.length = ctx.list.length ∧ ctx'.count = ctx.count + rs.length ∧
      ctx'.list.take ctx'.count = ctx.list.take ctx.count ++ rs := by
  induction rs generalizing ctx with
  | nil => exact ⟨ctx, rfl, rfl, rfl, (List.append_nil _).symm⟩
  | cons r rs ih =>
    rw [List.length_cons] at hroom
    have hcount : ctx.count < ctx.list.length := by omega
    have htake : (ctx.list.set ctx.count r).take (ctx.count + 1) = ctx.list.take ctx.count ++ [r] := by
      have hlength : ctx.count < (ctx.list.set ctx.count r).length := by rwa [List.length_set]
      rw [List.take_succ_eq_append_getElem hlength, List.getElem_set_self, List.take_set_of_le (Nat.le_refl _)]
    let next : TakeCtx ConfRec := ⟨ctx.list.set ctx.count r, ctx.count + 1⟩
    have hnext : next.count + rs.length ≤ next.list.length := by
      show ctx.count + 1 + rs.length ≤ (ctx.list.set ctx.count r).length
      rw [List.length_set]
      omega
    obtain ⟨ctx', hrun, hlength, hcount', htake'⟩ := ih hnext
    have hcount' : ctx'.count = ctx.count + 1 + rs.length := hcount'
    refine ⟨ctx', ?_, ?_, ?_, ?_⟩
    · rw [List.foldlM_cons, featTake, if_pos hcount]
      exact hrun
    · exact hlength.trans List.length_set
    · rw [hcount', List.length_cons]
      omega
    · rw [htake']
      show (ctx.list.set ctx.count r).take (ctx.count + 1) ++ rs = _
      rw [htake, List.append_assoc, List.singleton_append]

theorem featLoad_spec (d : Doubles) (host : ConfHost) (home : Bytes) (list : List ConfRec) (hlist : list.length = npConfRecordsMax) :
    ∃ list' count, featLoad d host home list = some (list', count) ∧ count ≤ npConfRecordsMax ∧
      list'.length = npConfRecordsMax ∧ ∀ r ∈ list'.take count, ∃ kv, Packs r kv := by
  unfold featLoad
  simp only
  split
  next => exact ⟨list, 0, rfl, Nat.zero_le _, hlist, fun _ h ↦ absurd h List.not_mem_nil⟩
  next =>
    obtain ⟨calls, hread, hcalls⟩ := npConfReadDir_delivered d host
      (home ++ ascii "/Library/Application Support/notproton/plugins") [] .plugin
    have hroom : (⟨list, 0⟩ : TakeCtx ConfRec).count + (records calls).length ≤ list.length := by
      show 0 + (records calls).length ≤ list.length
      rw [hlist, Nat.zero_add]
      exact hcalls.limit
    obtain ⟨ctx, hrun, hlength, hcount, htake⟩ := featTake_run (records calls) hroom
    have hcount : ctx.count = (records calls).length := hcount.trans (Nat.zero_add _)
    rw [hread, Option.bind_eq_bind, Option.bind_some, takeCalls_eq, hrun]
    refine ⟨ctx.list, ctx.count, rfl, ?_, hlength.trans hlist, ?_⟩
    · rw [hcount]
      exact hcalls.limit
    · rw [htake]
      exact hcalls.packs

/-! ## Variants -/

theorem npConfAll_append (kv kv' : Fields) (name : Bytes) : npConfAll (kv ++ kv') name = npConfAll kv name ++ npConfAll kv' name := by
  rw [npConfAll, List.filter_append, List.map_append]
  rfl

theorem npConfAll_singleton (f : Bytes × Bytes) (name : Bytes) : npConfAll [f] name = if f.1 = name then [f.2] else [] := by
  unfold npConfAll
  by_cases hf : f.1 = name
  · rw [if_pos hf, List.filter_cons_of_pos (by simpa using hf)]
    rfl
  · rw [if_neg hf, List.filter_cons_of_neg (by simpa using hf)]
    rfl

/-- The values of one field take less than all fields. -/
theorem pack_npConfAll_le (kv : Fields) (name : Bytes) : (pack (npConfAll kv name)).length ≤ (packFields kv).length := by
  induction kv with
  | nil => exact Nat.le_refl _
  | cons f kv ih =>
    rw [← List.singleton_append, npConfAll_append, pack_append, List.length_append, packFields_append, List.length_append,
      packFields_cons_length, npConfAll_singleton]
    split
    next =>
      rw [pack_singleton, List.length_append, List.length_singleton]
      omega
    next =>
      rw [pack_nil, List.length_nil]
      omega

/-- A list in an entry holds the values of one field of those seen so far. -/
structure Keeps (buf : Bytes) (n : Nat) (kv : Fields) (name : Bytes) : Prop where
  holds : Holds buf npConfRecBuf (npConfAll kv name)
  place : n = (pack (npConfAll kv name)).length

/-- A field of another name. -/
theorem Keeps.other {buf : Bytes} {n : Nat} {kv : Fields} {name : Bytes} (h : Keeps buf n kv name) {f : Bytes × Bytes}
    (hf : f.1 ≠ name) : Keeps buf n (kv ++ [f]) name := by
  have hall : npConfAll (kv ++ [f]) name = npConfAll kv name := by
    rw [npConfAll_append, npConfAll_singleton, if_neg hf, List.append_nil]
  exact ⟨by rw [hall]; exact h.holds, by rw [hall]; exact h.place⟩

/-- The write of a value leaves room for the closing empty string, as the field's name has no place here. -/
theorem Keeps.push {buf : Bytes} {n : Nat} {kv : Fields} {f : Bytes × Bytes} (h : Keeps buf n kv f.1) (hf : PlainField f)
    (hfits : (packFields (kv ++ [f])).length ≤ npConfRecBuf) :
    ∃ buf', memcpy buf n (f.2 ++ [0]) = some buf' ∧ Keeps buf' (n + (f.2.length + 1)) (kv ++ [f]) f.1 := by
  have hall : npConfAll (kv ++ [f]) f.1 = npConfAll kv f.1 ++ [f.2] := by
    rw [npConfAll_append, npConfAll_singleton, if_pos rfl]
  have hle := pack_npConfAll_le kv f.1
  have hroom : (pack (npConfAll kv f.1)).length + f.2.length + 1 < npConfRecBuf := by
    rw [packFields_append, List.length_append, packFields_cons_length] at hfits
    omega
  obtain ⟨buf', hwrite, hholds⟩ := h.holds.push ⟨hf.2.2, hf.2.1⟩ hroom
  rw [← h.place] at hwrite
  refine ⟨buf', hwrite, by rw [hall]; exact hholds, ?_⟩
  rw [hall, pack_append, pack_singleton, List.length_append, List.length_append, List.length_singleton, h.place]

/-- The lists of an entry after some fields. -/
structure VarTake.Ok (t : VarTake) (kv : Fields) : Prop where
  builds : Keeps t.v.builds t.nb kv (ascii "build")
  removes : Keeps t.v.removes t.nr kv (ascii "remove")

/-- A branch that leaves the lists alone. -/
theorem VarTake.Ok.other {t : VarTake} {kv : Fields} (h : t.Ok kv) {f : Bytes × Bytes} (hbuild : f.1 ≠ ascii "build")
    (hremove : f.1 ≠ ascii "remove") : t.Ok (kv ++ [f]) := ⟨h.builds.other hbuild, h.removes.other hremove⟩

theorem varField_ok (home : Bytes) {t : VarTake} {kv : Fields} (h : t.Ok kv) {f : Bytes × Bytes} (hf : PlainField f)
    (hfits : (packFields (kv ++ [f])).length ≤ npConfRecBuf) :
    ∃ t' code, varField home t f = some (t', code) ∧ t'.Ok (kv ++ [f]) := by
  -- Only two names are packed, and no other field changes what they hold.
  have hname {name : Bytes} (heq : f.1 = name) (hbuild : name ≠ ascii "build") (hremove : name ≠ ascii "remove") : t.Ok (kv ++ [f]) :=
    h.other (heq ▸ hbuild) (heq ▸ hremove)
  unfold varField
  split
  next heq =>
    have hok := hname heq (by decide) (by decide)
    exact ⟨_, _, rfl, hok.builds, hok.removes⟩
  next =>
  split
  next heq =>
    have hok := hname heq (by decide) (by decide)
    exact ⟨_, _, rfl, hok.builds, hok.removes⟩
  next =>
  split
  next heq =>
    have hok := hname heq (by decide) (by decide)
    split
    next => exact ⟨_, _, rfl, hok.builds, hok.removes⟩
    next => exact ⟨_, _, rfl, hok⟩
  next =>
  split
  next heq =>
    have hok := hname heq (by decide) (by decide)
    exact ⟨_, _, rfl, hok.builds, hok.removes⟩
  next =>
  split
  next heq =>
    have hbuilds := h.builds
    rw [← heq] at hbuilds
    obtain ⟨buf, hwrite, hkeeps⟩ := hbuilds.push hf hfits
    rw [hwrite]
    rw [heq] at hkeeps
    exact ⟨_, _, rfl, hkeeps, h.removes.other (by rw [heq]; decide)⟩
  next hbuild =>
  split
  next heq =>
    have hremoves := h.removes
    rw [← heq] at hremoves
    obtain ⟨buf, hwrite, hkeeps⟩ := hremoves.push hf hfits
    rw [hwrite]
    rw [heq] at hkeeps
    exact ⟨_, _, rfl, h.builds.other hbuild, hkeeps⟩
  next hremove => exact ⟨_, _, rfl, h.other hbuild hremove⟩

theorem varFields_ok (home : Bytes) {fields : Fields} {t : VarTake} {kv : Fields} (h : t.Ok kv) (hplain : ∀ f ∈ fields, PlainField f)
    (hfits : (packFields (kv ++ fields)).length ≤ npConfRecBuf) :
    ∃ t' code kv', varFields home t fields = some (t', code) ∧ t'.Ok kv' ∧ (code = none → kv' = kv ++ fields) := by
  induction fields generalizing t kv with
  | nil => exact ⟨t, none, kv, rfl, h, fun _ ↦ (List.append_nil kv).symm⟩
  | cons f fields ih =>
    obtain ⟨hf, hrest⟩ := List.forall_mem_cons.mp hplain
    have hsplit : kv ++ f :: fields = kv ++ [f] ++ fields := by rw [List.append_assoc, List.singleton_append]
    rw [hsplit] at hfits ⊢
    have hfit : (packFields (kv ++ [f])).length ≤ npConfRecBuf := by
      rw [packFields_append, List.length_append] at hfits
      omega
    obtain ⟨t', code, hstep, hok⟩ := varField_ok home h hf hfit
    rw [varFields, hstep, Option.bind_eq_bind, Option.bind_some]
    cases code with
    | none => exact ih hok hrest hfits
    | some code => exact ⟨t', some code, kv ++ [f], rfl, hok, fun h ↦ by cases h⟩

/-- Both lists of an entry are strings one behind the other, an empty one last. -/
def NpVar.Listed (v : NpVar) : Prop := ∃ builds removes, Holds v.builds npConfRecBuf builds ∧ Holds v.removes npConfRecBuf removes

theorem listed_zero : NpVar.zero.Listed := ⟨[], [], holds_replicate (by decide), holds_replicate (by decide)⟩

theorem NpVar.Listed.of_ok {t : VarTake} {kv : Fields} (h : t.Ok kv) {v : NpVar} (hbuilds : v.builds = t.v.builds)
    (hremoves : v.removes = t.v.removes) : v.Listed :=
  ⟨_, _, by rw [hbuilds]; exact h.builds.holds, by rw [hremoves]; exact h.removes.holds⟩

theorem listed_set {list : List NpVar} (h : ∀ v ∈ list, v.Listed) {v : NpVar} (hv : v.Listed) (i : Nat) :
    ∀ w ∈ list.set i v, w.Listed := by
  intro w hw
  rcases List.mem_or_eq_of_mem_set hw with hold | rfl
  · exact h w hold
  · exact hv

theorem varTake_ok (home : Bytes) {ctx : TakeCtx NpVar} (hroom : ctx.count < ctx.list.length) (hlist : ∀ v ∈ ctx.list, v.Listed)
    {r : ConfRec} (hr : ∃ kv, Packs r kv) :
    ∃ ctx' code, varTake home ctx r = some (ctx', code) ∧ ctx'.list.length = ctx.list.length ∧
      ctx'.count ≤ ctx.count + 1 ∧ ∀ v ∈ ctx'.list, v.Listed := by
  obtain ⟨kv, hkv⟩ := hr
  have hstart : VarTake.Ok ⟨{ NpVar.zero with name := snprintf npVarStr r.id }, 0, 0⟩ [] :=
    ⟨⟨holds_replicate (by decide), rfl⟩, ⟨holds_replicate (by decide), rfl⟩⟩
  have hfits : (packFields ([] ++ kv)).length ≤ npConfRecBuf := by
    rw [List.nil_append, ← hkv.kvlen]
    exact hkv.fits
  obtain ⟨t, code, kv', hfields, hok, -⟩ := varFields_ok home hstart hkv.plain hfits
  unfold varTake
  rw [if_pos hroom, npConfFields_packs hkv, Option.bind_eq_bind, Option.bind_some, hfields]
  cases code with
  | some code =>
    exact ⟨_, _, rfl, List.length_set, Nat.le_succ _, listed_set hlist (NpVar.Listed.of_ok hok rfl rfl) _⟩
  | none =>
    refine ⟨_, _, rfl, List.length_set, Nat.le_refl _, listed_set hlist (NpVar.Listed.of_ok hok ?_ ?_) _⟩
    · split <;> split <;> rfl
    · split <;> split <;> rfl

theorem varTake_run (home : Bytes) (rs : List ConfRec) {ctx : TakeCtx NpVar} (hroom : ctx.count + rs.length ≤ ctx.list.length)
    (hlist : ∀ v ∈ ctx.list, v.Listed) (hrs : ∀ r ∈ rs, ∃ kv, Packs r kv) :
    ∃ ctx', rs.foldlM (fun ctx r ↦ (varTake home ctx r).map Prod.fst) ctx = some ctx' ∧ ctx'.list.length = ctx.list.length ∧
      ctx'.count ≤ ctx.count + rs.length ∧ ∀ v ∈ ctx'.list, v.Listed := by
  induction rs generalizing ctx with
  | nil => exact ⟨ctx, rfl, rfl, Nat.le_refl _, hlist⟩
  | cons r rs ih =>
    rw [List.length_cons] at hroom
    obtain ⟨hr, hrest⟩ := List.forall_mem_cons.mp hrs
    obtain ⟨next, code, htake, hlength, hcount, hnext⟩ := varTake_ok home (by omega) hlist hr
    obtain ⟨ctx', hrun, hlength', hcount', hctx'⟩ := ih (by rw [hlength]; omega) hnext hrest
    refine ⟨ctx', ?_, hlength'.trans hlength, ?_, hctx'⟩
    · rw [List.foldlM_cons, htake]
      exact hrun
    · rw [List.length_cons]
      omega

theorem varLoad_spec (d : Doubles) (host : ConfHost) (home : Bytes) {list : List NpVar} (hlength : list.length = npConfRecordsMax)
    (hlist : ∀ v ∈ list, v.Listed) :
    ∃ list' count, varLoad d host home list = some (list', count) ∧ count ≤ npConfRecordsMax ∧
      list'.length = npConfRecordsMax ∧ ∀ v ∈ list', v.Listed := by
  unfold varLoad
  simp only
  obtain ⟨calls, hread, hcalls⟩ := npConfReadDir_delivered d host
    (snprintf 2048 (home ++ ascii "/Library/Application Support/notproton" ++ ascii "/" ++ ascii "variants")) [] .variant
  have hlimit := hcalls.limit
  have hroom : (⟨list, 0⟩ : TakeCtx NpVar).count + (records calls).length ≤ list.length := by
    show 0 + (records calls).length ≤ list.length
    omega
  obtain ⟨ctx, hrun, hlength', hcount, hctx⟩ := varTake_run home (records calls) hroom hlist hcalls.packs
  rw [hread, Option.bind_eq_bind, Option.bind_some, takeCalls_eq, hrun]
  refine ⟨ctx.list, ctx.count, rfl, ?_, hlength'.trans hlength, hctx⟩
  have hcount : ctx.count ≤ 0 + (records calls).length := hcount
  omega

/-! ## The capacities -/

/-- Whatever the directories hold, no access leaves its buffer: at most 32 records are delivered, each with its own id and
with fields that the iterator walks one by one, and both lists take what is delivered. -/
theorem confCapacities (d : Doubles) (host : ConfHost) :
    (∀ dir shownDir kind, ∃ calls, npConfReadDir d host dir shownDir kind = some calls ∧
      (records calls).length ≤ npConfRecordsMax ∧ ((records calls).map ConfRec.id).Nodup ∧
      ∀ r ∈ records calls, ∃ kv : Fields, r.nkv = kv.length ∧ r.kv.length = npConfRecBuf ∧ r.kvlen ≤ npConfRecBuf ∧
        r.kv.take r.kvlen = packFields kv ∧ ∀ i, npConfNext r i = some (kv[i]?.map fun f ↦ (f.1, f.2, i + 1))) ∧
    (∀ home, ∃ list count, featLoad d host home (List.replicate npConfRecordsMax ConfRec.zero) = some (list, count) ∧
      count ≤ npConfRecordsMax ∧ list.length = npConfRecordsMax) ∧
    ∀ home, ∃ list count, varLoad d host home (List.replicate npConfRecordsMax NpVar.zero) = some (list, count) ∧
      count ≤ npConfRecordsMax ∧ list.length = npConfRecordsMax ∧
      ∀ v ∈ list, ∃ builds removes, Holds v.builds npConfRecBuf builds ∧ packedStrings npConfRecBuf v.builds = some builds ∧
        Holds v.removes npConfRecBuf removes ∧ packedStrings npConfRecBuf v.removes = some removes := by
  refine ⟨?_, ?_, ?_⟩
  · intro dir shownDir kind
    obtain ⟨calls, hread, hcalls⟩ := npConfReadDir_delivered d host dir shownDir kind
    refine ⟨calls, hread, hcalls.limit, hcalls.nodup, ?_⟩
    intro r hr
    obtain ⟨kv, hkv⟩ := hcalls.packs r hr
    obtain ⟨rest, htext⟩ := hkv.text
    refine ⟨kv, hkv.nkv, hkv.size, hkv.fits, ?_, npConfNext_packs hkv⟩
    rw [hkv.kvlen, htext, List.take_left]
  · intro home
    obtain ⟨list, count, hload, hcount, hlength, -⟩ := featLoad_spec d host home
      (List.replicate npConfRecordsMax ConfRec.zero) List.length_replicate
    exact ⟨list, count, hload, hcount, hlength⟩
  · intro home
    -- The list is empty records at first, which hold their packed strings too.
    have hzero : ∀ v ∈ List.replicate npConfRecordsMax NpVar.zero, v.Listed := by
      intro v hv
      rw [List.eq_of_mem_replicate hv]
      exact listed_zero
    obtain ⟨list, count, hload, hcount, hlength, hlisted⟩ := varLoad_spec d host home List.length_replicate hzero
    refine ⟨list, count, hload, hcount, hlength, ?_⟩
    intro v hv
    obtain ⟨builds, removes, hbuilds, hremoves⟩ := hlisted v hv
    exact ⟨builds, removes, hbuilds, hbuilds.strings, hremoves, hremoves.strings⟩

end NotProton.WebPatch
