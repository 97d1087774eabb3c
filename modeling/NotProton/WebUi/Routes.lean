import NotProton.WebUi.JobClass
import NotProton.Library.Lists

/-!
# Routes — serving routes the client does not (`webui.c`)

`g_routes` is a fixed table.  The client keeps the address of a route's descriptor, and a job is told
apart by the address of its vtable in that table.
-/

open NotProton.Library

namespace NotProton.WebUi

def maxRoutes : Nat := 8
def msgNewOff : UInt64 := 24
def descConstantValue : UInt64 := 0xFFFFFFFD00000000

/-- The four words `np_webui_register_route` hands the client. -/
structure RouteRecord where
  descriptor : Addr
  flags : UInt64
  requestNew : Addr
  responseNew : Addr

/-- The client's registry: its answer to a registration and the record it looks a name up to.  A
name it accepts leads to the record given last, and a refusal changes nothing. -/
structure Client where
  State : Type
  initial : State
  register : State → Bytes → RouteRecord → Int × State
  lookup : State → Bytes → Option RouteRecord
  /-- The virtual it runs a job through. -/
  jobSlot : Nat
  lookup_accepted : ∀ s name record, (register s name record).1 = 1 → ∀ other,
    lookup (register s name record).2 other = if other = name then some record else lookup s other
  lookup_refused : ∀ s name record, (register s name record).1 ≠ 1 →
    lookup (register s name record).2 = lookup s

/-- Every registration the client is asked for is accepted. -/
def Client.AcceptsAll (c : Client) : Prop := ∀ s name record, (c.register s name record).1 = 1

/-- `np_route_t`.  The factory is an index into `g_job_factories`. -/
structure NpRoute (H : Type) where
  name : Bytes
  constant : UInt64
  factory : Fin maxRoutes
  handler : H
  vtable : List UInt64

/-- The statics of `webui.c`, and where `g_routes` stands. -/
structure RouteTable (H : Type) where
  routes : Fin maxRoutes → Option (NpRoute H)
  routeCount : Nat
  /-- What `borrow_from_served_route` left in `g_clone`, `g_stock_factory` and `g_route_flags`. -/
  borrowed : Option Borrowed

def RouteTable.empty {H : Type} : RouteTable H := ⟨fun _ ↦ none, 0, none⟩

/-- `sizeof(np_route_t)`: seven words of descriptor, the handler, and the vtable. -/
def routeSize : UInt64 := 272

/-- `&g_routes[i].descriptor`. -/
def descriptorAddr (base : Addr) (i : Fin maxRoutes) : Addr := base + routeSize * UInt64.ofNat i

/-- `&g_routes[i].vtable[2]`. -/
def vtableAddr (base : Addr) (i : Fin maxRoutes) : Addr := descriptorAddr base i + 80

/-- NotProton's side of the client together with the client's own. -/
structure Session (H : Type) (c : Client) where
  web : RouteTable H
  client : c.State
  /-- The names `np_webui_register_route` has returned 1 for, each with its handler. -/
  reported : List (Bytes × H)

section
variable {H : Type} {c : Client}

def npWebuiRegisterRoute (m : Image) (base : Addr) (s : Session H c) (name : Bytes)
    (requestVptr responseVptr : Addr) (handler : H) : Bool × Session H c :=
  if m.registry = 0 ∨ m.registerFn = 0 then (false, s)
  else if npPlausiblePtr requestVptr = false ∨ npPlausiblePtr responseVptr = false then (false, s)
  else if h : maxRoutes ≤ s.web.routeCount then (false, s)
  else
    match s.web.borrowed <|> borrowFromServedRoute m with
    | none => (false, s)
    | some b =>
        let s := { s with web := { s.web with borrowed := some b } }
        let requestNew := m.word (requestVptr + msgNewOff)
        let responseNew := m.word (responseVptr + msgNewOff)
        if m.inText requestNew = false ∨ m.inText responseNew = false then (false, s)
        else
          let slot : Fin maxRoutes := ⟨s.web.routeCount, Nat.lt_of_not_le h⟩
          let route : NpRoute H := ⟨name, descConstantValue, slot, handler, b.clone⟩
          let s :=
            { s with web := { s.web with routes := Function.update s.web.routes slot (some route) } }
          let (rc, client) := c.register s.client name
            ⟨descriptorAddr base slot, b.flags, requestNew, responseNew⟩
          if rc ≠ 1 then (false, { s with client := client })
          else
            (true,
              { s with
                web := { s.web with routeCount := s.web.routeCount + 1 }
                client := client
                reported := s.reported ++ [(name, handler)] })

/-- A job of NotProton's that the client holds. -/
structure Job where
  name : Bytes
  vptr : Addr

/-- The route whose descriptor stands at an address, if one of ours does. -/
def routeOfDescriptor (base : Addr) (s : Session H c) (descriptor : Addr) : Option (NpRoute H) :=
  ((List.finRange maxRoutes).find? fun i ↦ descriptorAddr base i = descriptor).bind s.web.routes

/-- `build_job`: the stock factory's job with the route's vtable. -/
def buildJob (base : Addr) (route : Fin maxRoutes) (name : Bytes) : Job := ⟨name, vtableAddr base route⟩

/-- The word a job's virtual `slot` is read from. -/
def virtualAt (base : Addr) (s : Session H c) (vptr : Addr) (slot : Nat) : Option UInt64 :=
  (((List.finRange maxRoutes).find? fun i ↦ vtableAddr base i = vptr).bind s.web.routes).bind
    fun route ↦ route.vtable[2 + slot]?

/-- The handler `job_handler` calls, or none where it answers `RESULT_FAIL` by itself. -/
def jobHandler (base : Addr) (s : Session H c) (vptr : Addr) : Option H :=
  (((List.finRange maxRoutes).find? fun i ↦
    decide (i.val < s.web.routeCount) && vtableAddr base i == vptr).bind s.web.routes).map
      NpRoute.handler

/-- The handler that answers when the client runs a job. -/
def runJob (m : Image) (base : Addr) (s : Session H c) (job : Job) : Option H :=
  if virtualAt base s job.vptr c.jobSlot = some m.jobHandler then jobHandler base s job.vptr
  else none

/-! ## What the table holds -/

/-- Entry `i` of the table, the record the client has for it and the name reported for it belong
together. -/
structure ServesAt (m : Image) (base : Addr) (s : Session H c) (i : Fin maxRoutes)
    (name : Bytes) (handler : H) : Prop where
  route : ∃ route, s.web.routes i = some route ∧ route.factory = i ∧ route.handler = handler ∧
    route.vtable[2 + c.jobSlot]? = some m.jobHandler
  record : ∃ record, c.lookup s.client name = some record ∧
    record.descriptor = descriptorAddr base i

/-- The routes reported as served are the first entries of the table, and the client knows no other
entry of it. -/
structure Sound (m : Image) (base : Addr) (s : Session H c) : Prop where
  count : s.web.routeCount = s.reported.length
  room : s.reported.length ≤ maxRoutes
  names : (s.reported.map Prod.fst).Nodup
  borrowed : ∀ b, s.web.borrowed = some b → borrowFromServedRoute m = some b
  serves : ∀ (i : Fin maxRoutes) name handler, s.reported[i.val]? = some (name, handler) →
    ServesAt m base s i name handler
  known : ∀ name record (i : Fin maxRoutes), c.lookup s.client name = some record →
    record.descriptor = descriptorAddr base i → ∃ handler, s.reported[i.val]? = some (name, handler)

/-- The client runs a job through the virtual that its own job class answers in. -/
def RunsJobs (m : Image) (c : Client) : Prop :=
  ∀ b, borrowFromServedRoute m = some b → b.slot = c.jobSlot

theorem descriptorAddr_injective (base : Addr) : Function.Injective (descriptorAddr base) := by
  have hmul : ∀ i j : Fin maxRoutes,
      routeSize * UInt64.ofNat i = routeSize * UInt64.ofNat j → i = j := by decide
  intro i j h
  apply hmul
  unfold descriptorAddr at h
  grind

theorem vtableAddr_injective (base : Addr) : Function.Injective (vtableAddr base) := by
  intro i j h
  apply descriptorAddr_injective base
  unfold vtableAddr at h
  grind

/-- Finding an entry of the table by an address that tells entries apart. -/
theorem find_finRange {f : Fin maxRoutes → Addr} (hf : Function.Injective f) (i : Fin maxRoutes) :
    ((List.finRange maxRoutes).find? fun j ↦ decide (f j = f i)) = some i :=
  find?_eq_some_of_unique (List.mem_finRange i) (by simp) fun _ _ hb ↦ hf (by simpa using hb)

/-! ## Registering -/

/-- What one registration can do: nothing but borrow the job class, fill an entry the client then
refuses, or fill one it accepts. -/
inductive Registered (m : Image) (base : Addr) (s : Session H c) (name : Bytes) (handler : H) :
    Bool → Session H c → Prop
  | untouched (borrowed : Option Borrowed)
      (hb : ∀ b, borrowed = some b → s.web.borrowed = some b ∨ borrowFromServedRoute m = some b) :
      Registered m base s name handler false { s with web := { s.web with borrowed := borrowed } }
  | refused (slot : Fin maxRoutes) (route : NpRoute H) (b : Borrowed) (client : c.State)
      (hslot : slot.val = s.web.routeCount)
      (hb : s.web.borrowed = some b ∨ borrowFromServedRoute m = some b)
      (hclient : c.lookup client = c.lookup s.client) :
      Registered m base s name handler false
        { s with
          web := ⟨Function.update s.web.routes slot (some route), s.web.routeCount, some b⟩
          client := client }
  | accepted (slot : Fin maxRoutes) (route : NpRoute H) (b : Borrowed) (client : c.State)
      (record : RouteRecord)
      (hslot : slot.val = s.web.routeCount)
      (hb : s.web.borrowed = some b ∨ borrowFromServedRoute m = some b)
      (hroute : route.factory = slot ∧ route.handler = handler ∧ route.vtable = b.clone)
      (hrecord : record.descriptor = descriptorAddr base slot)
      (hclient : ∀ other, c.lookup client other =
        if other = name then some record else c.lookup s.client other) :
      Registered m base s name handler true
        { s with
          web := ⟨Function.update s.web.routes slot (some route), s.web.routeCount + 1, some b⟩
          client := client
          reported := s.reported ++ [(name, handler)] }

theorem npWebuiRegisterRoute_registered (m : Image) (base : Addr) (s : Session H c) (name : Bytes)
    (requestVptr responseVptr : Addr) (handler : H) :
    let r := npWebuiRegisterRoute m base s name requestVptr responseVptr handler
    Registered m base s name handler r.1 r.2 := by
  have hsame : Registered m base s name handler false s :=
    .untouched s.web.borrowed fun _ hb ↦ .inl hb
  simp only [npWebuiRegisterRoute]
  split
  · exact hsame
  split
  · exact hsame
  split
  · exact hsame
  next hroom =>
  split
  · exact hsame
  next b hb =>
  have hb : s.web.borrowed = some b ∨ borrowFromServedRoute m = some b := by
    cases hs : s.web.borrowed with
    | none => exact .inr (by rw [hs] at hb; exact hb)
    | some b' => exact .inl (by rw [hs] at hb; exact hb)
  split
  · exact .untouched (some b) fun b' hb' ↦ Option.some.inj hb' ▸ hb
  split
  next hrc => exact .refused _ _ b _ rfl hb (c.lookup_refused _ _ _ hrc)
  next hrc =>
    exact .accepted _ _ b _ _ rfl hb ⟨rfl, rfl, rfl⟩ rfl (c.lookup_accepted _ _ _ (not_not.mp hrc))

theorem Registered.reported {m : Image} {base : Addr} {s s' : Session H c} {name : Bytes}
    {handler : H} {ok : Bool} (h : Registered m base s name handler ok s') :
    s'.reported = if ok then s.reported ++ [(name, handler)] else s.reported := by
  cases h <;> rfl

theorem ServesAt.frame {m : Image} {base : Addr} {s s' : Session H c} {i : Fin maxRoutes}
    {name : Bytes} {handler : H} (h : ServesAt m base s i name handler)
    (hr : s'.web.routes i = s.web.routes i)
    (hc : c.lookup s'.client name = c.lookup s.client name) : ServesAt m base s' i name handler :=
  ⟨hr ▸ h.route, hc ▸ h.record⟩

theorem Sound.borrowed_some {m : Image} {base : Addr} {s : Session H c} (h : Sound m base s)
    {b : Borrowed} (hb : s.web.borrowed = some b ∨ borrowFromServedRoute m = some b) :
    borrowFromServedRoute m = some b :=
  hb.elim (h.borrowed b) id

/-- A registration under a name not served yet keeps the table sound. -/
theorem Sound.registered {m : Image} {base : Addr} {s s' : Session H c} {name : Bytes} {handler : H}
    {ok : Bool} (hrun : RunsJobs m c) (h : Sound m base s)
    (hname : name ∉ s.reported.map Prod.fst) (hr : Registered m base s name handler ok s') :
    Sound m base s' := by
  have hne : ∀ (slot i : Fin maxRoutes) (e : Bytes × H), slot.val = s.web.routeCount →
      s.reported[i.val]? = some e → i ≠ slot := by
    intro slot i e hslot he hi
    obtain ⟨hlt, -⟩ := List.getElem?_eq_some_iff.mp he
    rw [hi, hslot, h.count] at hlt
    exact absurd hlt (lt_irrefl _)
  cases hr with
  | untouched borrowed hb =>
    exact ⟨h.count, h.room, h.names, fun b e ↦ h.borrowed_some (hb b e),
      fun i n f e ↦ (h.serves i n f e).frame rfl rfl, h.known⟩
  | refused slot route b client hslot hb hclient =>
    refine ⟨h.count, h.room, h.names, fun b' e ↦ Option.some.inj e ▸ h.borrowed_some hb,
      fun i n f e ↦ (h.serves i n f e).frame ?_ (congrFun hclient n), ?_⟩
    · exact Function.update_of_ne (hne slot i _ hslot e) _ _
    · intro n record i hl
      exact h.known n record i (congrFun hclient n ▸ hl)
  | accepted slot route b client record hslot hb hroute hrecord hclient =>
    have hlen : slot.val = s.reported.length := hslot.trans h.count
    have hb := h.borrowed_some hb
    -- The new route's table is the borrowed one but for its job, and goes behind the others.
    have hclone : route.vtable[2 + c.jobSlot]? = some m.jobHandler := by
      rw [hroute.2.2, ← hrun b hb]
      exact (borrowFromServedRoute_spec hb).2
    refine ⟨by simp [h.count], ?_, ?_, fun b' e ↦ Option.some.inj e ▸ hb, ?_, ?_⟩
    · rw [List.length_append, List.length_singleton, ← hlen]
      exact slot.isLt
    · rw [List.map_append, List.nodup_append]
      refine ⟨h.names, List.nodup_singleton _, ?_⟩
      intro a ha a' ha' hsame
      rw [List.map_singleton, List.mem_singleton] at ha'
      rw [hsame, ha'] at ha
      exact hname ha
    · intro i n f e
      rcases Nat.lt_or_ge i.val s.reported.length with hi | hi
      · rw [List.getElem?_append_left hi] at e
        have hn : n ≠ name := by
          rintro rfl
          exact hname (List.mem_map_of_mem (List.mem_of_getElem? e))
        refine (h.serves i n f e).frame (Function.update_of_ne (hne slot i _ hslot e) _ _) ?_
        exact (hclient n).trans (if_neg hn)
      · rw [List.getElem?_append_right hi] at e
        have hi' : i.val = slot.val := by
          obtain ⟨hlt, -⟩ := List.getElem?_eq_some_iff.mp e
          simp only [List.length_singleton] at hlt
          omega
        have hi' : i = slot := Fin.ext hi'
        subst hi'
        simp only [hlen, Nat.sub_self, List.getElem?_cons_zero, Option.some.injEq,
          Prod.mk.injEq] at e
        obtain ⟨rfl, rfl⟩ := e
        exact ⟨⟨route, Function.update_self .., hroute.1, hroute.2.1, hclone⟩,
          ⟨record, (hclient _).trans (if_pos rfl), hrecord⟩⟩
    · intro n record' i hl hd
      simp only [hclient] at hl
      split at hl
      next hn =>
        cases hl
        rw [hrecord] at hd
        rw [← descriptorAddr_injective base hd, hlen, hn]
        exact ⟨handler, List.getElem?_concat_length ..⟩
      next =>
        obtain ⟨f, hf⟩ := h.known n record' i hl hd
        obtain ⟨hlt, -⟩ := List.getElem?_eq_some_iff.mp hf
        exact ⟨f, (List.getElem?_append_left hlt).trans hf⟩

/-- With the message types and the job class resolved, and room left, an accepting client serves. -/
theorem npWebuiRegisterRoute_accepted {m : Image} (base : Addr) {s : Session H c} (name : Bytes)
    (handler : H) {requestVptr responseVptr : Addr} (hreg : m.registry ≠ 0 ∧ m.registerFn ≠ 0)
    (htypes : npPlausiblePtr requestVptr = true ∧ npPlausiblePtr responseVptr = true)
    (hnew : m.inText (m.word (requestVptr + msgNewOff)) = true ∧
      m.inText (m.word (responseVptr + msgNewOff)) = true)
    (hclass : (borrowFromServedRoute m).isSome = true) (haccepts : c.AcceptsAll)
    (hroom : s.web.routeCount < maxRoutes) :
    (npWebuiRegisterRoute m base s name requestVptr responseVptr handler).1 = true := by
  obtain ⟨b, hb⟩ := Option.isSome_iff_exists.mp hclass
  have hsome : ∃ b', (s.web.borrowed <|> borrowFromServedRoute m) = some b' := by
    cases s.web.borrowed with
    | none => exact ⟨b, hb⟩
    | some b' => exact ⟨b', rfl⟩
  obtain ⟨b', hb'⟩ := hsome
  simp only [npWebuiRegisterRoute, hb', hreg, htypes, hnew, Nat.not_le_of_lt hroom, haccepts _ _ _]
  simp

/-- A full table serves nothing more. -/
theorem npWebuiRegisterRoute_full {m : Image} {base : Addr} {s : Session H c} {name : Bytes}
    {requestVptr responseVptr : Addr} {handler : H} (hfull : s.web.routeCount = maxRoutes) :
    npWebuiRegisterRoute m base s name requestVptr responseVptr handler = (false, s) := by
  simp only [npWebuiRegisterRoute, hfull, le_refl, dite_true, ite_self]

/-! ## Running jobs -/

/-- The job built from a served route is answered by the route's own handler. -/
theorem ServesAt.runJob {m : Image} {base : Addr} {s : Session H c} {i : Fin maxRoutes}
    {name : Bytes} {handler : H} (h : ServesAt m base s i name handler)
    (hi : i.val < s.web.routeCount) (job : Job) (hjob : job.vptr = vtableAddr base i) :
    runJob m base s job = some handler := by
  obtain ⟨route, hroute, -, hhandler, hvtable⟩ := h.route
  have hfind : ((List.finRange maxRoutes).find? fun j ↦
      decide (j.val < s.web.routeCount) && vtableAddr base j == vtableAddr base i) = some i :=
    find?_eq_some_of_unique (List.mem_finRange i) (by simp [hi]) fun j _ hj ↦
      vtableAddr_injective base (by simpa using (Bool.and_eq_true_iff.mp hj).2)
  have hvirtual : virtualAt base s (vtableAddr base i) c.jobSlot = some m.jobHandler := by
    rw [virtualAt, find_finRange (vtableAddr_injective base), Option.bind_some, hroute,
      Option.bind_some, hvtable]
  rw [WebUi.runJob, hjob, if_pos hvirtual, jobHandler, hfind, Option.bind_some, hroute,
    Option.map_some, hhandler]

end

end NotProton.WebUi
