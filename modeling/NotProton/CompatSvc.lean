import NotProton.WebUi.Routes

/-!
# CompatSvc — the routes of the Compatibility and Settings pages (`compatsvc.c`)

`np_compatsvc_register` runs at the first route lookup and serves NotProton's routes from the table
in `WebUi.Routes`.  The system here is the client looking routes up, building jobs and running them,
in any order.
-/

open NotProton.Library NotProton.WebUi

namespace NotProton.CompatSvc

inductive Handler
  | getCompatTools
  | specifyCompatTool
  | setDefaults
  | setToolDefaults
  | applyToolDefaults
  | prefixState
  | rebuildPrefix
  | backupAndRebuildPrefix
  | openPrefixLog
  deriving DecidableEq, Repr

def routeGetCompatTools : Bytes := ascii "CompatManager.GetCompatTools#1"
def routeSpecifyCompatTool : Bytes := ascii "CompatManager.SpecifyCompatTool#1"
def routePrefixState : Bytes := ascii "NotProton.PrefixState#1"
def routeRebuild : Bytes := ascii "NotProton.RebuildPrefix#1"
def routeBackupRebuild : Bytes := ascii "NotProton.BackupAndRebuildPrefix#1"
def routeOpenLog : Bytes := ascii "NotProton.OpenPrefixLog#1"
def routeSetDefaults : Bytes := ascii "NotProton.SetDefaults#1"
def routeSetToolDefaults : Bytes := ascii "NotProton.SetToolDefaults#1"
def routeApplyToolDefaults : Bytes := ascii "NotProton.ApplyToolDefaults#1"

def typeGetRequest : Bytes := ascii "37CCompatManager_GetCompatTools_Request"
def typeGetResponse : Bytes := ascii "38CCompatManager_GetCompatTools_Response"
def typeSpecifyRequest : Bytes := ascii "40CCompatManager_SpecifyCompatTool_Request"
def typeSpecifyResponse : Bytes := ascii "41CCompatManager_SpecifyCompatTool_Response"
def typeStateChanged : Bytes := ascii "40CCompatManager_StateChanged_Notification"

inductive Routes
  | untried
  | ready
  | absent
  deriving DecidableEq, Repr

/-- The client as this file sees it: its image, where `g_routes` stands, its run-time type
information and its message constructors. -/
structure Host where
  image : Image
  base : Addr
  client : Client
  npRttiVptr : Bytes → Addr
  npWebuiNewMessage : Addr → Addr

structure State (host : Host) where
  routes : Routes
  stateChanged : Addr
  session : Session Handler host.client
  /-- Jobs of NotProton's routes the client has built and not run yet. -/
  jobs : List Job
  /-- The handler that answered each job, none for one that reached no handler. -/
  answers : List (Bytes × Option Handler)

def State.initial (host : Host) : State host :=
  ⟨.untried, 0, ⟨RouteTable.empty, host.client.initial, []⟩, [], []⟩

section
variable {host : Host}

/-- `a || b`: the second registration is made only where the first was accepted. -/
def andThen (r : Bool × Session Handler host.client)
    (next : Session Handler host.client → Bool × Session Handler host.client) :
    Bool × Session Handler host.client :=
  if r.1 then next r.2 else r

/-- The registrations of `np_compatsvc_register` once every message type is found. -/
def registerRoutes (serve : Bytes → Addr → Addr → Handler → Session Handler host.client →
      Bool × Session Handler host.client)
    (request response specifyRequest specifyResponse : Addr) (s : Session Handler host.client) :
    Session Handler host.client :=
  let s := (serve routeSpecifyCompatTool specifyRequest specifyResponse .specifyCompatTool s).2
  let s :=
    (andThen
      (andThen (serve routeSetDefaults specifyRequest specifyResponse .setDefaults s)
        (serve routeSetToolDefaults specifyRequest specifyResponse .setToolDefaults))
      (serve routeApplyToolDefaults specifyRequest specifyResponse .applyToolDefaults)).2
  (andThen
    (andThen
      (andThen (serve routePrefixState request response .prefixState s)
        (serve routeRebuild request response .rebuildPrefix))
      (serve routeBackupRebuild request response .backupAndRebuildPrefix))
    (serve routeOpenLog request response .openPrefixLog)).2

def serve (host : Host) (name : Bytes) (request response : Addr) (handler : Handler)
    (s : Session Handler host.client) : Bool × Session Handler host.client :=
  npWebuiRegisterRoute host.image host.base s name request response handler

def npCompatsvcRegister (st : State host) : State host :=
  if st.routes ≠ .untried ∨ host.image.registry = 0 then st
  else
    let request := host.npRttiVptr typeGetRequest
    let response := host.npRttiVptr typeGetResponse
    if request = 0 ∨ response = 0 then { st with routes := .absent }
    else
      let s := (serve host routeGetCompatTools request response .getCompatTools st.session).2
      let specifyRequest := host.npRttiVptr typeSpecifyRequest
      let specifyResponse := host.npRttiVptr typeSpecifyResponse
      if specifyRequest = 0 ∨ specifyResponse = 0 then { st with routes := .absent, session := s }
      else
        let notification := host.npRttiVptr typeStateChanged
        { st with
          routes := .ready
          session := registerRoutes (serve host) request response specifyRequest specifyResponse s
          stateChanged := if notification ≠ 0 then host.npWebuiNewMessage notification else 0 }

/-! ## The client's side -/

inductive Event
  /-- The client looks a route up, which is where NotProton registers. -/
  | lookup
  /-- A job for a name comes in, and the client builds it from the route it finds. -/
  | arrive (name : Bytes)
  /-- The client runs the `k`-th job it holds. -/
  | run (k : Nat)

def step (st : State host) : Event → State host
  | .lookup => npCompatsvcRegister st
  | .arrive name =>
      match host.client.lookup st.session.client name with
      | none => { st with answers := st.answers ++ [(name, none)] }
      | some record =>
          match routeOfDescriptor host.base st.session record.descriptor with
          -- A route of the client's own, whose job never comes here.
          | none => st
          | some route => { st with jobs := st.jobs ++ [buildJob host.base route.factory name] }
  | .run k =>
      match st.jobs[k]? with
      | none => st
      | some job =>
          { st with
            jobs := st.jobs.eraseIdx k
            answers := st.answers ++ [(job.name, runJob host.image host.base st.session job)] }

def run (st : State host) (es : List Event) : State host := es.foldl step st

/-- The state once the client has looked a route up after some run. -/
def afterLookup (host : Host) (es : List Event) : State host :=
  run (State.initial host) (es ++ [.lookup])

/-- NotProton's routes in the order they are registered, each with its own handler. -/
def notProtonRoutes : List (Bytes × Handler) :=
  [(routeGetCompatTools, .getCompatTools), (routeSpecifyCompatTool, .specifyCompatTool),
    (routeSetDefaults, .setDefaults), (routeSetToolDefaults, .setToolDefaults),
    (routeApplyToolDefaults, .applyToolDefaults), (routePrefixState, .prefixState),
    (routeRebuild, .rebuildPrefix), (routeBackupRebuild, .backupAndRebuildPrefix),
    (routeOpenLog, .openPrefixLog)]

/-- From here on, whatever the client does, a job for the name is built when it comes in and
answered by the handler when it is run. -/
def Served (st : State host) (name : Bytes) (handler : Handler) : Prop :=
  ∀ es,
    (∃ job : Job, job.name = name ∧
      step (run st es) (.arrive name) = { run st es with jobs := (run st es).jobs ++ [job] }) ∧
    ∀ (k : Nat) (job : Job), (run st es).jobs[k]? = some job → job.name = name →
      step (run st es) (.run k) =
        { run st es with
          jobs := (run st es).jobs.eraseIdx k
          answers := (run st es).answers ++ [(name, some handler)] }

/-- Everything the registration looks for is found, and the client's own routes stand outside
`g_routes`. -/
structure Resolves (host : Host) : Prop where
  registry : host.image.registry ≠ 0
  registerFn : host.image.registerFn ≠ 0
  types : ∀ type ∈ [typeGetRequest, typeGetResponse, typeSpecifyRequest, typeSpecifyResponse],
    npPlausiblePtr (host.npRttiVptr type) = true ∧
      host.image.inText (host.image.word (host.npRttiVptr type + msgNewOff)) = true
  jobClass : ∃ b, borrowFromServedRoute host.image = some b ∧ b.slot = host.client.jobSlot
  own : ∀ name record (i : Fin maxRoutes),
    host.client.lookup host.client.initial name = some record →
      record.descriptor ≠ descriptorAddr host.base i

/-! ## The registration -/

/-- The table is sound and serves nothing but some of the first `k` routes. -/
structure Registering (k : Nat) (s : Session Handler host.client) : Prop where
  sound : Sound host.image host.base s
  reported : ∀ e ∈ s.reported, e ∈ notProtonRoutes.take k

theorem Registering.mono {j k : Nat} {s : Session Handler host.client} (h : Registering j s)
    (hjk : j ≤ k) : Registering k s :=
  ⟨h.sound, fun e he ↦ (List.take_prefix_take_left hjk).subset (h.reported e he)⟩

theorem Registering.name_notMem {k : Nat} {s : Session Handler host.client} (h : Registering k s)
    {name : Bytes} {handler : Handler} (hk : notProtonRoutes[k]? = some (name, handler)) :
    name ∉ s.reported.map Prod.fst := by
  intro hm
  obtain ⟨e, he, hname⟩ := List.mem_map.mp hm
  obtain ⟨j, hj⟩ := List.mem_iff_getElem?.mp (h.reported e he)
  have hlt : j < k := by
    obtain ⟨hj, -⟩ := List.getElem?_eq_some_iff.mp hj
    rw [List.length_take] at hj
    omega
  rw [List.getElem?_take_of_lt hlt] at hj
  have hnodup : (notProtonRoutes.map Prod.fst).Nodup := by decide
  have hj' : (notProtonRoutes.map Prod.fst)[j]? = some e.1 := by rw [List.getElem?_map, hj]; rfl
  have hk' : (notProtonRoutes.map Prod.fst)[k]? = some name := by rw [List.getElem?_map, hk]; rfl
  obtain ⟨hjlt, -⟩ := List.getElem?_eq_some_iff.mp hj'
  have := (List.getElem?_inj hjlt hnodup).mp (hj'.trans (hname ▸ hk'.symm))
  omega

theorem Registering.serve (hres : Resolves host) {k : Nat} {s : Session Handler host.client}
    (h : Registering k s) (name : Bytes) (handler : Handler) (request response : Addr)
    (hk : notProtonRoutes[k]? = some (name, handler)) :
    Registering (k + 1) (serve host name request response handler s).2 := by
  have hr := npWebuiRegisterRoute_registered host.image host.base s name request response handler
  have hruns : RunsJobs host.image host.client := by
    intro b hb
    obtain ⟨b', hb', hslot⟩ := hres.jobClass
    exact Option.some.inj (hb'.symm.trans hb) ▸ hslot
  refine ⟨h.sound.registered hruns (h.name_notMem hk) hr, fun e he ↦ ?_⟩
  have he : e ∈ s.reported ∨ e = (name, handler) := by
    rw [CompatSvc.serve, hr.reported] at he
    split at he
    · simpa using he
    · exact .inl he
  rcases he with he | rfl
  · exact (List.take_prefix_take_left k.le_succ).subset (h.reported e he)
  · rw [List.take_add_one, hk]
    exact List.mem_append_right _ (List.mem_singleton_self _)

theorem Registering.andThen {k : Nat} {r : Bool × Session Handler host.client}
    {next : Session Handler host.client → Bool × Session Handler host.client}
    (h : Registering k r.2) (hnext : Registering (k + 1) (next r.2).2) :
    Registering (k + 1) (andThen r next).2 := by
  unfold CompatSvc.andThen
  split
  · exact hnext
  · exact h.mono k.le_succ

theorem registerRoutes_registering (hres : Resolves host) {s : Session Handler host.client}
    (h : Registering 1 s) (request response specifyRequest specifyResponse : Addr) :
    Registering 9
      (registerRoutes (serve host) request response specifyRequest specifyResponse s) := by
  have h2 := h.serve hres _ .specifyCompatTool specifyRequest specifyResponse rfl
  have h3 := h2.serve hres _ .setDefaults specifyRequest specifyResponse rfl
  have h4 := h3.andThen (h3.serve hres _ .setToolDefaults specifyRequest specifyResponse rfl)
  have h5 := h4.andThen (h4.serve hres _ .applyToolDefaults specifyRequest specifyResponse rfl)
  have h6 := h5.serve hres _ .prefixState request response rfl
  have h7 := h6.andThen (h6.serve hres _ .rebuildPrefix request response rfl)
  have h8 := h7.andThen (h7.serve hres _ .backupAndRebuildPrefix request response rfl)
  exact h8.andThen (h8.serve hres _ .openPrefixLog request response rfl)

/-- The table when every registration so far was made and accepted. -/
structure AllServed (k : Nat) (s : Session Handler host.client) : Prop where
  registering : Registering k s
  all : s.reported = notProtonRoutes.take k

theorem AllServed.serve (hres : Resolves host) (haccepts : host.client.AcceptsAll) {k : Nat}
    {s : Session Handler host.client} (h : AllServed k s) (name : Bytes) (handler : Handler)
    (type type' : Bytes) (hk : notProtonRoutes[k]? = some (name, handler)) (hroom : k < maxRoutes)
    (htype : type ∈ [typeGetRequest, typeGetResponse, typeSpecifyRequest, typeSpecifyResponse])
    (htype' : type' ∈ [typeGetRequest, typeGetResponse, typeSpecifyRequest, typeSpecifyResponse]) :
    let r := serve host name (host.npRttiVptr type) (host.npRttiVptr type') handler s
    r.1 = true ∧ AllServed (k + 1) r.2 := by
  have hcount : s.web.routeCount < maxRoutes := by
    rw [h.registering.sound.count, h.all, List.length_take]
    omega
  obtain ⟨hplaus, hnew⟩ := hres.types type htype
  obtain ⟨hplaus', hnew'⟩ := hres.types type' htype'
  obtain ⟨b, hb, -⟩ := hres.jobClass
  have hok := npWebuiRegisterRoute_accepted host.base name handler
    ⟨hres.registry, hres.registerFn⟩ ⟨hplaus, hplaus'⟩ ⟨hnew, hnew'⟩ (by rw [hb]; rfl)
    haccepts hcount
  have hr := npWebuiRegisterRoute_registered host.image host.base s name (host.npRttiVptr type)
    (host.npRttiVptr type') handler
  refine ⟨hok, h.registering.serve hres _ _ _ _ hk, ?_⟩
  rw [CompatSvc.serve, hr.reported, hok, if_pos rfl, h.all, List.take_add_one, hk]
  rfl

theorem andThen_true {r : Bool × Session Handler host.client}
    {next : Session Handler host.client → Bool × Session Handler host.client} (h : r.1 = true) :
    andThen r next = next r.2 := if_pos h

/-- A client that accepts everything is asked eight times: the ninth route finds the table full. -/
theorem registerRoutes_allServed (hres : Resolves host) (haccepts : host.client.AcceptsAll)
    {s : Session Handler host.client} (h : AllServed 1 s) :
    AllServed 8 (registerRoutes (serve host) (host.npRttiVptr typeGetRequest)
      (host.npRttiVptr typeGetResponse) (host.npRttiVptr typeSpecifyRequest)
      (host.npRttiVptr typeSpecifyResponse) s) := by
  have get {k s} (h : AllServed k s) (name : Bytes) (handler : Handler) (hk : _)
      (hroom : k < maxRoutes) :=
    h.serve hres haccepts name handler typeGetRequest typeGetResponse hk hroom (by simp) (by simp)
  have specify {k s} (h : AllServed k s) (name : Bytes) (handler : Handler) (hk : _)
      (hroom : k < maxRoutes) :=
    h.serve hres haccepts name handler typeSpecifyRequest typeSpecifyResponse hk hroom (by simp)
      (by simp)
  obtain ⟨-, h2⟩ := specify h _ .specifyCompatTool rfl (by decide)
  obtain ⟨ok3, h3⟩ := specify h2 _ .setDefaults rfl (by decide)
  obtain ⟨ok4, h4⟩ := specify h3 _ .setToolDefaults rfl (by decide)
  obtain ⟨-, h5⟩ := specify h4 _ .applyToolDefaults rfl (by decide)
  obtain ⟨ok6, h6⟩ := get h5 _ .prefixState rfl (by decide)
  obtain ⟨ok7, h7⟩ := get h6 _ .rebuildPrefix rfl (by decide)
  obtain ⟨ok8, h8⟩ := get h7 _ .backupAndRebuildPrefix rfl (by decide)
  have hfull : _ = maxRoutes := h8.registering.sound.count.trans (by rw [h8.all]; rfl)
  simp only [registerRoutes, andThen_true ok3, andThen_true ok4, andThen_true ok6,
    andThen_true ok7, andThen_true ok8]
  rw [serve, npWebuiRegisterRoute_full hfull]
  exact h8

/-! ## Whole runs -/

/-- What holds of every state the client can bring about. -/
structure Good (st : State host) : Prop where
  registering : Registering 9 st.session
  untried : st.routes = .untried → st.session.reported = []
  jobs : ∀ job ∈ st.jobs, ∃ (i : Fin maxRoutes) (handler : Handler),
    st.session.reported[i.val]? = some (job.name, handler) ∧ job.vptr = vtableAddr host.base i

theorem npCompatsvcRegister_of_tried {st : State host} (h : st.routes ≠ .untried) :
    npCompatsvcRegister st = st := if_pos (.inl h)

theorem Resolves.ne_zero (hres : Resolves host) {type : Bytes}
    (h : type ∈ [typeGetRequest, typeGetResponse, typeSpecifyRequest, typeSpecifyResponse]) :
    host.npRttiVptr type ≠ 0 := by
  intro hz
  have hplaus := (hres.types type h).1
  rw [hz] at hplaus
  exact absurd hplaus (by decide)

/-- What the first lookup does when everything resolves. -/
theorem npCompatsvcRegister_untried (hres : Resolves host) {st : State host}
    (h : st.routes = .untried) :
    ∃ stateChanged, npCompatsvcRegister st =
      { st with
        routes := .ready
        session := registerRoutes (serve host) (host.npRttiVptr typeGetRequest)
          (host.npRttiVptr typeGetResponse) (host.npRttiVptr typeSpecifyRequest)
          (host.npRttiVptr typeSpecifyResponse)
          (serve host routeGetCompatTools (host.npRttiVptr typeGetRequest)
            (host.npRttiVptr typeGetResponse) .getCompatTools st.session).2
        stateChanged := stateChanged } := by
  have hget : host.npRttiVptr typeGetRequest ≠ 0 := hres.ne_zero (by simp)
  have hget' : host.npRttiVptr typeGetResponse ≠ 0 := hres.ne_zero (by simp)
  have hspecify : host.npRttiVptr typeSpecifyRequest ≠ 0 := hres.ne_zero (by simp)
  have hspecify' : host.npRttiVptr typeSpecifyResponse ≠ 0 := hres.ne_zero (by simp)
  simp only [npCompatsvcRegister, h, hres.registry, hget, hget', hspecify, hspecify', ne_eq,
    not_true_eq_false, or_self, if_false]
  exact ⟨_, rfl⟩

theorem initial_good (hres : Resolves host) : Good (State.initial host) := by
  refine ⟨⟨⟨rfl, Nat.zero_le _, List.nodup_nil, ?_, ?_, ?_⟩, ?_⟩, fun _ ↦ rfl, ?_⟩
  · intro b hb
    cases hb
  · intro i name handler hi
    cases hi
  · intro name record i hl hd
    exact absurd hd (hres.own name record i hl)
  · intro e he
    cases he
  · intro job hjob
    cases hjob

theorem routeOfDescriptor_some {st : State host} {descriptor : Addr}
    {route : NpRoute Handler} (h : routeOfDescriptor host.base st.session descriptor = some route) :
    ∃ i : Fin maxRoutes, descriptorAddr host.base i = descriptor ∧
      st.session.web.routes i = some route := by
  obtain ⟨i, hi, hroute⟩ := Option.bind_eq_some_iff.mp h
  exact ⟨i, by simpa using List.find?_some hi, hroute⟩

theorem routeOfDescriptor_self (st : State host) (i : Fin maxRoutes) :
    routeOfDescriptor host.base st.session (descriptorAddr host.base i) =
      st.session.web.routes i := by
  rw [routeOfDescriptor, find_finRange (descriptorAddr_injective host.base), Option.bind_some]

/-- Nothing is untried once a route is served. -/
theorem Good.tried {st : State host} (h : Good st) {e : Bytes × Handler}
    (he : e ∈ st.session.reported) : st.routes ≠ .untried := by
  intro hu
  rw [h.untried hu] at he
  cases he

theorem Good.step (hres : Resolves host) {st : State host} (h : Good st) (e : Event) :
    Good (step st e) := by
  cases e with
  | lookup =>
    show Good (npCompatsvcRegister st)
    -- The routes are served on the first look-up, and never again.
    by_cases hu : st.routes = .untried
    · obtain ⟨stateChanged, hst⟩ := npCompatsvcRegister_untried hres hu
      rw [hst]
      have hnone := h.untried hu
      have h0 : Registering 0 st.session :=
        ⟨h.registering.sound, fun e he ↦ by rw [hnone] at he; cases he⟩
      refine ⟨registerRoutes_registering hres (h0.serve hres _ _ _ _ rfl) _ _ _ _, fun hr ↦ (by cases hr),
        fun job hjob ↦ ?_⟩
      obtain ⟨i, handler, hi, -⟩ := h.jobs job hjob
      rw [hnone] at hi
      cases hi
    · rw [npCompatsvcRegister_of_tried hu]
      exact h
  | arrive name =>
    simp only [CompatSvc.step]
    split
    · exact ⟨h.registering, h.untried, h.jobs⟩
    next record hrecord =>
    split
    · exact h
    -- The descriptor gives back the route that was reported under the name.
    next route hroute =>
    obtain ⟨i, hi, hroute⟩ := routeOfDescriptor_some hroute
    obtain ⟨handler, hreported⟩ := h.registering.sound.known name record i hrecord hi.symm
    obtain ⟨route', hroute', hfactory, -⟩ :=
      (h.registering.sound.serves i name handler hreported).route
    have hsame : route = route' := Option.some.inj (hroute.symm.trans hroute')
    refine ⟨h.registering, h.untried, fun job hjob ↦ ?_⟩
    rcases List.mem_append.mp hjob with hjob | hjob
    · exact h.jobs job hjob
    · rw [List.mem_singleton.mp hjob]
      exact ⟨i, handler, hreported, by rw [buildJob, hsame, hfactory]⟩
  | run k =>
    simp only [CompatSvc.step]
    split
    · exact h
    · exact ⟨h.registering, h.untried, fun job hjob ↦ h.jobs job (List.mem_of_mem_eraseIdx hjob)⟩

theorem Good.run (hres : Resolves host) {st : State host} (h : Good st) (es : List Event) :
    Good (run st es) := by
  induction es generalizing st with
  | nil => exact h
  | cons e es ih => exact ih (h.step hres e)

/-- Once it has run, nothing the client does changes what is registered. -/
theorem step_session {st : State host} (h : st.routes ≠ .untried) (e : Event) :
    (step st e).session = st.session ∧ (step st e).routes = st.routes := by
  cases e with
  | lookup => rw [step, npCompatsvcRegister_of_tried h]; exact ⟨rfl, rfl⟩
  | arrive name => simp only [step]; split <;> [skip; split] <;> exact ⟨rfl, rfl⟩
  | run k => simp only [step]; split <;> exact ⟨rfl, rfl⟩

theorem run_session {st : State host} (h : st.routes ≠ .untried) (es : List Event) :
    (run st es).session = st.session := by
  induction es generalizing st with
  | nil => rfl
  | cons e es ih =>
    obtain ⟨hsession, hroutes⟩ := step_session h e
    exact (ih (hroutes ▸ h)).trans hsession

/-- Every name reported as served is served by its own handler, whatever was refused. -/
theorem served_of_reported (hres : Resolves host) {st : State host} (h : Good st) {name : Bytes}
    {handler : Handler} (hmem : (name, handler) ∈ st.session.reported) : Served st name handler := by
  intro es
  have hgood := h.run hres es
  have hsession := run_session (h.tried hmem) es
  generalize run st es = t at hgood hsession
  rw [← hsession] at hmem
  have hsound := hgood.registering.sound
  constructor
  · obtain ⟨n, hn⟩ := List.mem_iff_getElem?.mp hmem
    obtain ⟨hlt, -⟩ := List.getElem?_eq_some_iff.mp hn
    have hserves := hsound.serves ⟨n, hlt.trans_le hsound.room⟩ name handler hn
    obtain ⟨route, hroute, -⟩ := hserves.route
    obtain ⟨record, hrecord, hdescriptor⟩ := hserves.record
    refine ⟨buildJob host.base route.factory name, rfl, ?_⟩
    simp only [step, hrecord, hdescriptor, routeOfDescriptor_self, hroute]
  · intro k job hk hjob
    obtain ⟨i, handler', hi, hvptr⟩ := hgood.jobs job (List.mem_of_getElem? hk)
    have hsame : handler' = handler :=
      congrArg Prod.snd (List.inj_on_of_nodup_map hsound.names (List.mem_of_getElem? hi) hmem hjob)
    have hserves := hsound.serves i job.name handler' hi
    obtain ⟨hlt, -⟩ := List.getElem?_eq_some_iff.mp hi
    have hrun := hserves.runJob (hsound.count ▸ hlt) job hvptr
    simp only [step, hk, hrun, hjob, hsame]

/-- A name that is not reported reaches no handler of NotProton's. -/
theorem not_served_of_not_reported {st : State host} (h : Good st) {name : Bytes}
    (hname : name ∉ st.session.reported.map Prod.fst) (handler : Handler) :
    ¬ Served st name handler := by
  intro hs
  obtain ⟨⟨job, -, hstep⟩, -⟩ := hs []
  have hjobs : (step st (.arrive name)).jobs = st.jobs ++ [job] := congrArg State.jobs hstep
  have hsame : (step st (.arrive name)).jobs = st.jobs := by
    simp only [step]
    split
    · rfl
    next record hrecord =>
    split
    · rfl
    next route hroute =>
    obtain ⟨i, hi, -⟩ := routeOfDescriptor_some hroute
    obtain ⟨handler', hreported⟩ := h.registering.sound.known name record i hrecord hi.symm
    exact absurd (List.mem_map_of_mem (List.mem_of_getElem? hreported)) hname
  rw [hsame] at hjobs
  simpa using congrArg List.length hjobs

/-- The lookup at which NotProton registers leaves an accepting client serving all but the last. -/
theorem npCompatsvcRegister_allServed (hres : Resolves host) (haccepts : host.client.AcceptsAll)
    {st : State host} (h : Good st)
    (hst : st.routes = .untried ∨ st.session.reported = notProtonRoutes.take 8) :
    (npCompatsvcRegister st).session.reported = notProtonRoutes.take 8 := by
  by_cases hu : st.routes = .untried
  · obtain ⟨stateChanged, hreg⟩ := npCompatsvcRegister_untried hres hu
    have hnone := h.untried hu
    have h0 : AllServed 0 st.session :=
      ⟨⟨h.registering.sound, fun e he ↦ by rw [hnone] at he; cases he⟩, hnone⟩
    obtain ⟨-, h1⟩ := h0.serve hres haccepts _ .getCompatTools typeGetRequest typeGetResponse rfl
      (by decide) (by simp) (by simp)
    rw [hreg]
    exact (registerRoutes_allServed hres haccepts h1).all
  · rw [npCompatsvcRegister_of_tried hu]
    exact hst.resolve_left hu

theorem run_allServed (hres : Resolves host) (haccepts : host.client.AcceptsAll) {st : State host}
    (h : Good st) (hst : st.routes = .untried ∨ st.session.reported = notProtonRoutes.take 8)
    (es : List Event) :
    (run st es).routes = .untried ∨ (run st es).session.reported = notProtonRoutes.take 8 := by
  induction es generalizing st with
  | nil => exact hst
  | cons e es ih =>
    refine ih (h.step hres e) ?_
    cases e with
    | lookup => exact .inr (npCompatsvcRegister_allServed hres haccepts h hst)
    | arrive name => simp only [step]; split <;> [skip; split] <;> exact hst
    | run k => simp only [step]; split <;> exact hst

/-- Whatever the client refuses, every name reported as served is answered by its own handler from
then on.  A client that accepts everything still leaves `NotProton.OpenPrefixLog#1` unserved, since
nine routes are registered and the table holds eight. -/
theorem npCompatsvcRegister_serves (hres : Resolves host) (es : List Event) :
    (∀ route ∈ (afterLookup host es).session.reported,
        Served (afterLookup host es) route.1 route.2) ∧
      (host.client.AcceptsAll → ∀ route ∈ notProtonRoutes,
        (Served (afterLookup host es) route.1 route.2 ↔ route.1 ≠ routeOpenLog)) := by
  have hgood : Good (afterLookup host es) := (initial_good hres).run hres _
  refine ⟨fun route hroute ↦ served_of_reported hres hgood hroute, fun haccepts route hroute ↦ ?_⟩
  have hall : (afterLookup host es).session.reported = notProtonRoutes.take 8 := by
    rw [afterLookup, run, List.foldl_append]
    exact npCompatsvcRegister_allServed hres haccepts ((initial_good hres).run hres es)
      (run_allServed hres haccepts (initial_good hres) (.inl rfl) es)
  have hlast : ∀ route ∈ notProtonRoutes, route.1 ≠ routeOpenLog →
      route ∈ notProtonRoutes.take 8 := by decide
  constructor
  · intro hserved hopen
    refine not_served_of_not_reported hgood ?_ route.2 hserved
    rw [hall, hopen]
    decide
  · intro hopen
    exact served_of_reported hres hgood (hall ▸ hlast route hroute hopen)

end

/-! ## A client that accepts everything -/

/-- A client whose map is a list with the record accepted last first. -/
def listClient (jobSlot : Nat) (own : List (Bytes × RouteRecord)) : Client where
  State := List (Bytes × RouteRecord)
  initial := own
  register s name record := (1, (name, record) :: s)
  lookup s name := s.lookup name
  jobSlot := jobSlot
  lookup_accepted s name record _ other := by
    rw [List.lookup_cons]
    by_cases h : other = name
    · simp [h]
    · rw [if_neg h, beq_false_of_ne h]
  lookup_refused s name record h := absurd rfl h

/-- A client with one route of its own, whose job class has 24 virtuals at `0x120000100`. -/
def oneRouteImage : Image where
  insn pc :=
    -- The stock factory calls its constructor, and that names the vtable.
    if pc = 0x100001000 then 0x94000040
    else if pc = 0x100001100 then 0xF00FFFE0
    else if pc = 0x100001104 then 0x91040000
    -- The virtual in slot 3 sends the response, and everything else returns at once.
    else if pc = 0x100002100 then 0x94000BC0
    else 0xD65F03C0
  word a :=
    if a = 0x200000000 + 96 + 48 then 0x200001000
    else if a = 0x200000000 + 96 + 72 then 1
    else if a = 0x200001000 then 0x200002000
    else if a = 0x200001000 + 8 then 0x200003000
    else if a = 0x200003000 + 16 then 0x100001000
    else if a = 0x120000100 + 24 then 0x100002100
    else 0x100002000
  char a := if a = 0x200002000 then 82 else 0
  textBase := 0x100000000
  textEnd := 0x100010000
  constBase := 0x110000000
  constEnd := 0x130000000
  registry := 0x200000000
  registerFn := 0x100003000
  sendResponse := 0x100005000
  jobHandler := 0x300000000

def oneRouteHost : Host where
  image := oneRouteImage
  base := 0x400000000
  client := listClient 3 [(ascii "R", ⟨0x200003000, 0, 0x100002000, 0x100002000⟩)]
  npRttiVptr _ := 0x120001000
  npWebuiNewMessage _ := 0x500000000

theorem oneRouteHost_resolves : Resolves oneRouteHost where
  registry := by decide
  registerFn := by decide
  types _ _ := by
    show npPlausiblePtr 0x120001000 = true ∧
      oneRouteImage.inText (oneRouteImage.word (0x120001000 + msgNewOff)) = true
    decide
  jobClass := by
    have h : (borrowFromServedRoute oneRouteImage).map Borrowed.slot = some 3 := by decide
    exact Option.map_eq_some_iff.mp h
  own name record i h := by
    have hr : record.descriptor = 0x200003000 := by
      change List.lookup name [(ascii "R", _)] = some record at h
      rw [List.lookup_cons] at h
      split at h <;> cases h
      rfl
    rw [hr]
    revert i
    decide

/-- A client that accepts everything, before it has looked anything up. -/
theorem npCompatsvcRegister_serves_oneRoute :
    (∀ route ∈ (afterLookup oneRouteHost []).session.reported,
        Served (afterLookup oneRouteHost []) route.1 route.2) ∧
      (oneRouteHost.client.AcceptsAll → ∀ route ∈ notProtonRoutes,
        (Served (afterLookup oneRouteHost []) route.1 route.2 ↔ route.1 ≠ routeOpenLog)) :=
  npCompatsvcRegister_serves oneRouteHost_resolves []

/-- The client above accepts all it is asked, and a job for the log reaches no handler. -/
theorem openPrefixLog_dropped :
    Resolves oneRouteHost ∧ oneRouteHost.client.AcceptsAll ∧
      (routeOpenLog, .openPrefixLog) ∈ notProtonRoutes ∧
      (run (State.initial oneRouteHost)
        [.lookup, .arrive routeRebuild, .arrive routeOpenLog, .run 0]).answers =
          [(routeOpenLog, none), (routeRebuild, some .rebuildPrefix)] :=
  ⟨oneRouteHost_resolves, fun _ _ _ ↦ rfl, by decide, by decide⟩

end NotProton.CompatSvc
