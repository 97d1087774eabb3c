import NotProton.Library.FolderTree

/-!
# TreeWalk — going through a tree with a list of the folders that are left

A folder taken from the front of the list is entered or passed over.  One that is entered has each of its entries visited, and
the folders among them go to the end.  Each step changes a state or ends the walk with the state it leaves.
-/

namespace NotProton.Library

variable {ν α β σ : Type}

namespace FolderTree

/-- How many entries there are, those inside folders too. -/
def size : FolderTree ν α β → Nat
  | done => 0
  | leaf _ _ rest => rest.size + 1
  | folder _ _ inner rest => inner.size + rest.size + 1

/-- The folders among the entries of the folder at `path`, where `into` lets them. -/
def folders (into : List ν → Bool) (path : List ν) : FolderTree ν α β → List (List ν × FolderTree ν α β)
  | done => []
  | leaf _ _ rest => rest.folders into path
  | folder n _ inner rest => if into (path ++ [n]) then (path ++ [n], inner) :: rest.folders into path else rest.folders into path

theorem mem_folders {into : List ν → Bool} {path : List ν} {n : ν} {b : β} {inner t : FolderTree ν α β}
    (h : (n, .folder b inner) ∈ t.toList) (hinto : into (path ++ [n]) = true) : (path ++ [n], inner) ∈ t.folders into path := by
  induction t with
  | done => cases h
  | leaf m a rest ih =>
    obtain heq | h := List.mem_cons.mp h
    · cases heq
    · exact ih h
  | folder m c inner' rest _ ih =>
    rw [folders]
    obtain heq | h := List.mem_cons.mp h
    · cases heq
      rw [if_pos hinto]
      exact List.mem_cons_self
    · split_ifs
      · exact List.mem_cons_of_mem _ (ih h)
      · exact ih h

theorem folders_mem {into : List ν → Bool} {path p : List ν} {inner t : FolderTree ν α β} (h : (p, inner) ∈ t.folders into path) :
    ∃ n b, p = path ++ [n] ∧ (n, .folder b inner) ∈ t.toList := by
  induction t with
  | done => cases h
  | leaf m a rest ih =>
    obtain ⟨n, b, hp, hmem⟩ := ih h
    exact ⟨n, b, hp, List.mem_cons_of_mem _ hmem⟩
  | folder m c inner' rest _ ih =>
    have hrest : (p, inner) ∈ rest.folders into path → ∃ n b, p = path ++ [n] ∧ (n, .folder b inner) ∈ (folder m c inner' rest).toList := by
      intro hmem
      obtain ⟨n, b, hp, hmem⟩ := ih hmem
      exact ⟨n, b, hp, List.mem_cons_of_mem _ hmem⟩
    rw [folders] at h
    split_ifs at h
    · obtain heq | h := List.mem_cons.mp h
      · cases heq
        exact ⟨m, c, rfl, List.mem_cons_self⟩
      · exact hrest h
    · exact hrest h

end FolderTree

/-- What is left to go through. -/
abbrev Queue (ν α β : Type) := List (List ν × FolderTree ν α β)

def Queue.weight : Queue ν α β → Nat
  | [] => 0
  | (_, t) :: queue => (t.size + 1) + Queue.weight queue

theorem Queue.weight_append (queue later : Queue ν α β) : Queue.weight (queue ++ later) = queue.weight + later.weight := by
  induction queue with
  | nil => exact (Nat.zero_add _).symm
  | cons e queue ih =>
    show (e.2.size + 1) + Queue.weight (queue ++ later) = (e.2.size + 1) + Queue.weight queue + later.weight
    omega

theorem FolderTree.weight_folders (into : List ν → Bool) (path : List ν) (t : FolderTree ν α β) :
    Queue.weight (t.folders into path) ≤ t.size := by
  induction t with
  | done => exact Nat.le_refl 0
  | leaf n a rest ih => exact Nat.le_succ_of_le ih
  | folder n b inner rest _ ih =>
    rw [folders, size]
    split_ifs
    · show (inner.size + 1) + Queue.weight (rest.folders into path) ≤ _
      omega
    · omega

/-- The state a walk is in at its end or where it broke off. -/
def stateOf : Except σ σ → σ
  | .ok s => s
  | .error s => s

section

variable (enter : List ν → σ → Except σ (σ × Bool)) (into : List ν → Bool) (visit : List ν → Entry ν α β → σ → Except σ σ)

/-- The entries of one folder. -/
def visitAll (path : List ν) : List (ν × Entry ν α β) → σ → Except σ σ
  | [], s => .ok s
  | (n, e) :: rest, s =>
    match visit (path ++ [n]) e s with
    | .error s => .error s
    | .ok s => visitAll path rest s

def walk : Queue ν α β → σ → Except σ σ
  | [], s => .ok s
  | (path, t) :: queue, s =>
    match enter path s with
    | .error s => .error s
    | .ok (s, false) => walk queue s
    | .ok (s, true) =>
      match visitAll visit path t.toList s with
      | .error s => .error s
      | .ok s => walk (queue ++ t.folders into path) s
  termination_by queue => Queue.weight queue
  decreasing_by
    · show Queue.weight queue < (t.size + 1) + Queue.weight queue
      omega
    · have hfolders := t.weight_folders into path
      rw [Queue.weight_append]
      show _ < (t.size + 1) + Queue.weight queue
      omega

/-- The walk ends at a folder that may not be entered. -/
def allow (may : List ν → σ → Bool) (path : List ν) (s : σ) : Except σ (σ × Bool) := if may path s then .ok (s, true) else .error s

variable {enter into visit}

theorem visitAll_ok (hvisit : ∀ p e s, ∃ s', visit p e s = .ok s') (path : List ν) (l : List (ν × Entry ν α β)) (s : σ) :
    ∃ s', visitAll visit path l s = .ok s' := by
  induction l generalizing s with
  | nil => exact ⟨s, rfl⟩
  | cons x l ih =>
    obtain ⟨n, e⟩ := x
    obtain ⟨s', hs⟩ := hvisit (path ++ [n]) e s
    rw [visitAll, hs]
    exact ih s'

/-- A walk none of whose steps ends it gets to its end. -/
theorem walk_ok (henter : ∀ path s, ∃ s' b, enter path s = .ok (s', b)) (hvisit : ∀ p e s, ∃ s', visit p e s = .ok s')
    (queue : Queue ν α β) (s : σ) : ∃ s', walk enter into visit queue s = .ok s' := by
  induction queue, s using walk.induct enter into visit with
  | case1 s => exact ⟨s, by rw [walk]⟩
  | case2 path t queue s s' h =>
    obtain ⟨s₁, b, hs⟩ := henter path s
    rw [hs] at h
    cases h
  | case3 path t queue s s' h ih =>
    rw [walk, h]
    exact ih
  | case4 path t queue s s₁ h s₂ hall =>
    obtain ⟨s₃, hs⟩ := visitAll_ok hvisit path t.toList s₁
    rw [hs] at hall
    cases hall
  | case5 path t queue s s₁ h s₂ hall ih =>
    rw [walk, h]
    dsimp only
    rw [hall]
    exact ih

/-! ## What holds along a walk -/

/-- What is known of a visit to an entry of the tree: how it changes the state, and what it does where it does not end the
walk, which no later visit undoes. -/
structure VisitRule (visit : List ν → Entry ν α β → σ → Except σ σ) (Of : List ν → Entry ν α β → Prop) (R : σ → σ → Prop)
    (Done : List ν → Entry ν α β → σ → Prop) : Prop where
  refl : ∀ s, R s s
  trans : ∀ s t u, R s t → R t u → R s u
  step : ∀ p e s, Of p e → R s (stateOf (visit p e s))
  done : ∀ p e s s', Of p e → visit p e s = .ok s' → Done p e s'
  keep : ∀ p e s s', R s s' → Done p e s → Done p e s'

/-- What is known of coming to a folder: how it changes the state, and that what is below one passed over counts as done. -/
structure EnterRule (enter : List ν → σ → Except σ (σ × Bool)) (R : σ → σ → Prop) (Done : List ν → Entry ν α β → σ → Prop) : Prop where
  step : ∀ path s s' b, enter path s = .ok (s', b) → R s s'
  stop : ∀ path s s', enter path s = .error s' → R s s'
  pass : ∀ path s s' q e, enter path s = .ok (s', false) → Done (path ++ q) e s'

variable {Of : List ν → Entry ν α β → Prop} {R : σ → σ → Prop} {Done : List ν → Entry ν α β → σ → Prop}

theorem EnterRule.allow {may : List ν → σ → Bool} (hrefl : ∀ s, R s s) : EnterRule (allow may) R Done where
  step path s s' b h := by
    rw [Library.allow] at h
    split_ifs at h
    obtain rfl := (Prod.mk.inj (Except.ok.inj h)).1
    exact hrefl s
  stop path s s' h := by
    rw [Library.allow] at h
    split_ifs at h
    obtain rfl := Except.error.inj h
    exact hrefl s
  pass path s s' q e h := by
    rw [Library.allow] at h
    split_ifs at h
    cases (Prod.mk.inj (Except.ok.inj h)).2

theorem visitAll_rel (rule : VisitRule visit Of R Done) {path : List ν} {l : List (ν × Entry ν α β)}
    (hof : ∀ n e, (n, e) ∈ l → Of (path ++ [n]) e) (s : σ) : R s (stateOf (visitAll visit path l s)) := by
  induction l generalizing s with
  | nil => exact rule.refl s
  | cons x l ih =>
    obtain ⟨n, e⟩ := x
    have hstep := rule.step (path ++ [n]) e s (hof n e List.mem_cons_self)
    rw [visitAll]
    cases hv : visit (path ++ [n]) e s with
    | error s' =>
      rw [hv] at hstep
      exact hstep
    | ok s' =>
      rw [hv] at hstep
      exact rule.trans _ _ _ hstep (ih (fun n e h ↦ hof n e (List.mem_cons_of_mem _ h)) s')

/-- Every entry that is left in the queue, at its path. -/
def Queue.Below (queue : Queue ν α β) (p : List ν) (x : Entry ν α β) : Prop :=
  ∃ path t, (path, t) ∈ queue ∧ ∃ n e q, (n, e) ∈ t.toList ∧ e.Has q x ∧ p = path ++ n :: q

theorem Queue.Below.folders {queue : Queue ν α β} {path p : List ν} {t : FolderTree ν α β} {x : Entry ν α β}
    (h : Queue.Below (queue ++ t.folders into path) p x) : Queue.Below ((path, t) :: queue) p x := by
  obtain ⟨path', t', hmem, n, e, q, hn, hq, hp⟩ := h
  obtain hmem | hmem := List.mem_append.mp hmem
  · exact ⟨path', t', List.mem_cons_of_mem _ hmem, n, e, q, hn, hq, hp⟩
  · obtain ⟨m, b, rfl, hm⟩ := FolderTree.folders_mem hmem
    refine ⟨path, t, List.mem_cons_self, m, .folder b t', n :: q, hm, .inner hn hq, ?_⟩
    rw [hp, List.append_assoc]
    rfl

theorem Queue.below_entry {queue : Queue ν α β} {path : List ν} {t : FolderTree ν α β} {n : ν} {e : Entry ν α β}
    (h : (n, e) ∈ t.toList) : Queue.Below ((path, t) :: queue) (path ++ [n]) e :=
  ⟨path, t, List.mem_cons_self, n, e, [], h, .here e, rfl⟩

/-- Wherever a walk ends, it has made steps of the two kinds only. -/
theorem walk_rel (rule : VisitRule visit Of R Done) (rule' : EnterRule enter R Done) {queue : Queue ν α β}
    (hof : ∀ p x, queue.Below p x → Of p x) (s : σ) : R s (stateOf (walk enter into visit queue s)) := by
  have hentries : ∀ {path : List ν} {t : FolderTree ν α β} {queue : Queue ν α β}, (∀ p x, Queue.Below ((path, t) :: queue) p x → Of p x) →
      ∀ s, R s (stateOf (visitAll visit path t.toList s)) :=
    fun hof ↦ visitAll_rel rule fun n e h ↦ hof _ e (Queue.below_entry h)
  induction queue, s using walk.induct enter into visit with
  | case1 s =>
    rw [walk]
    exact rule.refl s
  | case2 path t queue s s' henter =>
    rw [walk, henter]
    exact rule'.stop _ _ _ henter
  | case3 path t queue s s' henter ih =>
    rw [walk, henter]
    exact rule.trans _ _ _ (rule'.step _ _ _ _ henter) (ih fun p x ⟨path, t, hmem, h⟩ ↦ hof p x ⟨path, t, List.mem_cons_of_mem _ hmem, h⟩)
  | case4 path t queue s s₁ henter s₂ hall =>
    have hall' := hentries hof s₁
    rw [walk, henter]
    dsimp only
    rw [hall] at hall' ⊢
    exact rule.trans _ _ _ (rule'.step _ _ _ _ henter) hall'
  | case5 path t queue s s₁ henter s₂ hall ih =>
    have hall' := hentries hof s₁
    rw [walk, henter]
    dsimp only
    rw [hall] at hall' ⊢
    have hlater := ih fun p x h ↦ hof p x h.folders
    exact rule.trans _ _ _ (rule'.step _ _ _ _ henter) (rule.trans _ _ _ hall' hlater)

/-! ## What a finished walk has done -/

theorem visitAll_done (rule : VisitRule visit Of R Done) {path : List ν} {l : List (ν × Entry ν α β)}
    (hof : ∀ n e, (n, e) ∈ l → Of (path ++ [n]) e) {s s' : σ} (h : visitAll visit path l s = .ok s') :
    ∀ n e, (n, e) ∈ l → Done (path ++ [n]) e s' := by
  induction l generalizing s with
  | nil => exact fun _ _ h ↦ absurd h List.not_mem_nil
  | cons x l ih =>
    obtain ⟨n, e⟩ := x
    have hrest : ∀ n e, (n, e) ∈ l → Of (path ++ [n]) e := fun n e h ↦ hof n e (List.mem_cons_of_mem _ h)
    rw [visitAll] at h
    cases hv : visit (path ++ [n]) e s with
    | error t =>
      rw [hv] at h
      cases h
    | ok t =>
      rw [hv] at h
      have hall : visitAll visit path l t = .ok s' := h
      have hlater := visitAll_rel rule hrest t
      rw [hall] at hlater
      intro m f hmem
      obtain heq | hmem := List.mem_cons.mp hmem
      · cases heq
        exact rule.keep _ _ _ _ hlater (rule.done _ _ _ _ (hof n e List.mem_cons_self) hv)
      · exact ih hrest hall m f hmem

/-- A walk that gets to its end has done every entry that no folder on the way to it is kept out of. -/
theorem walk_done (rule : VisitRule visit Of R Done) (rule' : EnterRule enter R Done) {queue : Queue ν α β}
    (hof : ∀ p x, queue.Below p x → Of p x) {s s' : σ} (h : walk enter into visit queue s = .ok s') :
    ∀ path t, (path, t) ∈ queue → ∀ n e q x, (n, e) ∈ t.toList → e.Has q x →
      (∀ r, r <+: q → r ≠ q → into (path ++ n :: r) = true) → Done (path ++ n :: q) x s' := by
  induction queue, s using walk.induct enter into visit with
  | case1 s => exact fun _ _ h ↦ absurd h List.not_mem_nil
  | case2 path t queue s s₁ henter =>
    rw [walk, henter] at h
    cases h
  | case3 path t queue s s₁ henter ih =>
    rw [walk, henter] at h
    have hrest : walk enter into visit queue s₁ = .ok s' := h
    have hqueue : ∀ p x, Queue.Below queue p x → Of p x := fun p x ⟨path, t, hmem, h⟩ ↦ hof p x ⟨path, t, List.mem_cons_of_mem _ hmem, h⟩
    have hlater : R s₁ (stateOf (walk enter into visit queue s₁)) := walk_rel rule rule' hqueue s₁
    rw [hrest] at hlater
    intro path' t' hmem n e q x hn hq hinto
    obtain heq | hmem := List.mem_cons.mp hmem
    · cases heq
      exact rule.keep _ _ _ _ hlater (rule'.pass _ _ _ (n :: q) x henter)
    · exact ih hqueue hrest path' t' hmem n e q x hn hq hinto
  | case4 path t queue s s₁ henter s₂ hall =>
    rw [walk, henter] at h
    dsimp only at h
    rw [hall] at h
    cases h
  | case5 path t queue s s₁ henter s₂ hall ih =>
    rw [walk, henter] at h
    dsimp only at h
    rw [hall] at h
    have hrest : walk enter into visit (queue ++ t.folders into path) s₂ = .ok s' := h
    have hentry : ∀ n e, (n, e) ∈ t.toList → Of (path ++ [n]) e := fun n e h ↦ hof _ e (Queue.below_entry h)
    have hfolders : ∀ p x, Queue.Below (queue ++ t.folders into path) p x → Of p x := fun p x h ↦ hof p x h.folders
    have hlater : R s₂ (stateOf (walk enter into visit (queue ++ t.folders into path) s₂)) := walk_rel rule rule' hfolders s₂
    rw [hrest] at hlater
    intro path' t' hmem n e q x hn hq hinto
    obtain heq | hmem := List.mem_cons.mp hmem
    · cases heq
      cases hq with
      | here => exact rule.keep _ _ _ _ hlater (visitAll_done rule hentry hall n _ hn)
      | inner hm hq =>
        -- the folder is behind the others in the queue
        have hfolder := FolderTree.mem_folders hn (hinto [] List.nil_prefix (List.cons_ne_nil _ _).symm)
        have hbelow := ih hfolders hrest _ _ (List.mem_append_right queue hfolder) _ _ _ _ hm hq
        rw [List.append_assoc] at hbelow
        apply hbelow
        intro r hr hne
        rw [List.append_assoc]
        exact hinto (_ :: r) (List.cons_prefix_cons.mpr ⟨rfl, hr⟩) fun heq ↦ hne (List.cons.inj heq).2
    · exact ih hfolders hrest path' t' (List.mem_append_left _ hmem) n e q x hn hq hinto

end

end NotProton.Library
