import NotProton.SteamBundle.Recorded

/-!
# Recovery — a removal that nothing disturbs comes to its end, whatever has happened before
-/

open NotProton.Library

namespace NotProton.SteamBundle

/-- Every call succeeds, nobody else is there, and all drives are. -/
structure Calm (w : World) : Prop where
  turns : w.turns = []
  drives : ∀ p, (w.steams p).reachable = true

/-- A calm state, whatever the record says. -/
structure Steady (P : World → Prop) : Prop where
  calm : ∀ w, P w → Calm w
  noted : ∀ w l, P w → P (w.noted l)

/-- The bundle at `app`. -/
def With (app : Path) (bundle : Option Bundle) (w : World) : Prop := Calm w ∧ (w.steams app).bundle = bundle

/-- There is a bundle at `app`. -/
def There (app : Path) (w : World) : Prop := Calm w ∧ (w.steams app).bundle.isSome = true

variable {app : Path} {x : Option Bundle} {α β : Type} {P : World → Prop}

theorem Calm.steady : Steady Calm := ⟨fun _ h ↦ h, fun _ _ h ↦ ⟨h.turns, h.drives⟩⟩

theorem With.steady (app : Path) (x : Option Bundle) : Steady (With app x) :=
  ⟨fun _ h ↦ h.1, fun _ _ h ↦ ⟨⟨h.1.turns, h.1.drives⟩, h.2⟩⟩

theorem There.steady (app : Path) : Steady (There app) := ⟨fun _ h ↦ h.1, fun _ _ h ↦ ⟨⟨h.1.turns, h.1.drives⟩, h.2⟩⟩

theorem Calm.next {w : World} (h : Calm w) : w.next = w := by
  obtain ⟨steams, record, legacy, turns⟩ := w
  obtain rfl : turns = [] := h.turns
  rfl

theorem Calm.put {w : World} (h : Calm w) (bundle : Option Bundle) : Calm (w.put app bundle) :=
  ⟨h.turns, fun p ↦ put_reachable.trans (h.drives p)⟩

theorem Calm.look {w : World} (h : Calm w) : w.look app = (w.steams app).bundle := if_pos (h.drives app)

theorem put_bundle {w : World} {bundle : Option Bundle} : ((w.put app bundle).steams app).bundle = bundle := by
  have hnew : (w.put app bundle).steams app = { w.steams app with bundle := bundle } := if_pos rfl
  rw [hnew]

/-! ## Calls that go well -/

theorem call_total {Q : α → World → Prop} (hP : Steady P) {act : Turn → World → World × Except Unit α}
    (h : ∀ w, P w → ∃ a, (act calm w).2 = .ok a ∧ Q a (act calm w).1) : Total P (call act) Q := by
  have hact : ∀ w, P w → act (w.turns.headD calm) w.next = act calm w := by
    intro w hw
    rw [(hP.calm w hw).next, (hP.calm w hw).turns]
    rfl
  refine .step (fun _ _ ↦ trivial) (fun w a hw hok ↦ ?_) fun w e hw hbad ↦ ?_
  · rw [hact w hw] at hok ⊢
    obtain ⟨a', ha', hQ⟩ := h w hw
    obtain rfl := Except.ok.inj (hok.symm.trans ha')
    exact hQ
  · rw [hact w hw] at hbad
    obtain ⟨a', ha', -⟩ := h w hw
    cases hbad.symm.trans ha'

/-- A look whose answer is known goes on with it. -/
theorem read_then {Q : β → World → Prop} (hP : Steady P) {f : Turn → World → Option α} {v : α} {k : α → App β}
    (hf : ∀ w, P w → f calm w = some v) (hk : Total P (k v) Q) : Total P (read f >>= k) Q := by
  refine .bind (R := fun a w ↦ P w ∧ a = v) (call_total hP fun w hw ↦ ⟨v, ?_, hw, rfl⟩) fun a ↦ .given fun ha ↦ ?_
  · show (f calm w).elim (Except.error ()) Except.ok = Except.ok v
    rw [hf w hw]
    rfl
  · rw [ha]
    exact hk

theorem see_then {Q : β → World → Prop} (hP : Steady P) {f : World → α} {v : α} {k : α → App β} (hf : ∀ w, P w → f w = v)
    (hk : Total P (k v) Q) : Total P (see f >>= k) Q := by
  refine .bind (R := fun a w ↦ P w ∧ a = v) (call_total hP fun w hw ↦ ⟨v, congrArg Except.ok (hf w hw), hw, rfl⟩) fun a ↦ .given fun ha ↦ ?_
  rw [ha]
  exact hk

theorem read_total (hP : Steady P) {f : Turn → World → Option α} (hf : ∀ w, P w → (f calm w).isSome = true) :
    Total P (read f) fun _ ↦ P := by
  refine call_total hP fun w hw ↦ ?_
  obtain ⟨a, ha⟩ := Option.isSome_iff_exists.mp (hf w hw)
  refine ⟨a, ?_, hw⟩
  show (f calm w).elim (Except.error ()) Except.ok = Except.ok a
  rw [ha]
  rfl

theorem see_total (hP : Steady P) (f : World → α) : Total P (see f) fun _ ↦ P := call_total hP fun w hw ↦ ⟨f w, rfl, hw⟩

theorem require_total {c : Bool} (hc : c = true) : Total P (require c) fun _ ↦ P :=
  .ite (fun _ ↦ .pure fun _ h ↦ h) fun hbad ↦ absurd hc hbad

theorem elsewhere_total (hP : Steady P) : Total P elsewhere fun _ ↦ P := read_total hP fun _ _ ↦ rfl

theorem paths_total (hP : Steady P) : Total P paths fun _ ↦ P := read_total hP fun _ _ ↦ rfl

theorem write_total (hP : Steady P) (l : List Path) : Total P (write l) fun _ ↦ P :=
  call_total hP fun w hw ↦ ⟨(), rfl, hP.noted w l hw⟩

theorem prepare_total (hP : Steady P) : Total P prepare fun _ ↦ P := .bind (paths_total hP) fun all ↦ write_total hP all

theorem mark_total (hP : Steady P) (app : Path) : Total P (mark app) fun _ ↦ P :=
  .bind (paths_total hP) fun all ↦ write_total hP (all ++ [app])

/-! ## A look at a bundle -/

/-- What `inspect` says of a bundle. -/
def State.of : Option Bundle → State
  | none => .absent
  | some b => if injected (b.insert.getD []) || b.controllerBlock = some controllerBlockValue then .modified
    else if b.dylib then .modified
    else if b.intact then .clean
    else .modified

theorem inspect_then {Q : β → World → Prop} {k : State → App β} (hk : Total (With app x) (k (.of x)) Q) :
    Total (With app x) (inspect app >>= k) Q := by
  have hP := With.steady app x
  have hlook : ∀ w, With app x w → w.look app = x := fun w h ↦ h.1.look.trans h.2
  refine .bind (R := fun state w ↦ With app x w ∧ state = .of x) ?_ fun state ↦ .given fun hstate ↦ hstate ▸ hk
  cases x with
  | none =>
    refine read_then hP (v := false) (fun w h ↦ ?_) (see_then hP (v := false) (fun w h ↦ ?_) (.pure fun w h ↦ ⟨h, rfl⟩))
    · rw [hlook w h]
      rfl
    · rw [h.1.drives app]
      rfl
  | some b =>
    refine read_then hP (v := true) (fun w h ↦ by rw [hlook w h]; rfl) ?_
    refine read_then hP (v := (b.insert, b.controllerBlock)) (fun w h ↦ by rw [hlook w h]; rfl) ?_
    rw [State.of]
    refine .ite (fun hset ↦ ?_) fun hset ↦ ?_
    · exact .pure fun w h ↦ ⟨h, (if_pos hset).symm⟩
    · rw [if_neg hset]
      refine see_then hP (v := b.dylib) (fun w h ↦ by rw [hlook w h]; rfl) (.ite (fun hdylib ↦ ?_) fun hdylib ↦ ?_)
      · exact .pure fun w h ↦ ⟨h, (if_pos hdylib).symm⟩
      · rw [if_neg hdylib]
        exact read_then hP (v := b.intact) (fun w h ↦ by rw [hlook w h]; rfl) (.pure fun w h ↦ ⟨h, rfl⟩)

/-- A bundle that is there is clean when it has no mark, and modified when it has one. -/
theorem State.of_unmarked {b : Bundle} (h : ∀ m, b.has m = false) : State.of (some b) = .clean := by
  have hset : ¬(injected (b.insert.getD []) || decide (b.controllerBlock = some controllerBlockValue)) = true := by
    rw [Bool.or_eq_true, not_or]
    exact ⟨Bool.eq_false_iff.mp (h .insert), Bool.eq_false_iff.mp (h .controllerBlock)⟩
  have hdylib : ¬b.dylib = true := Bool.eq_false_iff.mp (h .dylib)
  have hintact : b.intact = true := (Bool.not_eq_false' _).mp (h .signature)
  rw [State.of, if_neg hset, if_neg hdylib, if_pos hintact]

theorem retireIfClean_then {Q : β → World → Prop} {k : Bool → App β} (hx : State.of x = .absent ∨ State.of x = .clean)
    (hk : Total (With app x) (k true) Q) : Total (With app x) (retireIfClean app >>= k) Q := by
  have hP := With.steady app x
  refine .bind (R := fun retired w ↦ With app x w ∧ retired = true) ?_ fun retired ↦ .given fun hr ↦ hr ▸ hk
  refine inspect_then ?_
  have hretire : Total (With app x) (do let all ← paths; write (all.filter (· ≠ app)); return true)
      fun retired w ↦ With app x w ∧ retired = true :=
    .bind (paths_total hP) fun all ↦ .bind (write_total hP _) fun _ ↦ .pure fun _ h ↦ ⟨h, rfl⟩
  rcases hx with hx | hx
  · rw [hx]
    exact hretire
  · rw [hx]
    exact hretire

/-! ## Restoring a bundle -/

theorem change_total (app : Path) (f : Turn → Bundle → Bundle) : Total (There app) (change app f) fun _ ↦ There app := by
  refine call_total (There.steady app) fun w h ↦ ⟨(), ?_⟩
  obtain ⟨b, hb⟩ := Option.isSome_iff_exists.mp h.2
  have hlook : w.look app = some b := h.1.look.trans hb
  rw [hlook]
  exact ⟨rfl, h.1.put _, congrArg Option.isSome put_bundle⟩

theorem adHocSign_total (app : Path) : Total (There app) (adHocSign app) fun _ ↦ There app := change_total app _

theorem readInfoPlist_total (app : Path) : Total (There app) (readInfoPlist app) fun _ ↦ There app := by
  refine read_total (There.steady app) fun w h ↦ ?_
  rw [h.1.look, Option.isSome_map]
  exact h.2

theorem clearInsert_total (app : Path) : Total (There app) (clearInsert app) fun _ ↦ There app := by
  refine .bind (R := fun _ ↦ There app) (.tryCatch (.bind (readInfoPlist_total app) fun _ ↦ .pure fun _ h ↦ h) fun _ _ h ↦ h.elim) fun plist ↦ ?_
  split
  · exact .pure fun _ h ↦ h
  · exact .pure fun _ h ↦ h
  · exact .bind (change_total app _) fun _ ↦ .pure fun _ h ↦ h

theorem dropDylib_total (app : Path) : Total (There app) (dropDylib app) fun _ ↦ There app :=
  .bind (see_total (There.steady app) _) fun _ ↦
    .ite (fun _ ↦ .bind (change_total app _) fun _ ↦ .pure fun _ h ↦ h) fun _ ↦ .pure fun _ h ↦ h

theorem detach_total (app : Path) : Total (There app) (detach app) fun _ ↦ There app := by
  refine .bind (elsewhere_total (There.steady app)) fun _ ↦ .bind (clearInsert_total app) fun cleared ↦
    .bind (.tryCatch (dropDylib_total app) fun _ _ h ↦ h.elim) fun dropped ↦ .when (fun _ ↦ ?_) fun _ _ h ↦ h
  exact .tryCatch (.bind (adHocSign_total app) fun _ ↦ adHocSign_total app) fun _ _ h ↦ h.elim

theorem replace_total (app : Path) (staged : Bundle) : Total (There app) (replace app staged) fun _ ↦ With app (some staged) := by
  refine .bind (elsewhere_total (There.steady app)) fun _ ↦ call_total (There.steady app) fun w h ↦ ⟨(), ?_⟩
  rw [h.1.drives app]
  exact ⟨rfl, h.1.put _, put_bundle⟩

/-- The package is in its place even when the repair finds fault with it afterwards. -/
theorem repair_replaces (package : Package) (hintact : package.bundle.intact = true) (hvalve : package.bundle.valve = true) (app : Path) :
    Triple (fun _ ↦ True) (There app) (repair package app) (fun _ ↦ With app (some package.bundle)) (With app (some package.bundle)) := by
  have hthere := There.steady app
  have hP := With.steady app (some package.bundle)
  have hgood : (package.bundle.intact && package.bundle.valve) = true := by rw [hintact, hvalve]; rfl
  have hclean := State.of_unmarked (package.genuine hintact hvalve)
  have hlook : ∀ w, With app (some package.bundle) w → w.look app = some package.bundle := fun w h ↦ h.1.look.trans h.2
  have hverify : Total (With app (some package.bundle)) (verifyValveSignature app) fun _ ↦ With app (some package.bundle) := by
    refine read_then hP (v := true) (fun w h ↦ ?_) (require_total rfl)
    rw [hlook w h]
    exact congrArg some hgood
  have hinsert : Total (With app (some package.bundle)) (currentInsert app) fun _ ↦ With app (some package.bundle) := by
    refine .tryCatch (.bind (read_total hP fun w h ↦ ?_) fun _ ↦ .pure fun _ h ↦ h) fun _ _ h ↦ h.elim
    rw [hlook w h]
    rfl
  refine .bind (elsewhere_total hthere).into fun _ ↦ .bind (require_total hgood).into fun _ ↦ .bind (elsewhere_total hthere).into fun _ ↦
    .bind (prepare_total hthere).into fun _ ↦ .bind (replace_total app package.bundle).into fun _ ↦
    .bind hverify.into fun _ ↦ .bind hinsert.into fun insert ↦
    .bind (R := fun _ ↦ With app (some package.bundle)) (.ite (fun _ ↦ .pure fun _ h ↦ h) fun _ ↦ .throw fun _ h ↦ h) fun _ ↦ ?_
  exact Total.into (retireIfClean_then (.inr hclean) (elsewhere_total hP))

theorem restore_total (package : Package) (hintact : package.bundle.intact = true) (hvalve : package.bundle.valve = true) (app : Path) :
    Total (There app) (restore package app) fun _ ↦ Calm := by
  have hthere := There.steady app
  have hclean := State.of_unmarked (package.genuine hintact hvalve)
  refine .bind (mark_total hthere app) fun _ ↦ .bind (elsewhere_total hthere) fun _ ↦ .bind (detach_total app) fun _ ↦
    .bind (R := fun _ ↦ With app (some package.bundle)) (.tryCatch (repair_replaces package hintact hvalve app) fun _ ↦ .pure fun _ h ↦ h) fun _ ↦ ?_
  exact retireIfClean_then (.inr hclean) (Triple.post (require_total rfl) fun _ _ h ↦ h.1)

/-! ## The whole removal -/

theorem State.of_ne_unreachable : State.of x ≠ .unreachable := by
  intro h
  cases x with
  | none => cases h
  | some b =>
    rw [State.of] at h
    split_ifs at h

theorem State.there_of_modified (h : State.of x = .modified) : x.isSome = true := by
  cases x with
  | none => cases h
  | some b => rfl

theorem total_of_bundle {Q : α → World → Prop} {p : App α} (app : Path) (h : ∀ x, Total (With app x) p Q) : Total Calm p Q :=
  fun w hw ↦ h (w.steams app).bundle w ⟨hw, rfl⟩

theorem removeFrom_total (package : Package) (hintact : package.bundle.intact = true) (hvalve : package.bundle.valve = true)
    (tracked : List Path) (target : Path) {r : Removal} (hr : r.failed = false) :
    Total Calm (removeFrom package tracked target r) fun r' w ↦ Calm w ∧ r'.failed = false := by
  refine .tryCatch (total_of_bundle target fun x ↦ .bind (elsewhere_total (With.steady target x)) fun _ ↦ inspect_then ?_) fun _ _ h ↦ h.elim
  have hretire : State.of x = .absent ∨ State.of x = .clean → Total (With target x)
      (do
        Prog.when (tracked.contains target) (do
          let retired ← retireIfClean target
          require retired)
        pure r) fun r' w ↦ Calm w ∧ r'.failed = false := fun hx ↦
    .bind (R := fun _ ↦ With target x)
      (.when (fun _ ↦ retireIfClean_then hx (require_total rfl)) fun _ _ h ↦ h)
      fun _ ↦ .pure fun _ h ↦ ⟨h.1, hr⟩
  -- the one case that has work to do is `modified`: the others leave the bundle alone
  cases hx : State.of x with
  | unreachable => exact absurd hx State.of_ne_unreachable
  | absent => exact hretire (.inl hx)
  | clean => exact hretire (.inr hx)
  | modified =>
    refine .bind (Triple.pre (restore_total package hintact hvalve target) fun w h ↦ ⟨h.1, ?_⟩) fun _ ↦ .pure fun _ h ↦ ⟨h, hr⟩
    rw [h.2]
    exact State.there_of_modified hx

theorem uninstall_total (package : Package) (hintact : package.bundle.intact = true) (hvalve : package.bundle.valve = true) (app : Path) :
    Total Calm (uninstall package app) fun _ ↦ Calm := by
  have hcalm := Calm.steady
  refine .bind (elsewhere_total hcalm) fun _ ↦ .bind (prepare_total hcalm) fun _ ↦ .bind (paths_total hcalm) fun tracked ↦
    .bind (Triple.pre (.each (L := fun _ r w ↦ Calm w ∧ r.failed = false) (fun target _ r ↦ .given fun hr ↦ ?_) _ _) fun _ h ↦ ⟨h, rfl⟩)
    fun r ↦ .given fun hr ↦ ?_
  · exact removeFrom_total package hintact hvalve tracked target hr
  · refine .bind (require_total (by rw [hr]; rfl)) fun _ ↦
      .bind (.when (fun _ ↦ elsewhere_total hcalm) fun _ _ h ↦ h) fun _ ↦ .bind (elsewhere_total hcalm) fun _ ↦
      .bind (call_total hcalm fun w h ↦ ⟨(), rfl, h.turns, h.drives⟩) fun _ ↦ .bind (elsewhere_total hcalm) fun _ ↦ .pure fun _ h ↦ h

/-- Wherever the app has been killed before: once all drives are there and no call fails, removing NotProton comes to its end, and
not one bundle has a mark. -/
theorem uninstall_completes {w : World} (h : Reachable w) (hdrives : ∀ p, (w.steams p).reachable = true) (package : Package)
    (hintact : package.bundle.intact = true) (hvalve : package.bundle.valve = true) (app : Path) :
    (uninstall package app { w with turns := [] }).result = .ok [] ∧
      ∀ p m, ((uninstall package app { w with turns := [] }).last.steams p).has m = false := by
  have hrecorded : Recorded { w with turns := [] } := h.recorded
  have hcalm : Calm { w with turns := [] } := ⟨rfl, hdrives⟩
  obtain ⟨missing, hend, hstill⟩ := (uninstall_total package hintact hvalve app).returns hcalm
  have hremoved := (uninstall_triple package app).ok hrecorded hend
  -- whatever would be missing is away, but all drives are still there
  have hnone : missing = [] := by
    refine List.eq_nil_iff_forall_not_mem.mpr fun p hp ↦ ?_
    exact Bool.false_ne_true ((hremoved.away p hp).symm.trans (hstill.drives p))
  rw [hnone] at hremoved hend
  exact ⟨hend, fun p m ↦ Bool.eq_false_iff.mpr fun hm ↦ List.not_mem_nil (hremoved.marked p m hm)⟩

/-- What a version without the record has left. -/
def older : World where
  steams p := ⟨true, some (if p = defaultApp then ⟨some (deployedDylib defaultApp), some controllerBlockValue, true, true, false⟩ else valves)⟩
  record := none
  legacy := true
  turns := []

theorem older_shipped : Shipped older := by
  intro p m hm
  refine ⟨?_, rfl, rfl⟩
  by_contra hp
  have hvalves : (older.steams p).bundle = some valves := congrArg some (if_neg hp)
  rw [Place.has, hvalves] at hm
  exact absurd hm (Bool.eq_false_iff.mp (valves_unmarked m))

theorem uninstall_completes_older : (uninstall valvesPackage defaultApp { older with turns := [] }).result = .ok [] ∧
    ∀ p m, ((uninstall valvesPackage defaultApp { older with turns := [] }).last.steams p).has m = false :=
  uninstall_completes (.shipped older_shipped) (fun _ ↦ rfl) valvesPackage rfl rfl defaultApp

end NotProton.SteamBundle
