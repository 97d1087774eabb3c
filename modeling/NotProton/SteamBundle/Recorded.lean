import NotProton.SteamBundle.Deployment

/-!
# Recorded — a bundle that NotProton has changed is in its record, wherever the app is killed
-/

open NotProton.Library

namespace NotProton.SteamBundle

/-- Every bundle with a mark is in the record. -/
def Recorded (w : World) : Prop := ∀ p m, (w.steams p).has m = true → p ∈ w.paths

/-! ## Between two calls -/

theorem next_has {w : World} {p : Path} {m : Mark} (h : (w.next.steams p).has m = true) : (w.steams p).has m = true :=
  (w.turns.headD calm).others.tame w.steams p m h

theorem next_reachable {w : World} {p : Path} (h : (w.next.steams p).reachable = true) : (w.steams p).reachable = true :=
  (w.turns.headD calm).others.away w.steams p h

theorem next_away {w : World} {p : Path} (h : (w.steams p).reachable = false) : (w.next.steams p).reachable = false := by
  cases hr : (w.next.steams p).reachable with
  | false => rfl
  | true =>
    rw [next_reachable hr] at h
    exact h

/-- What others cannot undo. -/
structure Lasting (P : World → Prop) : Prop where
  next : ∀ w, P w → P w.next
  recorded : ∀ w, P w → Recorded w

/-- What is known of the other bundles. -/
structure Known where
  /-- the ones that may have marks -/
  marked : Path → Prop
  /-- the ones that cannot be reached -/
  away : Path → Prop

def Known.nothing : Known := ⟨fun _ ↦ True, fun _ ↦ False⟩

/-- The record is there and has all, `app` too if it is to be, and the bundles other than `app` are as `known`. -/
structure Holds (app : Path) (inRecord : Bool) (known : Known) (w : World) : Prop where
  recorded : Recorded w
  written : w.record.isSome = true
  inRecord : inRecord = true → app ∈ w.paths
  only : ∀ p m, p ≠ app → (w.steams p).has m = true → known.marked p
  away : ∀ p, known.away p → (w.steams p).reachable = false

variable {app : Path} {b : Bool} {known : Known} {α β : Type} {P : World → Prop}

theorem Recorded.next {w : World} (h : Recorded w) : Recorded w.next := fun p m hm ↦ h p m (next_has hm)

theorem Recorded.lasting : Lasting Recorded := ⟨fun _ h ↦ h.next, fun _ h ↦ h⟩

theorem Holds.lasting (app : Path) (b : Bool) (known : Known) : Lasting (Holds app b known) where
  next _ h := ⟨h.recorded.next, h.written, h.inRecord, fun p m hp hm ↦ h.only p m hp (next_has hm), fun p hp ↦ next_away (h.away p hp)⟩
  recorded _ h := h.recorded

theorem Holds.forget {w : World} (h : Holds app b known w) : Holds app false known w :=
  ⟨h.recorded, h.written, fun hb ↦ (by cases hb), h.only, h.away⟩

/-- `P`, and something that others cannot undo either. -/
theorem Lasting.and (hP : Lasting P) {Q : World → Prop} (hQ : ∀ w, Q w → Q w.next) : Lasting fun w ↦ P w ∧ Q w :=
  ⟨fun w h ↦ ⟨hP.next w h.1, hQ w h.2⟩, fun w h ↦ hP.recorded w h.1⟩

/-! ## Programs that keep what holds -/

/-- Wherever the program is cut off all is recorded, and at its end, good or bad, `P` still holds. -/
def Keeps (P : World → Prop) (p : App α) : Prop := Triple Recorded P p (fun _ ↦ P) P

theorem Keeps.into {p : App α} {E : World → Prop} (h : Keeps P p) (hE : ∀ w, P w → E w) : Triple Recorded P p (fun _ ↦ P) E :=
  h.failing hE

theorem Keeps.pure (a : α) : Keeps P (Pure.pure a : App α) := Triple.pure fun _ h ↦ h

theorem Keeps.throw : Keeps P (MonadExcept.throw () : App α) := Triple.throw fun _ h ↦ h

theorem Keeps.bind {p : App α} {f : α → App β} (hp : Keeps P p) (hf : ∀ a, Keeps P (f a)) : Keeps P (p >>= f) := Triple.bind hp hf

theorem Keeps.tryCatch {p : App α} {h : Unit → App α} (hp : Keeps P p) (hh : ∀ e, Keeps P (h e)) : Keeps P (MonadExcept.tryCatch p h) :=
  Triple.tryCatch hp hh

theorem Keeps.ite {c : Prop} [Decidable c] {p q : App α} (hp : Keeps P p) (hq : Keeps P q) : Keeps P (if c then p else q) :=
  Triple.ite (fun _ ↦ hp) fun _ ↦ hq

theorem Keeps.when {c : Bool} {p : App Unit} (hp : Keeps P p) : Keeps P (Prog.when c p) := Triple.when (fun _ ↦ hp) fun _ _ h ↦ h

theorem require_triple (c : Bool) : Triple Recorded P (require c) (fun _ w ↦ P w ∧ c = true) P :=
  .ite (fun hc ↦ .pure fun _ h ↦ ⟨h, hc⟩) fun _ ↦ .throw fun _ h ↦ h

theorem Keeps.require (c : Bool) : Keeps P (require c) := (require_triple c).post fun _ _ h ↦ h.1

theorem call_triple {Q : α → World → Prop} {E : World → Prop} (hP : Lasting P) {act : Turn → World → World × Except Unit α}
    (hI : ∀ turn w, P w → Recorded (act turn w).1) (hQ : ∀ turn w a, P w → (act turn w).2 = .ok a → Q a (act turn w).1)
    (hE : ∀ turn w e, P w → (act turn w).2 = .error e → E (act turn w).1) : Triple Recorded P (call act) Q E :=
  Triple.step (fun w h ↦ hI _ _ (hP.next w h)) (fun w a h ↦ hQ _ _ a (hP.next w h)) fun w e h ↦ hE _ _ e (hP.next w h)

/-- A look leaves all as it is, and says what it has seen. -/
theorem read_triple (hP : Lasting P) (f : Turn → World → Option α) :
    Triple Recorded P (read f) (fun a w ↦ P w ∧ ∃ turn, f turn w = some a) P := by
  refine call_triple hP (fun turn w h ↦ hP.recorded w h) (fun turn w a h hok ↦ ⟨h, turn, ?_⟩) fun turn w e h _ ↦ h
  dsimp only at hok
  split_ifs at hok
  cases hf : f turn w with
  | none =>
    rw [hf] at hok
    cases hok
  | some a' =>
    rw [hf] at hok
    exact congrArg some (Except.ok.inj hok)

theorem see_triple {E : World → Prop} (hP : Lasting P) (f : World → α) : Triple Recorded P (see f) (fun a w ↦ P w ∧ f w = a) E := by
  refine call_triple hP (fun turn w h ↦ hP.recorded w h) (fun turn w a h hok ↦ ⟨h, Except.ok.inj hok⟩) fun turn w e h hbad ↦ ?_
  cases hbad

theorem read_keeps (hP : Lasting P) (f : Turn → World → Option α) : Keeps P (read f) := (read_triple hP f).post fun _ _ h ↦ h.1

theorem see_keeps (hP : Lasting P) (f : World → α) : Keeps P (see f) := (see_triple hP f).post fun _ _ h ↦ h.1

theorem elsewhere_keeps (hP : Lasting P) : Keeps P elsewhere := read_keeps hP _

theorem readInfoPlist_keeps (hP : Lasting P) (app : Path) : Keeps P (readInfoPlist app) := read_keeps hP _

theorem attempt_keeps {p : App Unit} (hp : Keeps P p) : Keeps P (attempt p) := .tryCatch hp fun _ ↦ .pure _

theorem currentInsert_keeps (hP : Lasting P) (app : Path) : Keeps P (currentInsert app) :=
  .tryCatch (.bind (readInfoPlist_keeps hP app) fun _ ↦ .pure _) fun _ ↦ .pure _

theorem priorPlist_keeps (hP : Lasting P) (app : Path) : Keeps P (priorPlist app) :=
  .tryCatch (.bind (readInfoPlist_keeps hP app) fun _ ↦ .pure _) fun _ ↦ .pure _

/-! ## Changes of a recorded bundle -/

theorem put_has {w : World} {bundle : Option Bundle} {p : Path} {m : Mark} (hp : p ≠ app) (h : ((w.put app bundle).steams p).has m = true) :
    (w.steams p).has m = true := by
  have hsame : (w.put app bundle).steams p = w.steams p := if_neg hp
  rwa [hsame] at h

theorem put_has_self {w : World} {bundle : Option Bundle} {m : Mark} :
    ((w.put app bundle).steams app).has m = bundle.any (·.has m) := by
  have hnew : (w.put app bundle).steams app = { w.steams app with bundle := bundle } := if_pos rfl
  rw [hnew, Place.has]

theorem put_reachable {w : World} {bundle : Option Bundle} {p : Path} : ((w.put app bundle).steams p).reachable = (w.steams p).reachable := by
  show (if p = app then { w.steams p with bundle := bundle } else w.steams p).reachable = (w.steams p).reachable
  split_ifs
  · rfl
  · rfl

/-- A bundle may get marks if it is in the record. -/
theorem Holds.put {w : World} (h : Holds app b known w) (bundle : Option Bundle) (hb : b = true ∨ ∀ m, bundle.any (·.has m) = false) :
    Holds app b known (w.put app bundle) where
  recorded p m hm := by
    by_cases hp : p = app
    · subst hp
      rcases hb with hb | hb
      · exact h.inRecord hb
      · rw [put_has_self, hb m] at hm
        cases hm
    · exact h.recorded p m (put_has hp hm)
  written := h.written
  inRecord := h.inRecord
  only p m hp hm := h.only p m hp (put_has hp hm)
  away p hp := put_reachable.trans (h.away p hp)

theorem call_keeps (hP : Lasting P) {act : Turn → World → World × Except Unit α} (h : ∀ turn w, P w → P (act turn w).1) :
    Keeps P (call act) :=
  call_triple hP (fun turn w hw ↦ hP.recorded _ (h turn w hw)) (fun turn w _ hw _ ↦ h turn w hw) fun turn w _ hw _ ↦ h turn w hw

/-- Whatever a change does to a bundle that is in the record, and also when it fails. -/
theorem change_keeps (app : Path) (known : Known) (f : Turn → Bundle → Bundle) : Keeps (Holds app true known) (change app f) := by
  refine call_keeps (Holds.lasting app true known) fun turn w h ↦ ?_
  cases w.look app with
  | none => exact h
  | some b =>
    dsimp only
    split_ifs
    · exact h.put _ (.inl rfl)
    · exact h.put _ (.inl rfl)

theorem adHocSign_keeps (app : Path) (known : Known) : Keeps (Holds app true known) (adHocSign app) := change_keeps app known _

theorem needsPatching_keeps (app : Path) (known : Known) : Keeps (Holds app true known) (needsPatching app) := by
  have hlast := Holds.lasting app true known
  refine .bind (.bind (currentInsert_keeps hlast app) fun insert ↦ .ite (.pure _) (.bind ?_ fun block ↦ .ite (read_keeps hlast _) (.pure _)))
    fun deployed ↦ .ite (.pure _) (.bind (.bind (change_keeps app known _) fun _ ↦ change_keeps app known _) fun _ ↦ .pure _)
  exact .tryCatch (.bind (readInfoPlist_keeps hlast app) fun _ ↦ .pure _) fun _ ↦ .pure _

theorem installDylib_keeps (app : Path) (known : Known) : Keeps (Holds app true known) (installDylib app) :=
  .bind (change_keeps app known _) fun _ ↦ change_keeps app known _

theorem setInsertAndSign_keeps (app : Path) (known : Known) : Keeps (Holds app true known) (setInsertAndSign app) := by
  have hlast := Holds.lasting app true known
  have hsign := adHocSign_keeps app known
  refine .bind (elsewhere_keeps hlast) fun _ ↦ .bind (priorPlist_keeps hlast app) fun prior ↦ .tryCatch ?_ fun _ ↦ .bind ?_ fun _ ↦ .throw
  · exact .bind (.bind (readInfoPlist_keeps hlast app) fun _ ↦ change_keeps app known _) fun _ ↦ .bind hsign fun _ ↦ .bind hsign fun _ ↦ hsign
  · cases prior with
    | none => exact .pure _
    | some plist => exact .bind (attempt_keeps (change_keeps app known _)) fun _ ↦ attempt_keeps hsign

theorem signAgain_keeps (app : Path) (known : Known) (changed : Bool) : Keeps (Holds app true known) (signAgain changed app) :=
  .bind (.when (attempt_keeps (adHocSign_keeps app known))) fun _ ↦ .when (attempt_keeps (adHocSign_keeps app known))

theorem dropDylib_keeps (app : Path) (known : Known) : Keeps (Holds app true known) (dropDylib app) :=
  .bind (see_keeps (Holds.lasting app true known) _) fun _ ↦ .ite (.bind (change_keeps app known _) fun _ ↦ .pure _) (.pure _)

theorem clearInsert_keeps (app : Path) (known : Known) : Keeps (Holds app true known) (clearInsert app) := by
  refine .bind (priorPlist_keeps (Holds.lasting app true known) app) fun plist ↦ ?_
  split
  · exact .pure _
  · exact .pure _
  · exact .bind (change_keeps app known _) fun _ ↦ .pure _

theorem detach_keeps (app : Path) (known : Known) : Keeps (Holds app true known) (detach app) := by
  have hsign := adHocSign_keeps app known
  refine .bind (elsewhere_keeps (Holds.lasting app true known)) fun _ ↦ .bind (clearInsert_keeps app known) fun cleared ↦ .bind ?_ fun dropped ↦ .when ?_
  · exact .tryCatch (dropDylib_keeps app known) fun _ ↦ .bind (signAgain_keeps app known cleared) fun _ ↦ .throw
  · exact .tryCatch (.bind hsign fun _ ↦ hsign) fun _ ↦ .bind (signAgain_keeps app known true) fun _ ↦ .throw

/-! ## The record itself -/

def World.noted (w : World) (l : List Path) : World := { w with record := some (sorted l) }

theorem mem_sorted {l : List Path} {p : Path} : p ∈ sorted l ↔ p ∈ l := by
  rw [sorted, List.mem_insertionSort, List.mem_dedup]

theorem Recorded.noted {w : World} (h : Recorded w) {l : List Path} (hl : ∀ p ∈ w.paths, p ∈ l) : Recorded (w.noted l) :=
  fun p m hm ↦ mem_sorted.mpr (hl p (h p m hm))

theorem Recorded.holds {w : World} (h : Recorded w) {l : List Path} (hl : ∀ p ∈ w.paths, p ∈ l) (happ : b = true → app ∈ l) :
    Holds app b .nothing (w.noted l) :=
  ⟨h.noted hl, rfl, fun hb ↦ mem_sorted.mpr (happ hb), fun _ _ _ _ ↦ trivial, fun _ hp ↦ hp.elim⟩

theorem Holds.noted {w : World} {c : Bool} (h : Holds app b known w) {l : List Path} (hl : ∀ p ∈ w.paths, p ∈ l)
    (happ : c = true → app ∈ l) : Holds app c known (w.noted l) :=
  ⟨h.recorded.noted hl, rfl, fun hc ↦ mem_sorted.mpr (happ hc), h.only, h.away⟩

theorem paths_triple (hP : Lasting P) : Triple Recorded P paths (fun all w ↦ P w ∧ w.paths = all) P :=
  (read_triple hP _).post fun _ _ h ↦ ⟨h.1, h.2.elim fun _ he ↦ Option.some.inj he⟩

/-- Writing the record, where all that is in it must be stays in it. -/
theorem write_triple {Q E : World → Prop} (hP : Lasting P) {l : List Path} (hI : ∀ w, P w → Recorded (w.noted l))
    (hQ : ∀ w, P w → Q (w.noted l)) (hE : ∀ w, P w → E w) : Triple Recorded P (write l) (fun _ ↦ Q) E := by
  refine call_triple hP (fun turn w h ↦ ?_) (fun turn w _ h hok ↦ ?_) fun turn w _ h hbad ↦ ?_
  · split_ifs
    · exact hP.recorded w h
    · exact hI w h
  · split_ifs at hok ⊢
    · exact hQ w h
  · split_ifs at hbad ⊢
    · exact hE w h

theorem prepare_triple {Q : World → Prop} (hP : Lasting P) (hQ : ∀ w, P w → Q (w.noted w.paths)) :
    Triple Recorded P prepare (fun _ ↦ Q) P := by
  refine .bind (paths_triple hP) fun all ↦ write_triple (hP.and fun _ h ↦ h) (fun w h ↦ ?_) (fun w h ↦ ?_) fun _ h ↦ h.1
  · exact (hP.recorded w h.1).noted fun p hp ↦ h.2 ▸ hp
  · exact h.2 ▸ hQ w h.1

theorem mark_triple {Q : World → Prop} (hP : Lasting P) (hQ : ∀ w, P w → Q (w.noted (w.paths ++ [app]))) :
    Triple Recorded P (mark app) (fun _ ↦ Q) P := by
  refine .bind (paths_triple hP) fun all ↦ write_triple (hP.and fun _ h ↦ h) (fun w h ↦ ?_) (fun w h ↦ ?_) fun _ h ↦ h.1
  · exact (hP.recorded w h.1).noted fun p hp ↦ List.mem_append_left _ (h.2 ▸ hp)
  · exact h.2 ▸ hQ w h.1

/-! ## What `inspect` is right about -/

/-- No mark is left. -/
def Gone (app : Path) (w : World) : Prop := ∀ m, (w.steams app).has m = false

/-- No such mark can be seen. -/
def Clear (app : Path) (m : Mark) (w : World) : Prop := (w.look app).any (·.has m) = false

theorem next_unmarked {w : World} {p : Path} {m : Mark} (h : (w.steams p).has m = false) : (w.next.steams p).has m = false := by
  cases hm : (w.next.steams p).has m with
  | false => rfl
  | true =>
    rw [next_has hm] at h
    exact h

theorem Gone.next {w : World} (h : Gone app w) : Gone app w.next := fun m ↦ next_unmarked (h m)

/-- A mark that cannot be seen is not there, if the bundle can be reached. -/
theorem clear_iff {w : World} {m : Mark} : Clear app m w ↔ ((w.steams app).reachable = true → (w.steams app).has m = false) := by
  rw [Clear, World.look]
  split_ifs with hr
  · exact ⟨fun h _ ↦ h, fun h ↦ h hr⟩
  · exact ⟨fun _ h ↦ absurd h hr, fun _ ↦ rfl⟩

theorem Clear.next {w : World} {m : Mark} (h : Clear app m w) : Clear app m w.next :=
  clear_iff.mpr fun hr ↦ next_unmarked (clear_iff.mp h (next_reachable hr))

theorem look_some {w : World} {bundle : Bundle} (h : w.look app = some bundle) : (w.steams app).reachable = true := by
  by_contra hr
  rw [World.look, if_neg hr] at h
  cases h

def State.Says (app : Path) : State → World → Prop
  | .unreachable, w => (w.steams app).reachable = false
  | .absent, w | .clean, w => Gone app w
  | .modified, _ => True

/-- Nothing is seen at first: the drive is away, or it is there all the time and has no bundle. -/
theorem nothing_there {w : World} (h : (w.look app).isSome = false) (m : Mark) : Clear app m w := by
  have hnone : w.look app = none := Option.isSome_eq_false_iff.mp h |> Option.isNone_iff_eq_none.mp
  rw [Clear, hnone]
  rfl

theorem settings_clear {w : World} {plist : Option Bytes × Option Bytes}
    (h : ((w.look app).map fun b ↦ (b.insert, b.controllerBlock)) = some plist) (hinsert : ¬injected (plist.1.getD []) = true)
    (hblock : ¬plist.2 = some controllerBlockValue) : ∀ m ∈ [Mark.insert, Mark.controllerBlock], Clear app m w := by
  obtain ⟨bundle, hlook, rfl⟩ := Option.map_eq_some_iff.mp h
  intro m hm
  rw [Clear, hlook]
  simp only [List.mem_cons, List.not_mem_nil, or_false] at hm
  rcases hm with rfl | rfl
  · exact Bool.eq_false_iff.mpr hinsert
  · exact decide_eq_false hblock

/-- The last look finds the bundle there, so it has been there all the time. -/
theorem verified_gone {w : World} (h : ∀ m ∈ [Mark.dylib, .insert, .controllerBlock], Clear app m w)
    (hintact : (w.look app).any (·.intact) = true) : Gone app w := by
  cases hlook : w.look app with
  | none =>
    rw [hlook] at hintact
    cases hintact
  | some bundle =>
    have hsign : Clear app .signature w := by
      rw [hlook] at hintact
      rw [Clear, hlook]
      exact congrArg not hintact
    intro m
    refine clear_iff.mp ?_ (look_some hlook)
    cases m with
    | signature => exact hsign
    | insert => exact h _ (by simp)
    | controllerBlock => exact h _ (by simp)
    | dylib => exact h _ (by simp)

theorem inspect_triple (hP : Lasting P) (app : Path) : Triple Recorded P (inspect app) (fun state w ↦ P w ∧ state.Says app w) P := by
  have hclear : ∀ M : List Mark, Lasting fun w ↦ P w ∧ ∀ m ∈ M, Clear app m w := fun M ↦ hP.and fun w h m hm ↦ (h m hm).next
  refine .bind (read_triple hP _) fun there ↦ .ite (fun hthere ↦ ?_) fun hthere ↦ ?_
  · have hall : Lasting fun w ↦ P w ∧ ∀ m, Clear app m w := hP.and fun w h m ↦ (h m).next
    refine .bind (Triple.pre (see_triple hall _) fun w h ↦ ⟨h.1, nothing_there ?_⟩) fun unreachable ↦ .pure fun w h ↦ ⟨h.1.1, ?_⟩
    · obtain ⟨turn, hlook⟩ := h.2
      rw [Option.some.inj hlook]
      simpa using hthere
    · obtain ⟨⟨-, hno⟩, hsee⟩ := h
      cases unreachable with
      | true => exact (Bool.not_eq_true' _).mp hsee
      | false => exact fun m ↦ clear_iff.mp (hno m) ((Bool.not_eq_false' _).mp hsee)
  · refine .bind (Triple.pre (read_triple hP _) fun _ h ↦ h.1) fun plist ↦ .ite (fun _ ↦ .pure fun w h ↦ ⟨h.1, trivial⟩) fun hplist ↦ ?_
    simp only [Bool.or_eq_true, decide_eq_true_eq, not_or] at hplist
    obtain ⟨hinsert, hblock⟩ := hplist
    refine .bind (Triple.pre (see_triple (hclear [.insert, .controllerBlock]) _) fun w h ↦ ⟨h.1, ?_⟩)
      fun dylib ↦ .ite (fun _ ↦ .pure fun w h ↦ ⟨h.1.1, trivial⟩) fun hdylib ↦ ?_
    · obtain ⟨turn, hlook⟩ := h.2
      exact settings_clear hlook hinsert hblock
    · refine .bind (Triple.weaken (read_triple (hclear [.dylib, .insert, .controllerBlock]) _) (fun w h ↦ ⟨h.1.1, ?_⟩) (fun _ _ h ↦ h) fun _ h ↦ h.1)
        fun succeeded ↦ .pure fun w h ↦ ⟨h.1.1, ?_⟩
      · refine List.forall_mem_cons.mpr ⟨?_, h.1.2⟩
        exact h.2.trans (Bool.eq_false_iff.mpr hdylib)
      · obtain ⟨⟨-, hno⟩, turn, hlook⟩ := h
        cases succeeded with
        | true => exact verified_gone hno (Option.some.inj hlook)
        | false => exact trivial

/-! ## Taking a bundle out of the record -/

theorem retireIfClean_triple (app : Path) (b : Bool) (known : Known) : Triple Recorded (Holds app b known) (retireIfClean app)
    (fun retired w ↦ Holds app false known w ∧ (retired = true → Gone app w)) (Holds app false known) := by
  have hlast := Holds.lasting app b known
  have hgone : Lasting fun w ↦ Holds app b known w ∧ Gone app w := hlast.and fun _ h ↦ h.next
  have hretire : Triple Recorded (fun w ↦ Holds app b known w ∧ Gone app w)
      (do let all ← paths; write (all.filter (· ≠ app)); return true)
      (fun retired w ↦ Holds app false known w ∧ (retired = true → Gone app w)) (Holds app false known) := by
    have hstays : ∀ w, (Holds app b known w ∧ Gone app w) → Recorded (w.noted (w.paths.filter (· ≠ app))) := by
      intro w h p m hm
      refine mem_sorted.mpr (List.mem_filter.mpr ⟨h.1.recorded p m hm, decide_eq_true fun hp ↦ ?_⟩)
      rw [hp] at hm
      exact Bool.false_ne_true ((h.2 m).symm.trans hm)
    refine .bind (Triple.failing (paths_triple hgone) fun _ h ↦ h.1.forget) fun all ↦
      .bind (write_triple (Q := fun w ↦ Holds app false known w ∧ Gone app w) (hgone.and fun _ h ↦ h) (fun w h ↦ ?_) (fun w h ↦ ?_) fun _ h ↦ h.1.1.forget)
      fun _ ↦ .pure fun _ h ↦ ⟨h.1, fun _ ↦ h.2⟩
    · exact h.2 ▸ hstays w h.1
    · have hrec : Recorded (w.noted (all.filter (· ≠ app))) := h.2 ▸ hstays w h.1
      exact ⟨⟨hrec, rfl, fun hb ↦ (by cases hb), h.1.1.only, h.1.1.away⟩, h.1.2⟩
  refine .bind (Triple.failing (inspect_triple hlast app) fun _ h ↦ h.forget) fun state ↦ ?_
  cases state with
  | unreachable => exact .pure fun _ h ↦ ⟨h.1.forget, fun hr ↦ by cases hr⟩
  | modified => exact .pure fun _ h ↦ ⟨h.1.forget, fun hr ↦ by cases hr⟩
  | absent => exact hretire
  | clean => exact hretire

/-! ## Repairing and restoring -/

theorem replace_keeps (app : Path) (b : Bool) (known : Known) {staged : Bundle} (hstaged : ∀ m, staged.has m = false) :
    Keeps (Holds app b known) (replace app staged) := by
  have hlast := Holds.lasting app b known
  refine .bind (elsewhere_keeps hlast) fun _ ↦ call_keeps hlast fun turn w h ↦ ?_
  split_ifs
  · exact h
  · exact h.put none (.inr fun _ ↦ rfl)
  · exact h
  · exact h.put (some staged) (.inr hstaged)

/-- A repair puts a bundle of Valve's in its place, which has no mark, whether the record had `app` or not. -/
theorem repair_triple {E : World → Prop} (package : Package) (hP : Lasting P) (hprep : ∀ w, P w → Holds app false known (w.noted w.paths))
    (hPE : ∀ w, P w → E w) (hE : ∀ w, Holds app false known w → E w) :
    Triple Recorded P (repair package app) (fun _ ↦ Holds app false known) E := by
  have hlast := Holds.lasting app false known
  refine .bind ((elsewhere_keeps hP).into hPE) fun _ ↦ .bind (Triple.failing (require_triple _) hPE) fun _ ↦
    .given fun hgood ↦ ?_
  obtain ⟨hintact, hvalve⟩ := Bool.and_eq_true_iff.mp hgood
  -- `prepare` puts the record in the place of the older one, and from there on `Holds` stays
  refine .bind ((elsewhere_keeps hP).into hPE) fun _ ↦
    .bind (Triple.failing (prepare_triple hP hprep) hPE) fun _ ↦ Keeps.into ?_ hE
  refine .bind (replace_keeps app false known (package.genuine hintact hvalve)) fun _ ↦
    .bind (.bind (read_keeps hlast _) fun _ ↦ .require _) fun _ ↦ .bind (currentInsert_keeps hlast app) fun insert ↦
    .bind (.require _) fun _ ↦ .bind ?_ fun _ ↦ elsewhere_keeps hlast
  exact (retireIfClean_triple app false known).post fun _ _ h ↦ h.1

theorem restore_triple (package : Package) (app : Path) (known : Known) : Triple Recorded (Holds app false known) (restore package app)
    (fun _ w ↦ Holds app false known w ∧ Gone app w) (Holds app false known) := by
  have hlast := Holds.lasting app false known
  have hmarked := Holds.lasting app true known
  have hrepair : Keeps (Holds app false known) (repair package app) :=
    repair_triple package hlast (fun w h ↦ h.noted (fun _ hp ↦ hp) fun hb ↦ by cases hb) (fun _ h ↦ h) fun _ h ↦ h
  refine .bind (mark_triple (Q := Holds app true known) hlast fun w h ↦ h.noted (fun p hp ↦ List.mem_append_left _ hp) fun _ ↦ by simp) fun _ ↦
    .bind ((elsewhere_keeps hmarked).into fun _ h ↦ h.forget) fun _ ↦ .bind ((detach_keeps app known).into fun _ h ↦ h.forget) fun _ ↦
    .bind (Triple.pre (attempt_keeps hrepair) fun _ h ↦ h.forget) fun _ ↦ .bind (retireIfClean_triple app false known) fun retired ↦ ?_
  exact Triple.weaken (require_triple _) (fun _ h ↦ h) (fun _ _ h ↦ ⟨h.1.1, h.1.2 h.2⟩) fun _ h ↦ h.1

/-! ## The loop of `uninstall` -/

/-- Before the bundles that are `left`: what has failed aside, a bundle with a mark is missing or still to come. -/
structure Going (tracked left : List Path) (r : Removal) (w : World) : Prop where
  recorded : Recorded w
  written : w.record.isSome = true
  away : ∀ p ∈ r.missing, (w.steams p).reachable = false
  marked : r.failed = false → ∀ p m, (w.steams p).has m = true → p ∈ r.missing ∨ p ∈ left ∧ p ∈ tracked

/-- What is known of the others while one bundle is taken up. -/
def Removal.rest (r : Removal) (tracked left : List Path) : Known :=
  ⟨fun p ↦ r.failed = false → p ∈ r.missing ∨ p ∈ left ∧ p ∈ tracked, fun p ↦ p ∈ r.missing⟩

section Loop

variable {tracked left : List Path} {target : Path} {r : Removal} {w : World}

theorem Going.holds (h : Going tracked (target :: left) r w) : Holds target false (r.rest tracked left) w where
  recorded := h.recorded
  written := h.written
  inRecord hb := by cases hb
  only p m hp hm hf := (h.marked hf p m hm).imp_right fun hleft ↦ ⟨List.mem_of_ne_of_mem hp hleft.1, hleft.2⟩
  away := h.away

/-- The bundle has no mark any more. -/
theorem Going.of_gone {checked : Bool} (h : Holds target false (r.rest tracked left) w) (hgone : Gone target w) :
    Going tracked left { r with checkedClient := checked } w where
  recorded := h.recorded
  written := h.written
  away := h.away
  marked hf p m hm := by
    refine h.only p m (fun hp ↦ ?_) hm hf
    rw [hp, hgone m] at hm
    cases hm

theorem Going.of_failed (h : Holds target false (r.rest tracked left) w) : Going tracked left { r with failed := true } w :=
  ⟨h.recorded, h.written, h.away, fun hf ↦ by cases hf⟩

/-- The bundle cannot be reached: then it is missing, or it has never been in the record and so has no mark. -/
theorem Going.of_away (h : Holds target false (r.rest tracked left) w) (haway : (w.steams target).reachable = false)
    (hhere : ∀ m, (w.steams target).has m = true → r.failed = false → target ∈ r.missing ∨ target ∈ tracked) :
    Going tracked left (if tracked.contains target then { r with missing := r.missing ++ [target] } else r) w := by
  have hmarked : ∀ p m, (w.steams p).has m = true → r.failed = false → p ∈ r.missing ∨ p ∈ left ∧ p ∈ tracked ∨ p = target ∧ p ∈ tracked := by
    intro p m hm hf
    by_cases hp : p = target
    · subst hp
      exact (hhere m hm hf).imp_right fun ht ↦ .inr ⟨rfl, ht⟩
    · exact (h.only p m hp hm hf).imp_right .inl
  split_ifs with ht
  · refine ⟨h.recorded, h.written, fun p hp ↦ ?_, fun hf p m hm ↦ ?_⟩
    · rcases List.mem_append.mp hp with hp | hp
      · exact h.away p hp
      · rw [List.mem_singleton.mp hp]
        exact haway
    · rcases hmarked p m hm hf with hp | hp | hp
      · exact .inl (List.mem_append_left _ hp)
      · exact .inr hp
      · exact .inl (List.mem_append_right _ (List.mem_singleton.mpr hp.1))
  · refine ⟨h.recorded, h.written, h.away, fun hf p m hm ↦ ?_⟩
    rcases hmarked p m hm hf with hp | hp | ⟨rfl, hp⟩
    · exact .inl hp
    · exact .inr hp
    · exact absurd (List.contains_iff_mem.mpr hp) ht

end Loop

theorem removeFrom_triple (package : Package) (tracked : List Path) (target : Path) (left : List Path) (r : Removal) :
    Triple Recorded (Going tracked (target :: left) r) (removeFrom package tracked target r) (Going tracked left) Recorded := by
  have hlast := Holds.lasting target false (r.rest tracked left)
  -- what marks at the bundle mean is known until it is looked at
  have hboth : Lasting fun w ↦ Holds target false (r.rest tracked left) w ∧
      ∀ m, (w.steams target).has m = true → r.failed = false → target ∈ r.missing ∨ target ∈ tracked :=
    hlast.and fun w h m hm ↦ h m (next_has hm)
  have hgone : Lasting fun w ↦ Holds target false (r.rest tracked left) w ∧ Gone target w := hlast.and fun _ h ↦ h.next
  have hcaught : ∀ _ : Unit, Triple Recorded (Holds target false (r.rest tracked left)) (pure { r with failed := true } : App Removal)
      (Going tracked left) Recorded := fun _ ↦ .pure fun _ h ↦ .of_failed h
  refine .tryCatch ?_ hcaught
  refine .bind (Triple.weaken (elsewhere_keeps hboth) (fun w h ↦ ⟨h.holds, ?_⟩) (fun _ _ h ↦ h) fun _ h ↦ h.1) fun _ ↦
    .bind (Triple.failing (inspect_triple hboth target) fun _ h ↦ h.1) fun state ↦ ?_
  · intro m hm hf
    exact (h.marked hf target m hm).imp_right fun hleft ↦ hleft.2
  have hclean : Triple Recorded (fun w ↦ Holds target false (r.rest tracked left) w ∧ Gone target w)
      (do
        Prog.when (tracked.contains target) (do
          let retired ← retireIfClean target
          require retired)
        pure r) (Going tracked left) (Holds target false (r.rest tracked left)) := by
    refine .bind (R := fun _ w ↦ Holds target false (r.rest tracked left) w ∧ Gone target w)
      (.when (fun _ ↦ .bind (Triple.pre (retireIfClean_triple target false _) fun _ h ↦ h.1) fun retired ↦ ?_) fun _ _ h ↦ h) fun _ ↦
      .pure fun _ h ↦ .of_gone h.1 h.2
    exact Triple.weaken (require_triple _) (fun _ h ↦ h) (fun _ _ h ↦ ⟨h.1.1, h.1.2 h.2⟩) fun _ h ↦ h.1
  cases state with
  | unreachable => exact .pure fun _ h ↦ .of_away h.1.1 h.2 h.1.2
  | absent => exact Triple.pre hclean fun _ h ↦ ⟨h.1.1, h.2⟩
  | clean => exact Triple.pre hclean fun _ h ↦ ⟨h.1.1, h.2⟩
  | modified =>
    exact .bind (Triple.pre (restore_triple package target _) fun _ h ↦ h.1.1) fun _ ↦ .pure fun _ h ↦ .of_gone h.1 h.2

/-! ## The whole operations -/

/-- What is left when NotProton is removed. -/
structure Removed (missing : List Path) (w : World) : Prop where
  recorded : Recorded w
  written : w.record.isSome = true
  away : ∀ p ∈ missing, (w.steams p).reachable = false
  marked : ∀ p m, (w.steams p).has m = true → p ∈ missing

theorem Removed.lasting (missing : List Path) : Lasting (Removed missing) where
  next _ h := ⟨h.recorded.next, h.written, fun p hp ↦ next_away (h.away p hp), fun p m hm ↦ h.marked p m (next_has hm)⟩
  recorded _ h := h.recorded

/-- The older record means nothing once there is the new one. -/
theorem legacy_paths {w : World} (h : w.record.isSome = true) (legacy : Bool) : World.paths { w with legacy := legacy } = w.paths := by
  obtain ⟨l, hl⟩ := Option.isSome_iff_exists.mp h
  simp only [World.paths, hl, Option.getD_some]

theorem Recorded.legacy {w : World} (h : Recorded w) (hw : w.record.isSome = true) (legacy : Bool) :
    Recorded { w with legacy := legacy } := fun p m hm ↦ by
  rw [legacy_paths hw]
  exact h p m hm

theorem uninstall_triple (package : Package) (app : Path) : Triple Recorded Recorded (uninstall package app) Removed Recorded := by
  have hwritten : Lasting fun w ↦ Recorded w ∧ w.record.isSome = true := Recorded.lasting.and fun _ h ↦ h
  refine .bind (elsewhere_keeps Recorded.lasting) fun _ ↦
    .bind (prepare_triple (Q := fun w ↦ Recorded w ∧ w.record.isSome = true) Recorded.lasting fun w h ↦ ⟨h.noted fun _ hp ↦ hp, rfl⟩) fun _ ↦
    .bind (Triple.failing (paths_triple hwritten) fun _ h ↦ h.1) fun tracked ↦
    .bind (Triple.pre (.each (removeFrom_triple package tracked) _ _) fun w h ↦ ?_) fun r ↦ ?_
  · -- all that has a mark is in the record, and so among the bundles that the loop takes up
    refine ⟨h.1.1, h.1.2, fun p hp ↦ absurd hp List.not_mem_nil, fun _ p m hm ↦ .inr ?_⟩
    have hp : p ∈ tracked := h.2 ▸ h.1.1 p m hm
    exact ⟨mem_sorted.mpr (List.mem_append_left _ hp), hp⟩
  · have hlast := Removed.lasting r.missing
    refine .bind (Triple.failing (require_triple _) fun _ h ↦ h.recorded) fun _ ↦
      Triple.pre (P := Removed r.missing) ?_ fun w h ↦ ⟨h.1.recorded, h.1.written, h.1.away, fun p m hm ↦ ?_⟩
    · refine .bind (Keeps.into (.when (elsewhere_keeps hlast)) fun _ h ↦ h.recorded) fun _ ↦
        .bind (Keeps.into (elsewhere_keeps hlast) fun _ h ↦ h.recorded) fun _ ↦ .bind (Keeps.into (call_keeps hlast fun turn w h ↦ ?_) fun _ h ↦ h.recorded)
        fun _ ↦ .bind (Keeps.into (elsewhere_keeps hlast) fun _ h ↦ h.recorded) fun _ ↦ .pure fun _ h ↦ h
      exact ⟨h.recorded.legacy h.written _, h.written, h.away, h.marked⟩
    · rcases h.1.marked ((Bool.not_eq_true' _).mp h.2) p m hm with hp | hp
      · exact hp
      · exact absurd hp.1 List.not_mem_nil

theorem install_triple (app : Path) : Triple Recorded Recorded (install app) (fun _ ↦ Holds app true .nothing) Recorded := by
  have hrec := Recorded.lasting
  have hlast := Holds.lasting app true .nothing
  refine .bind (elsewhere_keeps hrec) fun _ ↦ .bind (Keeps.bind (see_keeps hrec _) fun _ ↦ .require _) fun _ ↦
    .bind (Keeps.bind (currentInsert_keeps hrec app) fun _ ↦ .require _) fun _ ↦ .bind (elsewhere_keeps hrec) fun _ ↦
    .bind (mark_triple (Q := Holds app true .nothing) hrec fun w h ↦ h.holds (fun p hp ↦ List.mem_append_left _ hp) fun _ ↦ by simp) fun _ ↦
    Keeps.into ?_ fun _ h ↦ h.recorded
  -- from here on the bundle is in the record, and every change of it may go wrong
  exact .bind (needsPatching_keeps app _) fun patching ↦ .bind (elsewhere_keeps hlast) fun _ ↦ .bind (.when (installDylib_keeps app _)) fun _ ↦
    .bind (elsewhere_keeps hlast) fun _ ↦ .bind (.when (setInsertAndSign_keeps app _)) fun _ ↦ .bind (elsewhere_keeps hlast) fun _ ↦
    .bind (currentInsert_keeps hlast app) fun landed ↦ .bind (.require _) fun _ ↦ elsewhere_keeps hlast

theorem finish_keeps (app : Path) (known : Known) : Keeps (Holds app true known) finish := by
  have hlast := Holds.lasting app true known
  refine .bind (elsewhere_keeps hlast) fun _ ↦ .bind (elsewhere_keeps hlast) fun _ ↦ call_keeps hlast fun turn w h ↦ ?_
  split_ifs
  · exact h
  · refine ⟨h.recorded.legacy h.written _, h.written, fun hb ↦ ?_, h.only, h.away⟩
    rw [legacy_paths h.written]
    exact h.inRecord hb

theorem program_keeps (op : Op) : Keeps Recorded (program op) := by
  cases op with
  | install app =>
    have hlast := Holds.lasting app true .nothing
    refine Triple.bind (install_triple app) fun _ ↦ Triple.weaken (Keeps.bind (elsewhere_keeps hlast) fun _ ↦ finish_keeps app _) (fun _ h ↦ h) ?_ ?_
    · exact fun _ _ h ↦ h.recorded
    · exact fun _ h ↦ h.recorded
  | repair package app =>
    have hprep : ∀ w, Recorded w → Holds app false .nothing (w.noted w.paths) := fun w h ↦ h.holds (fun _ hp ↦ hp) fun hb ↦ by cases hb
    exact Triple.post (repair_triple package Recorded.lasting hprep (fun _ h ↦ h) fun _ h ↦ h.recorded) fun _ _ h ↦ h.recorded
  | uninstall package app => exact Triple.bind (uninstall_triple package app) fun _ ↦ .pure fun _ h ↦ h.recorded

/-! ## Whole histories -/

theorem shipped_recorded {w : World} (h : Shipped w) : Recorded w := by
  intro p m hm
  obtain ⟨rfl, hrecord, hlegacy⟩ := h p m hm
  simp only [World.paths, hrecord, hlegacy, Option.getD_none, if_true, List.mem_singleton]

theorem Reachable.recorded {w : World} (h : Reachable w) : Recorded w := by
  induction h with
  | shipped h => exact shipped_recorded h
  | others o h ih => exact fun p m hm ↦ ih p m (o.tame _ p m hm)
  | connect reachable h ih => exact fun p m hm ↦ ih p m hm
  | @run w t op turns h ht ih =>
    have hstart : Recorded { w with turns := turns } := ih
    exact (program_keeps op).seen hstart ht

/-- Wherever the app is killed, and however its calls went: a bundle with anything of NotProton's, or with a broken signature, is in
the record. -/
theorem killed_recorded {w t : World} (h : Reachable w) (op : Op) (turns : List Turn) (ht : t ∈ (program op { w with turns := turns }).seen)
    {p : Path} {m : Mark} (hm : (t.steams p).has m = true) : p ∈ t.paths :=
  (Reachable.run op turns h ht).recorded p m hm

/-- The bundle as Valve ships it. -/
def valves : Bundle := ⟨none, none, false, true, true⟩

/-- Steam as Valve ships it, and an account that has never had NotProton. -/
def untouched : World := ⟨fun _ ↦ ⟨true, some valves⟩, none, false, []⟩

theorem valves_unmarked : ∀ m, valves.has m = false
  | .insert => by decide
  | .controllerBlock => by decide
  | .dylib => rfl
  | .signature => rfl

theorem untouched_reachable : Reachable untouched :=
  .shipped fun _ m hm ↦ absurd hm (Bool.eq_false_iff.mp (valves_unmarked m))

/-- The app is killed just after the dylib has been put in its place. -/
def killed : World := (program (.install defaultApp) untouched).seen.getD 11 untouched

theorem killed_seen : killed ∈ (program (.install defaultApp) { untouched with turns := [] }).seen := by
  have hsteps : 11 < (program (.install defaultApp) untouched).seen.length := by decide
  rw [killed, List.getD_eq_getElem _ _ hsteps]
  exact List.getElem_mem hsteps

theorem killed_recorded_dylib : (killed.steams defaultApp).has .dylib = true ∧ defaultApp ∈ killed.paths := by
  have hdylib : (killed.steams defaultApp).has .dylib = true := rfl
  exact ⟨hdylib, killed_recorded untouched_reachable (.install defaultApp) [] killed_seen hdylib⟩

/-- When NotProton has been removed, after whatever has happened before, no bundle that can be reached has a mark; the ones that may
have one cannot be reached, and are named. -/
theorem uninstall_removed {w : World} (h : Reachable w) (package : Package) (app : Path) (turns : List Turn) {missing : List Path}
    (hend : (uninstall package app { w with turns := turns }).result = .ok missing) :
    (∀ p ∈ missing, ((uninstall package app { w with turns := turns }).last.steams p).reachable = false) ∧
      ∀ p m, ((uninstall package app { w with turns := turns }).last.steams p).has m = true → p ∈ missing := by
  have hstart : Recorded { w with turns := turns } := h.recorded
  have hremoved := (uninstall_triple package app).ok hstart hend
  exact ⟨hremoved.away, hremoved.marked⟩

def valvesPackage : Package := ⟨valves, fun _ _ ↦ valves_unmarked⟩

theorem uninstall_removed_killed : (uninstall valvesPackage defaultApp { killed with turns := [] }).result = .ok [] ∧
    ∀ p m, ((uninstall valvesPackage defaultApp { killed with turns := [] }).last.steams p).has m = false := by
  have hreach : Reachable killed := .run (.install defaultApp) [] untouched_reachable killed_seen
  have hend : (uninstall valvesPackage defaultApp { killed with turns := [] }).result = .ok [] := rfl
  have hremoved := uninstall_removed hreach valvesPackage defaultApp [] hend
  exact ⟨hend, fun p m ↦ Bool.eq_false_iff.mpr fun hm ↦ List.not_mem_nil (hremoved.2 p m hm)⟩

end NotProton.SteamBundle
