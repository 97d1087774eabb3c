import NotProton.WebPatch.Transform

/-! # Applied — a script with its replacements made (`np_webpatch_transform`) -/

open NotProton.Library

namespace NotProton.WebPatch

section
variable {inp : Inputs}

/-! ## The counting pass -/

theorem matchAt_pos {find : Bytes} {prev : Option UInt8} {s : Bytes} {u : Nat} {caps : Caps}
    (h : matchAt inp find prev s = some (u, caps)) : 0 < u := by
  unfold matchAt at h
  split at h
  · split at h
    · cases h
    split at h
    · cases h
    split at h
    · cases h
    next hne =>
      apply Nat.pos_of_ne_zero
      rintro rfl
      exact hne _ h
  · cases h

theorem matchAt_matchFind {find : Bytes} {prev : Option UInt8} {s : Bytes} {h : Nat × Caps}
    (hm : matchAt inp find prev s = some h) : matchFind inp find s noCaps = some h := by
  unfold matchAt at hm
  split at hm
  · split at hm
    · cases hm
    split at hm
    · cases hm
    split at hm
    · cases hm
    · exact hm
  · cases hm

/-- What matches starts with the literal text the pattern starts with. -/
theorem matchFind_literalStart {find s : Bytes} {caps : Caps} {h : Nat × Caps}
    (hm : matchFind inp find s caps = some h) : (literalStart inp find).isPrefixOf s = true := by
  induction find generalizing s h with
  | nil => rfl
  | cons f find ih =>
    rw [literalStart, List.takeWhile_cons]
    split
    next hlit =>
      obtain ⟨hcap, hmarker⟩ := of_decide_eq_true hlit
      unfold matchFind at hm
      simp only [hmarker, hcap] at hm
      cases s with
      | nil => cases hm
      | cons c s =>
        simp only at hm
        split at hm
        next hc =>
          obtain ⟨r, hr, -⟩ := Option.map_eq_some_iff.mp hm
          subst hc
          rw [List.isPrefixOf_cons_cons_self]
          exact ih hr
        next => cases hm
    next => rfl

theorem countFrom_eq (find : Bytes) (prev : Option UInt8) (k : Nat) (s : Bytes) :
    countFrom inp find prev k s = (scan (matchAt inp find) prev k s).countP Option.isSome := by
  induction s generalizing prev k with
  | nil => cases k <;> rfl
  | cons c s ih =>
    cases k with
    | succ k =>
      rw [countFrom, scan, List.countP_cons, ih]
      rfl
    | zero =>
      rw [countFrom, scan]
      cases hm : matchAt inp find prev (c :: s) with
      | none =>
        -- Passed over or looked at in vain: the place does not count.
        simp only [List.countP_cons, ih, ite_self]
        rfl
      | some h =>
        rw [if_pos (matchFind_literalStart (matchAt_matchFind hm))]
        simp only [List.countP_cons, ih]
        exact Nat.add_comm _ _

/-- An occurrence is counted where the pattern's own pass finds it. -/
theorem countMatches_eq (src find : Bytes) :
    countMatches inp src find = countScan (matchAt inp find) src := countFrom_eq find none 0 src

/-! ## The replacing pass -/

/-- A match starts with a byte that `mark_start` marks. -/
theorem startsWith_of_matchAt {find : Bytes} {prev : Option UInt8} {c : UInt8} {s : Bytes}
    {h : Nat × Caps} (hm : matchAt inp find prev (c :: s) = some h) : startsWith inp find c = true := by
  have hfind := matchAt_matchFind hm
  cases find with
  | nil => cases hm
  | cons f find =>
    rw [startsWith]
    split
    next => rfl
    next hmarker =>
      rw [Option.not_isSome_iff_eq_none] at hmarker
      unfold matchFind at hfind
      simp only [hmarker] at hfind
      split
      -- A capture has at least one byte, and it is one of an identifier.
      next hcap =>
        obtain ⟨ci, hci⟩ := Option.isSome_iff_exists.mp hcap
        simp only [hci] at hfind
        split at hfind
        next => cases hfind
        next hrun =>
          rw [not_or] at hrun
          rw [List.takeWhile_cons] at hrun
          split at hrun
          next hident =>
            rw [hident]
            simpa using hrun.2
          next => exact absurd rfl hrun.1
      next hcap =>
        rw [Option.not_isSome_iff_eq_none] at hcap
        simp only [hcap] at hfind
        split at hfind
        next hc => exact decide_eq_true hc
        next => cases hfind

/-- What a match is replaced by. -/
def expansion (inp : Inputs) (h : Gate × Caps) : Bytes := (outExpand inp h.1.replace h.2).getD []

abbrev gateMatcher (inp : Inputs) (g : Gate) : Matcher UInt8 Caps := matchAt inp g.find

theorem startsWith_of_firstMatch {gates : List Gate} {prev : Option UInt8} {c : UInt8} {s : Bytes}
    {h : Nat × Gate × Caps} (hm : firstMatch (gateMatcher inp) gates prev (c :: s) = some h) :
    (gates.any fun g ↦ startsWith inp g.find c) = true := by
  obtain ⟨u, g, caps⟩ := h
  obtain ⟨hg, hmg⟩ := firstMatch_some hm
  exact List.any_eq_true.mpr ⟨g, hg, startsWith_of_matchAt hmg⟩

/-- The pass writes what its scan finds in expanded form, and copies the rest. -/
theorem emit_eq {gates : List Gate} {prev : Option UInt8} {k : Nat} {s out : Bytes}
    (h : emit inp gates prev k s = some out) :
    out = rewrite (expansion inp) k (scan (firstMatch (gateMatcher inp) gates) prev k s) s ∧
      ∀ hit : Nat × Gate × Caps, some hit ∈ scan (firstMatch (gateMatcher inp) gates) prev k s →
        (outExpand inp hit.2.1.replace hit.2.2).isSome = true := by
  induction s generalizing prev k out with
  | nil =>
    rw [emit] at h
    cases h
    refine ⟨by cases k <;> rfl, fun hit hmem ↦ ?_⟩
    rw [scan] at hmem
    cases hmem
  | cons c s ih =>
    cases k with
    | succ k =>
      rw [emit] at h
      obtain ⟨hout, hall⟩ := ih h
      rw [scan]
      refine ⟨hout, fun hit hmem ↦ hall hit ?_⟩
      exact (List.mem_cons.mp hmem).resolve_left fun e ↦ by cases e
    | zero =>
      rw [emit] at h
      rw [scan]
      cases hm : firstMatch (gateMatcher inp) gates prev (c :: s) with
      | none =>
        -- The jump over bytes that start no match does not skip a hit either.
        have hcopy : (emit inp gates (some c) 0 s).map (c :: ·) = some out := by
          split at h
          · rw [hm] at h
            exact h
          · exact h
        obtain ⟨rest, hrest, rfl⟩ := Option.map_eq_some_iff.mp hcopy
        obtain ⟨hout, hall⟩ := ih hrest
        refine ⟨by rw [rewrite, hout], fun hit hmem ↦ hall hit ?_⟩
        exact (List.mem_cons.mp hmem).resolve_left fun e ↦ by cases e
      | some hit =>
        obtain ⟨u, g, caps⟩ := hit
        rw [if_pos (startsWith_of_firstMatch hm), hm] at h
        obtain ⟨text, htext, h⟩ := Option.bind_eq_some_iff.mp h
        obtain ⟨rest, hrest, rfl⟩ := Option.map_eq_some_iff.mp h
        obtain ⟨hout, hall⟩ := ih hrest
        refine ⟨?_, fun hit hmem ↦ ?_⟩
        · show text ++ rest = expansion inp (g, caps) ++ _
          rw [expansion, htext, hout]
          rfl
        · rcases List.mem_cons.mp hmem with e | hmem
          · cases e
            rw [htext]
            rfl
          · exact hall hit hmem

end

/-! ## What a transformed script is -/

/-- Every occurrence counted for one of the gates is replaced, and every other byte is copied. -/
def Replaced (inp : Inputs) (src : Bytes) (gates : List Gate) (preamble out : Bytes) : Prop :=
  ∃ hits : List (Option (Nat × Gate × Caps)), hits.length = src.length ∧
    (∀ i u g caps, hits[i]? = some (some (u, g, caps)) ↔
      g ∈ gates ∧ Finds (gateMatcher inp g) src i (u, caps)) ∧
    (∀ (i j : Nat) (h h' : Nat × Gate × Caps), i < j → hits[i]? = some (some h) →
      hits[j]? = some (some h') → i + h.1 ≤ j) ∧
    (∀ h : Nat × Gate × Caps, some h ∈ hits → (outExpand inp h.2.1.replace h.2.2).isSome = true) ∧
    out = preamble ++ rewrite (expansion inp) 0 hits src

/-- Occurrences that are all replaced do not overlap. -/
theorem Replaced.noOverlap {inp : Inputs} {src : Bytes} {gates : List Gate} {preamble out : Bytes}
    (h : Replaced inp src gates preamble out) : NoOverlap (gateMatcher inp) gates src := by
  obtain ⟨hits, -, hiff, hsorted, -, -⟩ := h
  intro g hg g' hg' hne i hi i' hi' hfind hfind'
  have h1 := (hiff i hi.1 g hi.2).mpr ⟨hg, hfind⟩
  have h2 := (hiff i' hi'.1 g' hi'.2).mpr ⟨hg', hfind'⟩
  rcases Nat.lt_trichotomy i i' with hlt | heq | hlt
  · exact .inl (hsorted i i' _ _ hlt h1 h2)
  · subst heq
    rw [h1, Option.some.injEq, Option.some.injEq, Prod.mk.injEq, Prod.mk.injEq] at h2
    exact absurd h2.2.1 hne
  · exact .inr (hsorted i' i _ _ hlt h2 h1)

theorem emit_replaced {inp : Inputs} {src : Bytes} {gates : List Gate} {preamble rest : Bytes}
    (happart : NoOverlap (gateMatcher inp) gates src) (h : emit inp gates none 0 src = some rest) :
    Replaced inp src gates preamble (preamble ++ rest) := by
  obtain ⟨hout, hall⟩ := emit_eq h
  refine ⟨scan (firstMatch (gateMatcher inp) gates) none 0 src, scan_length .., fun i u g caps ↦ ?_,
    fun i j h h' hij hi hj ↦ ?_, hall, by rw [hout]⟩
  · exact finds_firstMatch (fun _ _ _ _ _ ↦ matchAt_pos) happart i u g caps
  · exact ((finds_iff _ _ _ _).mp hj).2.2 i hij h hi

/-! ## The barrel -/

theorem prefix_concat {l w : Bytes} {c : UInt8} (h : w <+: l) (hc : l[w.length]? = some c) :
    w ++ [c] <+: l := by
  obtain ⟨t, rfl⟩ := h
  rw [List.getElem?_append_right le_rfl, Nat.sub_self] at hc
  cases t with
  | nil => cases hc
  | cons b t =>
    cases hc
    exact ⟨t, by rw [List.append_assoc]; rfl⟩

theorem barrelAt_within {src object : Bytes} {at_ : Nat} (h : barrelAt src at_ = some object) :
    object <:+: src := by
  unfold barrelAt at h
  dsimp only at h
  split at h
  next hends =>
    cases h
    obtain ⟨hopen, hclose⟩ := hends
    set before := ((src.take at_).reverse.take 16384).takeWhile fun c ↦ c ≠ 123 ∧ c ≠ 125
    set after := ((src.drop at_).take 16384).takeWhile fun c ↦ c ≠ 125
    have hbefore : before <+: (src.take at_).reverse :=
      (List.takeWhile_prefix _).trans (List.take_prefix _ _)
    have hafter : after <+: src.drop at_ := (List.takeWhile_prefix _).trans (List.take_prefix _ _)
    rw [List.length_reverse] at hopen
    rw [← List.getElem?_drop] at hclose
    obtain ⟨x, hx⟩ := prefix_concat hbefore hopen
    obtain ⟨y, hy⟩ := prefix_concat hafter hclose
    refine ⟨x.reverse, y, ?_⟩
    have htake : src.take at_ = x.reverse ++ 123 :: before.reverse := by
      rw [← List.reverse_reverse (src.take at_), ← hx, List.reverse_append, List.reverse_append]
      rfl
    calc x.reverse ++ (123 :: before.reverse ++ after ++ [125]) ++ y
        = (x.reverse ++ 123 :: before.reverse) ++ (after ++ [125] ++ y) := by
          simp only [List.append_assoc, List.cons_append]
      _ = src := by rw [← htake, hy, List.take_append_drop]
  next => cases h

theorem infix_of_findIn {s want : Bytes} (h : findIn s want = true) : want <:+: s := by
  obtain ⟨t, ht, hp⟩ := List.any_eq_true.mp h
  exact (List.isPrefixOf_iff_prefix.mp hp).isInfix.trans ((List.mem_tails ..).mp ht).isInfix

/-- An object in a script that names a component of the barrel. -/
def Names (object name : Bytes) : Prop :=
  ascii "\x7b" ++ name ++ ascii ":()=>" <:+: object ∨ ascii "," ++ name ++ ascii ":()=>" <:+: object

theorem findBarrel_some {src object : Bytes} (h : findBarrel src = some object) :
    object <:+: src ∧ ∀ name ∈ npCxBarrelNames, Names object name := by
  obtain ⟨at_, -, hat⟩ := List.exists_of_findSome?_eq_some h
  split at hat
  next =>
    obtain ⟨hobject, hall⟩ := Option.filter_eq_some_iff.mp hat
    refine ⟨barrelAt_within hobject, fun name hname ↦ ?_⟩
    have hcut : object.dropLast <:+: object := (List.dropLast_prefix _).isInfix
    rcases (Bool.or_eq_true _ _).mp (List.all_eq_true.mp hall name hname) with hin | hin
    · exact .inl ((infix_of_findIn hin).trans hcut)
    · exact .inr ((infix_of_findIn hin).trans hcut)
  next => cases hat

/-! ## The plan -/

/-- What is enabled in a script. -/
structure PlanOk (inp : Inputs) (src : Bytes) (p : Plan) : Prop where
  counted : ∀ g ∈ p.enabled, countScan (gateMatcher inp g) src = g.expect
  required : ∀ shape, p.shape = some shape → ∀ g ∈ shape.gates inp.texts,
    g.optional = .required → g ∈ p.gates
  page : ∀ shape, p.shape = some shape → (∀ g ∈ p.gates, g.optional ≠ .page) ∨
    (∀ g ∈ shape.gates inp.texts, g.optional = .page → g ∈ p.gates) ∧
      ∃ object, findBarrel src = some object ∧ object <:+: src ∧
        ∀ name ∈ npCxBarrelNames, Names object name
  library : p.library = [] ∨ ∃ toolbar ∈ (gLibraryFilters inp.texts).drop npLibraryToolbar,
    p.library = (gLibraryFilters inp.texts).take npLibraryToolbar ++ [toolbar]

section
variable {inp : Inputs} {src : Bytes}

theorem countScan_of_isOn {g : Gate} (h : isOn inp src g = true) :
    countScan (gateMatcher inp g) src = g.expect := by
  rw [← countMatches_eq]
  exact of_decide_eq_true h

theorem isOn_of_mem_settlePage {gates on_ : List Gate} {g : Gate}
    (h : g ∈ settlePage gates src on_) : g ∈ on_ := by
  unfold settlePage at h
  dsimp only at h
  split at h
  · exact (List.mem_filter.mp h).1
  · exact h

/-- The page's gates are all on with the barrel there, or all off. -/
theorem settlePage_page {gates on_ : List Gate} (hsub : ∀ g ∈ on_, g ∈ gates) :
    (∀ g ∈ settlePage gates src on_, g.optional ≠ .page) ∨
      (∀ g ∈ gates, g.optional = .page → g ∈ settlePage gates src on_) ∧
        ∃ object, findBarrel src = some object := by
  unfold settlePage
  dsimp only
  set pages := gates.filter fun g ↦ g.optional = .page with hpages
  split
  next => exact .inl fun g hg ↦ of_decide_eq_true (List.mem_filter.mp hg).2
  next hstay =>
    by_cases hin : (pages.any fun g ↦ g ∈ on_) = true
    · rw [not_and, not_or] at hstay
      obtain ⟨hmissing, hbarrel⟩ := hstay hin
      refine .inr ⟨fun g hg hpage ↦ ?_, Option.ne_none_iff_exists'.mp hbarrel⟩
      by_contra hoff
      refine hmissing (List.any_eq_true.mpr ⟨g, ?_, decide_eq_true hoff⟩)
      exact List.mem_filter.mpr ⟨hg, decide_eq_true hpage⟩
    · refine .inl fun g hg hpage ↦ hin (List.any_eq_true.mpr ⟨g, ?_, decide_eq_true hg⟩)
      exact List.mem_filter.mpr ⟨hsub g hg, decide_eq_true hpage⟩

theorem shapeGates_some {gates on_ : List Gate} (h : shapeGates inp src gates = some on_) :
    (∀ g ∈ on_, isOn inp src g = true) ∧
      (∀ g ∈ gates, g.optional = .required → g ∈ on_) ∧
        ((∀ g ∈ on_, g.optional ≠ .page) ∨ (∀ g ∈ gates, g.optional = .page → g ∈ on_) ∧
          ∃ object, findBarrel src = some object) := by
  unfold shapeGates at h
  split at h
  next => cases h
  next hdrift =>
    cases h
    refine ⟨fun g hg ↦ (List.mem_filter.mp (isOn_of_mem_settlePage hg)).2, fun g hg hreq ↦ ?_,
      settlePage_page fun g hg ↦ (List.mem_filter.mp hg).1⟩
    have hon : isOn inp src g = true := by
      by_contra hoff
      exact hdrift (List.any_eq_true.mpr ⟨g, hg, decide_eq_true ⟨hreq, hoff⟩⟩)
    have hmem : g ∈ gates.filter (isOn inp src) := List.mem_filter.mpr ⟨hg, hon⟩
    unfold settlePage
    dsimp only
    split
    · refine List.mem_filter.mpr ⟨hmem, decide_eq_true ?_⟩
      rw [hreq]
      decide
    · exact hmem

theorem libraryGates_spec (filters : List Gate) : libraryGates inp src filters = [] ∨
    (∀ g ∈ libraryGates inp src filters, isOn inp src g = true) ∧
      ∃ toolbar ∈ filters.drop npLibraryToolbar,
        libraryGates inp src filters = filters.take npLibraryToolbar ++ [toolbar] := by
  unfold libraryGates
  dsimp only
  split
  next hall =>
    obtain ⟨toolbar, htoolbar⟩ := List.length_eq_one_iff.mp hall.2
    have hmem : toolbar ∈ (filters.drop npLibraryToolbar).filter (isOn inp src) := by
      rw [htoolbar]
      exact List.mem_singleton.mpr rfl
    obtain ⟨hdrop, hon⟩ := List.mem_filter.mp hmem
    refine .inr ⟨fun g hg ↦ ?_, toolbar, hdrop, by rw [htoolbar]⟩
    rcases List.mem_append.mp hg with hg | hg
    · exact List.all_eq_true.mp hall.1 g hg
    · exact (List.mem_filter.mp hg).2
  next => exact .inl rfl

theorem plan_ok {p : Plan} (h : plan inp src = some p) : PlanOk inp src p := by
  unfold plan at h
  split at h
  · cases h
  next shape hshape =>
  simp only at h
  set js := nativeMacJs inp _ _
  set filters := if js = none then [] else
    ((gFixes inp.texts).drop npNativeMacFilterFix).filter (isOn inp src) with hfilters
  set fixes := ((gFixes inp.texts).take npNativeMacFilterFix).filter (isOn inp src) ++ filters
    with hfixes
  set library := if filters = [] then [] else libraryGates inp src (gLibraryFilters inp.texts)
    with hlibrary
  have hfixes_on : ∀ g ∈ fixes, isOn inp src g = true := by
    intro g hg
    rw [hfixes, List.mem_append] at hg
    rcases hg with hg | hg
    · exact (List.mem_filter.mp hg).2
    · rw [hfilters] at hg
      split at hg
      · cases hg
      · exact (List.mem_filter.mp hg).2
  -- Every list of the plan is of gates that are on.
  have hlibrary_ok : library = [] ∨ (∀ g ∈ library, isOn inp src g = true) ∧
      ∃ toolbar ∈ (gLibraryFilters inp.texts).drop npLibraryToolbar,
        library = (gLibraryFilters inp.texts).take npLibraryToolbar ++ [toolbar] := by
    rw [hlibrary]
    split
    · exact .inl rfl
    · exact libraryGates_spec _
  have hlibrary_on : ∀ g ∈ library, isOn inp src g = true := by
    rcases hlibrary_ok with hnil | hspec
    · rw [hnil]
      exact fun g hg ↦ absurd hg List.not_mem_nil
    · exact hspec.1
  have hlibrary_shape := hlibrary_ok.imp_right And.right
  cases shape with
  | none =>
    simp only at h
    split at h
    · cases h
    · cases h
      refine ⟨fun g hg ↦ countScan_of_isOn ?_, (fun _ e ↦ by cases e),
        (fun _ e ↦ by cases e), hlibrary_shape⟩
      rcases List.mem_append.mp hg with hg | hg
      · exact hfixes_on g hg
      · exact hlibrary_on g hg
  | some shape =>
    simp only at h
    split at h
    · cases h
    next gates hgates =>
      cases h
      obtain ⟨hon, hrequired, hpage⟩ := shapeGates_some hgates
      refine ⟨fun g hg ↦ countScan_of_isOn ?_, ?_, ?_, hlibrary_shape⟩
      · rw [Plan.enabled, List.mem_append, List.mem_append] at hg
        rcases hg with (hg | hg) | hg
        · exact hon g hg
        · exact hfixes_on g hg
        · exact hlibrary_on g hg
      · rintro _ ⟨⟩
        exact hrequired
      · rintro _ ⟨⟩
        refine hpage.imp_right fun ⟨hall, object, hobject⟩ ↦ ⟨hall, object, hobject, ?_⟩
        exact findBarrel_some hobject

end

/-! ## The whole transform -/

/-- The script a call gives is the one the claim of the patcher describes. -/
def Transformed (inp : Inputs) (src out : Bytes) : Prop :=
  ∃ p, plan inp src = some p ∧ PlanOk inp src p ∧ Replaced inp src p.enabled p.preamble out

/-- No two occurrences counted for what is enabled overlap. -/
def PlanNoOverlap (inp : Inputs) (src : Bytes) : Prop :=
  ∀ p, plan inp src = some p → NoOverlap (gateMatcher inp) p.enabled src

/-- A script comes out with all its replacements exactly when none of them overlap. -/
theorem transform_transformed_iff (inp : Inputs) (src out : Bytes)
    (h : transform inp src = some out) : Transformed inp src out ↔ PlanNoOverlap inp src := by
  obtain ⟨p, hp, h⟩ := Option.bind_eq_some_iff.mp h
  obtain ⟨rest, hrest, rfl⟩ := Option.map_eq_some_iff.mp h
  constructor
  · rintro ⟨p', hp', -, hreplaced⟩ p'' hp''
    rw [hp'] at hp''
    cases hp''
    exact hreplaced.noOverlap
  · intro hno
    exact ⟨p, hp, plan_ok hp, emit_replaced (hno p hp) hrest⟩

/-- Inputs with nothing in them but a platform list. -/
def bareInputs : Inputs where
  fallbackTool := []
  fexTools := []
  defaults := []
  builds := []
  ready := []
  feats := []
  vars := []
  ourTools := []
  nativePlatform _ := some []
  texts := ⟨[], [], [], [], [], [], [], []⟩

def filePickerScript : Bytes := utf8 "a(\"#AddNonSteam_Filter_Exe_MacOS\"),rFilePatterns:[\"*.app\"];"

/-- A script with one thing to replace. -/
theorem filePicker_transformed : Transformed bareInputs filePickerScript
    (utf8 "a(\"#AddNonSteam_Filter_Exe_MacOS\"),rFilePatterns:[\"*.app\",\"*.exe\"];") := by
  refine (transform_transformed_iff _ _ _ (by decide)).mpr fun p hp ↦ ?_
  have hone : (plan bareInputs filePickerScript).map Plan.enabled =
      some ((gFixes bareInputs.texts).take 1) := by decide
  rw [hp, Option.map_some, Option.some.injEq] at hone
  rw [hone]
  intro g hg g' hg' hne
  have hlength : ((gFixes bareInputs.texts).take 1).length = 1 := rfl
  obtain ⟨only, honly⟩ := List.length_eq_one_iff.mp hlength
  rw [honly, List.mem_singleton] at hg hg'
  exact absurd (hg.trans hg'.symm) hne

/-- Everything the Windows filter button needs, with the reset and the saved filter sharing a comma. -/
def sharedCommaScript : Bytes :=
    utf8 "case a.b:return!!(0,c.td)()||d.is_available_on_current_platform&&" ++
    utf8 "!d.is_invalid_os_type;\x0aif(!a(b[c.W6],d(e))||!a(b[c.sc],\x0aif(!a(b[c.W6],d(e)" ++
    utf8 ")||!a(b[c.sc],\x0aSelectOption(a,b,c)\x7blet d=this.m_filterSpec.filterGroups[a]" ++
    utf8 ".rgOptions;\x0aget bIsEmpty()\x7breturn this.searchText.length==0&&\x0alet a=" ++
    utf8 "this.GetSelectedOptions(b.W6);a.length>0&&c.push(a.map(d=>\x7bif(d==b.Pu)" ++
    utf8 "\x7b\x0achildren:[a&&(0,b.jsxs)(c.he,\x7bdirection:\"top\",nDelayShowMS:240," ++
    utf8 "toolTipContent:d?\"#GameList_View_Platform_Linux\":" ++
    utf8 "\"#GameList_View_Platform_Apple\",className:(0,e.A)(f().CheckboxWithImage,g&&f()" ++
    utf8 ".Disabled,h&&f().Active),onClick:()=>g||i(j.W6,j.Pu,!h),children:[d&&(0,b.jsx)(" ++
    utf8 "k.Wy0,\x7b\x7d),!d&&(0,b.jsx)(k.kPc,\x7b\x7d)]\x7d)\x0a,a=" ++
    utf8 "b.n6.currentAppFilter.BIsSelected(c.W6,c.Pu);return(0,d.jsxs)(\"div\"," ++
    utf8 "\x7bclassName:e().Bar,\x0aReset()\x7bthis.m_filterSpec.strSearchText=\"\"," ++
    utf8 "strSearchText:a&&a.strSearchText||\"\",filterGroups:"

def resetFilter : Gate := (gLibraryFilters bareInputs.texts).getD 3 ⟨[], [], 0, .required⟩
def savedFilter : Gate := (gLibraryFilters bareInputs.texts).getD 1 ⟨[], [], 0, .required⟩

theorem exists_finds {α β : Type} {m : Matcher α β} {s : List α} {i u : Nat}
    (h : ((scan m none 0 s)[i]?.bind fun hit ↦ hit.map Prod.fst) = some u) :
    ∃ d, Finds m s i (u, d) := by
  obtain ⟨hit, hhit, hu⟩ := Option.bind_eq_some_iff.mp h
  obtain ⟨found, rfl, rfl⟩ := Option.map_eq_some_iff.mp hu
  exact ⟨found.2, hhit⟩

/-- Both are enabled and counted, one from the byte the other ends with. -/
theorem sharedComma_run : (transform bareInputs sharedCommaScript).isSome = true ∧
    ((plan bareInputs sharedCommaScript).all
      fun p ↦ decide (resetFilter ∈ p.enabled ∧ savedFilter ∈ p.enabled)) = true ∧
    ((scan (gateMatcher bareInputs resetFilter) none 0 sharedCommaScript)[750]?.bind
      fun hit ↦ hit.map Prod.fst) = some 43 ∧
    ((scan (gateMatcher bareInputs savedFilter) none 0 sharedCommaScript)[792]?.bind
      fun hit ↦ hit.map Prod.fst) = some 51 ∧ resetFilter ≠ savedFilter := by
  decide +kernel

theorem sharedComma_not_transformed : ¬∀ (inp : Inputs) (src out : Bytes),
    transform inp src = some out → Transformed inp src out := by
  intro h
  obtain ⟨hsome, hboth, hreset, hsaved, hne⟩ := sharedComma_run
  obtain ⟨out, hout⟩ := Option.isSome_iff_exists.mp hsome
  obtain ⟨p, hp, -, hreplaced⟩ := h _ _ _ hout
  have hno := hreplaced.noOverlap
  rw [hp, Option.all_some, decide_eq_true_eq] at hboth
  obtain ⟨caps, hfind⟩ := exists_finds hreset
  obtain ⟨caps', hfind'⟩ := exists_finds hsaved
  rcases hno _ hboth.1 _ hboth.2 hne _ _ _ _ hfind hfind' with h | h
  · simp only at h
    omega
  · simp only at h
    omega

end NotProton.WebPatch
