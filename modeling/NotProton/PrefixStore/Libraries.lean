import NotProton.PrefixStore.Fields

/-! # Libraries — the page's list of libraries and the app's -/

open NotProton.Library NotProton.PrefixState

namespace NotProton.PrefixStore

/-- A text's lines are those of its Characters' lines, which may have a CR LF left in them. -/
theorem splitOn_flatten (cs : List Bytes) :
    cs.flatten.splitOn 10 = (cs.splitOn [10]).flatMap fun line ↦ line.flatten.splitOn 10 := by
  have hprefix : ∀ c s rest : Bytes, ∀ lines, s.splitOn 10 = rest.splitOn 10 ++ lines →
      (c ++ s).splitOn 10 = (c ++ rest).splitOn 10 ++ lines := by
    intro c s rest lines h
    induction c with
    | nil => exact h
    | cons b c ih =>
      rw [List.cons_append, List.cons_append]
      by_cases hb : b = 10
      · rw [hb, splitOn_cons_self, splitOn_cons_self, ih]
        rfl
      · rw [splitOn_cons_ne hb, splitOn_cons_ne hb, ih, splitOn_eq_firstLine (c ++ rest)]
        rfl
  induction cs with
  | nil => rfl
  | cons c cs ih =>
    by_cases hc : c = [10]
    · rw [hc, List.flatten_cons, List.splitOn_cons_eq_if_modifyHead, if_pos (by simp), List.flatMap_cons, ← ih]
      exact splitOn_cons_self 10 cs.flatten
    · rw [List.flatten_cons, List.splitOn_cons_eq_if_modifyHead, if_neg (by simpa using hc)]
      cases hsplit : cs.splitOn [10] with
      | nil => exact absurd hsplit (List.splitOn_ne_nil [10] cs)
      | cons line lines =>
        rw [hsplit, List.flatMap_cons] at ih
        rw [List.modifyHead_cons, List.flatMap_cons, List.flatten_cons]
        exact hprefix c _ _ _ ih

theorem newline_notMem_splitOn {cs line : List Bytes} (h : line ∈ cs.splitOn [10]) : [10] ∉ line := by
  induction cs generalizing line with
  | nil =>
    rw [List.splitOn_nil, List.mem_singleton] at h
    rw [h]
    exact List.not_mem_nil
  | cons c cs ih =>
    rw [List.splitOn_cons_eq_if_modifyHead] at h
    split at h
    · rw [List.mem_cons] at h
      obtain rfl | h := h
      · exact List.not_mem_nil
      · exact ih h
    next hc =>
      cases hsplit : cs.splitOn [10] with
      | nil => exact absurd hsplit (List.splitOn_ne_nil [10] cs)
      | cons first rest =>
        rw [hsplit, List.modifyHead_cons, List.mem_cons] at h
        obtain rfl | h := h
        · rw [List.mem_cons, not_or]
          exact ⟨fun e ↦ hc (by simp [← e]), ih (by rw [hsplit]; exact List.mem_cons_self)⟩
        · exact ih (by rw [hsplit]; exact List.mem_cons_of_mem first h)

theorem mem_splitOn_subset {cs line : List Bytes} (h : line ∈ cs.splitOn [10]) : line ⊆ cs := by
  induction cs generalizing line with
  | nil =>
    rw [List.splitOn_nil, List.mem_singleton] at h
    rw [h]
    exact List.nil_subset []
  | cons c cs ih =>
    rw [List.splitOn_cons_eq_if_modifyHead] at h
    split at h
    · rw [List.mem_cons] at h
      obtain rfl | h := h
      · exact List.nil_subset _
      · exact fun d hd ↦ List.mem_cons_of_mem c (ih h hd)
    · cases hsplit : cs.splitOn [10] with
      | nil => exact absurd hsplit (List.splitOn_ne_nil [10] cs)
      | cons first rest =>
        rw [hsplit, List.modifyHead_cons, List.mem_cons] at h
        obtain rfl | h := h
        · exact List.cons_subset_cons c (ih (by rw [hsplit]; exact List.mem_cons_self))
        · exact fun d hd ↦ List.mem_cons_of_mem c (ih (by rw [hsplit]; exact List.mem_cons_of_mem first h) hd)

theorem vdfChars_newline (s : Bytes) :
    (vdfChars (s ++ [10])).2 = (vdfChars s).2.map (· ++ [10]) ∧
      ((vdfChars s).2 ≠ none → (vdfChars (s ++ [10])).1 = (vdfChars s).1) := by
  induction s using vdfChars.induct with
  | case1 => exact ⟨rfl, fun h ↦ absurd rfl h⟩
  | case2 s => exact ⟨rfl, fun _ ↦ rfl⟩
  | case3 c s ih =>
    rw [List.cons_append, List.cons_append, vdfChars.eq_3, vdfChars.eq_3]
    exact ⟨ih.1, fun h ↦ by rw [ih.2 h]⟩
  | case4 c s hquote hslash ih =>
    by_cases hlast : c = 92 ∧ s = []
    · rw [hlast.1, hlast.2]
      exact ⟨rfl, fun h ↦ absurd rfl h⟩
    · have hmore : ∀ b t, c = 92 → s ++ [10] = b :: t → False := by
        intro b t hc hs
        cases s with
        | nil => exact hlast ⟨hc, rfl⟩
        | cons d s => exact hslash d s hc rfl
      rw [List.cons_append, vdfChars.eq_4 c s hquote hslash, vdfChars.eq_4 c _ hquote hmore]
      exact ⟨ih.1, fun h ↦ by rw [ih.2 h]⟩

theorem splitAt_newline (s : Bytes) : (splitAt 34 (s ++ [10])).2 = (splitAt 34 s).2.map (· ++ [10]) := by
  induction s with
  | nil => rfl
  | cons b s ih =>
    by_cases hb : b = 34
    · rw [hb, List.cons_append, splitAt_cons_self, splitAt_cons_self]
      rfl
    · rw [List.cons_append, splitAt_cons_ne hb, splitAt_cons_ne hb]
      exact ih

theorem vdfToken_newline (s : Bytes) (cap : Nat) :
    (vdfToken (s ++ [10]) cap).2 = (vdfToken s cap).2.map (· ++ [10]) ∧
      ((vdfToken s cap).2 ≠ none → (vdfToken (s ++ [10]) cap).1 = (vdfToken s cap).1) := by
  unfold vdfToken
  rw [splitAt_newline]
  cases (splitAt 34 s).2 with
  | none => exact ⟨rfl, fun h ↦ absurd rfl h⟩
  | some t => exact ⟨(vdfChars_newline t).1, fun h ↦ by simp only [Option.map_some, (vdfChars_newline t).2 h]⟩

/-- The line end that `fgets` leaves on a line is of no account. -/
theorem libraryLine_newline (libs : List Bytes) (line : Bytes) :
    libraryLine libs (line ++ [10]) = libraryLine libs line := by
  -- The newline can only get into a token that is not closed, and that one is not looked at.
  have hkey := vdfToken_newline line fieldMax
  unfold libraryLine
  generalize vdfToken (line ++ [10]) fieldMax = long at *
  generalize vdfToken line fieldMax = short at *
  obtain ⟨key, rest⟩ := short
  obtain ⟨key', rest'⟩ := long
  cases rest with
  | none =>
    simp only [Option.map_none] at hkey
    rw [hkey.1]
  | some rest =>
    obtain ⟨hrest, hsame⟩ := hkey
    simp only [Option.map_some] at hrest
    have hsame' : key' = key := hsame (Option.some_ne_none rest)
    rw [hrest, hsame']
    simp only
    split
    · rfl
    · have hvalue := vdfToken_newline rest pathMax
      generalize vdfToken (rest ++ [10]) pathMax = long at *
      generalize vdfToken rest pathMax = short at *
      obtain ⟨value, after⟩ := short
      obtain ⟨value', after'⟩ := long
      cases after with
      | none =>
        simp only [Option.map_none] at hvalue
        rw [hvalue.1]
      | some after =>
        obtain ⟨hafter, hsame⟩ := hvalue
        simp only [Option.map_some] at hafter
        have hsame' : value' = value := hsame (Option.some_ne_none after)
        rw [hafter, hsame']

/-- Each path once, in the order of its first line. -/
def distinct (paths : List Bytes) (kept : List Bytes) : List Bytes :=
  paths.foldl (fun kept path ↦ if path ∈ kept then kept else kept ++ [path]) kept

theorem distinct_cons (path : Bytes) (paths kept : List Bytes) :
    distinct (path :: paths) kept = distinct paths (if path ∈ kept then kept else kept ++ [path]) := rfl

theorem kept_subset_distinct (paths kept : List Bytes) : kept ⊆ distinct paths kept := by
  induction paths generalizing kept with
  | nil => exact List.Subset.refl kept
  | cons path paths ih =>
    rw [distinct_cons]
    refine List.Subset.trans ?_ (ih _)
    split
    · exact List.Subset.refl kept
    · exact List.subset_append_left kept [path]

/-- With room for every distinct path none is left out. -/
theorem foldl_addLibrary {all paths kept : List Bytes} (hall : all.dedup.length ≤ librariesMax)
    (hsub : paths ⊆ all) (hkept : kept ⊆ all) (hnodup : kept.Nodup) (hne : ∀ path ∈ paths, path ≠ []) :
    paths.foldl addLibrary kept = distinct paths kept := by
  induction paths generalizing kept with
  | nil => rfl
  | cons path paths ih =>
    rw [List.forall_mem_cons] at hne
    rw [List.foldl_cons, distinct_cons]
    have hpath : path ∈ all := hsub List.mem_cons_self
    have hpaths : paths ⊆ all := fun p hp ↦ hsub (List.mem_cons_of_mem path hp)
    by_cases hmem : path ∈ kept
    · have hsame : addLibrary kept path = kept := by
        unfold addLibrary
        by_cases hfull : path = [] ∨ librariesMax ≤ kept.length
        · exact if_pos hfull
        · rw [if_neg hfull, if_pos hmem]
      rw [hsame, if_pos hmem]
      exact ih hpaths hkept hnodup hne.2
    · -- What is kept are distinct paths of the file, so there is room for one more.
      have hnodup' : (kept ++ [path]).Nodup := by
        rw [List.nodup_append]
        refine ⟨hnodup, List.nodup_singleton path, fun a ha b hb e ↦ ?_⟩
        rw [List.mem_singleton] at hb
        exact hmem (hb ▸ e ▸ ha)
      have hkept' : kept ++ [path] ⊆ all := by
        intro p hp
        rw [List.mem_append, List.mem_singleton] at hp
        exact hp.elim (fun h ↦ hkept h) fun h ↦ h ▸ hpath
      have hroom : (kept ++ [path]).length ≤ all.dedup.length :=
        (hnodup'.subperm fun p hp ↦ List.mem_dedup.mpr (hkept' hp)).length_le
      rw [List.length_append, List.length_singleton] at hroom
      have hadd : addLibrary kept path = kept ++ [path] := by
        unfold addLibrary
        rw [if_neg (by rw [not_or]; exact ⟨hne.1, by omega⟩), if_neg hmem]
      rw [hadd, if_neg hmem]
      exact ih hpaths hkept' hnodup' hne.2

/-- One root of the app's loop. -/
theorem firstSeen_eq (u : SwiftText) {paths : List Bytes}
    (hkeys : ∀ p ∈ paths, ∀ q ∈ paths, u.canonical (u.urlPath p) = u.canonical (u.urlPath q) → p = q) :
    firstSeen u paths = distinct paths [] := by
  have hloop : ∀ (rest seen kept : List Bytes), rest ⊆ paths → kept ⊆ paths →
      (∀ p ∈ paths, u.canonical (u.urlPath p) ∈ seen ↔ p ∈ kept) →
      (rest.foldl (fun (st : List Bytes × List Bytes) root ↦
        if u.canonical (u.urlPath root) ∈ st.1 then st
        else (u.canonical (u.urlPath root) :: st.1, st.2 ++ [root])) (seen, kept)).2 = distinct rest kept := by
    intro rest
    induction rest with
    | nil => exact fun _ _ _ _ _ ↦ rfl
    | cons root rest ih =>
      intro seen kept hrest hkept hseen
      have hroot : root ∈ paths := hrest List.mem_cons_self
      have hsub : rest ⊆ paths := fun p hp ↦ hrest (List.mem_cons_of_mem root hp)
      rw [List.foldl_cons, distinct_cons]
      by_cases hmem : root ∈ kept
      · rw [if_pos ((hseen root hroot).mpr hmem), if_pos hmem]
        exact ih seen kept hsub hkept hseen
      · rw [if_neg fun h ↦ hmem ((hseen root hroot).mp h), if_neg hmem]
        apply ih
        · exact hsub
        · intro p hp
          rw [List.mem_append, List.mem_singleton] at hp
          exact hp.elim (fun h ↦ hkept h) fun h ↦ h ▸ hroot
        · intro p hp
          rw [List.mem_cons, List.mem_append, List.mem_singleton, hseen p hp]
          constructor
          · exact fun h ↦ h.elim (fun e ↦ .inr (hkeys p hp root hroot e)) .inl
          · exact fun h ↦ h.elim .inr fun e ↦ .inl (by rw [e])
  exact hloop paths [] [] (List.Subset.refl paths) (List.nil_subset paths) fun p _ ↦ iff_of_false List.not_mem_nil List.not_mem_nil

/-- No two roots of the list are one path. -/
theorem firstSeen_nodup (u : SwiftText) (roots : List Bytes) :
    ((firstSeen u roots).map fun root ↦ u.canonical (u.urlPath root)).Nodup := by
  have hloop : ∀ (rest seen kept : List Bytes),
      (kept.map fun root ↦ u.canonical (u.urlPath root)).Nodup →
      (∀ root ∈ kept, u.canonical (u.urlPath root) ∈ seen) →
      ((rest.foldl (fun (st : List Bytes × List Bytes) root ↦
        if u.canonical (u.urlPath root) ∈ st.1 then st
        else (u.canonical (u.urlPath root) :: st.1, st.2 ++ [root])) (seen, kept)).2.map
          fun root ↦ u.canonical (u.urlPath root)).Nodup := by
    intro rest
    induction rest with
    | nil => exact fun _ _ hnodup _ ↦ hnodup
    | cons root rest ih =>
      intro seen kept hnodup hseen
      rw [List.foldl_cons]
      by_cases hmem : u.canonical (u.urlPath root) ∈ seen
      · rw [if_pos hmem]
        exact ih seen kept hnodup hseen
      · rw [if_neg hmem]
        apply ih
        · rw [List.map_append, List.map_singleton, List.nodup_append]
          refine ⟨hnodup, List.nodup_singleton _, fun key hkey other hother e ↦ ?_⟩
          obtain ⟨first, hfirst, rfl⟩ := List.mem_map.mp hkey
          have hold := hseen first hfirst
          rw [List.mem_singleton] at hother
          rw [e, hother] at hold
          exact hmem hold
        · intro kept' hkept'
          rw [List.mem_append, List.mem_singleton] at hkept'
          rcases hkept' with hkept' | rfl
          · exact List.mem_cons_of_mem _ (hseen kept' hkept')
          · exact List.mem_cons_self
  exact hloop roots [] [] List.nodup_nil fun root h ↦ absurd h List.not_mem_nil

theorem mem_distinct {path : Bytes} {paths : List Bytes} (h : path ∈ paths) (kept : List Bytes) :
    path ∈ distinct paths kept := by
  induction paths generalizing kept with
  | nil => cases h
  | cons first paths ih =>
    rw [distinct_cons]
    rcases List.mem_cons.mp h with rfl | h
    · apply kept_subset_distinct
      split
      next hmem => exact hmem
      next => exact List.mem_append_right _ List.mem_cons_self
    · exact ih h _

theorem distinct_const {path : Bytes} {paths : List Bytes} (h : ∀ p ∈ paths, p = path) :
    distinct paths [path] = [path] := by
  induction paths with
  | nil => rfl
  | cons first paths ih =>
    rw [List.forall_mem_cons] at h
    rw [distinct_cons, h.1, if_pos List.mem_cons_self]
    exact ih h.2

/-- A line adds to the list what it gives by itself. -/
theorem libraryLine_eq (libs : List Bytes) (line : Bytes) :
    libraryLine libs line = (libraryLine [] line).foldl addLibrary libs := by
  unfold libraryLine
  cases vdfToken line fieldMax with
  | mk key rest =>
    cases rest with
    | none => rfl
    | some rest =>
      simp only
      by_cases hkey : key ≠ ascii "path"
      · rw [if_pos hkey, if_pos hkey]
        rfl
      · rw [if_neg hkey, if_neg hkey]
        cases vdfToken rest pathMax with
        | mk value after =>
          cases after with
          | none => rfl
          | some after =>
            simp only
            by_cases hempty : value = []
            · rw [hempty, addLibrary, if_pos (.inl rfl), addLibrary, if_pos (.inl rfl)]
              rfl
            · have hone : addLibrary [] value = [value] := by
                rw [addLibrary, if_neg (by rw [not_or]; exact ⟨hempty, by decide⟩), if_neg List.not_mem_nil]
                rfl
              rw [hone]
              rfl

theorem foldl_libraryLine (lines : List Bytes) (libs : List Bytes) :
    lines.foldl libraryLine libs = (lines.flatMap (libraryLine [])).foldl addLibrary libs := by
  induction lines generalizing libs with
  | nil => rfl
  | cons line lines ih => rw [List.foldl_cons, List.flatMap_cons, List.foldl_append, ← libraryLine_eq, ih]

theorem nil_notMem_libraryPaths (text : Bytes) : ∀ path ∈ libraryPaths text, path ≠ [] := by
  intro path hpath
  obtain ⟨line, -, hline⟩ := List.mem_flatMap.mp hpath
  have hadd : ∀ value, path ∈ addLibrary [] value → path ≠ [] := by
    intro value hmem
    unfold addLibrary at hmem
    split at hmem
    · exact absurd hmem List.not_mem_nil
    next hvalue =>
      rw [if_neg List.not_mem_nil, List.nil_append, List.mem_singleton] at hmem
      rw [hmem]
      exact fun h ↦ hvalue (.inl h)
  unfold libraryLine at hline
  split at hline
  · exact absurd hline List.not_mem_nil
  split at hline
  · exact absurd hline List.not_mem_nil
  split at hline
  · exact absurd hline List.not_mem_nil
  · exact hadd _ hline

/-- A text that is UTF-8 names no two paths that are one string; one that is not, which the app cannot
read, names no path but the Steam root. -/
structure PathsAgree (u : SwiftText) (text steamRoot : Bytes) : Prop where
  apart : u.characters text ≠ none → ∀ p ∈ libraryPaths text, ∀ q ∈ libraryPaths text,
    u.canonical (u.urlPath p) = u.canonical (u.urlPath q) → p = q
  unread : u.characters text = none → ∀ p ∈ libraryPaths text, p = steamRoot

section file

variable {u : SwiftText} {h : Host} {steamRoot text : Bytes}

/-- What `read_libraries` makes of a file. -/
theorem readLibraries_eq (hfile : h.entry (steamRoot ++ ascii "/steamapps/libraryfolders.vdf") = .file text)
    (hroot : steamRoot ≠ []) (hnul : 0 ∉ text) (hlines : ∀ line ∈ text.splitOn 10, line.length < lineMaxLen)
    (hcount : (libraryPaths text).dedup.length ≤ librariesMax) :
    readLibraries h steamRoot =
      if libraryPaths text = [] then [steamRoot] else distinct (libraryPaths text) [] := by
  have htext : h.text (steamRoot ++ ascii "/steamapps/libraryfolders.vdf") = some text := by
    rw [Host.text, hfile]
  have hread : (fgetsLines lineMaxLen text.length text).foldl libraryLine [] = distinct (libraryPaths text) [] :=
    calc (fgetsLines lineMaxLen text.length text).foldl libraryLine []
        = (text.splitOn 10).foldl libraryLine [] :=
          foldl_fgetsLines (n := 2047) libraryLine_newline (fun _ ↦ rfl) (by omega) hnul
            (fun line hl ↦ Nat.le_of_lt_succ (hlines line hl)) le_rfl []
      _ = (libraryPaths text).foldl addLibrary [] := foldl_libraryLine _ _
      _ = distinct (libraryPaths text) [] :=
          foldl_addLibrary hcount (List.Subset.refl _) (List.nil_subset _) List.nodup_nil
            (nil_notMem_libraryPaths text)
  simp only [readLibraries, htext, hread]
  cases hpaths : libraryPaths text with
  | nil =>
    have hnone : distinct [] [] = [] := rfl
    rw [if_pos hnone, if_pos rfl, hnone, addLibrary, if_neg (by rw [not_or]; exact ⟨hroot, by decide⟩),
      if_neg List.not_mem_nil]
    rfl
  | cons path paths =>
    have hsome : distinct (path :: paths) [] ≠ [] := List.ne_nil_of_mem (mem_distinct List.mem_cons_self [])
    rw [if_neg hsome, if_neg (List.cons_ne_nil path paths)]

/-- The app's roots before repeats go. -/
theorem roots_eq {cs : List Bytes} (hcs : u.characters text = some cs)
    (hagree : ∀ line ∈ cs.splitOn [10], LineAgrees line) :
    ((cs.splitOn [10]).filter (· ≠ [])).filterMap (fieldLibrary u) = libraryPaths text := by
  have hlines : ∀ line ∈ cs.splitOn [10], libraryPaths line.flatten = (fieldLibrary u line).toList := by
    intro line hline
    have hne : [] ∉ line := fun hmem ↦ u.nonempty hcs [] (mem_splitOn_subset hline hmem) rfl
    rw [fieldLibrary_eq u (hagree line hline)]
    exact libraryPaths_line (hagree line hline) hne (newline_notMem_splitOn hline)
  have hall : libraryPaths text = (cs.splitOn [10]).filterMap (fieldLibrary u) := by
    rw [libraryPaths, ← u.flatten hcs, splitOn_flatten, List.flatMap_assoc, List.filterMap_eq_flatMap_toList]
    exact List.flatMap_congr hlines
  rw [hall, List.filterMap_filter]
  apply List.filterMap_congr
  intro line _
  by_cases hempty : line = []
  · rw [hempty]
    rfl
  · rw [if_pos (by simpa using hempty)]

/-- Where both read the lines alike, the page's list of libraries and the app's are the same just when the
paths the lines name are apart as strings. -/
theorem libraries_eq_readLibraries
    (hfile : h.entry (steamRoot ++ ascii "/steamapps/libraryfolders.vdf") = .file text)
    (hroot : steamRoot ≠ []) (hnul : 0 ∉ text) (hlines : ∀ line ∈ text.splitOn 10, line.length < lineMaxLen)
    (hcount : (libraryPaths text).dedup.length ≤ librariesMax)
    (hagree : ∀ cs ∈ u.characters text, ∀ line ∈ cs.splitOn [10], LineAgrees line) :
    libraries u (some text) steamRoot = readLibraries h steamRoot ↔ PathsAgree u text steamRoot := by
  rw [readLibraries_eq hfile hroot hnul hlines hcount]
  unfold libraries
  rw [Option.bind_some]
  cases hcs : u.characters text with
  | none =>
    simp only
    constructor
    · intro heq
      refine ⟨fun hsome ↦ absurd hcs hsome, fun _ p hp ↦ ?_⟩
      rw [if_neg (List.ne_nil_of_mem hp)] at heq
      have hmem := mem_distinct hp []
      rw [← heq, List.mem_singleton] at hmem
      exact hmem
    · intro hagrees
      cases hpaths : libraryPaths text with
      | nil => rw [if_pos rfl]
      | cons path paths =>
        have hall := hagrees.unread hcs
        rw [hpaths, List.forall_mem_cons] at hall
        rw [if_neg (List.cons_ne_nil path paths), distinct_cons, if_neg List.not_mem_nil, hall.1]
        exact (distinct_const hall.2).symm
  | some cs =>
    simp only [roots_eq hcs (hagree cs hcs)]
    have hutf8 : u.characters text ≠ none := by
      rw [hcs]
      exact Option.some_ne_none cs
    cases hpaths : libraryPaths text with
    | nil =>
      rw [if_pos rfl, if_pos rfl]
      refine iff_of_true rfl ⟨fun _ p hp ↦ ?_, fun hnone ↦ absurd hnone hutf8⟩
      rw [hpaths] at hp
      cases hp
    | cons path paths =>
      rw [if_neg (List.cons_ne_nil path paths), if_neg (List.cons_ne_nil path paths), ← hpaths]
      constructor
      · intro heq
        refine ⟨fun _ p hp q hq hkey ↦ ?_, fun hnone ↦ absurd hnone hutf8⟩
        -- Both paths are in the app's list, where no string stands twice.
        have hnodup := firstSeen_nodup u (libraryPaths text)
        rw [heq] at hnodup
        exact List.inj_on_of_nodup_map hnodup (mem_distinct hp []) (mem_distinct hq []) hkey
      · exact fun hagrees ↦ firstSeen_eq u (hagrees.apart hutf8)

end file

/-- The Characters of an ASCII text: CR LF is one, and else every byte. -/
def asciiCharacters : Bytes → List Bytes
  | [] => []
  | 13 :: 10 :: s => [13, 10] :: asciiCharacters s
  | b :: s => [b] :: asciiCharacters s

theorem asciiCharacters_flatten (s : Bytes) : (asciiCharacters s).flatten = s := by
  induction s using asciiCharacters.induct with
  | case1 => rfl
  | case2 s ih =>
    rw [asciiCharacters, List.flatten_cons, ih]
    rfl
  | case3 b s hcrlf ih =>
    rw [asciiCharacters.eq_3 b s hcrlf, List.flatten_cons, ih]
    rfl

theorem asciiCharacters_ne_nil (s : Bytes) : ∀ c ∈ asciiCharacters s, c ≠ [] := by
  induction s using asciiCharacters.induct with
  | case1 => exact fun c hc ↦ absurd hc List.not_mem_nil
  | case2 s ih =>
    rw [asciiCharacters, List.forall_mem_cons]
    exact ⟨List.cons_ne_nil _ _, ih⟩
  | case3 b s hcrlf ih =>
    rw [asciiCharacters.eq_3 b s hcrlf, List.forall_mem_cons]
    exact ⟨List.cons_ne_nil _ _, ih⟩

/-- ASCII texts, of which no two strings are equal. -/
def asciiText : SwiftText where
  characters text := if text.all (· < 128) then some (asciiCharacters text) else none
  flatten := by
    intro text cs h
    split at h
    · rw [Option.some.injEq] at h
      rw [← h, asciiCharacters_flatten]
    · cases h
  nonempty := by
    intro text cs h
    split at h
    · rw [Option.some.injEq] at h
      rw [← h]
      exact asciiCharacters_ne_nil text
    · cases h
  canonical := id
  canonical_path := fun h ↦ h
  urlPath := id

/-- A machine with one file. -/
def oneFile (path content : Bytes) : Host where
  entry := fun p ↦ if p = path then .file content else .missing
  inode := fun _ ↦ none
  serverLocked := fun _ ↦ false
  flockHeld := fun _ ↦ false
  age := fun _ ↦ none
  executable := fun _ ↦ false

/-- Two libraries, one of them with a backslash in its path as Steam writes it, and a last line that
ends in CR LF. -/
def steamFile : Bytes :=
  ascii "\t\"path\" \"/B\\\\C\"\n\t\"label\" \"D\"\n\t\"path\" \"/E\"\r\n\x7d"

theorem libraries_steamFile : libraries asciiText (some steamFile) (ascii "/S") =
    readLibraries (oneFile (ascii "/S" ++ ascii "/steamapps/libraryfolders.vdf") steamFile) (ascii "/S") := by
  have hfile : (oneFile (ascii "/S" ++ ascii "/steamapps/libraryfolders.vdf") steamFile).entry
      (ascii "/S" ++ ascii "/steamapps/libraryfolders.vdf") = .file steamFile := by
    simp only [oneFile, if_true]
  refine (libraries_eq_readLibraries hfile (by decide) (by decide) (by decide) (by decide)
    (by decide +kernel)).mpr ?_
  have hutf8 : asciiText.characters steamFile ≠ none := by decide
  exact ⟨fun _ p _ q _ e ↦ e, fun h ↦ absurd h hutf8⟩

/-- `"path" "/B\C"`: the page drops the backslash and the app keeps it. -/
theorem libraries_unknownEscape :
    libraries asciiText (some (ascii "\"path\" \"/B\\C\"")) (ascii "/S") ≠
      readLibraries (oneFile (ascii "/S" ++ ascii "/steamapps/libraryfolders.vdf") (ascii "\"path\" \"/B\\C\""))
        (ascii "/S") := by
  decide

end NotProton.PrefixStore
