import NotProton.PrefixStore

/-!
# Lines — what the page reads of a line of `libraryfolders.vdf` (`prefixstate.c`)

The bytes of a quoted token are read back to its Characters, as far as the two lists depend on them.
-/

open NotProton.Library NotProton.PrefixState

namespace NotProton.PrefixStore

/-! ## Tokens by Characters -/

/-- One step of a quoted token. -/
inductive Piece
  | plain (c : Bytes)
  | escaped (c : Bytes)
  deriving DecidableEq

/-- The pieces up to the closing quote, and what follows it. -/
def pieces : List Bytes → List Piece × Option (List Bytes)
  | [] => ([], none)
  | [34] :: cs => ([], some cs)
  | [92] :: c :: cs => (.escaped c :: (pieces cs).1, (pieces cs).2)
  | c :: cs => (.plain c :: (pieces cs).1, (pieces cs).2)

/-- What follows the first quote. -/
def afterQuote : List Bytes → Option (List Bytes)
  | [] => none
  | c :: cs => if c = [34] then some cs else afterQuote cs

/-- A piece as `vdf_token` decodes it. -/
def Piece.decoded : Piece → Bytes
  | .plain c => c
  | .escaped [] => [92]
  | .escaped (b :: c) => (if b = 110 then 10 else if b = 116 then 9 else b) :: c

/-- A piece as the app decodes it. -/
def Piece.shown : Piece → Bytes
  | .plain c => c
  | .escaped c => unescape c

/-- No newline character is escaped. -/
def Piece.Soft : Piece → Prop
  | .plain _ => True
  | .escaped c => isNewline c = false

/-- A newline, a quote or a backslash is a Character of its own. -/
def Single (c : Bytes) : Prop := ∀ b ∈ c, b = 10 ∨ b = 34 ∨ b = 92 → c = [b]

instance (c : Bytes) : Decidable (Single c) := inferInstanceAs (Decidable (∀ b ∈ c, _))

def Piece.Single : Piece → Prop
  | .plain c => PrefixStore.Single c
  | .escaped c => PrefixStore.Single c

/-- Only the escapes both sides decode. -/
def Piece.Known : Piece → Prop
  | .plain _ => True
  | .escaped c => c = [110] ∨ c = [116] ∨ c = [92] ∨ c = [34]

instance (p : Piece) : Decidable p.Soft := by
  cases p <;> unfold Piece.Soft <;> infer_instance

instance (p : Piece) : Decidable p.Single := by
  cases p <;> unfold Piece.Single <;> infer_instance

instance (p : Piece) : Decidable p.Known := by
  cases p <;> unfold Piece.Known <;> infer_instance

/-! ## A line to each side -/

/-- The Characters before the first quote. -/
def beforeQuote (cs : List Bytes) : List Bytes := cs.takeWhile fun c ↦ decide (c ≠ [34])

/-- The library a line names by its Characters. -/
def lineLibrary (line : List Bytes) : Option Bytes :=
  match afterQuote line with
  | none => none
  | some cs =>
    match (pieces cs).2 with
    | none => none
    | some rest =>
      if (pieces cs).1.flatMap Piece.decoded ≠ ascii "path" then none
      else
        match afterQuote rest with
        | none => none
        | some cs =>
          if (pieces cs).2 = none ∨ (pieces cs).1.flatMap Piece.decoded = [] then none
          else some ((pieces cs).1.flatMap Piece.decoded)

/-- What follows a key `path` is taken apart alike as far as it is read, and is no library or one that
both decode alike. -/
structure ValueAgrees (key : List Piece) (rest : List Bytes) : Prop where
  between : ∀ c ∈ beforeQuote rest, 34 ∉ c ∧ (afterQuote rest ≠ none → 10 ∉ c)
  token : ∀ value ∈ afterQuote rest, ∀ p ∈ (pieces value).1, p.Soft ∧ p.Single
  decodes : ∀ value ∈ afterQuote rest, (pieces value).2 ≠ none →
    (pieces value).1.flatMap Piece.decoded ≠ [] → (∀ p ∈ key, p.Known) ∧
      (∀ p ∈ (pieces value).1, p.Known) ∧ ((pieces value).1.flatMap Piece.decoded).length < pathMax

/-- What is read of a line is taken apart alike.  Behind it anything may follow but a further line, which
a CR LF starts for `read_libraries` only, that names a library. -/
structure LineAgrees (line : List Bytes) : Prop where
  before : ∀ c ∈ beforeQuote line, 34 ∉ c
  key : ∀ cs ∈ afterQuote line, ∀ p ∈ (pieces cs).1, p.Soft ∧ p.Single
  further : ∀ cs ∈ afterQuote line, ∀ l ∈ (cs.flatten.splitOn 10).tail, libraryLine [] l = []
  value : ∀ cs ∈ afterQuote line, ∀ rest ∈ (pieces cs).2,
    (pieces cs).1.flatMap Piece.decoded = ascii "path" → ValueAgrees (pieces cs).1 rest

instance (key : List Piece) (rest : List Bytes) : Decidable (ValueAgrees key rest) :=
  decidable_of_iff (_ ∧ _ ∧ _) ⟨fun h ↦ ⟨h.1, h.2.1, h.2.2⟩, fun h ↦ ⟨h.between, h.token, h.decodes⟩⟩

instance (line : List Bytes) : Decidable (LineAgrees line) :=
  decidable_of_iff (_ ∧ _ ∧ _ ∧ _)
    ⟨fun h ↦ ⟨h.1, h.2.1, h.2.2.1, h.2.2.2⟩, fun h ↦ ⟨h.before, h.key, h.further, h.value⟩⟩

/-! ## The bytes of the same tokens -/

theorem afterQuote_eq_some {cs rest : List Bytes} (h : afterQuote cs = some rest) :
    cs = beforeQuote cs ++ [34] :: rest := by
  induction cs with
  | nil => cases h
  | cons c cs ih =>
    unfold afterQuote at h
    unfold beforeQuote
    split at h
    next hc =>
      rw [Option.some.injEq] at h
      rw [List.takeWhile_cons_of_neg (by simpa using hc), hc, h]
      rfl
    next hc =>
      rw [List.takeWhile_cons_of_pos (by simpa using hc), List.cons_append]
      exact congrArg (c :: ·) (ih h)

theorem flatten_afterQuote {cs rest : List Bytes} (h : afterQuote cs = some rest) :
    cs.flatten = (beforeQuote cs).flatten ++ 34 :: rest.flatten := by
  conv_lhs => rw [afterQuote_eq_some h]
  rw [List.flatten_append]
  rfl

theorem afterQuote_subset {cs rest : List Bytes} (h : afterQuote cs = some rest) : rest ⊆ cs := by
  intro c hc
  rw [afterQuote_eq_some h]
  exact List.mem_append_right _ (List.mem_cons_of_mem _ hc)

theorem afterQuote_eq_none {cs : List Bytes} (h : afterQuote cs = none) : beforeQuote cs = cs := by
  induction cs with
  | nil => rfl
  | cons c cs ih =>
    unfold afterQuote at h
    unfold beforeQuote
    split at h
    · cases h
    next hc =>
      rw [List.takeWhile_cons_of_pos (by simpa using hc)]
      exact congrArg (c :: ·) (ih h)

theorem notMem_flatten {b : UInt8} {cs : List Bytes} (h : ∀ c ∈ cs, b ∉ c) : b ∉ cs.flatten := by
  intro hb
  obtain ⟨c, hc, hbc⟩ := List.mem_flatten.mp hb
  exact h c hc hbc

-- A Character that is neither a quote nor a backslash has no such byte.
theorem Single.notMem {c : Bytes} (h : Single c) {b : UInt8} (hb : b = 10 ∨ b = 34 ∨ b = 92) (hc : c ≠ [b]) :
    b ∉ c := fun hmem ↦ hc (h b hmem hb)

theorem vdfChars_append {c s : Bytes} (hquote : 34 ∉ c) (hslash : 92 ∉ c) :
    vdfChars (c ++ s) = (c ++ (vdfChars s).1, (vdfChars s).2) := by
  induction c with
  | nil => rfl
  | cons b c ih =>
    have hb : b ≠ 34 ∧ b ≠ 92 := ⟨fun e ↦ hquote (e ▸ List.mem_cons_self), fun e ↦ hslash (e ▸ List.mem_cons_self)⟩
    have hrest := ih (fun hm ↦ hquote (List.mem_cons_of_mem b hm)) (fun hm ↦ hslash (List.mem_cons_of_mem b hm))
    rw [List.cons_append, vdfChars.eq_4 b (c ++ s) hb.1 fun _ _ e ↦ absurd e hb.2, hrest]
    rfl

/-- A backslash and a Character are one escape and what the Character goes on with. -/
theorem vdfChars_escaped {c s : Bytes} (hc : c ≠ []) (hsingle : Single c) :
    vdfChars (92 :: (c ++ s)) = ((Piece.escaped c).decoded ++ (vdfChars s).1, (vdfChars s).2) := by
  cases c with
  | nil => exact absurd rfl hc
  | cons b c =>
    have hplain : ∀ b', b' = 10 ∨ b' = 34 ∨ b' = 92 → b' ∉ c := by
      intro b' hb' hmem
      have hall := hsingle b' (List.mem_cons_of_mem b hmem) hb'
      rw [List.cons.injEq] at hall
      rw [hall.2] at hmem
      exact List.not_mem_nil hmem
    rw [List.cons_append, vdfChars.eq_3, vdfChars_append (hplain 34 (by simp)) (hplain 92 (by simp))]
    rfl

/-- A closed token's bytes, whatever follows them. -/
theorem vdfChars_closed {cs rest : List Bytes} (h : (pieces cs).2 = some rest)
    (hsingle : ∀ p ∈ (pieces cs).1, p.Single) (hne : [] ∉ cs) (hnewline : [10] ∉ cs) :
    ∃ w : Bytes, 10 ∉ w ∧ cs.flatten = w ++ 34 :: rest.flatten ∧
      ∀ r, vdfChars (w ++ 34 :: r) = ((pieces cs).1.flatMap Piece.decoded, some r) := by
  induction cs using pieces.induct with
  | case1 => cases h
  | case2 cs =>
    rw [pieces, Option.some.injEq] at h
    rw [← h]
    exact ⟨[], List.not_mem_nil, rfl, fun r ↦ rfl⟩
  | case3 c cs ih =>
    rw [pieces] at h hsingle
    rw [List.forall_mem_cons] at hsingle
    simp only [List.mem_cons, not_or] at hne hnewline
    obtain ⟨w, hw, hflat, hread⟩ := ih h hsingle.2 hne.2.2 hnewline.2.2
    have hc : Single c := hsingle.1
    refine ⟨92 :: (c ++ w), ?_, ?_, fun r ↦ ?_⟩
    · rw [List.mem_cons, List.mem_append, not_or, not_or]
      exact ⟨by decide, hc.notMem (.inl rfl) (Ne.symm hnewline.2.1), hw⟩
    · rw [List.flatten_cons, List.flatten_cons, hflat]
      simp only [List.cons_append, List.nil_append, List.append_assoc]
    · rw [List.cons_append, List.append_assoc, vdfChars_escaped (Ne.symm hne.2.1) hc, hread, pieces]
      rfl
  | case4 c cs hquote hslash ih =>
    rw [pieces.eq_4 c cs hquote hslash] at h hsingle
    rw [List.forall_mem_cons] at hsingle
    simp only [List.mem_cons, not_or] at hne hnewline
    obtain ⟨w, hw, hflat, hread⟩ := ih h hsingle.2 hne.2 hnewline.2
    have hc : Single c := hsingle.1
    -- A lone backslash would escape the next Character, or leave the token open.
    have hback : c ≠ [92] := by
      rintro rfl
      cases cs with
      | nil => cases h
      | cons d cs => exact hslash d cs rfl rfl
    refine ⟨c ++ w, ?_, ?_, fun r ↦ ?_⟩
    · rw [List.mem_append, not_or]
      exact ⟨hc.notMem (.inl rfl) (Ne.symm hnewline.1), hw⟩
    · rw [List.flatten_cons, hflat, List.append_assoc]
    · rw [List.append_assoc, vdfChars_append (hc.notMem (.inr (.inl rfl)) fun e ↦ hquote e)
        (hc.notMem (.inr (.inr rfl)) hback), hread, pieces.eq_4 c cs hquote hslash]
      rfl

/-- A token that stays open takes all that is left of the line. -/
theorem vdfChars_open {cs : List Bytes} (h : (pieces cs).2 = none) (hsingle : ∀ p ∈ (pieces cs).1, p.Single)
    (hne : [] ∉ cs) (hnewline : [10] ∉ cs) : 10 ∉ cs.flatten ∧ (vdfChars cs.flatten).2 = none := by
  induction cs using pieces.induct with
  | case1 => exact ⟨List.not_mem_nil, rfl⟩
  | case2 cs => cases h
  | case3 c cs ih =>
    rw [pieces] at h hsingle
    rw [List.forall_mem_cons] at hsingle
    simp only [List.mem_cons, not_or] at hne hnewline
    obtain ⟨hw, hread⟩ := ih h hsingle.2 hne.2.2 hnewline.2.2
    have hc : Single c := hsingle.1
    have hflat : ([92] :: c :: cs).flatten = 92 :: (c ++ cs.flatten) := rfl
    rw [hflat, vdfChars_escaped (Ne.symm hne.2.1) hc]
    refine ⟨?_, hread⟩
    rw [List.mem_cons, List.mem_append, not_or, not_or]
    exact ⟨by decide, hc.notMem (.inl rfl) (Ne.symm hnewline.2.1), hw⟩
  | case4 c cs hquote hslash ih =>
    rw [pieces.eq_4 c cs hquote hslash] at h hsingle
    rw [List.forall_mem_cons] at hsingle
    simp only [List.mem_cons, not_or] at hne hnewline
    obtain ⟨hw, hread⟩ := ih h hsingle.2 hne.2 hnewline.2
    have hc : Single c := hsingle.1
    rw [List.flatten_cons]
    constructor
    · rw [List.mem_append, not_or]
      exact ⟨hc.notMem (.inl rfl) (Ne.symm hnewline.1), hw⟩
    · by_cases hback : c = [92]
      · -- a backslash with nothing after it
        cases cs with
        | nil =>
          rw [hback]
          rfl
        | cons d cs => exact absurd rfl (hslash d cs hback)
      · rw [vdfChars_append (hc.notMem (.inr (.inl rfl)) fun e ↦ hquote e) (hc.notMem (.inr (.inr rfl)) hback)]
        exact hread

theorem pieces_subset {cs rest : List Bytes} (h : (pieces cs).2 = some rest) : rest ⊆ cs := by
  induction cs using pieces.induct with
  | case1 => cases h
  | case2 cs =>
    rw [pieces, Option.some.injEq] at h
    rw [← h]
    exact List.subset_cons_self [34] cs
  | case3 c cs ih =>
    rw [pieces] at h
    exact fun d hd ↦ List.mem_cons_of_mem _ (List.mem_cons_of_mem c (ih h hd))
  | case4 c cs hquote hslash ih =>
    rw [pieces.eq_4 c cs hquote hslash] at h
    exact fun d hd ↦ List.mem_cons_of_mem c (ih h hd)

theorem vdfToken_quote {x s : Bytes} (hx : 34 ∉ x) (cap : Nat) :
    vdfToken (x ++ 34 :: s) cap = ((vdfChars s).1.take (cap - 1), (vdfChars s).2) := by
  rw [vdfToken, splitAt_append hx]

theorem vdfToken_none {s : Bytes} (hs : 34 ∉ s) (cap : Nat) : vdfToken s cap = ([], none) := by
  rw [vdfToken, splitAt_of_not_mem hs]

theorem take_eq_path {s : Bytes} : s.take (fieldMax - 1) = ascii "path" ↔ s = ascii "path" := by
  have hlen : (ascii "path").length = 4 := by decide
  constructor
  · intro h
    have hcut := congrArg List.length h
    rw [List.length_take, hlen] at hcut
    rw [List.take_of_length_le (by unfold fieldMax at *; omega)] at h
    exact h
  · rintro rfl
    decide

/-- A line from its first quote on: nothing without a second one. -/
theorem libraryLine_open {s : Bytes} (h : (vdfChars s).2 = none) : libraryLine [] (34 :: s) = [] := by
  have htoken := vdfToken_quote (x := []) (s := s) List.not_mem_nil fieldMax
  rw [List.nil_append, h] at htoken
  rw [libraryLine, htoken]

/-- Nothing where the first token is another word. -/
theorem libraryLine_other {s key rest : Bytes} (h : vdfChars s = (key, some rest)) (hkey : key ≠ ascii "path") :
    libraryLine [] (34 :: s) = [] := by
  have htoken := vdfToken_quote (x := []) (s := s) List.not_mem_nil fieldMax
  rw [List.nil_append, h] at htoken
  rw [libraryLine, htoken]
  exact if_pos fun htake ↦ hkey (take_eq_path.mp htake)

/-- And the second token where it is `path`. -/
theorem libraryLine_path {s rest : Bytes} (h : vdfChars s = (ascii "path", some rest)) :
    ((vdfToken rest pathMax).2 = none → libraryLine [] (34 :: s) = []) ∧
      ∀ value after, vdfToken rest pathMax = (value, some after) → libraryLine [] (34 :: s) = addLibrary [] value := by
  have htoken := vdfToken_quote (x := []) (s := s) List.not_mem_nil fieldMax
  rw [List.nil_append, h] at htoken
  have hpath : ¬ (ascii "path").take (fieldMax - 1) ≠ ascii "path" := not_not.mpr (take_eq_path.mpr rfl)
  have hline : libraryLine [] (34 :: s) = (vdfToken rest pathMax).2.elim [] fun _ ↦ addLibrary [] (vdfToken rest pathMax).1 := by
    rw [libraryLine, htoken]
    dsimp only
    rw [if_neg hpath]
    cases vdfToken rest pathMax with
    | mk value after => cases after <;> rfl
  constructor
  · intro hnone
    rw [hline, hnone]
    rfl
  · intro value after hvalue
    rw [hline, hvalue]
    rfl

/-! ## The lines of the bytes -/

/-- The libraries `read_libraries` takes from the lines of a text, repeats included. -/
def libraryPaths (text : Bytes) : List Bytes := (text.splitOn 10).flatMap (libraryLine [])

/-- What stands before the first newline. -/
def firstLine (s : Bytes) : Bytes := s.takeWhile fun b ↦ decide (b ≠ 10)

theorem splitOn_eq_firstLine (s : Bytes) : s.splitOn 10 = firstLine s :: (s.splitOn 10).tail := by
  induction s with
  | nil => rfl
  | cons b s ih =>
    by_cases hb : b = 10
    · rw [hb, splitOn_cons_self]
      rfl
    · rw [splitOn_cons_ne hb, firstLine, List.takeWhile_cons_of_pos (by simpa using hb), ih]
      rfl

theorem firstLine_append {w : Bytes} (hw : 10 ∉ w) (s : Bytes) : firstLine (w ++ s) = w ++ firstLine s :=
  List.takeWhile_append_of_pos fun _ hb ↦ decide_eq_true fun e ↦ hw (e ▸ hb)

theorem firstLine_of_notMem {s : Bytes} (hs : 10 ∉ s) : firstLine s = s := by
  have h := firstLine_append hs []
  rwa [List.append_nil, firstLine, firstLine, List.takeWhile_nil, List.append_nil] at h

theorem firstLine_quote (s : Bytes) : firstLine (34 :: s) = 34 :: firstLine s :=
  List.takeWhile_cons_of_pos (by decide)

theorem tail_splitOn_append {w : Bytes} (hw : 10 ∉ w) (s : Bytes) :
    ((w ++ s).splitOn 10).tail = (s.splitOn 10).tail := by
  induction w with
  | nil => rfl
  | cons b w ih =>
    have hb : b ≠ 10 := fun e ↦ hw (e ▸ List.mem_cons_self)
    rw [List.cons_append, splitOn_cons_ne hb, List.tail_modifyHead]
    exact ih fun hm ↦ hw (List.mem_cons_of_mem b hm)

/-- Bytes without a quote, whatever lines they are on, change nothing. -/
theorem libraryPaths_skip {x : Bytes} (hx : 34 ∉ x) (s : Bytes) : libraryPaths (x ++ s) = libraryPaths s := by
  induction x with
  | nil => rfl
  | cons b x ih =>
    have hb : b ≠ 34 := fun e ↦ hx (e ▸ List.mem_cons_self)
    have hrest := ih fun hm ↦ hx (List.mem_cons_of_mem b hm)
    rw [← hrest, libraryPaths, libraryPaths, List.cons_append]
    by_cases hnewline : b = 10
    · rw [hnewline, splitOn_cons_self, List.flatMap_cons]
      rfl
    · have hskip : ∀ l, libraryLine [] (b :: l) = libraryLine [] l := by
        intro l
        rw [libraryLine, libraryLine, vdfToken, vdfToken, splitAt_cons_ne hb]
      rw [splitOn_cons_ne hnewline, splitOn_eq_firstLine, List.modifyHead_cons, List.flatMap_cons,
        List.flatMap_cons, hskip]

/-- The second token as `vdf_token` reads it from the line. -/
theorem ValueAgrees.vdfToken_value {key : List Piece} {rest value : List Bytes} (h : ValueAgrees key rest)
    (hsecond : afterQuote rest = some value) : vdfToken (firstLine rest.flatten) pathMax =
      ((vdfChars (firstLine value.flatten)).1.take (pathMax - 1), (vdfChars (firstLine value.flatten)).2) := by
  have hquotes : 34 ∉ (beforeQuote rest).flatten := notMem_flatten fun c hc ↦ (h.between c hc).1
  have hlf : 10 ∉ (beforeQuote rest).flatten := by
    refine notMem_flatten fun c hc ↦ (h.between c hc).2 ?_
    rw [hsecond]
    exact Option.some_ne_none value
  rw [flatten_afterQuote hsecond, firstLine_append hlf, firstLine_quote, vdfToken_quote hquotes]

/-- What `read_libraries` takes from the lines of an app's line is what the line's Characters say. -/
theorem libraryPaths_line {line : List Bytes} (hagrees : LineAgrees line) (hne : [] ∉ line)
    (hnewline : [10] ∉ line) : libraryPaths line.flatten = (lineLibrary line).toList := by
  have hbefore := notMem_flatten hagrees.before
  unfold lineLibrary
  cases hafter : afterQuote line with
  | none =>
    rw [afterQuote_eq_none hafter] at hbefore
    rw [← List.append_nil line.flatten, libraryPaths_skip hbefore]
    rfl
  | some cs =>
    have hkey := fun p hp ↦ (hagrees.key cs hafter p hp).2
    have hsub : ∀ c, c ∉ line → c ∉ cs := fun c hc hmem ↦ hc (afterQuote_subset hafter hmem)
    -- The lines behind the one with the first quote name no library.
    have hfirst : libraryPaths line.flatten = libraryLine [] (34 :: firstLine cs.flatten) := by
      have hfurther : ((34 :: cs.flatten).splitOn 10).tail.flatMap (libraryLine []) = [] := by
        rw [← List.singleton_append, tail_splitOn_append (by decide), List.flatMap_eq_nil_iff]
        exact hagrees.further cs hafter
      rw [flatten_afterQuote hafter, libraryPaths_skip hbefore, libraryPaths, splitOn_eq_firstLine, List.flatMap_cons, hfurther,
        List.append_nil, firstLine_quote]
    rw [hfirst]
    simp only
    cases hrest : (pieces cs).2 with
    | none =>
      obtain ⟨hone, hopen⟩ := vdfChars_open hrest hkey (hsub _ hne) (hsub _ hnewline)
      rw [firstLine_of_notMem hone, libraryLine_open hopen]
      rfl
    | some rest =>
      obtain ⟨w, hw, hcs, hread⟩ := vdfChars_closed hrest hkey (hsub _ hne) (hsub _ hnewline)
      rw [hcs, firstLine_append hw, firstLine_quote]
      simp only [ne_eq]
      by_cases hpath : (pieces cs).1.flatMap Piece.decoded = ascii "path"
      · rw [if_neg (not_not.mpr hpath)]
        have hquoted := hread (firstLine rest.flatten)
        rw [hpath] at hquoted
        obtain ⟨hbare, hpathLine⟩ := libraryLine_path hquoted
        have hvalue := hagrees.value cs hafter rest hrest hpath
        cases hsecond : afterQuote rest with
        | none =>
          have hquotes := notMem_flatten fun c hc ↦ (hvalue.between c hc).1
          rw [afterQuote_eq_none hsecond] at hquotes
          have hnone : 34 ∉ firstLine rest.flatten := fun hm ↦ hquotes ((List.takeWhile_sublist _).subset hm)
          rw [hbare (by rw [vdfToken_none hnone])]
          rfl
        | some value =>
          have hsub' : ∀ c, c ∉ line → c ∉ value :=
            fun c hc hmem ↦ hsub c hc (pieces_subset hrest (afterQuote_subset hsecond hmem))
          have hsingle := fun p hp ↦ (hvalue.token value hsecond p hp).2
          have htoken := hvalue.vdfToken_value hsecond
          simp only
          cases hclosed : (pieces value).2 with
          | none =>
            obtain ⟨hone, hopen⟩ := vdfChars_open hclosed hsingle (hsub' _ hne) (hsub' _ hnewline)
            rw [firstLine_of_notMem hone] at htoken
            rw [hbare (by rw [htoken, hopen]), if_pos (.inl rfl)]
            rfl
          | some after =>
            obtain ⟨w', hw', hvalueFlat, hread'⟩ :=
              vdfChars_closed hclosed hsingle (hsub' _ hne) (hsub' _ hnewline)
            rw [hvalueFlat, firstLine_append hw', firstLine_quote, hread'] at htoken
            rw [hpathLine _ _ htoken]
            simp only [reduceCtorEq, false_or]
            by_cases hempty : (pieces value).1.flatMap Piece.decoded = []
            · rw [hempty, if_pos rfl]
              rfl
            · have hfits := (hvalue.decodes value hsecond (by rw [hclosed]; exact Option.some_ne_none after) hempty).2.2
              rw [if_neg hempty, List.take_of_length_le (by omega), addLibrary,
                if_neg (by rw [not_or]; exact ⟨hempty, by decide⟩), if_neg List.not_mem_nil]
              rfl
      · rw [if_pos hpath, libraryLine_other (hread _) hpath]
        rfl

end NotProton.PrefixStore
