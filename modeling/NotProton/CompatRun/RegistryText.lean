import NotProton.Library.Text

/-!
# RegistryText — the registry files of a prefix, line by line

A key's line has its path in brackets, with `\\` between its parts and an escape for what would end it.  A value's
line has the name in quotes, `=` and the text.  Names differ by more than case.
-/

open NotProton.Library

namespace NotProton.CompatRun

/-- A piece of a name as the file has it. -/
inductive RegTok
  | plain (c : UInt8)
  | esc (c : UInt8)
  | sep
  deriving DecidableEq

def RegTok.text : RegTok → Bytes
  | plain c => [c]
  | esc c => [92, c]
  | sep => [92, 92]

def RegTok.lower : RegTok → RegTok
  | plain c => plain (toLower c)
  | esc c => esc (toLower c)
  | sep => sep

def render (toks : List RegTok) : Bytes := toks.flatMap RegTok.text

/-- A piece of a key's path: no bracket and no backslash stands bare. -/
def RegTok.InKey : RegTok → Prop
  | plain c => c ∉ ([13, 91, 92, 93] : List UInt8)
  | esc c => c ∉ ([13, 92] : List UInt8)
  | sep => True

/-- A piece of a value's name: no quote and no backslash stands bare. -/
def RegTok.InName : RegTok → Prop
  | plain c => c ∉ ([13, 34, 92] : List UInt8)
  | esc c => c ≠ 13
  | sep => False

/-- A value: the line with its name and text, and the lines a long text goes on for.  No name is the key's own. -/
structure RegValue where
  name : Option (List RegTok)
  text : Bytes
  more : List Bytes
  name_ok : ∀ toks, name = some toks → ∀ t ∈ toks, t.InName
  text_ok : 13 ∉ text
  more_ok : ∀ line ∈ more, line.head? = some 32 ∧ 13 ∉ line
  more_text : more ≠ [] → text.getLast? = some 92

def RegValue.nameText (v : RegValue) : Bytes :=
  match v.name with
  | none => [64]
  | some toks => 34 :: render toks ++ [34]

def RegValue.lines (v : RegValue) : List Bytes := (v.nameText ++ 61 :: v.text) :: v.more

structure RegKey where
  path : List RegTok
  time : Bytes
  notes : List Bytes
  values : List RegValue
  path_ok : ∀ t ∈ path, t.InKey
  time_ok : 13 ∉ time
  notes_ok : ∀ line ∈ notes, line.head? = some 35 ∧ 13 ∉ line
  values_apart : (values.map fun v ↦ v.nameText.map toLower).Nodup

def RegKey.line (k : RegKey) : Bytes := 91 :: render k.path ++ ascii "] " ++ k.time

/-- A blank line stands before each key. -/
def RegKey.lines (k : RegKey) : List Bytes := [] :: k.line :: (k.notes ++ k.values.flatMap RegValue.lines)

/-- A registry file. -/
structure RegFile where
  header : List Bytes
  keys : List RegKey
  header_ne_nil : header ≠ []
  header_ok : ∀ line ∈ header, line.head? ≠ some 91 ∧ 13 ∉ line
  keys_apart : (keys.map fun k ↦ k.path.map RegTok.lower).Nodup

def RegFile.lines (f : RegFile) : List Bytes := f.header ++ f.keys.flatMap RegKey.lines

/-! ## Names as text -/

theorem render_cons (t : RegTok) (toks : List RegTok) : render (t :: toks) = t.text ++ render toks := List.flatMap_cons

theorem render_append (p q : List RegTok) : render (p ++ q) = render p ++ render q := List.flatMap_append

theorem RegTok.lower_text (t : RegTok) : t.lower.text = t.text.map toLower := by
  cases t with
  | plain c => rfl
  | esc c => rfl
  | sep => rfl

theorem render_lower (toks : List RegTok) : render (toks.map RegTok.lower) = (render toks).map toLower := by
  induction toks with
  | nil => rfl
  | cons t toks ih => rw [List.map_cons, render_cons, render_cons, List.map_append, ih, t.lower_text]

theorem RegTok.text_ne_nil (t : RegTok) : t.text ≠ [] := by
  cases t <;> exact List.cons_ne_nil _ _

/-- No piece's text starts another's. -/
theorem RegTok.text_append_inj {t u : RegTok} (ht : t.InKey) (hu : u.InKey) {x y : Bytes}
    (h : t.text ++ x = u.text ++ y) : t = u ∧ x = y := by
  have hplain : ∀ c, (plain c).InKey → c ≠ 92 := fun c hc ↦ (by rintro rfl; exact hc (by decide))
  have hesc : ∀ c, (esc c).InKey → c ≠ 92 := fun c hc ↦ (by rintro rfl; exact hc (by decide))
  cases t with
  | plain c =>
    have hc := hplain c ht
    cases u <;> simp_all [text]
  | esc c =>
    have hc := hesc c ht
    cases u with
    | plain d => exact absurd (List.cons.inj h).1.symm (hplain d hu)
    | esc d => simp_all [text]
    | sep => simp_all [text]
  | sep =>
    cases u with
    | plain d => exact absurd (List.cons.inj h).1.symm (hplain d hu)
    | esc d => exact absurd (List.cons.inj (List.cons.inj h).2).1.symm (hesc d hu)
    | sep => simp_all [text]

theorem render_prefix_iff {p q : List RegTok} (hp : ∀ t ∈ p, t.InKey) (hq : ∀ t ∈ q, t.InKey) :
    render p <+: render q ↔ p <+: q := by
  constructor
  · intro h
    induction p generalizing q with
    | nil => exact List.nil_prefix
    | cons t p ih =>
      obtain ⟨z, hz⟩ := h
      rw [render_cons, List.append_assoc] at hz
      cases q with
      | nil => exact absurd (List.append_eq_nil_iff.mp hz).1 t.text_ne_nil
      | cons u q =>
        rw [render_cons] at hz
        have ht := hp t List.mem_cons_self
        obtain ⟨rfl, hrest⟩ := RegTok.text_append_inj ht (hq u List.mem_cons_self) hz
        have hp' := fun t ht ↦ hp t (List.mem_cons_of_mem _ ht)
        have hq' := fun t ht ↦ hq t (List.mem_cons_of_mem _ ht)
        exact List.cons_prefix_cons.mpr ⟨rfl, ih hp' hq' ⟨z, hrest⟩⟩
  · rintro ⟨r, rfl⟩
    rw [render_append]
    exact List.prefix_append _ _

theorem RegTok.InKey.lower {t : RegTok} (h : t.InKey) : t.lower.InKey := by
  have hplain : ∀ c : UInt8, c ∉ ([13, 91, 92, 93] : List UInt8) → toLower c ∉ ([13, 91, 92, 93] : List UInt8) :=
    forall_byte (by decide +kernel)
  have hesc : ∀ c : UInt8, c ∉ ([13, 92] : List UInt8) → toLower c ∉ ([13, 92] : List UInt8) :=
    forall_byte (by decide +kernel)
  cases t with
  | plain c => exact hplain c h
  | esc c => exact hesc c h
  | sep => trivial

/-- The text of a path up to its first `]` is a path without one only where it is the whole path. -/
theorem takeWhile_render_eq {p q : List RegTok} (hp : ∀ t ∈ p, t.InKey) (hq : ∀ t ∈ q, t.InKey)
    (hbracket : 93 ∉ render p) : (render q).takeWhile (· ≠ 93) = render p ↔ q = p := by
  constructor
  · intro h
    have hpre : render p <+: render q := by
      rw [← h]
      exact List.takeWhile_prefix _
    obtain ⟨r, rfl⟩ := (render_prefix_iff hp hq).mp hpre
    have hall : ∀ c ∈ render p, decide (c ≠ 93) = true := fun c hc ↦ decide_eq_true (by rintro rfl; exact hbracket hc)
    rw [render_append, List.takeWhile_append_of_pos hall, List.append_right_eq_self] at h
    cases r with
    | nil => exact List.append_nil p
    | cons t r =>
      -- an escaped bracket comes after its backslash
      have ht : t.InKey := hq t (List.mem_append_right p List.mem_cons_self)
      cases t with
      | plain c =>
        have hc : c ≠ 93 := by
          rintro rfl
          exact ht (by decide)
        simp [render_cons, RegTok.text, hc] at h
      | esc c => simp [render_cons, RegTok.text] at h
      | sep => simp [render_cons, RegTok.text] at h
  · rintro rfl
    apply List.takeWhile_eq_self_iff.mpr
    intro c hc
    exact decide_eq_true (by rintro rfl; exact hbracket hc)

theorem prefix_takeWhile_iff {s t : Bytes} (h : 93 ∉ s) : s <+: t.takeWhile (· ≠ 93) ↔ s <+: t := by
  constructor
  · exact fun hs ↦ hs.trans (List.takeWhile_prefix _)
  · rintro ⟨r, rfl⟩
    have hall : ∀ c ∈ s, decide (c ≠ 93) = true := fun c hc ↦ decide_eq_true (by rintro rfl; exact h hc)
    rw [List.takeWhile_append_of_pos hall]
    exact List.prefix_append _ _

/-! ## The values of a file -/

/-- The values under a path, in its small letters. -/
def RegFile.valuesAt (f : RegFile) (path : List RegTok) : List RegValue :=
  f.keys.flatMap fun r ↦ if r.path.map RegTok.lower = path then r.values else []

/-- The lines of the text of the value with a path and a name, both in small letters. -/
def RegFile.Holds (f : RegFile) (path : List RegTok) (name : Bytes) (text : List Bytes) : Prop :=
  ∃ w ∈ f.valuesAt path, w.nameText.map toLower = name ∧ w.text :: w.more = text

theorem RegFile.mem_valuesAt {f : RegFile} {path : List RegTok} {w : RegValue} :
    w ∈ f.valuesAt path ↔ ∃ r ∈ f.keys, r.path.map RegTok.lower = path ∧ w ∈ r.values := by
  rw [RegFile.valuesAt, List.mem_flatMap]
  apply exists_congr
  intro r
  apply and_congr_right
  intro _
  split_ifs with hpath
  · exact (and_iff_right hpath).symm
  · exact iff_of_false List.not_mem_nil fun h ↦ hpath h.1

theorem RegFile.valuesAt_inj {f : RegFile} {path : List RegTok} {v w : RegValue} (hv : v ∈ f.valuesAt path)
    (hw : w ∈ f.valuesAt path) (hname : v.nameText.map toLower = w.nameText.map toLower) : v = w := by
  obtain ⟨r, hr, hpath, hv⟩ := mem_valuesAt.mp hv
  obtain ⟨r', hr', hpath', hw⟩ := mem_valuesAt.mp hw
  have hsame : r = r' := List.inj_on_of_nodup_map f.keys_apart hr hr' (hpath.trans hpath'.symm)
  subst hsame
  exact List.inj_on_of_nodup_map r.values_apart hv hw hname

/-- A reader that leaves all other lines alone goes from key to key and from value to value. -/
theorem RegFile.foldl_lines {σ : Type} {step : σ → Bytes → σ} {s : σ} (f : RegFile) (enter : σ → RegKey → σ)
    (value : σ → RegValue → σ) (hkey : ∀ s r, step s r.line = enter s r)
    (hvalue : ∀ s (w : RegValue), step s (w.nameText ++ 61 :: w.text) = value s w)
    (hother : ∀ s line, line = [] ∨ line.head? = some 32 ∨ line.head? = some 35 → step s line = s)
    (hheader : ∀ line, line.head? ≠ some 91 → step s line = s) :
    f.lines.foldl step s = f.keys.foldl (fun s r ↦ r.values.foldl value (enter s r)) s := by
  -- The lines that leave the reader where it is.
  have hskip : ∀ (lines : List Bytes) (s : σ), (∀ line ∈ lines, step s line = s) → lines.foldl step s = s := by
    intro lines s hlines
    induction lines with
    | nil => rfl
    | cons line lines ih =>
      rw [List.foldl_cons, hlines line List.mem_cons_self]
      exact ih fun l hl ↦ hlines l (List.mem_cons_of_mem _ hl)
  have hone : ∀ (w : RegValue) (s : σ), w.lines.foldl step s = value s w := by
    intro w s
    rw [RegValue.lines, List.foldl_cons, hvalue]
    exact hskip w.more _ fun line hl ↦ hother _ line (.inr (.inl (w.more_ok line hl).1))
  have hvalues : ∀ (values : List RegValue) (s : σ), (values.flatMap RegValue.lines).foldl step s = values.foldl value s := by
    intro values s
    rw [List.foldl_flatMap]
    simp only [hone]
  have hlines : ∀ (r : RegKey) (s : σ), r.lines.foldl step s = r.values.foldl value (enter s r) := by
    intro r s
    have hnotes : ∀ line ∈ r.notes, step (enter s r) line = enter s r :=
      fun line hl ↦ hother _ line (.inr (.inr (r.notes_ok line hl).1))
    rw [RegKey.lines, List.foldl_cons, hother _ [] (.inl rfl), List.foldl_cons, List.foldl_append, hkey,
      hskip r.notes _ hnotes, hvalues]
  rw [RegFile.lines, List.foldl_append, hskip f.header s fun line hl ↦ hheader line (f.header_ok line hl).1, List.foldl_flatMap]
  simp only [hlines]

end NotProton.CompatRun
