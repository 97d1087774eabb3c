import NotProton.Library.LittleEndian

/-! Reading and overwriting a range of a list, and checked computations in sequence. -/

namespace NotProton.Library

variable {α β ε ι : Type}

/-! ## Things that share nothing -/

/-- Nothing that `holds` of both. -/
def Apart (holds : α → ι → Prop) (a b : α) : Prop := ∀ i, holds a i → ¬holds b i

instance (holds : α → ι → Prop) : Std.Symm (Apart holds) where
  symm _ _ h i hb ha := h i ha hb

/-- Of things apart from one another, one at most has something. -/
theorem eq_of_apart {holds : α → ι → Prop} {l : List α} (h : l.Pairwise (Apart holds)) {a b : α}
    (ha : a ∈ l) (hb : b ∈ l) {i : ι} (hai : holds a i) (hbi : holds b i) : a = b := by
  by_contra hne
  exact h.forall ha hb hne i hai hbi

/-- What is pairwise so of one list is of a list that goes along with it. -/
theorem pairwise_of_forall₂ {R : α → β → Prop} {S : α → α → Prop} {T : β → β → Prop} {as : List α}
    {bs : List β} (h : List.Forall₂ R as bs) (hS : as.Pairwise S)
    (hT : ∀ a b a' b', R a b → R a' b' → S a a' → T b b') : bs.Pairwise T := by
  induction h with
  | nil => exact .nil
  | @cons a b as bs hab h ih =>
    obtain ⟨ha, has⟩ := List.pairwise_cons.mp hS
    refine .cons (fun b' hb' ↦ ?_) (ih has)
    obtain ⟨n, hn, rfl⟩ := List.getElem_of_mem hb'
    have hna : n < as.length := by rw [h.length_eq]; exact hn
    exact hT a b _ _ hab (h.get hna hn) (ha _ (List.getElem_mem hna))

theorem exists_of_forall₂ {R : α → β → Prop} {as : List α} {bs : List β} (h : List.Forall₂ R as bs)
    {a : α} (ha : a ∈ as) : ∃ b ∈ bs, R a b := by
  obtain ⟨n, hn, rfl⟩ := List.getElem_of_mem ha
  have hnb : n < bs.length := by rw [← h.length_eq]; exact hn
  exact ⟨_, List.getElem_mem hnb, h.get hn hnb⟩

/-! ## Ranges of a list -/

theorem exists_append_of_length {l : List α} {m n : Nat} (h : l.length = m + n) :
    ∃ a b, l = a ++ b ∧ a.length = m ∧ b.length = n := by
  refine ⟨l.take m, l.drop m, (List.take_append_drop m l).symm, ?_, ?_⟩
  · rw [List.length_take]
    omega
  · rw [List.length_drop]
    omega

/-- The `n` elements from `o` on, fewer where the list ends before. -/
def slice (l : List α) (o n : Nat) : List α := (l.drop o).take n

/-- The list with `r` over what stands at `o`. -/
def splice (l : List α) (o : Nat) (r : List α) : List α := l.take o ++ r ++ l.drop (o + r.length)

theorem slice_length {l : List α} {o n : Nat} (h : o + n ≤ l.length) : (slice l o n).length = n := by
  rw [slice, List.length_take, List.length_drop]
  omega

theorem slice_getElem? (l : List α) (o : Nat) {n i : Nat} (h : i < n) :
    (slice l o n)[i]? = l[o + i]? := by
  rw [slice, List.getElem?_take_of_lt h, List.getElem?_drop]

/-- Two slices are equal when the lists are the same there. -/
theorem slice_congr {l m : List α} {o n : Nat} (h : ∀ i, o ≤ i → i < o + n → l[i]? = m[i]?) :
    slice l o n = slice m o n := by
  apply List.ext_getElem?
  intro i
  by_cases hi : i < n
  · rw [slice_getElem? l o hi, slice_getElem? m o hi]
    exact h _ (by omega) (by omega)
  · rw [slice, slice, List.getElem?_eq_none (by rw [List.length_take]; omega),
      List.getElem?_eq_none (by rw [List.length_take]; omega)]

theorem slice_slice {l : List α} {o m k n : Nat} (h : k + n ≤ m) :
    slice (slice l o m) k n = slice l (o + k) n := by
  rw [slice, slice, slice, List.drop_take, List.take_take, List.drop_drop, Nat.min_eq_left (by omega)]

theorem slice_append_left {l m : List α} {o n : Nat} (h : o + n ≤ l.length) :
    slice (l ++ m) o n = slice l o n := by
  apply slice_congr
  intro i _ hi
  exact List.getElem?_append_left (by omega)

theorem slice_append_right (l m : List α) (o n : Nat) : slice (l ++ m) (l.length + o) n = slice m o n := by
  rw [slice, slice, List.drop_append, List.drop_eq_nil_of_le (by omega), Nat.add_sub_cancel_left, List.nil_append]

/-- What begins with `s` there has `s` as its slice. -/
theorem slice_of_start {l s : List α} {o : Nat} (h : s <+: l.drop o) : slice l o s.length = s :=
  (List.prefix_iff_eq_take.mp h).symm

theorem slice_start (l : List α) (o n : Nat) : slice l o n <+: l.drop o := List.take_prefix n _

theorem prefix_drop_append {l s t : List α} {o : Nat} :
    s ++ t <+: l.drop o ↔ s <+: l.drop o ∧ t <+: l.drop (o + s.length) := by
  constructor
  · rintro ⟨rest, h⟩
    refine ⟨⟨t ++ rest, by rw [← h, List.append_assoc]⟩, rest, ?_⟩
    rw [← List.drop_drop, ← h, List.append_assoc, List.drop_left]
  · rintro ⟨⟨rest, h⟩, rest', h'⟩
    rw [← List.drop_drop, ← h, List.drop_left] at h'
    exact ⟨rest', by rw [← h, ← h', List.append_assoc]⟩

theorem prefix_drop_cons {l s : List α} {a : α} {o : Nat} :
    a :: s <+: l.drop o ↔ l[o]? = some a ∧ s <+: l.drop (o + 1) := by
  have happend : a :: s <+: l.drop o ↔ [a] <+: l.drop o ∧ s <+: l.drop (o + 1) := prefix_drop_append (s := [a])
  rw [happend, and_congr_left_iff]
  intro _
  rw [← Nat.add_zero o, ← List.getElem?_drop, Nat.add_zero]
  cases l.drop o with
  | nil => simp
  | cons b m => simp [eq_comm]

theorem add_length_le_of_start {l s : List α} {o : Nat} (h : s <+: l.drop o) (hs : s ≠ []) :
    o + s.length ≤ l.length := by
  have hle := h.length_le
  have hpos := List.length_pos_iff.mpr hs
  rw [List.length_drop] at hle
  omega

theorem splice_append_left {l m r : List α} {o : Nat} (h : o + r.length ≤ l.length) :
    splice (l ++ m) o r = splice l o r ++ m := by
  rw [splice, splice, List.take_append_of_le_length (by omega), List.drop_append_of_le_length h, List.append_assoc,
    List.append_assoc, List.append_assoc]

theorem splice_append_right (l m r : List α) (o : Nat) :
    splice (l ++ m) (l.length + o) r = l ++ splice m o r := by
  rw [splice, splice, List.take_append, List.take_of_length_le (by omega), Nat.add_sub_cancel_left, Nat.add_assoc,
    List.drop_append, List.drop_eq_nil_of_le (by omega), Nat.add_sub_cancel_left, List.nil_append, List.append_assoc,
    List.append_assoc, List.append_assoc]

theorem splice_length {l r : List α} {o : Nat} (h : o + r.length ≤ l.length) :
    (splice l o r).length = l.length := by
  rw [splice, List.length_append, List.length_append, List.length_take, List.length_drop]
  omega

theorem splice_getElem?_lt {l r : List α} {o i : Nat} (h : o + r.length ≤ l.length) (hi : i < o) :
    (splice l o r)[i]? = l[i]? := by
  have htake : (l.take o).length = o := by
    rw [List.length_take]
    omega
  rw [splice, List.append_assoc, List.getElem?_append_left (by omega), List.getElem?_take_of_lt hi]

theorem splice_getElem?_mem {l r : List α} {o i : Nat} (h : o + r.length ≤ l.length)
    (hi : i < r.length) : (splice l o r)[o + i]? = r[i]? := by
  have htake : (l.take o).length = o := by
    rw [List.length_take]
    omega
  rw [splice, List.append_assoc, List.getElem?_append_right (by omega), htake,
    Nat.add_sub_cancel_left, List.getElem?_append_left hi]

theorem splice_getElem?_ge {l r : List α} {o i : Nat} (h : o + r.length ≤ l.length)
    (hi : o + r.length ≤ i) : (splice l o r)[i]? = l[i]? := by
  have htake : (l.take o).length = o := by
    rw [List.length_take]
    omega
  rw [splice, List.append_assoc, List.getElem?_append_right (by omega), htake,
    List.getElem?_append_right (by omega), List.getElem?_drop]
  congr 1
  omega

/-- Nothing outside the range changes. -/
theorem splice_getElem?_of_notMem {l r : List α} {o i : Nat} (h : o + r.length ≤ l.length)
    (hi : ¬(o ≤ i ∧ i < o + r.length)) : (splice l o r)[i]? = l[i]? := by
  by_cases hlt : i < o
  · exact splice_getElem?_lt h hlt
  · exact splice_getElem?_ge h (by omega)

theorem slice_splice_self {l r : List α} {o : Nat} (h : o + r.length ≤ l.length) :
    slice (splice l o r) o r.length = r := by
  apply List.ext_getElem?
  intro i
  by_cases hi : i < r.length
  · rw [slice_getElem? _ o hi, splice_getElem?_mem h hi]
  · rw [slice, List.getElem?_eq_none (by rw [List.length_take]; omega),
      List.getElem?_eq_none (by omega)]

/-! ## Ranges written one after another -/

/-- Each list over what stands at its place. -/
def spliceAll (l : List α) (ws : List (Nat × List α)) : List α :=
  ws.foldl (fun l w ↦ splice l w.1 w.2) l

/-- What a list of writes covers. -/
def Covers (w : Nat × List α) (i : Nat) : Prop := w.1 ≤ i ∧ i < w.1 + w.2.length

theorem spliceAll_length {ws : List (Nat × List α)} {l : List α}
    (h : ∀ w ∈ ws, w.1 + w.2.length ≤ l.length) : (spliceAll l ws).length = l.length := by
  induction ws generalizing l with
  | nil => rfl
  | cons w ws ih =>
    obtain ⟨hw, hws⟩ := List.forall_mem_cons.mp h
    have hl := splice_length hw
    rw [spliceAll, List.foldl_cons, ← spliceAll, ih (by rw [hl]; exact hws), hl]

theorem spliceAll_getElem?_of_notMem {ws : List (Nat × List α)} {l : List α} {i : Nat}
    (h : ∀ w ∈ ws, w.1 + w.2.length ≤ l.length) (hi : ∀ w ∈ ws, ¬Covers w i) :
    (spliceAll l ws)[i]? = l[i]? := by
  induction ws generalizing l with
  | nil => rfl
  | cons w ws ih =>
    obtain ⟨hw, hws⟩ := List.forall_mem_cons.mp h
    obtain ⟨hiw, hiws⟩ := List.forall_mem_cons.mp hi
    rw [spliceAll, List.foldl_cons, ← spliceAll, ih (by rw [splice_length hw]; exact hws) hiws,
      splice_getElem?_of_notMem hw hiw]

/-- Writes that put down what stands there already change nothing. -/
theorem spliceAll_eq_self {ws : List (Nat × List α)} {l : List α}
    (h : ∀ w ∈ ws, w.1 + w.2.length ≤ l.length) (hs : ∀ w ∈ ws, slice l w.1 w.2.length = w.2) :
    spliceAll l ws = l := by
  induction ws with
  | nil => rfl
  | cons w ws ih =>
    obtain ⟨hw, hws⟩ := List.forall_mem_cons.mp h
    obtain ⟨hsw, hsws⟩ := List.forall_mem_cons.mp hs
    have hsplice : splice l w.1 w.2 = l := by
      apply List.ext_getElem?
      intro i
      by_cases hi : w.1 ≤ i ∧ i < w.1 + w.2.length
      · have hin : i - w.1 < w.2.length := by omega
        have hstays := slice_getElem? l w.1 hin
        have hover := splice_getElem?_mem hw hin
        rw [Nat.add_sub_cancel' hi.1] at hstays hover
        rw [hover, ← hstays, hsw]
      · exact splice_getElem?_of_notMem hw hi
    rw [spliceAll, List.foldl_cons, ← spliceAll, hsplice, ih hws hsws]

/-- A part of a write that no later write covers stays. -/
theorem slice_spliceAll_last {before after : List (Nat × List α)} {w : Nat × List α} {l : List α}
    (h : ∀ v ∈ before ++ w :: after, v.1 + v.2.length ≤ l.length) {k n : Nat} (hk : k + n ≤ w.2.length)
    (hd : ∀ v ∈ after, ∀ i, w.1 + k ≤ i → i < w.1 + k + n → ¬Covers v i) :
    slice (spliceAll l (before ++ w :: after)) (w.1 + k) n = slice w.2 k n := by
  obtain ⟨hbefore, hrest⟩ := List.forall_mem_append.mp h
  obtain ⟨hw, hafter⟩ := List.forall_mem_cons.mp hrest
  have hlength := spliceAll_length hbefore
  rw [← hlength] at hw hafter
  have hsplit : spliceAll l (before ++ w :: after) = spliceAll (splice (spliceAll l before) w.1 w.2) after := by
    rw [spliceAll, List.foldl_append, List.foldl_cons]
    rfl
  have hstays : slice (spliceAll l (before ++ w :: after)) (w.1 + k) n =
      slice (splice (spliceAll l before) w.1 w.2) (w.1 + k) n := by
    rw [hsplit]
    apply slice_congr
    intro i hlo hhi
    refine spliceAll_getElem?_of_notMem ?_ fun v hv ↦ hd v hv i hlo hhi
    rw [splice_length hw]
    exact hafter
  rw [hstays, ← slice_slice hk, slice_splice_self hw]

/-- Of writes that do not overlap each stays. -/
theorem slice_spliceAll {ws : List (Nat × List α)} {l : List α}
    (h : ∀ w ∈ ws, w.1 + w.2.length ≤ l.length)
    (hd : ws.Pairwise (Apart Covers)) {w : Nat × List α} (hmem : w ∈ ws) :
    slice (spliceAll l ws) w.1 w.2.length = w.2 := by
  obtain ⟨before, after, rfl⟩ := List.append_of_mem hmem
  obtain ⟨-, hrest, -⟩ := List.pairwise_append.mp hd
  obtain ⟨hafter, -⟩ := List.pairwise_cons.mp hrest
  have hstays : slice (spliceAll l (before ++ w :: after)) (w.1 + 0) w.2.length = slice w.2 0 w.2.length :=
    slice_spliceAll_last h (by omega) fun v hv i hlo hhi ↦ hafter v hv i ⟨by omega, by omega⟩
  rw [Nat.add_zero] at hstays
  rw [hstays, slice, List.drop_zero, List.take_length]

/-! ## Checked steps -/

theorem bind_ok {x : Except ε α} {f : α → Except ε β} {b : β} (h : (x >>= f) = .ok b) :
    ∃ a, x = .ok a ∧ f a = .ok b := by
  cases x with
  | error e => cases h
  | ok a => exact ⟨a, rfl, h⟩

end NotProton.Library
