import NotProton.Library.Splice

/-! Readers on a window of a byte string, of which they see nothing but what is left. -/

namespace NotProton.Library

/-- Why a reader stops: for a reason of its own, or stuck at an index outside the data or in a loop without an end. -/
inductive Stop (ε : Type)
  | stuck
  | thrown (e : ε)
  deriving DecidableEq

/-- A place in the window that ends at `fin`. -/
structure Cursor where
  b : Bytes
  p : Nat
  fin : Nat

def Cursor.advance (c : Cursor) (n : Nat) : Cursor := { c with p := c.p + n }

/-- The window has these bytes left. -/
def Cursor.At (c : Cursor) (s : Bytes) : Prop := c.p + s.length = c.fin ∧ s <+: c.b.drop c.p

/-- What reads from a cursor and moves it. -/
abbrev Reader (ε α : Type) : Type := StateT Cursor (Except (Stop ε)) α

variable {ε α β : Type}

/-! ## Windows -/

namespace Cursor

theorem advance_advance (c : Cursor) (m n : Nat) : (c.advance m).advance n = c.advance (m + n) := by
  rw [advance, advance, advance]
  simp only [Nat.add_assoc]

theorem At.append {c : Cursor} {s t : Bytes} (h : c.At (s ++ t)) : (c.advance s.length).At t := by
  obtain ⟨hlen, hpre⟩ := h
  rw [List.length_append] at hlen
  exact ⟨by simp only [advance]; omega, (prefix_drop_append.mp hpre).2⟩

theorem At.drop {c : Cursor} {s : Bytes} (h : c.At s) {n : Nat} (hn : n ≤ s.length) :
    (c.advance n).At (s.drop n) := by
  have happend := At.append (c := c) (s := s.take n) (t := s.drop n) (by rw [List.take_append_drop]; exact h)
  rw [List.length_take, Nat.min_eq_left hn] at happend
  exact happend

/-- The bytes of a window, for a cursor at its beginning. -/
theorem at_slice {b : Bytes} {p fin : Nat} (hp : p ≤ fin) (hfin : fin ≤ b.length) :
    (Cursor.mk b p fin).At (slice b p (fin - p)) := by
  refine ⟨?_, slice_start _ _ _⟩
  rw [slice_length (by omega)]
  show p + (fin - p) = fin
  omega

theorem At.getElem? {c : Cursor} {s : Bytes} (h : c.At s) {i : Nat} (hi : i < s.length) :
    c.b[c.p + i]? = s[i]? := by
  obtain ⟨-, rest, hrest⟩ := h
  rw [← List.getElem?_drop, ← hrest, List.getElem?_append_left hi]

theorem At.le {c : Cursor} {s : Bytes} (h : c.At s) (hs : s ≠ []) : c.fin ≤ c.b.length := by
  have := add_length_le_of_start h.2 hs
  have := h.1
  omega

end Cursor

/-! ## Readers that see only what is left -/

/-- The reader's result for a cursor, when it is this for what is left. -/
def outcome (out : Except ε (α × Nat)) (c : Cursor) : Except (Stop ε) (α × Cursor) :=
  match out with
  | .ok (a, m) => .ok (a, c.advance m)
  | .error e => .error (.thrown e)

/-- With fewer than `n` bytes left the reader is not stuck, takes `k` bytes at least, and depends on them alone. -/
def Local (n k : Nat) (r : Reader ε α) : Prop :=
  ∀ s : Bytes, s.length < n → ∃ out : Except ε (α × Nat), (∀ a m, out = .ok (a, m) → k ≤ m ∧ m ≤ s.length) ∧
    ∀ c : Cursor, c.At s → r c = outcome out c

namespace Local

variable {n k : Nat}

theorem mono {k' : Nat} {r : Reader ε α} (h : Local n k r) (hk : k' ≤ k) : Local n k' r := by
  intro s hs
  obtain ⟨out, hout, hr⟩ := h s hs
  exact ⟨out, fun a m ham ↦ ⟨hk.trans (hout a m ham).1, (hout a m ham).2⟩, hr⟩

theorem pure (a : α) : Local n 0 (pure a : Reader ε α) := by
  intro s _
  refine ⟨.ok (a, 0), fun _ _ h ↦ ?_, fun c _ ↦ rfl⟩
  cases h
  exact ⟨Nat.le_refl 0, Nat.zero_le _⟩

theorem throw (e : ε) : Local n k (fun _ ↦ .error (.thrown e) : Reader ε α) :=
  fun _ _ ↦ ⟨.error e, fun _ _ h ↦ (nomatch h), fun _ _ ↦ rfl⟩

theorem bind {f : Reader ε α} {g : α → Reader ε β} (hf : Local n k f) (hg : ∀ a, Local (n - k) 0 (g a)) :
    Local n k (f >>= g) := by
  intro s hs
  obtain ⟨out, hout, hr⟩ := hf s hs
  cases out with
  | error e =>
    refine ⟨.error e, fun _ _ h ↦ (nomatch h), fun c hc ↦ ?_⟩
    show (f c >>= fun r ↦ g r.1 r.2) = _
    rw [hr c hc]
    rfl
  | ok am =>
    obtain ⟨a, m⟩ := am
    obtain ⟨hk, hm⟩ := hout a m rfl
    obtain ⟨out', hout', hr'⟩ := hg a (s.drop m) (by rw [List.length_drop]; omega)
    have hrun : ∀ c : Cursor, c.At s → (f >>= g) c = outcome out' (c.advance m) := by
      intro c hc
      show (f c >>= fun r ↦ g r.1 r.2) = _
      rw [hr c hc]
      exact hr' _ (hc.drop hm)
    cases out' with
    | error e => exact ⟨.error e, fun _ _ h ↦ (nomatch h), hrun⟩
    | ok bm =>
      obtain ⟨b, m'⟩ := bm
      have hle := (hout' b m' rfl).2
      rw [List.length_drop] at hle
      refine ⟨.ok (b, m + m'), fun _ _ h ↦ ?_, fun c hc ↦ ?_⟩
      · cases h
        exact ⟨by omega, by omega⟩
      · rw [hrun c hc, outcome, outcome, Cursor.advance_advance]

theorem ite {p : Prop} [Decidable p] {r r' : Reader ε α} (h : p → Local n k r) (h' : ¬p → Local n k r') :
    Local n k (if p then r else r') := by
  split
  · exact h ‹_›
  · exact h' ‹_›

/-- Two windows with the same bytes left give the same value, or are refused for the same reason. -/
theorem agree {r : Reader ε α} (h : Local n k r) {s : Bytes} (hs : s.length < n) :
    ∃ out : Except ε α, ∀ c : Cursor, c.At s → (r c).map Prod.fst = out.mapError .thrown := by
  obtain ⟨out, -, hr⟩ := h s hs
  refine ⟨out.map Prod.fst, fun c hc ↦ ?_⟩
  rw [hr c hc]
  cases out <;> rfl

end Local

end NotProton.Library
