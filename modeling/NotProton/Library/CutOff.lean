import Mathlib.Data.List.Basic

/-!
# CutOff — programs that may be cut off after any step

A program goes from state to state until it returns or fails.  A triple says what holds in every state on the way, so of a program
that is stopped there too, and what holds in the end.
-/

namespace NotProton.Library

variable {σ ε α β : Type}

/-- How a program went. -/
structure Course (σ ε α : Type) where
  /-- the state after each step -/
  seen : List σ
  last : σ
  result : Except ε α

def Prog (σ ε α : Type) := σ → Course σ ε α

namespace Prog

def return_ (a : α) : Prog σ ε α := fun s ↦ ⟨[], s, .ok a⟩

def fail (e : ε) : Prog σ ε α := fun s ↦ ⟨[], s, .error e⟩

/-- One step, with its value or its failure. -/
def step (f : σ → σ × Except ε α) : Prog σ ε α := fun s ↦ ⟨[(f s).1], (f s).1, (f s).2⟩

def andThen (p : Prog σ ε α) (f : α → Prog σ ε β) : Prog σ ε β := fun s ↦
  match (p s).result with
  | .error e => ⟨(p s).seen, (p s).last, .error e⟩
  | .ok a => ⟨(p s).seen ++ (f a (p s).last).seen, (f a (p s).last).last, (f a (p s).last).result⟩

def orElse (p : Prog σ ε α) (h : ε → Prog σ ε α) : Prog σ ε α := fun s ↦
  match (p s).result with
  | .error e => ⟨(p s).seen ++ (h e (p s).last).seen, (h e (p s).last).last, (h e (p s).last).result⟩
  | .ok a => ⟨(p s).seen, (p s).last, .ok a⟩

instance : Monad (Prog σ ε) where
  pure := return_
  bind := andThen

instance : MonadExceptOf ε (Prog σ ε) where
  throw := fail
  tryCatch := orElse

def when (c : Bool) (p : Prog σ ε Unit) : Prog σ ε Unit := if c then p else return_ ()

/-- A value is carried through the items of a list. -/
def each (f : α → β → Prog σ ε β) : List α → β → Prog σ ε β
  | [], b => return_ b
  | a :: l, b => andThen (f a b) (each f l)

end Prog

/-! ## Triples -/

/-- From a state with `P` the program goes through states with `I` only, and ends with a value and `Q` or fails with `E`. -/
def Triple (I P : σ → Prop) (p : Prog σ ε α) (Q : α → σ → Prop) (E : σ → Prop) : Prop :=
  ∀ s, P s → (∀ t ∈ (p s).seen, I t) ∧ match (p s).result with
    | .ok a => Q a (p s).last
    | .error _ => E (p s).last

namespace Triple

variable {I P P' E E' : σ → Prop} {Q Q' : α → σ → Prop} {p : Prog σ ε α}

theorem weaken (h : Triple I P p Q E) (hP : ∀ s, P' s → P s) (hQ : ∀ a s, Q a s → Q' a s) (hE : ∀ s, E s → E' s) :
    Triple I P' p Q' E' := by
  intro s hs
  obtain ⟨hseen, hend⟩ := h s (hP s hs)
  refine ⟨hseen, ?_⟩
  cases hr : (p s).result with
  | error e =>
    rw [hr] at hend
    exact hE _ hend
  | ok a =>
    rw [hr] at hend
    exact hQ a _ hend

theorem pre (h : Triple I P p Q E) (hP : ∀ s, P' s → P s) : Triple I P' p Q E := h.weaken hP (fun _ _ h ↦ h) fun _ h ↦ h

theorem post (h : Triple I P p Q E) (hQ : ∀ a s, Q a s → Q' a s) : Triple I P p Q' E := h.weaken (fun _ h ↦ h) hQ fun _ h ↦ h

theorem failing (h : Triple I P p Q E) (hE : ∀ s, E s → E' s) : Triple I P p Q E' := h.weaken (fun _ h ↦ h) (fun _ _ h ↦ h) hE

theorem pure {a : α} (h : ∀ s, P s → Q a s) : Triple I P (Pure.pure a : Prog σ ε α) Q E :=
  fun s hs ↦ ⟨fun _ h ↦ absurd h List.not_mem_nil, h s hs⟩

theorem throw {e : ε} (h : ∀ s, P s → E s) : Triple I P (MonadExcept.throw e : Prog σ ε α) Q E :=
  fun s hs ↦ ⟨fun _ h ↦ absurd h List.not_mem_nil, h s hs⟩

theorem step {f : σ → σ × Except ε α} (hI : ∀ s, P s → I (f s).1) (hQ : ∀ s a, P s → (f s).2 = .ok a → Q a (f s).1)
    (hE : ∀ s e, P s → (f s).2 = .error e → E (f s).1) : Triple I P (Prog.step f) Q E := by
  intro s hs
  refine ⟨fun t ht ↦ ?_, ?_⟩
  · obtain rfl := List.mem_singleton.mp ht
    exact hI s hs
  · show match (f s).2 with
      | .ok a => Q a (f s).1
      | .error _ => E (f s).1
    cases hr : (f s).2 with
    | error e => exact hE s e hs hr
    | ok a => exact hQ s a hs hr

theorem bind {R : α → σ → Prop} {Q : β → σ → Prop} {f : α → Prog σ ε β} (hp : Triple I P p R E)
    (hf : ∀ a, Triple I (R a) (f a) Q E) : Triple I P (p >>= f) Q E := by
  intro s hs
  obtain ⟨hseen, hend⟩ := hp s hs
  show (∀ t ∈ (Prog.andThen p f s).seen, I t) ∧ match (Prog.andThen p f s).result with
    | .ok a => Q a (Prog.andThen p f s).last
    | .error _ => E (Prog.andThen p f s).last
  rw [Prog.andThen]
  cases hr : (p s).result with
  | error e =>
    rw [hr] at hend
    exact ⟨hseen, hend⟩
  | ok a =>
    rw [hr] at hend
    obtain ⟨hseen', hend'⟩ := hf a _ hend
    exact ⟨fun t ht ↦ (List.mem_append.mp ht).elim (hseen t) (hseen' t), hend'⟩

theorem tryCatch {h : ε → Prog σ ε α} (hp : Triple I P p Q E') (hh : ∀ e, Triple I E' (h e) Q E) :
    Triple I P (MonadExcept.tryCatch p h) Q E := by
  intro s hs
  obtain ⟨hseen, hend⟩ := hp s hs
  show (∀ t ∈ (Prog.orElse p h s).seen, I t) ∧ match (Prog.orElse p h s).result with
    | .ok a => Q a (Prog.orElse p h s).last
    | .error _ => E (Prog.orElse p h s).last
  rw [Prog.orElse]
  cases hr : (p s).result with
  | ok a =>
    rw [hr] at hend
    exact ⟨hseen, hend⟩
  | error e =>
    rw [hr] at hend
    obtain ⟨hseen', hend'⟩ := hh e _ hend
    exact ⟨fun t ht ↦ (List.mem_append.mp ht).elim (hseen t) (hseen' t), hend'⟩

theorem ite {c : Prop} [Decidable c] {q : Prog σ ε α} (hp : c → Triple I P p Q E) (hq : ¬c → Triple I P q Q E) :
    Triple I P (if c then p else q) Q E := by
  split_ifs with h
  · exact hp h
  · exact hq h

/-- What is known of values alone may be used all along. -/
theorem given {c : Prop} (h : c → Triple I P p Q E) : Triple I (fun s ↦ P s ∧ c) p Q E := fun s hs ↦ h hs.2 s hs.1

theorem when {c : Bool} {p : Prog σ ε Unit} {Q : Unit → σ → Prop} (hp : c = true → Triple I P p Q E)
    (hnot : c = false → ∀ s, P s → Q () s) : Triple I P (Prog.when c p) Q E := by
  cases c with
  | true => exact hp rfl
  | false => exact pure (hnot rfl)

/-- What is known of a value that stays through each item: `L` of the items that are left. -/
theorem each {L : List α → β → σ → Prop} {f : α → β → Prog σ ε β}
    (h : ∀ a l b, Triple I (L (a :: l) b) (f a b) (L l) E) (l : List α) (b : β) :
    Triple I (L l b) (Prog.each f l b) (L []) E := by
  induction l generalizing b with
  | nil => exact pure (Q := L []) fun _ hs ↦ hs
  | cons a l ih => exact bind (h a l b) ih

/-- Whatever a program does from a state with `P`, each state it may be cut off in has `I`. -/
theorem seen (h : Triple I P p Q E) {s t : σ} (hs : P s) (ht : t ∈ (p s).seen) : I t := (h s hs).1 t ht

theorem ok (h : Triple I P p Q E) {s : σ} {a : α} (hs : P s) (hr : (p s).result = .ok a) : Q a (p s).last := by
  have hend := (h s hs).2
  rw [hr] at hend
  exact hend

end Triple

/-! ## Programs that come to their end -/

/-- From a state with `P` the program does not fail. -/
def Total (P : σ → Prop) (p : Prog σ ε α) (Q : α → σ → Prop) : Prop := Triple (fun _ ↦ True) P p Q fun _ ↦ False

theorem Total.into {P E : σ → Prop} {p : Prog σ ε α} {Q : α → σ → Prop} (h : Total P p Q) : Triple (fun _ ↦ True) P p Q E :=
  h.failing fun _ h ↦ h.elim

theorem Total.returns {P : σ → Prop} {p : Prog σ ε α} {Q : α → σ → Prop} (h : Total P p Q) {s : σ} (hs : P s) :
    ∃ a, (p s).result = .ok a ∧ Q a (p s).last := by
  have hend := (h s hs).2
  cases hr : (p s).result with
  | error e =>
    rw [hr] at hend
    exact hend.elim
  | ok a =>
    rw [hr] at hend
    exact ⟨a, rfl, hend⟩

end NotProton.Library
