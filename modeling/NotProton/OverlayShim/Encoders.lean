import Mathlib.Data.Finset.Image
import Mathlib.Data.Fintype.Card
import NotProton.Library.SlotTable

/-!
# Encoders — the overlay's render encoders (`overlay_shim.m`)

`hook_render_encoder` marks an encoder with its attachment's format and its command buffer, `hook_end_encoding`
clears it, `hook_set_pipeline_state` looks it up.  Each call is atomic under `encoder_lock`, and no hook is called
on `nil`.
-/

open NotProton.Library

namespace NotProton.OverlayShim

def maxEncoders : Nat := 32

/-- `struct encoder_slot`, `none` for `nil`. -/
structure EncoderSlot (ε β : Type) where
  encoder : Option ε
  buffer : Option β
  format : UInt64

/-- `overlay_encoders` -/
abbrev EncoderTable (ε β : Type) := Fin maxEncoders → EncoderSlot ε β

def EncoderTable.empty {ε β : Type} : EncoderTable ε β := fun _ ↦ ⟨none, none, 0⟩

inductive Call (ε β : Type)
  | mark (encoder : ε) (format : UInt64) (buffer : Option β)
  | clear (encoder : ε)
  | format (encoder : ε)

section

variable {ε β : Type} [DecidableEq ε]

/-- `encoder_mark`, `none` where it finds no room. -/
def encoderMark (t : EncoderTable ε β) (encoder : ε) (format : UInt64) (buffer : Option β) :
    Option (EncoderTable ε β) :=
  (firstSlot fun i ↦ decide ((t i).encoder = some encoder ∨ (t i).encoder = none)).map fun i ↦
    Function.update t i ⟨some encoder, buffer, format⟩

/-- `encoder_clear` -/
def encoderClear (t : EncoderTable ε β) (encoder : ε) : EncoderTable ε β :=
  match firstSlot fun i ↦ decide ((t i).encoder = some encoder) with
  | some i => Function.update t i { t i with encoder := none, buffer := none }
  | none => t

/-- `encoder_format` -/
def encoderFormat (t : EncoderTable ε β) (encoder : ε) : Option (UInt64 × Option β) :=
  (firstSlot fun i ↦ decide ((t i).encoder = some encoder)).map fun i ↦ ((t i).format, (t i).buffer)

/-- The table, with what each encoder's latest mark that found room said, nothing once the encoder is cleared. -/
structure History (ε β : Type) where
  table : EncoderTable ε β
  live : ε → Option (UInt64 × Option β)

def History.step (h : History ε β) : Call ε β → History ε β
  | .mark encoder format buffer =>
      match encoderMark h.table encoder format buffer with
      | some t => ⟨t, Function.update h.live encoder (some (format, buffer))⟩
      | none => h
  | .clear encoder => ⟨encoderClear h.table encoder, Function.update h.live encoder none⟩
  | .format _ => h

def run (calls : List (Call ε β)) : History ε β := calls.foldl History.step ⟨.empty, fun _ ↦ none⟩

/-- The table says of every encoder what its marks said. -/
structure AsMarked (h : History ε β) : Prop where
  once : KeyedOnce EncoderSlot.encoder h.table
  format : ∀ encoder, encoderFormat h.table encoder = h.live encoder
  full : ∀ encoder format buffer, encoderMark h.table encoder format buffer = none →
    ∃ others : Finset ε, others.card = maxEncoders ∧ ∀ other ∈ others, other ≠ encoder ∧ h.live other ≠ none

/-- A mark of an encoder that stands in a slot with no free slot before it.  Any other call is in place. -/
def Call.InPlace (t : EncoderTable ε β) : Call ε β → Prop
  | .mark encoder _ _ => ∀ i j, (t i).encoder = none → (t j).encoder = some encoder → j < i
  | .clear _ => True
  | .format _ => True

/-! ## Each call on a table that is as marked -/

/-- What the slots and the marks have in common. -/
structure Inv (h : History ε β) : Prop where
  once : KeyedOnce EncoderSlot.encoder h.table
  said : ∀ i encoder, (h.table i).encoder = some encoder →
    h.live encoder = some ((h.table i).format, (h.table i).buffer)
  held : ∀ encoder, h.live encoder ≠ none → ∃ i, (h.table i).encoder = some encoder

variable {h : History ε β}

omit [DecidableEq ε] in
theorem Inv.empty : Inv (⟨.empty, fun _ ↦ none⟩ : History ε β) where
  once := by
    intro i j encoder hi
    cases hi
  said := by
    intro i encoder hi
    cases hi
  held := by
    intro encoder hne
    exact absurd rfl hne

/-- A slot that changes from one encoder or none to one encoder or none, with the word of that encoder. -/
theorem Inv.update (hinv : Inv h) {i : Fin maxEncoders} {slot : EncoderSlot ε β} {encoder : ε}
    {word : Option (UInt64 × Option β)} (hold : (h.table i).encoder = some encoder ∨ (h.table i).encoder = none)
    (hothers : ∀ j, j ≠ i → (h.table j).encoder ≠ some encoder)
    (hslot : slot.encoder = none ∧ word = none ∨ slot.encoder = some encoder ∧ word = some (slot.format, slot.buffer)) :
    Inv ⟨Function.update h.table i slot, Function.update h.live encoder word⟩ where
  once := by
    apply hinv.once.update
    intro j k hj hk
    cases hslot with
    | inl hfree =>
      rw [hfree.1] at hk
      cases hk
    | inr hmark =>
      rw [hmark.1] at hk
      cases hk
      exact hothers j hj
  said := by
    intro j other hj
    replace hj : (Function.update h.table i slot j).encoder = some other := hj
    show Function.update h.live encoder word other =
      some ((Function.update h.table i slot j).format, (Function.update h.table i slot j).buffer)
    by_cases hji : j = i
    · rw [hji, Function.update_self] at hj
      cases hslot with
      | inl hfree =>
        rw [hfree.1] at hj
        cases hj
      | inr hmark =>
        rw [hmark.1] at hj
        cases hj
        rw [hji, Function.update_self, Function.update_self, hmark.2]
    · rw [Function.update_of_ne hji] at hj ⊢
      have hother : other ≠ encoder := by
        rintro rfl
        exact hothers j hji hj
      rw [Function.update_of_ne hother, hinv.said j other hj]
  held := by
    intro other hlive
    show ∃ j, (Function.update h.table i slot j).encoder = some other
    by_cases hother : other = encoder
    · cases hslot with
      | inl hfree =>
        apply absurd _ hlive
        show Function.update h.live encoder word other = none
        rw [hother, Function.update_self, hfree.2]
      | inr hmark =>
        refine ⟨i, ?_⟩
        rw [Function.update_self, hmark.1, hother]
    · have hbefore : h.live other ≠ none := by
        have heq : Function.update h.live encoder word other = h.live other := Function.update_of_ne hother _ _
        exact fun hnone ↦ hlive (heq.trans hnone)
      obtain ⟨j, hj⟩ := hinv.held other hbefore
      -- Another encoder had its slot elsewhere, since this one was its own or free.
      have hji : j ≠ i := by
        intro hji
        rw [hji] at hj
        cases hold with
        | inl hsame => exact hother (Option.some.inj (hj.symm.trans hsame))
        | inr hfree => cases hj.symm.trans hfree
      refine ⟨j, ?_⟩
      rw [Function.update_of_ne hji, hj]

theorem Inv.mark (hinv : Inv h) {encoder : ε} {format : UInt64} {buffer : Option β}
    (hplace : (Call.mark encoder format buffer).InPlace h.table) : Inv (h.step (.mark encoder format buffer)) := by
  rw [History.step, encoderMark]
  cases hfirst : firstSlot fun i ↦ decide ((h.table i).encoder = some encoder ∨ (h.table i).encoder = none) with
  | none => exact hinv
  | some i =>
    obtain ⟨hi, hbefore⟩ := firstSlot_eq_some.mp hfirst
    have hi := of_decide_eq_true hi
    apply hinv.update hi _ (.inr ⟨rfl, rfl⟩)
    intro j hji hj
    cases hi with
    | inl hsame => exact hji (hinv.once j i encoder hj hsame)
    | inr hfree =>
      -- The encoder's own slot stands before the free one, so the search would have ended there.
      exact of_decide_eq_false (hbefore j (hplace i j hfree hj)) (.inl hj)

theorem Inv.clear (hinv : Inv h) (encoder : ε) : Inv (h.step (.clear encoder)) := by
  rw [History.step, encoderClear]
  cases hfirst : firstSlot fun i ↦ decide ((h.table i).encoder = some encoder) with
  | some i =>
    have hi := of_decide_eq_true (firstSlot_eq_some.mp hfirst).1
    apply hinv.update (.inl hi) _ (.inl ⟨rfl, rfl⟩)
    intro j hji hj
    exact hji (hinv.once j i encoder hj hi)
  | none =>
    have hnone (j : Fin maxEncoders) : (h.table j).encoder ≠ some encoder :=
      of_decide_eq_false (firstSlot_eq_none.mp hfirst j)
    have hdead : h.live encoder = none := by
      by_contra hlive
      obtain ⟨j, hj⟩ := hinv.held encoder hlive
      exact hnone j hj
    show Inv ⟨h.table, Function.update h.live encoder none⟩
    rw [← hdead, Function.update_eq_self]
    exact hinv

theorem Inv.step (hinv : Inv h) {call : Call ε β} (hplace : call.InPlace h.table) : Inv (h.step call) := by
  cases call with
  | mark encoder format buffer => exact hinv.mark hplace
  | clear encoder => exact hinv.clear encoder
  | format encoder => exact hinv

theorem run_concat (calls : List (Call ε β)) (call : Call ε β) : run (calls ++ [call]) = (run calls).step call :=
  List.foldl_concat ..

/-- Every call of a run is in place where it is made. -/
def InPlaceRun (calls : List (Call ε β)) : Prop :=
  ∀ before call later, calls = before ++ call :: later → call.InPlace (run before).table

theorem inv_run {calls : List (Call ε β)} (hplace : InPlaceRun calls) : Inv (run calls) := by
  induction calls using List.reverseRecOn with
  | nil => exact .empty
  | append_singleton calls call ih =>
    rw [run_concat]
    apply (ih _).step
    · exact hplace calls call [] rfl
    · intro before first later hcalls
      apply hplace before first (later ++ [call])
      rw [hcalls, List.append_assoc, List.cons_append]

/-! ## What the calls return -/

theorem Inv.asMarked (hinv : Inv h) : AsMarked h where
  once := hinv.once
  format := by
    intro encoder
    rw [encoderFormat]
    cases hfirst : firstSlot fun i ↦ decide ((h.table i).encoder = some encoder) with
    | some i =>
      rw [hinv.said i encoder (of_decide_eq_true (firstSlot_eq_some.mp hfirst).1)]
      rfl
    | none =>
      symm
      by_contra hlive
      obtain ⟨i, hi⟩ := hinv.held encoder hlive
      exact of_decide_eq_false (firstSlot_eq_none.mp hfirst i) hi
  full := by
    intro encoder format buffer hmark
    have hfull := firstSlot_eq_none.mp (Option.map_eq_none_iff.mp hmark)
    have htaken (i : Fin maxEncoders) : ∃ other, (h.table i).encoder = some other ∧ other ≠ encoder := by
      have hi := not_or.mp (of_decide_eq_false (hfull i))
      obtain ⟨other, hother⟩ := Option.ne_none_iff_exists'.mp hi.2
      exact ⟨other, hother, fun heq ↦ hi.1 (heq ▸ hother)⟩
    choose other hother hne using htaken
    have hinj : Function.Injective other := by
      intro i j heq
      exact hinv.once i j (other i) (hother i) (heq ▸ hother j)
    refine ⟨Finset.univ.image other, ?_, ?_⟩
    · rw [Finset.card_image_of_injective _ hinj, Finset.card_univ, Fintype.card_fin]
    · intro x hx
      obtain ⟨i, -, rfl⟩ := Finset.mem_image.mp hx
      refine ⟨hne i, ?_⟩
      rw [hinv.said i (other i) (hother i)]
      exact Option.some_ne_none _

/-- A mark of an encoder that has a free slot before its own leaves the encoder in two slots. -/
theorem not_asMarked_of_mark {encoder : ε} {format : UInt64} {buffer : Option β}
    (hplace : ¬ (Call.mark encoder format buffer).InPlace h.table) : ¬ AsMarked (h.step (.mark encoder format buffer)) := by
  intro hmarked
  apply hplace
  intro i j hi hj
  by_contra hji
  have hne : i ≠ j := by
    intro hij
    rw [hij, hj] at hi
    cases hi
  cases hfirst : firstSlot fun i ↦ decide ((h.table i).encoder = some encoder ∨ (h.table i).encoder = none) with
  | none => exact of_decide_eq_false (firstSlot_eq_none.mp hfirst i) (.inr hi)
  | some k =>
    have hki : ¬ i < k := fun hik ↦ of_decide_eq_false ((firstSlot_eq_some.mp hfirst).2 i hik) (.inr hi)
    have hkj : j ≠ k := by omega
    have hstep : h.step (.mark encoder format buffer) =
        ⟨Function.update h.table k ⟨some encoder, buffer, format⟩,
          Function.update h.live encoder (some (format, buffer))⟩ := by
      rw [History.step, encoderMark, hfirst]
      rfl
    have honce : KeyedOnce EncoderSlot.encoder (Function.update h.table k ⟨some encoder, buffer, format⟩) := by
      have honce := hmarked.once
      rwa [hstep] at honce
    exact hkj (honce k j encoder (by rw [Function.update_self]) (by rw [Function.update_of_ne hkj, hj])).symm

/-- The overlay's table is as marked all through a run exactly when no call of it marks an encoder again while a slot
before the encoder's own is free. -/
theorem encoders_asMarked_iff (calls : List (Call ε β)) :
    (∀ before, before <+: calls → AsMarked (run before)) ↔
      ∀ before call later, calls = before ++ call :: later → call.InPlace (run before).table := by
  apply Iff.intro
  · intro hmarked before call later hcalls
    cases call with
    | mark encoder format buffer =>
      by_contra hplace
      have hstep := hmarked (before ++ [.mark encoder format buffer]) ⟨later, by rw [hcalls, List.append_assoc]; rfl⟩
      rw [run_concat] at hstep
      exact not_asMarked_of_mark hplace hstep
    | clear encoder => trivial
    | format encoder => trivial
  · intro hplace before hbefore
    obtain ⟨later, rfl⟩ := hbefore
    apply Inv.asMarked
    apply inv_run
    intro first call rest hfirst
    apply hplace first call (rest ++ later)
    rw [hfirst, List.append_assoc, List.cons_append]

end

/-- The second encoder is marked again after the first is cleared, and its clear leaves it in the second slot. -/
theorem encoder_outlives_clear :
    ¬ ∀ before, before <+: [Call.mark 1 80 (some 10), .mark 2 81 (some 20), .clear 1, .mark 2 82 (some 30), .clear 2] →
      AsMarked (run before : History Nat Nat) := by
  intro h
  have hformat := (h _ List.prefix_rfl).format 2
  revert hformat
  decide

end NotProton.OverlayShim
