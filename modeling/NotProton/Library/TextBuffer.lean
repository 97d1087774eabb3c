import NotProton.Library.Text

/-!
# TextBuffer — text appended to a buffer of fixed size

A write that does not fit leaves the text alone and spoils the buffer for good.
-/

namespace NotProton.Library

structure TextBuffer where
  size : Nat
  text : Bytes
  ok : Bool
  /-- The closing zero byte has its place. -/
  room : ok = true → text.length < size

namespace TextBuffer

def empty (size : Nat) (h : 0 < size) : TextBuffer := ⟨size, [], true, fun _ ↦ h⟩

def Fits (b : TextBuffer) (s : Bytes) : Prop := b.ok = true ∧ b.text.length + s.length < b.size

instance (b : TextBuffer) (s : Bytes) : Decidable (b.Fits s) := inferInstanceAs (Decidable (_ ∧ _))

def append (b : TextBuffer) (s : Bytes) (h : b.Fits s) : TextBuffer :=
  ⟨b.size, b.text ++ s, true, fun _ ↦ by rw [List.length_append]; exact h.2⟩

def put (b : TextBuffer) (s : Bytes) : TextBuffer :=
  if h : b.Fits s then b.append s h else ⟨b.size, b.text, false, fun h ↦ by cases h⟩

/-- The buffer after a text was written to it, in however many pieces. -/
structure Wrote (b : TextBuffer) (s : Bytes) (b' : TextBuffer) : Prop where
  size : b'.size = b.size
  ok : b'.ok = true ↔ b.Fits s
  text : b.Fits s → b'.text = b.text ++ s

theorem wrote_put (b : TextBuffer) (s : Bytes) : b.Wrote s (b.put s) := by
  unfold put
  by_cases h : b.Fits s
  · rw [dif_pos h]
    exact ⟨rfl, ⟨fun _ ↦ h, fun _ ↦ rfl⟩, fun _ ↦ rfl⟩
  · rw [dif_neg h]
    exact ⟨rfl, ⟨fun hok ↦ (by cases hok), fun hf ↦ absurd hf h⟩, fun hf ↦ absurd hf h⟩

theorem wrote_nil (b : TextBuffer) : b.Wrote [] b :=
  ⟨rfl, ⟨fun h ↦ ⟨h, b.room h⟩, fun h ↦ h.1⟩, fun _ ↦ (List.append_nil _).symm⟩

theorem Wrote.append {b b' b'' : TextBuffer} {s t : Bytes} (h : b.Wrote s b') (h' : b'.Wrote t b'') :
    b.Wrote (s ++ t) b'' := by
  have hsize : b''.size = b.size := h'.size.trans h.size
  have hfits : b.Fits (s ++ t) ↔ b.Fits s ∧ b'.Fits t := by
    constructor
    · intro hf
      have hs : b.Fits s := ⟨hf.1, by have := hf.2; rw [List.length_append] at this; omega⟩
      refine ⟨hs, h.ok.mpr hs, ?_⟩
      have := hf.2
      rw [h.text hs, h.size, List.length_append]
      rw [List.length_append] at this
      omega
    · rintro ⟨hs, -, ht⟩
      refine ⟨hs.1, ?_⟩
      rw [h.text hs, h.size, List.length_append] at ht
      rw [List.length_append]
      omega
  refine ⟨hsize, ?_, ?_⟩
  · rw [h'.ok, hfits]
    exact ⟨fun ht ↦ ⟨h.ok.mp ht.1, ht⟩, fun ht ↦ ht.2⟩
  · intro hf
    obtain ⟨hs, ht⟩ := hfits.mp hf
    rw [h'.text ht, h.text hs, List.append_assoc]

/-- Writing one text for each element of a list. -/
theorem wrote_foldl {α : Type} {f : TextBuffer → α → TextBuffer} {g : α → Bytes}
    (h : ∀ (b : TextBuffer) a, b.Wrote (g a) (f b a)) (l : List α) (b : TextBuffer) :
    b.Wrote (l.flatMap g) (l.foldl f b) := by
  induction l generalizing b with
  | nil => exact wrote_nil b
  | cons a l ih => exact (h b a).append (ih (f b a))

theorem Wrote.of_empty {size : Nat} {h : 0 < size} {s : Bytes} {b : TextBuffer}
    (hw : (empty size h).Wrote s b) (hs : s.length < size) : b.ok = true ∧ b.text = s := by
  have hf : (empty size h).Fits s := ⟨rfl, by simpa [empty] using hs⟩
  exact ⟨hw.ok.mpr hf, (hw.text hf).trans (List.nil_append s)⟩

end TextBuffer

end NotProton.Library
