import NotProton.PrefixStore.Lines

/-! # Fields — what the app's expression finds in a line (`PrefixStore.swift`) -/

open NotProton.Library NotProton.PrefixState

namespace NotProton.PrefixStore

/-- A piece as it stands in the line. -/
def Piece.raw : Piece → List Bytes
  | .plain c => [c]
  | .escaped c => [[92], c]

theorem quotedField_closed {cs rest : List Bytes} (h : (pieces cs).2 = some rest) (hsoft : ∀ p ∈ (pieces cs).1, p.Soft) :
    quotedField cs = some ((pieces cs).1.flatMap Piece.raw, rest) := by
  induction cs using pieces.induct with
  | case1 => cases h
  | case2 cs =>
    rw [pieces, Option.some.injEq] at h
    rw [← h]
    rfl
  | case3 c cs ih =>
    rw [pieces, List.forall_mem_cons] at hsoft
    have hc : isNewline c = false := hsoft.1
    rw [quotedField, hc, ih h hsoft.2]
    rfl
  | case4 c cs hquote hslash ih =>
    rw [pieces.eq_4 c cs hquote hslash] at h hsoft
    rw [List.forall_mem_cons] at hsoft
    have hlast : c = [92] → cs = [] → False := by
      rintro - rfl
      cases h
    rw [quotedField.eq_5 c cs hquote hlast hslash, ih h hsoft.2, pieces.eq_4 c cs hquote hslash]
    rfl

-- The search goes on behind an open quote, and what it meets there are escaped quotes of the same token.
theorem quotedField_open {cs : List Bytes} (h : (pieces cs).2 = none) (hsoft : ∀ p ∈ (pieces cs).1, p.Soft) :
    quotedField cs = none ∧ ∀ fuel, fieldMatches fuel cs = [] := by
  -- On the pieces: the regex would have to find the quote that is not there.
  induction cs using pieces.induct with
  | case1 => exact ⟨rfl, fun fuel ↦ by cases fuel <;> rfl⟩
  | case2 cs => cases h
  | case3 c cs ih =>
    rw [pieces, List.forall_mem_cons] at hsoft
    have hc : isNewline c = false := hsoft.1
    obtain ⟨hfield, hnone⟩ := ih h hsoft.2
    constructor
    · rw [quotedField, hc, hfield]
      rfl
    · intro fuel
      cases fuel with
      | zero => rfl
      | succ fuel =>
        rw [fieldMatches, if_neg (by decide)]
        cases fuel with
        | zero => rfl
        | succ fuel =>
          rw [fieldMatches, hfield, hnone]
          split <;> rfl
  | case4 c cs hquote hslash ih =>
    rw [pieces.eq_4 c cs hquote hslash] at h hsoft
    rw [List.forall_mem_cons] at hsoft
    obtain ⟨hfield, hnone⟩ := ih h hsoft.2
    constructor
    · by_cases hlast : c = [92] ∧ cs = []
      · rw [hlast.1, hlast.2]
        rfl
      · rw [quotedField.eq_5 c cs hquote (fun hc hcs ↦ hlast ⟨hc, hcs⟩) hslash, hfield]
        rfl
    · intro fuel
      cases fuel with
      | zero => rfl
      | succ fuel =>
        rw [fieldMatches, if_neg fun e ↦ hquote e]
        exact hnone fuel

theorem pieces_length {cs rest : List Bytes} (h : (pieces cs).2 = some rest) : rest.length ≤ cs.length := by
  induction cs using pieces.induct with
  | case1 => cases h
  | case2 cs =>
    rw [pieces, Option.some.injEq] at h
    rw [← h]
    exact Nat.le_succ _
  | case3 c cs ih =>
    rw [pieces] at h
    have hrest := ih h
    simp only [List.length_cons]
    omega
  | case4 c cs hquote hslash ih =>
    rw [pieces.eq_4 c cs hquote hslash] at h
    have hrest := ih h
    rw [List.length_cons]
    omega

/-- The first field is the token after the first quote, and the others come from what follows it. -/
theorem fieldMatches_first {cs : List Bytes} {fuel : Nat} (hfuel : cs.length ≤ fuel) :
    match afterQuote cs with
    | none => fieldMatches fuel cs = []
    | some rest => (∀ p ∈ (pieces rest).1, p.Soft) →
      match (pieces rest).2 with
      | none => fieldMatches fuel cs = []
      | some after => ∃ fuel', after.length ≤ fuel' ∧
          fieldMatches fuel cs = (pieces rest).1.flatMap Piece.raw :: fieldMatches fuel' after := by
  induction cs generalizing fuel with
  | nil => cases fuel <;> rfl
  | cons c cs ih =>
    rw [List.length_cons] at hfuel
    obtain ⟨fuel, rfl⟩ : ∃ k, fuel = k + 1 := ⟨fuel - 1, by omega⟩
    unfold afterQuote
    by_cases hc : c = [34]
    · rw [if_pos hc]
      intro hsoft
      rw [fieldMatches, if_pos hc]
      cases hrest : (pieces cs).2 with
      | none =>
        simp only [(quotedField_open hrest hsoft).1]
        exact (quotedField_open hrest hsoft).2 fuel
      | some after =>
        have hlen := pieces_length hrest
        simp only [quotedField_closed hrest hsoft]
        exact ⟨fuel, by omega, rfl⟩
    · rw [if_neg hc, fieldMatches, if_neg hc]
      exact ih (by omega)

theorem not_mem_pieces_closed {cs rest : List Bytes} (h : (pieces cs).2 = some rest) : .plain [92] ∉ (pieces cs).1 := by
  induction cs using pieces.induct with
  | case1 => cases h
  | case2 cs => exact List.not_mem_nil
  | case3 c cs ih =>
    rw [pieces] at h ⊢
    rw [List.mem_cons, not_or]
    exact ⟨fun e ↦ Piece.noConfusion e, ih h⟩
  | case4 c cs hquote hslash ih =>
    rw [pieces.eq_4 c cs hquote hslash] at h ⊢
    rw [List.mem_cons, not_or]
    refine ⟨?_, ih h⟩
    intro e
    rw [Piece.plain.injEq] at e
    cases cs with
    | nil => cases h
    | cons d cs => exact hslash d cs e.symm rfl

theorem unescaped_raw {ps : List Piece} (hsoft : ∀ p ∈ ps, p.Soft) (hplain : .plain [92] ∉ ps) :
    unescaped (ps.flatMap Piece.raw) = ps.flatMap Piece.shown := by
  induction ps with
  | nil => rfl
  | cons p ps ih =>
    rw [List.forall_mem_cons] at hsoft
    rw [List.mem_cons, not_or] at hplain
    rw [List.flatMap_cons, List.flatMap_cons, ← ih hsoft.2 hplain.2]
    cases p with
    | plain c =>
      have hc : c ≠ [92] := fun e ↦ hplain.1 (by rw [e])
      exact unescaped.eq_3 c _ fun _ _ e ↦ absurd e hc
    | escaped c =>
      have hc : isNewline c = false := hsoft.1
      show unescaped ([92] :: c :: _) = _
      rw [unescaped, hc]
      rfl

theorem shown_eq_decoded {p : Piece} (h : p.Known) : p.shown = p.decoded := by
  cases p with
  | plain c => rfl
  | escaped c => obtain rfl | rfl | rfl | rfl := h <;> decide

theorem shown_of_decoded_nil {p : Piece} (h : p.decoded = []) : p.shown = [] := by
  cases p with
  | plain c => exact h
  | escaped c =>
    cases c with
    | nil => cases h
    | cons b c => cases h

-- An escape only one side decodes leaves its backslash in the app's text.
theorem mem_shown_of_not_known {ps : List Piece} {p : Piece} (hp : p ∈ ps) (h : ¬ p.Known) :
    92 ∈ ps.flatMap Piece.shown := by
  rw [List.mem_flatMap]
  refine ⟨p, hp, ?_⟩
  cases p with
  | plain c => exact absurd trivial h
  | escaped c =>
    unfold Piece.Known at h
    push Not at h
    have hne : ¬ (c = [92] ∨ c = [34]) := fun hor ↦ hor.elim h.2.2.1 h.2.2.2
    rw [Piece.shown, unescape, if_neg h.1, if_neg h.2.1, if_neg hne]
    exact List.mem_cons_self

theorem shown_of_known {ps : List Piece} (h : ∀ p ∈ ps, p.Known) :
    ps.flatMap Piece.shown = ps.flatMap Piece.decoded := List.flatMap_congr fun p hp ↦ shown_eq_decoded (h p hp)

/-- A key that is `path` to the app has known escapes only. -/
theorem known_of_shown {ps : List Piece} (h : ps.flatMap Piece.shown = ascii "path") : ∀ p ∈ ps, p.Known := by
  intro p hp
  by_contra hunknown
  have hmem := mem_shown_of_not_known hp hunknown
  rw [h] at hmem
  revert hmem
  decide

theorem canonical_eq_path (u : SwiftText) {s : Bytes} :
    u.canonical s = u.canonical (ascii "path") ↔ s = ascii "path" :=
  ⟨u.canonical_path, fun h ↦ by rw [h]⟩

/-- Where they agree on a line, both take the same library from it. -/
theorem fieldLibrary_eq (u : SwiftText) {line : List Bytes} (hagrees : LineAgrees line) :
    fieldLibrary u line = lineLibrary line := by
  have hfirst := fieldMatches_first (le_refl line.length)
  unfold fieldLibrary lineLibrary vdfFields
  cases hafter : afterQuote line with
  | none =>
    simp only [hafter] at hfirst
    rw [hfirst]
    rfl
  | some cs =>
    have hsoft := fun p hp ↦ (hagrees.key cs hafter p hp).1
    simp only [hafter] at hfirst
    cases hrest : (pieces cs).2 with
    | none =>
      simp only [hrest] at hfirst
      rw [hfirst hsoft]
      simp only [List.map_nil, hrest]
    | some rest =>
      simp only [hrest] at hfirst
      obtain ⟨fuel, hfuel, hfields⟩ := hfirst hsoft
      rw [hfields, List.map_cons, unescaped_raw hsoft (not_mem_pieces_closed hrest)]
      simp only [hrest, canonical_eq_path, ne_eq]
      by_cases hpath : (pieces cs).1.flatMap Piece.decoded = ascii "path"
      · rw [if_neg (not_not.mpr hpath)]
        have hvalue := hagrees.value cs hafter rest hrest hpath
        have hsecond := fieldMatches_first hfuel
        cases hafter' : afterQuote rest with
        | none =>
          simp only [hafter'] at hsecond
          rw [hsecond]
          rfl
        | some value =>
          have hsoft' := fun p hp ↦ (hvalue.token value hafter' p hp).1
          simp only [hafter'] at hsecond
          cases hclosed : (pieces value).2 with
          | none =>
            simp only [hclosed] at hsecond
            rw [hsecond hsoft']
            simp only [List.map_nil, hclosed, true_or, if_true]
          | some after =>
            simp only [hclosed] at hsecond
            obtain ⟨fuel', -, hfields'⟩ := hsecond hsoft'
            rw [hfields', List.map_cons, unescaped_raw hsoft' (not_mem_pieces_closed hclosed)]
            simp only [hclosed, reduceCtorEq, false_or]
            by_cases hempty : (pieces value).1.flatMap Piece.decoded = []
            · -- An escape leaves a character to both sides.
              have hshown : (pieces value).1.flatMap Piece.shown = [] := by
                rw [List.flatMap_eq_nil_iff] at hempty ⊢
                exact fun p hp ↦ shown_of_decoded_nil (hempty p hp)
              rw [if_pos hempty, if_neg fun h ↦ h.2 hshown]
            · have hknown := hvalue.decodes value hafter' (by rw [hclosed]; exact Option.some_ne_none after) hempty
              rw [shown_of_known hknown.1, shown_of_known hknown.2.1, if_neg hempty, if_pos ⟨hpath, hempty⟩]
      · have hshown : (pieces cs).1.flatMap Piece.shown ≠ ascii "path" := fun h ↦
          hpath (by rw [← shown_of_known (known_of_shown h), h])
        rw [if_pos hpath]
        cases List.map unescaped (fieldMatches fuel rest) with
        | nil => rfl
        | cons value values => exact if_neg fun h ↦ hshown h.1

end NotProton.PrefixStore
