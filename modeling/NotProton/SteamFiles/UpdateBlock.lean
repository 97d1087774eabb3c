import NotProton.Library.Shell

/-!
# UpdateBlock — the setting that keeps the client from updating (`UpdateBlock.swift`)

The file is read as Latin-1, so a text is its bytes.
-/

open NotProton.Library

namespace NotProton.UpdateBlock

def key : Bytes := ascii "BootStrapperInhibitUpdateOnLaunch"

def contents : Bytes := key ++ ascii "=enable\n"

/-- `CharacterSet.whitespaces`, among the Latin-1 characters. -/
def isWhitespace (c : UInt8) : Bool := c == 9 || c == 32 || c == 160

/-- `CharacterSet.newlines` -/
def isNewline (c : UInt8) : Bool := (10 ≤ c && c ≤ 13) || c == 133

def isWhitespaceOrNewline (c : UInt8) : Bool := isWhitespace c || isNewline c

/-- `trimmingCharacters(in:)` -/
def trimming (set : UInt8 → Bool) (s : Bytes) : Bytes := (s.dropWhile set).rdropWhile set

def lines (text : Bytes) : List Bytes := text.splitOn 10

/-- `joined(separator: "\n")` -/
def joined (rows : List Bytes) : Bytes := [10].intercalate rows

def value (line : Bytes) : Option Bytes :=
  match splitAt 61 line with
  | (_, none) => none
  | (name, some rest) =>
    if trimming isWhitespace name = key then some (trimming isWhitespaceOrNewline rest) else none

/-- `value(of:) == nil` -/
def isOther (row : Bytes) : Bool := (value row).isNone

def setting (text : Bytes) : Option Bytes := ((lines text).filterMap value).getLast?

/-- `isPresent`, of a text that was read -/
def isPresent (text : Bytes) : Bool := setting text = some (ascii "enable")

/-- `line(endingLike:)` -/
def line (row : Option Bytes) : Bytes :=
  trimming isNewline contents ++ if row.bind List.getLast? = some 13 then [13] else []

/-- One row of the loop of `blocked`, with `seen` and `out`. -/
def blockedRow (s : Bool × List Bytes) (existing : Bytes) : Bool × List Bytes :=
  if isOther existing then (s.1, s.2 ++ [existing])
  else if !s.1 then (true, s.2 ++ [line (some existing)])
  else s

def blocked (text : Bytes) : Bytes :=
  let rows := lines text
  let (seen, out) := rows.foldl blockedRow (false, [])
  if seen then joined out
  else
    let out := if out.getLast? = some [] then out.dropLast else out
    joined (out ++ [line rows.head?, []])

def unblocked (text : Bytes) : Bytes := joined ((lines text).filter isOther)

/-! ## Lines -/

theorem lines_not_newline {text row : Bytes} (h : row ∈ lines text) : 10 ∉ row := notMem_of_mem_splitOn h

theorem joined_lines (text : Bytes) : joined (lines text) = text := List.intercalate_splitOn 10

theorem lines_joined {rows : List Bytes} (hne : rows ≠ []) (h : ∀ row ∈ rows, 10 ∉ row) : lines (joined rows) = rows :=
  List.splitOn_intercalate 10 h hne

theorem joined_append_nil {rows : List Bytes} (h : rows ≠ []) : joined (rows ++ [[]]) = joined rows ++ [10] := by
  induction rows with
  | nil => exact absurd rfl h
  | cons row rows ih =>
    cases rows with
    | nil => simp [joined, List.intercalate, List.intersperse]
    | cons next rows =>
      have ih := ih (List.cons_ne_nil _ _)
      simp only [joined, List.intercalate, List.cons_append, List.intersperse_cons_cons, List.flatten_cons] at ih ⊢
      rw [ih, List.append_assoc]
      rfl

/-- The line that is written gives the key, and its value blocks. -/
theorem value_line (row : Option Bytes) : value (line row) = some (ascii "enable") ∧ 10 ∉ line row := by
  unfold line
  split_ifs <;> decide

theorem line_line (row : Option Bytes) : line (some (line row)) = line row := by
  have hcases : line row = contents.dropLast ++ [13] ∨ line row = contents.dropLast := by
    unfold line
    split_ifs
    · left
      decide
    · right
      decide
  obtain h | h := hcases <;> rw [h] <;> decide

/-! ## The loop of `blocked` -/

theorem foldl_others {rows : List Bytes} (h : ∀ row ∈ rows, isOther row = true) (seen : Bool) (out : List Bytes) :
    rows.foldl blockedRow (seen, out) = (seen, out ++ rows) := by
  induction rows generalizing out with
  | nil => rw [List.foldl_nil, List.append_nil]
  | cons row rows ih =>
    rw [List.foldl_cons, blockedRow, if_pos (h row List.mem_cons_self),
      ih (fun r hr ↦ h r (List.mem_cons_of_mem _ hr)), List.append_assoc, List.singleton_append]

theorem foldl_seen (rows out : List Bytes) :
    rows.foldl blockedRow (true, out) = (true, out ++ rows.filter isOther) := by
  induction rows generalizing out with
  | nil => rw [List.foldl_nil, List.filter_nil, List.append_nil]
  | cons row rows ih =>
    rw [List.foldl_cons, blockedRow]
    by_cases hrow : isOther row = true
    · rw [if_pos hrow, ih, List.filter_cons_of_pos hrow, List.append_assoc, List.singleton_append]
    · rw [if_neg hrow, if_neg (by simp), ih, List.filter_cons_of_neg hrow]

theorem foldl_first {before after : List Bytes} {row : Bytes} (h : ∀ r ∈ before, isOther r = true)
    (hrow : ¬ isOther row = true) :
    (before ++ row :: after).foldl blockedRow (false, []) =
      (true, before ++ line (some row) :: after.filter isOther) := by
  rw [List.foldl_append, foldl_others h, List.foldl_cons, blockedRow, if_neg hrow, if_pos (by simp), foldl_seen]
  simp

/-- The rows of a text: without the key, or with it first in some row. -/
theorem rows_cases (rows : List Bytes) :
    (∀ row ∈ rows, isOther row = true) ∨
      ∃ before row after, rows = before ++ row :: after ∧ (∀ r ∈ before, isOther r = true) ∧ ¬ isOther row = true := by
  induction rows with
  | nil => exact .inl fun row h ↦ absurd h List.not_mem_nil
  | cons first rows ih =>
    by_cases hfirst : isOther first = true
    · obtain hall | ⟨before, row, after, rfl, hbefore, hrow⟩ := ih
      · exact .inl (List.forall_mem_cons.mpr ⟨hfirst, hall⟩)
      · exact .inr ⟨first :: before, row, after, rfl, List.forall_mem_cons.mpr ⟨hfirst, hbefore⟩, hrow⟩
    · exact .inr ⟨[], first, rows, rfl, fun r hr ↦ absurd hr List.not_mem_nil, hfirst⟩

/-- The rows that `blocked` writes. -/
theorem lines_blocked (text : Bytes) :
    (∃ before row after, lines text = before ++ row :: after ∧ (∀ r ∈ before, isOther r = true) ∧ ¬ isOther row = true ∧
        lines (blocked text) = before ++ line (some row) :: after.filter isOther) ∨
      ∃ rows row, (lines text = rows ∨ lines text = rows ++ [[]]) ∧ (∀ r ∈ lines text, isOther r = true) ∧
        lines (blocked text) = rows ++ [line row, []] := by
  obtain hall | ⟨before, row, after, hrows, hbefore, hrow⟩ := rows_cases (lines text)
  · -- the line is added at the end
    right
    have hnewline : ∀ r ∈ lines text, 10 ∉ r := fun r hr ↦ lines_not_newline hr
    have hblocked : blocked text =
        joined ((if (lines text).getLast? = some [] then (lines text).dropLast else lines text) ++
          [line (lines text).head?, []]) := by
      simp only [blocked, foldl_others hall, List.nil_append]
      rfl
    refine ⟨if (lines text).getLast? = some [] then (lines text).dropLast else lines text, (lines text).head?, ?_, hall, ?_⟩
    · split_ifs with hlast
      · exact .inr (List.dropLast_append_getLast? [] hlast).symm
      · exact .inl rfl
    · rw [hblocked]
      apply lines_joined
      · simp
      · intro r hr
        obtain hr | hr := List.mem_append.mp hr
        · split_ifs at hr
          · exact hnewline r (List.mem_of_mem_dropLast hr)
          · exact hnewline r hr
        · simp only [List.mem_cons, List.not_mem_nil, or_false] at hr
          obtain rfl | rfl := hr
          · exact (value_line _).2
          · exact List.not_mem_nil
  · -- the first line with the key is replaced
    left
    have hblocked : blocked text = joined (before ++ line (some row) :: after.filter isOther) := by
      simp only [blocked, hrows, foldl_first hbefore hrow, if_true]
    refine ⟨before, row, after, hrows, hbefore, hrow, ?_⟩
    rw [hblocked]
    apply lines_joined
    · simp
    · intro r hr
      obtain hr | hr := List.mem_append.mp hr
      · exact lines_not_newline (show r ∈ lines text from hrows ▸ List.mem_append_left _ hr)
      · obtain rfl | hr := List.mem_cons.mp hr
        · exact (value_line _).2
        · have hmem : r ∈ lines text := by
            rw [hrows]
            exact List.mem_append_right _ (List.mem_cons_of_mem _ (List.mem_filter.mp hr).1)
          exact lines_not_newline hmem

/-! ## The two edits -/

theorem value_eq_none {row : Bytes} : value row = none ↔ isOther row = true := by
  rw [isOther, Option.isNone_iff_eq_none]

theorem isOther_line (row : Option Bytes) : isOther (line row) = false := by
  rw [isOther, (value_line row).1]
  rfl

theorem filterMap_others {rows : List Bytes} (h : ∀ row ∈ rows, isOther row = true) : rows.filterMap value = [] :=
  List.filterMap_eq_nil_iff.mpr fun row hrow ↦ value_eq_none.mpr (h row hrow)

theorem filterMap_blocked (text : Bytes) : (lines (blocked text)).filterMap value = [ascii "enable"] := by
  obtain ⟨before, row, after, -, hbefore, -, hlines⟩ | ⟨rows, row, hrows, hall, hlines⟩ := lines_blocked text
  · have hafter : ∀ r ∈ after.filter isOther, isOther r = true := fun r hr ↦ (List.mem_filter.mp hr).2
    rw [hlines, List.filterMap_append, filterMap_others hbefore, List.filterMap_cons_some (value_line _).1,
      filterMap_others hafter]
    rfl
  · have hothers : ∀ r ∈ rows, isOther r = true := by
      intro r hr
      obtain hrows | hrows := hrows
      · exact hall r (hrows ▸ hr)
      · exact hall r (hrows ▸ List.mem_append_left _ hr)
    rw [hlines, List.filterMap_append, filterMap_others hothers, List.filterMap_cons_some (value_line _).1]
    rfl

/-- The other lines, with at most an empty one more at the end. -/
theorem filter_blocked (text : Bytes) :
    (lines (blocked text)).filter isOther = (lines text).filter isOther ∨
      (lines (blocked text)).filter isOther = (lines text).filter isOther ++ [[]] := by
  obtain ⟨before, row, after, hrows, -, hrow, hlines⟩ | ⟨rows, row, hrows, hall, hlines⟩ := lines_blocked text
  · left
    rw [hlines, hrows, List.filter_append, List.filter_append, List.filter_cons_of_neg (by rw [isOther_line]; decide),
      List.filter_cons_of_neg hrow, List.filter_filter]
    simp
  · have hadded : (rows ++ [line row, []]).filter isOther = rows.filter isOther ++ [[]] := by
      rw [List.filter_append, List.filter_cons_of_neg (by rw [isOther_line]; decide)]
      rfl
    rw [hlines, hadded]
    obtain hrows | hrows := hrows
    · right
      rw [hrows]
    · left
      rw [hrows, List.filter_append]
      rfl

theorem blocked_blocked (text : Bytes) : blocked (blocked text) = blocked text := by
  -- the first line with the key is the one that was written
  have hagain : ∀ {before after : List Bytes} {row : Option Bytes}, lines (blocked text) = before ++ line row :: after →
      (∀ r ∈ before, isOther r = true) → (∀ r ∈ after, isOther r = true) → blocked (blocked text) = blocked text := by
    intro before after row hlines hbefore hafter
    have hkey : ¬ isOther (line row) = true := by rw [isOther_line]; decide
    have hfilter : after.filter isOther = after := List.filter_eq_self.mpr hafter
    have hedit : blocked (blocked text) = joined (before ++ line (some (line row)) :: after.filter isOther) := by
      conv_lhs => rw [blocked]
      simp only [hlines, foldl_first hbefore hkey, if_true]
    rw [hedit, line_line, hfilter, ← hlines, joined_lines]
  obtain ⟨before, row, after, -, hbefore, -, hlines⟩ | ⟨rows, row, hrows, hall, hlines⟩ := lines_blocked text
  · exact hagain hlines hbefore fun r hr ↦ (List.mem_filter.mp hr).2
  · apply hagain hlines
    · intro r hr
      obtain hrows | hrows := hrows
      · exact hall r (hrows ▸ hr)
      · exact hall r (hrows ▸ List.mem_append_left _ hr)
    · intro r hr
      rw [List.mem_singleton.mp hr]
      decide

theorem unblocked_blocked (text : Bytes) :
    unblocked (blocked text) = unblocked text ∨ unblocked (blocked text) = unblocked text ++ [10] := by
  rw [unblocked, unblocked]
  obtain hsame | hmore := filter_blocked text
  · exact .inl (congrArg joined hsame)
  · rw [hmore]
    by_cases hnil : (lines text).filter isOther = []
    · -- nothing but the key: the text has no line left, and one empty line is no text either
      left
      rw [hnil]
      rfl
    · exact .inr (joined_append_nil hnil)

theorem setting_unblocked (text : Bytes) : setting (unblocked text) = none := by
  have hothers : ∀ r ∈ (lines text).filter isOther, isOther r = true := fun r hr ↦ (List.mem_filter.mp hr).2
  have hlines : (lines (unblocked text)).filterMap value = [] := by
    rw [unblocked]
    by_cases hnil : (lines text).filter isOther = []
    · rw [hnil]
      decide
    · rw [lines_joined hnil fun r hr ↦ lines_not_newline (List.mem_filter.mp hr).1]
      exact filterMap_others hothers
  rw [setting, hlines]
  rfl

/-- Blocking gives the key once and keeps every other line, both edits can be repeated and undone, and the status says
which was made last. -/
theorem update_edits (text : Bytes) :
    (lines (blocked text)).filterMap value = [ascii "enable"] ∧
      ((lines (blocked text)).filter isOther = (lines text).filter isOther ∨
        (lines (blocked text)).filter isOther = (lines text).filter isOther ++ [[]]) ∧
      blocked (blocked text) = blocked text ∧
      (unblocked (blocked text) = unblocked text ∨ unblocked (blocked text) = unblocked text ++ [10]) ∧
      isPresent (blocked text) = true ∧ isPresent (unblocked text) = false := by
  have hpresent : isPresent (blocked text) = true := by
    rw [isPresent, setting, filterMap_blocked]
    decide
  have habsent : isPresent (unblocked text) = false := by
    rw [isPresent, setting_unblocked]
    rfl
  exact ⟨filterMap_blocked text, filter_blocked text, blocked_blocked text, unblocked_blocked text, hpresent, habsent⟩

example : blocked (ascii "a=1\r\nBootStrapperInhibitUpdateOnLaunch = off\r\nb=2") =
    ascii "a=1\r\nBootStrapperInhibitUpdateOnLaunch=enable\r\nb=2" := by decide

end NotProton.UpdateBlock
