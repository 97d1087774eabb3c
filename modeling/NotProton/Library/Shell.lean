import NotProton.Library.Text

/-!
# Shell — what `sh` does to texts

Command substitution, and the parameter expansions that cut at a slash.
-/

namespace NotProton.Library

/-- `$(...)` of a command that printed `out`. -/
def commandOutput (out : Bytes) : Bytes := out.rdropWhile (· = 10)

theorem commandOutput_of_notMem {s : Bytes} (h : 10 ∉ s) : commandOutput s = s := by
  rw [commandOutput, List.rdropWhile_eq_self_iff]
  intro hne hlast
  have hmem := List.getLast_mem hne
  rw [of_decide_eq_true hlast] at hmem
  exact h hmem

theorem commandOutput_line {s : Bytes} (h : 10 ∉ s) : commandOutput (s ++ [10]) = s := by
  rw [commandOutput, List.rdropWhile_concat_pos _ _ _ (by decide)]
  exact commandOutput_of_notMem h

theorem commandOutput_newline (s : Bytes) : commandOutput (s ++ [10]) = commandOutput s :=
  List.rdropWhile_concat_pos _ _ _ (by decide)

theorem commandOutput_ne_nil {s : Bytes} {b : UInt8} (hb : b ∈ s) (h : b ≠ 10) : commandOutput s ≠ [] := by
  rw [commandOutput, ne_eq, List.rdropWhile_eq_nil_iff]
  exact fun hall ↦ h (of_decide_eq_true (hall b hb))

theorem commandOutput_idem (s : Bytes) : commandOutput (commandOutput s) = commandOutput s :=
  List.rdropWhile_idempotent _ s

/-- `${s##*/}` -/
def afterLastSlash (s : Bytes) : Bytes := (s.reverse.takeWhile (· ≠ 47)).reverse

/-- `${s%/*}` -/
def beforeLastSlash (s : Bytes) : Bytes :=
  if (47 : UInt8) ∈ s then ((s.reverse.dropWhile (· ≠ 47)).drop 1).reverse else s

/-- `${s%/}` -/
def dropSlash (s : Bytes) : Bytes := if s.getLast? = some 47 then s.dropLast else s

theorem notMem_beforeLastSlash {c : UInt8} {s : Bytes} (h : c ∉ s) : c ∉ beforeLastSlash s := by
  unfold beforeLastSlash
  split
  · intro hc
    rw [List.mem_reverse] at hc
    exact h (List.mem_reverse.mp ((List.dropWhile_sublist _).subset (List.mem_of_mem_drop hc)))
  · exact h

theorem notMem_dropSlash {c : UInt8} {s : Bytes} (h : c ∉ s) : c ∉ dropSlash s := by
  unfold dropSlash
  split
  · exact fun hc ↦ h (List.dropLast_subset s hc)
  · exact h

/-- A piece of a text has no byte that the text does not have. -/
theorem notMem_of_splitOn {b c : UInt8} {s piece : Bytes} (h : b ∉ s) (hp : piece ∈ s.splitOn c) : b ∉ piece := by
  induction s generalizing piece with
  | nil =>
    rw [List.splitOn_nil, List.mem_singleton] at hp
    rw [hp]
    exact List.not_mem_nil
  | cons a s ih =>
    obtain ⟨ha, hs⟩ := not_or.mp fun hor ↦ h (List.mem_cons.mpr hor)
    by_cases hac : a = c
    · rw [hac, splitOn_cons_self, List.mem_cons] at hp
      obtain rfl | hp := hp
      · exact List.not_mem_nil
      · exact ih hs hp
    · rw [splitOn_cons_ne hac] at hp
      cases hsplit : s.splitOn c with
      | nil => exact absurd hsplit (List.splitOn_ne_nil c s)
      | cons first rest =>
        rw [hsplit, List.modifyHead_cons, List.mem_cons] at hp
        obtain rfl | hp := hp
        · have hfirst : b ∉ first := ih hs (by rw [hsplit]; exact List.mem_cons_self)
          exact fun hb ↦ (List.mem_cons.mp hb).elim ha hfirst
        · exact ih hs (by rw [hsplit]; exact List.mem_cons_of_mem _ hp)

/-! ## Words -/

/-- Where a reader of shell words is: outside quotes, behind a backslash there, in single or in double quotes, or
behind a backslash in double quotes. -/
inductive WordState
  | plain
  | escape
  | single
  | double
  | doubleEscape

def isShellBlank (c : UInt8) : Bool := c == 32 || c == 9 || c == 10

/-- The words of a text by the quoting rules of the POSIX shell, or none where a quote stays open.  `word` is the word
that has begun, if one has. -/
def shellWordsFrom : WordState → Option Bytes → Bytes → Option (List Bytes)
  | .plain, word, [] => some word.toList
  | .escape, _, [] => none
  | .single, _, [] => none
  | .double, _, [] => none
  | .doubleEscape, _, [] => none
  | .plain, word, c :: s =>
      if isShellBlank c then (shellWordsFrom .plain none s).map (word.toList ++ ·)
      else if c = 39 then shellWordsFrom .single (some (word.getD [])) s
      else if c = 34 then shellWordsFrom .double (some (word.getD [])) s
      else if c = 92 then shellWordsFrom .escape word s
      else shellWordsFrom .plain (some (word.getD [] ++ [c])) s
  | .escape, word, c :: s =>
      if c = 10 then shellWordsFrom .plain word s else shellWordsFrom .plain (some (word.getD [] ++ [c])) s
  | .single, word, c :: s =>
      if c = 39 then shellWordsFrom .plain word s else shellWordsFrom .single (some (word.getD [] ++ [c])) s
  | .double, word, c :: s =>
      if c = 34 then shellWordsFrom .plain word s
      else if c = 92 then shellWordsFrom .doubleEscape word s
      else shellWordsFrom .double (some (word.getD [] ++ [c])) s
  | .doubleEscape, word, c :: s =>
      if c = 10 then shellWordsFrom .double word s
      else if c = 36 ∨ c = 96 ∨ c = 34 ∨ c = 92 then shellWordsFrom .double (some (word.getD [] ++ [c])) s
      else shellWordsFrom .double (some (word.getD [] ++ [92, c])) s

def shellWords (s : Bytes) : Option (List Bytes) := shellWordsFrom .plain none s

theorem shellWordsFrom_blank {c : UInt8} (h : isShellBlank c = true) (word : Option Bytes) (s : Bytes) :
    shellWordsFrom .plain word (c :: s) = (shellWords s).map (word.toList ++ ·) := by
  rw [shellWordsFrom, if_pos h, shellWords]

/-- Bytes that mean nothing to the shell go into the word. -/
theorem shellWordsFrom_literal {text : Bytes} (h : ∀ c ∈ text, isShellBlank c = false ∧ c ≠ 39 ∧ c ≠ 34 ∧ c ≠ 92)
    (hne : text ≠ []) (word : Option Bytes) (s : Bytes) :
    shellWordsFrom .plain word (text ++ s) = shellWordsFrom .plain (some (word.getD [] ++ text)) s := by
  induction text generalizing word with
  | nil => exact absurd rfl hne
  | cons c text ih =>
    obtain ⟨⟨hblank, hsingle, hdouble, hescape⟩, htext⟩ := List.forall_mem_cons.mp h
    have hblank' : ¬ isShellBlank c = true := by rw [hblank]; exact Bool.false_ne_true
    rw [List.cons_append, shellWordsFrom, if_neg hblank', if_neg hsingle, if_neg hdouble, if_neg hescape]
    by_cases hnil : text = []
    · rw [hnil, List.nil_append]
    · rw [ih htext hnil, Option.getD_some, List.append_assoc, List.singleton_append]

end NotProton.Library
