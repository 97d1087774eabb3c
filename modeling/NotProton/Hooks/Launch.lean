import NotProton.Library.Shell

/-!
# Launch — the command line a game is started with (`hook_launch.c`)

A launch is handed to a shell as one quoted argument, and the backslashes of a game's arguments are doubled where
they stand.  Allocation is taken to succeed.
-/

open NotProton.Library

namespace NotProton.Hooks

/-! ## The command as one argument -/

def npQuote (s : Bytes) : Bytes :=
  ascii "'" ++ s.flatMap (fun c ↦ if c = 39 then ascii "'\\''" else [c]) ++ ascii "'"

/-- `lead`, and the size of the buffer, both by the lengths of what goes in. -/
def launchLead : Option Bytes → Bytes
  | none => ascii "/bin/sh -c "
  | some _ => []

def launchCap (cmd : Bytes) (shell : Option Bytes) : Nat :=
  (launchLead shell).length + 4 * cmd.length + 3 + (shell.elim 0 fun shell ↦ 4 * shell.length + 3) + 1

/-- The text, without the NUL behind it. -/
def launchText (cmd : Bytes) (shell : Option Bytes) : Bytes :=
  launchLead shell ++ (shell.elim [] fun shell ↦ npQuote shell ++ [32]) ++ npQuote cmd

/-- `np_launch_shell`, with `np_compat_runs_tool`; `rest` where the caller asks for it. -/
def npLaunchShell (runsTool : Bytes → Bool) (cmd shell : Option Bytes) (max : Int) (rest : Bool) : Option Bytes :=
  match cmd with
  | none => none
  | some cmd => if max ≠ -1 ∨ rest = true ∨ runsTool cmd = false then none else some (launchText cmd shell)

theorem shellWordsFrom_single (s : Bytes) (word : Bytes) (rest : Bytes) :
    shellWordsFrom .single (some word) (s.flatMap (fun c ↦ if c = 39 then ascii "'\\''" else [c]) ++ (39 :: rest)) =
      shellWordsFrom .plain (some (word ++ s)) rest := by
  induction s generalizing word with
  | nil => rw [List.flatMap_nil, List.nil_append, shellWordsFrom, if_pos rfl, List.append_nil]
  | cons c s ih =>
    rw [List.flatMap_cons]
    by_cases hc : c = 39
    · -- out of the quotes, one quote behind a backslash, and in again
      rw [if_pos hc, hc, List.append_assoc]
      generalize htail : s.flatMap (fun c ↦ if c = 39 then ascii "'\\''" else [c]) ++ 39 :: rest = tail at ih ⊢
      show shellWordsFrom .single (some word) (39 :: 92 :: 39 :: 39 :: tail) = _
      have hback : ¬ isShellBlank 92 = true := by decide
      have hquote : ¬ isShellBlank 39 = true := by decide
      rw [shellWordsFrom, if_pos rfl, shellWordsFrom, if_neg hback, if_neg (by decide), if_neg (by decide), if_pos rfl,
        shellWordsFrom, if_neg (by decide), shellWordsFrom, if_neg hquote, if_pos rfl]
      rw [Option.getD_some, ih, List.append_assoc, List.singleton_append, Option.getD_some]
    · rw [if_neg hc, List.singleton_append, List.cons_append, shellWordsFrom, if_neg hc, Option.getD_some, ih,
        List.append_assoc, List.singleton_append]

theorem shellWordsFrom_quote (s : Bytes) (word : Option Bytes) (rest : Bytes) :
    shellWordsFrom .plain word (npQuote s ++ rest) = shellWordsFrom .plain (some (word.getD [] ++ s)) rest := by
  have hquote : ¬ isShellBlank 39 = true := by decide
  rw [npQuote, List.append_assoc, List.append_assoc]
  show shellWordsFrom .plain word (39 :: (_ ++ (39 :: rest))) = _
  rw [shellWordsFrom, if_neg hquote, if_pos rfl, shellWordsFrom_single]

theorem shellWords_launchText (cmd : Bytes) (shell : Option Bytes) : shellWords (launchText cmd shell) =
    some (match shell with
      | none => [ascii "/bin/sh", ascii "-c", cmd]
      | some shell => [shell, cmd]) := by
  have hcmd : shellWordsFrom .plain none (npQuote cmd) = some [cmd] := by
    have hquote := shellWordsFrom_quote cmd none []
    rw [List.append_nil] at hquote
    rw [hquote, shellWordsFrom, Option.getD_none, List.nil_append, Option.toList_some]
  cases shell with
  | none =>
    have hsh : ∀ c ∈ ascii "/bin/sh", isShellBlank c = false ∧ c ≠ 39 ∧ c ≠ 34 ∧ c ≠ 92 := by decide +kernel
    have hc : ∀ c ∈ ascii "-c", isShellBlank c = false ∧ c ≠ 39 ∧ c ≠ 34 ∧ c ≠ 92 := by decide +kernel
    have htext : launchText cmd none = ascii "/bin/sh" ++ 32 :: (ascii "-c" ++ 32 :: npQuote cmd) := rfl
    rw [shellWords, htext, shellWordsFrom_literal hsh (by decide), shellWordsFrom_blank rfl, shellWords,
      shellWordsFrom_literal hc (by decide), shellWordsFrom_blank rfl, shellWords, hcmd]
    rfl
  | some shell =>
    have htext : launchText cmd (some shell) = npQuote shell ++ 32 :: npQuote cmd := by
      simp only [launchText, launchLead, Option.elim_some, List.nil_append, List.append_assoc, List.singleton_append]
    rw [shellWords, htext, shellWordsFrom_quote, shellWordsFrom_blank rfl, shellWords, hcmd]
    rfl

theorem npQuote_length (s : Bytes) : (npQuote s).length ≤ 4 * s.length + 2 := by
  have hbody : (s.flatMap fun c ↦ if c = 39 then ascii "'\\''" else [c]).length ≤ 4 * s.length := by
    induction s with
    | nil => exact le_rfl
    | cons c s ih =>
      have hone : (if c = 39 then ascii "'\\''" else [c]).length ≤ 4 := by
        split
        · exact le_rfl
        · exact Nat.le_add_left _ _
      rw [List.flatMap_cons, List.length_append, List.length_cons]
      omega
  have hquote : (ascii "'").length = 1 := rfl
  rw [npQuote, List.length_append, List.length_append, hquote]
  omega

/-- The text and its NUL fit in the buffer. -/
theorem launchText_length (cmd : Bytes) (shell : Option Bytes) : (launchText cmd shell).length + 1 ≤ launchCap cmd shell := by
  have hcmd := npQuote_length cmd
  cases shell with
  | none =>
    simp only [launchText, launchCap, List.length_append, Option.elim_none, List.length_nil]
    omega
  | some shell =>
    have hshell := npQuote_length shell
    simp only [launchText, launchCap, List.length_append, Option.elim_some, List.length_singleton]
    omega

/-! ## Backslashes -/

def npCountBackslashes (s : Bytes) : Nat := s.count 92

/-- The buffer, where `out` points, and for each byte written how many were not read yet. -/
structure Doubling where
  buf : Nat → UInt8
  out : Nat
  writes : List (Nat × Nat)

/-- `*--out = c`, while the first `unread` bytes are still to be read. -/
def Doubling.put (st : Doubling) (unread : Nat) (c : UInt8) : Doubling where
  buf := Function.update st.buf (st.out - 1) c
  out := st.out - 1
  writes := (unread, st.out - 1) :: st.writes

def doubleLoop : Nat → Doubling → Doubling
  | 0, st => st
  | len + 1, st =>
      let c := st.buf len
      let st := st.put len c
      doubleLoop len (if c = 92 then st.put len c else st)

/-- The buffer afterwards, and the writes. -/
def npDoubleBackslashes (s : Nat → UInt8) (len extra : Nat) : Doubling :=
  doubleLoop len ⟨Function.update s (len + extra) 0, len + extra, [(len, len + extra)]⟩

/-- A buffer with a text, its NUL, and anything behind. -/
def bufferOf (text : Bytes) (junk : Nat → UInt8) (i : Nat) : UInt8 := (text ++ [0]).getD i (junk i)

def doubled (text : Bytes) : Bytes := text.flatMap fun c ↦ if c = 92 then [c, c] else [c]

theorem doubled_length (text : Bytes) : (doubled text).length = text.length + text.count 92 := by
  induction text with
  | nil => rfl
  | cons c text ih =>
    have hcons : doubled (c :: text) = (if c = 92 then [c, c] else [c]) ++ doubled text := List.flatMap_cons
    rw [hcons, List.length_append, ih, List.length_cons]
    by_cases hc : c = 92
    · rw [if_pos hc, hc, List.count_cons_self]
      simp only [List.length_cons, List.length_nil]
      omega
    · rw [if_neg hc, List.count_cons_of_ne hc]
      simp only [List.length_cons, List.length_nil]
      omega

/-- What the loop does with the bytes of `text` not read yet, when `out` is as far behind them as they have
backslashes: it lays them out doubled below `out`, and leaves what is above. -/
theorem doubleLoop_spec (text : Bytes) (st : Doubling) (hout : st.out = (doubled text).length)
    (hread : ∀ i (h : i < text.length), st.buf i = text[i]) :
    let done := doubleLoop text.length st
    (∀ i (h : i < (doubled text).length), done.buf i = (doubled text)[i]) ∧
      (∀ i, st.out ≤ i → done.buf i = st.buf i) ∧
      ∃ writes, done.writes = writes ++ st.writes ∧ ∀ w ∈ writes, w.1 ≤ w.2 ∧ w.2 < st.out := by
  induction text using List.reverseRecOn generalizing st with
  | nil => exact ⟨fun i h ↦ absurd h (Nat.not_lt_zero i), fun _ _ ↦ rfl, [], rfl, fun w hw ↦ by cases hw⟩
  | append_singleton text c ih =>
    have hdoubled : doubled (text ++ [c]) = doubled text ++ if c = 92 then [c, c] else [c] := by
      rw [doubled, List.flatMap_append, List.flatMap_cons, List.flatMap_nil, List.append_nil]
      rfl
    have hbehind : text.length ≤ (doubled text).length := by
      rw [doubled_length]
      omega
    have hc : st.buf text.length = c := by
      rw [hread text.length (by simp), List.getElem_concat_length rfl]
    have hold : ∀ i (h : i < text.length), st.buf i = text[i] := by
      intro i h
      rw [hread i (by simp; omega), List.getElem_append_left h]
    rw [List.length_append, List.length_singleton]
    simp only [doubleLoop, hc]
    -- where the byte and its copy go, nothing is left to read
    by_cases hback : c = 92
    · rw [if_pos hback]
      rw [hdoubled, if_pos hback, List.length_append, List.length_cons, List.length_singleton] at hout
      have hnext : ((st.put text.length c).put text.length c).out = (doubled text).length := by
        show st.out - 1 - 1 = _
        omega
      have hbuf : ∀ i, i ≠ st.out - 1 → i ≠ st.out - 1 - 1 →
          ((st.put text.length c).put text.length c).buf i = st.buf i := by
        intro i h1 h2
        exact (Function.update_of_ne h2 _ _).trans (Function.update_of_ne h1 _ _)
      obtain ⟨hlow, hhigh, writes, hwrites, hsafe⟩ := ih _ hnext fun i h ↦ by
        rw [hbuf i (by omega) (by omega)]
        exact hold i h
      refine ⟨?_, ?_, ?_⟩
      · intro i h
        simp only [hdoubled, if_pos hback]
        by_cases hi : i < (doubled text).length
        · rw [hlow i hi, List.getElem_append_left hi]
        · rw [hhigh i (by omega), List.getElem_append_right (by omega)]
          have hlen : i < (doubled text).length + 2 := by
            rw [hdoubled, if_pos hback, List.length_append] at h
            exact h
          have hboth : ∀ k (h : k < [c, c].length), [c, c][k] = c := by
            intro k h
            rw [List.length_cons, List.length_singleton] at h
            obtain rfl | rfl : k = 0 ∨ k = 1 := by omega
            · rfl
            · rfl
          rw [hboth]
          obtain rfl | rfl : i = st.out - 1 - 1 ∨ i = st.out - 1 := by omega
          · exact Function.update_self _ _ _
          · have hne : st.out - 1 ≠ st.out - 1 - 1 := by omega
            exact (Function.update_of_ne hne _ _).trans (Function.update_self _ _ _)
      · intro i h
        rw [hhigh i (by omega), hbuf i (by omega) (by omega)]
      · refine ⟨writes ++ [(text.length, st.out - 1 - 1), (text.length, st.out - 1)], ?_, ?_⟩
        · rw [hwrites, List.append_assoc]
          rfl
        · intro w hw
          rw [List.mem_append] at hw
          obtain hw | hw := hw
          · have hw := hsafe w hw
            omega
          · simp only [List.mem_cons, List.not_mem_nil, or_false] at hw
            obtain rfl | rfl := hw <;> constructor <;> simp only <;> omega
    · rw [if_neg hback]
      rw [hdoubled, if_neg hback, List.length_append, List.length_singleton] at hout
      have hnext : (st.put text.length c).out = (doubled text).length := by
        show st.out - 1 = _
        omega
      have hbuf : ∀ i, i ≠ st.out - 1 → (st.put text.length c).buf i = st.buf i := fun i h ↦ Function.update_of_ne h _ _
      obtain ⟨hlow, hhigh, writes, hwrites, hsafe⟩ := ih _ hnext fun i h ↦ by
        rw [hbuf i (by omega)]
        exact hold i h
      refine ⟨?_, ?_, ?_⟩
      · intro i h
        simp only [hdoubled, if_neg hback]
        by_cases hi : i < (doubled text).length
        · rw [hlow i hi, List.getElem_append_left hi]
        · rw [hhigh i (by omega), List.getElem_append_right (by omega)]
          have hlen : i < (doubled text).length + 1 := by
            rw [hdoubled, if_neg hback, List.length_append] at h
            exact h
          obtain rfl : i = st.out - 1 := by omega
          rw [List.getElem_singleton]
          exact Function.update_self _ _ _
      · intro i h
        rw [hhigh i (by omega), hbuf i (by omega)]
      · refine ⟨writes ++ [(text.length, st.out - 1)], ?_, ?_⟩
        · rw [hwrites, List.append_assoc]
          rfl
        · intro w hw
          rw [List.mem_append, List.mem_singleton] at hw
          obtain hw | rfl := hw
          · have hw := hsafe w hw
            omega
          · constructor <;> simp only <;> omega

/-- Every text that is built splits into the shell and the command, and fits; and the backslashes of a text are
doubled in place without writing over a byte not read yet, or behind the buffer. -/
theorem launch_words_and_backslashes (runsTool : Bytes → Bool) (cmd shell : Option Bytes) (max : Int) (rest : Bool)
    (args : Bytes) (junk : Nat → UInt8) :
    (∀ text ∈ npLaunchShell runsTool cmd shell max rest, ∃ command ∈ cmd,
      shellWords text = some (match shell with
        | none => [ascii "/bin/sh", ascii "-c", command]
        | some shell => [shell, command]) ∧
      text.length + 1 ≤ launchCap command shell) ∧
    let extra := npCountBackslashes args
    let done := npDoubleBackslashes (bufferOf args junk) args.length extra
    (List.range (args.length + extra + 1)).map done.buf = doubled args ++ [0] ∧
      ∀ w ∈ done.writes, w.1 ≤ w.2 ∧ w.2 < args.length + extra + 1 := by
  constructor
  · intro text htext
    cases cmd with
    | none => cases htext
    | some command =>
      simp only [npLaunchShell, Option.mem_def] at htext
      split at htext
      · cases htext
      · cases htext
        exact ⟨command, rfl, shellWords_launchText command shell, launchText_length command shell⟩
  · have hlength : args.length + npCountBackslashes args = (doubled args).length := (doubled_length args).symm
    -- The loop starts with the end of the text already written at the buffer's end.
    obtain ⟨hlow, hhigh, writes, hwrites, hsafe⟩ := doubleLoop_spec args
      ⟨Function.update (bufferOf args junk) (args.length + npCountBackslashes args) 0, args.length + npCountBackslashes args,
        [(args.length, args.length + npCountBackslashes args)]⟩ hlength fun i h ↦ by
      have hne : i ≠ args.length + npCountBackslashes args := by omega
      refine (Function.update_of_ne hne _ _).trans ?_
      rw [bufferOf, List.getD_append _ _ _ _ h, List.getD_eq_getElem]
    refine ⟨?_, ?_⟩
    · apply List.ext_getElem
      · rw [List.length_map, List.length_range, List.length_append, List.length_singleton, hlength]
      · intro i h h'
        rw [List.getElem_map, List.getElem_range]
        by_cases hi : i < (doubled args).length
        · rw [List.getElem_append_left hi]
          exact hlow i hi
        · rw [List.length_append, List.length_singleton] at h'
          obtain rfl : i = (doubled args).length := by omega
          rw [List.getElem_concat_length rfl, ← hlength]
          exact (hhigh _ le_rfl).trans (Function.update_self _ _ _)
    · intro w hw
      have hall : (npDoubleBackslashes (bufferOf args junk) args.length (npCountBackslashes args)).writes =
          writes ++ [(args.length, args.length + npCountBackslashes args)] := hwrites
      rw [hall, List.mem_append, List.mem_singleton] at hw
      obtain hw | rfl := hw
      · have hw := hsafe w hw
        simp only at hw
        omega
      · constructor <;> simp only <;> omega

theorem launch_words_and_backslashes_quote :
    ∃ text, npLaunchShell (fun _ ↦ true) (some (ascii "wine 'a b' \"c\"")) none (-1) false = some text ∧
      shellWords text = some [ascii "/bin/sh", ascii "-c", ascii "wine 'a b' \"c\""] := by
  refine ⟨launchText (ascii "wine 'a b' \"c\"") none, rfl, ?_⟩
  obtain ⟨command, hcommand, hwords, -⟩ := (launch_words_and_backslashes (fun _ ↦ true) (some (ascii "wine 'a b' \"c\"")) none
    (-1) false [] fun _ ↦ 0).1 (launchText (ascii "wine 'a b' \"c\"") none) rfl
  cases hcommand
  exact hwords

end NotProton.Hooks
