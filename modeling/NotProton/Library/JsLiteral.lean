import NotProton.Library.Text

/-!
# JsLiteral — object, array and string literals of JavaScript

The part of the language that needs no escapes: strings of characters that stand for themselves,
`null`, objects with bare or quoted keys, arrays.
-/

namespace NotProton.Library

/-- A character that stands for itself between double quotes. -/
def isPlainChar (c : UInt8) : Bool := 32 ≤ c && c != 34 && c != 92

/-- A character of an identifier. -/
def isIdentByte (c : UInt8) : Bool := isUpper c || isLower c || isDigit c || c == 95 || c == 36

def isIdent (s : Bytes) : Bool := !s.isEmpty && s.all isIdentByte && !(s.head?.any isDigit)

/-- The text of a string literal without escapes. -/
abbrev PlainText := {s : Bytes // s.all isPlainChar = true}

inductive JsKey
  | bare (name : {s : Bytes // isIdent s = true})
  | quoted (name : PlainText)
  deriving DecidableEq

inductive JsLiteral
  | null
  | string (text : PlainText)
  | object (props : List (JsKey × JsLiteral))
  | array (items : List JsLiteral)

def quote (s : PlainText) : Bytes := 34 :: (s.1 ++ [34])

def JsKey.name : JsKey → Bytes
  | .bare name => name.1
  | .quoted name => name.1

def JsKey.print : JsKey → Bytes
  | .bare name => name.1
  | .quoted name => quote name

mutual

def JsLiteral.print : JsLiteral → Bytes
  | .null => ascii "null"
  | .string text => quote text
  | .object props => 123 :: (printProps props ++ [125])
  | .array items => 91 :: (printItems items ++ [93])

def printProps : List (JsKey × JsLiteral) → Bytes
  | [] => []
  | [(key, value)] => key.print ++ 58 :: value.print
  | (key, value) :: props => key.print ++ 58 :: (value.print ++ 44 :: printProps props)

def printItems : List JsLiteral → Bytes
  | [] => []
  | [item] => item.print
  | item :: items => item.print ++ 44 :: printItems items

end

/-- The text of a string literal and what follows its closing quote. -/
def parseString (s : Bytes) : Option (PlainText × Bytes) :=
  match splitAt 34 s with
  | (text, some rest) => if h : text.all isPlainChar = true then some (⟨text, h⟩, rest) else none
  | (_, none) => none

def parseKey : Bytes → Option (JsKey × Bytes)
  | 34 :: s => (parseString s).map fun r ↦ (.quoted r.1, r.2)
  | s =>
      let name := s.takeWhile isIdentByte
      if h : isIdent name = true then some (.bare ⟨name, h⟩, s.drop name.length) else none

mutual

/-- One literal at the head of a text and what follows it. -/
def parseValue : Nat → Bytes → Option (JsLiteral × Bytes)
  | 0, _ => none
  | _ + 1, 34 :: s => (parseString s).map fun r ↦ (.string r.1, r.2)
  | _ + 1, 123 :: 125 :: s => some (.object [], s)
  | n + 1, 123 :: s => (parseProps n s).map fun r ↦ (.object r.1, r.2)
  | _ + 1, 91 :: 93 :: s => some (.array [], s)
  | n + 1, 91 :: s => (parseItems n s).map fun r ↦ (.array r.1, r.2)
  | _ + 1, 110 :: 117 :: 108 :: 108 :: s => some (.null, s)
  | _ + 1, _ => none

def parseProps : Nat → Bytes → Option (List (JsKey × JsLiteral) × Bytes)
  | 0, _ => none
  | n + 1, s =>
      match parseKey s with
      | some (key, 58 :: s) =>
          match parseValue n s with
          | some (value, 125 :: s) => some ([(key, value)], s)
          | some (value, 44 :: s) => (parseProps n s).map fun r ↦ ((key, value) :: r.1, r.2)
          | _ => none
      | _ => none

def parseItems : Nat → Bytes → Option (List JsLiteral × Bytes)
  | 0, _ => none
  | n + 1, s =>
      match parseValue n s with
      | some (item, 93 :: s) => some ([item], s)
      | some (item, 44 :: s) => (parseItems n s).map fun r ↦ (item :: r.1, r.2)
      | _ => none

end

/-- The literal a text is, if it is one from end to end. -/
def parseLiteral (s : Bytes) : Option JsLiteral :=
  match parseValue s.length s with
  | some (l, []) => some l
  | _ => none

/-! ## Reading back what was printed -/

theorem notMem_of_all_plain {s : Bytes} (h : s.all isPlainChar = true) : (34 : UInt8) ∉ s := by
  intro hm
  exact absurd (List.all_eq_true.mp h 34 hm) (by decide)

theorem parseString_print (s : PlainText) (rest : Bytes) :
    parseString (s.1 ++ 34 :: rest) = some (s, rest) := by
  simp only [parseString, splitAt_append (notMem_of_all_plain s.2), s.2, dite_true]

theorem parseKey_print (k : JsKey) (rest : Bytes) :
    parseKey (k.print ++ 58 :: rest) = some (k, 58 :: rest) := by
  cases k with
  | quoted name =>
    rw [JsKey.print, quote, List.cons_append, List.append_assoc, List.singleton_append, parseKey,
      parseString_print, Option.map_some]
  | bare name =>
    obtain ⟨s, hs⟩ := name
    have hs' := hs
    simp only [isIdent, Bool.and_eq_true, Bool.not_eq_true', List.isEmpty_eq_false_iff] at hs'
    obtain ⟨⟨hne, hall⟩, -⟩ := hs'
    have htake : (s ++ 58 :: rest).takeWhile isIdentByte = s := by
      rw [List.takeWhile_append_of_pos (fun c hc ↦ List.all_eq_true.mp hall c hc),
        List.takeWhile_cons_of_neg (by decide), List.append_nil]
    cases s with
    | nil => exact absurd rfl hne
    | cons c s =>
      have hc : c ≠ 34 := by
        rintro rfl
        exact absurd (List.all_eq_true.mp hall 34 List.mem_cons_self) (by decide)
      rw [List.cons_append] at htake
      simp only [JsKey.print, List.cons_append]
      unfold parseKey
      split
      next heq => cases heq; exact absurd rfl hc
      next =>
        simp only [htake, hs, dite_true]
        congr 2
        simp

theorem JsKey.print_head (k : JsKey) : ∃ c s, k.print = c :: s ∧ c ≠ 125 := by
  cases k with
  | quoted name => exact ⟨34, name.1 ++ [34], rfl, by decide⟩
  | bare name =>
    obtain ⟨s, hs⟩ := name
    cases s with
    | nil => cases hs
    | cons c s =>
      refine ⟨c, s, rfl, ?_⟩
      rintro rfl
      simp [isIdent, isIdentByte, isUpper, isLower, isDigit] at hs

theorem JsLiteral.print_head (l : JsLiteral) : ∃ c s, l.print = c :: s ∧ c ≠ 93 := by
  cases l with
  | null => exact ⟨110, [117, 108, 108], by rw [print]; rfl, by decide⟩
  | string text => exact ⟨34, text.1 ++ [34], by rw [print]; rfl, by decide⟩
  | object props => exact ⟨123, printProps props ++ [125], by rw [print], by decide⟩
  | array items => exact ⟨91, printItems items ++ [93], by rw [print], by decide⟩

/-- What stands after a printed list's first element, the closing bracket in `close`. -/
theorem printProps_cons (key : JsKey) (value : JsLiteral) (ps : List (JsKey × JsLiteral)) :
    printProps ((key, value) :: ps) =
      key.print ++ 58 :: (value.print ++ if ps = [] then [] else 44 :: printProps ps) := by
  cases ps with
  | nil => simp [printProps]
  | cons p ps => rw [printProps, if_neg (List.cons_ne_nil p ps)]; simp

theorem printItems_cons (item : JsLiteral) (is : List JsLiteral) :
    printItems (item :: is) = item.print ++ if is = [] then [] else 44 :: printItems is := by
  cases is with
  | nil => simp [printItems]
  | cons i is => rw [printItems, if_neg (List.cons_ne_nil i is)]; simp

theorem printItems_concat (is : List JsLiteral) (item : JsLiteral) :
    printItems (is ++ [item]) =
      printItems is ++ (if is = [] then [] else [44]) ++ item.print := by
  induction is with
  | nil => simp [printItems]
  | cons i is ih =>
    rw [List.cons_append, printItems_cons, printItems_cons, ih]
    cases is <;> simp [printItems]

/-- Enough fuel for the length of what was printed reads it back and leaves the rest. -/
theorem parse_print (n : Nat) :
    (∀ (l : JsLiteral) (rest : Bytes), l.print.length ≤ n →
      parseValue n (l.print ++ rest) = some (l, rest)) ∧
    (∀ (ps : List (JsKey × JsLiteral)) (rest : Bytes), ps ≠ [] → (printProps ps).length < n →
      parseProps n (printProps ps ++ 125 :: rest) = some (ps, rest)) ∧
    (∀ (is : List JsLiteral) (rest : Bytes), is ≠ [] → (printItems is).length < n →
      parseItems n (printItems is ++ 93 :: rest) = some (is, rest)) := by
  -- On the fuel, for the three parsers at once.
  induction n with
  | zero =>
    refine ⟨fun l rest h ↦ ?_, fun _ _ _ h ↦ absurd h (by omega), fun _ _ _ h ↦ absurd h (by omega)⟩
    obtain ⟨c, s, hl, -⟩ := l.print_head
    rw [hl] at h
    exact absurd h (by simp)
  | succ n ih =>
    obtain ⟨hvalue, hprops, hitems⟩ := ih
    refine ⟨fun l rest h ↦ ?_, fun ps rest hne h ↦ ?_, fun is rest hne h ↦ ?_⟩
    · cases l with
      | null => rw [JsLiteral.print]; rfl
      | string text =>
        rw [JsLiteral.print, quote, List.cons_append, List.append_assoc, List.singleton_append,
          parseValue, parseString_print, Option.map_some]
      | object props =>
        rw [JsLiteral.print] at h ⊢
        rw [List.cons_append, List.append_assoc, List.singleton_append]
        match props with
        | [] => rw [printProps]; rfl
        | (key, value) :: ps =>
          have hp := hprops ((key, value) :: ps) rest (List.cons_ne_nil _ _)
            (by simp only [List.length_cons, List.length_append] at h; omega)
          -- What follows the brace is not the closing one.
          obtain ⟨c, s, hk, hc⟩ := key.print_head
          have hcons : ∃ t, printProps ((key, value) :: ps) = c :: t := by
            rw [printProps_cons, hk]
            exact ⟨_, rfl⟩
          obtain ⟨t, ht⟩ := hcons
          rw [ht, List.cons_append] at hp ⊢
          rw [parseValue]
          · rw [hp, Option.map_some]
          · intro s' e
            exact hc (List.cons.inj e).1
      | array items =>
        rw [JsLiteral.print] at h ⊢
        rw [List.cons_append, List.append_assoc, List.singleton_append]
        match items with
        | [] => rw [printItems]; rfl
        | item :: is =>
          have hp := hitems (item :: is) rest (List.cons_ne_nil _ _)
            (by simp only [List.length_cons, List.length_append] at h; omega)
          -- Nor the closing bracket.
          obtain ⟨c, s, hk, hc⟩ := item.print_head
          have hcons : ∃ t, printItems (item :: is) = c :: t := by
            rw [printItems_cons, hk]
            exact ⟨_, rfl⟩
          obtain ⟨t, ht⟩ := hcons
          rw [ht, List.cons_append] at hp ⊢
          rw [parseValue]
          · rw [hp, Option.map_some]
          · intro s' e
            exact hc (List.cons.inj e).1
    · match ps, hne with
      | (key, value) :: ps, _ =>
        rw [printProps_cons] at h ⊢
        simp only [List.length_append, List.length_cons] at h
        rw [List.append_assoc, List.cons_append, parseProps, parseKey_print, List.append_assoc]
        simp only
        rw [hvalue value _ (by omega)]
        by_cases hps : ps = []
        · simp [hps]
        · rw [if_neg hps] at h ⊢
          simp only [List.length_cons] at h
          simp [hprops ps rest hps (by omega)]
    · match is, hne with
      | item :: is, _ =>
        rw [printItems_cons] at h ⊢
        simp only [List.length_append] at h
        rw [List.append_assoc, parseItems]
        rw [hvalue item _ (by omega)]
        by_cases his : is = []
        · simp [his]
        · rw [if_neg his] at h ⊢
          simp only [List.length_cons] at h
          simp [hitems is rest his (by omega)]

/-- A printed literal reads back as itself. -/
theorem parseLiteral_print (l : JsLiteral) : parseLiteral l.print = some l := by
  have h := (parse_print l.print.length).1 l [] le_rfl
  rw [List.append_nil] at h
  rw [parseLiteral, h]

/-! ## What an object literal makes -/

/-- Assignment to a property: in its place when the object has it, at the end when not. -/
def setProp {α : Type} (o : List (Bytes × α)) (key : Bytes) (value : α) : List (Bytes × α) :=
  if key ∈ o.map Prod.fst then o.map fun p ↦ if p.1 = key then (key, value) else p
  else o ++ [(key, value)]

/-- An object's own properties in the order they were made. -/
def JsLiteral.props : JsLiteral → Option (List (Bytes × JsLiteral))
  | .object ps => some (ps.foldl (fun o p ↦ setProp o p.1.name p.2) [])
  | _ => none

def JsLiteral.prop (l : JsLiteral) (key : Bytes) : Option JsLiteral :=
  l.props.bind fun o ↦ o.lookup key

/-- A key that enumerates ahead of the others. -/
def isArrayIndex (key : Bytes) : Bool :=
  !key.isEmpty && key.all isDigit && (key.length == 1 || !(key.head? == some 48)) &&
    decide (key.foldl (fun n c ↦ 10 * n + (c.toNat - 48)) 0 < 2 ^ 32 - 1)

/-- `Object.keys`. -/
def objectKeys {α : Type} (o : List (Bytes × α)) : List Bytes :=
  let keys := o.map Prod.fst
  (keys.filter isArrayIndex).mergeSort
      (fun a b ↦ decide (a.foldl (fun n c ↦ 10 * n + (c.toNat - 48)) 0 ≤
        b.foldl (fun n c ↦ 10 * n + (c.toNat - 48)) 0)) ++
    keys.filter fun k ↦ !isArrayIndex k

theorem foldl_setProp {α : Type} (ps o : List (Bytes × α)) (h : ((o ++ ps).map Prod.fst).Nodup) :
    ps.foldl (fun o p ↦ setProp o p.1 p.2) o = o ++ ps := by
  induction ps generalizing o with
  | nil => rw [List.foldl_nil, List.append_nil]
  | cons p ps ih =>
    have hp : p.1 ∉ o.map Prod.fst := by
      intro hm
      rw [List.map_append, List.nodup_append] at h
      exact h.2.2 p.1 hm p.1 List.mem_cons_self rfl
    rw [List.foldl_cons, setProp, if_neg hp, ih _ (by simpa using h)]
    simp

/-- The properties of a literal that names each key once. -/
theorem props_object {ps : List (JsKey × JsLiteral)} (h : (ps.map fun p ↦ p.1.name).Nodup) :
    (JsLiteral.object ps).props = some (ps.map fun p ↦ (p.1.name, p.2)) := by
  have hfold := foldl_setProp (ps.map fun p ↦ (p.1.name, p.2)) [] (by
    simpa [List.map_map, Function.comp_def] using h)
  rw [List.foldl_map, List.nil_append] at hfold
  rw [JsLiteral.props, hfold]

theorem objectKeys_of_not_index {α : Type} {o : List (Bytes × α)}
    (h : ∀ p ∈ o, isArrayIndex p.1 = false) : objectKeys o = o.map Prod.fst := by
  have hkey : ∀ k ∈ o.map Prod.fst, isArrayIndex k = false := by
    intro k hk
    obtain ⟨p, hp, rfl⟩ := List.mem_map.mp hk
    exact h p hp
  have hnone : (o.map Prod.fst).filter isArrayIndex = [] :=
    List.filter_eq_nil_iff.mpr fun k hk ↦ by simp [hkey k hk]
  have hall : ((o.map Prod.fst).filter fun k ↦ !isArrayIndex k) = o.map Prod.fst :=
    List.filter_eq_self.mpr fun k hk ↦ by simp [hkey k hk]
  rw [objectKeys]
  simp only [hnone, hall, List.mergeSort_nil, List.nil_append]

end NotProton.Library
