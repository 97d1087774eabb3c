import NotProton.Library.PackedText
import NotProton.WebPatch.Plugins

/-!
# Record — a descriptor's fields in one buffer (`conf.c`)

A record keeps its fields as names and values one behind the other.  `strtod` and what is done with its numbers are a
parameter, `Doubles`.
-/

open NotProton.Library NotProton.WebPatch

namespace NotProton.Conf

def npConfLine : Nat := 2048
def npConfIdMax : Nat := 192
def npConfRecBuf : Nat := 4096
def npConfRecordsMax : Nat := 32

inductive ConfKind
  | plugin
  | variant
  deriving DecidableEq

/-- The `NP_CONF_` codes of a refusal. -/
inductive ConfCode
  | unreadable
  | lineLong
  | noHeader
  | badId
  | dupId
  | unknown
  | dupField
  | empty
  | tab
  | required
  | badValue
  | limit
  | badType
  | sliderShape
  | badDefault
  deriving DecidableEq

structure ConfSpec where
  name : Bytes
  most : Nat
  required : Bool

def kPlugin : List ConfSpec :=
  [⟨ascii "label", 1, true⟩, ⟨ascii "description", 1, false⟩, ⟨ascii "description_on", 16, false⟩,
    ⟨ascii "section", 1, false⟩, ⟨ascii "on", 1, false⟩, ⟨ascii "off", 1, false⟩, ⟨ascii "depends", 1, false⟩,
    ⟨ascii "requires", 4, false⟩, ⟨ascii "inject", 1, false⟩, ⟨ascii "env", 16, false⟩, ⟨ascii "overrides", 1, false⟩,
    ⟨ascii "stage", 1, false⟩, ⟨ascii "tools", 8, false⟩, ⟨ascii "type", 1, false⟩, ⟨ascii "choice", 16, false⟩,
    ⟨ascii "min", 1, false⟩, ⟨ascii "max", 1, false⟩, ⟨ascii "step", 1, false⟩, ⟨ascii "default", 1, false⟩,
    ⟨ascii "suffix", 1, false⟩]

def kVariant : List ConfSpec :=
  [⟨ascii "label", 1, false⟩, ⟨ascii "variant", 1, false⟩, ⟨ascii "src", 1, true⟩, ⟨ascii "dst", 1, true⟩,
    ⟨ascii "build", 8, false⟩, ⟨ascii "remove", 32, false⟩]

def ConfKind.specs : ConfKind → List ConfSpec
  | .plugin => kPlugin
  | .variant => kVariant

def confSpec (kind : ConfKind) (name : Bytes) : Option ConfSpec := kind.specs.find? (·.name = name)

/-! ## The buffer -/

/-- `np_conf_rec_t` -/
structure ConfRec where
  id : Bytes
  kv : Bytes
  nkv : Nat
  kvlen : Nat

/-- A record after `memset`. -/
def ConfRec.zero : ConfRec := ⟨[], List.replicate npConfRecBuf 0, 0, 0⟩

/-- The place behind as many fields. -/
def skipFields (kv : Bytes) : Nat → Nat → Option Nat
  | 0, p => some p
  | i + 1, p => do
      let name ← cStringAt kv p
      let value ← cStringAt kv (p + name.length + 1)
      skipFields kv i (p + name.length + 1 + value.length + 1)

/-- `np_conf_next`: the field of an iterator and the iterator after it, `some none` where there are no more. -/
def npConfNext (r : ConfRec) (iter : Nat) : Option (Option (Bytes × Bytes × Nat)) :=
  if iter ≥ r.nkv then some none
  else do
    let p ← skipFields r.kv iter 0
    let name ← cStringAt r.kv p
    let value ← cStringAt r.kv (p + name.length + 1)
    some (some (name, value, iter + 1))

/-- The fields from an iterator on, at most so many. -/
def npConfWalk (r : ConfRec) : Nat → Nat → Option Fields
  | 0, _ => some []
  | n + 1, iter => do
      match ← npConfNext r iter with
      | none => some []
      | some (name, value, iter) => (npConfWalk r n iter).map ((name, value) :: ·)

/-- What `while (np_conf_next(rec, &it, &n, &v))` goes through. -/
def npConfFields (r : ConfRec) : Option Fields := npConfWalk r (r.nkv + 1) 0

/-- The two writes of a field. -/
def confPush (r : ConfRec) (name value : Bytes) : Option ConfRec := do
  let kv ← memcpy r.kv r.kvlen (name ++ [0])
  let kv ← memcpy kv (r.kvlen + (name.length + 1)) (value ++ [0])
  some { r with kv := kv, kvlen := r.kvlen + (name.length + 1) + (value.length + 1), nkv := r.nkv + 1 }

/-! ## The schema -/

def confSpace (c : UInt8) : Bool := c == 32 || (9 ≤ c && c ≤ 13)

def confTrim (v : Bytes) : Bytes := v.rdropWhile confSpace

/-- `conf_id_ok` -/
def confIdOk : ConfKind → Bytes → Bool
  | .plugin, id => WebPatch.confIdOk id
  | .variant, id =>
      id.length ≤ 64 && id ≠ [] && (id.head?.any fun c ↦ isUpper c || isLower c || isDigit c) && id.all isToolByte

/-- The C library's numbers: `strtod`, `isfinite` and the comparisons. -/
structure Doubles where
  Double : Type
  strtod : Bytes → Double
  isfinite : Double → Bool
  lt : Double → Double → Bool
  le : Double → Double → Bool
  zero : Double

def skipSign : Bytes → Bytes
  | 43 :: s => s
  | 45 :: s => s
  | s => s

/-- The text behind an exponent, if it is one. -/
def skipExponent : Bytes → Option Bytes
  | c :: s =>
      if c = 101 ∨ c = 69 then
        let s := skipSign s
        if s.head?.any isDigit then some (s.dropWhile isDigit) else none
      else some (c :: s)
  | [] => some []

def npConfNum (d : Doubles) (v : Bytes) : Bool :=
  let s := skipSign v
  let int := s.takeWhile isDigit
  let s := s.dropWhile isDigit
  let frac := if s.head? = some 46 then (s.drop 1).takeWhile isDigit else []
  let s := if s.head? = some 46 then (s.drop 1).dropWhile isDigit else s
  int.length + frac.length ≠ 0 && skipExponent s = some [] && d.isfinite (d.strtod v)

/-- The value of `np_conf_choice`. -/
def npConfChoice (v : Bytes) : Bytes := confTrim (splitAt 61 v).1

def confChoiceHas (kv : Fields) (want : Bytes) : Bool :=
  (npConfAll kv (ascii "choice")).any fun v ↦ npConfChoice v = want

def confEnvOk (v : Bytes) : Bool :=
  match splitAt 61 v with
  | (name, some _) =>
      name ≠ [] && (name.head?.any fun c ↦ isUpper c || c == 95) && name.all fun c ↦ isUpper c || isDigit c || c == 95
  | (_, none) => false

def confRelOk (v : Bytes) (mayBeTop : Bool) : Bool :=
  v.head? ≠ some 47 && !(v.tails.any (ascii "..").isPrefixOf) && (mayBeTop || v.any fun c ↦ c != 47 && c != 46)

def confBuildOk (v : Bytes) : Bool := v.all fun c ↦ isUpper c || isLower c || isDigit c || c == 46 || c == 45

/-- The field a variant's loop refuses. -/
def variantBadField (f : Bytes × Bytes) : Option Bytes :=
  if f.1 = ascii "remove" ∧ confRelOk f.2 false = false then some (ascii "remove")
  else if f.1 = ascii "build" ∧ confBuildOk f.2 = false then some (ascii "build")
  else none

/-- The field a plugin's loop refuses. -/
def pluginBadField (f : Bytes × Bytes) : Option Bytes :=
  if f.1 = ascii "env" ∧ confEnvOk f.2 = false then some (ascii "env")
  else if f.1 = ascii "choice" ∧ npConfChoice f.2 = [] then some (ascii "choice")
  else if f.1 = ascii "tools" ∧ confToolOk f.2 = false then some (ascii "tools")
  else none

abbrev Refusal := ConfCode × Option Bytes

/-- The rules of a slider that is a range. -/
def confRange (d : Doubles) (mn mx : Bytes) (step dflt : Option Bytes) : Option Refusal :=
  if !npConfNum d mn then some (.badValue, some (ascii "min"))
  else if !npConfNum d mx || d.le (d.strtod mx) (d.strtod mn) then some (.badValue, some (ascii "max"))
  else if step.any fun step ↦ !npConfNum d step || d.le (d.strtod step) d.zero then
    some (.badValue, some (ascii "step"))
  else if dflt.any fun dflt ↦ !npConfNum d dflt || d.lt (d.strtod dflt) (d.strtod mn) || d.lt (d.strtod mx) (d.strtod dflt) then
    some (.badDefault, none)
  else none

/-- The rules of a plugin's `type`. -/
def confType (d : Doubles) (kv : Fields) (type : Bytes) : Option Refusal :=
  let values := (npConfAll kv (ascii "choice")).length
  let mn := npConfGet kv (ascii "min")
  let mx := npConfGet kv (ascii "max")
  let dflt := npConfGet kv (ascii "default")
  if type = ascii "choice" then if values = 0 then some (.required, some (ascii "choice")) else none
  else if type ≠ ascii "slider" then some (.badType, some type)
  else if values ≠ 0 ∧ (mn.isSome ∨ mx.isSome) ∨ values = 0 ∧ ¬(mn.isSome ∧ mx.isSome) ∨ values = 1 then
    some (.sliderShape, none)
  else if values ≠ 0 then
    if dflt.any fun dflt ↦ !confChoiceHas kv dflt then some (.badDefault, none) else none
  else confRange d (mn.getD []) (mx.getD []) (npConfGet kv (ascii "step")) dflt

def confSchema (d : Doubles) (kind : ConfKind) (kv : Fields) : Option Refusal :=
  match kind.specs.find? fun s ↦ s.required && (npConfGet kv s.name).isNone with
  | some s => some (.required, some s.name)
  | none =>
      match kind with
      | .variant =>
          -- `dst` is there, since the table requires it
          if confRelOk ((npConfGet kv (ascii "dst")).getD []) true = false then some (.badValue, some (ascii "dst"))
          else (kv.findSome? variantBadField).map fun name ↦ (.badValue, some name)
      | .plugin =>
          match kv.findSome? pluginBadField with
          | some name => some (.badValue, some name)
          | none =>
              if (npConfGet kv (ascii "depends")).any fun v ↦ !confIdOk .plugin v then
                some (.badValue, some (ascii "depends"))
              else if (npConfGet kv (ascii "section")).any (· ≠ ascii "dev") then
                some (.badValue, some (ascii "section"))
              else (npConfGet kv (ascii "type")).bind (confType d kv)

/-! ## Fields in a buffer -/

def packFields (kv : Fields) : Bytes := pack (kv.flatMap fun f ↦ [f.1, f.2])

theorem packFields_nil : packFields [] = [] := rfl

theorem packFields_append (kv kv' : Fields) : packFields (kv ++ kv') = packFields kv ++ packFields kv' := by
  rw [packFields, List.flatMap_append, pack_append]
  rfl

theorem packFields_cons (f : Bytes × Bytes) (kv : Fields) :
    packFields (f :: kv) = f.1 ++ 0 :: (f.2 ++ 0 :: packFields kv) := by
  rw [packFields, List.flatMap_cons, List.cons_append, List.singleton_append, pack_cons, pack_cons]
  rfl

theorem packFields_cons_length (f : Bytes × Bytes) (kv : Fields) :
    (packFields (f :: kv)).length = f.1.length + 1 + (f.2.length + 1) + (packFields kv).length := by
  rw [packFields_cons, List.length_append, List.length_cons, List.length_append, List.length_cons]
  omega

/-- The strings of a field: a name and a value that is not empty. -/
def PlainField (f : Bytes × Bytes) : Prop := 0 ∉ f.1 ∧ 0 ∉ f.2 ∧ f.2 ≠ []

/-- A record that holds these fields. -/
structure Packs (r : ConfRec) (kv : Fields) : Prop where
  size : r.kv.length = npConfRecBuf
  nkv : r.nkv = kv.length
  kvlen : r.kvlen = (packFields kv).length
  text : ∃ rest, r.kv = packFields kv ++ rest
  plain : ∀ f ∈ kv, PlainField f

theorem Packs.fits {r : ConfRec} {kv : Fields} (h : Packs r kv) : r.kvlen ≤ npConfRecBuf := by
  obtain ⟨rest, htext⟩ := h.text
  have hsize := h.size
  rw [htext, List.length_append] at hsize
  have hlen := h.kvlen
  omega

theorem packs_zero : Packs ConfRec.zero [] where
  size := List.length_replicate
  nkv := rfl
  kvlen := rfl
  text := ⟨ConfRec.zero.kv, rfl⟩
  plain := fun _ hf ↦ absurd hf List.not_mem_nil

/-- A record that starts anew keeps its buffer. -/
theorem Packs.reset {r : ConfRec} {kv : Fields} (h : Packs r kv) (id : Bytes) :
    Packs { r with id := id, nkv := 0, kvlen := 0 } [] where
  size := h.size
  nkv := rfl
  kvlen := rfl
  text := ⟨r.kv, rfl⟩
  plain := fun _ hf ↦ absurd hf List.not_mem_nil

theorem Packs.push {r : ConfRec} {kv : Fields} (h : Packs r kv) {name value : Bytes} (hf : PlainField (name, value))
    (hroom : r.kvlen + name.length + value.length + 2 ≤ npConfRecBuf) :
    ∃ r', confPush r name value = some r' ∧ r'.id = r.id ∧ Packs r' (kv ++ [(name, value)]) := by
  obtain ⟨rest, htext⟩ := h.text
  have hsize := h.size
  have hkvlen := h.kvlen
  rw [htext, List.length_append] at hsize
  -- The two pieces of the buffer that the name and the value go over.
  obtain ⟨a, rest, rfl, ha, hrest⟩ := exists_append_of_length (show rest.length =
    (name.length + 1) + (rest.length - (name.length + 1)) by omega)
  rw [List.length_append] at hsize hrest
  obtain ⟨b, rest, rfl, hb, -⟩ := exists_append_of_length (show rest.length =
    (value.length + 1) + (rest.length - (value.length + 1)) by omega)
  rw [List.length_append] at hsize
  have hname : memcpy r.kv r.kvlen (name ++ [0]) = some (packFields kv ++ (name ++ [0] ++ (b ++ rest))) := by
    rw [htext]
    exact memcpy_append hkvlen (by rw [ha, List.length_append, List.length_singleton])
  have hvalue : memcpy (packFields kv ++ (name ++ [0] ++ (b ++ rest))) (r.kvlen + (name.length + 1)) (value ++ [0]) =
      some (packFields kv ++ (name ++ [0]) ++ (value ++ [0] ++ rest)) := by
    rw [← List.append_assoc]
    apply memcpy_append
    · rw [hkvlen, List.length_append, List.length_append, List.length_singleton]
    · rw [hb, List.length_append, List.length_singleton]
  have hpacked : packFields (kv ++ [(name, value)]) = packFields kv ++ (name ++ [0]) ++ (value ++ [0]) := by
    rw [packFields_append, packFields_cons, packFields_nil]
    simp only [List.append_assoc, List.singleton_append]
  have hpush : confPush r name value = some
      { r with
        kv := packFields kv ++ (name ++ [0]) ++ (value ++ [0] ++ rest)
        kvlen := r.kvlen + (name.length + 1) + (value.length + 1)
        nkv := r.nkv + 1 } := by
    rw [confPush, hname, Option.bind_eq_bind, Option.bind_some, hvalue]
    rfl
  refine ⟨_, hpush, rfl, ?_, ?_, ?_, ?_, ?_⟩
  · show (packFields kv ++ (name ++ [0]) ++ (value ++ [0] ++ rest)).length = npConfRecBuf
    simp only [List.length_append, List.length_singleton] at hsize ⊢
    omega
  · show r.nkv + 1 = _
    rw [h.nkv, List.length_append, List.length_singleton]
  · show r.kvlen + (name.length + 1) + (value.length + 1) = _
    rw [hpacked, hkvlen]
    simp only [List.length_append, List.length_singleton]
  · exact ⟨rest, by rw [hpacked]; exact (List.append_assoc _ _ _).symm⟩
  · intro f hmem
    rcases List.mem_append.mp hmem with hold | hnew
    · exact h.plain f hold
    · rw [List.mem_singleton.mp hnew]
      exact hf

/-! ## Walking it -/

theorem cStringAt_field {f : Bytes × Bytes} (hf : PlainField f) (a rest : Bytes) (fs : Fields) :
    cStringAt (a ++ (packFields (f :: fs) ++ rest)) a.length = some f.1 ∧
      cStringAt (a ++ (packFields (f :: fs) ++ rest)) (a.length + f.1.length + 1) = some f.2 := by
  constructor
  · rw [packFields_cons, List.append_assoc]
    exact cStringAt_append rfl hf.1
  · have hsplit : a ++ (packFields (f :: fs) ++ rest) = a ++ f.1 ++ [0] ++ (f.2 ++ 0 :: (packFields fs ++ rest)) := by
      rw [packFields_cons]
      simp only [List.append_assoc, List.cons_append, List.nil_append]
    rw [hsplit]
    apply cStringAt_append _ hf.2.1
    rw [List.length_append, List.length_append, List.length_singleton]

theorem skipFields_pack {fs : Fields} (hplain : ∀ f ∈ fs, PlainField f) (front : Fields) (rest : Bytes) :
    skipFields (packFields front ++ (packFields fs ++ rest)) fs.length (packFields front).length =
      some (packFields (front ++ fs)).length := by
  induction fs generalizing front with
  | nil => rw [List.append_nil]; rfl
  | cons f fs ih =>
    obtain ⟨hf, hfs⟩ := List.forall_mem_cons.mp hplain
    obtain ⟨hname, hvalue⟩ := cStringAt_field hf (packFields front) rest fs
    have hmoved : packFields front ++ (packFields (f :: fs) ++ rest) =
        packFields (front ++ [f]) ++ (packFields fs ++ rest) := by
      rw [packFields_append, ← List.singleton_append, packFields_append]
      simp only [List.append_assoc]
    have hnext : (packFields front).length + f.1.length + 1 + f.2.length + 1 = (packFields (front ++ [f])).length := by
      rw [packFields_append, List.length_append, packFields_cons_length]
      show _ = _ + (f.1.length + 1 + (f.2.length + 1) + 0)
      omega
    rw [List.length_cons, skipFields, hname, Option.bind_eq_bind, Option.bind_some, hvalue, Option.bind_some, hnext, hmoved,
      ih hfs (front ++ [f]), List.append_assoc, List.singleton_append]

theorem npConfNext_packs {r : ConfRec} {kv : Fields} (h : Packs r kv) (i : Nat) :
    npConfNext r i = some (kv[i]?.map fun f ↦ (f.1, f.2, i + 1)) := by
  unfold npConfNext
  rw [h.nkv]
  by_cases hi : i < kv.length
  · obtain ⟨rest, htext⟩ := h.text
    have hsplit : kv = kv.take i ++ kv[i] :: kv.drop (i + 1) := by
      rw [List.getElem_cons_drop, List.take_append_drop]
    have hskip : skipFields r.kv i 0 = some (packFields (kv.take i)).length := by
      have hplain : ∀ f ∈ kv.take i, PlainField f := fun f hf ↦ h.plain f (List.mem_of_mem_take hf)
      have := skipFields_pack hplain [] (packFields (kv.drop i) ++ rest)
      rw [List.length_take, Nat.min_eq_left (by omega), packFields_nil, List.nil_append, ← List.append_assoc,
        ← packFields_append, List.take_append_drop] at this
      rw [htext]
      exact this
    obtain ⟨hname, hvalue⟩ := cStringAt_field (h.plain kv[i] (List.getElem_mem hi)) (packFields (kv.take i)) rest
      (kv.drop (i + 1))
    have hmoved : r.kv = packFields (kv.take i) ++ (packFields (kv[i] :: kv.drop (i + 1)) ++ rest) := by
      rw [htext, ← List.append_assoc, ← packFields_append, ← hsplit]
    rw [← hmoved] at hname hvalue
    rw [if_neg (by omega), List.getElem?_eq_getElem hi, Option.map_some, hskip, Option.bind_eq_bind, Option.bind_some, hname,
      Option.bind_eq_bind, Option.bind_some, hvalue]
    rfl
  · rw [if_pos (by omega), List.getElem?_eq_none (by omega), Option.map_none]

theorem npConfWalk_packs {r : ConfRec} {kv : Fields} (h : Packs r kv) {n i : Nat} (hn : kv.length - i < n) :
    npConfWalk r n i = some (kv.drop i) := by
  induction n generalizing i with
  | zero => exact absurd hn (Nat.not_lt_zero _)
  | succ n ih =>
    rw [npConfWalk, npConfNext_packs h, Option.bind_eq_bind, Option.bind_some]
    by_cases hi : i < kv.length
    · rw [List.getElem?_eq_getElem hi, Option.map_some]
      simp only
      rw [ih (by omega), Option.map_some, List.getElem_cons_drop]
    · rw [List.getElem?_eq_none (by omega), Option.map_none, List.drop_eq_nil_of_le (by omega)]

/-- The walk sees the fields that were put in, and stays in the buffer. -/
theorem npConfFields_packs {r : ConfRec} {kv : Fields} (h : Packs r kv) : npConfFields r = some kv := by
  rw [npConfFields, npConfWalk_packs h (by rw [h.nkv]; omega), List.drop_zero]

end NotProton.Conf
