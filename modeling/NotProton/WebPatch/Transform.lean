import NotProton.WebPatch.Gates
import NotProton.WebPatch.Settings
import NotProton.Library.Scan

/-!
# Transform — the replacements made in a script (`np_webpatch_transform`)

Occurrences are counted with one pass a pattern and replaced in one pass over all that are enabled.
Allocation is taken to succeed.
-/

open NotProton.Library

namespace NotProton.WebPatch

/-- What a call goes by besides the script. -/
structure Inputs where
  fallbackTool : Bytes
  fexTools : Bytes
  defaults : Bytes
  builds : Bytes
  ready : Bytes
  feats : Bytes
  vars : Bytes
  ourTools : Bytes
  /-- What `np_nativeplatform_javascript` gives when it is asked for a fix. -/
  nativePlatform : Nat → Option Bytes
  texts : PageTexts

/-! ## Patterns -/

def capIndex (c : UInt8) : Option Nat :=
  if 1 ≤ c ∧ c ≤ 8 then some (c.toNat - 1)
  else if 19 ≤ c ∧ c ≤ 22 then some (c.toNat - 19 + 8)
  else none

def markerText (inp : Inputs) (c : UInt8) : Option Bytes :=
  if c = 17 then some inp.fallbackTool
  else if c = 18 then some inp.fexTools
  else if c = 23 then some inp.defaults
  else if c = 24 then some inp.builds
  else if c = 28 then some inp.ourTools
  else if c = 25 then some inp.ready
  else if c = 26 then some inp.feats
  else if c = 27 then some inp.vars
  else none

/-- The text each capture stands for so far. -/
abbrev Caps := Nat → Option Bytes

def noCaps : Caps := fun _ ↦ none

/-- The loop of `match_at`: how much of the text `find` takes. -/
def matchFind (inp : Inputs) : Bytes → Bytes → Caps → Option (Nat × Caps)
  | [], _, caps => some (0, caps)
  | f :: find, s, caps =>
      match markerText inp f with
      | some text =>
          if text.isPrefixOf s then
            (matchFind inp find (s.drop text.length) caps).map fun r ↦ (text.length + r.1, r.2)
          else none
      | none =>
          match capIndex f with
          | none =>
              match s with
              | [] => none
              | c :: s => if c = f then (matchFind inp find s caps).map fun r ↦ (1 + r.1, r.2) else none
          | some ci =>
              let run := s.takeWhile isIdentChar
              if run = [] ∨ run.head?.any isDigit then none
              else
                match caps ci with
                | some text =>
                    if run = text then
                      (matchFind inp find (s.drop run.length) caps).map fun r ↦ (run.length + r.1, r.2)
                    else none
                | none =>
                    (matchFind inp find (s.drop run.length) (Function.update caps ci (some run))).map
                      fun r ↦ (run.length + r.1, r.2)

def matchAt (inp : Inputs) (find : Bytes) : Matcher UInt8 Caps := fun prev s ↦
  match find, s with
  | f :: _, c :: _ =>
      if capIndex f = none ∧ markerText inp f = none ∧ c ≠ f then none
      else if (capIndex f).isSome ∧ prev.any (fun p ↦ isIdentChar p || p == 46) then none
      else
        match matchFind inp find s noCaps with
        | some (0, _) => none
        | r => r
  | _, _ => none

/-- Whether `mark_start` marks a byte. -/
def startsWith (inp : Inputs) (find : Bytes) (c : UInt8) : Bool :=
  match find with
  | [] => c = 0
  | f :: _ =>
      if (markerText inp f).isSome then true
      else if (capIndex f).isSome then isIdentChar c && !isDigit c
      else c = f

-- The text up to the first capture or input, which `memmem` looks for.
def literalStart (inp : Inputs) (find : Bytes) : Bytes :=
  find.takeWhile fun f ↦ capIndex f = none ∧ markerText inp f = none

def countFrom (inp : Inputs) (find : Bytes) : Option UInt8 → Nat → Bytes → Nat
  | _, _, [] => 0
  | _, k + 1, c :: s => countFrom inp find (some c) k s
  | prev, 0, c :: s =>
      -- `memmem` goes on to the next place the literal text stands.
      if (literalStart inp find).isPrefixOf (c :: s) then
        match matchAt inp find prev (c :: s) with
        | some h => 1 + countFrom inp find (some c) (h.1 - 1) s
        | none => countFrom inp find (some c) 0 s
      else countFrom inp find (some c) 0 s

def countMatches (inp : Inputs) (src find : Bytes) : Nat := countFrom inp find none 0 src

/-- `out_expand`. -/
def outExpand (inp : Inputs) : Bytes → Caps → Option Bytes
  | [], _ => some []
  | r :: replace, caps =>
      match markerText inp r with
      | some text => (outExpand inp replace caps).map (text ++ ·)
      | none =>
          match capIndex r with
          | none => (outExpand inp replace caps).map (r :: ·)
          | some ci =>
              match caps ci with
              | none => none
              | some text => (outExpand inp replace caps).map (text ++ ·)

/-! ## Steam's component barrel -/

/-- The object around a place where the first component is named, from its brace to its brace. -/
def barrelAt (src : Bytes) (at_ : Nat) : Option Bytes :=
  let before := (((src.take at_).reverse.take 16384).takeWhile fun c ↦ c ≠ 123 ∧ c ≠ 125).reverse
  let after := ((src.drop at_).take 16384).takeWhile fun c ↦ c ≠ 125
  if (src.take at_).reverse[before.length]? = some 123 ∧ src[at_ + after.length]? = some 125 then
    some (123 :: before ++ after ++ [125])
  else none

def findIn (s want : Bytes) : Bool := s.tails.any fun t ↦ want.isPrefixOf t

def namesAll (object : Bytes) : Bool :=
  npCxBarrelNames.all fun name ↦
    findIn object.dropLast (ascii "\x7b" ++ name ++ ascii ":()=>") ||
      findIn object.dropLast (ascii "," ++ name ++ ascii ":()=>")

/-- `find_barrel`: the first object that names every component. -/
def findBarrel (src : Bytes) : Option Bytes :=
  (List.range src.length).findSome? fun at_ ↦
    if (ascii "XY:()=>").isPrefixOf (src.drop at_) then (barrelAt src at_).filter namesAll else none

/-! ## What is enabled -/

/-- A pattern found exactly as often as it is expected. -/
def isOn (inp : Inputs) (src : Bytes) (g : Gate) : Bool := countMatches inp src g.find = g.expect

/-- What is replaced in a script, and the platform lists that go ahead of it. -/
structure Plan where
  shape : Option UiShape
  gates : List Gate
  fixes : List Gate
  library : List Gate
  nativeMacJs : Option Bytes

def Plan.enabled (p : Plan) : List Gate := p.gates ++ p.fixes ++ p.library

/-- The one shape whose probe occurs, with `none` where both do. -/
def findShape (inp : Inputs) (src : Bytes) : Option (Option UiShape) :=
  match gShapes.filter fun shape ↦ countMatches inp src shape.probe ≠ 0 with
  | [] => some none
  | [shape] => some (some shape)
  | _ => none

/-- `settle_page`. -/
def settlePage (shapeGates : List Gate) (src : Bytes) (on_ : List Gate) : List Gate :=
  let pages := shapeGates.filter fun g ↦ g.optional = .page
  let pageIn := pages.any fun g ↦ g ∈ on_
  let pageMissing := pages.any fun g ↦ g ∉ on_
  if pageIn ∧ (pageMissing ∨ findBarrel src = none) then on_.filter fun g ↦ g.optional ≠ .page
  else on_

/-- The gates of a shape that are on, or none where one that is needed is not. -/
def shapeGates (inp : Inputs) (src : Bytes) (gates : List Gate) : Option (List Gate) :=
  if gates.any fun g ↦ g.optional = .required ∧ ¬isOn inp src g then none
  else some (settlePage gates src (gates.filter (isOn inp src)))

/-- The platform lists, asked for again with each of the two fixes that is on. -/
def nativeMacJs (inp : Inputs) (native updated : Bool) : Option Bytes :=
  if updated then inp.nativePlatform npUpdatedNativeMacFilterFix
  else if native then inp.nativePlatform npNativeMacFilterFix
  else none

/-- The library filters to add: all of them with one of the toolbars, or none. -/
def libraryGates (inp : Inputs) (src : Bytes) (filters : List Gate) : List Gate :=
  let rest := filters.take npLibraryToolbar
  let toolbars := (filters.drop npLibraryToolbar).filter (isOn inp src)
  if rest.all (isOn inp src) ∧ toolbars.length = 1 then rest ++ toolbars else []

def plan (inp : Inputs) (src : Bytes) : Option Plan :=
  match findShape inp src with
  | none => none
  | some shape =>
      let fixes := gFixes inp.texts
      let filters := fixes.drop npNativeMacFilterFix
      let native := (filters[0]?).any (isOn inp src)
      let updated := (filters[1]?).any (isOn inp src)
      let js := nativeMacJs inp native updated
      let filters := if js = none then [] else filters.filter (isOn inp src)
      let fixes := (fixes.take npNativeMacFilterFix).filter (isOn inp src) ++ filters
      let library := if filters = [] then [] else libraryGates inp src (gLibraryFilters inp.texts)
      match shape with
      | none => if fixes = [] then none else some ⟨none, [], fixes, library, js⟩
      | some shape =>
          match shapeGates inp src (shape.gates inp.texts) with
          | none => none
          | some gates => some ⟨some shape, gates, fixes, library, js⟩

/-! ## The pass -/

/-- The loop over the script. -/
def emit (inp : Inputs) (gates : List Gate) : Option UInt8 → Nat → Bytes → Option Bytes
  | _, _, [] => some []
  | _, k + 1, c :: s => emit inp gates (some c) k s
  | prev, 0, c :: s =>
      -- A byte nothing starts with goes out without a look at the patterns.
      if gates.any fun g ↦ startsWith inp g.find c then
        match firstMatch (fun g : Gate ↦ matchAt inp g.find) gates prev (c :: s) with
        | some (u, g, caps) =>
            (outExpand inp g.replace caps).bind fun text ↦
              (emit inp gates (some c) (u - 1) s).map (text ++ ·)
        | none => (emit inp gates (some c) 0 s).map (c :: ·)
      else (emit inp gates (some c) 0 s).map (c :: ·)

/-- The platform lists and the shortcut check that go ahead of the script. -/
def Plan.preamble (p : Plan) : Bytes :=
  match p.nativeMacJs with
  | none => []
  | some js => js ++ npRunsExeJs

def transform (inp : Inputs) (src : Bytes) : Option Bytes :=
  (plan inp src).bind fun p ↦ (emit inp p.enabled none 0 src).map (p.preamble ++ ·)

/-- What `*out_shape` is set to, also where the script is then left alone. -/
def outShape (inp : Inputs) (src : Bytes) : Option Bytes :=
  match findShape inp src with
  | some (some shape) => some shape.name
  | _ => none

end NotProton.WebPatch
