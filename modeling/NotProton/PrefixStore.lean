import NotProton.PrefixState

/-!
# PrefixStore — the app's list of Steam libraries (`PrefixStore.swift`)

A Swift string is the list of its Characters, each by its UTF-8 bytes.  Where a text breaks into
Characters, and which strings are equal, is Unicode's to say and a parameter here.
-/

open NotProton.Library NotProton.PrefixState

namespace NotProton.PrefixStore

/-- Swift's strings, as far as the library list depends on them. -/
structure SwiftText where
  /-- The Characters of a UTF-8 text, `none` for any other. -/
  characters : Bytes → Option (List Bytes)
  flatten : ∀ {text cs}, characters text = some cs → cs.flatten = text
  nonempty : ∀ {text cs}, characters text = some cs → ∀ c ∈ cs, c ≠ []
  /-- Strings are equal when they are canonically equivalent. -/
  canonical : Bytes → Bytes
  canonical_path : ∀ {s}, canonical s = canonical (ascii "path") → s = ascii "path"
  /-- `URL(filePath:).path(percentEncoded: false)` -/
  urlPath : Bytes → Bytes

/-- What `.` leaves out: LF, CR, CR LF, VT, FF, NEL, LS and PS. -/
def isNewline (c : Bytes) : Bool :=
  [[10], [13], [13, 10], [11], [12], [0xc2, 0x85], [0xe2, 0x80, 0xa8], [0xe2, 0x80, 0xa9]].contains c

/-- `((?:[^"\\]|\\.)*)"` at the start of a text: the group and what follows the match.  The two
alternatives share no first Character, so giving one back never helps. -/
def quotedField : List Bytes → Option (List Bytes × List Bytes)
  | [] => none
  | [34] :: cs => some ([], cs)
  | [92] :: [] => none
  | [92] :: c :: cs =>
      if isNewline c then none
      else (quotedField cs).map fun m ↦ ([92] :: c :: m.1, m.2)
  | c :: cs => (quotedField cs).map fun m ↦ (c :: m.1, m.2)

/-- The groups of `line.matches(of:)`, one match after another. -/
def fieldMatches : Nat → List Bytes → List (List Bytes)
  | 0, _ => []
  | _, [] => []
  | fuel + 1, c :: cs =>
      if c = [34] then
        match quotedField cs with
        | some m => m.1 :: fieldMatches fuel m.2
        | none => fieldMatches fuel cs
      else fieldMatches fuel cs

/-- The replacement of one `\\(.)`. -/
def unescape (c : Bytes) : Bytes :=
  if c = [110] then [10] else if c = [116] then [9] else if c = [92] ∨ c = [34] then c else 92 :: c

/-- `replacing` on a field. -/
def unescaped : List Bytes → Bytes
  | [] => []
  | [92] :: c :: cs => if isNewline c then 92 :: unescaped (c :: cs) else unescape c ++ unescaped cs
  | c :: cs => c ++ unescaped cs

def vdfFields (line : List Bytes) : List Bytes := (fieldMatches line.length line).map unescaped

/-- The library a line names. -/
def fieldLibrary (u : SwiftText) (line : List Bytes) : Option Bytes :=
  match vdfFields line with
  | key :: value :: _ =>
      if u.canonical key = u.canonical (ascii "path") ∧ value ≠ [] then some value else none
  | _ => none

/-- The first root of every path, in order. -/
def firstSeen (u : SwiftText) (roots : List Bytes) : List Bytes :=
  (roots.foldl (fun (st : List Bytes × List Bytes) root ↦
    if u.canonical (u.urlPath root) ∈ st.1 then st
    else (u.canonical (u.urlPath root) :: st.1, st.2 ++ [root])) ([], [])).2

/-- The roots of `libraries(vdf:)`; `text` is the file's content where it can be read. -/
def libraries (u : SwiftText) (text : Option Bytes) (userData : Bytes) : List Bytes :=
  match text.bind u.characters with
  | none => [userData]
  | some cs =>
      let roots := ((cs.splitOn [10]).filter (· ≠ [])).filterMap (fieldLibrary u)
      firstSeen u (if roots = [] then [userData] else roots)

end NotProton.PrefixStore
