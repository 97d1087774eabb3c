import NotProton.PrefixState

/-!
# ForeignPrefix — the launch's own look at a prefix's loader (`compat_run.sh`)

`prefix_machine` reads `ntdll.dll` with `od`, whose output groups a short read with zero bytes, and
`refuse_foreign_prefix` compares the machine word as text.  The page's probe is in `PrefixState`.
-/

open NotProton.Library NotProton.PrefixState

namespace NotProton.CompatRun

/-- `od -t u4` on at most four bytes: the number it prints, when there is a byte to print. -/
def odU4 (data : Bytes) : Option Nat := if data = [] then none else some (leNat data)

/-- `od -t x1` with the blanks dropped. -/
def odX1 (data : Bytes) : Bytes := data.flatMap hexByte

/-- `od -t x2` on at most two bytes with the blanks dropped. -/
def odX2 : Bytes → Bytes
  | [] => []
  | [a] => hexByte 0 ++ hexByte a
  | a :: b :: _ => hexByte b ++ hexByte a

/-- What `prefix_machine` prints, or `none` where it returns 1. -/
def prefixMachine (dll : Entry) : Option Bytes :=
  match dll with
  | .missing | .folder | .unreadable => none
  | .file content =>
      match odU4 (pread content 4 60) with
      | none => none
      | some off =>
          if odX1 (pread content 4 off) = ascii "50450000" then some (odX2 (pread content 2 (off + 4)))
          else none

def toolName (machine : Bytes) : Bytes :=
  if machine = ascii "aa64" then ascii "FEX"
  else if machine = ascii "8664" then ascii "Rosetta"
  else ascii "32-bit"

/-- The machine word the launch wants, from the last component of `wine_unix`. -/
def wantedMachine (wineUnix : Bytes) : Bytes :=
  if wineUnix = ascii "aarch64-unix" then ascii "aa64" else ascii "8664"

structure ForeignPrefix where
  have_ : Bytes
  want : Bytes
  hadTool : Bytes
  wantTool : Bytes

/-- The mismatch `refuse_foreign_prefix` asks a rebuild for, or `none` when the launch goes on. -/
def refuseForeignPrefix (dll : Entry) (wineUnix : Bytes) : Option ForeignPrefix :=
  let want := wantedMachine wineUnix
  match prefixMachine dll with
  | none => none
  | some have_ =>
      if have_ = want then none else some ⟨have_, want, toolName have_, toolName want⟩

/-! ## The header both probes read -/

/-- Where the DOS stub says the PE header is, a short word read as if zero bytes followed. -/
def headerOffset (content : Bytes) : Nat := leNat (pread content 4 0x3c)

/-- `PE\0\0` stands where the DOS stub points. -/
def Signed (content : Bytes) : Prop :=
  0x3c < content.length ∧ pread content 4 (headerOffset content) = peSignature

instance (content : Bytes) : Decidable (Signed content) := inferInstanceAs (Decidable (_ ∧ _))

/-- The machine word's bytes, fewer than two at the end of the file. -/
def machineBytes (content : Bytes) : Bytes := pread content 2 (headerOffset content + 4)

def amd64Bytes : Bytes := [0x64, 0x86]
def arm64Bytes : Bytes := [0x64, 0xaa]
def i386Bytes : Bytes := [0x4c, 0x01]

/-- A header the page reads to its end: a whole offset word below the limit and a machine it
knows. -/
def Legible (content : Bytes) : Prop :=
  0x40 ≤ content.length ∧ headerOffset content < peOffsetMax ∧
    (machineBytes content = amd64Bytes ∨ machineBytes content = arm64Bytes ∨
      machineBytes content = i386Bytes)

instance (content : Bytes) : Decidable (Legible content) := inferInstanceAs (Decidable (_ ∧ _ ∧ _))

/-- The bytes of the machine the launch wants. -/
def wantedBytes (wineUnix : Bytes) : Bytes :=
  if wineUnix = ascii "aarch64-unix" then arm64Bytes else amd64Bytes

/-- Every signed header the launch would refuse is one the page reads to its end. -/
def ProbesAgreeOn (dll : Entry) (wineUnix : Bytes) : Prop :=
  ∀ content, dll = .file content → Signed content →
    machineBytes content = wantedBytes wineUnix ∨ Legible content

theorem odX1_eq_signature (data : Bytes) : odX1 data = ascii "50450000" ↔ data = peSignature := by
  have h : ascii "50450000" = odX1 peSignature := by decide
  rw [h]
  exact flatMap_hexByte_injective.eq_iff

theorem pread_length (content : Bytes) (n off : Nat) :
    (pread content n off).length = min n (content.length - off) := by
  simp only [pread, List.length_take, List.length_drop]

/-- The launch's probe answers for every signed header, whatever its offset. -/
theorem prefixMachine_file (content : Bytes) :
    prefixMachine (.file content) =
      if Signed content then some (odX2 (machineBytes content)) else none := by
  have hlen := pread_length content 4 60
  by_cases hshort : content.length ≤ 60
  · have he : pread content 4 60 = [] := List.eq_nil_of_length_eq_zero (by omega)
    have hs : ¬ Signed content := fun h ↦ absurd h.1 (by omega)
    simp only [prefixMachine, odU4, if_pos he, if_neg hs]
  · have he : pread content 4 60 ≠ [] := fun h ↦ by
      rw [h, List.length_nil] at hlen
      omega
    simp only [prefixMachine, odU4, if_neg he, odX1_eq_signature, Signed, headerOffset, machineBytes,
      show 0x3c < content.length by omega, true_and]

theorem machineBytes_length (content : Bytes) : (machineBytes content).length ≤ 2 := by
  rw [machineBytes, pread_length]
  omega

theorem odX2_eq_wanted {data : Bytes} (h : data.length ≤ 2) (wineUnix : Bytes) :
    odX2 data = wantedMachine wineUnix ↔ data = wantedBytes wineUnix := by
  have hw : wantedMachine wineUnix = odX2 (wantedBytes wineUnix) := by
    unfold wantedMachine wantedBytes
    split <;> decide
  have hb : ∃ y, wantedBytes wineUnix = [0x64, y] ∧ y ≠ 0 := by
    unfold wantedBytes
    split
    · exact ⟨0xaa, rfl, by decide⟩
    · exact ⟨0x86, rfl, by decide⟩
  obtain ⟨y, hy, hy0⟩ := hb
  rw [hw, hy]
  match data, h with
  | [], _ => simp [odX2, hexByte]
  | [a], _ =>
    constructor
    · intro e
      obtain ⟨h0, -⟩ := List.append_inj (show hexByte 0 ++ _ = hexByte y ++ _ from e) rfl
      exact absurd (hexByte_injective h0).symm hy0
    · intro e
      simp at e
  | [a, b], _ =>
    constructor
    · intro e
      obtain ⟨hb, ha⟩ := List.append_inj (show hexByte b ++ _ = hexByte y ++ _ from e) rfl
      rw [hexByte_injective hb, hexByte_injective ha]
    · intro e
      rw [e]

/-- The launch refuses a signed header whose machine word is not the wanted one. -/
theorem refuseForeignPrefix_file (content wineUnix : Bytes) :
    (refuseForeignPrefix (.file content) wineUnix).isSome = true ↔
      Signed content ∧ machineBytes content ≠ wantedBytes wineUnix := by
  rw [refuseForeignPrefix, prefixMachine_file]
  by_cases hs : Signed content
  · have hw := odX2_eq_wanted (machineBytes_length content) wineUnix
    rw [if_pos hs]
    by_cases he : machineBytes content = wantedBytes wineUnix
    · have hm := hw.mpr he
      rw [he] at hm
      simp [he, hm]
    · simp [mt hw.mp he, hs, he]
  · simp [hs]

/-! ## What the page makes of the same header -/

theorem pread_prefix {content : Bytes} {n off : Nat} (k : Nat) (hk : k ≤ n) :
    (pread content n off).take k = pread content k off := by
  rw [pread, pread, List.take_take, Nat.min_eq_left hk]

theorem pread_drop {content : Bytes} {n off : Nat} (k : Nat) :
    (pread content n off).drop k = pread content (n - k) (off + k) := by
  rw [pread, pread, List.drop_take, List.drop_drop]

/-- The page reads a machine word exactly when the header is signed and whole. -/
theorem pagePrefixMachine_file (content : Bytes) :
    PrefixState.prefixMachine (.file content) =
      if 0x40 ≤ content.length ∧ headerOffset content < peOffsetMax ∧ Signed content ∧
          (machineBytes content).length = 2 then
        some (leNat (machineBytes content))
      else none := by
  have h4 := pread_length content 4 0x3c
  have h6 := pread_length content 6 (headerOffset content)
  have h2 : (machineBytes content).length = min 2 (content.length - (headerOffset content + 4)) :=
    pread_length content 2 (headerOffset content + 4)
  by_cases hwhole : 0x40 ≤ content.length ∧ headerOffset content < peOffsetMax
  · have hlen : (pread content 4 0x3c).length = 4 := by omega
    have hsig : Signed content ↔ pread content 4 (headerOffset content) = peSignature :=
      and_iff_right (by omega)
    have hsix : (pread content 6 (headerOffset content)).length = 6 ↔
        (machineBytes content).length = 2 := by omega
    have hoff : leNat (pread content 4 60) = headerOffset content := rfl
    simp only [PrefixState.prefixMachine, hlen, true_and, hoff, if_true, hsix, hwhole,
      pread_prefix 4 (by omega : 4 ≤ 6), pread_drop 4, hsig]
    exact if_congr and_comm rfl rfl
  · rw [if_neg fun h ↦ hwhole ⟨h.1, h.2.1⟩]
    have hno : ¬ ((pread content 4 0x3c).length = 4 ∧ leNat (pread content 4 0x3c) < peOffsetMax) :=
      fun h ↦ hwhole ⟨by omega, h.2⟩
    simp only [PrefixState.prefixMachine, if_neg hno]

/-- The bytes of a known machine, and the architecture the page calls it. -/
theorem machineArch_bytes {content : Bytes} (h : (machineBytes content).length = 2) :
    machineArch (leNat (machineBytes content)) =
      if machineBytes content = amd64Bytes then ascii "rosetta"
      else if machineBytes content = arm64Bytes then ascii "fex"
      else if machineBytes content = i386Bytes then ascii "32-bit"
      else [] := by
  have hword : ∀ known : Bytes, known.length = 2 →
      (leNat (machineBytes content) = leNat known ↔ machineBytes content = known) :=
    fun known hk ↦ ⟨leNat_inj (h.trans hk.symm), fun e ↦ by rw [e]⟩
  have hamd := hword amd64Bytes rfl
  have harm := hword arm64Bytes rfl
  have h386 := hword i386Bytes rfl
  rw [show leNat amd64Bytes = machineAmd64 from rfl] at hamd
  rw [show leNat arm64Bytes = machineArm64 from rfl] at harm
  rw [show leNat i386Bytes = machineI386 from rfl] at h386
  simp only [machineArch, hamd, harm, h386]

/-! ## The two answers -/

/-- The flavors of a tool and the Wine each launches through. -/
inductive LaunchesThrough : Bytes → Bytes → Prop
  | fex : LaunchesThrough (ascii "fex") (ascii "aarch64-unix")
  | rosetta : LaunchesThrough (ascii "rosetta") (ascii "x86_64-unix")

theorem LaunchesThrough.ne_nil {flavor wineUnix : Bytes} (h : LaunchesThrough flavor wineUnix) :
    flavor ≠ [] := by
  cases h <;> decide

/-- A header the page reads names another architecture than the tool's exactly when its machine is
not the wanted one. -/
theorem archOf_legible {content flavor wineUnix : Bytes} (h : LaunchesThrough flavor wineUnix)
    (hs : Signed content) (hl : Legible content) :
    (archOf (.file content) ≠ [] ∧ archOf (.file content) ≠ flavor) ↔
      machineBytes content ≠ wantedBytes wineUnix := by
  obtain ⟨hlen, hoff, hmachine⟩ := hl
  have htwo : (machineBytes content).length = 2 := by
    rcases hmachine with e | e | e <;> rw [e] <;> rfl
  rw [archOf, pagePrefixMachine_file, if_pos ⟨hlen, hoff, hs, htwo⟩, Option.map_some,
    Option.getD_some, machineArch_bytes htwo]
  rcases hmachine with e | e | e <;> rw [e] <;> cases h <;> decide

/-- A signed header the page does not read to its end has no architecture there. -/
theorem archOf_not_legible {content : Bytes} (hl : ¬ Legible content) :
    archOf (.file content) = [] := by
  rw [archOf, pagePrefixMachine_file]
  split
  next hread =>
    obtain ⟨hlen, hoff, -, htwo⟩ := hread
    rw [Option.map_some, Option.getD_some, machineArch_bytes htwo]
    have hunknown := fun known ↦ hl ⟨hlen, hoff, known⟩
    rw [if_neg fun e ↦ hunknown (.inl e), if_neg fun e ↦ hunknown (.inr (.inl e)),
      if_neg fun e ↦ hunknown (.inr (.inr e))]
  next => rfl

theorem archOf_not_signed {content : Bytes} (hs : ¬ Signed content) :
    archOf (.file content) = [] := by
  rw [archOf, pagePrefixMachine_file, if_neg fun h ↦ hs h.2.2.1]
  rfl

/-- The page and the launch agree about a prefix exactly when every signed loader the launch would
refuse is one the page can read. -/
theorem needsRebuild_iff_refused_iff {h : Host} {appid : Nat} {tool : Option Bytes} {roots : Roots}
    {compatdata wineUnix : Bytes}
    (hfound : findCompatdata h appid (readLibraries h roots.steamRoot) = some compatdata)
    (hruns : LaunchesThrough (npPrefixState h appid tool roots).toolFlavor wineUnix) :
    ((npPrefixState h appid tool roots).needsRebuild = true ↔
        (refuseForeignPrefix (h.entry (ntdllPath compatdata)) wineUnix).isSome = true) ↔
      ProbesAgreeOn (h.entry (ntdllPath compatdata)) wineUnix := by
  rw [npPrefixState_needsRebuild hfound hruns.ne_nil]
  cases h.entry (ntdllPath compatdata) with
  | missing | folder | unreadable =>
    simp [archOf, PrefixState.prefixMachine, refuseForeignPrefix, prefixMachine, ProbesAgreeOn]
  | file content =>
    have hagree : ProbesAgreeOn (.file content) wineUnix ↔
        (Signed content → machineBytes content = wantedBytes wineUnix ∨ Legible content) :=
      ⟨fun H ↦ H content rfl, fun H c hc ↦ by cases hc; exact H⟩
    rw [refuseForeignPrefix_file, hagree]
    by_cases hs : Signed content
    · by_cases hl : Legible content
      · simp only [archOf_legible hruns hs hl, hs, hl, true_and, or_true, implies_true]
      · simp only [archOf_not_legible hl, hs, hl, true_and, or_false, true_implies, ne_eq,
          not_true_eq_false, false_and, false_iff, not_not]
    · simp only [archOf_not_signed hs, hs, ne_eq, not_true_eq_false, false_and, false_implies]

/-- A host with one game, prefix and tool: app 7 in the default library `/s`, with `ntdll` as its
loader, and a FEX tool `t` in the support folder `/n`. -/
def oneGame (ntdll : Bytes) : Host where
  entry p :=
    if p = ascii "/s/steamapps/appmanifest_7.acf" then .file []
    else if p = ntdllPath (ascii "/s/steamapps/compatdata/7") then .file ntdll
    else if p = ascii "/n/tools" then .file (ascii "t\tb\tfex\td\n")
    else .missing
  inode _ := none
  serverLocked _ := false
  flockHeld _ := false
  age _ := none
  executable _ := false

def oneGameRoots : Roots := ⟨ascii "/s", ascii "/n", none⟩

/-- A loader with its header right after the DOS stub. -/
def loader (machine : Bytes) : Bytes :=
  List.replicate 60 0 ++ [0x40, 0, 0, 0] ++ peSignature ++ machine

/-- An x86-64 loader under a FEX tool: both ask for a rebuild. -/
theorem needsRebuild_amd64_under_fex :
    ((npPrefixState (oneGame (loader amd64Bytes)) 7 (some (ascii "t")) oneGameRoots).needsRebuild =
          true ↔
        (refuseForeignPrefix (.file (loader amd64Bytes)) (ascii "aarch64-unix")).isSome = true) ↔
      ProbesAgreeOn (.file (loader amd64Bytes)) (ascii "aarch64-unix") :=
  needsRebuild_iff_refused_iff (h := oneGame (loader amd64Bytes))
    (show findCompatdata _ 7 _ = some (ascii "/s/steamapps/compatdata/7") by decide)
    (show LaunchesThrough (ascii "fex") _ from .fex)

/-- A loader for 32-bit ARM under a FEX tool: the launch refuses it and the page says nothing. -/
theorem armnt_refused_without_needsRebuild :
    let h := oneGame (loader [0xc4, 0x01])
    let st := npPrefixState h 7 (some (ascii "t")) oneGameRoots
    findCompatdata h 7 (readLibraries h oneGameRoots.steamRoot) =
        some (ascii "/s/steamapps/compatdata/7") ∧
      st.toolFlavor = ascii "fex" ∧ st.needsRebuild = false ∧
      (refuseForeignPrefix (h.entry (ntdllPath (ascii "/s/steamapps/compatdata/7")))
        (ascii "aarch64-unix")).isSome = true := by
  decide

end NotProton.CompatRun
