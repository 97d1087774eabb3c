import NotProton.NtdllPatcher.Image

/-! # Apply — writing a detour and the branches to it into an image (`NtdllPatcher.swift`) -/

open NotProton.Library

namespace NotProton.NtdllPatcher

def machineARM64 : Nat := 0xaa64
def magicPE32Plus : Nat := 0x20b
def sectionName : Bytes := ascii ".npdet" ++ [0, 0]
def sectionSize : Nat := 0x1000
def sectionFlags : Nat := 0x60000020

/-- `guard … else throw StepFailure`. -/
def guard_ (c : Prop) [Decidable c] (detail : String) : Except Failure Unit :=
  if c then .ok () else fail detail

/-- `UInt16(n)` and `UInt32(n)`, which stop the program where `n` does not fit. -/
def exactly (w n : Nat) : Except Failure Nat := if n < 2 ^ w then .ok n else .error .trap

/-! ## Branches -/

def branchLink (hookRVA payloadRVA : Int) (width : Nat) : Except Failure Bytes := do
  guard_ (width = 4) ("A hook site of " ++ toString width ++ " bytes cannot hold a branch and link.")
  let delta := payloadRVA - hookRVA
  guard_ (delta % 4 = 0 ∧ -0x8000000 ≤ delta ∧ delta < 0x8000000)
    ("The detour is " ++ toString delta ++
      " bytes from the hook site, which a branch and link cannot reach.")
  return leBytes 4 (0x94000000 ||| (delta / 4 % 0x4000000).toNat)

def relativeJump (hookRVA caveRVA : Int) (width : Nat) : Except Failure Bytes := do
  guard_ (5 ≤ width) ("A hook site of " ++ toString width ++ " bytes cannot hold a relative jump.")
  let delta := caveRVA - (hookRVA + 5)
  guard_ (-0x80000000 ≤ delta ∧ delta < 0x80000000)
    ("The cave is " ++ toString delta ++
      " bytes from the hook site, which a relative jump cannot reach.")
  return 0xe9 :: leBytes 4 (delta % 0x100000000).toNat ++ List.replicate (width - 5) 0xcc

def branch (patch : NtdllPatch) (hookRVA : Int) (width : Nat) : Except Failure Bytes :=
  if patch.machine = machineARM64 then branchLink hookRVA patch.payloadRVA width
  else relativeJump hookRVA patch.payloadRVA width

/-! ## The headers -/

def readImageBase (magic pe : Nat) (bytes : Bytes) : Except Failure Nat :=
  if magic = magicPE32Plus then u64 bytes (pe + 24 + 24) else u32 bytes (pe + 24 + 28)

def validateHeaders (patch : NtdllPatch) (bytes : Bytes) : Except Failure Unit := do
  let pe ← u32 bytes 0x3c
  let signature ← u32 bytes pe
  guard_ (signature = 0x00004550)
    ("The " ++ patch.arch.rawValue ++ " ntdll has no PE header where its DOS stub points.")
  let machine ← u16 bytes (pe + 4)
  guard_ (machine = patch.machine) ("The " ++ patch.arch.rawValue ++ " ntdll is machine " ++
    hex machine ++ ", expected " ++ hex patch.machine ++ ".")
  let magic ← u16 bytes (pe + 24)
  guard_ (magic = patch.magic) ("The " ++ patch.arch.rawValue ++ " ntdll optional header is " ++
    hex magic ++ ", expected " ++ hex patch.magic ++ ".")
  let imageBase ← readImageBase magic pe bytes
  guard_ (imageBase = patch.imageBase) ("The " ++ patch.arch.rawValue ++ " ntdll is based at " ++
    hex imageBase ++ ", and the detour was linked against " ++ hex patch.imageBase ++ ".")

/-- The section header for the detour. -/
def sectionEntry (caveRVA rawOffset : Nat) : Bytes :=
  -- The last zero is NumberOfRelocations and NumberOfLinenumbers, two bytes each.
  sectionName ++ [sectionSize, caveRVA, sectionSize, rawOffset, 0, 0, 0, sectionFlags].flatMap (leBytes 4)

def appendSection (patch : NtdllPatch) (bytes : Bytes) : Except Failure Bytes := do
  let pe ← u32 bytes 0x3c
  let sections ← u16 bytes (pe + 6)
  let optional := pe + 24
  let optionalSize ← u16 bytes (pe + 20)
  let header := optional + optionalSize + sections * 40
  let fileAlignment ← u32 bytes (optional + 36)
  let imageSize ← u32 bytes (optional + 56)
  let headersSize ← u32 bytes (optional + 60)
  guard_ (patch.caveSize = sectionSize ∧ imageSize = patch.caveRVA)
    ("The " ++ patch.arch.rawValue ++ " ntdll image ends at " ++ hex imageSize ++
      ", and the detour section was pinned at " ++ hex patch.caveRVA ++ ".")
  requireRange header 40 bytes "A header field"
  guard_ (header + 40 ≤ headersSize ∧ ∀ b ∈ slice bytes header 40, b = 0)
    ("The " ++ patch.arch.rawValue ++ " ntdll has no free section header slot for the detour.")
  guard_ (0 < fileAlignment ∧ fileAlignment &&& (fileAlignment - 1) = 0)
    ("The " ++ patch.arch.rawValue ++ " ntdll file alignment " ++ hex fileAlignment ++
      " is not a power of two.")
  let rawOffset ← exactly 32 (Nat.ldiff (bytes.length + fileAlignment - 1) (fileAlignment - 1))
  let bytes := splice bytes header (sectionEntry patch.caveRVA.toNat rawOffset)
  let count ← exactly 16 (sections + 1)
  let bytes := splice bytes (pe + 6) (leBytes 2 count)
  let newSize ← exactly 32 (imageSize + sectionSize)
  let bytes := splice bytes (optional + 56) (leBytes 4 newSize)
  return bytes ++ List.replicate (rawOffset + sectionSize - bytes.length) 0

/-! ## The patch -/

/-- `replaceSubrange`, which stops the program where the range goes past the end. -/
def replaceSubrange (bytes : Bytes) (offset : Nat) (new : Bytes) : Except Failure Bytes :=
  if offset + new.length ≤ bytes.length then .ok (splice bytes offset new) else .error .trap

/-- The image the patch's addresses are looked up in. -/
def place (patch : NtdllPatch) (bytes : Bytes) : Except Failure Bytes :=
  match patch.placement with
  | .section_ => appendSection patch bytes
  | .padding => return bytes

/-- Where a hook's branch goes in the file, and the branch. -/
def hookBranch (patch : NtdllPatch) (bytes : Bytes) (hook : NtdllHook) :
    Except Failure (Nat × Bytes) := do
  let offset ← fileOffset hook.rva bytes "hook site" patch
  requireRange offset hook.stolen.length bytes "The hook site"
  let present := slice bytes offset hook.stolen.length
  guard_ (present = hook.stolen) ("The " ++ patch.arch.rawValue ++ " hook site at " ++ hex hook.rva ++
    " holds " ++ hexBytes present ++ " instead of " ++ hexBytes hook.stolen ++
    ", so the offsets do not belong to this ntdll.")
  let code ← branch patch hook.rva hook.stolen.length
  return (offset, code)

def hookBranches (patch : NtdllPatch) (bytes : Bytes) :
    List NtdllHook → Except Failure (List (Nat × Bytes))
  | [] => return []
  | hook :: hooks => do
      let branch ← hookBranch patch bytes hook
      let branches ← hookBranches patch bytes hooks
      return branch :: branches

def writeBranches (bytes : Bytes) : List (Nat × Bytes) → Except Failure Bytes
  | [] => return bytes
  | branch :: branches => do
      let bytes ← replaceSubrange bytes branch.1 branch.2
      writeBranches bytes branches

/-- The checks on the cave, and the payload's offset. -/
def checkCave (patch : NtdllPatch) (bytes payload : Bytes) : Except Failure Nat := do
  let caveOffset ← fileOffset patch.caveRVA bytes "cave" patch
  let payloadOffset ← fileOffset patch.payloadRVA bytes "payload" patch
  let intoCave := patch.payloadRVA - patch.caveRVA
  guard_ (0 ≤ intoCave) ("The " ++ patch.arch.rawValue ++ " detour goes to " ++ hex patch.payloadRVA ++
    ", below its cave at " ++ hex patch.caveRVA ++ ", so writing it would land in live code.")
  let room := patch.caveSize - intoCave
  guard_ (payload.length ≤ room) ("The " ++ patch.arch.rawValue ++ " detour is " ++
    toString payload.length ++ " bytes and the cave holds " ++ toString room ++
    ", so writing it would overrun into live code.")
  requireRange caveOffset patch.caveSize bytes "The cave"
  guard_ (∀ b ∈ slice bytes caveOffset patch.caveSize.toNat, b = patch.cavePad)
    ("The " ++ patch.arch.rawValue ++ " cave at " ++ hex patch.caveRVA ++
      " is not empty. This ntdll is either already patched or not the build its hash claimed.")
  return payloadOffset

def apply (patch : NtdllPatch) (image payload : Bytes) : Except Failure Bytes := do
  validateHeaders patch image
  let bytes ← place patch image
  let payloadOffset ← checkCave patch bytes payload
  let branches ← hookBranches patch bytes patch.hooks
  let bytes ← replaceSubrange bytes payloadOffset payload
  writeBranches bytes branches

end NotProton.NtdllPatcher
