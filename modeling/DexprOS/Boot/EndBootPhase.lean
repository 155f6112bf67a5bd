import DexprOS.Boot.InitialPageMapSetup
import DexprOS.Library.Dialogue

/-!
# The end of the boot phase

`ExitBootServicesAndGetBuffer` of `EndBootPhase.c`, as a dialogue with the boot services of
the firmware.

The memory map buffer is modelled by its address and by the descriptors that the firmware
wrote into it.  The reply to a call carries whatever the call may write, and the program
reads the part that the call has.
-/

namespace DexprOS
namespace Boot

open Efi Fuel Conversation

section EfiErr

abbrev EfiStatus := UInt64

/-- `EFI_ERROR(a)`: the status is negative as an `INTN`. -/
def efiError (status : EfiStatus) : Bool :=
  decide (2 ^ 63 ≤ status.toNat)

def efiSuccess : EfiStatus := 0
def efiInvalidParameter : EfiStatus := 0x8000000000000000 ||| 2
def efiBufferTooSmall : EfiStatus := 0x8000000000000000 ||| 5

/-- `EFI_ALLOCATE_TYPE`. -/
inductive EfiAllocateType where
  | allocateAnyPages
  | allocateMaxAddress
  | allocateAddress
deriving DecidableEq, Repr

end EfiErr

section Buffers

/-- `DexprOSBoot_PageMapSetupType`. -/
inductive PageMapSetupType where
  | pageMap4Setup
  | pageMap5Setup
  | pageMap4To5Transition
deriving DecidableEq, Repr

/-- `DexprOSBoot_PageMap4To5TransitionData`. -/
structure PageMap4To5TransitionData where
  tmpPageMap4BufferOffset : UInt64
  tmpPageMap4BufferSize : UInt64
  codeRellocBufferOffset : UInt64
  codeRellocBufferSize : UInt64
  codeScratchBufferOffset : UInt64
  codeScratchBufferSize : UInt64
deriving DecidableEq, Repr

/-- `DexprOSBoot_PageMapSetupBuffer`. -/
structure PageMapSetupBuffer where
  pBuffer : UInt64
  bufferSize : UInt64
  pageMapOffset : UInt64
  pageMapSize : UInt64
  transitionData : PageMap4To5TransitionData
deriving DecidableEq, Repr

/-- The variables behind the `pMemoryMap` pointers, with what the buffer holds. -/
structure MemoryMapData where
  memoryMapBuffer : UInt64
  memoryMap : List EfiMemoryDescriptor
  memoryMapSize : UInt64
  memoryMapKey : UInt64
  memoryDescriptorSize : UInt64
  memoryDescriptorVersion : UInt32
deriving DecidableEq, Repr

/-- Where the code that switches to five levels lies, by its two assembly labels. -/
structure SwitchRegion where
  start : UInt64
  stop : UInt64
deriving DecidableEq, Repr

end Buffers

section Calls

/-- The calls to the boot services. -/
inductive BootCall where
  | allocatePages (type : EfiAllocateType) (memoryType : EfiMemoryType) (pages memory : UInt64)
  | freePages (memory pages : UInt64)
  | allocatePool (poolType : EfiMemoryType) (size : UInt64)
  | freePool (buffer : UInt64)
  | getMemoryMap (memoryMapSize memoryMapBuffer : UInt64)
  | exitBootServices (imageHandle mapKey : UInt64)
deriving DecidableEq, Repr

/-- A status, and whatever a call may write through its pointers. -/
structure BootReply where
  status : EfiStatus
  address : UInt64
  memoryMap : List EfiMemoryDescriptor
  memoryMapSize : UInt64
  mapKey : UInt64
  descriptorSize : UInt64
  descriptorVersion : UInt32
deriving DecidableEq, Repr

/-- A return of `GetMemoryMapAndPageMapBuffer`, with the size that it asked for last. -/
structure Returned where
  status : EfiStatus
  memoryMapBuffer : UInt64
  pageMapBuffer : PageMapSetupBuffer
  requiredPageMapSize : UInt64
deriving DecidableEq, Repr

abbrev BootDialogue := Dialogue BootCall BootReply Returned

abbrev BootEvent := Event BootCall BootReply Returned

end Calls

section MemoryMap

/-- The status of the first step of a pass, which is a success when there is nothing to
free. -/
def freeMemoryMapBuffer (memoryMapBuffer : UInt64) : BootDialogue EfiStatus := do
  if memoryMapBuffer ≠ 0 then
    let reply ← .ask (.freePool memoryMapBuffer)
    return reply.status
  else
    return efiSuccess

/-- One pass of the loop of `GetMemoryMap`. -/
def getMemoryMapPass (data : MemoryMapData) :
    BootDialogue (Pass MemoryMapData (EfiStatus × MemoryMapData)) := do
  let status ← freeMemoryMapBuffer data.memoryMapBuffer
  if efiError status then
    return .leave (status, data)
  let reply ← .ask (.allocatePool .loaderData data.memoryMapSize)
  let data := { data with memoryMapBuffer := reply.address }
  if efiError reply.status then
    return .leave (reply.status, data)
  let reply ← .ask (.getMemoryMap data.memoryMapSize data.memoryMapBuffer)
  let data := { data with
    memoryMap := reply.memoryMap
    memoryMapSize := reply.memoryMapSize
    memoryMapKey := reply.mapKey
    memoryDescriptorSize := reply.descriptorSize
    memoryDescriptorVersion := reply.descriptorVersion }
  if reply.status = efiBufferTooSmall then
    return .again { data with
      memoryMapSize := data.memoryMapSize + data.memoryDescriptorSize * 2 }
  else
    return .leave (reply.status, data)

def getMemoryMap (fuel : Nat) (data : MemoryMapData) :
    BootDialogue (EfiStatus × MemoryMapData) :=
  let data :=
    if data.memoryMapSize = 0 then { data with memoryMapSize := 512 } else data
  .loop getMemoryMapPass fuel data

end MemoryMap

section PageMapSizes

variable (memoryMap : List EfiMemoryDescriptor) (framebufferBase framebufferSize : UInt64)

/-- `DEXPROSBOOT_ALIGN(x, a)` for a power of two `a`. -/
def align (x a : UInt64) : UInt64 :=
  (x + a - 1) &&& ~~~ (a - 1)

def pageMap4To5ScratchBufferSize : UInt64 := 128
def pageMap4To5ScratchBufferAlign : UInt64 := 16

/-- The functions below give the filled buffer and the required size. -/
def fillPageMap4Sizes (pageMapBuffer : PageMapSetupBuffer) (fuel : Nat) :
    Option (PageMapSetupBuffer × UInt64) := do
  let mapSize ← calculateInitialPageMap4Size memoryMap framebufferBase framebufferSize fuel
  return ({ pageMapBuffer with pageMapOffset := 0, pageMapSize := mapSize }, mapSize)

def fillPageMap5Sizes (pageMapBuffer : PageMapSetupBuffer) (fuel : Nat) :
    Option (PageMapSetupBuffer × UInt64) := do
  let mapSize ← calculateInitialPageMap5Size memoryMap framebufferBase framebufferSize fuel
  return ({ pageMapBuffer with pageMapOffset := 0, pageMapSize := mapSize }, mapSize)

def fillPageMap4To5SizesBelow4G (pageMapBuffer : PageMapSetupBuffer) (fuel : Nat) :
    Option (PageMapSetupBuffer × UInt64) := do
  let level5Size ← calculateInitialPageMap5Size memoryMap framebufferBase framebufferSize fuel
  let totalSize := align level5Size pageMap4To5ScratchBufferAlign
  return ({ pageMapBuffer with
    pageMapOffset := 0
    pageMapSize := level5Size
    transitionData := { pageMapBuffer.transitionData with
      codeScratchBufferOffset := totalSize
      codeScratchBufferSize := pageMap4To5ScratchBufferSize } },
    totalSize + pageMap4To5ScratchBufferSize)

def fillPageMap4To5SizesAbove4G (region : SwitchRegion) (pageMapBuffer : PageMapSetupBuffer)
    (fuel : Nat) : Option (PageMapSetupBuffer × UInt64) := do
  let level5Size ← calculateInitialPageMap5Size memoryMap framebufferBase framebufferSize fuel
  let tmpPageMap4BufferOffset := align level5Size (UInt64.ofNat initialPageSize)
  let level4Size ← calculateTransitionalPageMap4Size memoryMap fuel
  let codeRellocBufferOffset :=
    align (tmpPageMap4BufferOffset + level4Size) (UInt64.ofNat initialPageSize)
  let codeRellocSize := region.stop - region.start
  let codeScratchBufferOffset :=
    align (codeRellocBufferOffset + codeRellocSize) pageMap4To5ScratchBufferAlign
  return ({ pageMapBuffer with
    pageMapOffset := 0
    pageMapSize := level5Size
    transitionData := {
      tmpPageMap4BufferOffset := tmpPageMap4BufferOffset
      tmpPageMap4BufferSize := level4Size
      codeRellocBufferOffset := codeRellocBufferOffset
      codeRellocBufferSize := codeRellocSize
      codeScratchBufferOffset := codeScratchBufferOffset
      codeScratchBufferSize := pageMap4To5ScratchBufferSize } },
    codeScratchBufferOffset + pageMap4To5ScratchBufferSize)

def fillPageMapSizes (region : SwitchRegion) (pageMapSetupType : PageMapSetupType)
    (pageMapBuffer : PageMapSetupBuffer) (fuel : Nat) : Option (PageMapSetupBuffer × UInt64) :=
  match pageMapSetupType with
  | .pageMap4Setup =>
      fillPageMap4Sizes memoryMap framebufferBase framebufferSize pageMapBuffer fuel
  | .pageMap5Setup =>
      fillPageMap5Sizes memoryMap framebufferBase framebufferSize pageMapBuffer fuel
  | .pageMap4To5Transition =>
      if region.stop < 4294967296 then
        fillPageMap4To5SizesBelow4G memoryMap framebufferBase framebufferSize pageMapBuffer fuel
      else
        fillPageMap4To5SizesAbove4G memoryMap framebufferBase framebufferSize region
          pageMapBuffer fuel

end PageMapSizes

section PageMapBuffer

/-- The status of the first step below, which is a success when there is nothing to free. -/
def freePageMapBuffer (bufferAddress numPreviousPages : UInt64) : BootDialogue EfiStatus := do
  if numPreviousPages ≠ 0 then
    let reply ← .ask (.freePages bufferAddress numPreviousPages)
    return reply.status
  else
    return efiSuccess

/-- The status, and `*pBufferAddress` afterwards. -/
def reAllocPageMapBuffer (bufferAddress numPreviousPages numNewPages : UInt64)
    (pageMapSetupType : PageMapSetupType) : BootDialogue (EfiStatus × UInt64) := do
  let status ← freePageMapBuffer bufferAddress numPreviousPages
  if efiError status then
    return (status, bufferAddress)
  match pageMapSetupType with
  | .pageMap4Setup
  | .pageMap5Setup =>
      let reply ← .ask (.allocatePages .allocateAnyPages .loaderData numNewPages bufferAddress)
      return (reply.status, reply.address)
  | .pageMap4To5Transition =>
      let bufferAddress := 4294967296
      let reply ← .ask (.allocatePages .allocateMaxAddress .loaderData numNewPages bufferAddress)
      return (reply.status, reply.address)

/-- The variables of the loop of `GetMemoryMapAndPageMapBuffer`. -/
structure BufferSearch where
  status : EfiStatus
  numPreviousPages : UInt64
  numNewEfiPages : UInt64
  data : MemoryMapData
  pageMapBuffer : PageMapSetupBuffer
deriving DecidableEq, Repr

variable (framebufferBase framebufferSize : UInt64) (region : SwitchRegion)
variable (pageMapSetupType : PageMapSetupType) (fuel : Nat)

/-- A result of `GetMemoryMapAndPageMapBuffer`, which `note`s it. -/
def returned (status : EfiStatus) (data : MemoryMapData) (pageMapBuffer : PageMapSetupBuffer)
    (requiredPageMapSize : UInt64) :
    BootDialogue (Pass BufferSearch (EfiStatus × MemoryMapData × PageMapSetupBuffer)) :=
  .note ⟨status, data.memoryMapBuffer, pageMapBuffer, requiredPageMapSize⟩
    (return .leave (status, data, pageMapBuffer))

/-- One pass of the loop.  The status of `ReAllocPageMapBuffer` is not kept, so that the
check after it is about the status of the pass before. -/
def getMemoryMapAndPageMapBufferPass (s : BufferSearch) :
    BootDialogue (Pass BufferSearch (EfiStatus × MemoryMapData × PageMapSetupBuffer)) := do
  let (_, bufferAddress) ←
    reAllocPageMapBuffer s.pageMapBuffer.pBuffer s.numPreviousPages s.numNewEfiPages
      pageMapSetupType
  if efiError s.status then
    returned s.status s.data s.pageMapBuffer 0
  else
    let (status, data) ← getMemoryMap fuel s.data
    if efiError status then
      returned status data s.pageMapBuffer 0
    else
      let (pageMapBuffer, requiredPageMapSize) ←
        .ofOption (fillPageMapSizes data.memoryMap framebufferBase framebufferSize region
          pageMapSetupType s.pageMapBuffer fuel)
      let pageMapBuffer := { pageMapBuffer with
        pBuffer := bufferAddress
        bufferSize := s.numNewEfiPages * efiPageSize }
      if requiredPageMapSize ≤ pageMapBuffer.bufferSize then
        returned efiSuccess data pageMapBuffer requiredPageMapSize
      else
        let requiredPages := (requiredPageMapSize + efiPageSize - 1) / efiPageSize
        return .again {
          status := status
          numPreviousPages := s.numNewEfiPages
          numNewEfiPages := requiredPages * 2
          data := data
          pageMapBuffer := pageMapBuffer }

def getMemoryMapAndPageMapBuffer (data : MemoryMapData) (pageMapBuffer : PageMapSetupBuffer) :
    BootDialogue (EfiStatus × MemoryMapData × PageMapSetupBuffer) :=
  let numPreviousPages := (pageMapBuffer.bufferSize + efiPageSize - 1) / efiPageSize
  let numNewEfiPages := if numPreviousPages = 0 then 4 else numPreviousPages
  .loop
    (getMemoryMapAndPageMapBufferPass framebufferBase framebufferSize region pageMapSetupType
      fuel)
    fuel ⟨efiSuccess, numPreviousPages, numNewEfiPages, data, pageMapBuffer⟩

/-- One pass of the loop of `ExitBootServicesAndGetBuffer`. -/
def exitBootServicesPass (imageHandle : UInt64) (s : MemoryMapData × PageMapSetupBuffer) :
    BootDialogue (Pass (MemoryMapData × PageMapSetupBuffer)
      (EfiStatus × Option (MemoryMapData × PageMapSetupBuffer))) := do
  let (status, data, pageMapBuffer) ←
    getMemoryMapAndPageMapBuffer framebufferBase framebufferSize region pageMapSetupType fuel
      s.1 s.2
  if efiError status then
    return .leave (status, none)
  let reply ← .ask (.exitBootServices imageHandle data.memoryMapKey)
  if reply.status = efiInvalidParameter then
    return .again (data, pageMapBuffer)
  else if efiError reply.status then
    return .leave (reply.status, none)
  else
    return .leave (reply.status, some (data, pageMapBuffer))

/-- The status and, after a success, what is behind the `pOut` pointers.  Those of the
descriptor size and version start with the caller's values. -/
def exitBootServicesAndGetBuffer (imageHandle : UInt64) (memoryDescriptorSize : UInt64)
    (memoryDescriptorVersion : UInt32) :
    BootDialogue (EfiStatus × Option (MemoryMapData × PageMapSetupBuffer)) :=
  let data : MemoryMapData := {
    memoryMapBuffer := 0
    memoryMap := []
    memoryMapSize := 0
    memoryMapKey := 0
    memoryDescriptorSize := memoryDescriptorSize
    memoryDescriptorVersion := memoryDescriptorVersion }
  let pageMapBuffer : PageMapSetupBuffer := {
    pBuffer := 0
    bufferSize := 0
    pageMapOffset := 0
    pageMapSize := 0
    transitionData := ⟨0, 0, 0, 0, 0, 0⟩ }
  .loop
    (exitBootServicesPass framebufferBase framebufferSize region pageMapSetupType fuel
      imageHandle)
    fuel (data, pageMapBuffer)

end PageMapBuffer

end Boot
end DexprOS
