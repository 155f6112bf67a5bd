import DexprOS.Boot.EndBootPhase
import Mathlib.Data.Finset.Erase
import Mathlib.Data.Finset.Insert

/-!
# Who owns the boot buffers

The allocations that are live while `ExitBootServicesAndGetBuffer` talks to the firmware.
Which statuses are a success is left open.

Main facts:
* `getMemoryMap_safe`, `reAllocPageMapBuffer_safe`, `getMemoryMapAndPageMapBuffer_safe`: what
  each function owns after it, as long as the calls about pages are granted;
* `exitBootServicesAndGetBuffer_allows`: the same over whole conversations;
* `dropped_status_not_owned`: the status of a failed page allocation is dropped.
-/

namespace DexprOS
namespace Boot

open Efi Fuel Conversation

section LiveAllocations

/-- What the program owns: page allocations with their sizes, and pool allocations. -/
structure LiveAllocations where
  pages : Finset (UInt64 × UInt64)
  pools : Finset UInt64
deriving DecidableEq

def noAllocations : LiveAllocations :=
  ⟨∅, ∅⟩

/-- An allocation is live if its call was a success.  A free ends it unless it fails. -/
def LiveAllocations.apply (success : EfiStatus → Bool) (live : LiveAllocations)
    (c : BootCall) (reply : BootReply) : LiveAllocations :=
  match c with
  | .allocatePages _ _ pages _ =>
      if success reply.status then
        { live with pages := insert (reply.address, pages) live.pages }
      else live
  | .freePages memory pages =>
      if efiError reply.status then live
      else { live with pages := live.pages.erase (memory, pages) }
  | .allocatePool _ _ =>
      if success reply.status then { live with pools := insert reply.address live.pools }
      else live
  | .freePool buffer =>
      if efiError reply.status then live
      else { live with pools := live.pools.erase buffer }
  | _ => live

/-- Only live allocations are freed, with their size. -/
def LiveAllocations.AllowsCall (live : LiveAllocations) : BootCall → Prop
  | .freePages memory pages => (memory, pages) ∈ live.pages
  | .freePool buffer => buffer ∈ live.pools
  | _ => True

/-- A successful return hands over a live page allocation of exactly the buffer's size,
which is large enough, and a live memory map buffer. -/
def LiveAllocations.AllowsReturn (live : LiveAllocations) (r : Returned) : Prop :=
  r.status = efiSuccess →
    (∃ allocation ∈ live.pages, allocation.1 = r.pageMapBuffer.pBuffer ∧
      allocation.2.toNat * 4096 = r.pageMapBuffer.bufferSize.toNat) ∧
    r.requiredPageMapSize ≤ r.pageMapBuffer.bufferSize ∧ r.memoryMapBuffer ∈ live.pools

/-- The replies with which no call about pages fails, where a success is never about `2 ^ 64`
bytes or more.  An allocation from the pool is a success or an error. -/
def Granted (success : EfiStatus → Bool) : BootCall → BootReply → Prop
  | .allocatePages _ _ pages _, reply => success reply.status ∧ pages.toNat < 2 ^ 52
  | .freePages _ _, reply => ¬ efiError reply.status
  | .allocatePool _ _, reply => success reply.status ∨ efiError reply.status
  | _, _ => True

/-- Respect for the live allocations, as long as the calls about pages are granted. -/
def ownership (success : EfiStatus → Bool) :
    Contract BootCall BootReply Returned LiveAllocations where
  allowsCall := LiveAllocations.AllowsCall
  allowsNote := LiveAllocations.AllowsReturn
  expects := Granted success
  apply := LiveAllocations.apply success

end LiveAllocations

section Numbers

theorem not_efiError_efiSuccess : ¬ efiError efiSuccess := by decide

theorem efiPageSize_toNat : efiPageSize.toNat = 4096 := rfl

end Numbers

section Ownership

variable {success : EfiStatus → Bool} {live : LiveAllocations}
variable {framebufferBase framebufferSize : UInt64} {region : SwitchRegion}
variable {pageMapSetupType : PageMapSetupType} {fuel : Nat}

namespace LiveAllocations

/-- The memory map buffer, if there is one, is live. -/
def OwnsPool (live : LiveAllocations) (buffer : UInt64) : Prop :=
  buffer ≠ 0 → buffer ∈ live.pools

/-- The page map buffer, if there is one, is live. -/
def OwnsPages (live : LiveAllocations) (memory pages : UInt64) : Prop :=
  pages.toNat < 2 ^ 52 ∧ (pages ≠ 0 → (memory, pages) ∈ live.pages)

@[simp] theorem pages_apply_freePool
    (success : EfiStatus → Bool) (live : LiveAllocations) (buffer : UInt64) (reply : BootReply) :
    (live.apply success (.freePool buffer) reply).pages = live.pages := by
  rw [apply]
  split <;> rfl

@[simp] theorem pages_apply_allocatePool
    (success : EfiStatus → Bool) (live : LiveAllocations) (type : EfiMemoryType) (size : UInt64)
    (reply : BootReply) :
    (live.apply success (.allocatePool type size) reply).pages = live.pages := by
  rw [apply]
  split <;> rfl

@[simp] theorem pools_apply_freePages
    (success : EfiStatus → Bool) (live : LiveAllocations) (memory pages : UInt64)
    (reply : BootReply) :
    (live.apply success (.freePages memory pages) reply).pools = live.pools := by
  rw [apply]
  split <;> rfl

@[simp] theorem pools_apply_allocatePages
    (success : EfiStatus → Bool) (live : LiveAllocations) (type : EfiAllocateType)
    (memoryType : EfiMemoryType) (pages memory : UInt64) (reply : BootReply) :
    (live.apply success (.allocatePages type memoryType pages memory) reply).pools =
      live.pools := by
  rw [apply]
  split <;> rfl

theorem mem_pools_apply_allocatePool
    (live : LiveAllocations) (type : EfiMemoryType) (size : UInt64) {reply : BootReply}
    (h : success reply.status) :
    reply.address ∈ (live.apply success (.allocatePool type size) reply).pools := by
  rw [apply, if_pos h]
  exact Finset.mem_insert_self _ _

theorem mem_pages_apply_allocatePages
    (live : LiveAllocations) (type : EfiAllocateType) (memoryType : EfiMemoryType)
    (pages memory : UInt64) {reply : BootReply} (h : success reply.status) :
    (reply.address, pages) ∈
      (live.apply success (.allocatePages type memoryType pages memory) reply).pages := by
  rw [apply, if_pos h]
  exact Finset.mem_insert_self _ _

end LiveAllocations

theorem freeMemoryMapBuffer_safe
    {memoryMapBuffer : UInt64} (hpool : live.OwnsPool memoryMapBuffer) :
    (ownership success).Safe (fun _ live' => live'.pages = live.pages)
      (freeMemoryMapBuffer memoryMapBuffer) live := by
  unfold freeMemoryMapBuffer
  split
  case isTrue hne =>
      refine (safe_ask (fun _ live' => live'.pages = live.pages) (hpool hne)
        fun reply _ => ?_).bind fun _ _ h => safe_pure h
      exact live.pages_apply_freePool success memoryMapBuffer reply
  case isFalse =>
      exact safe_pure rfl

theorem allocatePool_safe (size : UInt64) :
    (ownership success).Safe
      (fun reply live' => live'.pages = live.pages ∧
        (¬ efiError reply.status → reply.address ∈ live'.pools))
      (.ask (.allocatePool .loaderData size)) live := by
  refine safe_ask _ trivial fun reply hreply =>
    ⟨live.pages_apply_allocatePool success .loaderData size reply, fun herror => ?_⟩
  exact live.mem_pools_apply_allocatePool .loaderData size (hreply.resolve_right herror)

theorem getMemoryMapPass_safe
    {data : MemoryMapData} (hpool : live.OwnsPool data.memoryMapBuffer) :
    (ownership success).Safe
      (PassPost
        (fun data live' => live'.pages = live.pages ∧ live'.OwnsPool data.memoryMapBuffer)
        (fun r live' => live'.pages = live.pages ∧
          (¬ efiError r.1 → r.2.memoryMapBuffer ∈ live'.pools)))
      (getMemoryMapPass data) live := by
  refine (freeMemoryMapBuffer_safe hpool).bind fun status live₁ hpages => ?_
  split
  case isTrue herror =>
      exact safe_pure ⟨hpages, absurd herror⟩
  case isFalse =>
      refine (allocatePool_safe _).bind fun reply live₂ halloc => ?_
      rw [hpages] at halloc
      dsimp only
      split
      case isTrue herror =>
          exact safe_pure ⟨halloc.1, absurd herror⟩
      case isFalse hok =>
          have hlive := halloc.2 hok
          refine (safe_ask (fun _ live' => live' = live₂) trivial
            fun _ _ => rfl).bind fun reply' live₃ heq => ?_
          subst heq
          split
          case isTrue =>
              exact safe_pure ⟨halloc.1, fun _ => hlive⟩
          case isFalse =>
              exact safe_pure ⟨halloc.1, fun _ => hlive⟩

theorem getMemoryMap_safe
    {data : MemoryMapData} (hpool : live.OwnsPool data.memoryMapBuffer) :
    (ownership success).Safe
      (fun r live' => live'.pages = live.pages ∧
        (¬ efiError r.1 → r.2.memoryMapBuffer ∈ live'.pools))
      (getMemoryMap fuel data) live := by
  refine safe_loop (fun data live' =>
    live'.pages = live.pages ∧ live'.OwnsPool data.memoryMapBuffer)
    (fun data live' h => ?_) fuel ⟨rfl, ?_⟩
  · rw [← h.1]
    exact getMemoryMapPass_safe h.2
  · split <;> exact hpool

theorem freePageMapBuffer_safe
    {bufferAddress numPreviousPages : UInt64}
    (hpages : live.OwnsPages bufferAddress numPreviousPages) :
    (ownership success).Safe (fun status live' => ¬ efiError status ∧ live'.pools = live.pools)
      (freePageMapBuffer bufferAddress numPreviousPages) live := by
  unfold freePageMapBuffer
  split
  case isTrue hne =>
      refine (safe_ask (fun reply live' => ¬ efiError reply.status ∧
        live'.pools = live.pools) (hpages.2 hne)
        fun reply hreply => ⟨hreply, ?_⟩).bind fun _ _ h => safe_pure h
      exact live.pools_apply_freePages success bufferAddress numPreviousPages reply
  case isFalse =>
      exact safe_pure ⟨not_efiError_efiSuccess, rfl⟩

theorem allocatePages_safe (type : EfiAllocateType) (pages memory : UInt64) :
    (ownership success).Safe
      (fun reply live' => live'.pools = live.pools ∧ pages.toNat < 2 ^ 52 ∧
        (reply.address, pages) ∈ live'.pages)
      (.ask (.allocatePages type .loaderData pages memory)) live :=
  safe_ask _ trivial fun reply hreply =>
    ⟨live.pools_apply_allocatePages success type .loaderData pages memory reply, hreply.2,
      live.mem_pages_apply_allocatePages type .loaderData pages memory hreply.1⟩

theorem reAllocPageMapBuffer_safe
    {bufferAddress numPreviousPages numNewPages : UInt64}
    (hpages : live.OwnsPages bufferAddress numPreviousPages) :
    (ownership success).Safe
      (fun r live' => live'.pools = live.pools ∧ numNewPages.toNat < 2 ^ 52 ∧
        (r.2, numNewPages) ∈ live'.pages)
      (reAllocPageMapBuffer bufferAddress numPreviousPages numNewPages pageMapSetupType)
      live := by
  refine (freePageMapBuffer_safe hpages).bind fun status live₁ hfree => ?_
  rw [if_neg hfree.1, ← hfree.2]
  cases pageMapSetupType with
  | pageMap4Setup =>
      exact (allocatePages_safe _ _ _).bind fun _ _ h => safe_pure h
  | pageMap5Setup =>
      exact (allocatePages_safe _ _ _).bind fun _ _ h => safe_pure h
  | pageMap4To5Transition =>
      exact (allocatePages_safe _ _ _).bind fun _ _ h => safe_pure h

/-- The size of whole pages, and the number of pages of such a size. -/
theorem mul_efiPageSize_toNat {pages : UInt64} (hpages : pages.toNat < 2 ^ 52) :
    (pages * efiPageSize).toNat = pages.toNat * 4096 := by
  rw [UInt64.toNat_mul, efiPageSize_toNat]
  omega

theorem pages_of_size {pages : UInt64} (hpages : pages.toNat < 2 ^ 52) :
    (pages * efiPageSize + efiPageSize - 1) / efiPageSize = pages := by
  have hone : (1 : UInt64).toNat = 1 := rfl
  rw [← UInt64.toNat_inj, UInt64.toNat_div, UInt64.toNat_sub, UInt64.toNat_add,
    mul_efiPageSize_toNat hpages, efiPageSize_toNat, hone]
  omega

/-- The page map buffer, if there is one, is live with its size. -/
def LiveAllocations.OwnsBuffer (live : LiveAllocations) (pageMapBuffer : PageMapSetupBuffer) :
    Prop :=
  ∃ pages, live.OwnsPages pageMapBuffer.pBuffer pages ∧
    pageMapBuffer.bufferSize = pages * efiPageSize

/-- What `GetMemoryMapAndPageMapBuffer` hands over. -/
def HandsOver (r : EfiStatus × MemoryMapData × PageMapSetupBuffer) (live : LiveAllocations) :
    Prop :=
  ¬ efiError r.1 → live.OwnsBuffer r.2.2 ∧ r.2.1.memoryMapBuffer ∈ live.pools

/-- The invariant of its loop. -/
structure BufferSearch.Owned (s : BufferSearch) (live : LiveAllocations) : Prop where
  status : ¬ efiError s.status
  pages : live.OwnsPages s.pageMapBuffer.pBuffer s.numPreviousPages
  pool : live.OwnsPool s.data.memoryMapBuffer

/-- A failed return has nothing to hand over. -/
theorem returned_error_safe
    {status : EfiStatus} (herror : efiError status) (data : MemoryMapData)
    (pageMapBuffer : PageMapSetupBuffer) (requiredPageMapSize : UInt64) :
    (ownership success).Safe (PassPost BufferSearch.Owned HandsOver)
      (returned status data pageMapBuffer requiredPageMapSize) live := by
  refine safe_note (fun hsuccess => ?_) (safe_pure (absurd herror))
  rw [show status = efiSuccess from hsuccess] at herror
  exact absurd herror not_efiError_efiSuccess

theorem getMemoryMapAndPageMapBufferPass_safe
    {s : BufferSearch} (h : s.Owned live) :
    (ownership success).Safe (PassPost BufferSearch.Owned HandsOver)
      (getMemoryMapAndPageMapBufferPass framebufferBase framebufferSize region pageMapSetupType
        fuel s) live := by
  refine (reAllocPageMapBuffer_safe h.pages).bind fun ⟨_, bufferAddress⟩ live₁ hrealloc => ?_
  obtain ⟨hpools, hfit, hpages⟩ := hrealloc
  dsimp only
  rw [if_neg h.status]
  have hpool : live₁.OwnsPool s.data.memoryMapBuffer := by
    rw [LiveAllocations.OwnsPool, hpools]
    exact h.pool
  refine (getMemoryMap_safe hpool).bind fun ⟨status, data⟩ live₂ hmap => ?_
  rw [← hmap.1] at hpages
  split
  case isTrue herror =>
      exact returned_error_safe herror _ _ _
  case isFalse hok =>
      have hlive := hmap.2 hok
      refine (safe_ofOption (fun _ live' => live' = live₂)
        fun _ _ => rfl).bind fun filled live₃ heq => ?_
      subst heq
      dsimp only
      split
      case isTrue hfits =>
          refine safe_note (fun _ => ⟨⟨_, hpages, rfl, ?_⟩, hfits, hlive⟩)
            (safe_pure fun _ => ⟨⟨_, ⟨hfit, fun _ => hpages⟩, rfl⟩, hlive⟩)
          exact (mul_efiPageSize_toNat hfit).symm
      case isFalse =>
          exact safe_pure ⟨hok, ⟨hfit, fun _ => hpages⟩, fun _ => hlive⟩

theorem getMemoryMapAndPageMapBuffer_safe
    {data : MemoryMapData} {pageMapBuffer : PageMapSetupBuffer}
    (hbuffer : live.OwnsBuffer pageMapBuffer) (hpool : live.OwnsPool data.memoryMapBuffer) :
    (ownership success).Safe HandsOver
      (getMemoryMapAndPageMapBuffer framebufferBase framebufferSize region pageMapSetupType fuel
        data pageMapBuffer) live := by
  refine safe_loop BufferSearch.Owned
    (fun s live' h => getMemoryMapAndPageMapBufferPass_safe h) fuel
    ⟨not_efiError_efiSuccess, ?_, hpool⟩
  obtain ⟨pages, hpages, hsize⟩ := hbuffer
  rw [hsize, pages_of_size hpages.1]
  exact hpages

/-- The invariant of the loop of `ExitBootServicesAndGetBuffer`. -/
def KeepsBuffers (s : MemoryMapData × PageMapSetupBuffer) (live : LiveAllocations) : Prop :=
  live.OwnsBuffer s.2 ∧ live.OwnsPool s.1.memoryMapBuffer

theorem exitBootServicesPass_safe
    {imageHandle : UInt64} {s : MemoryMapData × PageMapSetupBuffer} (h : KeepsBuffers s live) :
    (ownership success).Safe (PassPost KeepsBuffers fun _ _ => True)
      (exitBootServicesPass framebufferBase framebufferSize region pageMapSetupType fuel
        imageHandle s) live := by
  refine (getMemoryMapAndPageMapBuffer_safe h.1 h.2).bind fun r live₁ hr => ?_
  dsimp only
  split
  case isTrue herror =>
      exact safe_pure trivial
  case isFalse hok =>
      obtain ⟨hbuffer, hpool⟩ := hr hok
      refine (safe_ask (fun _ live' => live' = live₁) trivial
        fun _ _ => rfl).bind fun reply live₂ heq => ?_
      subst heq
      split
      case isTrue =>
          exact safe_pure ⟨hbuffer, fun _ => hpool⟩
      case isFalse =>
          split <;> exact safe_pure trivial

theorem exitBootServicesAndGetBuffer_safe
    (imageHandle memoryDescriptorSize : UInt64) (memoryDescriptorVersion : UInt32) :
    (ownership success).Safe (fun _ _ => True)
      (exitBootServicesAndGetBuffer framebufferBase framebufferSize region pageMapSetupType fuel
        imageHandle memoryDescriptorSize memoryDescriptorVersion) noAllocations := by
  refine safe_loop KeepsBuffers (fun s live' h => exitBootServicesPass_safe h) fuel ⟨?_, absurd rfl⟩
  exact ⟨0, ⟨by decide, absurd rfl⟩, rfl⟩

/-- Over every conversation with the firmware: only live allocations are freed, and every
success hands over live buffers, as long as the calls about pages are granted. -/
theorem exitBootServicesAndGetBuffer_allows
    (success : EfiStatus → Bool) (framebufferBase framebufferSize : UInt64)
    (region : SwitchRegion) (pageMapSetupType : PageMapSetupType) (fuel : Nat)
    (imageHandle memoryDescriptorSize : UInt64) (memoryDescriptorVersion : UInt32)
    (replies : List BootReply) (before rest : List BootEvent) (event : BootEvent)
    (htrace :
      (exitBootServicesAndGetBuffer framebufferBase framebufferSize region pageMapSetupType fuel
        imageHandle memoryDescriptorSize memoryDescriptorVersion).trace replies =
        before ++ event :: rest)
    (hgranted : ∀ e ∈ before, (ownership success).Expects e) :
    (ownership success).Allows
      (before.foldl (ownership success).after noAllocations) event :=
  (exitBootServicesAndGetBuffer_safe imageHandle memoryDescriptorSize
    memoryDescriptorVersion).allows_of_trace_eq htrace hgranted

/-- Replies of a firmware with one page of memory, whose first page allocation ends with the
given status. -/
def onePageReplies (status : EfiStatus) : List BootReply := [
  ⟨status, 0x10000, [], 0, 0, 0, 0⟩,
  ⟨efiSuccess, 0x5000, [], 0, 0, 0, 0⟩,
  ⟨efiSuccess, 0, [⟨.conventionalMemory, 0x1000, 1, 0⟩], 48, 1, 48, 1⟩,
  ⟨efiSuccess, 0, [], 0, 0, 0, 0⟩]

/-- The conversation with that firmware. -/
def onePageEvents (status : EfiStatus) : List BootEvent :=
  (exitBootServicesAndGetBuffer 0x3000 0x1000 ⟨0, 0⟩ .pageMap4Setup 8 0 48 1).trace
    (onePageReplies status)

/-- What `GetMemoryMapAndPageMapBuffer` returns to it. -/
def onePageReturned : Returned :=
  ⟨efiSuccess, 0x5000, ⟨0x10000, 0x4000, 0, 0x4000, ⟨0, 0, 0, 0, 0, 0⟩⟩, 0x4000⟩

/-- The buffer that is handed over when the allocation is granted. -/
theorem exitBootServicesAndGetBuffer_allows_onePage :
    (ownership (· == efiSuccess)).Allows
      (((onePageEvents efiSuccess).take 3).foldl (ownership (· == efiSuccess)).after
        noAllocations)
      (.noted onePageReturned) := by
  refine exitBootServicesAndGetBuffer_allows (· == efiSuccess) 0x3000 0x1000 ⟨0, 0⟩
    .pageMap4Setup 8 0 48 1 (onePageReplies efiSuccess) _ ((onePageEvents efiSuccess).drop 4) _
    ?_ ?_
  · decide +kernel
  · have htake : (onePageEvents efiSuccess).take 3 = [
        .called (.allocatePages .allocateAnyPages .loaderData 4 0)
          ⟨efiSuccess, 0x10000, [], 0, 0, 0, 0⟩,
        .called (.allocatePool .loaderData 512) ⟨efiSuccess, 0x5000, [], 0, 0, 0, 0⟩,
        .called (.getMemoryMap 512 0x5000)
          ⟨efiSuccess, 0, [⟨.conventionalMemory, 0x1000, 1, 0⟩], 48, 1, 48, 1⟩] := by
      decide +kernel
    rw [htake]
    simp [Contract.Expects, ownership, Granted]

/-- The status of a failed page allocation is dropped: the buffer that is handed over was
never allocated. -/
theorem dropped_status_not_owned :
    ∃ before rest,
      onePageEvents 0x8000000000000009 = before ++ .noted onePageReturned :: rest ∧
        ¬ (ownership (· == efiSuccess)).Allows
          (before.foldl (ownership (· == efiSuccess)).after noAllocations)
          (.noted onePageReturned) := by
  refine ⟨(onePageEvents 0x8000000000000009).take 3, (onePageEvents 0x8000000000000009).drop 4,
    by decide +kernel, fun h => ?_⟩
  obtain ⟨⟨allocation, hmem, -⟩, -⟩ := h rfl
  have hempty : (((onePageEvents 0x8000000000000009).take 3).foldl
      (ownership (· == efiSuccess)).after noAllocations).pages = ∅ := by
    decide +kernel
  rw [hempty] at hmem
  exact absurd hmem (Finset.notMem_empty _)

end Ownership
end Boot
end DexprOS
