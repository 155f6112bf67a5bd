import DexprOS.Efi.EfiDef
import DexprOS.Kernel.Memory.InitialMemMap
import DexprOS.Library.FuelLoop
import DexprOS.Library.LowestFirst

/-!
# The UEFI memory map as an initial memory map

Conversion of firmware descriptors to initial memory map entries, and the
iteration that hands out the converted entries in ascending order with
neighbours combined.

Main facts:
* `getNextEfiMapEntry_eq`: the search returns the lowest descriptor, converted;
* `iterEfiMemMapAsInitMap_ascending`: the iteration is a fold of its callback
  over the combined entries of the ascending map;
* `canonical_combineEntries`: these entries describe the map canonically.
-/

namespace DexprOS
namespace Kernel

open Efi Fuel LowestFirst Spans

universe u

section Conversion

/-- `ToDexprOSMemType`. -/
def toDexprOSMemType : EfiMemoryType → PhysicalMemoryType
  | .unusableMemory => .unusable
  | .reservedMemoryType
  | EfiMemoryType.memoryMappedIO
  | .memoryMappedIOPortSpace
  | .palCode => .firmwareReserved
  | .unacceptedMemoryType => .unaccepted
  | .conventionalMemory
  | .loaderCode
  | .loaderData => .usable
  | .persistentMemory => .usablePersistent
  | .acpiReclaimMemory => .acpiReclaim
  | .acpiMemoryNVS => .acpiNVS
  | .bootServicesCode => .efiBootServicesCode
  | .bootServicesData => .efiBootServicesData
  | .runtimeServicesCode => .efiRuntimeServicesCode
  | .runtimeServicesData => .efiRuntimeServicesData
  | .other => .firmwareReserved

/-- `ToDexprOSInitialMemMapUsage`. -/
def toDexprOSInitialMemMapUsage : EfiMemoryType → InitialMemMapMappedUsage
  | .conventionalMemory
  | .persistentMemory
  | .bootServicesCode
  | .bootServicesData
  | .runtimeServicesCode
  | .runtimeServicesData => .mapped
  | .loaderCode => .kernelCode
  | .loaderData => .kernelData
  | .unusableMemory
  | .reservedMemoryType
  | EfiMemoryType.memoryMappedIO
  | .memoryMappedIOPortSpace
  | .palCode
  | .unacceptedMemoryType
  | .acpiReclaimMemory
  | .acpiMemoryNVS
  | .other => .none

/-- One `if` of `ToDexprOSAttributeFlags`. -/
def addFlag (efiAttributes efiBit bits result : UInt64) : UInt64 :=
  if efiAttributes &&& efiBit = efiBit then result ||| bits else result

/-- `ToDexprOSAttributeFlags`. -/
def toDexprOSAttributeFlags (efiAttributes : UInt64) : UInt64 :=
  let result := 0
  let result := addFlag efiAttributes efiMemoryUC physicalMemoryUCBit result
  let result := addFlag efiAttributes efiMemoryWC physicalMemoryWriteCombineBit result
  let result := addFlag efiAttributes efiMemoryWT physicalMemoryWriteThroughBit result
  let result := addFlag efiAttributes efiMemoryWB physicalMemoryWriteBackBit result
  let result := addFlag efiAttributes efiMemoryUCE physicalMemoryUCEBit result
  let result := addFlag efiAttributes efiMemoryWP physicalMemoryWriteProtectedBit result
  let result := addFlag efiAttributes efiMemoryRP physicalMemoryReadProtectedBit result
  let result := addFlag efiAttributes efiMemoryXP physicalMemoryExecuteProtectedBit result
  let result := addFlag efiAttributes efiMemoryRO physicalMemoryReadOnlyBit result
  let result := addFlag efiAttributes efiMemoryNV physicalMemoryNonVolatileBit result
  let result := addFlag efiAttributes efiMemoryRuntime physicalMemoryEfiRuntimeBit result
  let result := addFlag efiAttributes efiMemoryMoreReliable physicalMemoryMoreReliableBit result
  let result := addFlag efiAttributes efiMemorySP physicalMemorySpecificPurposeBit result
  let result := addFlag efiAttributes efiMemoryCpuCrypto physicalMemoryCpuCryptoBit result
  addFlag efiAttributes efiMemoryIsaValid
    (physicalMemoryIsaValidBit ||| (efiAttributes &&& efiMemoryIsaMask)) result

/-- The assignments of `GetNextEfiMapEntry` for a descriptor. -/
def toEntry (d : EfiMemoryDescriptor) : InitialMemMapEntry where
  memoryType := toDexprOSMemType d.type
  usage := toDexprOSInitialMemMapUsage d.type
  flags := toDexprOSAttributeFlags d.attributes
  physicalAddress := d.physicalStart
  virtualAddress := d.physicalStart
  numPhysicalPages := d.numberOfPages * efiPageSize / physicalPageSize

/-- The values that mark an entry or a range as not yet set. -/
def unsetEntry : InitialMemMapEntry where
  memoryType := .max
  usage := .none
  flags := 0
  physicalAddress := 0
  virtualAddress := 0
  numPhysicalPages := 0

/-- The loop body of `GetNextEfiMapEntry` on the output entry and the flag
`nextDescFound`. -/
def considerDescriptor (minAddress : UInt64)
    (out : InitialMemMapEntry × Bool) (d : EfiMemoryDescriptor) :
    InitialMemMapEntry × Bool :=
  if minAddress ≤ d.physicalStart ∧
      (d.physicalStart < out.1.physicalAddress ∨ out.2 = false) then
    (toEntry d, true)
  else
    out

/-- `GetNextEfiMapEntry`: the output entry and the returned flag. -/
def getNextEfiMapEntry (map : List EfiMemoryDescriptor) (minAddress : UInt64) :
    InitialMemMapEntry × Bool :=
  map.foldl (considerDescriptor minAddress) (unsetEntry, false)

/-- What `GetNextEfiMapEntry` gives for an optional descriptor. -/
def nextEntry : Option EfiMemoryDescriptor → InitialMemMapEntry × Bool
  | none => (unsetEntry, false)
  | some d => (toEntry d, true)

/-- The search returns the first descriptor with the lowest start at or above
the given address. -/
theorem getNextEfiMapEntry_eq
    (map : List EfiMemoryDescriptor) (minAddress : UInt64) :
    getNextEfiMapEntry map minAddress =
      nextEntry (lowestFrom EfiMemoryDescriptor.start minAddress.toNat map) := by
  induction map using List.reverseRecOn with
  | nil =>
      rfl
  | append_singleton map d ih =>
      rw [lowestFrom_concat, getNextEfiMapEntry, List.foldl_concat,
        ← getNextEfiMapEntry, ih]
      cases lowestFrom EfiMemoryDescriptor.start minAddress.toNat map with
      | none =>
          by_cases hd : minAddress ≤ d.physicalStart
          · have hd' : minAddress.toNat ≤ d.start := hd
            simp [nextEntry, considerDescriptor, pickLower, hd, hd']
          · have hd' : ¬ minAddress.toNat ≤ d.start := hd
            simp [nextEntry, considerDescriptor, pickLower, hd, hd']
      | some b =>
          by_cases hd : minAddress ≤ d.physicalStart ∧ d.physicalStart < b.physicalStart
          · have hd' : minAddress.toNat ≤ d.start ∧ d.start < b.start := hd
            simp [nextEntry, considerDescriptor, pickLower, toEntry, hd, hd']
          · have hd' : ¬ (minAddress.toNat ≤ d.start ∧ d.start < b.start) := hd
            simp [nextEntry, considerDescriptor, pickLower, toEntry, hd, hd']

end Conversion

section Iteration

variable {σ : Type u}

/-- Locals of `IterEfiMemMapAsInitMap` and the callback's data. -/
structure IterState (σ : Type u) where
  combinedRange : InitialMemMapEntry
  anyRangeWritten : Bool
  pUserData : σ

/-- "Submit previous range if it exists". -/
def IterState.submit (pFunc : InitialMemMapEntry → σ → σ) (s : IterState σ) : σ :=
  if s.anyRangeWritten then pFunc s.combinedRange s.pUserData else s.pUserData

/-- One pass of the `for (;;)` of `IterEfiMemMapAsInitMap`. -/
def iterBody (map : List EfiMemoryDescriptor) (pFunc : InitialMemMapEntry → σ → σ)
    (s : IterState σ) : Pass (IterState σ) σ :=
  let combinedRange := s.combinedRange
  let rangeEnd := combinedRange.physicalAddress +
    combinedRange.numPhysicalPages * physicalPageSize
  let virtRangeEnd := combinedRange.virtualAddress +
    combinedRange.numPhysicalPages * physicalPageSize
  let (nextMemRegion, found) := getNextEfiMapEntry map rangeEnd
  if found = false then
    .leave (s.submit pFunc)
  else if nextMemRegion.physicalAddress = rangeEnd ∧
      nextMemRegion.virtualAddress = virtRangeEnd ∧
      nextMemRegion.memoryType = combinedRange.memoryType ∧
      nextMemRegion.usage = combinedRange.usage ∧
      nextMemRegion.flags = combinedRange.flags ∧
      s.anyRangeWritten = true then
    .again { s with
      combinedRange := { combinedRange with
        numPhysicalPages :=
          combinedRange.numPhysicalPages + nextMemRegion.numPhysicalPages } }
  else
    .again
      { combinedRange := nextMemRegion
        anyRangeWritten := true
        pUserData := s.submit pFunc }

/-- `IterEfiMemMapAsInitMap`: the callback's data after the iteration. -/
def iterEfiMemMapAsInitMap (map : List EfiMemoryDescriptor)
    (pFunc : InitialMemMapEntry → σ → σ) (pUserData : σ) (fuel : Nat) : Option σ :=
  forever (iterBody map pFunc) fuel
    { combinedRange := unsetEntry, anyRangeWritten := false, pUserData := pUserData }

end Iteration

section Combine

/-- Entry `d` continues entry `e` and agrees with it in everything else. -/
def Continues (e d : InitialMemMapEntry) : Prop :=
  d.physicalAddress = e.physicalAddress + e.numPhysicalPages * physicalPageSize ∧
  d.virtualAddress = e.virtualAddress + e.numPhysicalPages * physicalPageSize ∧
  d.memoryType = e.memoryType ∧ d.usage = e.usage ∧ d.flags = e.flags

instance (e d : InitialMemMapEntry) : Decidable (Continues e d) :=
  inferInstanceAs (Decidable (_ ∧ _))

/-- Entry `e` prolonged by the pages of `d`. -/
def prolong (e d : InitialMemMapEntry) : InitialMemMapEntry :=
  { e with numPhysicalPages := e.numPhysicalPages + d.numPhysicalPages }

/-- Combine the entries behind the pending entry `e`. -/
def combineFrom (e : InitialMemMapEntry) :
    List InitialMemMapEntry → List InitialMemMapEntry
  | [] => [e]
  | d :: entries =>
      if Continues e d then
        combineFrom (prolong e d) entries
      else
        e :: combineFrom d entries

/-- Entries with neighbours combined wherever possible. -/
def combineEntries : List InitialMemMapEntry → List InitialMemMapEntry
  | [] => []
  | e :: entries => combineFrom e entries

end Combine

section Pass

variable {σ : Type u} {map : List EfiMemoryDescriptor}
  {pFunc : InitialMemMapEntry → σ → σ} {s : IterState σ}

/-- Address up to which the iteration has come. -/
def IterState.rangeEnd (s : IterState σ) : UInt64 :=
  s.combinedRange.physicalAddress +
    s.combinedRange.numPhysicalPages * physicalPageSize

theorem rangeEnd_unset (b : Bool) (pUserData : σ) :
    (IterState.rangeEnd ⟨unsetEntry, b, pUserData⟩).toNat = 0 := by
  simp [IterState.rangeEnd, unsetEntry]

/-- Without a further descriptor the pending range is submitted. -/
theorem iterBody_leave
    (h : lowestFrom EfiMemoryDescriptor.start s.rangeEnd.toNat map = none) :
    iterBody map pFunc s = .leave (s.submit pFunc) := by
  simp only [iterBody, getNextEfiMapEntry_eq]
  rw [IterState.rangeEnd] at h
  simp only [h, nextEntry, if_true]

/-- With a further descriptor the pending range is prolonged or submitted. -/
theorem iterBody_again
    {d : EfiMemoryDescriptor}
    (h : lowestFrom EfiMemoryDescriptor.start s.rangeEnd.toNat map = some d) :
    iterBody map pFunc s = .again
      (if Continues s.combinedRange (toEntry d) ∧ s.anyRangeWritten = true then
        { s with combinedRange := prolong s.combinedRange (toEntry d) }
      else
        { combinedRange := toEntry d
          anyRangeWritten := true
          pUserData := s.submit pFunc }) := by
  simp only [iterBody, getNextEfiMapEntry_eq]
  rw [IterState.rangeEnd] at h
  simp only [h, nextEntry, Bool.true_eq_false, if_false, Continues, and_assoc,
    prolong]
  split_ifs <;> rfl

end Pass

section Regular

/-- A page aligned, identity mapped entry in the lower half of the addresses. -/
structure InitialMemMapEntry.Regular (e : InitialMemMapEntry) : Prop where
  aligned : e.start % 4096 = 0
  identity : e.virtualAddress = e.physicalAddress
  nonempty : e.start < e.stop
  below : e.stop ≤ 2 ^ 63

/-- The entry's range with everything that the entry says about it. -/
def InitialMemMapEntry.span (e : InitialMemMapEntry) :
    Span (PhysicalMemoryType × InitialMemMapMappedUsage × UInt64) where
  start := e.start
  stop := e.stop
  label := (e.memoryType, e.usage, e.flags)

/-- The descriptor's range with everything that is converted from it. -/
def descriptorSpan (d : EfiMemoryDescriptor) :
    Span (PhysicalMemoryType × InitialMemMapMappedUsage × UInt64) where
  start := d.start
  stop := d.stop
  label := (toDexprOSMemType d.type, toDexprOSInitialMemMapUsage d.type,
    toDexprOSAttributeFlags d.attributes)

@[simp] theorem toEntry_start (d : EfiMemoryDescriptor) :
    (toEntry d).start = d.start := by
  rfl

/-- Converting the number of pages loses nothing below `2 ^ 63`. -/
theorem toEntry_stop
    {d : EfiMemoryDescriptor} (h : d.stop ≤ 2 ^ 63) :
    (toEntry d).stop = d.stop := by
  unfold EfiMemoryDescriptor.stop at h
  have hpages : (d.numberOfPages * efiPageSize / physicalPageSize).toNat =
      d.numberOfPages.toNat := by
    rw [UInt64.toNat_div, UInt64.toNat_mul, show efiPageSize.toNat = 4096 from rfl,
      show physicalPageSize.toNat = 4096 from rfl]
    omega
  rw [InitialMemMapEntry.stop, EfiMemoryDescriptor.stop]
  simp only [toEntry, hpages]

theorem toEntry_span
    {d : EfiMemoryDescriptor} (h : d.stop ≤ 2 ^ 63) :
    (toEntry d).span = descriptorSpan d := by
  rw [InitialMemMapEntry.span, toEntry_stop h, toEntry_start, descriptorSpan]
  simp only [toEntry]

theorem toEntry_regular
    {map : List EfiMemoryDescriptor} (hmap : WellFormedMap (2 ^ 63) map)
    {d : EfiMemoryDescriptor} (hd : d ∈ map) :
    (toEntry d).Regular where
  aligned := hmap.aligned d hd
  identity := rfl
  nonempty := by
    rw [toEntry_stop (hmap.below d hd), toEntry_start]
    exact hmap.start_lt_stop hd
  below := by
    rw [toEntry_stop (hmap.below d hd)]
    exact hmap.below d hd

variable {e d : InitialMemMapEntry}

/-- On regular entries continuing is joining the spans. -/
theorem continues_iff
    (he : e.Regular) (hd : d.Regular) :
    Continues e d ↔ Joinable e.span d.span := by
  have hend := InitialMemMapEntry.end_toNat he.below
  simp only [Continues, Joinable, InitialMemMapEntry.span, Prod.mk.injEq,
    he.identity, hd.identity]
  have haddr : d.physicalAddress =
      e.physicalAddress + e.numPhysicalPages * physicalPageSize ↔
        e.stop = d.start := by
    rw [← UInt64.toNat_inj, hend, InitialMemMapEntry.start]
    exact eq_comm
  rw [haddr]
  constructor
  · rintro ⟨h, -, h₁, h₂, h₃⟩
    exact ⟨h, h₁.symm, h₂.symm, h₃.symm⟩
  · rintro ⟨h, h₁, h₂, h₃⟩
    exact ⟨h, h, h₁.symm, h₂.symm, h₃.symm⟩

/-- A prolonged entry ends where the added one does. -/
theorem prolong_stop
    (he : e.Regular) (hd : d.Regular) (h : Continues e d) :
    (prolong e d).stop = d.stop := by
  have htouch : e.stop = d.start := ((continues_iff he hd).mp h).1
  have hlow := he.below
  have hhigh := hd.below
  unfold InitialMemMapEntry.stop InitialMemMapEntry.start at *
  have hpages : (e.numPhysicalPages + d.numPhysicalPages).toNat =
      e.numPhysicalPages.toNat + d.numPhysicalPages.toNat := by
    rw [UInt64.toNat_add]
    omega
  simp only [prolong, hpages]
  rw [Nat.add_mul, ← Nat.add_assoc, htouch]

theorem prolong_regular
    (he : e.Regular) (hd : d.Regular) (h : Continues e d) :
    (prolong e d).Regular where
  aligned := he.aligned
  identity := he.identity
  nonempty := by
    rw [prolong_stop he hd h]
    have htouch : e.stop = d.start := ((continues_iff he hd).mp h).1
    have h₁ := he.nonempty
    have h₂ := hd.nonempty
    show e.start < d.stop
    omega
  below := by
    rw [prolong_stop he hd h]
    exact hd.below

end Regular

section Combined

/-- Combining keeps entries regular. -/
theorem combineFrom_regular
    {entries : List InitialMemMapEntry} (hentries : ∀ d, d ∈ entries → d.Regular) :
    ∀ {e : InitialMemMapEntry}, e.Regular →
      ∀ c, c ∈ combineFrom e entries → c.Regular := by
  induction entries with
  | nil =>
      intro e he c hc
      obtain rfl : c = e := by simpa [combineFrom] using hc
      exact he
  | cons d entries ih =>
      intro e he c hc
      have hd := hentries d (by simp)
      have ih := @ih (fun c hc => hentries c (List.mem_cons_of_mem d hc))
      rw [combineFrom] at hc
      split_ifs at hc with hjoin
      · exact ih (prolong_regular he hd hjoin) c hc
      · rcases List.mem_cons.mp hc with rfl | hc
        · exact he
        · exact ih hd c hc

/-- On regular entries combining is coalescing the spans. -/
theorem combineFrom_spans
    {entries : List InitialMemMapEntry} (hentries : ∀ d, d ∈ entries → d.Regular) :
    ∀ {e : InitialMemMapEntry}, e.Regular →
      (combineFrom e entries).map InitialMemMapEntry.span =
        coalesceFrom e.span (entries.map InitialMemMapEntry.span) := by
  induction entries with
  | nil =>
      intro e _
      rfl
  | cons d entries ih =>
      intro e he
      have hd := hentries d (by simp)
      have ih := @ih (fun c hc => hentries c (List.mem_cons_of_mem d hc))
      rw [combineFrom, List.map_cons, coalesceFrom]
      by_cases h : Continues e d
      · rw [if_pos h, if_pos ((continues_iff he hd).mp h),
          ih (prolong_regular he hd h)]
        congr 1
        rw [InitialMemMapEntry.span, prolong_stop he hd h]
        rfl
      · rw [if_neg h, if_neg (fun hj => h ((continues_iff he hd).mpr hj)),
          List.map_cons, ih hd]

theorem combineEntries_regular
    {entries : List InitialMemMapEntry} (hentries : ∀ d, d ∈ entries → d.Regular) :
    ∀ c, c ∈ combineEntries entries → c.Regular := by
  cases entries with
  | nil =>
      exact hentries
  | cons e entries =>
      exact combineFrom_regular (fun d hd => hentries d (List.mem_cons_of_mem e hd))
        (hentries e (by simp))

theorem combineEntries_spans
    {entries : List InitialMemMapEntry} (hentries : ∀ d, d ∈ entries → d.Regular) :
    (combineEntries entries).map InitialMemMapEntry.span =
      coalesce (entries.map InitialMemMapEntry.span) := by
  cases entries with
  | nil =>
      rfl
  | cons e entries =>
      exact combineFrom_spans (fun d hd => hentries d (List.mem_cons_of_mem e hd))
        (hentries e (by simp))

end Combined

section Ascending

variable {σ : Type u} {map : List EfiMemoryDescriptor}

/-- The entries that the iteration hands out for an ascending map. -/
def iteratedEntries (sorted : List EfiMemoryDescriptor) : List InitialMemMapEntry :=
  combineEntries (sorted.map toEntry)

/-- The loop with a range under way passes over the descriptors still to come. -/
theorem forever_iterBody_ascending
    (hmap : WellFormedMap (2 ^ 63) map)
    (pFunc : InitialMemMapEntry → σ → σ)
    (todo : List EfiMemoryDescriptor) :
    ∀ (done : List EfiMemoryDescriptor) (e : InitialMemMapEntry) (pUserData : σ),
      (done ++ todo).Perm map →
      (done ++ todo).Pairwise (fun a b => a.stop ≤ b.start) →
      e.Regular →
      (∀ d, d ∈ done → d.start < e.stop) →
      (∀ d, d ∈ todo → e.stop ≤ d.start) →
      forever (iterBody map pFunc) (todo.length + 1) ⟨e, true, pUserData⟩ =
        some ((combineFrom e (todo.map toEntry)).foldl
          (fun s e => pFunc e s) pUserData) := by
  have hne : ∀ d, d ∈ map → d.start < d.stop :=
    fun d hd => hmap.start_lt_stop hd
  induction todo with
  | nil =>
      intro done e pUserData hperm _ he hdone _
      have hend := InitialMemMapEntry.end_toNat he.below
      rw [List.append_nil] at hperm
      refine forever_leave (iterBody_leave ?_) 0
      exact lowestFrom_ascending_end EfiMemoryDescriptor.start hperm
        (by rw [IterState.rangeEnd, hend]; exact hdone)
  | cons d todo ih =>
      intro done e pUserData hperm hasc he hdone htodo
      have hend := InitialMemMapEntry.end_toNat he.below
      have hd : d ∈ map := hperm.mem_iff.mp (by simp)
      have hreg := toEntry_regular hmap hd
      have hstop := toEntry_stop (hmap.below d hd)
      have hd₁ := hne d hd
      have hperm' : (done ++ [d] ++ todo).Perm map := by simpa using hperm
      have hasc' : (done ++ [d] ++ todo).Pairwise (fun a b => a.stop ≤ b.start) := by
        simpa using hasc
      have hed := htodo d (by simp)
      have hpick : lowestFrom EfiMemoryDescriptor.start
          (IterState.rangeEnd ⟨e, true, pUserData⟩).toNat map = some d := by
        rw [IterState.rangeEnd, hend]
        exact lowestFrom_ascending EfiMemoryDescriptor.start hne hperm hasc hdone hed
      have hdone' : ∀ c, c ∈ done ++ [d] → c.start < d.stop := by
        intro c hc
        rcases List.mem_append.mp hc with hc | hc
        · have := hdone c hc
          omega
        · obtain rfl : c = d := by simpa using hc
          exact hd₁
      have htodo' : ∀ c, c ∈ todo → d.stop ≤ c.start :=
        (List.pairwise_cons.mp (List.pairwise_append.mp hasc).2.1).1
      rw [List.length_cons, forever_again (iterBody_again hpick), List.map_cons,
        combineFrom]
      by_cases h : Continues e (toEntry d)
      · have hlast := prolong_stop he hreg h
        rw [hstop] at hlast
        rw [if_pos ⟨h, rfl⟩, if_pos h]
        exact ih (done ++ [d]) _ pUserData hperm' hasc' (prolong_regular he hreg h)
          (by rw [hlast]; exact hdone') (by rw [hlast]; exact htodo')
      · rw [if_neg (fun hj => h hj.1), if_neg h]
        exact ih (done ++ [d]) _ _ hperm' hasc' hreg
          (by rw [hstop]; exact hdone') (by rw [hstop]; exact htodo')

/-- The iteration is a fold of its callback over the combined entries. -/
theorem iterEfiMemMapAsInitMap_ascending
    {sorted : List EfiMemoryDescriptor}
    (hmap : WellFormedMap (2 ^ 63) map)
    (hperm : sorted.Perm map)
    (hasc : sorted.Pairwise (fun a b => a.stop ≤ b.start))
    (pFunc : InitialMemMapEntry → σ → σ) (pUserData : σ) :
    Returns (iterEfiMemMapAsInitMap map pFunc pUserData)
      ((iteratedEntries sorted).foldl (fun s e => pFunc e s) pUserData) := by
  cases sorted with
  | nil =>
      obtain rfl : map = [] := List.nil_perm.mp hperm
      exact forever_returns (forever_leave (iterBody_leave rfl) 0)
  | cons d sorted =>
      have hd : d ∈ map := hperm.mem_iff.mp (by simp)
      have hreg := toEntry_regular hmap hd
      have hstop := toEntry_stop (hmap.below d hd)
      have hpick : lowestFrom EfiMemoryDescriptor.start
          (IterState.rangeEnd ⟨unsetEntry, false, pUserData⟩).toNat map = some d := by
        have hperm₀ : ([] ++ d :: sorted).Perm map := hperm
        rw [rangeEnd_unset]
        exact lowestFrom_ascending EfiMemoryDescriptor.start
          (fun c hc => hmap.start_lt_stop hc) hperm₀ hasc (by simp)
          (Nat.zero_le d.start)
      have hrun := forever_iterBody_ascending hmap pFunc sorted [d] (toEntry d)
        pUserData hperm hasc hreg
        (by simpa [hstop] using hreg.nonempty)
        (by rw [hstop]; exact (List.pairwise_cons.mp hasc).1)
      have hfirst : forever (iterBody map pFunc) (sorted.length + 1 + 1)
          ⟨unsetEntry, false, pUserData⟩ = _ :=
        forever_again (iterBody_again hpick) (sorted.length + 1)
      rw [if_neg (by simp)] at hfirst
      exact forever_returns (hfirst.trans hrun)

end Ascending

section Canonical

/-- The entries describe the firmware's map page by page, in ascending order and
with as few entries as possible. -/
structure Canonical (map : List EfiMemoryDescriptor)
    (entries : List InitialMemMapEntry) : Prop where
  ascending : entries.Pairwise (fun a b => a.stop ≤ b.start)
  regular : ∀ e, e ∈ entries → e.Regular
  pages : ∀ p memoryType usage flags,
    (∃ e, e ∈ entries ∧ e.HasPage p ∧ e.memoryType = memoryType ∧
      e.usage = usage ∧ e.flags = flags) ↔
    (∃ d, d ∈ map ∧ d.HasPage p ∧ toDexprOSMemType d.type = memoryType ∧
      toDexprOSInitialMemMapUsage d.type = usage ∧
      toDexprOSAttributeFlags d.attributes = flags)
  merged : entries.IsChain (fun a b =>
    ¬ (a.stop = b.start ∧ a.memoryType = b.memoryType ∧ a.usage = b.usage ∧
      a.flags = b.flags))

/-- The iterated entries of an ascending map describe it canonically. -/
theorem canonical_iteratedEntries
    {map sorted : List EfiMemoryDescriptor}
    (hmap : WellFormedMap (2 ^ 63) map)
    (hperm : sorted.Perm map)
    (hasc : sorted.Pairwise (fun a b => a.stop ≤ b.start)) :
    Canonical map (iteratedEntries sorted) := by
  have hreg : ∀ e, e ∈ sorted.map toEntry → e.Regular := by
    intro e he
    obtain ⟨d, hd, rfl⟩ := List.mem_map.mp he
    exact toEntry_regular hmap (hperm.mem_iff.mp hd)
  have hspans : (sorted.map toEntry).map InitialMemMapEntry.span =
      sorted.map descriptorSpan := by
    rw [List.map_map]
    refine List.map_congr_left (fun d hd => ?_)
    exact toEntry_span (hmap.below d (hperm.mem_iff.mp hd))
  have hcoalesced := combineEntries_spans hreg
  rw [hspans] at hcoalesced
  have hordered : Ordered (sorted.map descriptorSpan) := by
    refine ⟨List.pairwise_map.mpr hasc, ?_⟩
    intro a ha
    obtain ⟨d, hd, rfl⟩ := List.mem_map.mp ha
    exact hmap.start_lt_stop (hperm.mem_iff.mp hd)
  have hresult := ordered_coalesce hordered
  rw [← hcoalesced] at hresult
  refine ⟨?_, combineEntries_regular hreg, ?_, ?_⟩
  · exact List.pairwise_map.mp hresult.ascending
  · intro p memoryType usage flags
    have hlabels := labels_coalesce hordered (p * 4096) (memoryType, usage, flags)
    rw [← hcoalesced] at hlabels
    simp only [Labels, List.mem_map, exists_exists_and_eq_and,
      InitialMemMapEntry.span, descriptorSpan, Prod.mk.injEq] at hlabels
    simp only [InitialMemMapEntry.HasPage, EfiMemoryDescriptor.HasPage, and_assoc]
    refine hlabels.trans (exists_congr (fun d => ?_))
    rw [hperm.mem_iff]
  · have hchain := isChain_coalesce (sorted.map descriptorSpan)
    rw [← hcoalesced, List.isChain_map] at hchain
    refine hchain.imp (fun a b hab htouch => hab ?_)
    simpa [Joinable, InitialMemMapEntry.span] using htouch

/-- A well-formed map can be listed in ascending order. -/
theorem exists_ascending_map
    {limit : Nat} {map : List EfiMemoryDescriptor} (hmap : WellFormedMap limit map) :
    ∃ sorted : List EfiMemoryDescriptor, sorted.Perm map ∧
      sorted.Pairwise (fun a b => a.stop ≤ b.start) :=
  exists_ascending_perm EfiMemoryDescriptor.start EfiMemoryDescriptor.stop
    (fun _ hd => hmap.start_lt_stop hd) hmap.disjoint

/-- The iteration over a well-formed map returns, hands out a canonical
description of the map, and does not depend on the order of the descriptors. -/
theorem iterEfiMemMapAsInitMap_canonical
    {map : List EfiMemoryDescriptor} (hmap : WellFormedMap (2 ^ 63) map) :
    ∃ entries : List InitialMemMapEntry, Canonical map entries ∧
      ∀ map' : List EfiMemoryDescriptor, map'.Perm map →
        ∀ (σ : Type u) (pFunc : InitialMemMapEntry → σ → σ) (pUserData : σ),
          Returns (iterEfiMemMapAsInitMap map' pFunc pUserData)
            (entries.foldl (fun s e => pFunc e s) pUserData) := by
  obtain ⟨sorted, hperm, hasc⟩ := exists_ascending_map hmap
  refine ⟨iteratedEntries sorted, canonical_iteratedEntries hmap hperm hasc, ?_⟩
  intro map' hmap' σ pFunc pUserData
  exact iterEfiMemMapAsInitMap_ascending (hmap.perm hmap')
    (hperm.trans hmap'.symm) hasc pFunc pUserData

/-- Two adjacent descriptors in descending order. -/
theorem iterEfiMemMapAsInitMap_canonical_descending :
    ∃ entries : List InitialMemMapEntry,
      Canonical [⟨.conventionalMemory, 8192, 3, efiMemoryWB⟩,
        ⟨.conventionalMemory, 4096, 1, efiMemoryWB⟩] entries ∧
      ∀ map' : List EfiMemoryDescriptor,
        map'.Perm [⟨.conventionalMemory, 8192, 3, efiMemoryWB⟩,
          ⟨.conventionalMemory, 4096, 1, efiMemoryWB⟩] →
        ∀ (σ : Type) (pFunc : InitialMemMapEntry → σ → σ) (pUserData : σ),
          Returns (iterEfiMemMapAsInitMap map' pFunc pUserData)
            (entries.foldl (fun s e => pFunc e s) pUserData) :=
  iterEfiMemMapAsInitMap_canonical
    { aligned := by decide
      nonempty := by decide
      disjoint := by simp [EfiMemoryDescriptor.start, EfiMemoryDescriptor.stop]
      below := by simp [EfiMemoryDescriptor.stop] }

end Canonical

end Kernel
end DexprOS
