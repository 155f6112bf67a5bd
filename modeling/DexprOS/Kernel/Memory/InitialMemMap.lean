import DexprOS.Kernel.Memory.MemoryDef
import DexprOS.Library.Spans

/-!
# The initial memory map

Entries of the map that the boot code builds before the physical memory
structures exist, and the iteration over its combined physical ranges.

Main facts:
* `iterateInitialMemMapCombinedPhysRanges_eq_foldl`: the iteration calls its
  callback on `combinedPhysRanges`, in order;
* `combinedPhysRanges_spans`: for entries that do not wrap, these ranges are the
  coalesced spans of the entries, labelled by type and flags.
-/

namespace DexprOS
namespace Kernel

open Spans

universe u

section InitialMemMap

/-- `DexprOS_InitialMemMapMappedUsage`. -/
inductive InitialMemMapMappedUsage where
  | none
  | mapped
  | kernelCode
  | kernelData
  | bootCode
  | bootData
  | initialMemMap
deriving DecidableEq, Repr

/-- `DexprOS_InitialMemMapEntry`. -/
structure InitialMemMapEntry where
  memoryType : PhysicalMemoryType
  usage : InitialMemMapMappedUsage
  flags : UInt64
  physicalAddress : UInt64
  virtualAddress : UInt64
  numPhysicalPages : UInt64
deriving DecidableEq, Repr

namespace InitialMemMapEntry

/-- First physical address, as a number. -/
def start (e : InitialMemMapEntry) : Nat :=
  e.physicalAddress.toNat

/-- One past the last physical address, as an exact number. -/
def stop (e : InitialMemMapEntry) : Nat :=
  e.physicalAddress.toNat + e.numPhysicalPages.toNat * 4096

/-- The entry contains the physical page with number `p`. -/
def HasPage (e : InitialMemMapEntry) (p : Nat) : Prop :=
  e.start ≤ p * 4096 ∧ p * 4096 < e.stop

/-- The entry is available for allocation for any purpose. -/
def Available (e : InitialMemMapEntry) : Prop :=
  e.memoryType = .usable ∧ e.usage = .mapped

/-- The entry's physical range, labelled by memory type and flags. -/
def physSpan (e : InitialMemMapEntry) : Span (PhysicalMemoryType × UInt64) where
  start := e.start
  stop := e.stop
  label := (e.memoryType, e.flags)

/-- The end address computed by the code is the exact one. -/
theorem end_toNat
    {e : InitialMemMapEntry} (h : e.stop ≤ 2 ^ 63) :
    (e.physicalAddress + e.numPhysicalPages * physicalPageSize).toNat =
      e.stop := by
  unfold stop at *
  rw [UInt64.toNat_add, UInt64.toNat_mul, show physicalPageSize.toNat = 4096 from rfl]
  omega

/-- Two entries of an ascending list are equal or apart. -/
theorem eq_or_apart
    {entries : List InitialMemMapEntry}
    (hasc : entries.Pairwise (fun a b => a.stop ≤ b.start))
    {a b : InitialMemMapEntry} (ha : a ∈ entries) (hb : b ∈ entries) :
    a = b ∨ a.stop ≤ b.start ∨ b.stop ≤ a.start := by
  rw [or_iff_not_imp_left]
  have hsymm : Std.Symm (fun a b : InitialMemMapEntry =>
      a.stop ≤ b.start ∨ b.stop ≤ a.start) := ⟨fun _ _ h => h.symm⟩
  have hapart : entries.Pairwise (fun a b : InitialMemMapEntry =>
      a.stop ≤ b.start ∨ b.stop ≤ a.start) := hasc.imp Or.inl
  exact List.Pairwise.forall hapart ha hb

end InitialMemMapEntry

/-- `DexprOS_InitialMemMap`, together with what the memory behind `pEntries`
holds, entry by entry. -/
structure InitialMemMap where
  pEntries : UInt64
  numEntries : UInt64
  content : Nat → InitialMemMapEntry

/-- The entries that belong to the map. -/
def InitialMemMap.entries (m : InitialMemMap) : List InitialMemMapEntry :=
  (List.range m.numEntries.toNat).map m.content

/-- The arguments of `DexprOS_InitialMemMapPhysIterFunc`. -/
structure PhysRange where
  physicalAddress : UInt64
  rangeSize : UInt64
  memType : PhysicalMemoryType
  memFlags : UInt64
deriving DecidableEq, Repr

namespace PhysRange

/-- First physical address, as a number. -/
def start (r : PhysRange) : Nat :=
  r.physicalAddress.toNat

/-- One past the last physical address, as an exact number. -/
def stop (r : PhysRange) : Nat :=
  r.physicalAddress.toNat + r.rangeSize.toNat

/-- The range, labelled by memory type and flags. -/
def span (r : PhysRange) : Span (PhysicalMemoryType × UInt64) where
  start := r.start
  stop := r.stop
  label := (r.memType, r.memFlags)

end PhysRange

section Iterate

variable {σ : Type u}

/-- The iteration with a range under way.  The inner `while` and the outer `for`
of the source share the index, so together they pass over the entries once. -/
def iterateCombinedFrom (pFunc : PhysRange → σ → σ)
    (start numPages rangeEnd : UInt64)
    (memType : PhysicalMemoryType) (memFlags : UInt64) :
    List InitialMemMapEntry → σ → σ
  | [], pUserData =>
      pFunc ⟨start, numPages * physicalPageSize, memType, memFlags⟩ pUserData
  | e :: entries, pUserData =>
      if e.memoryType = memType ∧ e.flags = memFlags ∧
          e.physicalAddress = rangeEnd then
        iterateCombinedFrom pFunc start
          (numPages + e.numPhysicalPages)
          (rangeEnd + e.numPhysicalPages * physicalPageSize)
          memType memFlags entries pUserData
      else
        iterateCombinedFrom pFunc e.physicalAddress e.numPhysicalPages
          (e.physicalAddress + e.numPhysicalPages * physicalPageSize)
          e.memoryType e.flags entries
          (pFunc ⟨start, numPages * physicalPageSize, memType, memFlags⟩ pUserData)

/-- `DexprOS_IterateInitialMemMapCombinedPhysRanges`. -/
def iterateInitialMemMapCombinedPhysRanges
    (pMemMap : List InitialMemMapEntry)
    (pFunc : PhysRange → σ → σ) (pUserData : σ) : σ :=
  match pMemMap with
  | [] => pUserData
  | e :: entries =>
      iterateCombinedFrom pFunc e.physicalAddress e.numPhysicalPages
        (e.physicalAddress + e.numPhysicalPages * physicalPageSize)
        e.memoryType e.flags entries pUserData

end Iterate

/-- The ranges on which the iteration calls its callback. -/
def combinedPhysRanges (pMemMap : List InitialMemMapEntry) : List PhysRange :=
  iterateInitialMemMapCombinedPhysRanges pMemMap (fun r ranges => ranges ++ [r]) []

theorem iterateCombinedFrom_eq_foldl
    {σ : Type u} (pFunc : PhysRange → σ → σ)
    (entries : List InitialMemMapEntry) :
    ∀ (start numPages rangeEnd : UInt64) (memType : PhysicalMemoryType)
      (memFlags : UInt64) (ranges : List PhysRange) (pUserData : σ),
      iterateCombinedFrom pFunc start numPages rangeEnd memType memFlags entries
          (ranges.foldl (fun s r => pFunc r s) pUserData) =
        (iterateCombinedFrom (fun r rs => rs ++ [r]) start numPages rangeEnd
          memType memFlags entries ranges).foldl
            (fun s r => pFunc r s) pUserData := by
  induction entries with
  | nil =>
      intro start numPages rangeEnd memType memFlags ranges pUserData
      simp [iterateCombinedFrom]
  | cons e entries ih =>
      intro start numPages rangeEnd memType memFlags ranges pUserData
      rw [iterateCombinedFrom, iterateCombinedFrom]
      split_ifs with hjoin
      · exact ih _ _ _ _ _ ranges pUserData
      · rw [← ih]
        simp

/-- The callback sees exactly the combined ranges, in order. -/
theorem iterateInitialMemMapCombinedPhysRanges_eq_foldl
    {σ : Type u} (pMemMap : List InitialMemMapEntry)
    (pFunc : PhysRange → σ → σ) (pUserData : σ) :
    iterateInitialMemMapCombinedPhysRanges pMemMap pFunc pUserData =
      (combinedPhysRanges pMemMap).foldl (fun s r => pFunc r s) pUserData := by
  cases pMemMap with
  | nil =>
      rfl
  | cons e entries =>
      exact iterateCombinedFrom_eq_foldl pFunc entries _ _ _ _ _ [] pUserData

/-- A range under way is the pending span of the coalescing. -/
theorem iterateCombinedFrom_spans
    (entries : List InitialMemMapEntry) :
    ∀ (start numPages rangeEnd : UInt64) (memType : PhysicalMemoryType)
      (memFlags : UInt64) (ranges : List PhysRange),
      (∀ e, e ∈ entries → e.stop ≤ 2 ^ 63) →
      start.toNat + numPages.toNat * 4096 = rangeEnd.toNat →
      rangeEnd.toNat ≤ 2 ^ 63 →
      (iterateCombinedFrom (fun r rs => rs ++ [r]) start numPages rangeEnd
          memType memFlags entries ranges).map PhysRange.span =
        ranges.map PhysRange.span ++
          coalesceFrom ⟨start.toNat, rangeEnd.toNat, (memType, memFlags)⟩
            (entries.map InitialMemMapEntry.physSpan) := by
  have hspan : ∀ (start numPages rangeEnd : UInt64)
      (memType : PhysicalMemoryType) (memFlags : UInt64),
      start.toNat + numPages.toNat * 4096 = rangeEnd.toNat →
      PhysRange.span ⟨start, numPages * physicalPageSize, memType, memFlags⟩ =
        ⟨start.toNat, rangeEnd.toNat, (memType, memFlags)⟩ := by
    intro start numPages rangeEnd memType memFlags hend
    have hlt := rangeEnd.toNat_lt
    have hsize : (numPages * physicalPageSize).toNat = numPages.toNat * 4096 := by
      rw [UInt64.toNat_mul, show physicalPageSize.toNat = 4096 from rfl]
      omega
    simp only [PhysRange.span, PhysRange.start, PhysRange.stop, hsize, hend]
  induction entries with
  | nil =>
      intro start numPages rangeEnd memType memFlags ranges _ hend _
      simp [iterateCombinedFrom, coalesceFrom, hspan _ _ _ _ _ hend]
  | cons e entries ih =>
      intro start numPages rangeEnd memType memFlags ranges hentries hend hlimit
      have hrest : ∀ e, e ∈ entries → e.stop ≤ 2 ^ 63 :=
        fun d hd => hentries d (List.mem_cons_of_mem e hd)
      have he := hentries e (by simp)
      have hjoin : Joinable
            ⟨start.toNat, rangeEnd.toNat, (memType, memFlags)⟩ e.physSpan ↔
          e.memoryType = memType ∧ e.flags = memFlags ∧
            e.physicalAddress = rangeEnd := by
        simp only [Joinable, InitialMemMapEntry.physSpan,
          InitialMemMapEntry.start, Prod.mk.injEq, UInt64.toNat_inj]
        constructor
        · rintro ⟨rfl, rfl, rfl⟩
          exact ⟨rfl, rfl, rfl⟩
        · rintro ⟨rfl, rfl, rfl⟩
          exact ⟨rfl, rfl, rfl⟩
      rw [iterateCombinedFrom, List.map_cons, coalesceFrom]
      by_cases h : e.memoryType = memType ∧ e.flags = memFlags ∧
          e.physicalAddress = rangeEnd
      · rw [if_pos h, if_pos (hjoin.mpr h)]
        have hstop := InitialMemMapEntry.end_toNat he
        rw [h.2.2] at hstop
        have hsum : (numPages + e.numPhysicalPages).toNat =
            numPages.toNat + e.numPhysicalPages.toNat := by
          have hadd : e.stop = rangeEnd.toNat + e.numPhysicalPages.toNat * 4096 := by
            rw [InitialMemMapEntry.stop, h.2.2]
          rw [UInt64.toNat_add]
          omega
        rw [ih _ _ _ _ _ ranges hrest _ (by omega), hstop]
        · rfl
        · rw [hsum, hstop, InitialMemMapEntry.stop, h.2.2, Nat.add_mul,
            ← Nat.add_assoc, hend]
      · rw [if_neg h, if_neg (fun hj => h (hjoin.mp hj))]
        have hstop := InitialMemMapEntry.end_toNat he
        rw [ih _ _ _ _ _ _ hrest (by rw [hstop, InitialMemMapEntry.stop]) (by omega),
          hstop]
        simp only [List.map_append, List.map_cons, List.map_nil,
          hspan _ _ _ _ _ hend, List.append_assoc, List.cons_append,
          List.nil_append]
        rfl

/-- For entries below `2 ^ 63` the combined ranges are the coalesced physical
spans of the entries. -/
theorem combinedPhysRanges_spans
    {pMemMap : List InitialMemMapEntry}
    (h : ∀ e, e ∈ pMemMap → e.stop ≤ 2 ^ 63) :
    (combinedPhysRanges pMemMap).map PhysRange.span =
      coalesce (pMemMap.map InitialMemMapEntry.physSpan) := by
  cases pMemMap with
  | nil =>
      rfl
  | cons e entries =>
      have he := h e (by simp)
      have hstop := InitialMemMapEntry.end_toNat he
      have hspans := iterateCombinedFrom_spans entries e.physicalAddress
        e.numPhysicalPages
        (e.physicalAddress + e.numPhysicalPages * physicalPageSize)
        e.memoryType e.flags []
        (fun d hd => h d (List.mem_cons_of_mem e hd))
        (by rw [hstop, InitialMemMapEntry.stop]) (by omega)
      rw [hstop] at hspans
      exact hspans

/-- Entries that follow each other upwards without overlap, none of them empty. -/
structure AscendingEntries (entries : List InitialMemMapEntry) : Prop where
  ascending : entries.Pairwise (fun a b => a.stop ≤ b.start)
  nonempty : ∀ e, e ∈ entries → 0 < e.numPhysicalPages.toNat
  below : ∀ e, e ∈ entries → e.stop ≤ 2 ^ 63

/-- Their physical spans are ordered. -/
theorem AscendingEntries.ordered
    {entries : List InitialMemMapEntry} (h : AscendingEntries entries) :
    Ordered (entries.map InitialMemMapEntry.physSpan) where
  ascending := List.pairwise_map.mpr h.ascending
  nonempty := by
    intro a ha
    obtain ⟨e, he, rfl⟩ := List.mem_map.mp ha
    have hpos := h.nonempty e he
    show e.physicalAddress.toNat < e.physicalAddress.toNat + _
    omega

/-- So are those of the combined ranges. -/
theorem AscendingEntries.ordered_combinedPhysRanges
    {pMemMap : List InitialMemMapEntry} (h : AscendingEntries pMemMap) :
    Ordered ((combinedPhysRanges pMemMap).map PhysRange.span) := by
  rw [combinedPhysRanges_spans h.below]
  exact ordered_coalesce h.ordered

/-- What holds of all entries' spans, and of two joined ones, holds of the
combined ranges. -/
theorem AscendingEntries.combinedPhysRanges_forall
    {pMemMap : List InitialMemMapEntry} (h : AscendingEntries pMemMap)
    {P : Span (PhysicalMemoryType × UInt64) → Prop}
    (hP : ∀ a b, Joinable a b → P a → P b → P { a with stop := b.stop })
    (hentries : ∀ e, e ∈ pMemMap → P e.physSpan) :
    ∀ r, r ∈ combinedPhysRanges pMemMap → P r.span := by
  intro r hr
  refine coalesce_forall hP (?_ : ∀ a, a ∈ pMemMap.map InitialMemMapEntry.physSpan → P a) _ ?_
  · intro a ha
    obtain ⟨e, he, rfl⟩ := List.mem_map.mp ha
    exact hentries e he
  · rw [← combinedPhysRanges_spans h.below]
    exact List.mem_map_of_mem hr

end InitialMemMap

end Kernel
end DexprOS
