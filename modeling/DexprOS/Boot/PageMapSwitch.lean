import DexprOS.Boot.EndBootPhase
import DexprOS.Boot.PageMapSize
import DexprOS.Kernel.Memory.MemoryDef

/-!
# The page map buffer and the switch

`SwitchToIdentityPageMap` of `EndBootPhase.c` works in a buffer that `FillPageMapSizes`
divided into areas before the boot services ended.

The switch is modelled with the memory that the setup functions build their tables in, and
with the list of its calls.  What lies in the relocated code and in the scratch buffer is not
modelled: the calls that fill them are recorded.

Main facts:
* `CalculatorConditions.calculateSize`: each page map fits into its calculated size;
* `fillPageMapSizes_planned`: the plan of each setup type;
* `pageMapPlan_sound`: the switch stays in the areas of the plan, and none of its setups
  fails.
-/

namespace DexprOS
namespace Boot

open Efi Fuel

section Switch

/-- A call of the switch, with the pointer that a setup function returned. -/
inductive SwitchCall where
  | setup (pageMapBuffer pageMapBufferSize : UInt64) (pml : Nat)
  | switchPageMap (pml : Nat)
  | memcpy (destination source size : UInt64)
  | memset (buffer : UInt64) (value : UInt8) (size : UInt64)
  | switchPageMap4To5 (function : UInt64) (pml : Nat) (scratchBuffer : UInt64)
deriving DecidableEq, Repr

structure SwitchState where
  memory : Nat → Nat
  calls : List SwitchCall

def SwitchState.call (call : SwitchCall) (s : SwitchState) : SwitchState :=
  { s with calls := s.calls ++ [call] }

/-- A call of a setup function. -/
def SwitchState.setup (setup : Nat → Nat → (Nat → Nat) → Nat × TableSpace)
    (pageMapBuffer pageMapBufferSize : UInt64) (s : SwitchState) : Nat × SwitchState :=
  let r := setup pageMapBuffer.toNat pageMapBufferSize.toNat s.memory
  (r.1, { s.call (.setup pageMapBuffer pageMapBufferSize r.1) with memory := r.2.memory })

variable (memoryMap : List EfiMemoryDescriptor) (framebufferBase framebufferSize : UInt64)

def createAndSwitchPageMap4 (b : PageMapSetupBuffer) (s : SwitchState) : Bool × SwitchState :=
  let pageMapMemory := b.pBuffer + b.pageMapOffset
  let (pml, s) := s.setup (setupInitialPageMap4 memoryMap framebufferBase framebufferSize)
    pageMapMemory b.pageMapSize
  if pml = 0 then (false, s)
  else (true, s.call (.switchPageMap pml))

def createAndSwitchPageMap5 (b : PageMapSetupBuffer) (s : SwitchState) : Bool × SwitchState :=
  let pageMapMemory := b.pBuffer + b.pageMapOffset
  let (pml, s) := s.setup (setupInitialPageMap5 memoryMap framebufferBase framebufferSize)
    pageMapMemory b.pageMapSize
  if pml = 0 then (false, s)
  else (true, s.call (.switchPageMap pml))

def createAndSwitchPageMap4To5Below4G (region : SwitchRegion) (b : PageMapSetupBuffer)
    (s : SwitchState) : Bool × SwitchState :=
  let pageMapMemory := b.pBuffer + b.pageMapOffset
  let (pml, s) := s.setup (setupInitialPageMap5 memoryMap framebufferBase framebufferSize)
    pageMapMemory b.pageMapSize
  if pml = 0 then (false, s)
  else
    let scratchBuffer := b.pBuffer + b.transitionData.codeScratchBufferOffset
    let s := s.call (.memset scratchBuffer 0 pageMap4To5ScratchBufferSize)
    (true, s.call (.switchPageMap4To5 region.start pml scratchBuffer))

def createAndSwitchPageMap4To5Above4G (region : SwitchRegion) (b : PageMapSetupBuffer)
    (s : SwitchState) : Bool × SwitchState :=
  let pageMap4Memory := b.pBuffer + b.transitionData.tmpPageMap4BufferOffset
  let (tmpPml, s) := s.setup (setupTransitionalPageMap4 memoryMap)
    pageMap4Memory b.transitionData.tmpPageMap4BufferSize
  if tmpPml = 0 then (false, s)
  else
    let s := s.call (.switchPageMap tmpPml)
    let pageMap5Memory := b.pBuffer + b.pageMapOffset
    let (pml, s) := s.setup (setupInitialPageMap5 memoryMap framebufferBase framebufferSize)
      pageMap5Memory b.pageMapSize
    if pml = 0 then (false, s)
    else
      let pageSwitchRellocCode := b.pBuffer + b.transitionData.codeRellocBufferOffset
      let codeRellocSize := region.stop - region.start
      let s := s.call (.memcpy pageSwitchRellocCode region.start codeRellocSize)
      let scratchBuffer := b.pBuffer + b.transitionData.codeScratchBufferOffset
      let s := s.call (.memset scratchBuffer 0 pageMap4To5ScratchBufferSize)
      (true, s.call (.switchPageMap4To5 pageSwitchRellocCode pml scratchBuffer))

def switchToIdentityPageMap (region : SwitchRegion) (pageMapSetupType : PageMapSetupType)
    (b : PageMapSetupBuffer) (s : SwitchState) : Bool × SwitchState :=
  match pageMapSetupType with
  | .pageMap4Setup => createAndSwitchPageMap4 memoryMap framebufferBase framebufferSize b s
  | .pageMap5Setup => createAndSwitchPageMap5 memoryMap framebufferBase framebufferSize b s
  | .pageMap4To5Transition =>
      if region.stop < 4294967296 then
        createAndSwitchPageMap4To5Below4G memoryMap framebufferBase framebufferSize region b s
      else
        createAndSwitchPageMap4To5Above4G memoryMap framebufferBase framebufferSize region b s

end Switch

section Areas

/-- The areas of the buffer. -/
inductive BufferArea where
  | pageMap
  | tmpPageMap4
  | codeRelloc
  | codeScratch
deriving DecidableEq, Repr

namespace BufferArea

def offset (b : PageMapSetupBuffer) : BufferArea → UInt64
  | pageMap => b.pageMapOffset
  | tmpPageMap4 => b.transitionData.tmpPageMap4BufferOffset
  | codeRelloc => b.transitionData.codeRellocBufferOffset
  | codeScratch => b.transitionData.codeScratchBufferOffset

def size (b : PageMapSetupBuffer) : BufferArea → UInt64
  | pageMap => b.pageMapSize
  | tmpPageMap4 => b.transitionData.tmpPageMap4BufferSize
  | codeRelloc => b.transitionData.codeRellocBufferSize
  | codeScratch => b.transitionData.codeScratchBufferSize

def alignment : BufferArea → Nat
  | pageMap => 4096
  | tmpPageMap4 => 4096
  | codeRelloc => 1
  | codeScratch => 16

/-- Address and size in a buffer. -/
def place (b : PageMapSetupBuffer) (area : BufferArea) : Nat × Nat :=
  (b.pBuffer.toNat + (area.offset b).toNat, (area.size b).toNat)

end BufferArea

/-- The areas that a setup type uses, in the order of their use. -/
def usedAreas (region : SwitchRegion) : PageMapSetupType → List BufferArea
  | .pageMap4Setup => [.pageMap]
  | .pageMap5Setup => [.pageMap]
  | .pageMap4To5Transition =>
      if region.stop < 4294967296 then [.pageMap, .codeScratch]
      else [.tmpPageMap4, .pageMap, .codeRelloc, .codeScratch]

/-- Two places share no byte. -/
def Separate (p q : Nat × Nat) : Prop :=
  p.1 + p.2 ≤ q.1 ∨ q.1 + q.2 ≤ p.1

/-- The used areas lie apart from each other, inside of the buffer, and as they are to be
aligned. -/
structure PlanSound (areas : List BufferArea) (b : PageMapSetupBuffer) : Prop where
  separate : areas.Pairwise fun u v => Separate (u.place b) (v.place b)
  inside : ∀ u ∈ areas, b.pBuffer.toNat ≤ (u.place b).1 ∧
    (u.place b).1 + (u.place b).2 ≤ b.pBuffer.toNat + b.bufferSize.toNat
  aligned : ∀ u ∈ areas, u.alignment ∣ (u.place b).1

/-- The place that a call writes to. -/
def SwitchCall.place : SwitchCall → Option (Nat × Nat)
  | setup pageMapBuffer pageMapBufferSize _ =>
      some (pageMapBuffer.toNat, pageMapBufferSize.toNat)
  | memcpy destination _ size => some (destination.toNat, size.toNat)
  | memset buffer _ size => some (buffer.toNat, size.toNat)
  | switchPageMap _ => none
  | switchPageMap4To5 _ _ _ => none

/-- What the assembly file gives: its labels are in order, and the code between them fits
into the 4 GiB in which it has to run. -/
structure SwitchRegion.Assembled (region : SwitchRegion) : Prop where
  start_le : region.start.toNat ≤ region.stop.toNat
  length_le : region.stop.toNat - region.start.toNat ≤ 2 ^ 32

end Areas

section Conditions

variable {map : List EfiMemoryDescriptor} {framebufferBase framebufferSize : UInt64}

/-- The conditions of the calculators: the included descriptors and the framebuffer are not
empty, they lie apart from each other, and they end below 256 TiB. -/
structure CalculatorConditions (map : List EfiMemoryDescriptor)
    (framebufferBase framebufferSize : UInt64) : Prop where
  nonempty : ∀ range ∈ PageMapKind.initial4.ranges map framebufferBase framebufferSize,
    range.1 < range.2
  apart : (PageMapKind.initial4.ranges map framebufferBase framebufferSize).Pairwise
    fun a b => a.2 ≤ b.1 ∨ b.2 ≤ a.1
  below : ∀ range ∈ PageMapKind.initial4.ranges map framebufferBase framebufferSize,
    range.2 ≤ 2 ^ 48

theorem shouldIncludeInPageMap_of_transitional
    {type : EfiMemoryType} {attributes : UInt64}
    (h : shouldIncludeInTransitionalPageMap type attributes = true) :
    shouldIncludeInPageMap type attributes = true := by
  unfold shouldIncludeInTransitionalPageMap at h
  unfold shouldIncludeInPageMap
  split at h <;> first | rfl | (split <;> first | rfl | exact h)

/-- The transitional map has some of the ranges of the others. -/
theorem ranges_sublist (kind : PageMapKind) :
    (kind.ranges map framebufferBase framebufferSize).Sublist
      (PageMapKind.initial4.ranges map framebufferBase framebufferSize) := by
  cases kind with
  | initial4 => exact List.Sublist.refl _
  | initial5 => exact List.Sublist.refl _
  | transitional4 =>
      refine List.Sublist.append (List.Sublist.map _ ?_) (List.nil_sublist _)
      refine List.monotone_filter_right map fun d hd => ?_
      exact shouldIncludeInPageMap_of_transitional hd

/-- The setup of a page map succeeds in every buffer of the size. -/
def SetupFits (map : List EfiMemoryDescriptor) (framebufferBase framebufferSize : UInt64)
    (kind : PageMapKind) (size : UInt64) : Prop :=
  ∀ (buffer : Nat) (memory : Nat → Nat), 0 < buffer → 4096 ∣ buffer →
    buffer + size.toNat ≤ 2 ^ 64 →
    (kind.setup map framebufferBase framebufferSize buffer size.toNat memory).1 ≠ 0

/-- Each page map fits into its calculated size. -/
theorem CalculatorConditions.calculateSize
    (h : CalculatorConditions map framebufferBase framebufferSize) (kind : PageMapKind) :
    ∃ size, Returns (kind.calculateSize map framebufferBase framebufferSize) size ∧
      4096 ∣ size.toNat ∧ 0 < size.toNat ∧ size.toNat ≤ 2 ^ 51 ∧
      SetupFits map framebufferBase framebufferSize kind size := by
  have hsublist : (kind.ranges map framebufferBase framebufferSize).Sublist
      (PageMapKind.initial4.ranges map framebufferBase framebufferSize) := ranges_sublist kind
  have hlimit : 2 ^ 48 ≤ 2 ^ (12 + 9 * kind.levels) :=
    Nat.pow_le_pow_right (by decide) (by cases kind <;> decide)
  have hbelow : ∀ range ∈ kind.ranges map framebufferBase framebufferSize,
      range.2 ≤ 2 ^ (12 + 9 * kind.levels) :=
    fun range hr => (h.below range (hsublist.subset hr)).trans hlimit
  obtain ⟨size, hreturns, hsize⟩ := PageMapKind.calculateSize_returns
    (fun range hr => h.nonempty range (hsublist.subset hr)) (h.apart.sublist hsublist) hbelow
  have hpow : 512 ^ kind.levels ≤ 2 ^ 45 := Nat.pow_le_pow_right (by decide) kind.levels_le
  have hle := tablesNeeded_le kind.levels_le
    fun p hp => (pagesOfRanges_lt hbelow p hp).trans_le hpow
  refine ⟨size, hreturns, ⟨_, hsize⟩, ?_, ?_, fun buffer memory hpos halign hbuffer => ?_⟩
  · rw [hsize, tablesNeeded]
    omega
  · rw [hsize]
    omega
  · rw [← PageMapKind.tablesForRanges_eq hbelow] at hsize
    have hword : ∀ range ∈ kind.ranges map framebufferBase framebufferSize,
        range.2 < 2 ^ 64 :=
      fun range hr => (hbelow range hr).trans_lt kind.limit_lt_word
    obtain ⟨-, hroot, -⟩ | ⟨hlt, -⟩ := PageMapKind.setup_consumes hword
      (Nat.mod_eq_zero_of_dvd halign) hbuffer memory
    · rw [hroot]
      exact hpos.ne'
    · exact absurd hsize hlt.ne

end Conditions

section Plan

variable {map : List EfiMemoryDescriptor} {framebufferBase framebufferSize : UInt64}
variable {region : SwitchRegion} {b : PageMapSetupBuffer}

/-- Offset and size of an area. -/
def BufferArea.room (b : PageMapSetupBuffer) (area : BufferArea) : Nat × Nat :=
  ((area.offset b).toNat, (area.size b).toNat)

/-- A plan for a buffer of the required size. -/
structure PlanFits (areas : List BufferArea) (b : PageMapSetupBuffer) (required : Nat) :
    Prop where
  separate : areas.Pairwise fun u v => Separate (u.room b) (v.room b)
  inside : ∀ u ∈ areas, (u.room b).1 + (u.room b).2 ≤ required ∧ (u.room b).1 < required
  aligned : ∀ u ∈ areas, u.alignment ∣ (u.room b).1

/-- The kind of the page map that a setup type ends with. -/
def finalKind : PageMapSetupType → PageMapKind
  | .pageMap4Setup => .initial4
  | .pageMap5Setup => .initial5
  | .pageMap4To5Transition => .initial5

/-- A plan whose areas have the sizes that the switch relies on. -/
structure Planned (map : List EfiMemoryDescriptor) (framebufferBase framebufferSize : UInt64)
    (region : SwitchRegion) (pageMapSetupType : PageMapSetupType) (b : PageMapSetupBuffer)
    (required : Nat) : Prop where
  fits : PlanFits (usedAreas region pageMapSetupType) b required
  pageMap : SetupFits map framebufferBase framebufferSize (finalKind pageMapSetupType)
    b.pageMapSize
  tmpPageMap4 : .tmpPageMap4 ∈ usedAreas region pageMapSetupType →
    SetupFits map framebufferBase framebufferSize .transitional4
      b.transitionData.tmpPageMap4BufferSize
  codeRelloc : .codeRelloc ∈ usedAreas region pageMapSetupType →
    b.transitionData.codeRellocBufferSize = region.stop - region.start
  codeScratch : .codeScratch ∈ usedAreas region pageMapSetupType →
    b.transitionData.codeScratchBufferSize = pageMap4To5ScratchBufferSize

/-- A page map alone starts at the buffer's start. -/
theorem PlanFits.pageMap
    (hoffset : b.pageMapOffset = 0) (hpos : 0 < b.pageMapSize.toNat) :
    PlanFits [.pageMap] b b.pageMapSize.toNat where
  separate := List.pairwise_singleton _ _
  inside := by
    intro u hu
    obtain rfl := List.mem_singleton.mp hu
    show b.pageMapOffset.toNat + b.pageMapSize.toNat ≤ _ ∧ b.pageMapOffset.toNat < _
    rw [hoffset, UInt64.toNat_zero, Nat.zero_add]
    exact ⟨le_rfl, hpos⟩
  aligned := by
    intro u hu
    obtain rfl := List.mem_singleton.mp hu
    show 4096 ∣ b.pageMapOffset.toNat
    rw [hoffset]
    exact Nat.dvd_zero _

theorem fillPageMap4Sizes_planned
    (h : CalculatorConditions map framebufferBase framebufferSize) (plan : PageMapSetupBuffer) :
    ∃ b required, Returns (fillPageMap4Sizes map framebufferBase framebufferSize plan)
        (b, required) ∧
      Planned map framebufferBase framebufferSize region .pageMap4Setup b required.toNat := by
  obtain ⟨size, hreturns, -, hpos, -, hfits⟩ := h.calculateSize .initial4
  exact ⟨_, size, hreturns.bind (returns_pure _), PlanFits.pageMap rfl hpos, hfits,
    by simp [usedAreas], by simp [usedAreas], by simp [usedAreas]⟩

theorem fillPageMap5Sizes_planned
    (h : CalculatorConditions map framebufferBase framebufferSize) (plan : PageMapSetupBuffer) :
    ∃ b required, Returns (fillPageMap5Sizes map framebufferBase framebufferSize plan)
        (b, required) ∧
      Planned map framebufferBase framebufferSize region .pageMap5Setup b required.toNat := by
  obtain ⟨size, hreturns, -, hpos, -, hfits⟩ := h.calculateSize .initial5
  exact ⟨_, size, hreturns.bind (returns_pure _), PlanFits.pageMap rfl hpos, hfits,
    by simp [usedAreas], by simp [usedAreas], by simp [usedAreas]⟩

/-- The scratch buffer behind the page map. -/
theorem PlanFits.scratch_behind
    {level5 : Nat} (hpageMap : BufferArea.pageMap.room b = (0, level5))
    (hscratch : BufferArea.codeScratch.room b = (level5, 128))
    (hdvd : 4096 ∣ level5) :
    PlanFits [.pageMap, .codeScratch] b (level5 + 128) := by
  refine ⟨?_, ?_, ?_⟩
  · simp only [List.pairwise_cons, List.mem_cons, List.not_mem_nil, or_false, forall_eq,
      hpageMap, hscratch, Separate, false_imp_iff, implies_true, List.Pairwise.nil, and_true]
    omega
  · simp only [List.forall_mem_cons, hpageMap, hscratch, List.not_mem_nil, false_imp_iff,
      implies_true, and_true]
    omega
  · simp only [List.forall_mem_cons, hpageMap, hscratch, List.not_mem_nil, false_imp_iff,
      implies_true, and_true, BufferArea.alignment]
    omega

/-- The temporary page map, the code and the scratch buffer behind the page map. -/
theorem PlanFits.code_behind
    {level5 level4 code scratch : Nat} (hpageMap : BufferArea.pageMap.room b = (0, level5))
    (htmp : BufferArea.tmpPageMap4.room b = (level5, level4))
    (hcode : BufferArea.codeRelloc.room b = (level5 + level4, code))
    (hscratch : BufferArea.codeScratch.room b = (scratch, 128))
    (hlevel5 : 4096 ∣ level5) (hpast : level5 + level4 + code ≤ scratch)
    (haligned : 16 ∣ scratch) :
    PlanFits [.tmpPageMap4, .pageMap, .codeRelloc, .codeScratch] b (scratch + 128) := by
  refine ⟨?_, ?_, ?_⟩
  · simp only [List.pairwise_cons, List.mem_cons, List.not_mem_nil, or_false, forall_eq,
      forall_eq_or_imp, hpageMap, htmp, hcode, hscratch, Separate, false_imp_iff, implies_true,
      List.Pairwise.nil, and_true]
    omega
  · simp only [List.forall_mem_cons, hpageMap, htmp, hcode, hscratch, List.not_mem_nil,
      false_imp_iff, implies_true, and_true]
    omega
  · simp only [List.forall_mem_cons, hpageMap, htmp, hcode, hscratch, List.not_mem_nil,
      false_imp_iff, implies_true, and_true, BufferArea.alignment]
    omega

/-- The alignment of the scratch buffer rounds up. -/
theorem align_scratch
    {x : UInt64} (hx : x.toNat ≤ 2 ^ 60) :
    (align x pageMap4To5ScratchBufferAlign).toNat = (x.toNat + 15) / 16 * 16 :=
  Kernel.align_toNat (k := 4) (by decide) rfl (by omega)

/-- A whole number of pages stays as it is. -/
theorem align_page
    {x : UInt64} (hx : x.toNat ≤ 2 ^ 60) (hdvd : 4096 ∣ x.toNat) :
    (align x (UInt64.ofNat initialPageSize)).toNat = x.toNat := by
  have halign := Kernel.align_toNat (x := x) (a := UInt64.ofNat initialPageSize) (k := 12)
    (by decide) rfl (by omega)
  have hround : (x.toNat + (2 ^ 12 - 1)) / 2 ^ 12 * 2 ^ 12 = x.toNat := by omega
  exact halign.trans hround

theorem fillPageMap4To5SizesBelow4G_planned
    (h : CalculatorConditions map framebufferBase framebufferSize)
    (hbelow : region.stop < 4294967296) (plan : PageMapSetupBuffer) :
    ∃ b required, Returns (fillPageMap4To5SizesBelow4G map framebufferBase framebufferSize plan)
        (b, required) ∧
      Planned map framebufferBase framebufferSize region .pageMap4To5Transition b
        required.toNat := by
  obtain ⟨level5Size, hreturns, hdvd, hpos, hle, hfits⟩ := h.calculateSize .initial5
  have htotal : (align level5Size pageMap4To5ScratchBufferAlign).toNat = level5Size.toNat := by
    rw [align_scratch (by omega)]
    omega
  have hrequired : (align level5Size pageMap4To5ScratchBufferAlign +
      pageMap4To5ScratchBufferSize).toNat = level5Size.toNat + 128 := by
    rw [UInt64.toNat_add, htotal, show pageMap4To5ScratchBufferSize.toNat = 128 from rfl]
    omega
  have hused : usedAreas region .pageMap4To5Transition = [.pageMap, .codeScratch] :=
    if_pos hbelow
  refine ⟨_, _, hreturns.bind (returns_pure _), ?_, hfits, ?_, ?_, fun _ => rfl⟩
  · rw [hused, hrequired]
    exact PlanFits.scratch_behind rfl (congrArg (·, 128) htotal) hdvd
  · simp [hused]
  · simp [hused]

/-- The areas of a transition whose code has to move. -/
theorem fillPageMap4To5SizesAbove4G_planned
    (h : CalculatorConditions map framebufferBase framebufferSize)
    (hregion : region.Assembled) (habove : ¬ region.stop < 4294967296)
    (plan : PageMapSetupBuffer) :
    ∃ b required, Returns
        (fillPageMap4To5SizesAbove4G map framebufferBase framebufferSize region plan)
        (b, required) ∧
      Planned map framebufferBase framebufferSize region .pageMap4To5Transition b
        required.toNat := by
  obtain ⟨level5Size, hreturns5, hdvd5, -, hle5, hfits5⟩ := h.calculateSize .initial5
  obtain ⟨level4Size, hreturns4, hdvd4, hpos4, hle4, hfits4⟩ := h.calculateSize .transitional4
  have hlength := hregion.length_le
  have hcode : (region.stop - region.start).toNat = region.stop.toNat - region.start.toNat :=
    UInt64.toNat_sub_of_le _ _ (UInt64.le_iff_toNat_le.mpr hregion.start_le)
  have htmp : (align level5Size (UInt64.ofNat initialPageSize)).toNat = level5Size.toNat :=
    align_page (by omega) hdvd5
  have hsum : (align level5Size (UInt64.ofNat initialPageSize) + level4Size).toNat =
      level5Size.toNat + level4Size.toNat := by
    rw [UInt64.toNat_add, htmp]
    omega
  have hreloc := align_page (by rw [hsum]; omega) (hsum ▸ Nat.dvd_add hdvd5 hdvd4)
  rw [hsum] at hreloc
  set codeRellocBufferOffset := align
    (align level5Size (UInt64.ofNat initialPageSize) + level4Size) (UInt64.ofNat initialPageSize)
  have hend : (codeRellocBufferOffset + (region.stop - region.start)).toNat =
      level5Size.toNat + level4Size.toNat + (region.stop.toNat - region.start.toNat) := by
    rw [UInt64.toNat_add, hreloc, hcode]
    omega
  have hscratch := align_scratch (x := codeRellocBufferOffset + (region.stop - region.start))
    (by omega)
  set codeScratchBufferOffset := align
    (codeRellocBufferOffset + (region.stop - region.start)) pageMap4To5ScratchBufferAlign
  have hrequired : (codeScratchBufferOffset + pageMap4To5ScratchBufferSize).toNat =
      codeScratchBufferOffset.toNat + 128 := by
    rw [UInt64.toNat_add, hscratch, show pageMap4To5ScratchBufferSize.toNat = 128 from rfl]
    omega
  have hused : usedAreas region .pageMap4To5Transition =
      [.tmpPageMap4, .pageMap, .codeRelloc, .codeScratch] :=
    if_neg habove
  refine ⟨_, _, hreturns5.bind (hreturns4.bind (returns_pure _)), ?_, hfits5, fun _ => hfits4,
    fun _ => rfl, fun _ => rfl⟩
  rw [hused, hrequired]
  exact @PlanFits.code_behind _ level5Size.toNat level4Size.toNat
    (region.stop.toNat - region.start.toNat) codeScratchBufferOffset.toNat rfl
    (congrArg (·, level4Size.toNat) htmp) (Prod.ext hreloc hcode) rfl hdvd5 (by omega)
    (by omega)

/-- The plan of every setup type. -/
theorem fillPageMapSizes_planned
    (h : CalculatorConditions map framebufferBase framebufferSize)
    (hregion : region.Assembled) (pageMapSetupType : PageMapSetupType)
    (plan : PageMapSetupBuffer) :
    ∃ b required, Returns
        (fillPageMapSizes map framebufferBase framebufferSize region pageMapSetupType plan)
        (b, required) ∧
      Planned map framebufferBase framebufferSize region pageMapSetupType b required.toNat := by
  cases pageMapSetupType with
  | pageMap4Setup => exact fillPageMap4Sizes_planned h plan
  | pageMap5Setup => exact fillPageMap5Sizes_planned h plan
  | pageMap4To5Transition =>
      unfold fillPageMapSizes
      by_cases hbelow : region.stop < 4294967296
      · simp only [if_pos hbelow]
        exact fillPageMap4To5SizesBelow4G_planned h hbelow plan
      · simp only [if_neg hbelow]
        exact fillPageMap4To5SizesAbove4G_planned h hregion hbelow plan

end Plan

section Sound

variable {map : List EfiMemoryDescriptor} {framebufferBase framebufferSize : UInt64}
variable {region : SwitchRegion} {b : PageMapSetupBuffer} {areas : List BufferArea}
variable {required : Nat}

/-- The buffer of a plan: aligned to pages, and not smaller than required. -/
structure HoldsPlan (b : PageMapSetupBuffer) (required : Nat) : Prop where
  pos : 0 < b.pBuffer.toNat
  aligned : 4096 ∣ b.pBuffer.toNat
  enough : required ≤ b.bufferSize.toNat
  fits : b.pBuffer.toNat + b.bufferSize.toNat ≤ 2 ^ 64

/-- The plan does not depend on the buffer. -/
theorem room_of_buffer (pBuffer bufferSize : UInt64) (area : BufferArea) :
    area.room { b with pBuffer := pBuffer, bufferSize := bufferSize } = area.room b := by
  cases area with
  | pageMap => rfl
  | tmpPageMap4 => rfl
  | codeRelloc => rfl
  | codeScratch => rfl

theorem PlanFits.of_buffer
    (h : PlanFits areas b required) (pBuffer bufferSize : UInt64) :
    PlanFits areas { b with pBuffer := pBuffer, bufferSize := bufferSize } required := by
  refine ⟨?_, ?_, ?_⟩
  · simp only [room_of_buffer]
    exact h.separate
  · simp only [room_of_buffer]
    exact h.inside
  · simp only [room_of_buffer]
    exact h.aligned

theorem Planned.of_buffer {pageMapSetupType : PageMapSetupType}
    (h : Planned map framebufferBase framebufferSize region pageMapSetupType b required)
    (pBuffer bufferSize : UInt64) :
    Planned map framebufferBase framebufferSize region pageMapSetupType
      { b with pBuffer := pBuffer, bufferSize := bufferSize } required :=
  ⟨h.fits.of_buffer pBuffer bufferSize, h.pageMap, h.tmpPageMap4, h.codeRelloc, h.codeScratch⟩

theorem alignment_dvd (area : BufferArea) :
    area.alignment ∣ 4096 := by
  cases area with
  | pageMap => decide
  | tmpPageMap4 => decide
  | codeRelloc => decide
  | codeScratch => decide

theorem PlanFits.sound
    (h : PlanFits areas b required) (hb : HoldsPlan b required) :
    PlanSound areas b where
  separate := by
    refine h.separate.imp fun {u v} huv => ?_
    unfold Separate BufferArea.room at huv
    unfold Separate BufferArea.place
    dsimp only at huv ⊢
    omega
  inside := by
    intro u hu
    have hinside := (h.inside u hu).1
    have henough := hb.enough
    unfold BufferArea.room at hinside
    unfold BufferArea.place
    dsimp only at hinside ⊢
    omega
  aligned := fun u hu => Nat.dvd_add ((alignment_dvd u).trans hb.aligned) (h.aligned u hu)

/-- The address that the switch computes for an area. -/
theorem PlanFits.address
    (h : PlanFits areas b required) (hb : HoldsPlan b required)
    {u : BufferArea} (hu : u ∈ areas) :
    ((b.pBuffer + u.offset b).toNat, (u.size b).toNat) = u.place b := by
  have hlt := (h.inside u hu).2
  have henough := hb.enough
  have hfits := hb.fits
  unfold BufferArea.room at hlt
  dsimp only at hlt
  rw [BufferArea.place, UInt64.toNat_add, Nat.mod_eq_of_lt (by omega)]

/-- A setup in an area of its size succeeds. -/
theorem PlanFits.setup
    (h : PlanFits areas b required) (hb : HoldsPlan b required)
    {u : BufferArea} (hu : u ∈ areas) (halign : u.alignment = 4096) {kind : PageMapKind}
    (hfits : SetupFits map framebufferBase framebufferSize kind (u.size b)) (s : SwitchState) :
    (s.setup (kind.setup map framebufferBase framebufferSize) (b.pBuffer + u.offset b)
      (u.size b)).1 ≠ 0 := by
  have hplace := h.address hb hu
  have hstart : (b.pBuffer + u.offset b).toNat = (u.place b).1 := congrArg Prod.fst hplace
  have hsize : (u.size b).toNat = (u.place b).2 := congrArg Prod.snd hplace
  have hsound := h.sound hb
  have hinside := hsound.inside u hu
  have hpos := hb.pos
  have hend := hb.fits
  refine hfits _ s.memory ?_ ?_ ?_
  · omega
  · rw [hstart, ← halign]
    exact hsound.aligned u hu
  · omega

/-- The calls so far use the areas, and none of their setups failed. -/
structure Uses (areas : List BufferArea) (b : PageMapSetupBuffer) (s : SwitchState) : Prop where
  places : s.calls.filterMap SwitchCall.place = areas.map (BufferArea.place b)
  setups : ∀ pageMapBuffer pageMapBufferSize pml,
    SwitchCall.setup pageMapBuffer pageMapBufferSize pml ∈ s.calls → pml ≠ 0

theorem uses_nothing (memory : Nat → Nat) :
    Uses [] b ⟨memory, []⟩ :=
  ⟨rfl, fun _ _ _ h => nomatch h⟩

theorem Uses.setup {s : SwitchState} {u : BufferArea}
    {setup : Nat → Nat → (Nat → Nat) → Nat × TableSpace} {address size : UInt64}
    (h : Uses areas b s) (hplace : (address.toNat, size.toNat) = u.place b)
    (hne : (s.setup setup address size).1 ≠ 0) :
    Uses (areas ++ [u]) b (s.setup setup address size).2 where
  places := by
    show (s.calls ++ [_]).filterMap _ = _
    rw [List.filterMap_append, List.map_append, h.places]
    exact congrArg (areas.map (BufferArea.place b) ++ [·]) hplace
  setups := by
    intro pageMapBuffer pageMapBufferSize pml hcall
    obtain hcall | hcall := List.mem_append.mp hcall
    · exact h.setups _ _ _ hcall
    · obtain ⟨-, -, rfl⟩ := SwitchCall.setup.inj (List.mem_singleton.mp hcall)
      exact hne

/-- Any other call uses the areas that it writes to. -/
theorem Uses.call {s : SwitchState}
    (h : Uses areas b s) (call : SwitchCall) (more : List BufferArea)
    (hcall : ∀ buffer size pml, call ≠ .setup buffer size pml)
    (hplace : [call].filterMap SwitchCall.place = more.map (BufferArea.place b)) :
    Uses (areas ++ more) b (s.call call) where
  places := by
    show (s.calls ++ [call]).filterMap _ = _
    rw [List.filterMap_append, List.map_append, h.places, hplace]
  setups := by
    intro pageMapBuffer pageMapBufferSize pml hmem
    obtain hmem | hmem := List.mem_append.mp hmem
    · exact h.setups _ _ _ hmem
    · exact absurd (List.mem_singleton.mp hmem).symm (hcall _ _ _)

/-- The setup and the switch to a page map that needs no other areas. -/
theorem Planned.switchPageMap_uses {pageMapSetupType : PageMapSetupType}
    (h : Planned map framebufferBase framebufferSize region pageMapSetupType b required)
    (hb : HoldsPlan b required) (hareas : usedAreas region pageMapSetupType = [.pageMap])
    (memory : Nat → Nat) :
    let r := SwitchState.setup
      ((finalKind pageMapSetupType).setup map framebufferBase framebufferSize)
      (b.pBuffer + b.pageMapOffset) b.pageMapSize ⟨memory, []⟩
    r.1 ≠ 0 ∧ Uses [.pageMap] b (r.2.call (.switchPageMap r.1)) := by
  have hmem : BufferArea.pageMap ∈ usedAreas region pageMapSetupType :=
    hareas ▸ List.mem_singleton_self _
  have hne := h.fits.setup hb hmem rfl h.pageMap ⟨memory, []⟩
  have huses := (uses_nothing memory).setup (h.fits.address hb hmem) hne
  exact ⟨hne, huses.call (.switchPageMap _) [] (by simp) rfl⟩

theorem createAndSwitchPageMap4_uses
    (h : Planned map framebufferBase framebufferSize region .pageMap4Setup b required)
    (hb : HoldsPlan b required) (memory : Nat → Nat) :
    let r := createAndSwitchPageMap4 map framebufferBase framebufferSize b ⟨memory, []⟩
    r.1 = true ∧ Uses [.pageMap] b r.2 := by
  obtain ⟨hne, huses⟩ := h.switchPageMap_uses hb rfl memory
  have hsetup : (SwitchState.setup (setupInitialPageMap4 map framebufferBase framebufferSize)
      (b.pBuffer + b.pageMapOffset) b.pageMapSize ⟨memory, []⟩).1 ≠ 0 := hne
  unfold createAndSwitchPageMap4
  dsimp only
  rw [if_neg hsetup]
  exact ⟨rfl, huses⟩

theorem createAndSwitchPageMap5_uses
    (h : Planned map framebufferBase framebufferSize region .pageMap5Setup b required)
    (hb : HoldsPlan b required) (memory : Nat → Nat) :
    let r := createAndSwitchPageMap5 map framebufferBase framebufferSize b ⟨memory, []⟩
    r.1 = true ∧ Uses [.pageMap] b r.2 := by
  obtain ⟨hne, huses⟩ := h.switchPageMap_uses hb rfl memory
  have hsetup : (SwitchState.setup (setupInitialPageMap5 map framebufferBase framebufferSize)
      (b.pBuffer + b.pageMapOffset) b.pageMapSize ⟨memory, []⟩).1 ≠ 0 := hne
  unfold createAndSwitchPageMap5
  dsimp only
  rw [if_neg hsetup]
  exact ⟨rfl, huses⟩

theorem createAndSwitchPageMap4To5Below4G_uses
    (h : Planned map framebufferBase framebufferSize region .pageMap4To5Transition b required)
    (hbelow : region.stop < 4294967296) (hb : HoldsPlan b required) (memory : Nat → Nat) :
    let r := createAndSwitchPageMap4To5Below4G map framebufferBase framebufferSize region b
      ⟨memory, []⟩
    r.1 = true ∧ Uses [.pageMap, .codeScratch] b r.2 := by
  have hused : usedAreas region .pageMap4To5Transition = [.pageMap, .codeScratch] :=
    if_pos hbelow
  have hpageMap : BufferArea.pageMap ∈ usedAreas region .pageMap4To5Transition := by simp [hused]
  have hscratch : BufferArea.codeScratch ∈ usedAreas region .pageMap4To5Transition := by
    simp [hused]
  have hplace := h.fits.address hb hscratch
  rw [show BufferArea.codeScratch.size b = _ from h.codeScratch hscratch] at hplace
  have hne : (SwitchState.setup (setupInitialPageMap5 map framebufferBase framebufferSize)
      (b.pBuffer + b.pageMapOffset) b.pageMapSize ⟨memory, []⟩).1 ≠ 0 :=
    h.fits.setup hb hpageMap rfl h.pageMap ⟨memory, []⟩
  have huses := (uses_nothing memory).setup (h.fits.address hb hpageMap) hne
  have hmemset := huses.call
    (.memset (b.pBuffer + b.transitionData.codeScratchBufferOffset) 0
      pageMap4To5ScratchBufferSize)
    [.codeScratch] (by simp) (congrArg (fun place => [place]) hplace)
  unfold createAndSwitchPageMap4To5Below4G
  dsimp only
  rw [if_neg hne]
  exact ⟨rfl, hmemset.call (.switchPageMap4To5 _ _ _) [] (by simp) rfl⟩

theorem createAndSwitchPageMap4To5Above4G_uses
    (h : Planned map framebufferBase framebufferSize region .pageMap4To5Transition b required)
    (habove : ¬ region.stop < 4294967296) (hb : HoldsPlan b required) (memory : Nat → Nat) :
    let r := createAndSwitchPageMap4To5Above4G map framebufferBase framebufferSize region b
      ⟨memory, []⟩
    r.1 = true ∧ Uses [.tmpPageMap4, .pageMap, .codeRelloc, .codeScratch] b r.2 := by
  have hused : usedAreas region .pageMap4To5Transition =
      [.tmpPageMap4, .pageMap, .codeRelloc, .codeScratch] :=
    if_neg habove
  have hmem (u : BufferArea) : u ∈ usedAreas region .pageMap4To5Transition := by
    rw [hused]
    cases u <;> simp
  have hcode := h.fits.address hb (hmem .codeRelloc)
  have hscratch := h.fits.address hb (hmem .codeScratch)
  rw [show BufferArea.codeRelloc.size b = _ from h.codeRelloc (hmem _)] at hcode
  rw [show BufferArea.codeScratch.size b = _ from h.codeScratch (hmem _)] at hscratch
  -- the temporary page map
  let first := SwitchState.setup (setupTransitionalPageMap4 map)
    (b.pBuffer + b.transitionData.tmpPageMap4BufferOffset)
    b.transitionData.tmpPageMap4BufferSize ⟨memory, []⟩
  have htmp : first.1 ≠ 0 :=
    h.fits.setup hb (hmem .tmpPageMap4) rfl (h.tmpPageMap4 (hmem _)) ⟨memory, []⟩
  have hfirst := ((uses_nothing memory).setup (h.fits.address hb (hmem .tmpPageMap4)) htmp).call
    (.switchPageMap first.1) [] (by simp) rfl
  -- the page map with five levels
  let second := SwitchState.setup (setupInitialPageMap5 map framebufferBase framebufferSize)
    (b.pBuffer + b.pageMapOffset) b.pageMapSize (first.2.call (.switchPageMap first.1))
  have hne : second.1 ≠ 0 := h.fits.setup hb (hmem .pageMap) rfl h.pageMap _
  have hsecond := hfirst.setup (h.fits.address hb (hmem .pageMap)) hne
  have hmemcpy := hsecond.call
    (.memcpy (b.pBuffer + b.transitionData.codeRellocBufferOffset) region.start
      (region.stop - region.start))
    [.codeRelloc] (by simp) (congrArg (fun place => [place]) hcode)
  have hmemset := hmemcpy.call
    (.memset (b.pBuffer + b.transitionData.codeScratchBufferOffset) 0
      pageMap4To5ScratchBufferSize)
    [.codeScratch] (by simp) (congrArg (fun place => [place]) hscratch)
  unfold createAndSwitchPageMap4To5Above4G
  dsimp only
  rw [if_neg htmp, if_neg hne]
  exact ⟨rfl, hmemset.call (.switchPageMap4To5 _ _ _) [] (by simp) rfl⟩

/-- The switch of every setup type follows the plan. -/
theorem switchToIdentityPageMap_uses {pageMapSetupType : PageMapSetupType}
    (h : Planned map framebufferBase framebufferSize region pageMapSetupType b required)
    (hb : HoldsPlan b required) (memory : Nat → Nat) :
    let r := switchToIdentityPageMap map framebufferBase framebufferSize region
      pageMapSetupType b ⟨memory, []⟩
    r.1 = true ∧ Uses (usedAreas region pageMapSetupType) b r.2 := by
  cases pageMapSetupType with
  | pageMap4Setup => exact createAndSwitchPageMap4_uses h hb memory
  | pageMap5Setup => exact createAndSwitchPageMap5_uses h hb memory
  | pageMap4To5Transition =>
      unfold switchToIdentityPageMap usedAreas
      by_cases hbelow : region.stop < 4294967296
      · simp only [if_pos hbelow]
        exact createAndSwitchPageMap4To5Below4G_uses h hbelow hb memory
      · simp only [if_neg hbelow]
        exact createAndSwitchPageMap4To5Above4G_uses h hbelow hb memory

/-- The plan is sound for every setup type: in every buffer that holds it the used areas lie
apart from each other, inside of the buffer and aligned, the switch works in exactly these
areas, and none of its setups fails. -/
theorem pageMapPlan_sound
    (map : List EfiMemoryDescriptor) (framebufferBase framebufferSize : UInt64)
    (h : CalculatorConditions map framebufferBase framebufferSize)
    (region : SwitchRegion) (hregion : region.Assembled) (pageMapSetupType : PageMapSetupType)
    (plan : PageMapSetupBuffer) :
    ∃ b required, Returns
        (fillPageMapSizes map framebufferBase framebufferSize region pageMapSetupType plan)
        (b, required) ∧
      ∀ (pBuffer bufferSize : UInt64) (memory : Nat → Nat),
        let buffer := { b with pBuffer := pBuffer, bufferSize := bufferSize }
        let r := switchToIdentityPageMap map framebufferBase framebufferSize region
          pageMapSetupType buffer ⟨memory, []⟩
        HoldsPlan buffer required.toNat →
          PlanSound (usedAreas region pageMapSetupType) buffer ∧
          r.1 = true ∧
          r.2.calls.filterMap SwitchCall.place =
            (usedAreas region pageMapSetupType).map (BufferArea.place buffer) ∧
          ∀ pageMapBuffer pageMapBufferSize pml,
            SwitchCall.setup pageMapBuffer pageMapBufferSize pml ∈ r.2.calls → pml ≠ 0 := by
  obtain ⟨b, required, hreturns, hplanned⟩ :=
    fillPageMapSizes_planned h hregion pageMapSetupType plan
  refine ⟨b, required, hreturns, fun pBuffer bufferSize memory => ?_⟩
  intro buffer r hb
  have hbuffer := hplanned.of_buffer pBuffer bufferSize
  obtain ⟨hsucceeds, huses⟩ := switchToIdentityPageMap_uses hbuffer hb memory
  exact ⟨hbuffer.fits.sound hb, hsucceeds, huses.places, huses.setups⟩

/-- One page of conventional memory and one of the loader. -/
def loaderMap : List EfiMemoryDescriptor :=
  [⟨.conventionalMemory, 0x100000, 1, efiMemoryWB⟩, ⟨.loaderData, 0x200000, 1, efiMemoryWB⟩]

/-- Code above 4 GiB. -/
def highRegion : SwitchRegion :=
  ⟨0x140000000, 0x140000123⟩

/-- The transition with code that has to move. -/
theorem pageMapPlan_sound_above :
    ∃ b required, Returns
        (fillPageMapSizes loaderMap 0xE0000000 0x1000 highRegion .pageMap4To5Transition
          ⟨0, 0, 0, 0, ⟨0, 0, 0, 0, 0, 0⟩⟩)
        (b, required) ∧
      ∀ (pBuffer bufferSize : UInt64) (memory : Nat → Nat),
        let buffer := { b with pBuffer := pBuffer, bufferSize := bufferSize }
        let r := switchToIdentityPageMap loaderMap 0xE0000000 0x1000 highRegion
          .pageMap4To5Transition buffer ⟨memory, []⟩
        HoldsPlan buffer required.toNat →
          PlanSound (usedAreas highRegion .pageMap4To5Transition) buffer ∧
          r.1 = true ∧
          r.2.calls.filterMap SwitchCall.place =
            (usedAreas highRegion .pageMap4To5Transition).map (BufferArea.place buffer) ∧
          ∀ pageMapBuffer pageMapBufferSize pml,
            SwitchCall.setup pageMapBuffer pageMapBufferSize pml ∈ r.2.calls → pml ≠ 0 :=
  pageMapPlan_sound _ _ _ ⟨by decide, by decide, by decide⟩ _ ⟨by decide, by decide⟩ _ _

end Sound

end Boot
end DexprOS
