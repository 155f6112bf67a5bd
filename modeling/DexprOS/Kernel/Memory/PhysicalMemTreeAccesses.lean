import DexprOS.Kernel.Memory.PhysicalMemTreeMarking
import DexprOS.Library.AccessTrace

/-!
# The block writes of the marking

The marking once more, with every write to a block recorded: the pointer that the code writes
through, in place or out of line as each function chooses it, and the index behind it.

Main facts:
* `result_tracedMarkPhysicalMemTreeRegions`: recording the writes changes no result;
* `within_tracedMarkPhysicalMemTreeRegions`: at every moment of the run, each write so far was
  to a block of its level.
-/

namespace DexprOS
namespace Kernel

open Fuel Traced

section Definitions

/-- A write to `pBlocks[i]`. -/
structure BlockWrite where
  pBlocks : BlockPtr
  i : Nat

/-- The write is to a block of one of the first `n` levels. -/
def BlockWrite.Inside (m : TreeMemory) (n : Nat) (write : BlockWrite) : Prop :=
  ∃ iLevel < n, write.pBlocks = m.levelBlocks iLevel ∧ write.i < (m.levels iLevel).numBlocks.toNat

def tracedStore (m : TreeMemory) (p : BlockPtr) (i : Nat) (value : UInt8) :
    Traced BlockWrite TreeMemory :=
  access ⟨p, i⟩ (m.store p i value)

def tracedMemset (m : TreeMemory) (p : BlockPtr) (first : Nat) (value : UInt8) (count : Nat) :
    Traced BlockWrite TreeMemory :=
  (List.range count).foldlM (fun m i => tracedStore m p (first + i) value) m

def tracedWalkBody (visit : Nat → TreeMemory → Traced BlockWrite TreeMemory)
    (s : Option Nat × TreeMemory) :
    Traced BlockWrite (Pass (Option Nat × TreeMemory) TreeMemory) :=
  match s.1 with
  | none => pure (.leave s.2)
  | some iEntry => do
      let m ← visit iEntry s.2
      pure (.again ((m.entries iEntry).pNextEntry, m))

def tracedWalkEntries (visit : Nat → TreeMemory → Traced BlockWrite TreeMemory)
    (tree : PhysicalMemTree) (m : TreeMemory) (fuel : Nat) :
    Traced BlockWrite (Option TreeMemory) :=
  foreverM (tracedWalkBody visit) fuel (tree.pFirstEntry, m)

def tracedSetEntryPagesAvailable (iEntry : Nat) (m : TreeMemory) :
    Traced BlockWrite TreeMemory :=
  let iLevel := lastLevel (m.entries iEntry)
  tracedMemset m (m.levelBlocks iLevel) 0 physMemPageAvailableBit
    (m.levels iLevel).numBlocks.toNat

def tracedMarkUsedEntryPages (startAddress endAddress : UInt64) (iEntry : Nat)
    (m : TreeMemory) : Traced BlockWrite TreeMemory :=
  withUsedBlocks startAddress endAddress iEntry m
    (fun p first count => tracedMemset m p first physMemPageUnavailable count) (pure m)

def tracedMarkUsedTreePages (tree : PhysicalMemTree) (regionStartAddress regionSize : UInt64)
    (m : TreeMemory) (fuel : Nat) : Traced BlockWrite (Option TreeMemory) :=
  let startAddress := regionStartAddress / physicalPageSize * physicalPageSize
  let endAddress := align (regionStartAddress + regionSize) physicalPageSize
  tracedWalkEntries (tracedMarkUsedEntryPages startAddress endAddress) tree m fuel

def tracedFillTreeLevelAccelBlocks (iEntry iLevel : Nat) (m : TreeMemory) :
    Traced BlockWrite TreeMemory :=
  let entry := m.entries iEntry
  let level := m.levels (entry.pTreeLevels + iLevel)
  let nextLevel := m.levels (entry.pTreeLevels + iLevel + 1)
  let pBlocks := m.levelBlocks (entry.pTreeLevels + iLevel)
  let pNextBlocks := m.levelBlocks (entry.pTreeLevels + iLevel + 1)
  let minNextOffset := ((nextLevel.startMappedAddress - level.startMappedAddress) /
    nextLevel.blockSize).toNat
  let maxNextOffset := minNextOffset + nextLevel.numBlocks.toNat
  (List.range level.numBlocks.toNat).foldlM
    (fun m i =>
      tracedStore m pBlocks i (combineStates
        (childState m pNextBlocks minNextOffset maxNextOffset (i * 2))
        (childState m pNextBlocks minNextOffset maxNextOffset (i * 2 + 1))))
    m

def tracedFillEntryAccelBlocks (iEntry : Nat) (m : TreeMemory) :
    Traced BlockWrite TreeMemory :=
  let numTreeLevels := (m.entries iEntry).numTreeLevels.toNat
  (List.range (numTreeLevels - 1)).foldlM
    (fun m i => tracedFillTreeLevelAccelBlocks iEntry (numTreeLevels - (i + 1) - 1) m) m

def tracedMarkInitialMapEntry (tree : PhysicalMemTree) (entry : InitialMemMapEntry)
    (m : TreeMemory) (fuel : Nat) : Traced BlockWrite (Option TreeMemory) :=
  if shouldCreateTreeForType entry.memoryType && isUsageInUse entry.usage then
    tracedMarkUsedTreePages tree entry.physicalAddress
      (entry.numPhysicalPages * physicalPageSize) m fuel
  else
    pure (some m)

/-- `DexprOS_MarkPhysicalMemTreeRegions` with its writes. -/
def tracedMarkPhysicalMemTreeRegions (tree : PhysicalMemTree)
    (pInitialMap : List InitialMemMapEntry) (otherRegionsInUse : List (UInt64 × UInt64))
    (m : TreeMemory) (fuel : Nat) : Traced BlockWrite (Option TreeMemory) := do
  let available ← tracedWalkEntries tracedSetEntryPagesAvailable tree m fuel
  let used ← onSome (fun m => pInitialMap.foldlM
    (fun m entry => onSome (fun m => tracedMarkInitialMapEntry tree entry m fuel) m)
    (some m)) available
  let marked ← onSome (fun m => otherRegionsInUse.foldlM
    (fun m region => onSome (fun m => tracedMarkUsedTreePages tree region.1 region.2 m fuel) m)
    (some m)) used
  onSome (fun m => tracedWalkEntries tracedFillEntryAccelBlocks tree m fuel) marked

end Definitions

section Results

@[simp] theorem result_tracedStore
    (m : TreeMemory) (p : BlockPtr) (i : Nat) (value : UInt8) :
    (tracedStore m p i value).result = m.store p i value :=
  result_access _ _

@[simp] theorem result_tracedMemset
    (m : TreeMemory) (p : BlockPtr) (first : Nat) (value : UInt8) (count : Nat) :
    (tracedMemset m p first value count).result = m.memset p first value count :=
  result_foldlM (fun _ _ => result_tracedStore _ _ _ _) _ _

theorem result_tracedWalkEntries
    {visit : Nat → TreeMemory → Traced BlockWrite TreeMemory}
    {visit' : Nat → TreeMemory → TreeMemory} (hvisit : ∀ k m, (visit k m).result = visit' k m)
    (tree : PhysicalMemTree) (m : TreeMemory) (fuel : Nat) :
    (tracedWalkEntries visit tree m fuel).result = walkEntries visit' tree m fuel := by
  refine result_foreverM (fun s => ?_) fuel _
  rcases s with ⟨_ | iEntry, m⟩
  · rfl
  · unfold tracedWalkBody walkBody
    dsimp only
    rw [result_bind, result_pure, hvisit]

theorem result_tracedSetEntryPagesAvailable
    (k : Nat) (m : TreeMemory) :
    (tracedSetEntryPagesAvailable k m).result = setEntryPagesAvailable k m :=
  result_tracedMemset _ _ _ _ _

theorem result_tracedMarkUsedEntryPages
    (startAddress endAddress : UInt64) (k : Nat) (m : TreeMemory) :
    (tracedMarkUsedEntryPages startAddress endAddress k m).result =
      markUsedEntryPages startAddress endAddress k m := by
  unfold tracedMarkUsedEntryPages withUsedBlocks markUsedEntryPages
  dsimp only
  split
  · exact result_tracedMemset _ _ _ _ _
  · rfl

theorem result_tracedMarkUsedTreePages
    (tree : PhysicalMemTree) (regionStartAddress regionSize : UInt64) (m : TreeMemory)
    (fuel : Nat) :
    (tracedMarkUsedTreePages tree regionStartAddress regionSize m fuel).result =
      markUsedTreePages tree regionStartAddress regionSize m fuel :=
  result_tracedWalkEntries (result_tracedMarkUsedEntryPages _ _) tree m fuel

theorem result_tracedFillTreeLevelAccelBlocks
    (k iLevel : Nat) (m : TreeMemory) :
    (tracedFillTreeLevelAccelBlocks k iLevel m).result = fillTreeLevelAccelBlocks k iLevel m :=
  result_foldlM (fun _ _ => result_tracedStore _ _ _ _) _ _

theorem result_tracedFillEntryAccelBlocks
    (k : Nat) (m : TreeMemory) :
    (tracedFillEntryAccelBlocks k m).result = fillEntryAccelBlocks k m :=
  result_foldlM (fun _ _ => result_tracedFillTreeLevelAccelBlocks _ _ _) _ _

theorem result_tracedMarkInitialMapEntry
    (tree : PhysicalMemTree) (entry : InitialMemMapEntry) (m : TreeMemory) (fuel : Nat) :
    (tracedMarkInitialMapEntry tree entry m fuel).result =
      markInitialMapEntry tree entry m fuel := by
  unfold tracedMarkInitialMapEntry markInitialMapEntry
  split
  · exact result_tracedMarkUsedTreePages _ _ _ _ _
  · rfl

/-- Recording the writes changes no result. -/
theorem result_tracedMarkPhysicalMemTreeRegions
    (tree : PhysicalMemTree) (pInitialMap : List InitialMemMapEntry)
    (otherRegionsInUse : List (UInt64 × UInt64)) (m : TreeMemory) (fuel : Nat) :
    (tracedMarkPhysicalMemTreeRegions tree pInitialMap otherRegionsInUse m fuel).result =
      markPhysicalMemTreeRegions tree pInitialMap otherRegionsInUse m fuel := by
  have hentries (m : TreeMemory) :
      (pInitialMap.foldlM
          (fun m entry => onSome (fun m => tracedMarkInitialMapEntry tree entry m fuel) m)
          (some m)).result =
        pInitialMap.foldl (fun m entry => m.bind fun m => markInitialMapEntry tree entry m fuel)
          (some m) :=
    result_foldlM (fun m entry => by simp only [result_onSome, result_tracedMarkInitialMapEntry])
      _ _
  have hother (m : TreeMemory) :
      (otherRegionsInUse.foldlM
          (fun m region =>
            onSome (fun m => tracedMarkUsedTreePages tree region.1 region.2 m fuel) m)
          (some m)).result =
        otherRegionsInUse.foldl
          (fun m region => m.bind fun m => markUsedTreePages tree region.1 region.2 m fuel)
          (some m) :=
    result_foldlM (fun m region => by simp only [result_onSome, result_tracedMarkUsedTreePages])
      _ _
  unfold tracedMarkPhysicalMemTreeRegions markPhysicalMemTreeRegions setAllTreePagesAvailable
    fillTreeAccelBlocks
  simp only [result_bind, result_onSome, hentries, hother, Option.bind_assoc,
    result_tracedWalkEntries result_tracedSetEntryPagesAvailable,
    result_tracedWalkEntries result_tracedFillEntryAccelBlocks]

end Results

section Writes

variable {ranges : List PhysRange} {tree : PhysicalMemTree} {m₀ m : TreeMemory}
variable {n iLevel first count : Nat}

theorem within_tracedStore_iff
    {P : BlockWrite → Prop} (p : BlockPtr) (i : Nat) (value : UInt8) :
    (tracedStore m p i value).Within P ↔ P ⟨p, i⟩ :=
  within_access_iff _ _

/-- A run of blocks of one level, in a memory of the same shape. -/
theorem within_tracedMemset
    (hshape : SameShape m₀ m) (hlevel : iLevel < n)
    (hinside : first + count ≤ (m₀.levels iLevel).numBlocks.toNat) (value : UInt8) :
    (tracedMemset m (m.levelBlocks iLevel) first value count).Within
      (BlockWrite.Inside m₀ n) := by
  refine (within_foldlM_iff (fun i _ _ => within_tracedStore_iff _ (first + i) _) m).mpr ?_
  intro i hi
  have hlt := List.mem_range.mp hi
  refine ⟨iLevel, hlevel, hshape.levelBlocks iLevel, ?_⟩
  dsimp only
  omega

/-- The visits of the entries write inside and keep the shape. -/
structure VisitsInside (ranges : List PhysRange) (m₀ : TreeMemory)
    (visit : Nat → TreeMemory → Traced BlockWrite TreeMemory) : Prop where
  within : ∀ k < ranges.length, ∀ m, SameShape m₀ m →
    (visit k m).Within (BlockWrite.Inside m₀ (levelList ranges).length)
  keeps : ∀ k m, SameShape m (visit k m).result

theorem visitsInside_setEntryPagesAvailable
    (hm : TreeShape ranges tree m₀) :
    VisitsInside ranges m₀ tracedSetEntryPagesAvailable where
  within := by
    intro k hk m hshape
    have hentry := List.getElem?_eq_getElem hk
    unfold tracedSetEntryPagesAvailable
    dsimp only
    rw [(hm.of_sameShape hshape).lastLevel hentry]
    refine within_tracedMemset hshape (levelIndex_lt hentry 0) ?_ _
    rw [hshape.numBlocks, Nat.zero_add]
  keeps := by
    intro k m
    rw [result_tracedSetEntryPagesAvailable]
    exact sameShape_setEntryPagesAvailable k m

theorem visitsInside_markUsedEntryPages
    (hm : TreeShape ranges tree m₀) (haligned : ∀ r ∈ ranges, r.Aligned)
    {startAddress endAddress : UInt64} {a b : Nat} (ha : startAddress.toNat = a * 4096)
    (hb : endAddress.toNat = b * 4096) (hab : a ≤ b) :
    VisitsInside ranges m₀ (tracedMarkUsedEntryPages startAddress endAddress) where
  within := by
    intro k hk m hshape
    have hentry := List.getElem?_eq_getElem hk
    rw [tracedMarkUsedEntryPages, withUsedBlocks_eq (hm.of_sameShape hshape) hentry
      (haligned _ (List.getElem_mem hk)) ha hb hab]
    split
    case isTrue hmeets =>
      refine within_tracedMemset hshape (levelIndex_lt hentry 0) ?_ _
      rw [(hm.levelAt hentry (Nat.zero_le _)).2.2]
      exact marked_length_le hmeets
    case isFalse => exact within_pure _
  keeps := by
    intro k m
    rw [result_tracedMarkUsedEntryPages]
    exact sameShape_markUsedEntryPages _ _ k m

/-- The stores of one level. -/
theorem within_tracedFillTreeLevelAccelBlocks
    (hm : TreeShape ranges tree m₀) {k : Nat} (hk : k < ranges.length)
    (hlevel : iLevel < (m₀.entries k).numTreeLevels.toNat) (hshape : SameShape m₀ m) :
    (tracedFillTreeLevelAccelBlocks k iLevel m).Within
      (BlockWrite.Inside m₀ (levelList ranges).length) := by
  have hentry := List.getElem?_eq_getElem hk
  have hlt : (m₀.entries k).pTreeLevels + iLevel < (levelList ranges).length := by
    have htake := levelIndex_lt_take hentry 0
    have hle := @length_levelList_take_le ranges (k + 1) ranges.length hk
    rw [List.take_length] at hle
    rw [hm.numTreeLevels_toNat hentry] at hlevel
    rw [hm.pTreeLevels k _ hentry]
    rw [levelIndex, Nat.sub_zero] at htake
    omega
  unfold tracedFillTreeLevelAccelBlocks
  dsimp only
  refine (within_foldlM_iff (fun i _ _ => within_tracedStore_iff _ i _) m).mpr fun i hi => ?_
  refine ⟨_, hlt, ?_, ?_⟩
  · dsimp only
    rw [hshape.entries, hshape.levelBlocks]
  · have hi' := List.mem_range.mp hi
    rwa [hshape.entries, hshape.numBlocks] at hi'

theorem visitsInside_fillEntryAccelBlocks
    (hm : TreeShape ranges tree m₀) :
    VisitsInside ranges m₀ tracedFillEntryAccelBlocks where
  within := by
    intro k hk m hshape
    refine (within_foldlM (I := SameShape m₀) (fun i hi m' hshape' => ⟨?_, ?_⟩) hshape).1
    · refine within_tracedFillTreeLevelAccelBlocks hm hk ?_ hshape'
      have hlt := List.mem_range.mp hi
      rw [hshape.entries] at hlt ⊢
      omega
    · rw [result_tracedFillTreeLevelAccelBlocks]
      exact hshape'.trans (sameShape_fillTreeLevelAccelBlocks _ _ _)
  keeps := by
    intro k m
    rw [result_tracedFillEntryAccelBlocks]
    exact sameShape_fillEntryAccelBlocks k m

/-- The run writes inside, and what it returns has the shape. -/
structure RunsInside (m₀ : TreeMemory) (n : Nat)
    (run : Traced BlockWrite (Option TreeMemory)) : Prop where
  within : run.Within (BlockWrite.Inside m₀ n)
  sameShape : ∀ m ∈ run.result, SameShape m₀ m

theorem runsInside_pure
    (hshape : SameShape m₀ m) :
    RunsInside m₀ n (pure (some m)) :=
  ⟨within_pure _, fun _ hm' => Option.some.inj hm' ▸ hshape⟩

theorem runsInside_onSome
    {f : TreeMemory → Traced BlockWrite (Option TreeMemory)}
    (hf : ∀ m, SameShape m₀ m → RunsInside m₀ n (f m)) {o : Option TreeMemory}
    (ho : ∀ m ∈ o, SameShape m₀ m) :
    RunsInside m₀ n (onSome f o) := by
  cases o with
  | none => exact ⟨within_pure none, fun m' hm' => absurd hm' (Option.not_mem_none m')⟩
  | some m => exact hf m (ho m rfl)

/-- One run behind another. -/
theorem RunsInside.bind
    {run : Traced BlockWrite (Option TreeMemory)} (hrun : RunsInside m₀ n run)
    {f : Option TreeMemory → Traced BlockWrite (Option TreeMemory)}
    (hf : ∀ o : Option TreeMemory, (∀ m ∈ o, SameShape m₀ m) → RunsInside m₀ n (f o)) :
    RunsInside m₀ n (run >>= f) := by
  have hrest := hf run.result hrun.sameShape
  exact ⟨(within_bind_iff _ _).mpr ⟨hrun.within, hrest.within⟩, hrest.sameShape⟩

/-- A loop of runs. -/
theorem runsInside_foldlM
    {α : Type} {mark : α → TreeMemory → Traced BlockWrite (Option TreeMemory)} {l : List α}
    (hmark : ∀ x ∈ l, ∀ m, SameShape m₀ m → RunsInside m₀ n (mark x m))
    (hshape : SameShape m₀ m) :
    RunsInside m₀ n (l.foldlM (fun m x => onSome (mark x) m) (some m)) := by
  have hstep : ∀ x ∈ l, ∀ o : Option TreeMemory, (∀ m ∈ o, SameShape m₀ m) →
      (onSome (mark x) o).Within (BlockWrite.Inside m₀ n) ∧
        ∀ m ∈ (onSome (mark x) o).result, SameShape m₀ m := by
    intro x hx o ho
    have hrun := runsInside_onSome (hmark x hx) ho
    exact ⟨hrun.within, hrun.sameShape⟩
  have hsome : ∀ m' ∈ some m, SameShape m₀ m' := by
    rintro m' ⟨⟩
    exact hshape
  obtain ⟨hwithin, hresult⟩ := within_foldlM hstep hsome
  exact ⟨hwithin, hresult⟩

/-- A walk along all entries. -/
theorem VisitsInside.walkEntries
    {visit : Nat → TreeMemory → Traced BlockWrite TreeMemory}
    (hvisit : VisitsInside ranges m₀ visit) (hm : TreeShape ranges tree m₀)
    (hpos : 0 < ranges.length) (hshape : SameShape m₀ m) (fuel : Nat) :
    RunsInside m₀ (levelList ranges).length (tracedWalkEntries visit tree m fuel) where
  within := by
    refine within_foreverM (I := fun s => SameShape m₀ s.2 ∧ ∀ k ∈ s.1, k < ranges.length)
      (fun s hs => ?_) fuel ⟨hshape, ?_⟩
    · obtain ⟨hshape, hindex⟩ := hs
      unfold tracedWalkBody
      cases hentry : s.1 with
      | none => exact ⟨within_pure _, fun s' hagain => by cases hagain⟩
      | some k =>
          have hk := hindex k hentry
          have hkept := hshape.trans (hvisit.keeps k s.2)
          dsimp only
          rw [within_bind_iff]
          refine ⟨⟨hvisit.within k hk s.2 hshape, within_pure _⟩, fun s' hagain => ?_⟩
          rw [result_bind, result_pure, Pass.again.injEq] at hagain
          subst hagain
          refine ⟨hkept, fun next hnext => ?_⟩
          dsimp only at hnext
          rw [hkept.entries, hm.next k hk] at hnext
          split at hnext
          case isTrue hlt => exact Option.some.inj hnext ▸ hlt
          case isFalse => cases hnext
    · intro k hk
      rw [hm.first hpos] at hk
      exact Option.some.inj hk ▸ hpos
  sameShape := by
    rw [result_tracedWalkEntries (fun _ _ => rfl)]
    intro m' hrun
    have hreturns : Returns (Kernel.walkEntries (fun k m => (visit k m).result) tree m) m' :=
      forever_returns hrun
    rw [hreturns.unique (walkEntries_returns (hm.of_sameShape hshape) hpos hvisit.keeps)]
    exact hshape.trans (sameShape_foldl (fun m k => hvisit.keeps k m) _ m)

theorem runsInside_markUsedTreePages
    (hm : TreeShape ranges tree m₀) (hpos : 0 < ranges.length)
    (haligned : ∀ r ∈ ranges, r.Aligned) {region : UInt64 × UInt64} (hfits : ExtentFits region)
    (hshape : SameShape m₀ m) (fuel : Nat) :
    RunsInside m₀ (levelList ranges).length
      (tracedMarkUsedTreePages tree region.1 region.2 m fuel) := by
  obtain ⟨hstart, hend⟩ := extent_toNat hfits
  have hvisit := visitsInside_markUsedEntryPages hm haligned hstart hend
    (Nat.div_le_div_right (by omega))
  exact hvisit.walkEntries hm hpos hshape fuel

theorem runsInside_markInitialMapEntry
    (hm : TreeShape ranges tree m₀) (hpos : 0 < ranges.length)
    (haligned : ∀ r ∈ ranges, r.Aligned) {entry : InitialMemMapEntry}
    (hentry : entry.stop ≤ 2 ^ 63) (hshape : SameShape m₀ m) (fuel : Nat) :
    RunsInside m₀ (levelList ranges).length
      (tracedMarkInitialMapEntry tree entry m fuel) := by
  have hregion := usedRegion_below hentry
  unfold usedRegion at hregion
  unfold tracedMarkInitialMapEntry
  split_ifs at hregion ⊢ with hused
  · exact runsInside_markUsedTreePages hm hpos haligned (hregion _ rfl) hshape fuel
  · exact runsInside_pure hshape

/-- Every write of the marking is to a block of its level, however far the run has come. -/
theorem within_tracedMarkPhysicalMemTreeRegions
    (hm : TreeShape ranges tree m₀) (hpos : 0 < ranges.length)
    (haligned : ∀ r ∈ ranges, r.Aligned) {pInitialMap : List InitialMemMapEntry}
    (hentries : ∀ e ∈ pInitialMap, e.stop ≤ 2 ^ 63) {otherRegions : List (UInt64 × UInt64)}
    (hother : ∀ r ∈ otherRegions, ExtentFits r) (fuel : Nat) :
    (tracedMarkPhysicalMemTreeRegions tree pInitialMap otherRegions m₀ fuel).Within
      (BlockWrite.Inside m₀ (levelList ranges).length) := by
  have hset := (visitsInside_setEntryPagesAvailable hm).walkEntries hm hpos
    (SameShape.refl m₀) fuel
  refine (hset.bind fun available havailable => ?_).within
  refine (runsInside_onSome (fun m hshape => ?_) havailable).bind fun used hused => ?_
  · exact runsInside_foldlM (fun entry hentry m hshape => runsInside_markInitialMapEntry hm hpos
      haligned (hentries entry hentry) hshape fuel) hshape
  refine (runsInside_onSome (fun m hshape => ?_) hused).bind fun marked hmarked => ?_
  · exact runsInside_foldlM (fun region hregion m hshape => runsInside_markUsedTreePages hm hpos
      haligned (hother region hregion) hshape fuel) hshape
  exact runsInside_onSome (fun m hshape =>
    (visitsInside_fillEntryAccelBlocks hm).walkEntries hm hpos hshape fuel) hmarked

end Writes

end Kernel
end DexprOS
