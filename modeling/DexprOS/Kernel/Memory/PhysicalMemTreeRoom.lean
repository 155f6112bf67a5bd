import DexprOS.Kernel.Memory.PhysicalMemTreeLayout
import DexprOS.Kernel.Memory.TreeGeometry

/-!
# What the creation of a tree checks

The creation fails as soon as a range needs more than the size data describes,
and a failure is never taken back.  So a tree that was created had enough room.

Main facts:
* `TreeBuffer`: size data that describe a buffer in memory;
* `createTreeForMemoryRange_fails`: a range that does not fit is noticed;
* `hasRoom_of_success`: a created tree had enough room.
-/

namespace DexprOS
namespace Kernel

open Fuel

section TreeBuffer

/-- The size data describe a buffer at `pBuffer`: its arrays follow each other, it
is not larger than an object can be, and it lies inside the address space. -/
structure TreeBuffer (pBuffer : UInt64) (sizeData : PhysMemTreeSizeData) : Prop where
  notNull : pBuffer ≠ 0
  entries : sizeData.treeEntriesOffset.toNat + 64 * sizeData.numTreeEntries.toNat ≤
    sizeData.treeLevelStructsOffset.toNat
  levels :
    sizeData.treeLevelStructsOffset.toNat + 32 * sizeData.numTreeLevelStructs.toNat ≤
      sizeData.blocksOffset.toNat
  blocks : sizeData.blocksOffset.toNat + sizeData.totalBlocksSize.toNat ≤
    sizeData.bufferSize.toNat
  size : sizeData.bufferSize.toNat < 2 ^ 63
  inside : pBuffer.toNat + sizeData.bufferSize.toNat ≤ 2 ^ 64

/-- Entry `k` of an array that does not wrap is not at address zero, unless the array is. -/
theorem entryPointer_of_inside
    {pEntries : UInt64} {k : Nat} (hnull : pEntries ≠ 0)
    (hinside : pEntries.toNat + 64 * k < 2 ^ 64) :
    entryPointer pEntries k = some k := by
  have hpos : pEntries.toNat ≠ 0 := fun h₀ => hnull (UInt64.toNat_inj.mp h₀)
  have haddress : (pEntries + sizeofPhysicalMemTreeEntry * UInt64.ofNat k).toNat =
      pEntries.toNat + 64 * k := by
    rw [UInt64.toNat_add, UInt64.toNat_mul, UInt64.toNat_ofNat_of_lt' (by
      show k < 2 ^ 64
      omega), show sizeofPhysicalMemTreeEntry.toNat = 64 from rfl]
    omega
  rw [entryPointer, if_neg]
  intro hzero
  rw [hzero, show (0 : UInt64).toNat = 0 from rfl] at haddress
  omega

/-- No entry of such a buffer is at address zero. -/
theorem TreeBuffer.entryPointer
    {pBuffer : UInt64} {sizeData : PhysMemTreeSizeData} (h : TreeBuffer pBuffer sizeData)
    {k : Nat} (hk : k < sizeData.numTreeEntries.toNat) :
    entryPointer (pBuffer + sizeData.treeEntriesOffset) k = some k := by
  obtain ⟨hnull, hentries, hlevels, hblocks, hsize, hinside⟩ := h
  have hpos : pBuffer.toNat ≠ 0 := fun h₀ => hnull (UInt64.toNat_inj.mp h₀)
  have haddress : (pBuffer + sizeData.treeEntriesOffset).toNat =
      pBuffer.toNat + sizeData.treeEntriesOffset.toNat := by
    rw [UInt64.toNat_add]
    omega
  refine entryPointer_of_inside (fun hzero => ?_) (by omega)
  rw [hzero, show (0 : UInt64).toNat = 0 from rfl] at haddress
  omega

end TreeBuffer

section Success

/-- Recording a result changes nothing but the success. -/
theorem check_eq (s : Bool × PhysMemTreeCreateData) :
    PhysMemTreeCreateData.check s = { s.2 with success := s.1 && s.2.success } := by
  obtain ⟨b, c⟩ := s
  cases b <;> rfl

/-- Recording a result never takes back a failure. -/
theorem check_success (b : Bool) (c : PhysMemTreeCreateData) :
    (PhysMemTreeCreateData.check (b, c)).success = (b && c.success) := by
  rw [check_eq]

theorem createTreeLevelBlocks_success (c : PhysMemTreeCreateData) (iLevel : Nat) :
    (createTreeLevelBlocks c iLevel).2.success = c.success := by
  unfold createTreeLevelBlocks
  dsimp only
  split_ifs <;> rfl

theorem fillTreeLevelStructs_success (c : PhysMemTreeCreateData) (iEntry : Nat) :
    (fillTreeLevelStructs c iEntry).2.success = c.success := by
  have hloop : ∀ (l : List Nat) (first : Nat) (s : Bool × PhysMemTreeCreateData),
      (l.foldl (fun s i => if s.1 then createTreeLevelBlocks s.2 (first + i) else s)
        s).2.success = s.2.success := by
    intro l first
    induction l with
    | nil =>
        intro s
        rfl
    | cons i l ih =>
        intro s
        rw [List.foldl_cons, ih]
        split_ifs
        · exact createTreeLevelBlocks_success s.2 (first + i)
        · rfl
  exact hloop _ _ _

/-- A range is worked on to its end, and an earlier failure stays. -/
theorem createTreeForMemoryRange_total (r : PhysRange) (c : PhysMemTreeCreateData) :
    ∃ c', Returns (createTreeForMemoryRange r c) c' ∧
      (c.success = false → c'.success = false) := by
  by_cases hr : shouldCreateTreeForType r.memType = true
  · by_cases hfits : c.treeEntryIndex + 1 ≤ c.sizeData.numTreeEntries
    · refine ⟨_, createTreeForMemoryRange_returns hr c hfits, fun hc => ?_⟩
      rw [check_success, fillTreeLevelStructs_success, check_success,
        show (countedState r c).success = c.success from rfl, hc]
      simp
    · refine ⟨(linkTreeEntry c).fail, ⟨0, fun fuel _ => ?_⟩, fun _ => rfl⟩
      unfold createTreeForMemoryRange
      dsimp only
      rw [if_neg (by simp [hr])]
      exact if_pos (UInt64.not_le.mp hfits)
  · exact ⟨c, ⟨0, fun fuel _ => if_pos (by simpa using hr)⟩, id⟩

end Success

section Failure

variable {base : TreeMemory} {ls : List LevelCursor} {c : PhysMemTreeCreateData}

/-- A level has fewer blocks than there are pages in the address space. -/
theorem treeLevel_numBlocks_lt (r : PhysRange) {h : Nat} (hh : h ≤ 51) :
    (treeLevel r h).numBlocks.toNat < 2 ^ 52 := by
  rw [treeLevel, levelAt_numBlocks hh]
  exact Nat.lt_of_lt_of_le (Nat.mod_lt _ (Nat.two_pow_pos _))
    (Nat.pow_le_pow_right (by decide) (Nat.sub_le _ _))

/-- Blocks that do not fit are noticed at once. -/
theorem createTreeLevelBlocks_fails
    {l : LevelCursor} (h : LevelsCreated base ls c.memory)
    (hindex : c.blockIndex = UInt64.ofNat (blockCount ls))
    (hnum : (base.levels ls.length).numBlocks = l.numBlocks)
    (hsmall : l.numBlocks.toNat < 2 ^ 52)
    (hlimit : c.sizeData.totalBlocksSize.toNat < 2 ^ 63)
    (hbefore : blockCount ls ≤ c.sizeData.totalBlocksSize.toNat)
    (hroom : c.sizeData.totalBlocksSize.toNat < blockCount (ls ++ [l])) :
    (createTreeLevelBlocks c ls.length).1 = false := by
  have hlevel := h.levelFrame ls.length (Nat.le_refl _)
  rw [blockCount_concat, outOfLine] at hroom
  have hout : sizeofInPlaceBlocks < l.numBlocks := by
    by_contra hin
    rw [if_neg hin] at hroom
    omega
  rw [if_pos hout] at hroom
  have hover : c.sizeData.totalBlocksSize < c.blockIndex + l.numBlocks := by
    rw [hindex, UInt64.lt_iff_toNat_lt, UInt64.toNat_add, toNat_ofNat_of_le hbefore]
    omega
  unfold createTreeLevelBlocks
  dsimp only
  rw [hlevel, hnum, if_pos hout, if_pos hover]

/-- So the loop over new levels fails when one of them does not fit. -/
theorem createTreeLevelBlocks_loop_fails
    (h : LevelsCreated base ls c.memory)
    (hindex : c.blockIndex = UInt64.ofNat (blockCount ls))
    (hlimit : c.sizeData.totalBlocksSize.toNat < 2 ^ 63)
    (hbefore : blockCount ls ≤ c.sizeData.totalBlocksSize.toNat)
    (new : List LevelCursor)
    (hnew : ∀ i l, new[i]? = some l →
      (base.levels (ls.length + i)).startMappedAddress = l.minMappedAddress ∧
      (base.levels (ls.length + i)).blockSize = l.blockSize ∧
      (base.levels (ls.length + i)).numBlocks = l.numBlocks)
    (hsmall : ∀ l, l ∈ new → l.numBlocks.toNat < 2 ^ 52)
    (hroom : c.sizeData.totalBlocksSize.toNat < blockCount (ls ++ new)) :
    ((List.range new.length).foldl
      (fun s i => if s.1 then createTreeLevelBlocks s.2 (ls.length + i) else s)
      (true, c)).1 = false := by
  induction new using List.reverseRecOn with
  | nil =>
      rw [List.append_nil] at hroom
      omega
  | append_singleton new l ih =>
      have hinitial : ∀ (i : Nat) (l' : LevelCursor),
          new[i]? = some l' → (new ++ [l])[i]? = some l' := by
        intro i l' hi
        rw [List.getElem?_append_left (List.getElem?_eq_some_iff.mp hi).1]
        exact hi
      rw [List.length_append, List.length_singleton, List.range_succ,
        List.foldl_append, List.foldl_cons, List.foldl_nil]
      by_cases hfits : blockCount (ls ++ new) ≤ c.sizeData.totalBlocksSize.toNat
      · obtain ⟨m', hrun, -, hcreated⟩ := createTreeLevelBlocks_loop h hindex new
          (fun i l' hi => hnew i l' (hinitial i l' hi)) hfits
        obtain ⟨-, -, hnum⟩ := hnew new.length l (by simp)
        rw [← List.length_append] at hnum
        rw [← List.append_assoc] at hroom
        rw [hrun, if_pos rfl, ← List.length_append]
        exact createTreeLevelBlocks_fails hcreated rfl hnum (hsmall l (by simp)) hlimit
          hfits hroom
      · have hfailed := ih (fun i l' hi => hnew i l' (hinitial i l' hi))
          (fun l' hl' => hsmall l' (List.mem_append_left _ hl')) (Nat.lt_of_not_le hfits)
        rw [hfailed]
        exact hfailed

variable {sizeData : PhysMemTreeSizeData} {pBuffer pEntries : UInt64}
  {ranges : List PhysRange} {r : PhysRange}

/-- A range that does not fit is noticed. -/
theorem createTreeForMemoryRange_fails
    (hbuffer : TreeBuffer pBuffer sizeData)
    (h : Created base sizeData pEntries ranges c)
    (hr : shouldCreateTreeForType r.memType = true)
    (hbefore : HasRoom sizeData ranges) (hroom : ¬ HasRoom sizeData (ranges ++ [r])) :
    ∃ c', Returns (createTreeForMemoryRange r c) c' ∧ c'.success = false := by
  obtain ⟨-, hlimitEntries, hlimitLevels, hlimitBlocks, hsize, -⟩ := hbuffer
  have htop : treeTop r ≤ 51 := topHeight_le _ _
  obtain ⟨hentry, hlevel⟩ := h.index_toNat hbefore
  obtain ⟨hnextEntry, hnextLevel⟩ := h.index_succ (r := r)
  have hentries := hbefore.entries
  have hlevels := hbefore.levels
  have hentryNat : (c.treeEntryIndex + 1).toNat = ranges.length + 1 := by
    rw [UInt64.toNat_add, hentry, show (1 : UInt64).toNat = 1 from rfl]
    omega
  by_cases hfitsEntry : c.treeEntryIndex + 1 ≤ sizeData.numTreeEntries
  · refine ⟨_, createTreeForMemoryRange_returns hr c
      (by rw [h.sizeData_eq]; exact hfitsEntry), ?_⟩
    rw [h.sizeData_eq, check_success, fillTreeLevelStructs_success, check_success]
    have hlevelNat : (c.treeLevelStructIndex + UInt64.ofNat (treeTop r + 1)).toNat =
        (levelList ranges).length + (treeTop r + 1) := by
      have htopNat : (UInt64.ofNat (treeTop r + 1)).toNat = treeTop r + 1 :=
        UInt64.toNat_ofNat_of_lt'
          (Nat.lt_of_le_of_lt (Nat.succ_le_succ htop) (by decide))
      rw [UInt64.toNat_add, hlevel, htopNat]
      omega
    by_cases hfitsLevel : c.treeLevelStructIndex + UInt64.ofNat (treeTop r + 1) ≤
        sizeData.numTreeLevelStructs
    · -- only the blocks are left that can be too many
      obtain ⟨hcreated, hstart, hend, hnum, hfirst⟩ :=
        countedState_newEntry (r := r) h hbefore
      obtain ⟨m', hrun, -, -, hsame, -, hnew⟩ :=
        fillTreeLevelStructs_headers ranges.length hcreated hstart hend hnum hfirst
      have hcountedSize : (countedState r c).sizeData = sizeData := h.sizeData_eq
      have hblocks : sizeData.totalBlocksSize.toNat <
          blockCount (levelList ranges ++ treeLevels r) := by
        by_contra hfitsBlocks
        rw [UInt64.le_iff_toNat_le] at hfitsEntry hfitsLevel
        rw [blockCount_append] at hfitsBlocks
        exact hroom (hasRoom_concat_iff.mpr ⟨by omega, by omega, by omega⟩)
      have hfailed := createTreeLevelBlocks_loop_fails
        (c := { countedState r c with memory := m' }) hsame h.blockIndex
        (by dsimp only; rw [hcountedSize]; omega)
        (by dsimp only; rw [hcountedSize]; exact hbefore.blocks)
        (treeLevels r) hnew ?_ (by dsimp only; rw [hcountedSize]; exact hblocks)
      · rw [decide_eq_true hfitsLevel, hentry,
          show PhysMemTreeCreateData.check (true, countedState r c) = countedState r c
            from rfl, hrun, hfailed, Bool.false_and]
      · intro l hl
        obtain ⟨h', hh', rfl⟩ := List.mem_map.mp (List.mem_reverse.mp hl)
        exact treeLevel_numBlocks_lt r (by have := List.mem_range.mp hh'; omega)
    · rw [decide_eq_false hfitsLevel, Bool.false_and, Bool.and_false]
  · refine ⟨(linkTreeEntry c).fail, ⟨0, fun fuel _ => ?_⟩, rfl⟩
    unfold createTreeForMemoryRange
    dsimp only
    rw [if_neg (by simp [hr])]
    refine if_pos (UInt64.not_le.mp ?_)
    rw [show (linkTreeEntry c).sizeData = sizeData from h.sizeData_eq]
    exact hfitsEntry

/-- A tree that was created had enough room for all its ranges. -/
theorem hasRoom_of_success
    {pInitialMap : List InitialMemMapEntry} {tree : PhysicalMemTree} {m : TreeMemory}
    (hbuffer : TreeBuffer pBuffer sizeData)
    (hrun : Returns (createPhysicalMemTree pInitialMap pBuffer sizeData base)
      (true, tree, m)) :
    HasRoom sizeData (treeRanges pInitialMap) := by
  -- either everything so far is laid out, or the failure is recorded
  obtain ⟨c, hc, hdone⟩ := createTreesForMemoryRanges_of_invariant pInitialMap pBuffer
    sizeData base
    (fun done c =>
      HasRoom sizeData done ∧
        Created base sizeData (pBuffer + sizeData.treeEntriesOffset) done c ∨
      c.success = false)
    (Or.inl ⟨⟨Nat.zero_le _, Nat.zero_le _, Nat.zero_le _⟩,
      rfl, rfl, rfl, rfl, rfl, rfl, EntriesCreated.nil base _, LevelsCreated.nil base⟩)
    (fun done r _ c _ hr hc => by
      rcases hc with ⟨hroom, hc⟩ | hfailed
      · by_cases hroom' : HasRoom sizeData (done ++ [r])
        · obtain ⟨c', hstep, hc'⟩ := createTreeForMemoryRange_created hc hr hroom'
          exact ⟨c', hstep, Or.inl ⟨hroom', hc'⟩⟩
        · obtain ⟨c', hstep, hc'⟩ :=
            createTreeForMemoryRange_fails hbuffer hc hr hroom hroom'
          exact ⟨c', hstep, Or.inr hc'⟩
      · obtain ⟨c', hstep, hc'⟩ := createTreeForMemoryRange_total r c
        exact ⟨c', hstep, Or.inr (hc' hfailed)⟩)
  rcases hc with ⟨hroom, -⟩ | hfailed
  · exact hroom
  · exfalso
    have heq := hrun.unique (hdone.map (fun c : PhysMemTreeCreateData =>
      (c.success, ({ pFirstEntry := entryPointer c.pEntries 0 } : PhysicalMemTree),
        c.memory)))
    rw [hfailed] at heq
    exact Bool.noConfusion (congrArg Prod.fst heq)

end Failure

end Kernel
end DexprOS
