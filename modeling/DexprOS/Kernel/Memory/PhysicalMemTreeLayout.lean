import DexprOS.Kernel.Memory.PhysicalMemTreeGen

/-!
# Layout of a created tree

What the tree's buffer holds after the creation: one entry for every tree range,
and for every entry its levels, each with its own run of the block array when its
blocks do not fit into the struct.

Main facts:
* `fillLevelStructs_levels`: the first loop over the levels writes their headers;
* `createTreeLevelBlocks_created`: the second loop gives every level its blocks;
* `createTreeForMemoryRange_created`: one range more is laid out;
* `createPhysicalMemTree_returns`: with enough room the whole tree is laid out.
-/

namespace DexprOS
namespace Kernel

open Fuel

section Layout

/-- The stored level describes level `l`, its blocks start at `offset`. -/
structure LevelHas (level : PhysicalMemTreeLevel) (l : LevelCursor)
    (offset : Nat) : Prop where
  startMappedAddress : level.startMappedAddress = l.minMappedAddress
  blockSize : level.blockSize = l.blockSize
  numBlocks : level.numBlocks = l.numBlocks
  pBlocks : sizeofInPlaceBlocks < l.numBlocks → level.pBlocks = offset

/-- The levels `ls` are laid out from the front of the arrays of `m`; the rest is
as in `base`. -/
structure LevelsCreated (base : TreeMemory) (ls : List LevelCursor)
    (m : TreeMemory) : Prop where
  placed : ∀ j l, ls[j]? = some l →
    LevelHas (m.levels j) l (blockCount (ls.take j))
  levelFrame : ∀ j, ls.length ≤ j → m.levels j = base.levels j
  blockFrame : ∀ i, blockCount ls ≤ i → m.blocks i = base.blocks i

/-- The entry for range `r`, which is number `k` of the tree ranges. -/
def treeEntry (pEntries : UInt64) (ranges : List PhysRange) (k : Nat)
    (r : PhysRange) : PhysicalMemTreeEntry where
  type := r.memType
  flags := r.memFlags
  startAddress := r.physicalAddress
  endAddress := r.physicalAddress + r.rangeSize
  numPages := r.rangeSize / physicalPageSize
  pTreeLevels := (levelList (ranges.take k)).length
  numTreeLevels := UInt64.ofNat (treeTop r + 1)
  pNextEntry := if k + 1 < ranges.length then entryPointer pEntries (k + 1) else none

/-- The entries for `ranges` are laid out; the rest is as in `base`. -/
structure EntriesCreated (base : TreeMemory) (pEntries : UInt64)
    (ranges : List PhysRange) (m : TreeMemory) : Prop where
  placed : ∀ k r, ranges[k]? = some r → m.entries k = treeEntry pEntries ranges k r
  entryFrame : ∀ k, ranges.length ≤ k → m.entries k = base.entries k

theorem LevelsCreated.nil (base : TreeMemory) : LevelsCreated base [] base :=
  ⟨by simp, fun _ _ => rfl, fun _ _ => rfl⟩

theorem EntriesCreated.nil (base : TreeMemory) (pEntries : UInt64) :
    EntriesCreated base pEntries [] base :=
  ⟨by simp, fun _ _ => rfl⟩

end Layout

section Memset

/-- `memset` on out-of-line blocks changes the block array only. -/
theorem memset_outOfLine
    (m : TreeMemory) (offset first count : Nat) (value : UInt8) :
    (m.memset (.outOfLine offset) first value count).levels = m.levels ∧
    ∀ i, (m.memset (.outOfLine offset) first value count).blocks i =
      if offset + first ≤ i ∧ i < offset + first + count then value
      else m.blocks i := by
  induction count with
  | zero =>
      refine ⟨rfl, fun i => ?_⟩
      rw [if_neg (by omega)]
      rfl
  | succ count ih =>
      have hstep : m.memset (.outOfLine offset) first value (count + 1) =
          (m.memset (.outOfLine offset) first value count).store
            (.outOfLine offset) (first + count) value := by
        rw [TreeMemory.memset, List.range_succ, List.foldl_append]
        rfl
      rw [hstep]
      refine ⟨ih.1, fun i => ?_⟩
      simp only [TreeMemory.store, Function.update_apply, ih.2]
      by_cases hlast : i = offset + (first + count)
      · rw [if_pos hlast, if_pos (by omega)]
      · rw [if_neg hlast]
        refine if_congr ?_ rfl rfl
        omega

/-- `memset` on in-place blocks changes the values of that level's blocks only. -/
theorem memset_inPlace
    (m : TreeMemory) (iLevel first count : Nat) (value : UInt8) :
    (m.memset (.inPlace iLevel) first value count).blocks = m.blocks ∧
    ∀ j, j ≠ iLevel →
      (m.memset (.inPlace iLevel) first value count).levels j = m.levels j := by
  induction count with
  | zero =>
      exact ⟨rfl, fun _ _ => rfl⟩
  | succ count ih =>
      have hstep : m.memset (.inPlace iLevel) first value (count + 1) =
          (m.memset (.inPlace iLevel) first value count).store
            (.inPlace iLevel) (first + count) value := by
        rw [TreeMemory.memset, List.range_succ, List.foldl_append]
        rfl
      rw [hstep]
      refine ⟨ih.1, fun j hj => ?_⟩
      simp only [TreeMemory.store, Function.update_of_ne hj, ih.2 j hj]

end Memset

section Levels

/-- A header with the right values describes its level whatever its blocks are. -/
theorem LevelHas.of_header
    {level level' : PhysicalMemTreeLevel} {l : LevelCursor} {offset : Nat}
    (h : LevelHas level l offset) (hheader : level'.header = level.header) :
    LevelHas level' l offset where
  startMappedAddress :=
    (congrArg (fun t => t.1) hheader).trans h.startMappedAddress
  blockSize := (congrArg (fun t => t.2.1) hheader).trans h.blockSize
  numBlocks := (congrArg (fun t => t.2.2.1) hheader).trans h.numBlocks
  pBlocks := fun hout =>
    (congrArg (fun t => t.2.2.2) hheader).trans (h.pBlocks hout)

variable {base : TreeMemory} {ls : List LevelCursor} {m m' : TreeMemory}

/-- One level more: earlier levels and blocks are kept, the new one is placed. -/
theorem LevelsCreated.concat
    (h : LevelsCreated base ls m) {l : LevelCursor}
    (hold : ∀ j, j ≠ ls.length → m'.levels j = m.levels j)
    (hnew : LevelHas (m'.levels ls.length) l (blockCount ls))
    (hblocks : ∀ i, blockCount (ls ++ [l]) ≤ i → m'.blocks i = m.blocks i) :
    LevelsCreated base (ls ++ [l]) m' where
  placed := by
    intro j l' hj
    rcases Nat.lt_trichotomy j ls.length with hlt | rfl | hgt
    · rw [List.getElem?_append_left hlt] at hj
      rw [hold j (Nat.ne_of_lt hlt), List.take_append_of_le_length (Nat.le_of_lt hlt)]
      exact h.placed j l' hj
    · obtain rfl : l = l' := by simpa using hj
      rw [List.take_left']
      · exact hnew
      · rfl
    · rw [List.getElem?_eq_none (by simp; omega)] at hj
      cases hj
  levelFrame := by
    intro j hj
    rw [List.length_append, List.length_singleton] at hj
    rw [hold j (by omega)]
    exact h.levelFrame j (by omega)
  blockFrame := by
    intro i hi
    rw [hblocks i hi]
    refine h.blockFrame i ?_
    rw [blockCount_concat] at hi
    omega

variable {c : PhysMemTreeCreateData} {l : LevelCursor}

/-- The next level gets its blocks. -/
theorem createTreeLevelBlocks_created
    (h : LevelsCreated base ls c.memory)
    (hindex : c.blockIndex = UInt64.ofNat (blockCount ls))
    (hstart : (base.levels ls.length).startMappedAddress = l.minMappedAddress)
    (hsize : (base.levels ls.length).blockSize = l.blockSize)
    (hnum : (base.levels ls.length).numBlocks = l.numBlocks)
    (hroom : blockCount (ls ++ [l]) ≤ c.sizeData.totalBlocksSize.toNat) :
    ∃ m', createTreeLevelBlocks c ls.length =
        (true, { c with
          memory := m'
          blockIndex := UInt64.ofNat (blockCount (ls ++ [l])) }) ∧
      m'.entries = c.memory.entries ∧ LevelsCreated base (ls ++ [l]) m' := by
  have hlevel := h.levelFrame ls.length (Nat.le_refl _)
  have hlt := c.sizeData.totalBlocksSize.toNat_lt
  have hoffset : (UInt64.ofNat (blockCount ls)).toNat = blockCount ls := by
    refine UInt64.toNat_ofNat_of_lt' ?_
    rw [blockCount_concat] at hroom
    exact Nat.lt_of_le_of_lt (Nat.le_trans (Nat.le_add_right _ _) hroom) hlt
  unfold createTreeLevelBlocks
  dsimp only
  rw [hlevel, hnum, hindex, hoffset]
  by_cases hout : sizeofInPlaceBlocks < l.numBlocks
  · have hcount : blockCount (ls ++ [l]) = blockCount ls + l.numBlocks.toNat := by
      rw [blockCount_concat, outOfLine, if_pos hout]
    have hnext : UInt64.ofNat (blockCount ls) + l.numBlocks =
        UInt64.ofNat (blockCount (ls ++ [l])) := by
      rw [hcount, UInt64.ofNat_add, UInt64.ofNat_toNat]
    have hfits : ¬ c.sizeData.totalBlocksSize <
        UInt64.ofNat (blockCount (ls ++ [l])) := by
      rw [UInt64.lt_iff_toNat_lt,
        UInt64.toNat_ofNat_of_lt' (Nat.lt_of_le_of_lt hroom hlt)]
      omega
    rw [if_pos hout, hnext, if_neg hfits]
    generalize hset : c.memory.setLevel ls.length _ = m₁
    have hentries : m₁.entries = c.memory.entries := by
      rw [← hset]
      rfl
    have hblocks₁ : m₁.blocks = c.memory.blocks := by
      rw [← hset]
      rfl
    obtain ⟨hlevels, hblocks⟩ :=
      memset_outOfLine m₁ (blockCount ls) 0 l.numBlocks.toNat 0
    refine ⟨_, rfl, (sameShape_memset m₁ _ 0 0 _).entries.trans hentries,
      h.concat ?_ ?_ ?_⟩
    · intro j hj
      rw [hlevels, ← hset]
      exact Function.update_of_ne hj _ _
    · rw [hlevels, ← hset]
      simp only [TreeMemory.setLevel, Function.update_self]
      exact ⟨hstart, hsize, rfl, fun _ => rfl⟩
    · intro i hi
      rw [hcount] at hi
      rw [hblocks i, if_neg (by omega), hblocks₁]
  · have hcount : blockCount (ls ++ [l]) = blockCount ls := by
      rw [blockCount_concat, outOfLine, if_neg hout, Nat.add_zero]
    rw [if_neg hout, hcount, ← hindex]
    obtain ⟨hblocks, hlevels⟩ :=
      memset_inPlace c.memory ls.length 0 sizeofInPlaceBlocks.toNat 0
    have hshape := sameShape_memset c.memory (.inPlace ls.length) 0 0
      sizeofInPlaceBlocks.toNat
    refine ⟨_, rfl, hshape.entries, h.concat hlevels ?_ (fun i _ => by rw [hblocks])⟩
    refine LevelHas.of_header ?_ (hshape.headers ls.length)
    rw [hlevel]
    exact ⟨hstart, hsize, hnum, fun h => absurd h hout⟩

/-- The loop gives blocks to all levels whose headers are in place. -/
theorem createTreeLevelBlocks_loop
    (h : LevelsCreated base ls c.memory)
    (hindex : c.blockIndex = UInt64.ofNat (blockCount ls))
    (new : List LevelCursor)
    (hnew : ∀ i l, new[i]? = some l →
      (base.levels (ls.length + i)).startMappedAddress = l.minMappedAddress ∧
      (base.levels (ls.length + i)).blockSize = l.blockSize ∧
      (base.levels (ls.length + i)).numBlocks = l.numBlocks)
    (hroom : blockCount (ls ++ new) ≤ c.sizeData.totalBlocksSize.toNat) :
    ∃ m', (List.range new.length).foldl
        (fun s i => if s.1 then createTreeLevelBlocks s.2 (ls.length + i) else s)
        (true, c) =
        (true, { c with
          memory := m'
          blockIndex := UInt64.ofNat (blockCount (ls ++ new)) }) ∧
      m'.entries = c.memory.entries ∧ LevelsCreated base (ls ++ new) m' := by
  induction new using List.reverseRecOn with
  | nil =>
      refine ⟨c.memory, ?_, rfl, by simpa using h⟩
      simp [← hindex]
  | append_singleton new l ih =>
      have hinitial : blockCount (ls ++ new) ≤ c.sizeData.totalBlocksSize.toNat := by
        rw [← List.append_assoc, blockCount_concat] at hroom
        omega
      obtain ⟨m₁, hrun, hentries, hcreated⟩ := ih (fun i l' hi => hnew i l' (by
        rw [List.getElem?_append_left]
        · exact hi
        · exact (List.getElem?_eq_some_iff.mp hi).1)) hinitial
      obtain ⟨hstart, hsize, hnum⟩ := hnew new.length l (by simp)
      rw [← List.length_append] at hstart hsize hnum
      rw [← List.append_assoc] at hroom
      have hlast := createTreeLevelBlocks_created
        (c := { c with
          memory := m₁
          blockIndex := UInt64.ofNat (blockCount (ls ++ new)) })
        hcreated rfl hstart hsize hnum hroom
      obtain ⟨m₂, hstep, hentries₂, hcreated₂⟩ := hlast
      refine ⟨m₂, ?_, hentries₂.trans hentries, by
        rw [← List.append_assoc]
        exact hcreated₂⟩
      rw [List.length_append, List.length_singleton, List.range_succ,
        List.foldl_append, hrun, List.foldl_cons, List.foldl_nil, if_pos rfl,
        ← List.length_append, hstep, ← List.append_assoc]

end Levels

section LevelStructs

variable {entry : PhysicalMemTreeEntry} {r : PhysRange}

/-- The first loop writes the headers of the levels, from the last level upwards. -/
theorem fillLevelStructs_levels
    (hstart : entry.startAddress = r.physicalAddress)
    (hend : entry.endAddress = r.physicalAddress + r.rangeSize)
    (hnum : entry.numTreeLevels.toNat = treeTop r + 1)
    (m : TreeMemory) (n : Nat) (hn : n ≤ treeTop r + 1) :
    ∃ m', (List.range n).foldl (fillLevelStruct entry)
        (firstCursor entry.startAddress entry.endAddress, m) =
        (cursorAt r.physicalAddress (r.physicalAddress + r.rangeSize) n, m') ∧
      m'.entries = m.entries ∧ m'.blocks = m.blocks ∧
      (∀ j, j < entry.pTreeLevels + (treeTop r + 1 - n) ∨
          entry.pTreeLevels + (treeTop r + 1) ≤ j → m'.levels j = m.levels j) ∧
      ∀ h, h < n →
        (m'.levels (entry.pTreeLevels + (treeTop r - h))).startMappedAddress =
          (treeLevel r h).minMappedAddress ∧
        (m'.levels (entry.pTreeLevels + (treeTop r - h))).blockSize =
          (treeLevel r h).blockSize ∧
        (m'.levels (entry.pTreeLevels + (treeTop r - h))).numBlocks =
          (treeLevel r h).numBlocks := by
  induction n with
  | zero =>
      refine ⟨m, ?_, rfl, rfl, fun _ _ => rfl, fun h hh => absurd hh (Nat.not_lt_zero h)⟩
      rw [hstart, hend]
      rfl
  | succ n ih =>
      obtain ⟨m₁, hrun, hentries, hblocks, hframe, hheaders⟩ := ih (by omega)
      have hindex : entry.numTreeLevels.toNat - n - 1 = treeTop r - n := by
        rw [hnum]
        omega
      rw [List.range_succ, List.foldl_append, hrun, List.foldl_cons, List.foldl_nil]
      simp only [fillLevelStruct, hindex]
      refine ⟨_, rfl, hentries, hblocks, ?_, ?_⟩
      · intro j hj
        simp only [TreeMemory.setLevel]
        rw [Function.update_of_ne (by omega)]
        exact hframe j (by omega)
      · intro h hh
        simp only [TreeMemory.setLevel]
        by_cases hlast : h = n
        · subst hlast
          rw [Function.update_self]
          exact ⟨rfl, rfl, rfl⟩
        · rw [Function.update_of_ne (by omega)]
          exact hheaders h (by omega)

variable {base : TreeMemory} {ls : List LevelCursor} {c : PhysMemTreeCreateData}

/-- With the headers in place only the blocks of the entry's levels are missing. -/
theorem fillTreeLevelStructs_headers
    (iEntry : Nat) (h : LevelsCreated base ls c.memory)
    (hstart : (c.memory.entries iEntry).startAddress = r.physicalAddress)
    (hend : (c.memory.entries iEntry).endAddress = r.physicalAddress + r.rangeSize)
    (hnum : (c.memory.entries iEntry).numTreeLevels.toNat = treeTop r + 1)
    (hfirst : (c.memory.entries iEntry).pTreeLevels = ls.length) :
    ∃ m', fillTreeLevelStructs c iEntry =
        (List.range (treeLevels r).length).foldl
          (fun s i => if s.1 then createTreeLevelBlocks s.2 (ls.length + i) else s)
          (true, { c with memory := m' }) ∧
      m'.entries = c.memory.entries ∧ m'.blocks = c.memory.blocks ∧
      LevelsCreated m' ls m' ∧
      (∀ j, ls.length + (treeLevels r).length ≤ j →
        m'.levels j = c.memory.levels j) ∧
      ∀ i l, (treeLevels r)[i]? = some l →
        (m'.levels (ls.length + i)).startMappedAddress = l.minMappedAddress ∧
        (m'.levels (ls.length + i)).blockSize = l.blockSize ∧
        (m'.levels (ls.length + i)).numBlocks = l.numBlocks := by
  obtain ⟨m', hrun, hentries, hblocks, hframe, hheaders⟩ :=
    fillLevelStructs_levels hstart hend hnum c.memory (treeTop r + 1) (Nat.le_refl _)
  rw [hfirst] at hframe hheaders
  rw [length_treeLevels]
  refine ⟨m', ?_, hentries, hblocks, ⟨fun j l hj => ?_, fun _ _ => rfl, fun _ _ => rfl⟩,
    fun j hj => hframe j (Or.inr hj), fun i l hi => ?_⟩
  · unfold fillTreeLevelStructs
    dsimp only
    rw [hnum, hrun, hfirst]
  · have hlt : j < ls.length := (List.getElem?_eq_some_iff.mp hj).1
    rw [hframe j (by omega)]
    exact h.placed j l hj
  · have hlt : i < (treeLevels r).length := (List.getElem?_eq_some_iff.mp hi).1
    rw [length_treeLevels] at hlt
    rw [treeLevels_getElem? r (by omega)] at hi
    obtain rfl : treeLevel r (treeTop r - i) = l := Option.some.inj hi
    have hheader := hheaders (treeTop r - i) (by omega)
    rwa [show treeTop r - (treeTop r - i) = i by omega] at hheader

/-- The levels of one entry are laid out behind those of earlier entries. -/
theorem fillTreeLevelStructs_created
    (iEntry : Nat) (h : LevelsCreated base ls c.memory)
    (hindex : c.blockIndex = UInt64.ofNat (blockCount ls))
    (hstart : (c.memory.entries iEntry).startAddress = r.physicalAddress)
    (hend : (c.memory.entries iEntry).endAddress = r.physicalAddress + r.rangeSize)
    (hnum : (c.memory.entries iEntry).numTreeLevels.toNat = treeTop r + 1)
    (hfirst : (c.memory.entries iEntry).pTreeLevels = ls.length)
    (hroom : blockCount (ls ++ treeLevels r) ≤ c.sizeData.totalBlocksSize.toNat) :
    ∃ m', fillTreeLevelStructs c iEntry =
        (true, { c with
          memory := m'
          blockIndex := UInt64.ofNat (blockCount (ls ++ treeLevels r)) }) ∧
      m'.entries = c.memory.entries ∧
      LevelsCreated base (ls ++ treeLevels r) m' := by
  obtain ⟨m₁, hrun, hentries, hblocks, hsame, hframe, hnew⟩ :=
    fillTreeLevelStructs_headers iEntry h hstart hend hnum hfirst
  obtain ⟨m', hloop, hentries', hcreated⟩ := createTreeLevelBlocks_loop
    (c := { c with memory := m₁ }) hsame hindex (treeLevels r) hnew hroom
  refine ⟨m', hrun.trans hloop, hentries'.trans hentries, hcreated.placed, ?_, ?_⟩
  · intro j hj
    rw [hcreated.levelFrame j hj]
    rw [List.length_append] at hj
    rw [hframe j hj]
    exact h.levelFrame j (by omega)
  · intro i hi
    have hle : blockCount ls ≤ i := by
      rw [blockCount_append] at hi
      omega
    rw [hcreated.blockFrame i hi, hblocks]
    exact h.blockFrame i hle

end LevelStructs

section Entries

/-- The size data has room for the given tree ranges. -/
structure HasRoom (sizeData : PhysMemTreeSizeData) (ranges : List PhysRange) :
    Prop where
  entries : ranges.length ≤ sizeData.numTreeEntries.toNat
  levels : (levelList ranges).length ≤ sizeData.numTreeLevelStructs.toNat
  blocks : blockCount (levelList ranges) ≤ sizeData.totalBlocksSize.toNat

/-- The state of the creation after the given tree ranges. -/
structure Created (base : TreeMemory) (sizeData : PhysMemTreeSizeData)
    (pEntries : UInt64) (ranges : List PhysRange) (c : PhysMemTreeCreateData) :
    Prop where
  sizeData_eq : c.sizeData = sizeData
  pEntries_eq : c.pEntries = pEntries
  entryIndex : c.treeEntryIndex = UInt64.ofNat ranges.length
  levelIndex : c.treeLevelStructIndex = UInt64.ofNat (levelList ranges).length
  blockIndex : c.blockIndex = UInt64.ofNat (blockCount (levelList ranges))
  success : c.success = true
  entries : EntriesCreated base pEntries ranges c.memory
  levels : LevelsCreated base (levelList ranges) c.memory

theorem HasRoom.of_append
    {sizeData : PhysMemTreeSizeData} {ranges ranges' : List PhysRange}
    (h : HasRoom sizeData (ranges ++ ranges')) :
    HasRoom sizeData ranges where
  entries := by
    have := h.entries
    rw [List.length_append] at this
    omega
  levels := by
    have := h.levels
    rw [levelList_append, List.length_append] at this
    omega
  blocks := by
    have := h.blocks
    rw [levelList_append, blockCount_append] at this
    omega

/-- Room for one range more. -/
theorem hasRoom_concat_iff
    {sizeData : PhysMemTreeSizeData} {ranges : List PhysRange} {r : PhysRange} :
    HasRoom sizeData (ranges ++ [r]) ↔
      ranges.length + 1 ≤ sizeData.numTreeEntries.toNat ∧
      (levelList ranges).length + (treeTop r + 1) ≤ sizeData.numTreeLevelStructs.toNat ∧
      blockCount (levelList ranges) + blockCount (treeLevels r) ≤
        sizeData.totalBlocksSize.toNat := by
  have hlength : (ranges ++ [r]).length = ranges.length + 1 := List.length_append
  have hlevels : (levelList (ranges ++ [r])).length =
      (levelList ranges).length + (treeTop r + 1) := by
    rw [levelList_concat, List.length_append, length_treeLevels]
  have hblocks : blockCount (levelList (ranges ++ [r])) =
      blockCount (levelList ranges) + blockCount (treeLevels r) := by
    rw [levelList_concat, blockCount_append]
  rw [← hlength, ← hlevels, ← hblocks]
  exact ⟨fun h => ⟨h.entries, h.levels, h.blocks⟩, fun ⟨he, hl, hb⟩ => ⟨he, hl, hb⟩⟩

variable {base : TreeMemory} {sizeData : PhysMemTreeSizeData} {pEntries : UInt64}
  {ranges : List PhysRange} {c : PhysMemTreeCreateData}

/-- Linking leaves the levels and blocks alone. -/
theorem linkTreeEntry_memory (c : PhysMemTreeCreateData) :
    (linkTreeEntry c).memory.levels = c.memory.levels ∧
    (linkTreeEntry c).memory.blocks = c.memory.blocks := by
  unfold linkTreeEntry
  dsimp only
  split_ifs <;> exact ⟨rfl, rfl⟩

/-- The entries after linking a new one and assigning it. -/
theorem EntriesCreated.link
    {m m' : TreeMemory} (h : EntriesCreated base pEntries ranges m)
    (r : PhysRange)
    (hlast : ∀ k, k + 1 = ranges.length →
      m'.entries k =
        { m.entries k with pNextEntry := entryPointer pEntries ranges.length })
    (hnew : m'.entries ranges.length =
      treeEntry pEntries (ranges ++ [r]) ranges.length r)
    (hrest : ∀ k, k + 1 ≠ ranges.length → k ≠ ranges.length →
      m'.entries k = m.entries k) :
    EntriesCreated base pEntries (ranges ++ [r]) m' where
  placed := by
    intro k r' hk
    rcases Nat.lt_trichotomy k ranges.length with hlt | rfl | hgt
    · rw [List.getElem?_append_left hlt] at hk
      have hold := h.placed k r' hk
      by_cases hend : k + 1 = ranges.length
      · rw [hlast k hend, hold]
        simp [treeEntry, ← hend, List.take_append_of_le_length (Nat.le_of_lt hlt)]
      · have hlt' : k + 1 < ranges.length := by omega
        have hlt'' : k + 1 < ranges.length + 1 := by omega
        rw [hrest k hend (Nat.ne_of_lt hlt), hold]
        simp [treeEntry, hlt', hlt'', List.take_append_of_le_length (Nat.le_of_lt hlt)]
    · obtain rfl : r = r' := by simpa using hk
      exact hnew
    · rw [List.getElem?_eq_none (by simp; omega)] at hk
      cases hk
  entryFrame := by
    intro k hk
    rw [List.length_append, List.length_singleton] at hk
    rw [hrest k (by omega) (by omega)]
    exact h.entryFrame k (by omega)

theorem LevelsCreated.congr
    {ls : List LevelCursor} {m m' : TreeMemory} (h : LevelsCreated base ls m)
    (hlevels : m'.levels = m.levels) (hblocks : m'.blocks = m.blocks) :
    LevelsCreated base ls m' where
  placed := fun j l hj => by
    rw [hlevels]
    exact h.placed j l hj
  levelFrame := fun j hj => by
    rw [hlevels]
    exact h.levelFrame j hj
  blockFrame := fun i hi => by
    rw [hblocks]
    exact h.blockFrame i hi

/-- The blocks of an earlier level end before those of a later one start. -/
theorem LevelsCreated.pBlocks_before
    {ls : List LevelCursor} {m : TreeMemory} (hc : LevelsCreated base ls m) {i j : Nat}
    (hij : i < j) (hj : j ≤ ls.length)
    (hi : sizeofInPlaceBlocks < (m.levels i).numBlocks) :
    (m.levels i).pBlocks + (m.levels i).numBlocks.toNat ≤ blockCount (ls.take j) := by
  obtain ⟨l, hl⟩ : ∃ l, ls[i]? = some l :=
    ⟨_, List.getElem?_eq_getElem (Nat.lt_of_lt_of_le hij hj)⟩
  have hplaced := hc.placed i l hl
  rw [hplaced.numBlocks] at hi ⊢
  have hnext : blockCount (ls.take (i + 1)) =
      blockCount (ls.take i) + l.numBlocks.toNat := by
    rw [List.take_add_one, hl, Option.toList_some, blockCount_concat, outOfLine,
      if_pos hi]
  have hle := blockCount_take_le (ls.take j) (i + 1)
  rw [List.take_take, Nat.min_eq_left (show i + 1 ≤ j from hij)] at hle
  rw [hplaced.pBlocks hi]
  omega

/-- A number below a 64-bit bound is represented. -/
theorem toNat_ofNat_of_le
    {n : Nat} {x : UInt64} (h : n ≤ x.toNat) :
    (UInt64.ofNat n).toNat = n :=
  UInt64.toNat_ofNat_of_lt' (Nat.lt_of_le_of_lt h x.toNat_lt)

theorem ofNat_le_of_le
    {n : Nat} {x : UInt64} (h : n ≤ x.toNat) :
    UInt64.ofNat n ≤ x := by
  rw [UInt64.le_iff_toNat_le, toNat_ofNat_of_le h]
  exact h

/-- The loop of `CreateTreeLevels` counts the levels. -/
theorem forLevels_count_returns (r : PhysRange) :
    Returns (fun fuel => forLevels (fun _ numLevels => numLevels + 1)
        r.physicalAddress (r.physicalAddress + r.rangeSize) fuel (0 : UInt64))
      (UInt64.ofNat (treeTop r + 1)) := by
  have hcount : ∀ ls : List LevelCursor,
      ls.foldl (fun n _ => n + 1) (0 : UInt64) = UInt64.ofNat ls.length := by
    intro ls
    induction ls using List.reverseRecOn with
    | nil =>
        rfl
    | append_singleton ls l ih =>
        rw [List.foldl_append, ih, List.length_append, UInt64.ofNat_add]
        rfl
  have hrun := forLevels_range_returns r (fun _ n => n + 1) (0 : UInt64)
  rw [hcount, List.length_map, List.length_range] at hrun
  exact hrun

end Entries

section Ranges

variable {base : TreeMemory} {sizeData : PhysMemTreeSizeData} {pEntries : UInt64}
  {ranges : List PhysRange} {c : PhysMemTreeCreateData} {r : PhysRange}

/-- The levels of an assigned entry are counted, and checked against the size data. -/
theorem createTreeLevels_returns
    {k : Nat}
    (hstart : (c.memory.entries k).startAddress = r.physicalAddress)
    (hend : (c.memory.entries k).endAddress = r.physicalAddress + r.rangeSize) :
    Returns (createTreeLevels c k)
      (decide (c.treeLevelStructIndex + UInt64.ofNat (treeTop r + 1) ≤
          c.sizeData.numTreeLevelStructs),
        { c with
          memory := c.memory.setEntry k
            { c.memory.entries k with numTreeLevels := UInt64.ofNat (treeTop r + 1) }
          treeLevelStructIndex :=
            c.treeLevelStructIndex + UInt64.ofNat (treeTop r + 1) }) := by
  have hrun := (forLevels_count_returns r).map (fun numLevels =>
    ((decide (c.treeLevelStructIndex + numLevels ≤ c.sizeData.numTreeLevelStructs),
      { c with
        memory := c.memory.setEntry k
          { c.memory.entries k with numTreeLevels := numLevels }
        treeLevelStructIndex := c.treeLevelStructIndex + numLevels }) :
      Bool × PhysMemTreeCreateData))
  refine hrun.congr (fun fuel => ?_)
  simp only [createTreeLevels, hstart, hend]

/-- The state when the new entry is linked, assigned and its levels counted. -/
def countedState (r : PhysRange) (c : PhysMemTreeCreateData) :
    PhysMemTreeCreateData :=
  let c := assignTreeEntry r c.treeEntryIndex.toNat (linkTreeEntry c)
  { c with
    memory := c.memory.setEntry (c.treeEntryIndex - 1).toNat
      { c.memory.entries (c.treeEntryIndex - 1).toNat with
        numTreeLevels := UInt64.ofNat (treeTop r + 1) }
    treeLevelStructIndex := c.treeLevelStructIndex + UInt64.ofNat (treeTop r + 1) }

/-- Its entries are those of one range more. -/
theorem countedState_entries
    (h : Created base sizeData pEntries ranges c)
    (hentry : c.treeEntryIndex.toNat = ranges.length)
    (hlevel : c.treeLevelStructIndex.toNat = (levelList ranges).length)
    {m : TreeMemory} (hm : m.entries = (countedState r c).memory.entries) :
    EntriesCreated base pEntries (ranges ++ [r]) m := by
  have hback : (c.treeEntryIndex + 1 - 1).toNat = ranges.length := by
    rw [UInt64.add_sub_cancel, hentry]
  have hindex : (linkTreeEntry c).treeEntryIndex = c.treeEntryIndex + 1 := rfl
  refine h.entries.link r ?_ ?_ ?_
  · intro k hk
    have hpos : 0 < c.treeEntryIndex := by
      rw [UInt64.lt_iff_toNat_lt, hentry, ← hk]
      exact Nat.succ_pos k
    rw [hm]
    simp only [countedState, assignTreeEntry, TreeMemory.setEntry, hindex, hback, hentry]
    rw [Function.update_of_ne (by omega), Function.update_of_ne (by omega)]
    simp only [linkTreeEntry, if_pos hpos, hentry, TreeMemory.setEntry, h.pEntries_eq]
    rw [show ranges.length - 1 = k by omega, Function.update_self]
  · rw [hm]
    simp only [countedState, assignTreeEntry, TreeMemory.setEntry, hindex, hback,
      hentry, Function.update_self]
    simp [treeEntry, linkTreeEntry, hlevel]
  · intro k hk hk'
    rw [hm]
    simp only [countedState, assignTreeEntry, TreeMemory.setEntry, hindex, hback, hentry]
    rw [Function.update_of_ne hk', Function.update_of_ne hk']
    simp only [linkTreeEntry, hentry]
    split_ifs with hpos
    · rw [UInt64.lt_iff_toNat_lt, hentry] at hpos
      have hpos' : 0 < ranges.length := hpos
      simp only [TreeMemory.setEntry]
      rw [Function.update_of_ne (by omega)]
    · rfl

/-- A new entry that fits is assigned, and its levels are counted and filled. -/
theorem createTreeForMemoryRange_returns
    (hr : shouldCreateTreeForType r.memType = true) (c : PhysMemTreeCreateData)
    (hfits : c.treeEntryIndex + 1 ≤ c.sizeData.numTreeEntries) :
    Returns (createTreeForMemoryRange r c)
      (.check (fillTreeLevelStructs
        (.check (decide (c.treeLevelStructIndex + UInt64.ofNat (treeTop r + 1) ≤
          c.sizeData.numTreeLevelStructs), countedState r c))
        c.treeEntryIndex.toNat)) := by
  have hback : (c.treeEntryIndex + 1 - 1).toNat = c.treeEntryIndex.toNat := by
    rw [UInt64.add_sub_cancel]
  have hindex : (assignTreeEntry r c.treeEntryIndex.toNat
      (linkTreeEntry c)).treeEntryIndex = c.treeEntryIndex + 1 := rfl
  have hlink : (linkTreeEntry c).treeEntryIndex = c.treeEntryIndex + 1 := rfl
  have hsize : (linkTreeEntry c).sizeData = c.sizeData := rfl
  have hcount := createTreeLevels_returns (r := r) (k := c.treeEntryIndex.toNat)
    (c := assignTreeEntry r c.treeEntryIndex.toNat (linkTreeEntry c))
    (by simp [assignTreeEntry, TreeMemory.setEntry])
    (by simp [assignTreeEntry, TreeMemory.setEntry])
  have hrun := hcount.map (fun result =>
    PhysMemTreeCreateData.check (fillTreeLevelStructs (.check result)
      c.treeEntryIndex.toNat))
  simp only [countedState, hindex, hback]
  refine hrun.congr (fun fuel => ?_)
  unfold createTreeForMemoryRange
  dsimp only
  rw [if_neg (by simp [hr]), hlink, hsize, if_neg (UInt64.not_lt.mpr hfits)]

/-- The indices before a range that fits are the exact numbers. -/
theorem Created.index_toNat
    (h : Created base sizeData pEntries ranges c) (hroom : HasRoom sizeData ranges) :
    c.treeEntryIndex.toNat = ranges.length ∧
    c.treeLevelStructIndex.toNat = (levelList ranges).length := by
  rw [h.entryIndex, h.levelIndex]
  exact ⟨toNat_ofNat_of_le hroom.entries, toNat_ofNat_of_le hroom.levels⟩

/-- The indices behind one range more. -/
theorem Created.index_succ (h : Created base sizeData pEntries ranges c) :
    c.treeEntryIndex + 1 = UInt64.ofNat (ranges ++ [r]).length ∧
    c.treeLevelStructIndex + UInt64.ofNat (treeTop r + 1) =
      UInt64.ofNat (levelList (ranges ++ [r])).length := by
  constructor
  · rw [h.entryIndex, List.length_append, UInt64.ofNat_add]
    rfl
  · rw [h.levelIndex, levelList_concat, List.length_append, length_treeLevels,
      UInt64.ofNat_add (levelList ranges).length]

/-- What the filling of the new entry's levels finds in the counted state. -/
theorem countedState_newEntry
    (h : Created base sizeData pEntries ranges c) (hroom : HasRoom sizeData ranges) :
    LevelsCreated base (levelList ranges) (countedState r c).memory ∧
    ((countedState r c).memory.entries ranges.length).startAddress =
      r.physicalAddress ∧
    ((countedState r c).memory.entries ranges.length).endAddress =
      r.physicalAddress + r.rangeSize ∧
    ((countedState r c).memory.entries ranges.length).numTreeLevels.toNat =
      treeTop r + 1 ∧
    ((countedState r c).memory.entries ranges.length).pTreeLevels =
      (levelList ranges).length := by
  have hnum : (UInt64.ofNat (treeTop r + 1)).toNat = treeTop r + 1 := by
    have htop : treeTop r ≤ 51 := topHeight_le _ _
    exact UInt64.toNat_ofNat_of_lt' (Nat.lt_of_le_of_lt (Nat.succ_le_succ htop) (by decide))
  obtain ⟨hentry, hlevel⟩ := h.index_toNat hroom
  have hentries : EntriesCreated base pEntries (ranges ++ [r])
      (countedState r c).memory := countedState_entries h hentry hlevel rfl
  rw [hentries.placed ranges.length r (by simp)]
  exact ⟨h.levels.congr (linkTreeEntry_memory c).1 (linkTreeEntry_memory c).2, rfl, rfl,
    hnum, by rw [treeEntry, List.take_left' rfl]⟩

/-- One range more is laid out. -/
theorem createTreeForMemoryRange_created
    (h : Created base sizeData pEntries ranges c)
    (hr : shouldCreateTreeForType r.memType = true)
    (hroom : HasRoom sizeData (ranges ++ [r])) :
    ∃ c', Returns (createTreeForMemoryRange r c) c' ∧
      Created base sizeData pEntries (ranges ++ [r]) c' := by
  have hbefore : HasRoom sizeData ranges := hroom.of_append
  obtain ⟨hentry, hlevel⟩ := h.index_toNat hbefore
  obtain ⟨hnextEntry, hnextLevel⟩ := h.index_succ (r := r)
  obtain ⟨hlevels, hstart, hend, hnum, hfirst⟩ := countedState_newEntry (r := r) h hbefore
  have hsize : (countedState r c).sizeData = sizeData := h.sizeData_eq
  have hrun := createTreeForMemoryRange_returns hr c
    (by rw [hnextEntry, h.sizeData_eq]; exact ofNat_le_of_le hroom.entries)
  rw [hnextLevel, h.sizeData_eq, decide_eq_true (ofNat_le_of_le hroom.levels),
    hentry] at hrun
  obtain ⟨m', hfill, hentries', hcreated⟩ := fillTreeLevelStructs_created
    (c := countedState r c) (r := r) ranges.length hlevels h.blockIndex hstart hend hnum
    hfirst (by rw [hsize, ← levelList_concat]; exact hroom.blocks)
  rw [← levelList_concat] at hfill hcreated
  rw [show PhysMemTreeCreateData.check (true, countedState r c) = countedState r c
    from rfl, hfill] at hrun
  exact ⟨_, hrun, h.sizeData_eq, h.pEntries_eq, hnextEntry, hnextLevel, rfl, h.success,
    countedState_entries h hentry hlevel hentries', hcreated⟩

/-- What each tree range keeps, starting from the creation's first state, holds after the
iteration of all of them. -/
theorem createTreesForMemoryRanges_of_invariant
    (pInitialMap : List InitialMemMapEntry) (pBuffer : UInt64)
    (sizeData : PhysMemTreeSizeData) (base : TreeMemory)
    (inv : List PhysRange → PhysMemTreeCreateData → Prop)
    (hstart : inv []
      { sizeData := sizeData
        pEntries := pBuffer + sizeData.treeEntriesOffset
        memory := base
        treeEntryIndex := 0
        treeLevelStructIndex := 0
        blockIndex := 0
        success := true })
    (hstep : ∀ done r todo c, treeRanges pInitialMap = done ++ [r] ++ todo →
      shouldCreateTreeForType r.memType = true → inv done c →
      ∃ c', Returns (createTreeForMemoryRange r c) c' ∧ inv (done ++ [r]) c') :
    ∃ c, inv (treeRanges pInitialMap) c ∧
      Returns (createTreesForMemoryRanges pInitialMap pBuffer sizeData base) c := by
  obtain ⟨c, hrun, hc⟩ := returns_foldl_of_invariant
    (f := createTreeForMemoryRange)
    (fun done c => inv (done.filter (fun r => shouldCreateTreeForType r.memType)) c)
    (combinedPhysRanges pInitialMap)
    (fun done r todo c hsplit hc => by
      cases hr : shouldCreateTreeForType r.memType with
      | false =>
          refine ⟨c, ⟨0, fun fuel _ => if_pos hr⟩, ?_⟩
          simpa [hr] using hc
      | true =>
          have hall : treeRanges pInitialMap =
              done.filter (fun r => shouldCreateTreeForType r.memType) ++ [r] ++
                todo.filter (fun r => shouldCreateTreeForType r.memType) := by
            simp [treeRanges, hsplit, hr]
          obtain ⟨c', hrun, hc'⟩ := hstep _ r _ c hall hr hc
          refine ⟨c', hrun, ?_⟩
          simpa [hr] using hc')
    hstart
  refine ⟨c, hc, hrun.congr (fun fuel => ?_)⟩
  rw [createTreesForMemoryRanges, iterateInitialMemMapCombinedPhysRanges_eq_foldl]

/-- With enough room the iteration lays out every tree range. -/
theorem createTreesForMemoryRanges_returns
    (pInitialMap : List InitialMemMapEntry) (pBuffer : UInt64) (base : TreeMemory)
    (hroom : HasRoom sizeData (treeRanges pInitialMap)) :
    ∃ c, Created base sizeData (pBuffer + sizeData.treeEntriesOffset)
        (treeRanges pInitialMap) c ∧
      Returns (createTreesForMemoryRanges pInitialMap pBuffer sizeData base) c := by
  refine createTreesForMemoryRanges_of_invariant pInitialMap pBuffer sizeData base
    (Created base sizeData (pBuffer + sizeData.treeEntriesOffset))
    ⟨rfl, rfl, rfl, rfl, rfl, rfl, EntriesCreated.nil base _, LevelsCreated.nil base⟩ ?_
  intro done r todo c hall hr hc
  rw [hall] at hroom
  exact createTreeForMemoryRange_created hc hr hroom.of_append

/-- So the creation succeeds. -/
theorem createPhysicalMemTree_returns
    {pInitialMap : List InitialMemMapEntry} {pBuffer : UInt64} {base : TreeMemory}
    {c : PhysMemTreeCreateData}
    (hc : Created base sizeData (pBuffer + sizeData.treeEntriesOffset)
      (treeRanges pInitialMap) c)
    (hrun : Returns (createTreesForMemoryRanges pInitialMap pBuffer sizeData base) c) :
    Returns (createPhysicalMemTree pInitialMap pBuffer sizeData base)
      (true,
        { pFirstEntry := entryPointer (pBuffer + sizeData.treeEntriesOffset) 0 },
        c.memory) := by
  have hdone := hrun.map (fun c : PhysMemTreeCreateData =>
    (c.success, ({ pFirstEntry := entryPointer c.pEntries 0 } : PhysicalMemTree),
      c.memory))
  rw [hc.success, hc.pEntries_eq] at hdone
  exact hdone

end Ranges

end Kernel
end DexprOS
