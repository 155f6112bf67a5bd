import DexprOS.Kernel.Memory.PhysicalMemStructsSize
import DexprOS.Kernel.Memory.PhysicalMemTreeRoom

/-!
# Creating a tree with any size data

What the creation of a tree writes when the size data do not fit the map.  A shortage of
entries or of block bytes is noticed before anything is written there.  A shortage of levels
is noticed too, but the levels are filled all the same; and the entry behind the last one is
linked to its successor before the number of entries is checked.

Main facts:
* `createTreeLevelBlocks_loop_bounded`: blocks are only taken while there are some;
* `createTreeForMemoryRange_attempted`: what a range does, whether it fits or not;
* `createPhysicalMemTree_attempted`: what the creation leaves, and what it returns;
* `createPhysicalMemTree_inside_iff`: when it keeps inside of what the size data describe.
-/

namespace DexprOS
namespace Kernel

open Fuel

section BlockBytes

/-- The states differ at most in the blocks of levels, and in how many block bytes are
taken. -/
structure SameHeaders (c c' : PhysMemTreeCreateData) : Prop where
  sizeData : c'.sizeData = c.sizeData
  pEntries : c'.pEntries = c.pEntries
  entryIndex : c'.treeEntryIndex = c.treeEntryIndex
  levelIndex : c'.treeLevelStructIndex = c.treeLevelStructIndex
  success : c'.success = c.success
  entries : c'.memory.entries = c.memory.entries
  start : ∀ j, (c'.memory.levels j).startMappedAddress = (c.memory.levels j).startMappedAddress
  blockSize : ∀ j, (c'.memory.levels j).blockSize = (c.memory.levels j).blockSize
  numBlocks : ∀ j, (c'.memory.levels j).numBlocks = (c.memory.levels j).numBlocks

/-- Besides that they differ at most in the levels before `n`, and in block bytes that the
size data describe. -/
structure KeepsRest (n : Nat) (c c' : PhysMemTreeCreateData) : Prop
    extends SameHeaders c c' where
  levelFrame : ∀ j, n ≤ j → c'.memory.levels j = c.memory.levels j
  blockFrame : ∀ i, c.sizeData.totalBlocksSize.toNat ≤ i → c'.memory.blocks i = c.memory.blocks i

variable {n : Nat} {c c' c'' : PhysMemTreeCreateData} {l : LevelCursor}

theorem SameHeaders.refl (c : PhysMemTreeCreateData) : SameHeaders c c :=
  ⟨rfl, rfl, rfl, rfl, rfl, rfl, fun _ => rfl, fun _ => rfl, fun _ => rfl⟩

theorem SameHeaders.trans (h : SameHeaders c c') (h' : SameHeaders c' c'') :
    SameHeaders c c'' where
  sizeData := h'.sizeData.trans h.sizeData
  pEntries := h'.pEntries.trans h.pEntries
  entryIndex := h'.entryIndex.trans h.entryIndex
  levelIndex := h'.levelIndex.trans h.levelIndex
  success := h'.success.trans h.success
  entries := h'.entries.trans h.entries
  start := fun j => (h'.start j).trans (h.start j)
  blockSize := fun j => (h'.blockSize j).trans (h.blockSize j)
  numBlocks := fun j => (h'.numBlocks j).trans (h.numBlocks j)

theorem KeepsRest.refl (n : Nat) (c : PhysMemTreeCreateData) : KeepsRest n c c :=
  ⟨SameHeaders.refl c, fun _ _ => rfl, fun _ _ => rfl⟩

theorem KeepsRest.trans
    {n' : Nat} (h : KeepsRest n c c') (h' : KeepsRest n' c' c'') (hn : n ≤ n') :
    KeepsRest n' c c'' where
  toSameHeaders := h.toSameHeaders.trans h'.toSameHeaders
  levelFrame := fun j hj => (h'.levelFrame j hj).trans (h.levelFrame j (hn.trans hj))
  blockFrame := fun i hi =>
    (h'.blockFrame i (by rw [h.sizeData]; exact hi)).trans (h.blockFrame i hi)

/-- Setting where the blocks of a level are keeps the headers. -/
theorem sameHeaders_setLevel (c : PhysMemTreeCreateData) (iLevel pBlocks : Nat) :
    SameHeaders c { c with
      memory := c.memory.setLevel iLevel { c.memory.levels iLevel with pBlocks := pBlocks } } := by
  have hfield : ∀ {β : Type} (f : PhysicalMemTreeLevel → β),
      f { c.memory.levels iLevel with pBlocks := pBlocks } = f (c.memory.levels iLevel) →
      ∀ j, f ((c.memory.setLevel iLevel
        { c.memory.levels iLevel with pBlocks := pBlocks }).levels j) =
          f (c.memory.levels j) := by
    intro β f hf j
    rw [TreeMemory.setLevel]
    by_cases hj : j = iLevel
    · simp only [hj, Function.update_self, hf]
    · simp only [Function.update_of_ne hj]
  exact ⟨rfl, rfl, rfl, rfl, rfl, rfl, hfield _ rfl, hfield _ rfl, hfield _ rfl⟩

theorem sameHeaders_memset
    (c : PhysMemTreeCreateData) (p : BlockPtr) (first count : Nat) (value : UInt8) :
    SameHeaders c { c with memory := c.memory.memset p first value count } :=
  have hshape := sameShape_memset c.memory p first value count
  ⟨rfl, rfl, rfl, rfl, rfl, hshape.entries, hshape.startMappedAddress, hshape.blockSize,
    hshape.numBlocks⟩

theorem createTreeLevelBlocks_sameHeaders (c : PhysMemTreeCreateData) (iLevel : Nat) :
    SameHeaders c (createTreeLevelBlocks c iLevel).2 := by
  have hset := sameHeaders_setLevel c iLevel c.blockIndex.toNat
  unfold createTreeLevelBlocks
  dsimp only
  split_ifs
  · exact ⟨rfl, rfl, rfl, rfl, rfl, hset.entries, hset.start, hset.blockSize, hset.numBlocks⟩
  · have hmemset := sameHeaders_memset
      { c with
        memory := c.memory.setLevel iLevel
          { c.memory.levels iLevel with pBlocks := c.blockIndex.toNat }
        blockIndex := c.blockIndex + (c.memory.levels iLevel).numBlocks }
      (.outOfLine c.blockIndex.toNat) 0 (c.memory.levels iLevel).numBlocks.toNat 0
    exact ⟨rfl, rfl, rfl, rfl, rfl, hmemset.entries.trans hset.entries,
      fun j => (hmemset.start j).trans (hset.start j),
      fun j => (hmemset.blockSize j).trans (hset.blockSize j),
      fun j => (hmemset.numBlocks j).trans (hset.numBlocks j)⟩
  · exact sameHeaders_memset c _ _ _ _

/-- So does the loop over the levels. -/
theorem createTreeLevelBlocks_loop_sameHeaders
    (first : Nat) (l : List Nat) (s : Bool × PhysMemTreeCreateData) :
    SameHeaders s.2 (l.foldl
      (fun s i => if s.1 then createTreeLevelBlocks s.2 (first + i) else s) s).2 := by
  induction l generalizing s with
  | nil =>
      exact SameHeaders.refl s.2
  | cons i l ih =>
      rw [List.foldl_cons]
      refine SameHeaders.trans ?_ (ih _)
      split_ifs
      · exact createTreeLevelBlocks_sameHeaders s.2 (first + i)
      · exact SameHeaders.refl s.2

/-- Of `need` bytes that were asked for, all are taken; or more than there are. -/
def BytesTaken (limit need taken : Nat) : Prop :=
  (taken = need ∧ need ≤ limit) ∨ (limit < taken ∧ taken ≤ need)

theorem BytesTaken.le {limit need taken : Nat} (h : BytesTaken limit need taken) :
    taken ≤ need := by
  rcases h with ⟨rfl, -⟩ | ⟨-, hle⟩
  · exact Nat.le_refl _
  · exact hle

/-- A level takes its blocks if there are enough, and fails otherwise. -/
theorem createTreeLevelBlocks_bounded
    {need : Nat} (iLevel : Nat)
    (hnum : (c.memory.levels iLevel).numBlocks = l.numBlocks)
    (htaken : BytesTaken c.sizeData.totalBlocksSize.toNat need c.blockIndex.toNat)
    (hfit : need + outOfLine l < 2 ^ 64) :
    KeepsRest (iLevel + 1) c (createTreeLevelBlocks c iLevel).2 ∧
      BytesTaken c.sizeData.totalBlocksSize.toNat (need + outOfLine l)
        (createTreeLevelBlocks c iLevel).2.blockIndex.toNat ∧
      ((createTreeLevelBlocks c iLevel).1 = true → need ≤ c.sizeData.totalBlocksSize.toNat →
        need + outOfLine l ≤ c.sizeData.totalBlocksSize.toNat) ∧
      ((createTreeLevelBlocks c iLevel).1 = false →
        c.sizeData.totalBlocksSize.toNat <
          (createTreeLevelBlocks c iLevel).2.blockIndex.toNat) := by
  have hle := htaken.le
  have hheaders := createTreeLevelBlocks_sameHeaders c iLevel
  by_cases hout : sizeofInPlaceBlocks < l.numBlocks
  · have hcount : outOfLine l = l.numBlocks.toNat := if_pos hout
    have hnext : (c.blockIndex + l.numBlocks).toNat = c.blockIndex.toNat + outOfLine l := by
      rw [UInt64.toNat_add, hcount]
      exact Nat.mod_eq_of_lt (by omega)
    have hlimit : c.sizeData.totalBlocksSize < c.blockIndex + l.numBlocks ↔
        c.sizeData.totalBlocksSize.toNat < c.blockIndex.toNat + outOfLine l := by
      rw [UInt64.lt_iff_toNat_lt, hnext]
    revert hheaders
    unfold createTreeLevelBlocks
    dsimp only
    rw [hnum, if_pos hout]
    generalize hset : c.memory.setLevel iLevel _ = m₁
    have hframe₁ : ∀ j, iLevel + 1 ≤ j → m₁.levels j = c.memory.levels j := by
      intro j hj
      rw [← hset]
      exact Function.update_of_ne (by omega) _ _
    have hblocks₁ : m₁.blocks = c.memory.blocks := by
      rw [← hset]
      rfl
    by_cases hfull : c.sizeData.totalBlocksSize.toNat < c.blockIndex.toNat + outOfLine l
    · rw [if_pos (hlimit.mpr hfull)]
      intro hheaders
      refine ⟨⟨hheaders, hframe₁, fun i _ => congrFun hblocks₁ i⟩,
        .inr ⟨?_, ?_⟩, fun h => absurd h Bool.false_ne_true, fun _ => ?_⟩
      · rw [hnext]
        exact hfull
      · rw [hnext]
        omega
      · rw [hnext]
        exact hfull
    · rw [if_neg (mt hlimit.mp hfull)]
      intro hheaders
      obtain ⟨hlevels, hblocks⟩ :=
        memset_outOfLine m₁ c.blockIndex.toNat 0 l.numBlocks.toNat 0
      have hexact : c.blockIndex.toNat = need := by
        rcases htaken with ⟨heq, -⟩ | ⟨hover, -⟩
        · exact heq
        · omega
      refine ⟨⟨hheaders, ?_, ?_⟩, .inl ⟨?_, ?_⟩, fun _ _ => ?_,
        fun h => absurd h.symm Bool.false_ne_true⟩
      · intro j hj
        exact (congrFun hlevels j).trans (hframe₁ j hj)
      · intro i hi
        refine (hblocks i).trans ?_
        rw [if_neg (by omega), hblocks₁]
      · rw [hnext, hexact]
      · omega
      · omega
  · have hcount : outOfLine l = 0 := if_neg hout
    revert hheaders
    unfold createTreeLevelBlocks
    dsimp only
    rw [hnum, if_neg hout, hcount, Nat.add_zero]
    intro hheaders
    obtain ⟨hblocks, hlevels⟩ :=
      memset_inPlace c.memory iLevel 0 sizeofInPlaceBlocks.toNat 0
    exact ⟨⟨hheaders, fun j hj => hlevels j (by omega),
      fun i _ => congrFun hblocks i⟩, htaken, fun _ h => h,
      fun h => absurd h.symm Bool.false_ne_true⟩

/-- The loop over the levels of an entry takes blocks as long as there are enough. -/
theorem createTreeLevelBlocks_loop_bounded
    {need : Nat} (first : Nat) (new : List LevelCursor)
    (hnew : ∀ i l, new[i]? = some l → (c.memory.levels (first + i)).numBlocks = l.numBlocks)
    (htaken : BytesTaken c.sizeData.totalBlocksSize.toNat need c.blockIndex.toNat)
    (hfit : need + blockCount new < 2 ^ 64) :
    ∃ s, (List.range new.length).foldl
        (fun s i => if s.1 then createTreeLevelBlocks s.2 (first + i) else s) (true, c) = s ∧
      KeepsRest (first + new.length) c s.2 ∧
      BytesTaken c.sizeData.totalBlocksSize.toNat (need + blockCount new)
        s.2.blockIndex.toNat ∧
      (s.1 = true → need ≤ c.sizeData.totalBlocksSize.toNat →
        need + blockCount new ≤ c.sizeData.totalBlocksSize.toNat) ∧
      (s.1 = false → c.sizeData.totalBlocksSize.toNat < s.2.blockIndex.toNat) := by
  induction new using List.reverseRecOn with
  | nil =>
      exact ⟨_, rfl, KeepsRest.refl _ c, htaken, fun _ h => h,
        fun h => absurd h.symm Bool.false_ne_true⟩
  | append_singleton new l ih =>
      rw [blockCount_concat, ← Nat.add_assoc] at hfit
      rw [List.length_append, List.length_singleton, List.range_succ, List.foldl_append,
        blockCount_concat, ← Nat.add_assoc need]
      obtain ⟨⟨ok, d⟩, hrun, hkeeps, hbytes, hok, hover⟩ := ih (fun i l' hi => hnew i l' (by
        rw [List.getElem?_append_left (List.getElem?_eq_some_iff.mp hi).1]
        exact hi)) (by omega)
      rw [hrun, List.foldl_cons, List.foldl_nil]
      cases ok with
      | false =>
          -- An earlier level failed, the remaining ones are skipped.
          have hlimit := hover rfl
          have hle := hbytes.le
          rw [if_neg Bool.false_ne_true]
          exact ⟨_, rfl, hkeeps.trans (KeepsRest.refl _ d) (by omega),
            .inr ⟨hlimit, by omega⟩, fun h => absurd h Bool.false_ne_true, hover⟩
      | true =>
          have hnum := hnew new.length l (by simp)
          rw [← hkeeps.numBlocks] at hnum
          rw [← hkeeps.sizeData] at hbytes hok ⊢
          obtain ⟨hkeeps', hbytes', hok', hover'⟩ :=
            createTreeLevelBlocks_bounded (first + new.length) hnum hbytes hfit
          rw [if_pos rfl]
          exact ⟨_, rfl, hkeeps.trans hkeeps' (by omega), hbytes',
            fun h hneed => hok' h (hok rfl hneed), hover'⟩

end BlockBytes

section Attempt

variable {base : TreeMemory} {sizeData : PhysMemTreeSizeData} {pEntries : UInt64}
  {done : List PhysRange} {c : PhysMemTreeCreateData} {r : PhysRange} {need : Nat}

/-- The headers of an entry's levels are filled whatever there is room for, and then the
loop over the levels gives them blocks. -/
theorem fillTreeLevelStructs_eq
    (iEntry : Nat)
    (hstart : (c.memory.entries iEntry).startAddress = r.physicalAddress)
    (hend : (c.memory.entries iEntry).endAddress = r.physicalAddress + r.rangeSize)
    (hnum : (c.memory.entries iEntry).numTreeLevels.toNat = treeTop r + 1) :
    ∃ m₁, fillTreeLevelStructs c iEntry =
        (List.range (treeLevels r).length).foldl
          (fun s i => if s.1 then
            createTreeLevelBlocks s.2 ((c.memory.entries iEntry).pTreeLevels + i) else s)
          (true, { c with memory := m₁ }) ∧
      m₁.entries = c.memory.entries ∧ m₁.blocks = c.memory.blocks ∧
      (∀ j, j < (c.memory.entries iEntry).pTreeLevels ∨
          (c.memory.entries iEntry).pTreeLevels + (treeTop r + 1) ≤ j →
        m₁.levels j = c.memory.levels j) ∧
      ∀ i l, (treeLevels r)[i]? = some l →
        (m₁.levels ((c.memory.entries iEntry).pTreeLevels + i)).startMappedAddress =
          l.minMappedAddress ∧
        (m₁.levels ((c.memory.entries iEntry).pTreeLevels + i)).blockSize = l.blockSize ∧
        (m₁.levels ((c.memory.entries iEntry).pTreeLevels + i)).numBlocks = l.numBlocks := by
  obtain ⟨m₁, hrun, hentries, hblocks, hframe, hheaders⟩ :=
    fillLevelStructs_levels hstart hend hnum c.memory (treeTop r + 1) (Nat.le_refl _)
  refine ⟨m₁, ?_, hentries, hblocks, ?_, ?_⟩
  · unfold fillTreeLevelStructs
    dsimp only
    rw [hnum, hrun, length_treeLevels]
  · intro j hj
    exact hframe j (by omega)
  · intro i l hi
    have hlt : i < (treeLevels r).length := (List.getElem?_eq_some_iff.mp hi).1
    rw [length_treeLevels] at hlt
    rw [treeLevels_getElem? r (by omega)] at hi
    obtain rfl : treeLevel r (treeTop r - i) = l := Option.some.inj hi
    have hheader := hheaders (treeTop r - i) (by omega)
    rwa [show treeTop r - (treeTop r - i) = i by omega] at hheader

/-- The filling as a whole: apart from the headers it only gives blocks to the levels, and it
succeeds if there are enough of them. -/
theorem fillTreeLevelStructs_attempted
    (iEntry : Nat)
    (hstart : (c.memory.entries iEntry).startAddress = r.physicalAddress)
    (hend : (c.memory.entries iEntry).endAddress = r.physicalAddress + r.rangeSize)
    (hnum : (c.memory.entries iEntry).numTreeLevels.toNat = treeTop r + 1) :
    ∃ m₁, SameHeaders { c with memory := m₁ } (fillTreeLevelStructs c iEntry).2 ∧
      m₁.entries = c.memory.entries ∧ m₁.blocks = c.memory.blocks ∧
      (∀ j, j < (c.memory.entries iEntry).pTreeLevels ∨
          (c.memory.entries iEntry).pTreeLevels + (treeTop r + 1) ≤ j →
        m₁.levels j = c.memory.levels j) ∧
      (∀ i l, (treeLevels r)[i]? = some l →
        (m₁.levels ((c.memory.entries iEntry).pTreeLevels + i)).startMappedAddress =
          l.minMappedAddress ∧
        (m₁.levels ((c.memory.entries iEntry).pTreeLevels + i)).blockSize = l.blockSize ∧
        (m₁.levels ((c.memory.entries iEntry).pTreeLevels + i)).numBlocks = l.numBlocks) ∧
      ∀ need, BytesTaken c.sizeData.totalBlocksSize.toNat need c.blockIndex.toNat →
        need + blockCount (treeLevels r) < 2 ^ 64 →
        KeepsRest ((c.memory.entries iEntry).pTreeLevels + (treeTop r + 1))
            { c with memory := m₁ } (fillTreeLevelStructs c iEntry).2 ∧
          BytesTaken c.sizeData.totalBlocksSize.toNat (need + blockCount (treeLevels r))
            (fillTreeLevelStructs c iEntry).2.blockIndex.toNat ∧
          (need ≤ c.sizeData.totalBlocksSize.toNat →
            ((fillTreeLevelStructs c iEntry).1 = true ↔
              need + blockCount (treeLevels r) ≤ c.sizeData.totalBlocksSize.toNat)) := by
  obtain ⟨m₁, hfill, hentries, hblocks, hframe, hheaders⟩ :=
    fillTreeLevelStructs_eq iEntry hstart hend hnum
  have hsame := createTreeLevelBlocks_loop_sameHeaders (c.memory.entries iEntry).pTreeLevels
    (List.range (treeLevels r).length) (true, { c with memory := m₁ })
  rw [← hfill] at hsame
  refine ⟨m₁, hsame, hentries, hblocks, hframe, hheaders, fun need htaken hfit => ?_⟩
  obtain ⟨s, hs, hkeeps, hbytes, hok, hover⟩ :=
    createTreeLevelBlocks_loop_bounded (c := { c with memory := m₁ })
      (c.memory.entries iEntry).pTreeLevels (treeLevels r)
      (fun i l hi => (hheaders i l hi).2.2) htaken hfit
  rw [hfill, hs]
  rw [length_treeLevels] at hkeeps
  refine ⟨hkeeps, hbytes, fun hneed => ⟨fun h => hok h hneed, fun hle => ?_⟩⟩
  by_contra hfailed
  have hlimit := hover (Bool.eq_false_iff.mpr hfailed)
  have htook := hbytes.le
  dsimp only at hlimit
  omega

/-- The state of the creation after the given tree ranges, of which only as many get an
entry as there are entries. -/
structure Attempted (base : TreeMemory) (sizeData : PhysMemTreeSizeData) (pEntries : UInt64)
    (done : List PhysRange) (c : PhysMemTreeCreateData) : Prop where
  sizeData_eq : c.sizeData = sizeData
  pEntries_eq : c.pEntries = pEntries
  entryIndex : c.treeEntryIndex.toNat = done.length
  levelIndex : c.treeLevelStructIndex.toNat =
    (levelList (done.take sizeData.numTreeEntries.toNat)).length
  bytes : BytesTaken sizeData.totalBlocksSize.toNat
    (blockCount (levelList (done.take sizeData.numTreeEntries.toNat))) c.blockIndex.toNat
  success : c.success = true ↔ HasRoom sizeData done
  link : ∀ k, sizeData.numTreeEntries.toNat ≤ k →
    c.memory.entries k =
      if k + 1 < done.length then
        { base.entries k with pNextEntry := entryPointer pEntries (k + 1) }
      else base.entries k
  blockSize : ∀ j l, (levelList (done.take sizeData.numTreeEntries.toNat))[j]? = some l →
    (c.memory.levels j).blockSize = l.blockSize
  levelFrame : ∀ j, (levelList (done.take sizeData.numTreeEntries.toNat)).length ≤ j →
    c.memory.levels j = base.levels j
  blockFrame : ∀ i, sizeData.totalBlocksSize.toNat ≤ i → c.memory.blocks i = base.blocks i

/-- Linking writes to the entry before the next one only. -/
theorem linkTreeEntry_entries (c : PhysMemTreeCreateData) (k : Nat) :
    (linkTreeEntry c).memory.entries k =
      if k + 1 = c.treeEntryIndex.toNat then
        { c.memory.entries k with pNextEntry := entryPointer c.pEntries (k + 1) }
      else c.memory.entries k := by
  have hpos : 0 < c.treeEntryIndex ↔ 0 < c.treeEntryIndex.toNat := UInt64.lt_iff_toNat_lt
  unfold linkTreeEntry
  dsimp only
  by_cases hlinked : 0 < c.treeEntryIndex.toNat
  · rw [if_pos (hpos.mpr hlinked)]
    by_cases hlast : k + 1 = c.treeEntryIndex.toNat
    · obtain rfl : k = c.treeEntryIndex.toNat - 1 := by omega
      rw [if_pos hlast, hlast]
      exact Function.update_self _ _ _
    · rw [if_neg hlast]
      exact Function.update_of_ne (by omega) _ _
  · rw [if_neg (mt hpos.mp hlinked), if_neg (by omega)]

/-- A range for which there is no entry left only links the entry before. -/
theorem createTreeForMemoryRange_refused
    (h : Attempted base sizeData pEntries done c)
    (hr : shouldCreateTreeForType r.memType = true)
    (hlen : (done ++ [r]).length < 2 ^ 64)
    (hfull : sizeData.numTreeEntries.toNat ≤ done.length) :
    ∃ c', Returns (createTreeForMemoryRange r c) c' ∧
      Attempted base sizeData pEntries (done ++ [r]) c' := by
  rw [List.length_append, List.length_singleton] at hlen
  have hnext : (c.treeEntryIndex + 1).toNat = done.length + 1 := by
    rw [UInt64.toNat_add, h.entryIndex, show (1 : UInt64).toNat = 1 from rfl]
    exact Nat.mod_eq_of_lt hlen
  have htake : (done ++ [r]).take sizeData.numTreeEntries.toNat =
      done.take sizeData.numTreeEntries.toNat := List.take_append_of_le_length hfull
  obtain ⟨hlevels, hblocks⟩ := linkTreeEntry_memory c
  refine ⟨(linkTreeEntry c).fail, ⟨0, fun fuel _ => ?_⟩, ?_⟩
  · unfold createTreeForMemoryRange
    dsimp only
    rw [if_neg (by simp [hr])]
    refine if_pos ?_
    rw [UInt64.lt_iff_toNat_lt]
    show c.sizeData.numTreeEntries.toNat < (c.treeEntryIndex + 1).toNat
    rw [hnext, h.sizeData_eq]
    omega
  · constructor
    · exact h.sizeData_eq
    · exact h.pEntries_eq
    · rw [List.length_append, List.length_singleton]
      exact hnext
    · rw [htake]
      exact h.levelIndex
    · rw [htake]
      exact h.bytes
    · have hno : ¬ HasRoom sizeData (done ++ [r]) := fun hroom => by
        have hle := hroom.entries
        rw [List.length_append, List.length_singleton] at hle
        omega
      exact ⟨fun hs => absurd hs Bool.false_ne_true, fun hroom => absurd hroom hno⟩
    · intro k hk
      rw [List.length_append, List.length_singleton]
      refine (linkTreeEntry_entries c k).trans ?_
      rw [h.entryIndex, h.link k hk, h.pEntries_eq]
      by_cases hlast : k + 1 = done.length
      · rw [if_pos hlast, if_neg (by omega), if_pos (by omega)]
      · rw [if_neg hlast]
        refine if_congr ?_ rfl rfl
        omega
    · rw [htake]
      intro j l hj
      exact (congrArg (fun levels => (levels j).blockSize) hlevels).trans (h.blockSize j l hj)
    · rw [htake]
      intro j hj
      exact (congrFun hlevels j).trans (h.levelFrame j hj)
    · intro i hi
      exact (congrFun hblocks i).trans (h.blockFrame i hi)

/-- The new entry of the counted state, and the other ones. -/
theorem countedState_entries_apply (r : PhysRange) (c : PhysMemTreeCreateData) (k : Nat) :
    (countedState r c).memory.entries k =
      if k = c.treeEntryIndex.toNat then
        { type := r.memType
          flags := r.memFlags
          startAddress := r.physicalAddress
          endAddress := r.physicalAddress + r.rangeSize
          numPages := r.rangeSize / physicalPageSize
          pTreeLevels := c.treeLevelStructIndex.toNat
          numTreeLevels := UInt64.ofNat (treeTop r + 1)
          pNextEntry := none }
      else (linkTreeEntry c).memory.entries k := by
  have hback : (c.treeEntryIndex + 1 - 1).toNat = c.treeEntryIndex.toNat := by
    rw [UInt64.add_sub_cancel]
  have hindex : (linkTreeEntry c).treeEntryIndex = c.treeEntryIndex + 1 := rfl
  have hlevel : (linkTreeEntry c).treeLevelStructIndex = c.treeLevelStructIndex := rfl
  simp only [countedState, assignTreeEntry, TreeMemory.setEntry, hindex, hback, hlevel,
    Function.update_self]
  by_cases hk : k = c.treeEntryIndex.toNat
  · rw [if_pos hk, hk, Function.update_self]
  · rw [if_neg hk, Function.update_of_ne hk, Function.update_of_ne hk]

theorem treeTop_succ_toNat (r : PhysRange) :
    (UInt64.ofNat (treeTop r + 1)).toNat = treeTop r + 1 := by
  have htop : treeTop r ≤ 51 := topHeight_le _ _
  exact UInt64.toNat_ofNat_of_lt' (Nat.lt_of_le_of_lt (Nat.succ_le_succ htop) (by decide))

/-- What a built entry needs of the block bytes: they are taken as far as there are any, and
the result is recorded. -/
structure BuiltWithin (need : Nat) (r : PhysRange) (c c' : PhysMemTreeCreateData) : Prop where
  levelFrame : ∀ j, c.treeLevelStructIndex.toNat + (treeTop r + 1) ≤ j →
    c'.memory.levels j = c.memory.levels j
  blockFrame : ∀ i, c.sizeData.totalBlocksSize.toNat ≤ i →
    c'.memory.blocks i = c.memory.blocks i
  bytes : BytesTaken c.sizeData.totalBlocksSize.toNat (need + blockCount (treeLevels r))
    c'.blockIndex.toNat
  success : c'.success = true ↔
    need + blockCount (treeLevels r) ≤ c.sizeData.totalBlocksSize.toNat ∧
      c.treeLevelStructIndex + UInt64.ofNat (treeTop r + 1) ≤
        c.sizeData.numTreeLevelStructs ∧ c.success = true

/-- A range for which there is an entry left gets its entry and the headers of its levels,
whether there is room for the levels or not. -/
theorem createTreeForMemoryRange_built
    (hr : shouldCreateTreeForType r.memType = true) (c : PhysMemTreeCreateData)
    (hfits : c.treeEntryIndex + 1 ≤ c.sizeData.numTreeEntries) :
    ∃ c', Returns (createTreeForMemoryRange r c) c' ∧
      c'.sizeData = c.sizeData ∧ c'.pEntries = c.pEntries ∧
      c'.treeEntryIndex = c.treeEntryIndex + 1 ∧
      c'.treeLevelStructIndex = c.treeLevelStructIndex + UInt64.ofNat (treeTop r + 1) ∧
      c'.memory.entries = (countedState r c).memory.entries ∧
      (∀ i l, (treeLevels r)[i]? = some l →
        (c'.memory.levels (c.treeLevelStructIndex.toNat + i)).startMappedAddress =
          l.minMappedAddress ∧
        (c'.memory.levels (c.treeLevelStructIndex.toNat + i)).blockSize = l.blockSize ∧
        (c'.memory.levels (c.treeLevelStructIndex.toNat + i)).numBlocks = l.numBlocks) ∧
      (∀ j, j < c.treeLevelStructIndex.toNat →
        (c'.memory.levels j).blockSize = (c.memory.levels j).blockSize) ∧
      ∀ need, BytesTaken c.sizeData.totalBlocksSize.toNat need c.blockIndex.toNat →
        (c.success = true → need ≤ c.sizeData.totalBlocksSize.toNat) →
        need + blockCount (treeLevels r) < 2 ^ 64 → BuiltWithin need r c c' := by
  have hrun := createTreeForMemoryRange_returns hr c hfits
  rw [check_eq, check_eq] at hrun
  dsimp only at hrun
  generalize hd : { countedState r c with
    success := decide (c.treeLevelStructIndex + UInt64.ofNat (treeTop r + 1) ≤
      c.sizeData.numTreeLevelStructs) && (countedState r c).success } = d at hrun
  have hsize : d.sizeData = c.sizeData := by rw [← hd]; rfl
  have hblockIndex : d.blockIndex = c.blockIndex := by rw [← hd]; rfl
  have hlevels : d.memory.levels = c.memory.levels := by
    rw [← hd]
    exact (linkTreeEntry_memory c).1
  have hblocks : d.memory.blocks = c.memory.blocks := by
    rw [← hd]
    exact (linkTreeEntry_memory c).2
  have hentries : d.memory.entries = (countedState r c).memory.entries := by rw [← hd]
  have hentry := countedState_entries_apply r c c.treeEntryIndex.toNat
  rw [if_pos rfl, ← hentries] at hentry
  obtain ⟨m₁, hsame, hentries₁, hblocks₁, hframe₁, hheaders₁, hwithin⟩ :=
    fillTreeLevelStructs_attempted (r := r) (c := d) c.treeEntryIndex.toNat
      (by rw [hentry]) (by rw [hentry]) (by rw [hentry]; exact treeTop_succ_toNat r)
  rw [hentry] at hframe₁ hheaders₁ hwithin
  dsimp only at hframe₁ hheaders₁ hwithin
  rw [hsize, hblockIndex] at hwithin
  refine ⟨_, hrun, hsame.sizeData.trans hsize, hsame.pEntries.trans ?_,
    hsame.entryIndex.trans ?_, hsame.levelIndex.trans ?_, ?_, ?_, ?_, ?_⟩
  · rw [← hd]
    rfl
  · rw [← hd]
    rfl
  · rw [← hd]
    rfl
  · exact hsame.entries.trans (hentries₁.trans hentries)
  · intro i l hi
    dsimp only
    rw [hsame.start, hsame.blockSize, hsame.numBlocks]
    exact hheaders₁ i l hi
  · intro j hj
    dsimp only
    rw [hsame.blockSize]
    exact congrArg PhysicalMemTreeLevel.blockSize
      ((hframe₁ j (.inl hj)).trans (congrFun hlevels j))
  · intro need htaken hbefore hfit
    obtain ⟨hkeeps, hbytes, hfilled⟩ := hwithin need htaken hfit
    constructor
    · intro j hj
      exact (hkeeps.levelFrame j hj).trans
        ((hframe₁ j (.inr hj)).trans (congrFun hlevels j))
    · intro i hi
      exact (hkeeps.blockFrame i hi).trans
        ((congrFun hblocks₁ i).trans (congrFun hblocks i))
    · exact hbytes
    · have hsuccess : d.success = (decide (c.treeLevelStructIndex +
          UInt64.ofNat (treeTop r + 1) ≤ c.sizeData.numTreeLevelStructs) && c.success) := by
        rw [← hd]
        rfl
      dsimp only
      rw [hsame.success, hsuccess, Bool.and_eq_true, Bool.and_eq_true, decide_eq_true_iff]
      constructor
      · rintro ⟨hs, hlevel, hc⟩
        exact ⟨(hfilled (hbefore hc)).mp hs, hlevel, hc⟩
      · rintro ⟨hle, hlevel, hc⟩
        exact ⟨(hfilled (by omega)).mpr hle, hlevel, hc⟩

/-- One range more, whether there is room for it or not. -/
theorem createTreeForMemoryRange_attempted
    (h : Attempted base sizeData pEntries done c)
    (hr : shouldCreateTreeForType r.memType = true)
    (hfit : treeSize (done ++ [r]) < 2 ^ 64) :
    ∃ c', Returns (createTreeForMemoryRange r c) c' ∧
      Attempted base sizeData pEntries (done ++ [r]) c' := by
  rw [treeSize, List.length_append, List.length_singleton, levelList_concat,
    List.length_append, length_treeLevels, blockCount_append] at hfit
  by_cases hfull : sizeData.numTreeEntries.toNat ≤ done.length
  · exact createTreeForMemoryRange_refused h hr
      (by rw [List.length_append, List.length_singleton]; omega) hfull
  · have hsizeData := h.sizeData_eq
    have htake : done.take sizeData.numTreeEntries.toNat = done :=
      List.take_of_length_le (by omega)
    have htake' : (done ++ [r]).take sizeData.numTreeEntries.toNat = done ++ [r] :=
      List.take_of_length_le (by rw [List.length_append, List.length_singleton]; omega)
    have hlevelIndex := h.levelIndex
    have hbytes := h.bytes
    rw [htake] at hlevelIndex hbytes
    have hnext : (c.treeEntryIndex + 1).toNat = done.length + 1 := by
      rw [UInt64.toNat_add, h.entryIndex, show (1 : UInt64).toNat = 1 from rfl]
      exact Nat.mod_eq_of_lt (by omega)
    have hnextLevel : (c.treeLevelStructIndex + UInt64.ofNat (treeTop r + 1)).toNat =
        (levelList done).length + (treeTop r + 1) := by
      rw [UInt64.toNat_add, hlevelIndex, treeTop_succ_toNat]
      exact Nat.mod_eq_of_lt (by omega)
    have hfits : c.treeEntryIndex + 1 ≤ c.sizeData.numTreeEntries := by
      rw [UInt64.le_iff_toNat_le, hnext, hsizeData]
      omega
    obtain ⟨c', hrun, hsize', hpEntries', hentryIndex', hlevelIndex', hentries', hheaders',
      hsizes', hwithin⟩ := createTreeForMemoryRange_built hr c hfits
    obtain ⟨hframe', hblocks', hbytes', hsuccess'⟩ := hwithin (blockCount (levelList done))
      (by rw [hsizeData]; exact hbytes)
      (fun hs => by rw [hsizeData]; exact (h.success.mp hs).blocks)
      (by omega)
    rw [hsizeData] at hbytes' hsuccess' hblocks'
    rw [hlevelIndex] at hheaders' hsizes' hframe'
    refine ⟨c', hrun, ?_⟩
    constructor
    · exact hsize'.trans hsizeData
    · exact hpEntries'.trans h.pEntries_eq
    · rw [hentryIndex', hnext, List.length_append, List.length_singleton]
    · rw [hlevelIndex', hnextLevel, htake', levelList_concat, List.length_append,
        length_treeLevels]
    · rw [htake', levelList_concat, blockCount_append]
      exact hbytes'
    · rw [hsuccess', UInt64.le_iff_toNat_le, hnextLevel, h.success]
      constructor
      · rintro ⟨hblocks, hlevels, -⟩
        exact hasRoom_concat_iff.mpr ⟨by omega, hlevels, hblocks⟩
      · intro hroom
        obtain ⟨-, hlevels, hblocks⟩ := hasRoom_concat_iff.mp hroom
        exact ⟨hblocks, hlevels, hroom.of_append⟩
    · intro k hk
      rw [hentries', countedState_entries_apply, h.entryIndex, if_neg (by omega),
        linkTreeEntry_entries, h.entryIndex, if_neg (by omega), h.link k hk,
        List.length_append, List.length_singleton, if_neg (by omega), if_neg (by omega)]
    · rw [htake', levelList_concat]
      intro j l hj
      by_cases hlt : j < (levelList done).length
      · rw [List.getElem?_append_left hlt] at hj
        rw [hsizes' j hlt]
        exact h.blockSize j l (by rw [htake]; exact hj)
      · rw [List.getElem?_append_right (Nat.le_of_not_lt hlt)] at hj
        have hheader := (hheaders' _ l hj).2.1
        rwa [Nat.add_sub_cancel' (Nat.le_of_not_lt hlt)] at hheader
    · rw [htake', levelList_concat, List.length_append, length_treeLevels]
      intro j hj
      rw [hframe' j hj]
      exact h.levelFrame j (by rw [htake]; omega)
    · intro i hi
      rw [hblocks' i hi]
      exact h.blockFrame i hi

end Attempt

section Inside

variable {pInitialMap : List InitialMemMapEntry} {sizeData : PhysMemTreeSizeData}

theorem treeSize_le_append (ranges ranges' : List PhysRange) :
    treeSize ranges ≤ treeSize (ranges ++ ranges') := by
  rw [treeSize, treeSize, levelList_append, List.length_append, List.length_append,
    blockCount_append]
  omega

/-- Nothing was attempted at the start. -/
theorem attempted_nil
    (base : TreeMemory) (sizeData : PhysMemTreeSizeData) (pEntries : UInt64) :
    Attempted base sizeData pEntries []
      { sizeData := sizeData
        pEntries := pEntries
        memory := base
        treeEntryIndex := 0
        treeLevelStructIndex := 0
        blockIndex := 0
        success := true } := by
  have hroom : HasRoom sizeData [] := ⟨Nat.zero_le _, Nat.zero_le _, Nat.zero_le _⟩
  have hnil : ([] : List PhysRange).take sizeData.numTreeEntries.toNat = [] :=
    List.take_nil
  constructor
  · rfl
  · rfl
  · rfl
  · rw [hnil]
    rfl
  · rw [hnil]
    exact .inl ⟨rfl, Nat.zero_le _⟩
  · exact ⟨fun _ => hroom, fun _ => rfl⟩
  · intro k _
    exact (if_neg (Nat.not_lt_zero _)).symm
  · rw [hnil]
    intro j l hj
    cases hj
  · exact fun _ _ => rfl
  · exact fun _ _ => rfl

/-- The iteration works on every tree range, whether there is room for it or not. -/
theorem createTreesForMemoryRanges_attempted
    (hfit : treeSize (treeRanges pInitialMap) < 2 ^ 64) (sizeData : PhysMemTreeSizeData)
    (pBuffer : UInt64) (base : TreeMemory) :
    ∃ c, Returns (createTreesForMemoryRanges pInitialMap pBuffer sizeData base) c ∧
      Attempted base sizeData (pBuffer + sizeData.treeEntriesOffset)
        (treeRanges pInitialMap) c := by
  obtain ⟨c, hc, hrun⟩ := createTreesForMemoryRanges_of_invariant pInitialMap pBuffer
    sizeData base (Attempted base sizeData (pBuffer + sizeData.treeEntriesOffset))
    (attempted_nil base sizeData _)
    (fun done r todo c hall hr hc => by
      rw [hall] at hfit
      exact createTreeForMemoryRange_attempted hc hr
        ((treeSize_le_append _ _).trans_lt hfit))
  exact ⟨c, hrun, hc⟩

/-- So the creation returns, and says whether there was room for everything. -/
theorem createPhysicalMemTree_attempted
    (hfit : treeSize (treeRanges pInitialMap) < 2 ^ 64) (sizeData : PhysMemTreeSizeData)
    (pBuffer : UInt64) (base : TreeMemory) :
    ∃ c, Returns (createPhysicalMemTree pInitialMap pBuffer sizeData base)
        (c.success, { pFirstEntry := entryPointer c.pEntries 0 }, c.memory) ∧
      Attempted base sizeData (pBuffer + sizeData.treeEntriesOffset)
        (treeRanges pInitialMap) c := by
  obtain ⟨c, hrun, hc⟩ :=
    createTreesForMemoryRanges_attempted hfit sizeData pBuffer base
  exact ⟨c, hrun.map _, hc⟩

/-- Only entries, levels and block bytes that the size data describe were written. -/
structure WrittenInside (sizeData : PhysMemTreeSizeData) (base m : TreeMemory) : Prop where
  entries : ∀ k, sizeData.numTreeEntries.toNat ≤ k → m.entries k = base.entries k
  levels : ∀ j, sizeData.numTreeLevelStructs.toNat ≤ j → m.levels j = base.levels j
  blocks : ∀ i, sizeData.totalBlocksSize.toNat ≤ i → m.blocks i = base.blocks i

/-- In every buffer and over whatever it held, the creation writes inside what the size data
describe, and it says whether everything did fit. -/
def CreatesInside (pInitialMap : List InitialMemMapEntry) (sizeData : PhysMemTreeSizeData) :
    Prop :=
  ∀ pBuffer base, ∃ created tree m,
    Returns (createPhysicalMemTree pInitialMap pBuffer sizeData base) (created, tree, m) ∧
      WrittenInside sizeData base m ∧
      (created = true ↔ HasRoom sizeData (treeRanges pInitialMap))

/-- There is an entry for all ranges but one, and there are the levels of all entries. -/
def KeepsInside (sizeData : PhysMemTreeSizeData) (ranges : List PhysRange) : Prop :=
  ranges.length ≤ sizeData.numTreeEntries.toNat + 1 ∧
    (levelList (ranges.take sizeData.numTreeEntries.toNat)).length ≤
      sizeData.numTreeLevelStructs.toNat

instance (sizeData : PhysMemTreeSizeData) (ranges : List PhysRange) :
    Decidable (KeepsInside sizeData ranges) :=
  inferInstanceAs (Decidable (_ ∧ _))

theorem createsInside_of_keepsInside
    (hfit : treeSize (treeRanges pInitialMap) < 2 ^ 64)
    (hkeeps : KeepsInside sizeData (treeRanges pInitialMap)) :
    CreatesInside pInitialMap sizeData := by
  intro pBuffer base
  obtain ⟨c, hrun, hc⟩ := createPhysicalMemTree_attempted hfit sizeData pBuffer base
  obtain ⟨hentries, hlevels⟩ := hkeeps
  refine ⟨_, _, _, hrun, ⟨?_, ?_, hc.blockFrame⟩, hc.success⟩
  · intro k hk
    rw [hc.link k hk, if_neg (by omega)]
  · intro j hj
    exact hc.levelFrame j (hlevels.trans hj)

/-- With two entries too few the first one behind the entries is written to. -/
theorem entries_of_createsInside
    (hfit : treeSize (treeRanges pInitialMap) < 2 ^ 64)
    (hinside : CreatesInside pInitialMap sizeData) :
    (treeRanges pInitialMap).length ≤ sizeData.numTreeEntries.toNat + 1 := by
  by_contra hfew
  -- A memory whose entries link to an entry that none is linked to by the creation.
  let base : TreeMemory :=
    { entries := fun _ => ⟨.usable, 0, 0, 0, 0, 0, 0, some 0⟩
      levels := fun _ => ⟨0, 0, 0, 0, fun _ => 0⟩
      blocks := fun _ => 0 }
  obtain ⟨c, hrun, hc⟩ := createPhysicalMemTree_attempted hfit sizeData 0 base
  obtain ⟨created, tree, m, hrun', hwritten, -⟩ := hinside 0 base
  obtain ⟨-, -, rfl⟩ := Prod.mk.inj (hrun.unique hrun') |>.imp id Prod.mk.inj
  have hlinked := hc.link sizeData.numTreeEntries.toNat (Nat.le_refl _)
  rw [if_pos (by omega), hwritten.entries _ (Nat.le_refl _)] at hlinked
  have hnext : some 0 = entryPointer (0 + sizeData.treeEntriesOffset)
      (sizeData.numTreeEntries.toNat + 1) := congrArg PhysicalMemTreeEntry.pNextEntry hlinked
  rw [entryPointer] at hnext
  split_ifs at hnext
  exact Nat.succ_ne_zero _ (Option.some.inj hnext).symm

/-- With a level too few the first one behind the levels is written to. -/
theorem levels_of_createsInside
    (hfit : treeSize (treeRanges pInitialMap) < 2 ^ 64)
    (hinside : CreatesInside pInitialMap sizeData) :
    (levelList ((treeRanges pInitialMap).take sizeData.numTreeEntries.toNat)).length ≤
      sizeData.numTreeLevelStructs.toNat := by
  by_contra hfew
  -- A memory whose levels have blocks of no bytes.
  let base : TreeMemory :=
    { entries := fun _ => ⟨.usable, 0, 0, 0, 0, 0, 0, none⟩
      levels := fun _ => ⟨0, 0, 0, 0, fun _ => 0⟩
      blocks := fun _ => 0 }
  obtain ⟨c, hrun, hc⟩ := createPhysicalMemTree_attempted hfit sizeData 0 base
  obtain ⟨created, tree, m, hrun', hwritten, -⟩ := hinside 0 base
  obtain ⟨-, -, rfl⟩ := Prod.mk.inj (hrun.unique hrun') |>.imp id Prod.mk.inj
  have hlt : sizeData.numTreeLevelStructs.toNat <
      (levelList ((treeRanges pInitialMap).take sizeData.numTreeEntries.toNat)).length := by
    omega
  have hsize := hc.blockSize _ _ (List.getElem?_eq_getElem hlt)
  rw [hwritten.levels _ (Nat.le_refl _)] at hsize
  obtain ⟨r, -, hl⟩ := List.mem_flatMap.mp (List.getElem_mem hlt)
  obtain ⟨h, hh, hlevel⟩ := List.mem_map.mp (List.mem_reverse.mp hl)
  have htop : treeTop r ≤ 51 := topHeight_le _ _
  have hpow : (treeLevel r h).blockSize.toNat = 2 ^ (12 + h) :=
    levelAt_blockSize _ _ (by have := List.mem_range.mp hh; omega)
  rw [hlevel, ← hsize] at hpow
  exact absurd hpow (Nat.ne_of_lt (Nat.two_pow_pos _))

/-- A map with two pages, in an entry that needs three levels. -/
def twoPageMap : List InitialMemMapEntry :=
  [⟨.usable, .mapped, 0, 0x1000, 0x1000, 2⟩]

/-- The size data of a map with one page, which needs one level. -/
def onePageSizeData : PhysMemTreeSizeData :=
  layoutTreeBuffer (countedSizeData (treeRanges [⟨.usable, .mapped, 0, 0x1000, 0x1000, 1⟩]))

end Inside

end Kernel
end DexprOS
