import DexprOS.Kernel.Memory.PhysicalMemTreeMark
import DexprOS.Kernel.Memory.PhysicalMemTreeRoom

/-!
# Shape of a created tree

What the passes over a created tree rely on: the entries form a list, every entry
has its levels, and different levels have different blocks.  No pass changes it.

Main facts:
* `TreeShape.of_success`: a created tree has this shape;
* `TreeShape.block_store`, `TreeShape.block_memset`: writes to the blocks of a level;
* `TreeShape.follows`: the entries are linked in order;
* `walkEntries_returns`: a walk along the entries visits every one of them once;
* `TreeShape.foldl_visit`: what such a walk leaves in the blocks of an entry.
-/

namespace DexprOS
namespace Kernel

open Fuel

section Index

/-- Index in the level array of the level at height `h` of entry `k`. -/
def levelIndex (ranges : List PhysRange) (k : Nat) (r : PhysRange) (h : Nat) : Nat :=
  (levelList (ranges.take k)).length + (treeTop r - h)

variable {ranges : List PhysRange} {k k' : Nat} {r r' : PhysRange} {h h' : Nat}

theorem levelList_take_succ (hk : ranges[k]? = some r) :
    levelList (ranges.take (k + 1)) = levelList (ranges.take k) ++ treeLevels r := by
  rw [List.take_add_one, hk, Option.toList_some, levelList_concat]

theorem length_levelList_take_le {n n' : Nat} (hn : n ≤ n') :
    (levelList (ranges.take n)).length ≤ (levelList (ranges.take n')).length := by
  have happend := levelList_append ((ranges.take n').take n) ((ranges.take n').drop n)
  rw [List.take_append_drop, List.take_take, Nat.min_eq_left hn] at happend
  rw [happend, List.length_append]
  omega

theorem levelIndex_lt_take (hk : ranges[k]? = some r) (h : Nat) :
    levelIndex ranges k r h < (levelList (ranges.take (k + 1))).length := by
  rw [levelList_take_succ hk, List.length_append, length_treeLevels, levelIndex]
  omega

theorem levelIndex_lt (hk : ranges[k]? = some r) (h : Nat) :
    levelIndex ranges k r h < (levelList ranges).length := by
  have hlt : k < ranges.length := (List.getElem?_eq_some_iff.mp hk).1
  have hle : (levelList (ranges.take (k + 1))).length ≤
      (levelList (ranges.take ranges.length)).length := length_levelList_take_le hlt
  rw [List.take_length] at hle
  exact Nat.lt_of_lt_of_le (levelIndex_lt_take hk h) hle

/-- The level array has the level of that height at the index. -/
theorem levelList_levelIndex (hk : ranges[k]? = some r) (hh : h ≤ treeTop r) :
    (levelList ranges)[levelIndex ranges k r h]? = some (treeLevel r h) := by
  have hsplit := levelList_append (ranges.take (k + 1)) (ranges.drop (k + 1))
  rw [List.take_append_drop] at hsplit
  rw [hsplit, List.getElem?_append_left (levelIndex_lt_take hk h),
    levelList_take_succ hk, levelIndex,
    List.getElem?_append_right (Nat.le_add_right _ _), Nat.add_sub_cancel_left,
    treeLevels_getElem? r (Nat.sub_le _ _), Nat.sub_sub_self hh]

/-- Levels of different entries have different indices. -/
theorem levelIndex_ne_of_ne
    (hk : ranges[k]? = some r) (hk' : ranges[k']? = some r') (hne : k ≠ k')
    (h h' : Nat) :
    levelIndex ranges k r h ≠ levelIndex ranges k' r' h' := by
  have hlt := levelIndex_lt_take hk h
  have hlt' := levelIndex_lt_take hk' h'
  rw [levelIndex] at hlt hlt' ⊢
  rw [levelIndex]
  rcases Nat.lt_or_gt_of_ne hne with h₁ | h₁
  · have hle : (levelList (ranges.take (k + 1))).length ≤
        (levelList (ranges.take k')).length := length_levelList_take_le h₁
    omega
  · have hle : (levelList (ranges.take (k' + 1))).length ≤
        (levelList (ranges.take k)).length := length_levelList_take_le h₁
    omega

/-- So have levels of different heights. -/
theorem levelIndex_inj
    (hk : ranges[k]? = some r) (hk' : ranges[k']? = some r')
    (hh : h ≤ treeTop r) (hh' : h' ≤ treeTop r') :
    levelIndex ranges k r h = levelIndex ranges k' r' h' ↔ k = k' ∧ h = h' := by
  constructor
  · intro heq
    by_cases hkk : k = k'
    · subst hkk
      obtain rfl : r = r' := Option.some.inj (hk.symm.trans hk')
      rw [levelIndex, levelIndex] at heq
      exact ⟨rfl, by omega⟩
    · exact absurd heq (levelIndex_ne_of_ne hk hk' hkk h h')
  · rintro ⟨rfl, rfl⟩
    obtain rfl : r = r' := Option.some.inj (hk.symm.trans hk')
    rfl

end Index

section Shape

/-- The shape of the tree for `ranges`. -/
structure TreeShape (ranges : List PhysRange) (tree : PhysicalMemTree)
    (m : TreeMemory) : Prop where
  first : 0 < ranges.length → tree.pFirstEntry = some 0
  startAddress : ∀ k r, ranges[k]? = some r →
    (m.entries k).startAddress = r.physicalAddress
  endAddress : ∀ k r, ranges[k]? = some r →
    (m.entries k).endAddress = r.physicalAddress + r.rangeSize
  pTreeLevels : ∀ k r, ranges[k]? = some r →
    (m.entries k).pTreeLevels = (levelList (ranges.take k)).length
  numTreeLevels : ∀ k r, ranges[k]? = some r →
    (m.entries k).numTreeLevels = UInt64.ofNat (treeTop r + 1)
  next : ∀ k, k < ranges.length →
    (m.entries k).pNextEntry = if k + 1 < ranges.length then some (k + 1) else none
  level : ∀ j l, (levelList ranges)[j]? = some l →
    (m.levels j).startMappedAddress = l.minMappedAddress ∧
    (m.levels j).blockSize = l.blockSize ∧
    (m.levels j).numBlocks = l.numBlocks
  apart : BlocksApart (levelList ranges).length m

variable {ranges : List PhysRange} {tree : PhysicalMemTree} {m m' : TreeMemory}
  {k : Nat} {r : PhysRange} {h : Nat}

/-- Created levels have their own blocks. -/
theorem LevelsCreated.blocksApart
    {base : TreeMemory} {ls : List LevelCursor} (hc : LevelsCreated base ls m) :
    BlocksApart ls.length m := by
  have hbefore : ∀ i j, i < j → j < ls.length →
      sizeofInPlaceBlocks < (m.levels i).numBlocks →
      sizeofInPlaceBlocks < (m.levels j).numBlocks →
      (m.levels i).pBlocks + (m.levels i).numBlocks.toNat ≤ (m.levels j).pBlocks := by
    intro i j hij hj hiout hjout
    have hplaced := hc.placed j _ (List.getElem?_eq_getElem hj)
    rw [hplaced.numBlocks] at hjout
    rw [hplaced.pBlocks hjout]
    exact hc.pBlocks_before hij (Nat.le_of_lt hj) hiout
  intro i j hi hj hij hiout hjout
  rcases Nat.lt_or_gt_of_ne hij with h | h
  · exact Or.inl (hbefore i j h hj hiout hjout)
  · exact Or.inr (hbefore j i h hi hjout hiout)

/-- A created tree whose entries are not at address zero has its shape. -/
theorem TreeShape.of_created
    {base : TreeMemory} {sizeData : PhysMemTreeSizeData} {pEntries : UInt64}
    {c : PhysMemTreeCreateData} (hc : Created base sizeData pEntries ranges c)
    (hptr : ∀ k, k < ranges.length → entryPointer pEntries k = some k) :
    TreeShape ranges { pFirstEntry := entryPointer pEntries 0 } c.memory where
  first := fun hpos => hptr 0 hpos
  startAddress := fun k r hk => by rw [hc.entries.placed k r hk, treeEntry]
  endAddress := fun k r hk => by rw [hc.entries.placed k r hk, treeEntry]
  pTreeLevels := fun k r hk => by rw [hc.entries.placed k r hk, treeEntry]
  numTreeLevels := fun k r hk => by rw [hc.entries.placed k r hk, treeEntry]
  next := fun k hk => by
    rw [hc.entries.placed k _ (List.getElem?_eq_getElem hk), treeEntry]
    dsimp only
    split_ifs with hlast
    · exact hptr (k + 1) hlast
    · rfl
  level := fun j l hj => by
    have hplaced := hc.levels.placed j l hj
    exact ⟨hplaced.startMappedAddress, hplaced.blockSize, hplaced.numBlocks⟩
  apart := hc.levels.blocksApart

/-- A tree that was created in a buffer has its shape. -/
theorem TreeShape.of_success
    {pInitialMap : List InitialMemMapEntry} {pBuffer : UInt64} {base : TreeMemory}
    {sizeData : PhysMemTreeSizeData} (hbuffer : TreeBuffer pBuffer sizeData)
    (hrun : Returns (createPhysicalMemTree pInitialMap pBuffer sizeData base)
      (true, tree, m)) :
    TreeShape (treeRanges pInitialMap) tree m := by
  have hroom := hasRoom_of_success hbuffer hrun
  obtain ⟨c, hc, hcreate⟩ :=
    createTreesForMemoryRanges_returns pInitialMap pBuffer base hroom
  obtain ⟨-, rfl, rfl⟩ := hrun.unique (createPhysicalMemTree_returns hc hcreate)
  exact TreeShape.of_created hc (fun k hk =>
    hbuffer.entryPointer (Nat.lt_of_lt_of_le hk hroom.entries))

/-- Changing the values of blocks keeps the shape. -/
theorem TreeShape.of_sameShape
    (hm : TreeShape ranges tree m) (hsame : SameShape m m') :
    TreeShape ranges tree m' where
  first := hm.first
  startAddress := by rw [hsame.entries]; exact hm.startAddress
  endAddress := by rw [hsame.entries]; exact hm.endAddress
  pTreeLevels := by rw [hsame.entries]; exact hm.pTreeLevels
  numTreeLevels := by rw [hsame.entries]; exact hm.numTreeLevels
  next := by rw [hsame.entries]; exact hm.next
  level := fun j l hj => by
    rw [hsame.startMappedAddress, hsame.blockSize, hsame.numBlocks]
    exact hm.level j l hj
  apart := hsame.blocksApart hm.apart

theorem TreeShape.numTreeLevels_toNat
    (hm : TreeShape ranges tree m) (hk : ranges[k]? = some r) :
    (m.entries k).numTreeLevels.toNat = treeTop r + 1 := by
  have htop : treeTop r ≤ 51 := topHeight_le _ _
  rw [hm.numTreeLevels k r hk]
  exact UInt64.toNat_ofNat_of_lt' (Nat.lt_of_le_of_lt (Nat.succ_le_succ htop) (by decide))

theorem TreeShape.lastLevel
    (hm : TreeShape ranges tree m) (hk : ranges[k]? = some r) :
    lastLevel (m.entries k) = levelIndex ranges k r 0 := by
  have hnum := hm.numTreeLevels_toNat hk
  have hone : (1 : UInt64) ≤ (m.entries k).numTreeLevels := by
    rw [UInt64.le_iff_toNat_le, hnum]
    exact Nat.succ_le_succ (Nat.zero_le _)
  rw [Kernel.lastLevel, hm.pTreeLevels k r hk, levelIndex, UInt64.toNat_sub_of_le _ _ hone,
    hnum]
  rfl

theorem TreeShape.levelAt
    (hm : TreeShape ranges tree m) (hk : ranges[k]? = some r) (hh : h ≤ treeTop r) :
    (m.levels (levelIndex ranges k r h)).startMappedAddress =
        (treeLevel r h).minMappedAddress ∧
    (m.levels (levelIndex ranges k r h)).blockSize = (treeLevel r h).blockSize ∧
    (m.levels (levelIndex ranges k r h)).numBlocks = (treeLevel r h).numBlocks :=
  hm.level _ _ (levelList_levelIndex hk hh)

end Shape

section Blocks

variable {ranges : List PhysRange} {tree : PhysicalMemTree} {m m' m'' : TreeMemory}

/-- Block `i` of the level at height `h` belongs to entry `k`. -/
structure HasBlock (ranges : List PhysRange) (k : Nat) (r : PhysRange) (h i : Nat) :
    Prop where
  entry : ranges[k]? = some r
  height : h ≤ treeTop r
  index : i < (treeLevel r h).numBlocks.toNat

variable {k k' h h' i i' : Nat} {r r' : PhysRange}

theorem HasBlock.lt_numBlocks
    (hb : HasBlock ranges k r h i) (hm : TreeShape ranges tree m) :
    i < (m.levels (levelIndex ranges k r h)).numBlocks.toNat := by
  rw [(hm.levelAt hb.entry hb.height).2.2]
  exact hb.index

/-- Writing one block of a tree. -/
theorem TreeShape.block_store
    (hm : TreeShape ranges tree m) (hb : HasBlock ranges k r h i)
    (hb' : HasBlock ranges k' r' h' i') (value : UInt8) :
    (m.store (m.levelBlocks (levelIndex ranges k r h)) i value).block
        (levelIndex ranges k' r' h') i' =
      if k' = k ∧ h' = h ∧ i' = i then value
      else m.block (levelIndex ranges k' r' h') i' := by
  rw [Kernel.block_store hm.apart (levelIndex_lt hb.entry h) (levelIndex_lt hb'.entry h')
    (hb.lt_numBlocks hm) (hb'.lt_numBlocks hm)]
  refine if_congr ?_ rfl rfl
  rw [levelIndex_inj hb'.entry hb.entry hb'.height hb.height, and_assoc]

/-- Writing a run of blocks of one level. -/
theorem TreeShape.block_memset
    (hm : TreeShape ranges tree m) (hk : ranges[k]? = some r) (hh : h ≤ treeTop r)
    {first count : Nat} (hcount : first + count ≤ (treeLevel r h).numBlocks.toNat)
    (hb' : HasBlock ranges k' r' h' i') (value : UInt8) :
    (m.memset (m.levelBlocks (levelIndex ranges k r h)) first value count).block
        (levelIndex ranges k' r' h') i' =
      if k' = k ∧ h' = h ∧ first ≤ i' ∧ i' < first + count then value
      else m.block (levelIndex ranges k' r' h') i' := by
  rw [Kernel.block_memset hm.apart (levelIndex_lt hk h) (levelIndex_lt hb'.entry h') value
    count (by rw [(hm.levelAt hk hh).2.2]; exact hcount) (hb'.lt_numBlocks hm)]
  refine if_congr ?_ rfl rfl
  rw [levelIndex_inj hb'.entry hk hb'.height hh, and_assoc]

/-- The memories have the same values in all blocks but those of one level. -/
def SameBut (ranges : List PhysRange) (k h : Nat) (m m' : TreeMemory) : Prop :=
  ∀ k' r' h' i', HasBlock ranges k' r' h' i' → ¬ (k' = k ∧ h' = h) →
    m'.block (levelIndex ranges k' r' h') i' = m.block (levelIndex ranges k' r' h') i'

/-- A loop over the blocks of one level, whose values come from other levels. -/
theorem TreeShape.block_fill
    (hm : TreeShape ranges tree m) (hk : ranges[k]? = some r) (hh : h ≤ treeTop r)
    (value : TreeMemory → Nat → UInt8)
    (hvalue : ∀ m', SameShape m m' → SameBut ranges k h m m' → value m' = value m)
    {n : Nat} (hn : n ≤ (treeLevel r h).numBlocks.toNat)
    (hb' : HasBlock ranges k' r' h' i') :
    ((List.range n).foldl (fun m' i =>
        m'.store (m.levelBlocks (levelIndex ranges k r h)) i (value m' i)) m).block
        (levelIndex ranges k' r' h') i' =
      if k' = k ∧ h' = h ∧ i' < n then value m i'
      else m.block (levelIndex ranges k' r' h') i' := by
  induction n generalizing k' r' h' i' with
  | zero =>
      simp
  | succ n ih =>
      rw [List.range_succ, List.foldl_append, List.foldl_cons, List.foldl_nil]
      have hshape : SameShape m ((List.range n).foldl (fun m' i =>
          m'.store (m.levelBlocks (levelIndex ranges k r h)) i (value m' i)) m) :=
        sameShape_foldl (fun m' i => sameShape_store m' _ i (value m' i)) _ m
      have hbut : SameBut ranges k h m ((List.range n).foldl (fun m' i =>
          m'.store (m.levelBlocks (levelIndex ranges k r h)) i (value m' i)) m) := by
        intro k' r' h' i' hb' hne
        rw [ih (by omega) hb', if_neg (fun heq => hne ⟨heq.1, heq.2.1⟩)]
      have hb : HasBlock ranges k r h n := ⟨hk, hh, hn⟩
      have hstore := (hm.of_sameShape hshape).block_store hb hb' (value m n)
      rw [hshape.levelBlocks] at hstore
      rw [hvalue _ hshape hbut, hstore, ih (by omega) hb']
      by_cases hlevel : k' = k ∧ h' = h
      · obtain ⟨rfl, rfl⟩ := hlevel
        by_cases hlast : i' = n
        · subst hlast
          simp
        · simp only [true_and, hlast, if_false]
          refine if_congr ?_ rfl rfl
          omega
      · rw [if_neg (fun heq => hlevel ⟨heq.1, heq.2.1⟩),
          if_neg (fun heq => hlevel ⟨heq.1, heq.2.1⟩),
          if_neg (fun heq => hlevel ⟨heq.1, heq.2.1⟩)]

/-- The memories have the same values in the blocks of entry `k`. -/
def SameBlocks (ranges : List PhysRange) (k : Nat) (m m' : TreeMemory) : Prop :=
  ∀ r h i, HasBlock ranges k r h i →
    m'.block (levelIndex ranges k r h) i = m.block (levelIndex ranges k r h) i

theorem SameBlocks.refl (ranges : List PhysRange) (k : Nat) (m : TreeMemory) :
    SameBlocks ranges k m m :=
  fun _ _ _ _ => rfl

theorem SameBlocks.trans
    (h : SameBlocks ranges k m m') (h' : SameBlocks ranges k m' m'') :
    SameBlocks ranges k m m'' :=
  fun r h₀ i hb => (h' r h₀ i hb).trans (h r h₀ i hb)

end Blocks

section Walk

variable {ranges : List PhysRange} {tree : PhysicalMemTree} {m : TreeMemory}
  {visit : Nat → TreeMemory → TreeMemory}

/-- From that pointer on, the entries are linked in this order, up to `NULL`. -/
inductive Follows (m : TreeMemory) : Option Nat → List Nat → Prop
  | null :
      Follows m none []
  | entry {k : Nat} {l : List Nat} (h : Follows m (m.entries k).pNextEntry l) :
      Follows m (some k) (k :: l)

/-- A walk that keeps the shape visits the linked entries in order. -/
theorem Follows.walkEntries_returns
    {first : Option Nat} {l : List Nat} (h : Follows m first l)
    (hvisit : ∀ k m, SameShape m (visit k m))
    {m' : TreeMemory} (hentries : m'.entries = m.entries) :
    Returns (walkEntries visit ⟨first⟩ m') (l.foldl (fun m k => visit k m) m') := by
  induction h generalizing m' with
  | null =>
      exact ⟨1, fun fuel hle => by
        obtain ⟨n, rfl⟩ := Nat.exists_eq_add_of_le' hle
        rfl⟩
  | @entry k l _ ih =>
      have hsame := (hvisit k m').entries.trans hentries
      have hrest := ih hsame
      refine (returns_iff_of_succ (fun fuel => ?_)).mpr hrest
      refine forever_again ?_ fuel
      rw [← hsame]
      rfl

/-- The entries of a tree are linked in order. -/
theorem TreeShape.follows
    (hm : TreeShape ranges tree m) (hpos : 0 < ranges.length) :
    Follows m tree.pFirstEntry (List.range ranges.length) := by
  -- From entry `k` on the entries up to the last one are linked; `n` of them are left.
  have hfrom : ∀ n k, k + n = ranges.length →
      Follows m (if k < ranges.length then some k else none) (List.range' k n) := by
    intro n
    induction n with
    | zero =>
        intro k hk
        rw [if_neg (by omega)]
        exact .null
    | succ n ih =>
        intro k hk
        have hrest := ih (k + 1) (by omega)
        rw [← hm.next k (by omega)] at hrest
        rw [if_pos (by omega)]
        exact .entry hrest
  have hall := hfrom ranges.length 0 (Nat.zero_add _)
  rwa [if_pos hpos, ← hm.first hpos, ← List.range_eq_range'] at hall

/-- A walk that keeps the shape visits the entries in order, each of them once. -/
theorem walkEntries_returns
    (hm : TreeShape ranges tree m) (hpos : 0 < ranges.length)
    (hvisit : ∀ k m, SameShape m (visit k m)) :
    Returns (walkEntries visit tree m)
      ((List.range ranges.length).foldl (fun m k => visit k m) m) :=
  (hm.follows hpos).walkEntries_returns hvisit rfl

/-- A visit keeps the shape of the tree and the blocks of all other entries. -/
structure LocalVisit (ranges : List PhysRange) (tree : PhysicalMemTree)
    (visit : Nat → TreeMemory → TreeMemory) : Prop where
  sameShape : ∀ k m, SameShape m (visit k m)
  sameBlocks : ∀ k k' m, TreeShape ranges tree m → k < ranges.length → k' ≠ k →
    SameBlocks ranges k' m (visit k m)

/-- Visits of other entries keep the blocks of an entry. -/
theorem LocalVisit.sameBlocks_foldl
    (hvisit : LocalVisit ranges tree visit) (hm : TreeShape ranges tree m)
    {k : Nat} (l : List Nat) (hl : ∀ j, j ∈ l → j < ranges.length ∧ k ≠ j) :
    SameBlocks ranges k m (l.foldl (fun m k => visit k m) m) := by
  induction l generalizing m with
  | nil =>
      exact SameBlocks.refl ranges k m
  | cons j l ih =>
      obtain ⟨hj, hkj⟩ := hl j (by simp)
      exact (hvisit.sameBlocks j k m hm hj hkj).trans
        (ih (hm.of_sameShape (hvisit.sameShape j m))
          (fun i hi => hl i (List.mem_cons_of_mem j hi)))

/-- In the end an entry has the blocks that its own visit made, from those that it
had at first. -/
theorem TreeShape.foldl_visit
    (hm : TreeShape ranges tree m) (hvisit : LocalVisit ranges tree visit)
    {k : Nat} (hk : k < ranges.length) :
    ∃ m', TreeShape ranges tree m' ∧ SameBlocks ranges k m m' ∧
      SameBlocks ranges k (visit k m')
        ((List.range ranges.length).foldl (fun m k => visit k m) m) := by
  obtain ⟨s, t, hsplit⟩ := List.append_of_mem (List.mem_range.mpr hk)
  have hlt : ∀ j, j ∈ s ++ k :: t → j < ranges.length := fun j hj =>
    List.mem_range.mp (hsplit ▸ hj)
  have hnodup : (s ++ k :: t).Nodup := hsplit ▸ List.nodup_range
  obtain ⟨-, hkt, hks⟩ := List.nodup_append.mp hnodup
  have hshape : ∀ (l : List Nat) m, SameShape m (l.foldl (fun m k => visit k m) m) :=
    sameShape_foldl (fun m k => hvisit.sameShape k m)
  have hm' := hm.of_sameShape (hshape s m)
  refine ⟨s.foldl (fun m k => visit k m) m, hm', ?_, ?_⟩
  · exact hvisit.sameBlocks_foldl hm s (fun j hj =>
      ⟨hlt j (List.mem_append_left _ hj), (hks j hj k (by simp)).symm⟩)
  · rw [hsplit, List.foldl_append, List.foldl_cons]
    exact hvisit.sameBlocks_foldl (hm'.of_sameShape (hvisit.sameShape k _)) t
      (fun j hj => ⟨hlt j (by simp [hj]), fun heq =>
        (List.nodup_cons.mp hkt).1 (heq ▸ hj)⟩)

end Walk

end Kernel
end DexprOS
