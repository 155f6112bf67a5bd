import DexprOS.Kernel.Memory.PhysicalMemTreeShape
import DexprOS.Library.BitMask
import DexprOS.Library.HalvingSummary

/-!
# Acceleration levels of a tree

Every level above the last one is computed from the level below it.  Where the
last level holds available and unavailable pages, the blocks above become the
summaries by halving of these pages.

Main facts:
* `fillTreeLevelAccelBlocks_block`: what the filling of one level writes;
* `fillHeights_summary`: the levels of an entry from the bottom upwards;
* `fillTreeAccelBlocks_returns`: all blocks of all entries are summaries.
-/

namespace DexprOS
namespace Kernel

open Fuel HalvingSummary

section Combine

/-- Combining states is combining their values. -/
theorem combineStates_toNat (state0 state1 : UInt8) :
    (combineStates state0 state1).toNat = combine state0.toNat state1.toNat := by
  have h0 := state0.toNat_lt
  have h1 := state1.toNat_lt
  have hodd : ∀ x : UInt8,
      (x &&& physMemBlock_1_128_OrLessAvailableBit) ≠ 0 ↔ x.toNat % 2 = 1 := by
    intro x
    rw [ne_eq, ← UInt8.toNat_inj, UInt8.toNat_and,
      show physMemBlock_1_128_OrLessAvailableBit.toNat = 1 from rfl,
      Nat.and_one_is_mod, show (0 : UInt8).toNat = 0 from rfl]
    omega
  have hsum : ((state0 >>> 1) + (state1 >>> 1)).toNat =
      state0.toNat / 2 + state1.toNat / 2 := by
    rw [UInt8.toNat_add, UInt8.toNat_shiftRight, UInt8.toNat_shiftRight,
      show (1 : UInt8).toNat % 8 = 1 from rfl, Nat.shiftRight_eq_div_pow,
      Nat.shiftRight_eq_div_pow, Nat.pow_one]
    omega
  rw [combineStates, combine]
  refine Eq.trans (apply_ite UInt8.toNat _ _ _) (if_congr ?_ ?_ hsum)
  · rw [hodd, hodd]
  · rw [UInt8.toNat_or, hsum,
      show physMemBlock_1_128_OrLessAvailableBit.toNat = 1 from rfl, BitMask.or_one]

end Combine

section Nodes

/-- State of block number `b` at height `h` of entry `k`, and `0` when the level
has no such block. -/
def nodeState (ranges : List PhysRange) (k : Nat) (r : PhysRange) (m : TreeMemory)
    (h b : Nat) : UInt8 :=
  if firstBlock r.physicalAddress h ≤ b ∧
      b < firstBlock r.physicalAddress h + (treeLevel r h).numBlocks.toNat then
    m.block (levelIndex ranges k r h) (b - firstBlock r.physicalAddress h)
  else
    0

variable {ranges : List PhysRange} {tree : PhysicalMemTree} {m m' : TreeMemory}
  {k k' h h' i' : Nat} {r r' : PhysRange}

/-- Blocks that are in the level are read from it. -/
theorem nodeState_firstBlock_add
    {i : Nat} (hi : i < (treeLevel r h).numBlocks.toNat) :
    nodeState ranges k r m h (firstBlock r.physicalAddress h + i) =
      m.block (levelIndex ranges k r h) i := by
  rw [nodeState, if_pos ⟨Nat.le_add_right _ _, Nat.add_lt_add_left hi _⟩,
    Nat.add_sub_cancel_left]

/-- Equal blocks of a level make equal states. -/
theorem nodeState_congr
    (hk : ranges[k]? = some r) (hh : h ≤ treeTop r)
    (hsame : ∀ i, HasBlock ranges k r h i →
      m'.block (levelIndex ranges k r h) i = m.block (levelIndex ranges k r h) i) :
    nodeState ranges k r m' h = nodeState ranges k r m h := by
  funext b
  rw [nodeState, nodeState]
  split_ifs with hb
  · exact hsame _ ⟨hk, hh, by omega⟩
  · rfl

/-- The children of a block are read by their numbers. -/
theorem childState_eq
    {p : BlockPtr} (hp : m.levelBlocks (levelIndex ranges k r h) = p)
    {i c : Nat} {minNextOffset : Nat}
    (hmin : minNextOffset = firstBlock r.physicalAddress h -
      2 * firstBlock r.physicalAddress (h + 1)) :
    childState m p minNextOffset
        (minNextOffset + (treeLevel r h).numBlocks.toNat) (i * 2 + c) =
      nodeState ranges k r m h (2 * (firstBlock r.physicalAddress (h + 1) + i) + c) := by
  have hle : 2 * firstBlock r.physicalAddress (h + 1) ≤
      firstBlock r.physicalAddress h := by
    rw [firstBlock_succ]
    omega
  have hindex : i * 2 + c - minNextOffset =
      2 * (firstBlock r.physicalAddress (h + 1) + i) + c -
        firstBlock r.physicalAddress h := by
    omega
  rw [childState, nodeState, hindex, TreeMemory.block, hp]
  refine if_congr ?_ rfl rfl
  omega

/-- The filling of one level writes the combined children of each of its blocks. -/
theorem fillTreeLevelAccelBlocks_block
    (hm : TreeShape ranges tree m) (hk : ranges[k]? = some r) (hh : h < treeTop r)
    (hb' : HasBlock ranges k' r' h' i') :
    (fillTreeLevelAccelBlocks k (treeTop r - (h + 1)) m).block
        (levelIndex ranges k' r' h') i' =
      if k' = k ∧ h' = h + 1 then
        combineStates
          (nodeState ranges k r m h (2 * (firstBlock r.physicalAddress (h + 1) + i')))
          (nodeState ranges k r m h
            (2 * (firstBlock r.physicalAddress (h + 1) + i') + 1))
      else
        m.block (levelIndex ranges k' r' h') i' := by
  have htop : treeTop r ≤ 51 := topHeight_le _ _
  have hlevel : (m.entries k).pTreeLevels + (treeTop r - (h + 1)) =
      levelIndex ranges k r (h + 1) := by
    rw [hm.pTreeLevels k r hk, levelIndex]
  have hnext : levelIndex ranges k r (h + 1) + 1 = levelIndex ranges k r h := by
    rw [levelIndex, levelIndex]
    omega
  obtain ⟨hstart, -, hnum⟩ := hm.levelAt hk (h := h + 1) hh
  obtain ⟨hstart', hsize', hnum'⟩ := hm.levelAt hk (Nat.le_of_lt hh)
  have hoffset :
      (((treeLevel r h).minMappedAddress - (treeLevel r (h + 1)).minMappedAddress) /
        (treeLevel r h).blockSize).toNat =
      firstBlock r.physicalAddress h - 2 * firstBlock r.physicalAddress (h + 1) :=
    levelAt_offset (by omega)
  unfold fillTreeLevelAccelBlocks
  dsimp only
  rw [hlevel, hnext, hstart, hstart', hsize', hnum, hnum']
  generalize (((treeLevel r h).minMappedAddress -
    (treeLevel r (h + 1)).minMappedAddress) / (treeLevel r h).blockSize).toNat =
      minNextOffset at hoffset
  have hvalue : ∀ m₁, SameShape m m₁ → ∀ i,
      combineStates
          (childState m₁ (m.levelBlocks (levelIndex ranges k r h)) minNextOffset
            (minNextOffset + (treeLevel r h).numBlocks.toNat) (i * 2))
          (childState m₁ (m.levelBlocks (levelIndex ranges k r h)) minNextOffset
            (minNextOffset + (treeLevel r h).numBlocks.toNat) (i * 2 + 1)) =
        combineStates
          (nodeState ranges k r m₁ h (2 * (firstBlock r.physicalAddress (h + 1) + i)))
          (nodeState ranges k r m₁ h
            (2 * (firstBlock r.physicalAddress (h + 1) + i) + 1)) := by
    intro m₁ hshape i
    have hptr := hshape.levelBlocks (levelIndex ranges k r h)
    rw [← childState_eq hptr hoffset, ← Nat.add_zero (i * 2),
      childState_eq hptr hoffset, Nat.add_zero]
  have hfill := hm.block_fill hk hh
    (fun m₁ i => combineStates
      (childState m₁ (m.levelBlocks (levelIndex ranges k r h)) minNextOffset
        (minNextOffset + (treeLevel r h).numBlocks.toNat) (i * 2))
      (childState m₁ (m.levelBlocks (levelIndex ranges k r h)) minNextOffset
        (minNextOffset + (treeLevel r h).numBlocks.toNat) (i * 2 + 1)))
    (fun m₁ hshape hbut => by
      funext i
      rw [hvalue m₁ hshape, hvalue m (SameShape.refl m),
        nodeState_congr hk (Nat.le_of_lt hh) (fun i hb => hbut k r h i hb (by omega))])
    (Nat.le_refl _) hb'
  refine hfill.trans ?_
  rw [hvalue m (SameShape.refl m)]
  refine if_congr ?_ rfl rfl
  constructor
  · rintro ⟨hkk, hhh, -⟩
    exact ⟨hkk, hhh⟩
  · rintro ⟨rfl, rfl⟩
    obtain rfl : r' = r := Option.some.inj (hb'.entry.symm.trans hk)
    exact ⟨rfl, rfl, hb'.index⟩

theorem sameShape_fillTreeLevelAccelBlocks (k iLevel : Nat) (m : TreeMemory) :
    SameShape m (fillTreeLevelAccelBlocks k iLevel m) :=
  sameShape_foldl (fun m i => sameShape_store m _ i _) _ m

end Nodes

section Entry

variable {ranges : List PhysRange} {tree : PhysicalMemTree} {m : TreeMemory}
  {k : Nat} {r : PhysRange}

/-- Every block of the entry's last level is either available or not. -/
def LeavesAssigned (ranges : List PhysRange) (k : Nat) (m : TreeMemory) : Prop :=
  ∀ r i, HasBlock ranges k r 0 i →
    m.block (levelIndex ranges k r 0) i = physMemPageAvailableBit ∨
    m.block (levelIndex ranges k r 0) i = physMemPageUnavailable

/-- Page `p` has an available block in the entry's last level. -/
def leaf (ranges : List PhysRange) (k : Nat) (r : PhysRange) (m : TreeMemory)
    (p : Nat) : Bool :=
  nodeState ranges k r m 0 p = physMemPageAvailableBit

theorem nodeState_zero
    (hk : ranges[k]? = some r) (hleaves : LeavesAssigned ranges k m) (b : Nat) :
    (nodeState ranges k r m 0 b).toNat = summary (leaf ranges k r m) 0 b := by
  have hcases : nodeState ranges k r m 0 b = physMemPageAvailableBit ∨
      nodeState ranges k r m 0 b = physMemPageUnavailable := by
    rw [nodeState]
    split_ifs with hb
    · exact hleaves r _ ⟨hk, Nat.zero_le _, by omega⟩
    · exact Or.inr rfl
  rw [summary, leaf]
  rcases hcases with h | h <;> rw [h] <;> rfl

theorem sameShape_fillEntryAccelBlocks (k : Nat) (m : TreeMemory) :
    SameShape m (fillEntryAccelBlocks k m) :=
  sameShape_foldl (fun m _ => sameShape_fillTreeLevelAccelBlocks k _ m) _ m

/-- The filling of the lowest `n` heights of entry `k` above its last level. -/
def fillHeights (k : Nat) (r : PhysRange) (n : Nat) (m : TreeMemory) : TreeMemory :=
  (List.range n).foldl
    (fun m i => fillTreeLevelAccelBlocks k (treeTop r + 1 - (i + 1) - 1) m) m

theorem fillHeights_succ {n : Nat} (m : TreeMemory) :
    fillHeights k r (n + 1) m =
      fillTreeLevelAccelBlocks k (treeTop r - (n + 1)) (fillHeights k r n m) := by
  rw [fillHeights, List.range_succ, List.foldl_append, List.foldl_cons, List.foldl_nil,
    show treeTop r + 1 - (n + 1) - 1 = treeTop r - (n + 1) by omega]
  rfl

theorem sameShape_fillHeights (k : Nat) (r : PhysRange) (n : Nat) (m : TreeMemory) :
    SameShape m (fillHeights k r n m) :=
  sameShape_foldl (fun m _ => sameShape_fillTreeLevelAccelBlocks k _ m) _ m

theorem fillEntryAccelBlocks_eq
    (hm : TreeShape ranges tree m) (hk : ranges[k]? = some r) :
    fillEntryAccelBlocks k m = fillHeights k r (treeTop r) m := by
  rw [fillEntryAccelBlocks, hm.numTreeLevels_toNat hk]
  rfl

/-- Other entries and the last levels are left alone. -/
theorem fillHeights_frame
    (hm : TreeShape ranges tree m) (hk : ranges[k]? = some r)
    {n : Nat} (hn : n ≤ treeTop r)
    {k' h' i' : Nat} {r' : PhysRange} (hb' : HasBlock ranges k' r' h' i')
    (hother : k' ≠ k ∨ h' = 0) :
    (fillHeights k r n m).block (levelIndex ranges k' r' h') i' =
      m.block (levelIndex ranges k' r' h') i' := by
  induction n with
  | zero =>
      rfl
  | succ n ih =>
      have hm' := hm.of_sameShape (sameShape_fillHeights k r n m)
      rw [fillHeights_succ, fillTreeLevelAccelBlocks_block hm' hk hn hb',
        if_neg (by omega)]
      exact ih (Nat.le_of_succ_le hn)

/-- Below the top every level has blocks. -/
theorem numBlocks_ne_zero_of_lt {h : Nat} (hh : h < treeTop r) :
    (treeLevel r h).numBlocks.toNat ≠ 0 := by
  have hmany := lt_numBlocks_of_lt_topHeight r.physicalAddress
    (r.physicalAddress + r.rangeSize) hh
  rw [UInt64.le_iff_toNat_le, show (1 : UInt64).toNat = 1 from rfl] at hmany
  rw [treeLevel]
  omega

/-- After the lowest `n` heights all levels up to there hold the summaries of the
pages. -/
theorem fillHeights_summary
    (hm : TreeShape ranges tree m) (hk : ranges[k]? = some r)
    (hleaves : LeavesAssigned ranges k m) {n : Nat} (hn : n ≤ treeTop r)
    {h : Nat} (hh : h ≤ n) (hblocks : (treeLevel r h).numBlocks.toNat ≠ 0) (b : Nat) :
    (nodeState ranges k r (fillHeights k r n m) h b).toNat =
      summary (leaf ranges k r m) h b := by
  induction n generalizing h b with
  | zero =>
      obtain rfl : h = 0 := Nat.le_zero.mp hh
      exact nodeState_zero hk hleaves b
  | succ n ih =>
      have hm' := hm.of_sameShape (sameShape_fillHeights k r n m)
      have hblock := fun h i (hb : HasBlock ranges k r h i) =>
        fillTreeLevelAccelBlocks_block hm' hk hn hb
      rw [fillHeights_succ]
      by_cases hlast : h = n + 1
      · subst hlast
        have hbelow := numBlocks_ne_zero_of_lt hn
        rw [summary, ← ih (Nat.le_of_succ_le hn) (Nat.le_refl n) hbelow,
          ← ih (Nat.le_of_succ_le hn) (Nat.le_refl n) hbelow, nodeState]
        by_cases hb : firstBlock r.physicalAddress (n + 1) ≤ b ∧
            b < firstBlock r.physicalAddress (n + 1) +
              (treeLevel r (n + 1)).numBlocks.toNat
        · have hnumber : firstBlock r.physicalAddress (n + 1) +
              (b - firstBlock r.physicalAddress (n + 1)) = b := by omega
          rw [if_pos hb, hblock (n + 1) _ ⟨hk, hn, by omega⟩, if_pos ⟨rfl, rfl⟩,
            combineStates_toNat, hnumber]
        · -- a block that the level does not have has no children either
          have hnil : ∀ c, c = 2 * b ∨ c = 2 * b + 1 →
              nodeState ranges k r (fillHeights k r n m) n c = 0 := fun c hc =>
            if_neg (child_not_mem_of_not_mem hn hblocks hb hc)
          rw [if_neg hb, hnil _ (Or.inl rfl), hnil _ (Or.inr rfl)]
          rfl
      · have hle : h ≤ n := by omega
        rw [nodeState_congr (m := fillHeights k r n m) hk
          (Nat.le_trans hle (Nat.le_of_succ_le hn))
          (fun i hb => by rw [hblock h i hb, if_neg (by omega)])]
        exact ih (Nat.le_of_succ_le hn) hle hblocks b

end Entry

section Tree

variable {ranges : List PhysRange} {tree : PhysicalMemTree} {m : TreeMemory}

theorem localVisit_fillEntryAccelBlocks :
    LocalVisit ranges tree fillEntryAccelBlocks where
  sameShape := sameShape_fillEntryAccelBlocks
  sameBlocks := by
    intro k k' m hm hk hne r' h' i' hb'
    rw [fillEntryAccelBlocks_eq hm (List.getElem?_eq_getElem hk)]
    exact fillHeights_frame hm (List.getElem?_eq_getElem hk) (Nat.le_refl _) hb'
      (Or.inl hne)

/-- All blocks of all entries become the summaries of the entries' pages, and the
pages stay as they are. -/
theorem fillTreeAccelBlocks_returns
    (hm : TreeShape ranges tree m) (hpos : 0 < ranges.length)
    (hleaves : ∀ k, k < ranges.length → LeavesAssigned ranges k m) :
    ∃ m', Returns (fillTreeAccelBlocks tree m) m' ∧ SameShape m m' ∧
      ∀ k r, ranges[k]? = some r →
        nodeState ranges k r m' 0 = nodeState ranges k r m 0 ∧
        ∀ h, h ≤ treeTop r → (treeLevel r h).numBlocks.toNat ≠ 0 → ∀ b,
          (nodeState ranges k r m' h b).toNat = summary (leaf ranges k r m) h b := by
  refine ⟨_, walkEntries_returns hm hpos sameShape_fillEntryAccelBlocks,
    sameShape_foldl (fun m k => sameShape_fillEntryAccelBlocks k m) _ m, ?_⟩
  intro k r hk
  have hlt : k < ranges.length := (List.getElem?_eq_some_iff.mp hk).1
  obtain ⟨m₁, hm₁, hbefore, hafter⟩ := hm.foldl_visit localVisit_fillEntryAccelBlocks hlt
  have hstate₁ : nodeState ranges k r m₁ 0 = nodeState ranges k r m 0 :=
    nodeState_congr hk (Nat.zero_le _) (fun i hb => hbefore r 0 i hb)
  have hleaf₁ : leaf ranges k r m₁ = leaf ranges k r m := by
    funext p
    rw [leaf, leaf, hstate₁]
  have hleaves₁ : LeavesAssigned ranges k m₁ := by
    intro r' i hb
    rw [hbefore r' 0 i hb]
    exact hleaves k hlt r' i hb
  generalize (List.range ranges.length).foldl (fun m k => fillEntryAccelBlocks k m) m =
    m' at hafter
  have hfinal : ∀ h, h ≤ treeTop r → nodeState ranges k r m' h =
      nodeState ranges k r (fillHeights k r (treeTop r) m₁) h := by
    intro h hh
    rw [← fillEntryAccelBlocks_eq hm₁ hk]
    exact nodeState_congr hk hh (fun i hb => hafter r h i hb)
  refine ⟨?_, fun h hh hblocks b => ?_⟩
  · rw [hfinal 0 (Nat.zero_le _), ← hstate₁]
    exact nodeState_congr hk (Nat.zero_le _) (fun i hb =>
      fillHeights_frame hm₁ hk (Nat.le_refl _) hb (Or.inr rfl))
  · rw [hfinal h hh, fillHeights_summary hm₁ hk hleaves₁ (Nat.le_refl _) hh hblocks,
      hleaf₁]

end Tree

end Kernel
end DexprOS
