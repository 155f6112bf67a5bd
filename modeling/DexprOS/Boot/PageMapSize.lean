import DexprOS.Boot.PageMapIdentity
import DexprOS.Library.LowestFirst

/-!
# How many tables the boot page maps take

Main facts:
* `Counts.countRange`: the counters of one level count the tables of the ranges so far;
* `calculatePageMapSize_returns`: the calculated size, when the ranges are visited in order;
* `calculateSize_exact`: on ranges apart from each other the calculated size is exactly
  what the setup function takes.
-/

namespace DexprOS
namespace Boot

open Efi Fuel Radix LowestFirst

section Counting

variable {k : Nat} {pages : Finset Nat} {level : LevelCount}

/-- The counters of one level after the ranges of some pages. -/
structure Counts (k : Nat) (pages : Finset Nat) (level : LevelCount) : Prop where
  tableManSize : level.tableManSize.toNat = 2 ^ (12 + 9 * k)
  numTables : level.numTables.toNat = (pages.image (· / 512 ^ k)).card
  highest_ge : ∀ i ∈ pages.image (· / 512 ^ k), i ≤ level.highestTableIndex.toNat
  highest_mem : pages.Nonempty →
    level.highestTableIndex.toNat ∈ pages.image (· / 512 ^ k)

/-- The tables of one range. -/
theorem image_pagesOf
    {a b : Nat} (hab : a < b) (k : Nat) :
    (pagesOf a b).image (· / 512 ^ k) =
      Finset.Icc (a / 2 ^ (12 + 9 * k)) ((b - 1) / 2 ^ (12 + 9 * k)) := by
  have hpages : pagesOf a b = Finset.Icc (a / 4096) ((b - 1) / 4096) := by
    ext p
    rw [mem_pagesOf, Finset.mem_Icc]
    omega
  rw [hpages, image_div_Icc (by decide) (Nat.div_le_div_right (by omega)), node_index, node_index]

/-- Whether the first table of the next range is new. -/
theorem Counts.first_new_iff
    (h : Counts k pages level) {first : UInt64}
    (hfirst : ∀ i ∈ pages.image (· / 512 ^ k), i ≤ first.toNat) :
    (level.highestTableIndex < first ∨ level.numTables = 0) ↔
      first.toNat ∉ pages.image (· / 512 ^ k) := by
  rw [UInt64.lt_iff_toNat_lt, ← UInt64.toNat_inj, h.numTables, UInt64.toNat_zero,
    Finset.card_eq_zero, Finset.image_eq_empty]
  constructor
  · rintro (hlt | rfl) hmem
    · exact absurd (h.highest_ge _ hmem) (Nat.not_le.mpr hlt)
    · simp at hmem
  · intro hnot
    obtain hempty | hne := pages.eq_empty_or_nonempty
    · exact .inr hempty
    · have hmem := h.highest_mem hne
      refine .inl (lt_of_le_of_ne (hfirst _ hmem) fun heq => hnot ?_)
      rwa [← heq]

/-- One range more, which starts at the highest page so far or above it. -/
theorem Counts.countRange
    (h : Counts k pages level) {base last : UInt64}
    (hlt : base.toNat < last.toNat) (hlast : last.toNat ≤ 2 ^ 57)
    (hbase : ∀ p ∈ pages, p ≤ base.toNat / 4096) :
    Counts k (pages ∪ pagesOf base.toNat last.toNat) (countRange base last level) := by
  have hfirst : (base / level.tableManSize).toNat = base.toNat / 2 ^ (12 + 9 * k) := by
    rw [UInt64.toNat_div, h.tableManSize]
  have hend : ((last - 1) / level.tableManSize).toNat =
      (last.toNat - 1) / 2 ^ (12 + 9 * k) := by
    have hone : (last - 1).toNat = last.toNat - 1 :=
      UInt64.toNat_sub_of_le _ _ (UInt64.le_iff_toNat_le.mpr (by simp; omega))
    rw [UInt64.toNat_div, h.tableManSize, hone]
  have hle : base.toNat / 2 ^ (12 + 9 * k) ≤ (last.toNat - 1) / 2 ^ (12 + 9 * k) :=
    Nat.div_le_div_right (by omega)
  have hbound : (last.toNat - 1) / 2 ^ (12 + 9 * k) < 2 ^ 57 :=
    (Nat.div_le_self _ _).trans_lt (by omega)
  have hbelow : ∀ i ∈ pages.image (· / 512 ^ k), i ≤ base.toNat / 2 ^ (12 + 9 * k) := by
    intro i hi
    obtain ⟨p, hp, rfl⟩ := Finset.mem_image.mp hi
    rw [node_index]
    exact Nat.div_le_div_right (hbase p hp)
  have himage : (pages ∪ pagesOf base.toNat last.toNat).image (· / 512 ^ k) =
      pages.image (· / 512 ^ k) ∪
        Finset.Icc (base.toNat / 2 ^ (12 + 9 * k)) ((last.toNat - 1) / 2 ^ (12 + 9 * k)) := by
    rw [Finset.image_union, image_pagesOf hlt]
  have hcard := card_union_Icc hbelow hle
  -- all indices are at most the last one, so that the counters cannot overflow
  have hsmall : (pages.image (· / 512 ^ k) ∪
      Finset.Icc (base.toNat / 2 ^ (12 + 9 * k))
        ((last.toNat - 1) / 2 ^ (12 + 9 * k))).card ≤ 2 ^ 57 := by
    refine (Finset.card_le_card (t := Finset.range (2 ^ 57)) fun i hi => ?_).trans
      (Finset.card_range _).le
    rw [Finset.mem_range]
    obtain hi | hi := Finset.mem_union.mp hi
    · exact (hbelow i hi).trans_lt (hle.trans_lt hbound)
    · exact (Finset.mem_Icc.mp hi).2.trans_lt hbound
  have hnew := h.first_new_iff (show ∀ i ∈ pages.image (· / 512 ^ k),
    i ≤ (base / level.tableManSize).toNat by rwa [hfirst])
  rw [hfirst] at hnew
  have hdiff : ((last - 1) / level.tableManSize - base / level.tableManSize).toNat =
      (last.toNat - 1) / 2 ^ (12 + 9 * k) - base.toNat / 2 ^ (12 + 9 * k) := by
    rw [UInt64.toNat_sub_of_le _ _ (UInt64.le_iff_toNat_le.mpr (by rwa [hfirst, hend])),
      hfirst, hend]
  have hone : (1 : UInt64).toNat = 1 := rfl
  constructor
  · exact h.tableManSize
  · rw [himage, hcard]
    rw [hcard] at hsmall
    rw [Boot.countRange]
    dsimp only
    by_cases hmem : base.toNat / 2 ^ (12 + 9 * k) ∈ pages.image (· / 512 ^ k)
    · rw [if_pos hmem] at hsmall ⊢
      rw [if_neg (hnew.not.mpr (not_not.mpr hmem)), UInt64.toNat_add, hdiff, h.numTables]
      omega
    · rw [if_neg hmem] at hsmall ⊢
      rw [if_pos (hnew.mpr hmem), UInt64.toNat_add, UInt64.toNat_add, hdiff, h.numTables, hone]
      omega
  · rw [himage]
    intro i hi
    show i ≤ ((last - 1) / level.tableManSize).toNat
    rw [hend]
    obtain hi | hi := Finset.mem_union.mp hi
    · exact (hbelow i hi).trans hle
    · exact (Finset.mem_Icc.mp hi).2
  · intro _
    show ((last - 1) / level.tableManSize).toNat ∈ _
    rw [himage, hend]
    exact Finset.mem_union_right _ (Finset.mem_Icc.mpr ⟨hle, le_rfl⟩)

end Counting

section Visits

variable {findNext : UInt64 → Option (UInt64 × UInt64)} {address : UInt64}
variable {visited : List (UInt64 × UInt64)} {pages : Finset Nat}

/-- The ranges that a calculator finds one after another. -/
inductive Visits (findNext : UInt64 → Option (UInt64 × UInt64)) :
    UInt64 → List (UInt64 × UInt64) → Prop
  | done {address : UInt64} (hnone : findNext address = none) : Visits findNext address []
  | next {address : UInt64} {range : UInt64 × UInt64} {rest : List (UInt64 × UInt64)}
      (hfind : findNext address = some range) (hrest : Visits findNext range.2 rest) :
      Visits findNext address (range :: rest)

/-- The counters after some ranges. -/
def countRanges (visited : List (UInt64 × UInt64)) (levels : List LevelCount) :
    List LevelCount :=
  visited.foldl (fun levels range => levels.map (countRange range.1 range.2)) levels

theorem Visits.forever
    (h : Visits findNext address visited) (levels : List LevelCount) :
    forever (calculateSizePass findNext) (visited.length + 1) (address, levels) =
      some (countRanges visited levels) := by
  induction h generalizing levels with
  | done hnone =>
      refine forever_leave ?_ 0
      rw [calculateSizePass, hnone]
      rfl
  | next hfind hrest ih =>
      rename_i address range rest
      have hpass : calculateSizePass findNext (address, levels) =
          .again (range.2, levels.map (countRange range.1 range.2)) := by
        rw [calculateSizePass, hfind]
      exact (forever_again hpass _).trans (ih _)

/-- A range of words as a range of numbers. -/
def wordRange (range : UInt64 × UInt64) : Nat × Nat :=
  (range.1.toNat, range.2.toNat)

/-- Ranges that the counters can take: in order, and not too high. -/
structure Countable (visited : List (UInt64 × UInt64)) : Prop where
  nonempty : ∀ range ∈ visited, range.1.toNat < range.2.toNat
  below : ∀ range ∈ visited, range.2.toNat ≤ 2 ^ 57
  ascending : visited.Pairwise fun a b => a.2.toNat ≤ b.1.toNat

/-- All levels count the tables of the ranges. -/
theorem countRanges_counts
    (hvisited : Countable visited) {ks : List Nat} {levels : List LevelCount}
    (hcounts : List.Forall₂ (fun k level => Counts k pages level) ks levels)
    (hpages : ∀ range ∈ visited, ∀ p ∈ pages, p ≤ range.1.toNat / 4096) :
    List.Forall₂
      (fun k level => Counts k (pages ∪ pagesOfRanges (visited.map wordRange)) level) ks
      (countRanges visited levels) := by
  induction visited generalizing pages levels with
  | nil =>
      rw [show pagesOfRanges (List.map wordRange []) = ∅ from rfl, Finset.union_empty]
      exact hcounts
  | cons range visited ih =>
      obtain ⟨hne, hbelow, hasc⟩ := hvisited
      rw [List.forall_mem_cons] at hne hbelow hpages
      rw [List.pairwise_cons] at hasc
      have hunion : pagesOfRanges ((range :: visited).map wordRange) =
          pagesOf range.1.toNat range.2.toNat ∪ pagesOfRanges (visited.map wordRange) := by
        unfold pagesOfRanges
        rw [List.map_cons, List.toFinset_cons, Finset.biUnion_insert]
        rfl
      have hstep : List.Forall₂
          (fun k level => Counts k (pages ∪ pagesOf range.1.toNat range.2.toNat) level) ks
          (levels.map (countRange range.1 range.2)) := by
        rw [List.forall₂_map_right_iff]
        exact hcounts.imp fun k level h => h.countRange hne.1 hbelow.1 hpages.1
      rw [hunion, ← Finset.union_assoc]
      refine ih ⟨hne.2, hbelow.2, hasc.2⟩ hstep ?_
      intro range' hr p hp
      obtain hp | hp := Finset.mem_union.mp hp
      · exact hpages.2 range' hr p hp
      · have hend := (mem_pagesOf.mp hp).2.1
        have hle := hasc.1 range' hr
        omega

theorem counts_numTables {ks : List Nat} {levels : List LevelCount}
    (hcounts : List.Forall₂ (fun k level => Counts k pages level) ks levels) :
    levels.map (UInt64.toNat ∘ LevelCount.numTables) =
      ks.map fun k => (pages.image (· / 512 ^ k)).card := by
  induction hcounts with
  | nil =>
      rfl
  | cons h _ ih =>
      rw [List.map_cons, List.map_cons, ih, Function.comp_apply, h.numTables]

/-- A sum of words that does not overflow. -/
theorem sum_toNat
    (words : List UInt64)
    (h : (words.map UInt64.toNat).sum < 2 ^ 64) :
    words.sum.toNat = (words.map UInt64.toNat).sum := by
  induction words with
  | nil =>
      rfl
  | cons word words ih =>
      rw [List.map_cons, List.sum_cons] at h ⊢
      rw [List.sum_cons, UInt64.toNat_add, ih (by omega)]
      exact Nat.mod_eq_of_lt h

/-- A level of tables has at most `2 ^ 36` of them. -/
theorem card_image_le
    {k : Nat} (hk : 1 ≤ k) (hpages : ∀ p ∈ pages, p < 2 ^ 45) :
    (pages.image (· / 512 ^ k)).card ≤ 2 ^ 36 := by
  refine (Finset.card_le_card (t := Finset.range (2 ^ 36)) fun i hi => ?_).trans
    (Finset.card_range _).le
  obtain ⟨p, hp, rfl⟩ := Finset.mem_image.mp hi
  have hlt := hpages p hp
  have hpow : 512 ≤ 512 ^ k := Nat.le_self_pow (by omega) 512
  rw [Finset.mem_range]
  calc p / 512 ^ k ≤ p / 512 := Nat.div_le_div_left hpow (by decide)
    _ < 2 ^ 36 := by omega

/-- No page map takes more tables. -/
theorem tablesNeeded_le
    {levels : Nat} (hlevels : levels ≤ 5) (hpages : ∀ p ∈ pages, p < 2 ^ 45) :
    tablesNeeded levels pages ≤ 4 * 2 ^ 36 + 1 := by
  refine Nat.succ_le_succ ((List.sum_le_card_nsmul _ (2 ^ 36) ?_).trans ?_)
  · intro n hn
    obtain ⟨k, hk, rfl⟩ := List.mem_map.mp hn
    exact card_image_le (List.mem_range'_1.mp hk).1 hpages
  · rw [List.length_map, List.length_range', nsmul_eq_mul, Nat.cast_id]
    exact Nat.mul_le_mul_right _ (by omega)

theorem mem_pagesOfRanges_lt
    (hvisited : Countable visited) :
    ∀ p ∈ pagesOfRanges (visited.map wordRange), p < 2 ^ 45 := by
  intro p hp
  obtain ⟨_, hmem, hp⟩ := mem_pagesOfRanges.mp hp
  obtain ⟨range, hr, rfl⟩ := List.mem_map.mp hmem
  have hbelow := hvisited.below range hr
  have hend : p * 4096 < range.2.toNat := (mem_pagesOf.mp hp).2.1
  omega

/-- The calculated size, when the ranges are visited in order. -/
theorem calculatePageMapSize_returns {levels : Nat} {sizes : List UInt64}
    (hlevels : levels ≤ 5)
    (hsizes : List.Forall₂ (fun k (size : UInt64) => size.toNat = 2 ^ (12 + 9 * k))
      (List.range' 1 (levels - 1)) sizes)
    (hvisits : Visits findNext 0 visited) (hvisited : Countable visited) :
    ∃ size, Returns (calculatePageMapSize findNext sizes) size ∧
      size.toNat = 4096 * tablesNeeded levels (pagesOfRanges (visited.map wordRange)) := by
  set start := sizes.map fun size => (⟨size, 0, 0⟩ : LevelCount) with hstart
  have hzero : List.Forall₂ (fun k level => Counts k ∅ level) (List.range' 1 (levels - 1))
      start := by
    rw [hstart, List.forall₂_map_right_iff]
    exact hsizes.imp fun k size h => ⟨h, by simp, by simp, by simp⟩
  have hcounts := countRanges_counts hvisited hzero (by simp)
  rw [Finset.empty_union] at hcounts
  set pages := pagesOfRanges (visited.map wordRange)
  refine ⟨_, ((forever_returns (hvisits.forever start)).map _), ?_⟩
  have hmap : ((countRanges visited start).map LevelCount.numTables).map UInt64.toNat =
      (List.range' 1 (levels - 1)).map fun k => (pages.image (· / 512 ^ k)).card := by
    rw [List.map_map]
    exact counts_numTables hcounts
  have hsum : tablesNeeded levels pages ≤ 4 * 2 ^ 36 + 1 :=
    tablesNeeded_le hlevels (mem_pagesOfRanges_lt hvisited)
  rw [tablesNeeded] at hsum ⊢
  have htables := sum_toNat ((countRanges visited start).map LevelCount.numTables)
    (by rw [hmap]; omega)
  rw [hmap] at htables
  rw [UInt64.toNat_mul, UInt64.toNat_add, htables,
    show (1 : UInt64).toNat = 1 from rfl, show (4096 : UInt64).toNat = 4096 from rfl]
  omega

end Visits

section Search

/-- The included descriptors as ranges of words. -/
def includedWords (shouldInclude : EfiMemoryType → UInt64 → Bool)
    (map : List EfiMemoryDescriptor) : List (UInt64 × UInt64) :=
  (map.filter fun d => shouldInclude d.type d.attributes).map fun d => (d.physicalStart, mapMax d)

/-- The lowest range that starts at an address or above it. -/
def lowestRange (address : UInt64) (ranges : List (UInt64 × UInt64)) :
    Option (UInt64 × UInt64) :=
  lowestFrom (fun range => range.1.toNat) address.toNat ranges

/-- The scan over the descriptors picks the lowest included one. -/
theorem foldl_considerRange (shouldInclude : EfiMemoryType → UInt64 → Bool)
    (map : List EfiMemoryDescriptor) (minAddress : UInt64) :
    map.foldl (considerRange shouldInclude minAddress) none =
      lowestRange minAddress (includedWords shouldInclude map) := by
  rw [lowestRange, lowestFrom, includedWords, List.foldl_map, List.foldl_filter]
  refine List.foldl_ext _ _ _ fun range d _ => ?_
  rw [considerRange, pickLower]
  by_cases hincluded : shouldInclude d.type d.attributes = true
  · simp only [hincluded, true_and, if_true, UInt64.le_iff_toNat_le, UInt64.lt_iff_toNat_lt]
  · simp only [hincluded, false_and, if_false, Bool.false_eq_true]

/-- The framebuffer takes part in the scan as one more range, when it lies apart from the
others. -/
theorem findNextMemoryRange_eq (map : List EfiMemoryDescriptor)
    (framebufferBase framebufferSize minAddress : UInt64)
    (hapart : ∀ range ∈ includedWords shouldIncludeInPageMap map,
      framebufferBase < range.2 ↔ framebufferBase < range.1) :
    findNextMemoryRange map framebufferBase framebufferSize minAddress =
      lowestRange minAddress (includedWords shouldIncludeInPageMap map ++
        [(framebufferBase, framebufferBase + framebufferSize)]) := by
  rw [findNextMemoryRange, foldl_considerRange, lowestRange, lowestRange, lowestFrom_concat,
    pickLower]
  refine if_congr ?_ rfl rfl
  refine and_congr UInt64.le_iff_toNat_le ?_
  cases hpick : lowestFrom (fun range => range.1.toNat) minAddress.toNat
      (includedWords shouldIncludeInPageMap map) with
  | none =>
      rfl
  | some range =>
      rw [Option.all_some, Option.all_some, decide_eq_true_iff, decide_eq_true_iff,
        ← UInt64.lt_iff_toNat_lt]
      exact hapart range (lowestFrom_spec _ hpick).1

/-- Nonempty ranges apart from each other are visited in order. -/
theorem visits_of_lowestRange
    {findNext : UInt64 → Option (UInt64 × UInt64)} {ranges : List (UInt64 × UInt64)}
    (hfind : ∀ address, (address = 0 ∨ ∃ range ∈ ranges, range.2 = address) →
      findNext address = lowestRange address ranges)
    (hne : ∀ range ∈ ranges, range.1.toNat < range.2.toNat)
    (hapart : ranges.Pairwise
      fun a b => a.2.toNat ≤ b.1.toNat ∨ b.2.toNat ≤ a.1.toNat) :
    ∃ visited, visited.Perm ranges ∧
      (visited.Pairwise fun a b => a.2.toNat ≤ b.1.toNat) ∧ Visits findNext 0 visited := by
  obtain ⟨visited, hperm, hasc⟩ := exists_ascending_perm
    (fun range : UInt64 × UInt64 => range.1.toNat) (fun range => range.2.toNat) hne hapart
  refine ⟨visited, hperm, hasc, ?_⟩
  suffices h : ∀ done todo (address : UInt64), visited = done ++ todo →
      (address = 0 ∨ ∃ range ∈ ranges, range.2 = address) →
      (∀ range ∈ done, range.1.toNat < address.toNat) →
      (∀ range ∈ todo, address.toNat ≤ range.1.toNat) → Visits findNext address todo from
    h [] visited 0 rfl (.inl rfl) (by simp) (by simp)
  intro done todo
  induction todo generalizing done with
  | nil =>
      intro address heq haddress hdone _
      rw [List.append_nil] at heq
      subst heq
      exact .done ((hfind address haddress).trans (lowestFrom_ascending_end _ hperm hdone))
  | cons range todo ih =>
      intro address heq haddress hdone htodo
      subst heq
      have hfound : findNext address = some range :=
        (hfind address haddress).trans (lowestFrom_ascending _ hne hperm hasc hdone
          (htodo range (List.mem_cons_self ..)))
      have hmem : range ∈ ranges := hperm.mem_iff.mp (by simp)
      have hrange := hne range hmem
      have hbefore := List.pairwise_append.mp hasc
      refine .next hfound (ih (done ++ [range]) range.2 (by simp) (.inr ⟨range, hmem, rfl⟩) ?_ ?_)
      · intro range' hr
        obtain hr | hr := List.mem_append.mp hr
        · have hle := hbefore.2.2 range' hr range (List.mem_cons_self ..)
          have hlt := hne range' (hperm.mem_iff.mp (List.mem_append_left _ hr))
          omega
        · obtain rfl := List.mem_singleton.mp hr
          exact hrange
      · exact (List.pairwise_cons.mp hbefore.2.1).1

end Search

section Exact

namespace PageMapKind

variable {kind : PageMapKind} {map : List EfiMemoryDescriptor}
variable {framebufferBase framebufferSize : UInt64}

/-- The framebuffer as the calculators compute it. -/
def framebufferWords (framebufferBase framebufferSize : UInt64) :
    PageMapKind → List (UInt64 × UInt64)
  | initial4 => [(framebufferBase, framebufferBase + framebufferSize)]
  | transitional4 => []
  | initial5 => [(framebufferBase, framebufferBase + framebufferSize)]

/-- The ranges as the calculators compute them. -/
def words (kind : PageMapKind) (map : List EfiMemoryDescriptor)
    (framebufferBase framebufferSize : UInt64) : List (UInt64 × UInt64) :=
  includedWords kind.shouldInclude map ++ kind.framebufferWords framebufferBase framebufferSize

/-- The search. -/
def findNext (map : List EfiMemoryDescriptor) (framebufferBase framebufferSize : UInt64) :
    PageMapKind → UInt64 → Option (UInt64 × UInt64)
  | initial4 => findNextMemoryRange map framebufferBase framebufferSize
  | transitional4 => findNextMemoryRangeTransitional map
  | initial5 => findNextMemoryRange map framebufferBase framebufferSize

/-- `managedMemorySizePerTableLevel`. -/
def managedSizes : PageMapKind → List UInt64
  | initial4 =>
      [level1PageTableManagedBytes, level2PageTableManagedBytes, level3PageTableManagedBytes]
  | transitional4 =>
      [level1PageTableManagedBytes, level2PageTableManagedBytes, level3PageTableManagedBytes]
  | initial5 =>
      [level1PageTableManagedBytes, level2PageTableManagedBytes, level3PageTableManagedBytes,
        level4PageTableManagedBytes]

theorem calculateSize_eq (kind : PageMapKind) (map : List EfiMemoryDescriptor)
    (framebufferBase framebufferSize : UInt64) :
    kind.calculateSize map framebufferBase framebufferSize =
      calculatePageMapSize (kind.findNext map framebufferBase framebufferSize)
        kind.managedSizes := by
  cases kind with
  | initial4 => rfl
  | transitional4 => rfl
  | initial5 => rfl

theorem managedSizes_toNat (kind : PageMapKind) :
    List.Forall₂ (fun k (size : UInt64) => size.toNat = 2 ^ (12 + 9 * k))
      (List.range' 1 (kind.levels - 1)) kind.managedSizes := by
  cases kind with
  | initial4 => exact .cons rfl (.cons rfl (.cons rfl .nil))
  | transitional4 => exact .cons rfl (.cons rfl (.cons rfl .nil))
  | initial5 => exact .cons rfl (.cons rfl (.cons rfl (.cons rfl .nil)))

/-- Ranges that fit are computed exactly. -/
theorem words_eq
    (hbelow : ∀ range ∈ kind.ranges map framebufferBase framebufferSize,
      range.2 ≤ 2 ^ (12 + 9 * kind.levels)) :
    (kind.words map framebufferBase framebufferSize).map wordRange =
      kind.ranges map framebufferBase framebufferSize := by
  have hlimit := kind.limit_lt_word
  have hincluded : (includedWords kind.shouldInclude map).map wordRange =
      (map.filter fun d => kind.shouldInclude d.type d.attributes).map
        fun d => (d.start, d.stop) := by
    rw [includedWords, List.map_map]
    refine List.map_congr_left fun d hd => ?_
    have hmem := List.mem_map_of_mem (f := fun d => (d.start, d.stop)) hd
    have hstop := (hbelow _ (List.mem_append_left _ hmem)).trans_lt hlimit
    exact Prod.ext rfl (mapMax_toNat hstop)
  have hsum (h : framebufferBase.toNat + framebufferSize.toNat ≤ 2 ^ (12 + 9 * kind.levels)) :
      wordRange (framebufferBase, framebufferBase + framebufferSize) =
        (framebufferBase.toNat, framebufferBase.toNat + framebufferSize.toNat) := by
    rw [wordRange, UInt64.toNat_add, Nat.mod_eq_of_lt (h.trans_lt hlimit)]
  rw [words, ranges, List.map_append, hincluded]
  congr 1
  have hframebuffer : ∀ range ∈ kind.framebuffer framebufferBase framebufferSize,
      range.2 ≤ 2 ^ (12 + 9 * kind.levels) :=
    fun range hr => hbelow range (List.mem_append_right _ hr)
  cases kind with
  | initial4 =>
      exact congrArg (fun range => [range]) (hsum (hframebuffer _ (List.mem_singleton_self _)))
  | transitional4 => rfl
  | initial5 =>
      exact congrArg (fun range => [range]) (hsum (hframebuffer _ (List.mem_singleton_self _)))

/-- The search among ranges apart from each other. -/
theorem findNext_eq
    (hne : ∀ range ∈ kind.words map framebufferBase framebufferSize,
      range.1.toNat < range.2.toNat)
    (hapart : (kind.words map framebufferBase framebufferSize).Pairwise
      fun a b => a.2.toNat ≤ b.1.toNat ∨ b.2.toNat ≤ a.1.toNat) (address : UInt64) :
    kind.findNext map framebufferBase framebufferSize address =
      lowestRange address (kind.words map framebufferBase framebufferSize) := by
  have happend := (List.pairwise_append.mp hapart).2.2
  have hcompare (hf : (framebufferBase, framebufferBase + framebufferSize) ∈
      kind.framebufferWords framebufferBase framebufferSize) :
      ∀ range ∈ includedWords kind.shouldInclude map,
        framebufferBase < range.2 ↔ framebufferBase < range.1 := by
    intro range hr
    have hrange := hne range (List.mem_append_left _ hr)
    have hframebuffer := hne _ (List.mem_append_right _ hf)
    have happart := happend range hr _ hf
    rw [UInt64.lt_iff_toNat_lt, UInt64.lt_iff_toNat_lt]
    dsimp only at hframebuffer happart
    omega
  cases kind with
  | initial4 =>
      exact findNextMemoryRange_eq map _ _ address (hcompare (List.mem_singleton_self _))
  | transitional4 =>
      rw [words, framebufferWords, List.append_nil]
      exact foldl_considerRange _ map address
  | initial5 =>
      exact findNextMemoryRange_eq map _ _ address (hcompare (List.mem_singleton_self _))

/-- What the calculator returns for ranges apart from each other. -/
theorem calculateSize_returns
    (hne : ∀ range ∈ kind.ranges map framebufferBase framebufferSize, range.1 < range.2)
    (hapart : (kind.ranges map framebufferBase framebufferSize).Pairwise
      fun a b => a.2 ≤ b.1 ∨ b.2 ≤ a.1)
    (hbelow : ∀ range ∈ kind.ranges map framebufferBase framebufferSize,
      range.2 ≤ 2 ^ (12 + 9 * kind.levels)) :
    ∃ size, Returns (kind.calculateSize map framebufferBase framebufferSize) size ∧
      size.toNat = 4096 * tablesNeeded kind.levels
        (pagesOfRanges (kind.ranges map framebufferBase framebufferSize)) := by
  have hwords := words_eq hbelow
  rw [← hwords] at hne hapart hbelow
  rw [List.pairwise_map] at hapart
  rw [List.forall_mem_map] at hne hbelow
  obtain ⟨visited, hperm, hasc, hvisits⟩ := visits_of_lowestRange
    (fun address _ => findNext_eq hne hapart address) hne hapart
  have hlimit : 2 ^ (12 + 9 * kind.levels) ≤ 2 ^ 57 :=
    Nat.pow_le_pow_right (by decide) (by have := kind.levels_le; omega)
  obtain ⟨size, hreturns, hsize⟩ := calculatePageMapSize_returns kind.levels_le
    kind.managedSizes_toNat hvisits
    ⟨fun range hr => hne range (hperm.mem_iff.mp hr),
      fun range hr => (hbelow range (hperm.mem_iff.mp hr)).trans hlimit, hasc⟩
  refine ⟨size, ?_, ?_⟩
  · rwa [calculateSize_eq]
  · rw [hsize, ← hwords]
    congr 2
    ext p
    simp only [mem_pagesOfRanges, List.mem_map, hperm.mem_iff]

/-- Ranges that fit need the tables of all their pages. -/
theorem tablesForRanges_eq
    (hbelow : ∀ range ∈ kind.ranges map framebufferBase framebufferSize,
      range.2 ≤ 2 ^ (12 + 9 * kind.levels)) :
    tablesForRanges kind.levels (kind.ranges map framebufferBase framebufferSize) =
      tablesNeeded kind.levels
        (pagesOfRanges (kind.ranges map framebufferBase framebufferSize)) := by
  rw [tablesForRanges, leavesOf_eq (pagesOfRanges_lt hbelow)]

end PageMapKind

/-- On ranges apart from each other the calculated size is exactly what the setup function
takes: it succeeds with a buffer of that size, uses it up, and fails with any smaller one. -/
theorem calculateSize_exact
    (kind : PageMapKind) (map : List EfiMemoryDescriptor)
    (framebufferBase framebufferSize : UInt64)
    (hne : ∀ range ∈ kind.ranges map framebufferBase framebufferSize, range.1 < range.2)
    (hapart : (kind.ranges map framebufferBase framebufferSize).Pairwise
      fun a b => a.2 ≤ b.1 ∨ b.2 ≤ a.1)
    (hbelow : ∀ range ∈ kind.ranges map framebufferBase framebufferSize,
      range.2 ≤ 2 ^ (12 + 9 * kind.levels)) :
    ∃ size, Returns (kind.calculateSize map framebufferBase framebufferSize) size ∧
      ∀ (buffer : Nat) (memory : Nat → Nat), 0 < buffer → buffer % 4096 = 0 →
        (buffer + size.toNat ≤ 2 ^ 64 →
          (kind.setup map framebufferBase framebufferSize buffer size.toNat memory).1 ≠ 0 ∧
          (kind.setup map framebufferBase framebufferSize buffer size.toNat memory).2.next =
            buffer + size.toNat) ∧
        ∀ smaller < size.toNat, buffer + smaller ≤ 2 ^ 64 →
          (kind.setup map framebufferBase framebufferSize buffer smaller memory).1 = 0 := by
  obtain ⟨size, hreturns, hsize⟩ := PageMapKind.calculateSize_returns hne hapart hbelow
  have hword : ∀ range ∈ kind.ranges map framebufferBase framebufferSize, range.2 < 2 ^ 64 :=
    fun range hr => (hbelow range hr).trans_lt kind.limit_lt_word
  rw [← PageMapKind.tablesForRanges_eq hbelow] at hsize
  refine ⟨size, hreturns, fun buffer memory hpos halign => ⟨fun hbuffer => ?_, ?_⟩⟩
  · obtain ⟨-, hroot, hnext⟩ | ⟨hlt, -⟩ :=
      PageMapKind.setup_consumes hword halign hbuffer memory
    · rw [hroot, hnext, hsize]
      exact ⟨hpos.ne', rfl⟩
    · exact absurd hsize hlt.ne
  · intro smaller hlt hbuffer
    obtain ⟨hle, -⟩ | ⟨-, hroot⟩ := PageMapKind.setup_consumes hword halign hbuffer memory
    · omega
    · exact hroot

/-- One page of conventional memory and one of the framebuffer, in the 5-level map. -/
theorem calculateSize_exact_two_pages :
    ∃ size, Returns (PageMapKind.initial5.calculateSize
        [⟨.conventionalMemory, 0x100000, 1, efiMemoryWB⟩] 0xE0000000 0x1000) size ∧
      ∀ (buffer : Nat) (memory : Nat → Nat), 0 < buffer → buffer % 4096 = 0 →
        (buffer + size.toNat ≤ 2 ^ 64 →
          (PageMapKind.initial5.setup [⟨.conventionalMemory, 0x100000, 1, efiMemoryWB⟩]
            0xE0000000 0x1000 buffer size.toNat memory).1 ≠ 0 ∧
          (PageMapKind.initial5.setup [⟨.conventionalMemory, 0x100000, 1, efiMemoryWB⟩]
            0xE0000000 0x1000 buffer size.toNat memory).2.next = buffer + size.toNat) ∧
        ∀ smaller < size.toNat, buffer + smaller ≤ 2 ^ 64 →
          (PageMapKind.initial5.setup [⟨.conventionalMemory, 0x100000, 1, efiMemoryWB⟩]
            0xE0000000 0x1000 buffer smaller memory).1 = 0 :=
  calculateSize_exact .initial5 _ _ _ (by decide) (by decide) (by decide)

end Exact

end Boot
end DexprOS
