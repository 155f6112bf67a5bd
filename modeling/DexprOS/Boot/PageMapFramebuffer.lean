import DexprOS.Boot.PageMapSize

/-!
# The framebuffer in the size calculation

The scan for the next range takes the framebuffer in with a comparison of its own: the
framebuffer comes first as soon as it starts below the end of the lowest descriptor.  The scan
then goes on at the end of the framebuffer and never sees the descriptors that overlap it.

Main facts:
* `findNextMemoryRange_live`: the scan sees the framebuffer and the descriptors apart from it;
* `calculatePageMapSize_hangs`: an empty range that is picked is picked for ever;
* `calculateInitialPageMap4Size_suffices_iff`: exactly when the calculated size is enough.
-/

namespace DexprOS
namespace Boot

open Efi Fuel Radix LowestFirst

section Scan

variable {words : List (UInt64 × UInt64)} {extra : UInt64 × UInt64}
variable {address : UInt64}

/-- The scan with the framebuffer as the range `extra`. -/
def scanNext (words : List (UInt64 × UInt64)) (extra : UInt64 × UInt64) (address : UInt64) :
    Option (UInt64 × UInt64) :=
  if address ≤ extra.1 ∧
      (lowestRange address words).all (fun range => decide (extra.1 < range.2)) then
    some extra
  else lowestRange address words

theorem findNextMemoryRange_eq_scanNext (map : List EfiMemoryDescriptor)
    (framebufferBase framebufferSize : UInt64) :
    findNextMemoryRange map framebufferBase framebufferSize =
      scanNext (includedWords shouldIncludeInPageMap map)
        (framebufferBase, framebufferBase + framebufferSize) := by
  funext minAddress
  rw [findNextMemoryRange, foldl_considerRange]
  rfl

/-- Nonempty, and apart from the framebuffer. -/
def Live (extra range : UInt64 × UInt64) : Prop :=
  range.1.toNat < range.2.toNat ∧
    (range.2.toNat ≤ extra.1.toNat ∨ extra.2.toNat ≤ range.1.toNat)

instance (extra range : UInt64 × UInt64) : Decidable (Live extra range) :=
  inferInstanceAs (Decidable (_ ∧ _))

/-- Ranges of which the nonempty ones are apart. -/
structure Apart (words : List (UInt64 × UInt64)) : Prop where
  le : ∀ range ∈ words, range.1.toNat ≤ range.2.toNat
  pairwise : words.Pairwise fun a b => a.1.toNat < a.2.toNat → b.1.toNat < b.2.toNat →
    a.2.toNat ≤ b.1.toNat ∨ b.2.toNat ≤ a.1.toNat

/-- Two nonempty ranges are equal or apart. -/
theorem Apart.apart
    (hwords : Apart words) {a b : UInt64 × UInt64} (ha : a ∈ words) (hb : b ∈ words)
    (hane : a.1.toNat < a.2.toNat) (hbne : b.1.toNat < b.2.toNat) :
    a = b ∨ a.2.toNat ≤ b.1.toNat ∨ b.2.toNat ≤ a.1.toNat := by
  have hsymm : Std.Symm fun a b : UInt64 × UInt64 =>
      a.1.toNat < a.2.toNat → b.1.toNat < b.2.toNat →
        a.2.toNat ≤ b.1.toNat ∨ b.2.toNat ≤ a.1.toNat :=
    ⟨fun _ _ h hb ha => (h ha hb).symm⟩
  by_cases heq : a = b
  · exact .inl heq
  · exact .inr (List.Pairwise.forall hwords.pairwise ha hb heq hane hbne)

/-- The scan passes over an empty range: it lies inside the framebuffer, another range
with the same start comes before it, or it lies inside another range from which the scan
goes on behind it. -/
def PassedOver (words : List (UInt64 × UInt64)) (extra : UInt64 × UInt64)
    (before : List (UInt64 × UInt64)) (x : Nat) : Prop :=
  (extra.1.toNat < x ∧ x < extra.2.toNat) ∨
  (∃ range ∈ before, range.1.toNat = x ∧ x < range.2.toNat) ∨
  ∃ range ∈ words, range.1.toNat < x ∧ x < range.2.toNat ∧
    (Live extra range ∨ x ≤ extra.1.toNat)

/-- All empty ranges are passed over. -/
def EmptyPassedOver (words : List (UInt64 × UInt64)) (extra : UInt64 × UInt64) : Prop :=
  ∀ before range after, words = before ++ range :: after → range.1 = range.2 →
    PassedOver words extra before range.1.toNat

/-- The ranges that the scan sees. -/
def seen (words : List (UInt64 × UInt64)) (extra : UInt64 × UInt64) :
    List (UInt64 × UInt64) :=
  words.filter (fun range => decide (Live extra range)) ++ [extra]

theorem mem_seen
    {range : UInt64 × UInt64} :
    range ∈ seen words extra ↔ (range ∈ words ∧ Live extra range) ∨ range = extra := by
  simp [seen]

theorem seen_nonempty
    (hextra : extra.1.toNat < extra.2.toNat) {range : UInt64 × UInt64}
    (hr : range ∈ seen words extra) :
    range.1.toNat < range.2.toNat := by
  obtain ⟨-, hlive⟩ | rfl := mem_seen.mp hr
  · exact hlive.1
  · exact hextra

/-- The seen ranges are apart. -/
theorem seen_apart
    (hwords : Apart words) {a b : UInt64 × UInt64}
    (ha : a ∈ seen words extra) (hb : b ∈ seen words extra) :
    a = b ∨ a.2.toNat ≤ b.1.toNat ∨ b.2.toNat ≤ a.1.toNat := by
  obtain ⟨ha, halive⟩ | rfl := mem_seen.mp ha
  · obtain ⟨hb, hblive⟩ | rfl := mem_seen.mp hb
    · exact hwords.apart ha hb halive.1 hblive.1
    · exact .inr halive.2
  · obtain ⟨-, hblive⟩ | rfl := mem_seen.mp hb
    · exact .inr hblive.2.symm
    · exact .inl rfl

theorem seen_pairwise
    (hwords : Apart words) :
    (seen words extra).Pairwise
      fun a b => a.2.toNat ≤ b.1.toNat ∨ b.2.toNat ≤ a.1.toNat := by
  refine List.pairwise_append.mpr ⟨?_, List.pairwise_singleton _ _, ?_⟩
  · refine (hwords.pairwise.filter _).imp_of_mem fun {a b} ha hb hab => ?_
    have halive : Live extra a := of_decide_eq_true (List.mem_filter.mp ha).2
    have hblive : Live extra b := of_decide_eq_true (List.mem_filter.mp hb).2
    exact hab halive.1 hblive.1
  · intro a ha b hb
    obtain rfl := List.mem_singleton.mp hb
    have halive : Live b a := of_decide_eq_true (List.mem_filter.mp ha).2
    exact halive.2

/-- Where the scan goes on. -/
def ScanPoint (words : List (UInt64 × UInt64)) (extra : UInt64 × UInt64) (address : UInt64) :
    Prop :=
  address = 0 ∨ ∃ range ∈ seen words extra, range.2 = address

/-- A seen range lies behind the scan or before it. -/
theorem ScanPoint.behind_or_before
    (hwords : Apart words) (hextra : extra.1.toNat < extra.2.toNat)
    (haddress : ScanPoint words extra address) {range : UInt64 × UInt64}
    (hr : range ∈ seen words extra) :
    range.2.toNat ≤ address.toNat ∨ address.toNat ≤ range.1.toNat := by
  obtain rfl | ⟨last, hlast, rfl⟩ := haddress
  · exact .inr (Nat.zero_le _)
  · have hne := seen_nonempty hextra hlast
    obtain rfl | hle | hle := seen_apart hwords hr hlast
    · exact .inl le_rfl
    · exact .inl (hle.trans hne.le)
    · exact .inr hle

/-- An empty range that is the lowest one lies inside the framebuffer. -/
theorem lowest_empty_inside
    (hwords : Apart words) (hextra : extra.1.toNat < extra.2.toNat)
    (hempty : EmptyPassedOver words extra) (haddress : ScanPoint words extra address)
    {range : UInt64 × UInt64}
    (hlowest : lowestRange address words = some range) (heq : range.1 = range.2) :
    extra.1.toNat < range.1.toNat ∧ range.1.toNat < extra.2.toNat := by
  obtain ⟨-, hle, hmin⟩ := lowestFrom_spec _ hlowest
  obtain ⟨before, after, hsplit, hfirst⟩ := lowestFrom_split _ hlowest
  obtain hinside | ⟨other, hother, hstart, -⟩ | ⟨other, hother, hlo, hhi, hwhy⟩ :=
    hempty before range after hsplit heq
  · exact hinside
  · have hlt := hfirst other hother (hstart ▸ hle)
    omega
  · -- the other range starts below the scan point, since the empty range is the lowest
    have hbelow : other.1.toNat < address.toNat := by
      by_contra hge
      have := hmin other hother (Nat.le_of_not_lt hge)
      omega
    obtain hlive | hx := hwhy
    · have hseen := haddress.behind_or_before hwords hextra (mem_seen.mpr (.inl ⟨hother, hlive⟩))
      omega
    · obtain rfl | ⟨last, hlast, rfl⟩ := haddress
      · exact absurd hbelow (Nat.not_lt_zero _)
      · obtain ⟨hlast, hlive⟩ | rfl := mem_seen.mp hlast
        · have hne := hlive.1
          obtain rfl | hapart | hapart :=
            hwords.apart hlast hother hne (hlo.trans hhi)
          · omega
          · omega
          · omega
        · omega

/-- The scan sees the framebuffer and the ranges apart from it. -/
theorem scanNext_eq_seen
    (hwords : Apart words) (hextra : extra.1.toNat < extra.2.toNat)
    (hempty : EmptyPassedOver words extra) (haddress : ScanPoint words extra address) :
    scanNext words extra address = lowestRange address (seen words extra) := by
  have hextraPoint := haddress.behind_or_before hwords hextra (mem_seen.mpr (.inr rfl))
  have hsame {a b : UInt64 × UInt64} (ha : a ∈ words) (hb : b ∈ words)
      (hane : a.1.toNat < a.2.toNat) (hbne : b.1.toNat < b.2.toNat)
      (hlo : a.1.toNat < b.2.toNat) (hhi : b.1.toNat < a.2.toNat) : a = b := by
    obtain heq | hle | hle := hwords.apart ha hb hane hbne
    · exact heq
    · omega
    · omega
  unfold scanNext
  split
  · rename_i hcond
    obtain ⟨hle, hall⟩ := hcond
    have hle : address.toNat ≤ extra.1.toNat := UInt64.le_iff_toNat_le.mp hle
    refine (lowestFrom_eq_some _ (mem_seen.mpr (.inr rfl)) hle ?_).symm
    intro range hr hge hlow
    obtain ⟨hr, hlive⟩ | heq := mem_seen.mp hr
    · -- a seen range below the framebuffer would have to share the lowest range's pages
      exfalso
      obtain ⟨hne, hside⟩ := hlive
      cases hlowest : lowestRange address words with
      | none =>
          have := (lowestFrom_eq_none_iff _ _ _).mp hlowest range hr
          omega
      | some lowest =>
          obtain ⟨hmem, -, hmin⟩ := lowestFrom_spec _ hlowest
          have hmin := hmin range hr hge
          rw [hlowest, Option.all_some, decide_eq_true_iff, UInt64.lt_iff_toNat_lt] at hall
          have heq := hsame hmem hr (by omega) hne (by omega) (by omega)
          subst heq
          omega
    · exact heq
  · rename_i hcond
    cases hlowest : lowestRange address words with
    | none =>
        refine ((lowestFrom_eq_none_iff _ _ _).mpr fun range hr => ?_).symm
        obtain ⟨hr, -⟩ | rfl := mem_seen.mp hr
        · exact (lowestFrom_eq_none_iff _ _ _).mp hlowest range hr
        · rw [hlowest] at hcond
          by_contra hge
          exact hcond ⟨UInt64.le_iff_toNat_le.mpr (Nat.le_of_not_lt hge), rfl⟩
    | some lowest =>
        obtain ⟨hmem, hge, hmin⟩ := lowestFrom_spec _ hlowest
        have hnot : address.toNat ≤ extra.1.toNat → lowest.2.toNat ≤ extra.1.toNat := by
          intro hle
          by_contra hlt
          refine hcond ⟨UInt64.le_iff_toNat_le.mpr hle, ?_⟩
          rw [hlowest, Option.all_some, decide_eq_true_iff, UInt64.lt_iff_toNat_lt]
          omega
        have hle := hwords.le lowest hmem
        have hne : lowest.1.toNat < lowest.2.toNat := by
          refine lt_of_le_of_ne hle fun heq => ?_
          have hinside := lowest_empty_inside hwords hextra hempty haddress hlowest
            (UInt64.toNat_inj.mp heq)
          omega
        have hlive : Live extra lowest := ⟨hne, by omega⟩
        refine (lowestFrom_eq_some _ (mem_seen.mpr (.inl ⟨hmem, hlive⟩)) hge ?_).symm
        intro range hr hrge hrlow
        obtain ⟨hr, hrlive⟩ | rfl := mem_seen.mp hr
        · have hrmin := hmin range hr hrge
          have hrne := hrlive.1
          exact hsame hr hmem hrne hne (by omega) (by omega)
        · omega

/-- Without the framebuffer's size the scan stays at its base. -/
theorem scanNext_empty_extra
    (hextra : extra.1 = extra.2) (haddress : address.toNat ≤ extra.1.toNat) :
    ∃ range, scanNext words extra address = some range ∧
      range.2.toNat ≤ extra.1.toNat := by
  unfold scanNext
  split
  · exact ⟨extra, rfl, by rw [hextra]⟩
  · rename_i hcond
    have hle : address ≤ extra.1 := UInt64.le_iff_toNat_le.mpr haddress
    cases hlowest : lowestRange address words with
    | none =>
        rw [hlowest] at hcond
        exact absurd ⟨hle, rfl⟩ hcond
    | some lowest =>
        rw [hlowest, Option.all_some, decide_eq_true_iff, UInt64.lt_iff_toNat_lt] at hcond
        exact ⟨lowest, rfl, Nat.le_of_not_lt fun hlt => hcond ⟨hle, hlt⟩⟩

/-- The scan never gets past an empty range that it does not pass over. -/
theorem scanNext_not_past
    (hwords : Apart words)
    {before after : List (UInt64 × UInt64)} {empty : UInt64 × UInt64}
    (hsplit : words = before ++ empty :: after) (heq : empty.1 = empty.2)
    (hnot : ¬ PassedOver words extra before empty.1.toNat)
    (haddress : address.toNat ≤ empty.1.toNat)
    (hside : address.toNat ≤ extra.1.toNat ∨ extra.2.toNat ≤ address.toNat) :
    ∃ range, scanNext words extra address = some range ∧
      range.2.toNat ≤ empty.1.toNat ∧
      (range.2.toNat ≤ extra.1.toNat ∨ extra.2.toNat ≤ range.2.toNat) := by
  unfold PassedOver at hnot
  push Not at hnot
  obtain ⟨hinside, hbefore, hwithin⟩ := hnot
  have hmem : empty ∈ words := by
    rw [hsplit]
    simp
  obtain ⟨lowest, hlowest⟩ : ∃ lowest, lowestRange address words = some lowest := by
    refine Option.ne_none_iff_exists'.mp fun hnone => ?_
    have := (lowestFrom_eq_none_iff _ _ _).mp hnone empty hmem
    omega
  obtain ⟨hlmem, hge, hmin⟩ := lowestFrom_spec _ hlowest
  have hlow := hmin empty hmem haddress
  have hle := hwords.le lowest hlmem
  -- a nonempty range with the same start would come before the empty one
  have hsame (hstart : lowest.1.toNat = empty.1.toNat) : lowest.2.toNat ≤ empty.1.toNat := by
    by_contra hlt
    have hne : lowest ≠ empty := by
      rintro rfl
      rw [← heq] at hlt
      exact hlt le_rfl
    rw [hsplit] at hlowest
    have hfirst := mem_before_of_lowestFrom _ hlowest haddress hstart hne
    exact hlt (hbefore lowest hfirst hstart)
  have hover (hlt : lowest.1.toNat < empty.1.toNat) (hend : empty.1.toNat < lowest.2.toNat) :
      extra.1.toNat < empty.1.toNat ∧
        extra.1.toNat < lowest.2.toNat ∧ lowest.1.toNat < extra.2.toNat := by
    obtain ⟨hlive, hx⟩ := hwithin lowest hlmem hlt hend
    unfold Live at hlive
    push Not at hlive
    have hoverlap := hlive (hlt.trans hend)
    exact ⟨hx, hoverlap⟩
  simp only [scanNext, hlowest, Option.all_some, decide_eq_true_iff, UInt64.lt_iff_toNat_lt,
    UInt64.le_iff_toNat_le]
  split
  · rename_i hcond
    refine ⟨extra, rfl, ?_, .inr le_rfl⟩
    by_contra hlt
    have hx : empty.1.toNat ≤ extra.1.toNat := by
      by_contra hgt
      exact hlt (hinside (Nat.lt_of_not_le hgt))
    obtain hstart | hstart := Nat.eq_or_lt_of_le hlow
    · have := hsame hstart
      omega
    · have := hover hstart (by omega)
      omega
  · rename_i hcond
    refine ⟨lowest, rfl, ?_, by omega⟩
    obtain hstart | hstart := Nat.eq_or_lt_of_le hlow
    · exact hsame hstart
    · by_contra hlt
      have := hover hstart (by omega)
      omega

/-- A scan that stays where it is never ends. -/
theorem calculatePageMapSize_hangs
    {findNext : UInt64 → Option (UInt64 × UInt64)} (stays : UInt64 → Prop)
    (hstays : ∀ address, stays address →
      ∃ range, findNext address = some range ∧ stays range.2)
    (hstart : stays 0) (sizes : List UInt64) (fuel : Nat) :
    calculatePageMapSize findNext sizes fuel = none := by
  rw [calculatePageMapSize, Option.map_eq_none_iff]
  refine forever_eq_none_of_invariant (fun s => stays s.1) ?_ fuel _ hstart
  rintro ⟨address, levels⟩ haddress
  obtain ⟨range, hfind, hrange⟩ := hstays address haddress
  refine ⟨(range.2, levels.map (countRange range.1 range.2)), ?_, hrange⟩
  rw [calculateSizePass, hfind]

end Scan

section Suffices

/-- The descriptor is mapped by the boot page map. -/
def Included (d : EfiMemoryDescriptor) : Prop :=
  shouldIncludeInPageMap d.type d.attributes = true

/-- The descriptor overlaps the range from `f` to `g`. -/
def Overlaps (f g : Nat) (d : EfiMemoryDescriptor) : Prop :=
  d.start < g ∧ f < d.stop

/-- A memory map whose descriptors share no pages; they may be empty. -/
structure PageDisjointMap (limit : Nat) (map : List EfiMemoryDescriptor) : Prop where
  aligned : ∀ d ∈ map, d.start % 4096 = 0
  disjoint : map.Pairwise fun a b => ∀ p, ¬ (a.HasPage p ∧ b.HasPage p)
  below : ∀ d ∈ map, d.stop ≤ limit

/-- The calculated size is enough for the framebuffer from `f` to `g`. -/
structure SizeSuffices (map : List EfiMemoryDescriptor) (f g : Nat) : Prop where
  /-- The framebuffer is not empty. -/
  framebuffer_nonempty : f < g
  /-- Every empty included descriptor lies inside the framebuffer, or comes after a nonempty
  one with the same start, or lies inside another one, which overlaps the framebuffer only if
  the empty one lies no higher than the framebuffer's base. -/
  empty_passed : ∀ before d after, map = before ++ d :: after → Included d →
    d.stop = d.start →
      (f < d.start ∧ d.start < g) ∨
      (∃ e ∈ before, Included e ∧ e.start = d.start ∧ d.start < e.stop) ∨
      ∃ e ∈ map, Included e ∧ e.start < d.start ∧ d.start < e.stop ∧
        (¬ Overlaps f g e ∨ d.start ≤ f)
  /-- Where a descriptor overlaps the framebuffer, the framebuffer or descriptors apart from
  it touch the same blocks of 2 MiB. -/
  blocks_seen : ∀ d ∈ map, Included d → Overlaps f g d → ∀ a, d.start ≤ a → a < d.stop →
    ∃ a', a' / 2 ^ 21 = a / 2 ^ 21 ∧
      ((f ≤ a' ∧ a' < g) ∨
        ∃ e ∈ map, Included e ∧ ¬ Overlaps f g e ∧ e.start ≤ a' ∧ a' < e.stop)

variable {map : List EfiMemoryDescriptor} {framebufferBase framebufferSize : UInt64}

/-- A descriptor as a range of words. -/
def word (d : EfiMemoryDescriptor) : UInt64 × UInt64 :=
  (d.physicalStart, mapMax d)

theorem includedWords_append_cons
    {d : EfiMemoryDescriptor} (hincluded : Included d) (before after : List EfiMemoryDescriptor) :
    includedWords shouldIncludeInPageMap (before ++ d :: after) =
      includedWords shouldIncludeInPageMap before ++
        word d :: includedWords shouldIncludeInPageMap after := by
  rw [Included] at hincluded
  simp [includedWords, hincluded, word]

theorem includedWords_split
    {B A : List (UInt64 × UInt64)} {w : UInt64 × UInt64}
    (h : includedWords shouldIncludeInPageMap map = B ++ w :: A) :
    ∃ before d after, map = before ++ d :: after ∧ Included d ∧ word d = w ∧
      includedWords shouldIncludeInPageMap before = B := by
  obtain ⟨front, back, hfilter, rfl, hback⟩ := List.map_eq_append_iff.mp h
  obtain ⟨d, rest, rfl, rfl, -⟩ := List.map_eq_cons_iff.mp hback
  obtain ⟨before, tail, rfl, rfl, htail⟩ := List.filter_eq_append_iff.mp hfilter
  obtain ⟨skipped, after, rfl, hskipped, hd, -⟩ := List.filter_eq_cons_iff.mp htail
  refine ⟨before ++ skipped, d, after, by simp, hd, rfl, ?_⟩
  rw [includedWords, List.filter_append, List.filter_eq_nil_iff.mpr hskipped, List.append_nil]

theorem mem_includedWords
    {w : UInt64 × UInt64} :
    w ∈ includedWords shouldIncludeInPageMap map ↔ ∃ d ∈ map, Included d ∧ word d = w := by
  simp [includedWords, Included, word, and_assoc]

variable (hmap : PageDisjointMap (2 ^ 48) map)
include hmap

theorem word_stop
    {d : EfiMemoryDescriptor} (hd : d ∈ map) :
    (word d).2.toNat = d.stop :=
  mapMax_toNat ((hmap.below d hd).trans_lt (by norm_num))

theorem apart_includedWords :
    Apart (includedWords shouldIncludeInPageMap map) := by
  constructor
  · intro w hw
    obtain ⟨d, hd, -, rfl⟩ := mem_includedWords.mp hw
    rw [word_stop hmap hd]
    exact Nat.le_add_right _ _
  · refine List.pairwise_map.mpr ((hmap.disjoint.filter _).imp_of_mem ?_)
    intro d e hd he happart hdne hene
    have hd := (List.mem_filter.mp hd).1
    have he := (List.mem_filter.mp he).1
    have hdalign := hmap.aligned d hd
    have healign := hmap.aligned e he
    change (word d).1.toNat < (word d).2.toNat at hdne
    change (word e).1.toNat < (word e).2.toNat at hene
    change (word d).2.toNat ≤ (word e).1.toNat ∨ (word e).2.toNat ≤ (word d).1.toNat
    rw [word_stop hmap hd] at hdne ⊢
    rw [word_stop hmap he] at hene ⊢
    change d.start < d.stop at hdne
    change e.start < e.stop at hene
    change d.stop ≤ e.start ∨ e.stop ≤ d.start
    by_contra hoverlap
    refine happart (max d.start e.start / 4096) ⟨?_, ?_⟩
    · unfold EfiMemoryDescriptor.HasPage
      omega
    · unfold EfiMemoryDescriptor.HasPage
      omega

variable {extra : UInt64 × UInt64}

/-- A descriptor apart from the framebuffer. -/
theorem live_iff
    {d : EfiMemoryDescriptor} (hd : d ∈ map) :
    Live extra (word d) ↔
      d.start < d.stop ∧ ¬ Overlaps extra.1.toNat extra.2.toNat d := by
  rw [Live, Overlaps, word_stop hmap hd]
  change d.start < d.stop ∧ (d.stop ≤ extra.1.toNat ∨ extra.2.toNat ≤ d.start) ↔ _
  omega

/-- An empty descriptor that the scan passes over. -/
theorem passedOver_iff
    {before after : List EfiMemoryDescriptor} {d : EfiMemoryDescriptor}
    (hsplit : map = before ++ d :: after) :
    PassedOver (includedWords shouldIncludeInPageMap map) extra
        (includedWords shouldIncludeInPageMap before) (word d).1.toNat ↔
      (extra.1.toNat < d.start ∧ d.start < extra.2.toNat) ∨
      (∃ e ∈ before, Included e ∧ e.start = d.start ∧ d.start < e.stop) ∨
      ∃ e ∈ map, Included e ∧ e.start < d.start ∧ d.start < e.stop ∧
        (¬ Overlaps extra.1.toNat extra.2.toNat e ∨ d.start ≤ extra.1.toNat) := by
  unfold PassedOver
  refine or_congr Iff.rfl (or_congr ?_ ?_)
  · constructor
    · rintro ⟨w, hw, hstart, hstop⟩
      obtain ⟨e, he, hincluded, rfl⟩ := mem_includedWords.mp hw
      rw [word_stop hmap (by rw [hsplit]; exact List.mem_append_left _ he)] at hstop
      exact ⟨e, he, hincluded, hstart, hstop⟩
    · rintro ⟨e, he, hincluded, hstart, hstop⟩
      refine ⟨word e, mem_includedWords.mpr ⟨e, he, hincluded, rfl⟩, hstart, ?_⟩
      rw [word_stop hmap (by rw [hsplit]; exact List.mem_append_left _ he)]
      exact hstop
  · constructor
    · rintro ⟨w, hw, hstart, hstop, hwhy⟩
      obtain ⟨e, he, hincluded, rfl⟩ := mem_includedWords.mp hw
      rw [live_iff hmap he] at hwhy
      rw [word_stop hmap he] at hstop
      exact ⟨e, he, hincluded, hstart, hstop, hwhy.imp And.right id⟩
    · rintro ⟨e, he, hincluded, hstart, hstop, hwhy⟩
      refine ⟨word e, mem_includedWords.mpr ⟨e, he, hincluded, rfl⟩, hstart, ?_, ?_⟩
      · rw [word_stop hmap he]
        exact hstop
      · rw [live_iff hmap he]
        exact hwhy.imp (And.intro (hstart.trans hstop)) id

/-- The scan ends only if all empty descriptors are passed over. -/
theorem emptyPassedOver_iff :
    EmptyPassedOver (includedWords shouldIncludeInPageMap map) extra ↔
      ∀ before d after, map = before ++ d :: after → Included d → d.stop = d.start →
        (extra.1.toNat < d.start ∧ d.start < extra.2.toNat) ∨
        (∃ e ∈ before, Included e ∧ e.start = d.start ∧ d.start < e.stop) ∨
        ∃ e ∈ map, Included e ∧ e.start < d.start ∧ d.start < e.stop ∧
          (¬ Overlaps extra.1.toNat extra.2.toNat e ∨ d.start ≤ extra.1.toNat) := by
  constructor
  · intro h before d after hsplit hincluded hempty
    have hd : d ∈ map := by
      rw [hsplit]
      simp
    refine (passedOver_iff hmap hsplit).mp (h _ (word d)
      (includedWords shouldIncludeInPageMap after) ?_ ?_)
    · conv_lhs => rw [hsplit]
      exact includedWords_append_cons hincluded before after
    · rw [← UInt64.toNat_inj, word_stop hmap hd, hempty]
      rfl
  · intro h before w after hsplit hempty
    obtain ⟨before, d, after, hmapsplit, hincluded, rfl, rfl⟩ := includedWords_split hsplit
    have hd : d ∈ map := by
      rw [hmapsplit]
      simp
    refine (passedOver_iff hmap hmapsplit).mpr (h before d after hmapsplit hincluded ?_)
    rw [← word_stop hmap hd, ← hempty]
    rfl

omit hmap in
/-- The blocks that some ranges touch. -/
theorem mem_blocks
    {ranges : List (Nat × Nat)} {i : Nat} :
    i ∈ (pagesOfRanges ranges).image (· / 512 ^ 1) ↔
      ∃ a, a / 2 ^ 21 = i ∧ ∃ range ∈ ranges, range.1 ≤ a ∧ a < range.2 := by
  constructor
  · intro hi
    obtain ⟨p, hp, rfl⟩ := Finset.mem_image.mp hi
    obtain ⟨range, hr, hp⟩ := mem_pagesOfRanges.mp hp
    obtain ⟨hlt, hend, hstart⟩ := mem_pagesOf.mp hp
    exact ⟨max range.1 (p * 4096), by omega, range, hr, le_max_left _ _, by omega⟩
  · rintro ⟨a, rfl, range, hr, hlo, hhi⟩
    refine Finset.mem_image.mpr ⟨a / 4096, mem_pagesOfRanges.mpr ⟨range, hr, ?_⟩, by omega⟩
    exact mem_pagesOf.mpr (by omega)

omit hmap in
/-- The number of tables depends on the blocks only. -/
theorem tablesNeeded_congr
    {levels : Nat} {P Q : Finset Nat}
    (h : P.image (· / 512 ^ 1) = Q.image (· / 512 ^ 1)) :
    tablesNeeded levels P = tablesNeeded levels Q := by
  have himage (R : Finset Nat) (k : Nat) (hk : 1 ≤ k) :
      R.image (· / 512 ^ k) = (R.image (· / 512 ^ 1)).image (· / 512 ^ (k - 1)) := by
    rw [Finset.image_image]
    refine Finset.image_congr fun p _ => ?_
    show p / 512 ^ k = p / 512 ^ 1 / 512 ^ (k - 1)
    rw [Nat.div_div_eq_div_mul, ← pow_add, Nat.add_sub_cancel' hk]
  unfold tablesNeeded
  congr 2
  refine List.map_congr_left fun k hk => ?_
  have hk := (List.mem_range'_1.mp hk).1
  rw [himage P k hk, himage Q k hk, h]

omit hmap in
/-- More pages need more tables, unless they lie in the same blocks. -/
theorem blocks_eq_of_tablesNeeded_le
    {P Q : Finset Nat}
    (hsub : P ⊆ Q) (hle : tablesNeeded 4 Q ≤ tablesNeeded 4 P) :
    P.image (· / 512 ^ 1) = Q.image (· / 512 ^ 1) := by
  have hcard (k : Nat) : (P.image (· / 512 ^ k)).card ≤ (Q.image (· / 512 ^ k)).card :=
    Finset.card_le_card (Finset.image_subset_image hsub)
  have h₁ := hcard 1
  have h₂ := hcard 2
  have h₃ := hcard 3
  refine Finset.eq_of_subset_of_card_le (Finset.image_subset_image hsub) ?_
  rw [tablesNeeded, tablesNeeded, show List.range' 1 (4 - 1) = [1, 2, 3] from rfl] at hle
  simp only [List.map_cons, List.map_nil, List.sum_cons, List.sum_nil] at hle
  omega

variable (hframebuffer : framebufferBase.toNat + framebufferSize.toNat ≤ 2 ^ 48)
include hframebuffer

omit hmap in
theorem framebuffer_end :
    (framebufferBase + framebufferSize).toNat =
      framebufferBase.toNat + framebufferSize.toNat := by
  rw [UInt64.toNat_add]
  exact Nat.mod_eq_of_lt (hframebuffer.trans_lt (by norm_num))

/-- All ranges lie below the limit. -/
theorem ranges_below :
    ∀ range ∈ PageMapKind.initial4.ranges map framebufferBase framebufferSize,
      range.2 ≤ 2 ^ 48 := by
  intro range hr
  obtain hr | hr := List.mem_append.mp hr
  · obtain ⟨d, hd, rfl⟩ := List.mem_map.mp hr
    exact hmap.below d (List.mem_filter.mp hd).1
  · obtain rfl := List.mem_singleton.mp hr
    exact hframebuffer

/-- The size that is calculated when the scan ends. -/
theorem calculateInitialPageMap4Size_seen
    (hne : 0 < framebufferSize.toNat)
    (hempty : EmptyPassedOver (includedWords shouldIncludeInPageMap map)
      (framebufferBase, framebufferBase + framebufferSize)) :
    ∃ size, Returns (calculateInitialPageMap4Size map framebufferBase framebufferSize) size ∧
      size.toNat = 4096 * tablesNeeded 4 (pagesOfRanges
        ((seen (includedWords shouldIncludeInPageMap map)
          (framebufferBase, framebufferBase + framebufferSize)).map wordRange)) := by
  set words := includedWords shouldIncludeInPageMap map with hwordsDef
  set extra := (framebufferBase, framebufferBase + framebufferSize) with hextraDef
  have hwords : Apart words := apart_includedWords hmap
  have hend : extra.2.toNat = framebufferBase.toNat + framebufferSize.toNat :=
    framebuffer_end hframebuffer
  have hextra : extra.1.toNat < extra.2.toNat := by
    rw [hend]
    exact Nat.lt_add_of_pos_right hne
  have hseen : ∀ range ∈ seen words extra, range.1.toNat < range.2.toNat :=
    fun range hr => seen_nonempty hextra hr
  obtain ⟨visited, hperm, hasc, hvisits⟩ := visits_of_lowestRange
    (fun address haddress => scanNext_eq_seen hwords hextra hempty haddress) hseen
    (seen_pairwise hwords)
  rw [← findNextMemoryRange_eq_scanNext] at hvisits
  have hbelow : ∀ range ∈ seen words extra, range.2.toNat ≤ 2 ^ 57 := by
    intro range hr
    obtain ⟨hr, -⟩ | rfl := mem_seen.mp hr
    · obtain ⟨d, hd, -, rfl⟩ := mem_includedWords.mp hr
      rw [word_stop hmap hd]
      exact (hmap.below d hd).trans (by norm_num)
    · rw [hend]
      exact hframebuffer.trans (by norm_num)
  obtain ⟨size, hreturns, hsize⟩ := calculatePageMapSize_returns
    PageMapKind.initial4.levels_le PageMapKind.initial4.managedSizes_toNat hvisits
    ⟨fun range hr => hseen range (hperm.mem_iff.mp hr),
      fun range hr => hbelow range (hperm.mem_iff.mp hr), hasc⟩
  refine ⟨size, hreturns, hsize.trans ?_⟩
  congr 2
  ext p
  simp only [mem_pagesOfRanges, List.mem_map, hperm.mem_iff]

omit hmap in
/-- A framebuffer without a size is found again and again. -/
theorem calculateInitialPageMap4Size_hangs_of_no_framebuffer
    (hzero : framebufferSize.toNat = 0) (fuel : Nat) :
    calculateInitialPageMap4Size map framebufferBase framebufferSize fuel = none := by
  have heq : framebufferBase = framebufferBase + framebufferSize := by
    rw [← UInt64.toNat_inj, framebuffer_end hframebuffer, hzero, Nat.add_zero]
  unfold calculateInitialPageMap4Size
  rw [findNextMemoryRange_eq_scanNext]
  refine calculatePageMapSize_hangs
    (fun address => address.toNat ≤ framebufferBase.toNat) ?_ (Nat.zero_le _) _ fuel
  intro address haddress
  exact scanNext_empty_extra heq haddress

omit hframebuffer in
/-- An empty descriptor that is not passed over is found again and again. -/
theorem calculateInitialPageMap4Size_hangs_of_empty
    (hnot : ¬ EmptyPassedOver (includedWords shouldIncludeInPageMap map)
      (framebufferBase, framebufferBase + framebufferSize)) (fuel : Nat) :
    calculateInitialPageMap4Size map framebufferBase framebufferSize fuel = none := by
  unfold EmptyPassedOver at hnot
  push Not at hnot
  obtain ⟨before, empty, after, hsplit, heq, hnot⟩ := hnot
  unfold calculateInitialPageMap4Size
  rw [findNextMemoryRange_eq_scanNext]
  refine calculatePageMapSize_hangs
    (fun address => address.toNat ≤ empty.1.toNat ∧
      (address.toNat ≤ framebufferBase.toNat ∨
        (framebufferBase + framebufferSize).toNat ≤ address.toNat)) ?_
    ⟨Nat.zero_le _, .inl (Nat.zero_le _)⟩ _ fuel
  rintro address ⟨haddress, hside⟩
  obtain ⟨range, hscan, hle, hside'⟩ :=
    scanNext_not_past (apart_includedWords hmap) hsplit heq hnot haddress hside
  exact ⟨range, hscan, hle, hside'⟩

omit hmap hframebuffer in
/-- The addresses of all ranges. -/
theorem mem_ranges
    {a : Nat} :
    (∃ range ∈ PageMapKind.initial4.ranges map framebufferBase framebufferSize,
        range.1 ≤ a ∧ a < range.2) ↔
      (framebufferBase.toNat ≤ a ∧ a < framebufferBase.toNat + framebufferSize.toNat) ∨
        ∃ d ∈ map, Included d ∧ d.start ≤ a ∧ a < d.stop := by
  rw [or_comm]
  simp [PageMapKind.ranges, PageMapKind.framebuffer, PageMapKind.shouldInclude, Included,
    or_and_right, exists_or, and_assoc]

/-- The addresses of the seen ranges. -/
theorem mem_seenRanges
    {a : Nat} :
    (∃ range ∈ (seen (includedWords shouldIncludeInPageMap map)
        (framebufferBase, framebufferBase + framebufferSize)).map wordRange,
        range.1 ≤ a ∧ a < range.2) ↔
      (framebufferBase.toNat ≤ a ∧ a < framebufferBase.toNat + framebufferSize.toNat) ∨
        ∃ e ∈ map, Included e ∧
          ¬ Overlaps framebufferBase.toNat (framebufferBase.toNat + framebufferSize.toNat) e ∧
          e.start ≤ a ∧ a < e.stop := by
  have hend := framebuffer_end hframebuffer
  constructor
  · rintro ⟨range, hr, hlo, hhi⟩
    obtain ⟨w, hw, rfl⟩ := List.mem_map.mp hr
    obtain ⟨hw, hlive⟩ | rfl := mem_seen.mp hw
    · obtain ⟨e, he, hincluded, rfl⟩ := mem_includedWords.mp hw
      obtain ⟨-, happart⟩ := (live_iff hmap he).mp hlive
      rw [hend] at happart
      rw [wordRange, word_stop hmap he] at hhi
      exact .inr ⟨e, he, hincluded, happart, hlo, hhi⟩
    · rw [wordRange, hend] at hhi
      exact .inl ⟨hlo, hhi⟩
  · rintro (⟨hlo, hhi⟩ | ⟨e, he, hincluded, happart, hlo, hhi⟩)
    · refine ⟨_, List.mem_map_of_mem (mem_seen.mpr (.inr rfl)), hlo, ?_⟩
      rw [wordRange, hend]
      exact hhi
    · have hlive : Live (framebufferBase, framebufferBase + framebufferSize) (word e) := by
        rw [live_iff hmap he, hend]
        exact ⟨hlo.trans_lt hhi, happart⟩
      refine ⟨_, List.mem_map_of_mem (mem_seen.mpr
        (.inl ⟨mem_includedWords.mpr ⟨e, he, hincluded, rfl⟩, hlive⟩)), hlo, ?_⟩
      rw [wordRange, word_stop hmap he]
      exact hhi

/-- The pages of the seen ranges are among those of all ranges. -/
theorem seenPages_subset :
    pagesOfRanges ((seen (includedWords shouldIncludeInPageMap map)
        (framebufferBase, framebufferBase + framebufferSize)).map wordRange) ⊆
      pagesOfRanges (PageMapKind.initial4.ranges map framebufferBase framebufferSize) := by
  intro p hp
  obtain ⟨range, hr, hp⟩ := mem_pagesOfRanges.mp hp
  obtain ⟨hlt, hend, hstart⟩ := mem_pagesOf.mp hp
  obtain ⟨a, ha⟩ : ∃ a, a = max range.1 (p * 4096) := ⟨_, rfl⟩
  have hlo : range.1 ≤ a := by omega
  have hhi : a < range.2 := by omega
  have hall : ∃ range ∈ PageMapKind.initial4.ranges map framebufferBase framebufferSize,
      range.1 ≤ a ∧ a < range.2 := by
    refine mem_ranges.mpr (((mem_seenRanges hmap hframebuffer).mp ⟨range, hr, hlo, hhi⟩).imp id ?_)
    rintro ⟨e, he, hincluded, -, hlo, hhi⟩
    exact ⟨e, he, hincluded, hlo, hhi⟩
  obtain ⟨range', hr', hlo', hhi'⟩ := hall
  exact mem_pagesOfRanges.mpr ⟨range', hr', mem_pagesOf.mpr (by omega)⟩

/-- The blocks of all ranges are those of the seen ones exactly when the framebuffer hides
no block. -/
theorem blocks_eq_iff :
    (pagesOfRanges ((seen (includedWords shouldIncludeInPageMap map)
        (framebufferBase, framebufferBase + framebufferSize)).map wordRange)).image
          (· / 512 ^ 1) =
      (pagesOfRanges (PageMapKind.initial4.ranges map framebufferBase framebufferSize)).image
        (· / 512 ^ 1) ↔
    ∀ d ∈ map, Included d →
      Overlaps framebufferBase.toNat (framebufferBase.toNat + framebufferSize.toNat) d →
      ∀ a, d.start ≤ a → a < d.stop → ∃ a', a' / 2 ^ 21 = a / 2 ^ 21 ∧
        ((framebufferBase.toNat ≤ a' ∧
            a' < framebufferBase.toNat + framebufferSize.toNat) ∨
          ∃ e ∈ map, Included e ∧
            ¬ Overlaps framebufferBase.toNat (framebufferBase.toNat + framebufferSize.toNat) e ∧
            e.start ≤ a' ∧ a' < e.stop) := by
  constructor
  · intro heq d hd hincluded _ a hlo hhi
    have hmem : a / 2 ^ 21 ∈ (pagesOfRanges
        (PageMapKind.initial4.ranges map framebufferBase framebufferSize)).image
          (· / 512 ^ 1) :=
      mem_blocks.mpr ⟨a, rfl, mem_ranges.mpr (.inr ⟨d, hd, hincluded, hlo, hhi⟩)⟩
    rw [← heq] at hmem
    obtain ⟨a', hblock, hseen⟩ := mem_blocks.mp hmem
    exact ⟨a', hblock, (mem_seenRanges hmap hframebuffer).mp hseen⟩
  · intro hblocks
    refine Finset.Subset.antisymm
      (Finset.image_subset_image (seenPages_subset hmap hframebuffer)) fun i hi => ?_
    obtain ⟨a, rfl, hall⟩ := mem_blocks.mp hi
    refine mem_blocks.mpr ?_
    obtain hin | ⟨d, hd, hincluded, hlo, hhi⟩ := mem_ranges.mp hall
    · exact ⟨a, rfl, (mem_seenRanges hmap hframebuffer).mpr (.inl hin)⟩
    · by_cases hoverlap : Overlaps framebufferBase.toNat
        (framebufferBase.toNat + framebufferSize.toNat) d
      · obtain ⟨a', hblock, hseen⟩ := hblocks d hd hincluded hoverlap a hlo hhi
        exact ⟨a', hblock, (mem_seenRanges hmap hframebuffer).mpr hseen⟩
      · exact ⟨a, rfl, (mem_seenRanges hmap hframebuffer).mpr
          (.inr ⟨d, hd, hincluded, hoverlap, hlo, hhi⟩)⟩

omit hmap hframebuffer in
theorem not_returns_none {f : Nat → Option UInt64} {size : UInt64}
    (hnone : ∀ fuel, f fuel = none) :
    ¬ Returns f size := by
  rintro ⟨n, hn⟩
  exact absurd ((hnone n).symm.trans (hn n le_rfl)) (by simp)

omit hmap hframebuffer in
/-- The size that is calculated for a 4-level page map is enough, exactly when the condition
holds. -/
theorem calculateInitialPageMap4Size_suffices_iff
    (map : List EfiMemoryDescriptor) (framebufferBase framebufferSize : UInt64)
    (hmap : PageDisjointMap (2 ^ 48) map)
    (hframebuffer : framebufferBase.toNat + framebufferSize.toNat ≤ 2 ^ 48) :
    (∃ size, Returns (calculateInitialPageMap4Size map framebufferBase framebufferSize) size ∧
      ∀ (buffer : Nat) (memory : Nat → Nat), 0 < buffer → buffer % 4096 = 0 →
        buffer + size.toNat ≤ 2 ^ 64 →
        (setupInitialPageMap4 map framebufferBase framebufferSize buffer size.toNat
          memory).1 ≠ 0) ↔
      SizeSuffices map framebufferBase.toNat
        (framebufferBase.toNat + framebufferSize.toNat) := by
  have hend := framebuffer_end hframebuffer
  have hword : ∀ range ∈ PageMapKind.initial4.ranges map framebufferBase framebufferSize,
      range.2 < 2 ^ 64 :=
    fun range hr => (ranges_below hmap hframebuffer range hr).trans_lt (by norm_num)
  have htables : tablesForRanges 4
        (PageMapKind.initial4.ranges map framebufferBase framebufferSize) =
      tablesNeeded 4
        (pagesOfRanges (PageMapKind.initial4.ranges map framebufferBase framebufferSize)) :=
    PageMapKind.tablesForRanges_eq (ranges_below hmap hframebuffer)
  have hpassed : EmptyPassedOver (includedWords shouldIncludeInPageMap map)
      (framebufferBase, framebufferBase + framebufferSize) ↔ _ :=
    emptyPassedOver_iff hmap
  rw [hend] at hpassed
  constructor
  · rintro ⟨size, hreturns, hsetup⟩
    have hne : 0 < framebufferSize.toNat := by
      refine Nat.pos_of_ne_zero fun hzero => not_returns_none ?_ hreturns
      exact calculateInitialPageMap4Size_hangs_of_no_framebuffer hframebuffer hzero
    have hempty : EmptyPassedOver (includedWords shouldIncludeInPageMap map)
        (framebufferBase, framebufferBase + framebufferSize) := by
      by_contra hnot
      exact not_returns_none (calculateInitialPageMap4Size_hangs_of_empty hmap hnot) hreturns
    obtain ⟨size', hreturns', hsize⟩ :=
      calculateInitialPageMap4Size_seen hmap hframebuffer hne hempty
    obtain rfl := hreturns.unique hreturns'
    refine ⟨Nat.lt_add_of_pos_right hne, hpassed.mp hempty, ?_⟩
    have hfits : 4096 + size.toNat ≤ 2 ^ 64 := by
      have := size.toNat_lt
      omega
    have hroot := hsetup 4096 (fun _ => 0) (by decide) (by decide) hfits
    obtain ⟨hle, -⟩ | ⟨-, hnull⟩ := PageMapKind.setup_consumes hword
      (show 4096 % 4096 = 0 by decide) hfits fun _ => 0
    · have hle : 4096 * tablesForRanges 4
          (PageMapKind.initial4.ranges map framebufferBase framebufferSize) ≤ size.toNat := hle
      rw [htables, hsize] at hle
      exact (blocks_eq_iff hmap hframebuffer).mp (blocks_eq_of_tablesNeeded_le
        (seenPages_subset hmap hframebuffer) (Nat.le_of_mul_le_mul_left hle (by decide)))
    · exact absurd hnull hroot
  · rintro ⟨hnonempty, hempty, hblocks⟩
    obtain ⟨size, hreturns, hsize⟩ := calculateInitialPageMap4Size_seen hmap hframebuffer
      (by omega) (hpassed.mpr hempty)
    refine ⟨size, hreturns, fun buffer memory hpos halign hbuffer => ?_⟩
    obtain ⟨-, hroot, -⟩ | ⟨hlt, -⟩ := PageMapKind.setup_consumes hword halign hbuffer memory
    · have hroot : (setupInitialPageMap4 map framebufferBase framebufferSize buffer size.toNat
          memory).1 = buffer := hroot
      rw [hroot]
      exact hpos.ne'
    · have hlt : size.toNat < 4096 * tablesForRanges 4
          (PageMapKind.initial4.ranges map framebufferBase framebufferSize) := hlt
      rw [htables, hsize, tablesNeeded_congr ((blocks_eq_iff hmap hframebuffer).mpr hblocks)]
        at hlt
      exact absurd hlt (lt_irrefl _)

omit hmap hframebuffer

/-- Two pages of a device on both sides of a 2 MiB boundary; the framebuffer is the first. -/
def deviceMap : List EfiMemoryDescriptor :=
  [⟨ EfiMemoryType.memoryMappedIO, 0xE01FF000, 2, efiMemoryRuntime⟩]

theorem deviceMap_pageDisjoint :
    PageDisjointMap (2 ^ 48) deviceMap where
  aligned := by decide
  disjoint := List.pairwise_singleton _ _
  below := by decide

/-- The framebuffer at the first page of the device. -/
theorem calculateInitialPageMap4Size_suffices_iff_device :
    (∃ size, Returns (calculateInitialPageMap4Size deviceMap 0xE01FF000 0x1000) size ∧
      ∀ (buffer : Nat) (memory : Nat → Nat), 0 < buffer → buffer % 4096 = 0 →
        buffer + size.toNat ≤ 2 ^ 64 →
        (setupInitialPageMap4 deviceMap 0xE01FF000 0x1000 buffer size.toNat memory).1 ≠ 0) ↔
      SizeSuffices deviceMap (0xE01FF000 : UInt64).toNat
        ((0xE01FF000 : UInt64).toNat + (0x1000 : UInt64).toNat) :=
  calculateInitialPageMap4Size_suffices_iff deviceMap 0xE01FF000 0x1000
    deviceMap_pageDisjoint (by decide)

/-- The table behind the boundary is not counted. -/
theorem deviceMap_size_not_enough :
    PageDisjointMap (2 ^ 48) deviceMap ∧
    ∃ size, Returns (calculateInitialPageMap4Size deviceMap 0xE01FF000 0x1000) size ∧
      ∀ (buffer : Nat) (memory : Nat → Nat), buffer % 4096 = 0 →
        buffer + size.toNat ≤ 2 ^ 64 →
        (setupInitialPageMap4 deviceMap 0xE01FF000 0x1000 buffer size.toNat memory).1 = 0 := by
  have hvisits : Visits (findNextMemoryRange deviceMap 0xE01FF000 0x1000) 0
      [(0xE01FF000, 0xE0200000)] :=
    .next (by decide) (.done (by decide))
  have hcountable : Countable [((0xE01FF000, 0xE0200000) : UInt64 × UInt64)] :=
    ⟨List.forall_mem_singleton.mpr (by decide), List.forall_mem_singleton.mpr (by decide),
      List.pairwise_singleton _ _⟩
  obtain ⟨size, hreturns, hsize⟩ := calculatePageMapSize_returns
    PageMapKind.initial4.levels_le PageMapKind.initial4.managedSizes_toNat hvisits hcountable
  refine ⟨deviceMap_pageDisjoint, size, hreturns, fun buffer memory halign hbuffer => ?_⟩
  have hword : ∀ range ∈ PageMapKind.initial4.ranges deviceMap 0xE01FF000 0x1000,
      range.2 < 2 ^ 64 := by
    decide
  obtain ⟨hle, -⟩ | ⟨-, hnull⟩ := PageMapKind.setup_consumes hword halign hbuffer memory
  · rw [hsize] at hle
    exact absurd hle (by decide +kernel)
  · exact hnull

end Suffices

end Boot
end DexprOS
