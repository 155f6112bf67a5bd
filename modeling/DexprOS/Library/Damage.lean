import Mathlib.Data.List.Basic
import Mathlib.Data.Set.Basic
import Mathlib.Order.Basic
import Mathlib.Tactic.Common

/-!
# Tracking what two pictures differ in

Two pictures are kept, one is drawn to and one is shown.  A set of places that covers
everything in which they differ is enough to bring the shown one up to date.  Boxes are
such sets; their hull covers both.

Main facts:
* `Tracks.draw`, `Tracks.swap`: what drawing has to add, and what copying achieves;
* `Box.mem_hull_left`, `Box.mem_hull_right`, `Box.hull_within`: the hull of two boxes;
* `forEach_induct`: a property that each cell of a raster keeps;
* `rasterIndex_inj`: cells of a raster with different coordinates do not share an index.
-/

namespace DexprOS
namespace Damage

universe u v

section Tracking

variable {P : Type u} {V : Type v}

/-- `dirty` covers the places of `visible` in which the pictures differ. -/
def Tracks (visible : Set P) (front back : P → V) (dirty : Set P) : Prop :=
  ∀ p ∈ visible, front p ≠ back p → p ∈ dirty

variable {visible : Set P} {front back front' back' : P → V} {dirty dirty' drawn : Set P}

theorem tracks_of_eqOn
    (heq : ∀ p ∈ visible, front p = back p) :
    Tracks visible front back dirty :=
  fun p hp hne => absurd (heq p hp) hne

/-- Drawing changes nothing outside of what it marks. -/
theorem Tracks.draw
    (h : Tracks visible front back dirty)
    (hdraw : ∀ p ∈ visible, p ∉ drawn → back' p = back p)
    (hdirty : dirty ⊆ dirty') (hdrawn : drawn ⊆ dirty') :
    Tracks visible front back' dirty' := by
  intro p hp hne
  by_cases hpd : p ∈ drawn
  · exact hdrawn hpd
  · rw [hdraw p hp hpd] at hne
    exact hdirty (h p hp hne)

/-- Copying what is marked makes the pictures equal. -/
theorem Tracks.swap
    (h : Tracks visible front back dirty)
    (hcopied : ∀ p ∈ visible, p ∈ dirty → front' p = back p)
    (hkept : ∀ p ∈ visible, front p = back p → front' p = back p) :
    ∀ p ∈ visible, front' p = back p := by
  intro p hp
  by_cases heq : front p = back p
  · exact hkept p hp heq
  · exact hcopied p hp (h p hp heq)

end Tracking

section Boxes

/-- Places from `x`, `y` on, up to a width and a height. -/
structure Box where
  x : Nat
  y : Nat
  width : Nat
  height : Nat

def Box.cells (b : Box) : Set (Nat × Nat) :=
  {p | b.x ≤ p.1 ∧ p.1 < b.x + b.width ∧ b.y ≤ p.2 ∧ p.2 < b.y + b.height}

/-- The box does not leave a screen of this size. -/
def Box.Within (b : Box) (width height : Nat) : Prop :=
  b.x + b.width ≤ width ∧ b.y + b.height ≤ height

/-- The smallest box around two boxes. -/
def Box.hull (a b : Box) : Box where
  x := min a.x b.x
  y := min a.y b.y
  width := max (a.x + a.width) (b.x + b.width) - min a.x b.x
  height := max (a.y + a.height) (b.y + b.height) - min a.y b.y

theorem Box.cells_subset_hull_left
    (a b : Box) :
    a.cells ⊆ (a.hull b).cells := by
  rintro ⟨x, y⟩ ⟨hx, hx', hy, hy'⟩
  simp only [cells, hull, Set.mem_ofPred_eq]
  omega

theorem Box.cells_subset_hull_right
    (a b : Box) :
    b.cells ⊆ (a.hull b).cells := by
  rintro ⟨x, y⟩ ⟨hx, hx', hy, hy'⟩
  simp only [cells, hull, Set.mem_ofPred_eq]
  omega

theorem Box.hull_within
    {a b : Box} {width height : Nat}
    (ha : a.Within width height) (hb : b.Within width height) :
    (a.hull b).Within width height := by
  unfold Within hull at *
  dsimp only
  omega

end Boxes

section Raster

variable {S : Type u}

/-- The two nested loops over the rows and columns of a raster. -/
def forEach (width height : Nat) (f : Nat → Nat → S → S) (s : S) : S :=
  (List.range height).foldl (fun s h => (List.range width).foldl (fun s w => f h w s) s) s

/-- What every cell keeps, the loops keep. -/
theorem forEach_induct
    {motive : S → Prop} {width height : Nat} {f : Nat → Nat → S → S} {s : S}
    (hs : motive s)
    (hstep : ∀ h < height, ∀ w < width, ∀ s, motive s → motive (f h w s)) :
    motive (forEach width height f s) := by
  refine List.foldlRecOn _ _ hs fun s hs h hh => ?_
  refine List.foldlRecOn _ _ hs fun s hs w hw => ?_
  exact hstep h (List.mem_range.mp hh) w (List.mem_range.mp hw) s hs

/-- Only what is done in the cells of the raster matters. -/
theorem forEach_congr
    {width height : Nat} {f g : Nat → Nat → S → S}
    (hfg : ∀ h < height, ∀ w < width, ∀ s, f h w s = g h w s) (s : S) :
    forEach width height f s = forEach width height g s := by
  refine List.foldl_ext _ _ s fun s h hh => ?_
  exact List.foldl_ext _ _ s fun s w hw =>
    hfg h (List.mem_range.mp hh) w (List.mem_range.mp hw) s

/-- Index of a cell in a raster that is stored row by row. -/
def rasterIndex (stride x y : Nat) : Nat :=
  y * stride + x

theorem rasterIndex_inj
    {stride x y x' y' : Nat}
    (hx : x < stride) (hx' : x' < stride)
    (heq : rasterIndex stride x y = rasterIndex stride x' y') :
    x = x' ∧ y = y' := by
  unfold rasterIndex at heq
  have hdiv (x y : Nat) (hx : x < stride) : (y * stride + x) / stride = y := by
    rw [Nat.mul_comm, Nat.mul_add_div (Nat.zero_lt_of_lt hx), Nat.div_eq_of_lt hx, Nat.add_zero]
  have hy : y = y' := by
    rw [← hdiv x y hx, ← hdiv x' y' hx', heq]
  subst hy
  exact ⟨Nat.add_left_cancel heq, rfl⟩

theorem rasterIndex_lt
    {stride height x y : Nat}
    (hx : x < stride) (hy : y < height) :
    rasterIndex stride x y < height * stride := by
  unfold rasterIndex
  calc
    y * stride + x < y * stride + stride := Nat.add_lt_add_left hx _
    _ = (y + 1) * stride := (Nat.succ_mul y stride).symm
    _ ≤ height * stride := Nat.mul_le_mul_right _ hy

end Raster

end Damage
end DexprOS
