import Mathlib.Tactic.Common

/-!
# Packing boxes on shelves

Boxes are put next to each other on a shelf, and a new shelf lies above the highest box of
the one before.  Whenever the packer decides to open a shelf, no two boxes overlap.

Main facts:
* `Shelf.behind_box`: a box is behind the shelf that it has been put on;
* `Behind.place`, `Behind.openNext`: what is behind stays behind;
* `Behind.apart`: the next box does not overlap what is behind.
-/

namespace DexprOS
namespace ShelfPacking

section ShelfPacking

/-- A box of pixels with its upper left corner. -/
structure Box where
  x : Nat
  y : Nat
  width : Nat
  height : Nat

/-- The box has the pixel. -/
def Box.Contains (b : Box) (px py : Nat) : Prop :=
  b.x ≤ px ∧ px < b.x + b.width ∧ b.y ≤ py ∧ py < b.y + b.height

/-- The box lies in an image of this size. -/
def Box.Inside (b : Box) (width height : Nat) : Prop :=
  b.x + b.width ≤ width ∧ b.y + b.height ≤ height

/-- No pixel belongs to both boxes. -/
def Box.Apart (a b : Box) : Prop :=
  ∀ px py, ¬(a.Contains px py ∧ b.Contains px py)

/-- The shelf in use: where its next box goes, and the height of its highest one. -/
structure Shelf where
  x : Nat
  y : Nat
  height : Nat

namespace Shelf

variable (s : Shelf) (width height : Nat)

/-- The box of this size that is put on the shelf next. -/
def box : Box :=
  ⟨s.x, s.y, width, height⟩

/-- The shelf with one more box of this size. -/
def place : Shelf :=
  ⟨s.x + width, s.y, max s.height height⟩

/-- The shelf above this one. -/
def openNext : Shelf :=
  ⟨0, s.y + s.height, 0⟩

/-- The box is on a lower shelf, or on this one in front of the next place. -/
def Behind (b : Box) : Prop :=
  b.y + b.height ≤ s.y ∨ (b.x + b.width ≤ s.x ∧ b.y + b.height ≤ s.y + s.height)

variable {s width height} {b : Box}

theorem behind_box :
    (s.place width height).Behind (s.box width height) := by
  refine Or.inr ⟨Nat.le_refl _, ?_⟩
  exact Nat.add_le_add_left (Nat.le_max_right s.height height) s.y

theorem Behind.place
    (h : s.Behind b) :
    (s.place width height).Behind b := by
  rcases h with hlower | ⟨hfront, hheight⟩
  · exact Or.inl hlower
  · refine Or.inr ⟨Nat.le_trans hfront (Nat.le_add_right s.x width), Nat.le_trans hheight ?_⟩
    exact Nat.add_le_add_left (Nat.le_max_left s.height height) s.y

theorem Behind.openNext
    (h : s.Behind b) :
    s.openNext.Behind b := by
  rcases h with hlower | ⟨-, hheight⟩
  · exact Or.inl (Nat.le_trans hlower (Nat.le_add_right s.y s.height))
  · exact Or.inl hheight

/-- The next box does not overlap a box behind. -/
theorem Behind.apart
    (h : s.Behind b) :
    b.Apart (s.box width height) := by
  rintro px py ⟨⟨-, hright, -, hbottom⟩, ⟨hleft, -, htop, -⟩⟩
  simp only [box] at hleft htop
  rcases h with hlower | ⟨hfront, -⟩
  · omega
  · omega

end Shelf

theorem Box.Apart.symm
    {a b : Box}
    (h : a.Apart b) :
    b.Apart a :=
  fun px py hboth => h px py hboth.symm

end ShelfPacking

end ShelfPacking
end DexprOS
