import Mathlib.Data.List.Basic
import Mathlib.Tactic.Common

/-!
# Greedy line wrapping

Items are placed one after another on lines of a given width.  A line ends behind an item
that is a newline, and in front of an item that would exceed the width.  Every item causes
one break at most.

Main facts:
* `length_lineBreaks_cons`: breaks are counted item by item;
* `lineBreaks_split`: behind a break the layout goes on with the cursor that it left;
* `length_lineBreaks_mono`: from a smaller cursor on, a text needs no more breaks;
* `length_lineBreaks_drop`: what is left behind a break needs no more breaks than before;
* `length_lineBreaks_capacity`: lines that hold `m` items are broken once for `m` items.
-/

namespace DexprOS
namespace GreedyWrap

universe u

/-- How items are placed. -/
structure Layout (α : Type u) where
  newline : α → Bool
  advance : α → Int
  width : Int

/-- A break at the item of this position. -/
structure LineBreak where
  position : Nat
  byNewline : Bool
deriving DecidableEq

/-- Position of the first item of the line behind the break. -/
def LineBreak.lineStart (b : LineBreak) : Nat :=
  if b.byNewline then b.position + 1 else b.position

variable {α : Type u} (L : Layout α)

section Breaks

/-- The item ends its line, or does not fit on it. -/
def Layout.breaksAt (x : Int) (c : α) : Bool :=
  L.newline c || decide (x + L.advance c > L.width)

/-- The cursor behind an item. -/
def Layout.cursorAfter (x : Int) (c : α) : Int :=
  if L.newline c then 0
  else if x + L.advance c > L.width then L.advance c
  else x + L.advance c

/-- The breaks of a text whose first item has this position and this cursor. -/
def Layout.lineBreaks : List α → Nat → Int → List LineBreak
  | [], _, _ => []
  | c :: rest, pos, x =>
      let later := Layout.lineBreaks rest (pos + 1) (L.cursorAfter x c)
      if L.breaksAt x c then ⟨pos, L.newline c⟩ :: later else later

/-- Position of the first item of line `k`; line 0 starts the text. -/
def Layout.lineStart (text : List α) (k : Nat) : Option Nat :=
  (0 :: (L.lineBreaks text 0 0).map LineBreak.lineStart)[k]?

theorem lineBreaks_cons
    (c : α) (rest : List α) (pos : Nat) (x : Int) :
    L.lineBreaks (c :: rest) pos x =
      if L.breaksAt x c then
        ⟨pos, L.newline c⟩ :: L.lineBreaks rest (pos + 1) (L.cursorAfter x c)
      else L.lineBreaks rest (pos + 1) (L.cursorAfter x c) := by
  rfl

/-- A break puts the cursor to the start of a line, or behind its first item. -/
theorem cursorAfter_nonneg
    {x : Int} {c : α}
    (hbreaks : L.breaksAt x c = true) (hc : 0 ≤ L.advance c) :
    0 ≤ L.cursorAfter x c := by
  unfold Layout.breaksAt at hbreaks
  unfold Layout.cursorAfter
  split
  · omega
  · rename_i hnewline
    rw [if_pos (by simpa [hnewline] using hbreaks)]
    exact hc

/-- Positions only shift a layout. -/
theorem length_lineBreaks
    (text : List α) :
    ∀ (pos pos' : Nat) (x : Int),
      (L.lineBreaks text pos x).length = (L.lineBreaks text pos' x).length := by
  induction text with
  | nil =>
      intro pos pos' x
      rfl
  | cons c rest ih =>
      intro pos pos' x
      have hrest := ih (pos + 1) (pos' + 1) (L.cursorAfter x c)
      rw [lineBreaks_cons, lineBreaks_cons]
      split
      · rw [List.length_cons, List.length_cons, hrest]
      · exact hrest

theorem length_lineBreaks_cons
    (c : α) (rest : List α) (pos : Nat) (x : Int) :
    (L.lineBreaks (c :: rest) pos x).length =
      (if L.breaksAt x c then 1 else 0) +
        (L.lineBreaks rest pos (L.cursorAfter x c)).length := by
  have hrest := length_lineBreaks L rest (pos + 1) pos (L.cursorAfter x c)
  rw [lineBreaks_cons]
  split
  · rw [List.length_cons, hrest, Nat.add_comm]
  · rw [hrest, Nat.zero_add]

/-- Breaks lie in the text. -/
theorem position_lt
    (text : List α) :
    ∀ (pos : Nat) (x : Int), ∀ b ∈ L.lineBreaks text pos x,
      pos ≤ b.position ∧ b.position < pos + text.length := by
  induction text with
  | nil =>
      intro pos x b hb
      exact absurd hb List.not_mem_nil
  | cons c rest ih =>
      intro pos x b hb
      have hrest (hb : b ∈ L.lineBreaks rest (pos + 1) (L.cursorAfter x c)) :
          pos ≤ b.position ∧ b.position < pos + (c :: rest).length := by
        have := ih (pos + 1) _ b hb
        rw [List.length_cons]
        omega
      rw [lineBreaks_cons] at hb
      split at hb
      · rcases List.mem_cons.mp hb with rfl | hb
        · rw [List.length_cons]
          exact ⟨Nat.le_refl _, by show pos < _; omega⟩
        · exact hrest hb
      · exact hrest hb

/-- Behind the item of break `k` the layout goes on from a cursor that is not negative, with
the breaks that are left. -/
theorem lineBreaks_split
    (hadvance : ∀ c, 0 ≤ L.advance c) (text : List α) :
    ∀ (pos : Nat) (x : Int) (k : Nat) (b : LineBreak),
      (L.lineBreaks text pos x)[k]? = some b →
      ∃ y, 0 ≤ y ∧ (L.lineBreaks text pos x).drop (k + 1) =
        L.lineBreaks (text.drop (b.position + 1 - pos)) (b.position + 1) y := by
  induction text with
  | nil =>
      intro pos x k b hb
      simp [Layout.lineBreaks] at hb
  | cons c rest ih =>
      intro pos x k b hb
      -- a later break, in the rest of the text
      have hlater (k : Nat)
          (hb : (L.lineBreaks rest (pos + 1) (L.cursorAfter x c))[k]? = some b) :
          ∃ y, 0 ≤ y ∧ (L.lineBreaks rest (pos + 1) (L.cursorAfter x c)).drop (k + 1) =
            L.lineBreaks ((c :: rest).drop (b.position + 1 - pos)) (b.position + 1) y := by
        rcases ih (pos + 1) _ k b hb with ⟨y, hy, hdrop⟩
        have hpos := (position_lt L rest _ _ b (List.mem_of_getElem? hb)).1
        refine ⟨y, hy, ?_⟩
        rw [hdrop, show b.position + 1 - pos = (b.position + 1 - (pos + 1)) + 1 by omega,
          List.drop_succ_cons]
      rw [lineBreaks_cons] at hb ⊢
      split at hb
      · rename_i hbreaks
        rw [if_pos hbreaks]
        cases k with
        | zero =>
            cases Option.some.inj hb
            refine ⟨L.cursorAfter x c, cursorAfter_nonneg L hbreaks (hadvance c), ?_⟩
            simp
        | succ k =>
            exact hlater k hb
      · rename_i hbreaks
        rw [if_neg hbreaks]
        exact hlater k hb

end Breaks

section Monotone

/-- The second layout is ahead: it has broken more lines, or as many and its cursor is not
smaller. -/
def Behind (lines lines' : Nat) (x x' : Int) : Prop :=
  lines < lines' ∨ lines = lines' ∧ x ≤ x'

/-- An item does not let the first layout get ahead. -/
theorem Behind.step
    {lines lines' : Nat} {x x' : Int} {c : α}
    (h : Behind lines lines' x x') (hx' : 0 ≤ x') :
    Behind (lines + if L.breaksAt x c then 1 else 0) (lines' + if L.breaksAt x' c then 1 else 0)
      (L.cursorAfter x c) (L.cursorAfter x' c) := by
  unfold Behind Layout.breaksAt Layout.cursorAfter at *
  cases hnewline : L.newline c with
  | true =>
      simp only [Bool.true_or, if_true]
      omega
  | false =>
      simp only [Bool.false_or, decide_eq_true_eq, Bool.false_eq_true, if_false]
      -- only the larger cursor can break a line alone, and a break alone is made up for
      by_cases hwrap : x + L.advance c > L.width
      · by_cases hwrap' : x' + L.advance c > L.width
        · simp only [if_pos hwrap, if_pos hwrap']
          omega
        · simp only [if_pos hwrap, if_neg hwrap']
          omega
      · by_cases hwrap' : x' + L.advance c > L.width
        · simp only [if_neg hwrap, if_pos hwrap']
          omega
        · simp only [if_neg hwrap, if_neg hwrap']
          omega

theorem Behind.length_le
    (hadvance : ∀ c, 0 ≤ L.advance c) (text : List α) :
    ∀ {lines lines' : Nat} (pos : Nat) {x x' : Int}, Behind lines lines' x x' → 0 ≤ x' →
      lines + (L.lineBreaks text pos x).length ≤
        lines' + (L.lineBreaks text pos x').length := by
  induction text with
  | nil =>
      intro lines lines' pos x x' h _
      simp only [Layout.lineBreaks, List.length_nil]
      rcases h with hlt | ⟨heq, -⟩ <;> omega
  | cons c rest ih =>
      intro lines lines' pos x x' h hx'
      have hc := hadvance c
      have hcursor : 0 ≤ L.cursorAfter x' c := by
        unfold Layout.cursorAfter
        split
        · omega
        · split <;> omega
      rw [length_lineBreaks_cons, length_lineBreaks_cons, ← Nat.add_assoc, ← Nat.add_assoc]
      exact ih pos (h.step L hx') hcursor

/-- From a smaller cursor on, a text needs no more breaks. -/
theorem length_lineBreaks_mono
    (hadvance : ∀ c, 0 ≤ L.advance c) (text : List α) (pos : Nat) {x x' : Int}
    (hx : x ≤ x') (hx' : 0 ≤ x') :
    (L.lineBreaks text pos x).length ≤ (L.lineBreaks text pos x').length := by
  have hbehind : Behind 0 0 x x' := Or.inr ⟨rfl, hx⟩
  simpa using hbehind.length_le L hadvance text pos hx'

/-- What lies behind break `k`, laid out from the start of a line, needs no more breaks than
the text had behind it. -/
theorem length_lineBreaks_drop
    (hadvance : ∀ c, 0 ≤ L.advance c) {text : List α} {k : Nat} {b : LineBreak}
    (hb : (L.lineBreaks text 0 0)[k]? = some b) :
    (L.lineBreaks (text.drop (b.position + 1)) 0 0).length + (k + 1) ≤
      (L.lineBreaks text 0 0).length := by
  have hk := (List.getElem?_eq_some_iff.mp hb).1
  rcases lineBreaks_split L hadvance text 0 0 k b hb with ⟨y, hy, hdrop⟩
  have hlength := congrArg List.length hdrop
  rw [List.length_drop, Nat.sub_zero] at hlength
  have hmono := length_lineBreaks_mono L hadvance (text.drop (b.position + 1)) 0 hy hy
  have hshift := length_lineBreaks L (text.drop (b.position + 1)) (b.position + 1) 0 y
  omega

end Monotone

section Capacity

/-- The breaks of a text are those of its first part, and behind them those of its second
part from some cursor on. -/
theorem lineBreaks_append
    (front back : List α) :
    ∀ (pos : Nat) (x : Int), ∃ y,
      L.lineBreaks (front ++ back) pos x =
        L.lineBreaks front pos x ++ L.lineBreaks back (pos + front.length) y := by
  induction front with
  | nil =>
      intro pos x
      exact ⟨x, rfl⟩
  | cons c rest ih =>
      intro pos x
      obtain ⟨y, hy⟩ := ih (pos + 1) (L.cursorAfter x c)
      have hpos : pos + (c :: rest).length = pos + 1 + rest.length := by
        rw [List.length_cons]
        omega
      refine ⟨y, ?_⟩
      rw [List.cons_append, lineBreaks_cons, lineBreaks_cons, hy, hpos]
      split
      · rfl
      · rfl

/-- Lines that hold `m` items are broken once for `m` items of a text without newlines, and
once more for the line on which it starts.  The induction counts the items in front of the
cursor, `j` of them; a line that was begun by another text may be full. -/
theorem length_lineBreaks_capacity
    {m : Nat} {a : Int} (hm : 1 ≤ m) (ha : 0 ≤ a) (hwidth : m * a ≤ L.width) {text : List α}
    (hnewline : ∀ c ∈ text, L.newline c = false) (hadvance : ∀ c ∈ text, L.advance c ≤ a) :
    ∀ (pos j : Nat) (x : Int), j ≤ m → (x ≤ j * a ∨ j = m) →
      m * (L.lineBreaks text pos x).length ≤ text.length + j := by
  induction text with
  | nil =>
      intro pos j x _ _
      simp [Layout.lineBreaks]
  | cons c rest ih =>
      intro pos j x hj hx
      obtain ⟨hc, hrestNewline⟩ := List.forall_mem_cons.mp hnewline
      obtain ⟨hcAdvance, hrestAdvance⟩ := List.forall_mem_cons.mp hadvance
      have hrest := ih hrestNewline hrestAdvance pos
      have hbreaks : L.breaksAt x c = decide (x + L.advance c > L.width) := by
        rw [Layout.breaksAt, hc, Bool.false_or]
      have hcursor : L.cursorAfter x c =
          if x + L.advance c > L.width then L.advance c else x + L.advance c := by
        rw [Layout.cursorAfter, hc, if_neg Bool.false_ne_true]
      have hnext : ((j + 1 : Nat) : Int) * a = j * a + a := by
        rw [Int.natCast_succ, Int.add_mul, Int.one_mul]
      rw [length_lineBreaks_cons, hbreaks, hcursor, List.length_cons]
      by_cases hover : x + L.advance c > L.width
      · -- only a full line is broken, and the item starts the next one
        have hfull : j = m := by
          by_contra hne
          have hle : x ≤ j * a := hx.resolve_right hne
          have hmul : ((j + 1 : Nat) : Int) * a ≤ m * a :=
            Int.mul_le_mul_of_nonneg_right (by omega) ha
          omega
        have hone := hrest 1 (L.advance c) hm (Or.inl (by omega))
        rw [if_pos hover, if_pos (decide_eq_true hover), Nat.mul_add, Nat.mul_one]
        omega
      · rw [if_neg hover, if_neg (by simpa using hover), Nat.zero_add]
        rcases Nat.lt_or_eq_of_le hj with hlt | heq
        · have hle : x ≤ j * a := hx.resolve_right (Nat.ne_of_lt hlt)
          have hstep := hrest (j + 1) (x + L.advance c) hlt (Or.inl (by omega))
          omega
        · have hstep := hrest m (x + L.advance c) (Nat.le_refl m) (Or.inr rfl)
          omega

end Capacity

end GreedyWrap
end DexprOS
