import Mathlib.Data.List.TakeWhile
import Mathlib.Tactic.Common

/-!
# Words of a scanned line

A line is scanned with a pointer and the number of elements that are left.  Every read is
checked, so that a scan that leaves the line has no result.  The first word of a line ends in
front of the first separator.

Main facts:
* `skip_eq`, `readSlice_eq`: scanning the rest of a line stays in it;
* `firstWord_behindWord_iff`: the lines with a given first word and a given text behind it.
-/

namespace DexprOS
namespace Words

variable {α : Type}

section Scan

/-- A pointer into a line, and the number of elements from there on. -/
structure Slice where
  pointer : Nat
  length : Nat

/-- The slice is what is left of the line. -/
def Slice.IsRest (slice : Slice) (input : List α) : Prop :=
  slice.pointer + slice.length = input.length

/-- Moves the pointer over the elements that are to be skipped. -/
def skip (input : List α) (skipped : α → Bool) : Nat → Nat → Option Slice
  | pointer, 0 => some ⟨pointer, 0⟩
  | pointer, length + 1 => do
      let c ← input[pointer]?
      if skipped c then skip input skipped (pointer + 1) length
      else some ⟨pointer, length + 1⟩

/-- The elements of a slice. -/
def readSlice (input : List α) : Nat → Nat → Option (List α)
  | _, 0 => some []
  | pointer, length + 1 => do
      let c ← input[pointer]?
      let rest ← readSlice input (pointer + 1) length
      some (c :: rest)

theorem drop_of_isRest
    {input : List α} {pointer length : Nat}
    (hrest : pointer + (length + 1) = input.length) :
    ∃ c, input[pointer]? = some c ∧ input.drop pointer = c :: input.drop (pointer + 1) := by
  have hlt : pointer < input.length := by
    omega
  exact ⟨input[pointer], List.getElem?_eq_getElem hlt, List.drop_eq_getElem_cons hlt⟩

theorem skip_eq
    (input : List α) (skipped : α → Bool) :
    ∀ pointer length, pointer + length = input.length →
      ∃ slice : Slice, skip input skipped pointer length = some slice ∧ slice.IsRest input ∧
        input.drop slice.pointer = (input.drop pointer).dropWhile skipped := by
  intro pointer length
  induction length generalizing pointer with
  | zero =>
      intro hrest
      refine ⟨⟨pointer, 0⟩, rfl, hrest, ?_⟩
      have hnil : input.drop pointer = [] := List.drop_eq_nil_of_le (Nat.le_of_eq hrest.symm)
      simp [hnil]
  | succ length ih =>
      intro hrest
      rcases drop_of_isRest hrest with ⟨c, hc, hdrop⟩
      cases hskipped : skipped c with
      | true =>
          rcases ih (pointer + 1) (by omega) with ⟨slice, hslice, hfits, hline⟩
          refine ⟨slice, ?_, hfits, ?_⟩
          · simpa [skip, hc, hskipped] using hslice
          · rw [hline, hdrop, List.dropWhile_cons_of_pos hskipped]
      | false =>
          refine ⟨⟨pointer, length + 1⟩, ?_, hrest, ?_⟩
          · simp [skip, hc, hskipped]
          · rw [hdrop, List.dropWhile_cons_of_neg (by simp [hskipped])]

theorem readSlice_eq
    (input : List α) :
    ∀ pointer length, pointer + length = input.length →
      readSlice input pointer length = some (input.drop pointer) := by
  intro pointer length
  induction length generalizing pointer with
  | zero =>
      intro hrest
      rw [List.drop_eq_nil_of_le (show input.length ≤ pointer from Nat.le_of_eq hrest.symm)]
      rfl
  | succ length ih =>
      intro hrest
      rcases drop_of_isRest hrest with ⟨c, hc, hdrop⟩
      simp [readSlice, hc, ih (pointer + 1) (by omega), hdrop]

end Scan

section Word

variable [DecidableEq α] (separator : α)

def firstWord (input : List α) : List α :=
  input.takeWhile (· ≠ separator)

/-- What is left of a line behind its first word and the separators that end it. -/
def behindWord (input : List α) : List α :=
  (input.dropWhile (· ≠ separator)).dropWhile (· = separator)

variable {separator} {word text input : List α}

theorem firstWord_eq_self
    (hword : separator ∉ word) :
    firstWord separator word = word := by
  unfold firstWord
  rw [List.takeWhile_eq_self_iff]
  intro c hc
  simpa using ne_of_mem_of_not_mem hc hword

theorem firstWord_append
    (hword : separator ∉ word) (text : List α) :
    firstWord separator (word ++ separator :: text) = word ∧
      behindWord separator (word ++ separator :: text) =
        text.dropWhile (· = separator) := by
  have hkept : ∀ c ∈ word, decide (c ≠ separator) = true := by
    intro c hc
    simpa using ne_of_mem_of_not_mem hc hword
  unfold firstWord behindWord
  rw [List.takeWhile_append_of_pos hkept, List.dropWhile_append_of_pos hkept]
  simp

/-- The first element that is not skipped is no separator. -/
theorem head?_behindWord_ne
    (input : List α) :
    (behindWord separator input).head? ≠ some separator := by
  intro hhead
  have hnot := List.head?_dropWhile_not (· = separator) (input.dropWhile (· ≠ separator))
  unfold behindWord at hhead
  rw [hhead] at hnot
  simp at hnot

theorem takeWhile_eq_replicate
    (separator : α) (input : List α) :
    ∃ k, input.takeWhile (· = separator) = List.replicate k separator := by
  refine ⟨_, List.eq_replicate_of_mem fun c hc => ?_⟩
  simpa using List.mem_takeWhile_imp hc

/-- Nothing lies behind a line that is one word. -/
theorem behindWord_eq_nil
    (hself : input = firstWord separator input) :
    behindWord separator input = [] := by
  have hsplit := List.takeWhile_append_dropWhile (p := (· ≠ separator)) (l := input)
  unfold firstWord at hself
  rw [← hself] at hsplit
  unfold behindWord
  rw [List.append_right_eq_self.mp hsplit]
  rfl

/-- A line that goes on behind its first word does so with separators. -/
theorem eq_firstWord_append
    (hne : input ≠ firstWord separator input) :
    ∃ k, input = firstWord separator input ++ List.replicate (k + 1) separator ++
      behindWord separator input := by
  have hsplit := List.takeWhile_append_dropWhile (p := (· ≠ separator)) (l := input)
  have hnot := List.head?_dropWhile_not (· ≠ separator) input
  unfold firstWord behindWord at *
  cases hrest : input.dropWhile (· ≠ separator) with
  | nil =>
      rw [hrest, List.append_nil] at hsplit
      exact absurd hsplit.symm hne
  | cons c rest =>
      rw [hrest] at hsplit hnot
      obtain rfl : c = separator := by
        simpa using hnot
      rcases takeWhile_eq_replicate c rest with ⟨k, hk⟩
      refine ⟨k, ?_⟩
      rw [List.dropWhile_cons_of_pos (by simp), List.append_assoc, List.replicate_succ,
        List.cons_append, ← hk, List.takeWhile_append_dropWhile]
      exact hsplit.symm

/-- The lines with this first word and this text behind it. -/
theorem firstWord_behindWord_iff
    (hword : separator ∉ word) :
    firstWord separator input = word ∧ behindWord separator input = text ↔
      (input = word ∧ text = []) ∨
        ∃ k, input = word ++ List.replicate (k + 1) separator ++ text ∧
          text.head? ≠ some separator := by
  constructor
  · rintro ⟨rfl, rfl⟩
    by_cases hne : input = firstWord separator input
    · exact Or.inl ⟨hne, behindWord_eq_nil hne⟩
    · rcases eq_firstWord_append hne with ⟨k, hk⟩
      exact Or.inr ⟨k, hk, head?_behindWord_ne input⟩
  · rintro (⟨rfl, rfl⟩ | ⟨k, rfl, htext⟩)
    · have hself := firstWord_eq_self hword
      exact ⟨hself, behindWord_eq_nil hself.symm⟩
    · rcases firstWord_append hword (List.replicate k separator ++ text) with ⟨hfirst, hbehind⟩
      rw [List.append_assoc, List.replicate_succ, List.cons_append]
      refine ⟨hfirst, hbehind.trans ?_⟩
      rw [List.dropWhile_append_of_pos (by simp)]
      cases text with
      | nil =>
          rfl
      | cons c text =>
          rw [List.dropWhile_cons_of_neg]
          simpa using htext

end Word

end Words
end DexprOS
