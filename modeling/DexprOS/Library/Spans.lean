import Mathlib.Algebra.Order.Ring.Nat
import Mathlib.Data.List.Chain
import Mathlib.Data.List.Sort
import Mathlib.Tactic.Common

/-!
# Labelled spans of addresses and their coalescing

A span is a half-open range of addresses with a label.  A list of spans is
*ordered* when it is ascending, disjoint and free of empty spans.  Coalescing
joins neighbours that touch and carry equal labels.

Main facts:
* `ordered_coalesce`: coalescing keeps a list ordered;
* `labels_coalesce`: it changes no address's label;
* `isChain_coalesce`: no two consecutive results can still be joined;
* `eq_of_labels`: such a list is determined by the labels of the addresses.
-/

namespace DexprOS
namespace Spans

universe u

section Spans

variable {L : Type u}

/-- A half-open range of addresses with a label. -/
structure Span (L : Type u) where
  start : Nat
  stop : Nat
  label : L
deriving DecidableEq

/-- Ascending, disjoint and without empty spans. -/
structure Ordered (spans : List (Span L)) : Prop where
  ascending : spans.Pairwise (fun a b => a.stop ≤ b.start)
  nonempty : ∀ a, a ∈ spans → a.start < a.stop

/-- Address `x` lies in a span labelled `l`. -/
def Labels (spans : List (Span L)) (x : Nat) (l : L) : Prop :=
  ∃ a, a ∈ spans ∧ a.start ≤ x ∧ x < a.stop ∧ a.label = l

/-- Two spans touch and carry the same label. -/
def Joinable (a b : Span L) : Prop :=
  a.stop = b.start ∧ a.label = b.label

instance [DecidableEq L] (a b : Span L) : Decidable (Joinable a b) :=
  inferInstanceAs (Decidable (_ ∧ _))

@[simp] theorem labels_nil
    (x : Nat) (l : L) :
    ¬ Labels ([] : List (Span L)) x l := by
  simp [Labels]

theorem labels_cons
    (a : Span L) (spans : List (Span L)) (x : Nat) (l : L) :
    Labels (a :: spans) x l ↔
      (a.start ≤ x ∧ x < a.stop ∧ a.label = l) ∨ Labels spans x l := by
  simp [Labels]

theorem ordered_cons
    (a : Span L) (spans : List (Span L)) :
    Ordered (a :: spans) ↔
      a.start < a.stop ∧ (∀ b, b ∈ spans → a.stop ≤ b.start) ∧
        Ordered spans := by
  constructor
  · rintro ⟨hasc, hne⟩
    obtain ⟨hhead, htail⟩ := List.pairwise_cons.mp hasc
    exact ⟨hne a (by simp), hhead,
      ⟨htail, fun b hb => hne b (List.mem_cons_of_mem a hb)⟩⟩
  · rintro ⟨ha, hhead, ⟨hasc, hne⟩⟩
    refine ⟨List.pairwise_cons.mpr ⟨hhead, hasc⟩, fun b hb => ?_⟩
    rcases List.mem_cons.mp hb with rfl | hb
    · exact ha
    · exact hne b hb

/-- In an ordered list an address has at most one label. -/
theorem Ordered.label_unique
    {spans : List (Span L)} (h : Ordered spans)
    {x : Nat} {l l' : L}
    (hl : Labels spans x l) (hl' : Labels spans x l') :
    l = l' := by
  induction spans with
  | nil =>
      exact absurd hl (labels_nil x l)
  | cons a spans ih =>
      obtain ⟨-, hhead, htail⟩ := (ordered_cons a spans).mp h
      have hlater : ∀ l₀, Labels spans x l₀ → a.stop ≤ x := by
        rintro l₀ ⟨b, hb, hbx, -, -⟩
        exact Nat.le_trans (hhead b hb) hbx
      rcases (labels_cons a spans x l).mp hl with ⟨-, hlt, rfl⟩ | hl
      · rcases (labels_cons a spans x l').mp hl' with ⟨-, -, rfl⟩ | hl'
        · rfl
        · have := hlater l' hl'
          omega
      · rcases (labels_cons a spans x l').mp hl' with ⟨-, hlt, -⟩ | hl'
        · have := hlater l hl
          omega
        · exact ih htail hl hl'

/-- Ordered spans between `x` and `n` have no more addresses than lie there. -/
theorem Ordered.sum_length_le
    {spans : List (Span L)} (h : Ordered spans) {x n : Nat} (hxn : x ≤ n)
    (hstart : ∀ a, a ∈ spans → x ≤ a.start) (hstop : ∀ a, a ∈ spans → a.stop ≤ n) :
    x + (spans.map (fun a => a.stop - a.start)).sum ≤ n := by
  induction spans generalizing x with
  | nil =>
      simpa using hxn
  | cons a spans ih =>
      obtain ⟨ha, hhead, htail⟩ := (ordered_cons a spans).mp h
      have hxa := hstart a (by simp)
      have hrest := ih htail (hstop a (by simp)) hhead
        (fun b hb => hstop b (List.mem_cons_of_mem a hb))
      rw [List.map_cons, List.sum_cons]
      omega

/-- In an ordered list the first span starts at the lowest labelled address. -/
theorem Ordered.head_start_le
    {a b : Span L} {spans spans' : List (Span L)}
    (ha : Ordered (a :: spans)) (hb : Ordered (b :: spans'))
    (h : ∀ x l, Labels (b :: spans') x l → Labels (a :: spans) x l) :
    a.start ≤ b.start := by
  obtain ⟨hastart, hahead, -⟩ := (ordered_cons a _).mp ha
  obtain ⟨hbstart, -, -⟩ := (ordered_cons b _).mp hb
  have hfirst := h b.start b.label
    ((labels_cons _ _ _ _).mpr (.inl ⟨Nat.le_refl _, hbstart, rfl⟩))
  obtain ⟨hle, -, -⟩ | ⟨c, hc, hle, -, -⟩ := (labels_cons _ _ _ _).mp hfirst
  · exact hle
  · exact (hastart.le.trans (hahead c hc)).trans hle

/-- A first span that no other one continues ends where its label ends. -/
theorem Ordered.head_stop_le
    {a b : Span L} {spans spans' : List (Span L)}
    (ha : Ordered (a :: spans)) (hchain : (a :: spans).IsChain (fun a b => ¬ Joinable a b))
    (hstart : b.start ≤ a.start) (hlabel : b.label = a.label)
    (h : ∀ x l, Labels (b :: spans') x l → Labels (a :: spans) x l) :
    b.stop ≤ a.stop := by
  obtain ⟨hastart, hahead, hrest⟩ := (ordered_cons a _).mp ha
  by_contra hlong
  -- The address behind `a` still has the label of `a`, so the next span begins there.
  have hbehind := h a.stop a.label
    ((labels_cons _ _ _ _).mpr (.inl ⟨by omega, by omega, hlabel⟩))
  obtain ⟨-, hlt, -⟩ | ⟨c, hc, hle, hlt, hclabel⟩ := (labels_cons _ _ _ _).mp hbehind
  · omega
  · cases spans with
    | nil =>
        exact absurd hc List.not_mem_nil
    | cons d rest =>
        obtain ⟨hdstart, hdhead, -⟩ := (ordered_cons d _).mp hrest
        have hd := hahead d List.mem_cons_self
        have hnot := (List.isChain_cons_cons.mp hchain).1
        obtain rfl | hc := List.mem_cons.mp hc
        · exact hnot ⟨by omega, hclabel.symm⟩
        · have hdc := hdhead c hc
          omega

/-- The labels behind the first span of an ordered list. -/
theorem Ordered.labels_tail
    {a : Span L} {spans : List (Span L)} (h : Ordered (a :: spans)) (x : Nat) (l : L) :
    Labels spans x l ↔ a.stop ≤ x ∧ Labels (a :: spans) x l := by
  obtain ⟨-, hhead, -⟩ := (ordered_cons a _).mp h
  rw [labels_cons]
  constructor
  · rintro ⟨c, hc, hle, hrest⟩
    exact ⟨(hhead c hc).trans hle, .inr ⟨c, hc, hle, hrest⟩⟩
  · rintro ⟨hle, ⟨-, hlt, -⟩ | hlabels⟩
    · omega
    · exact hlabels

/-- Ordered lists in which no two consecutive spans can be joined are determined by the
labels of the addresses. -/
theorem eq_of_labels
    {spans spans' : List (Span L)} (hs : Ordered spans) (hs' : Ordered spans')
    (hchain : spans.IsChain (fun a b => ¬ Joinable a b))
    (hchain' : spans'.IsChain (fun a b => ¬ Joinable a b))
    (h : ∀ x l, Labels spans x l ↔ Labels spans' x l) :
    spans = spans' := by
  induction spans generalizing spans' with
  | nil =>
      cases spans' with
      | nil =>
          rfl
      | cons b spans' =>
          have hb := ((ordered_cons b _).mp hs').1
          have hfirst := (h b.start b.label).mpr
            ((labels_cons _ _ _ _).mpr (.inl ⟨Nat.le_refl _, hb, rfl⟩))
          exact absurd hfirst (labels_nil _ _)
  | cons a spans ih =>
      obtain ⟨ha, -, hrest⟩ := (ordered_cons a _).mp hs
      cases spans' with
      | nil =>
          have hfirst := (h a.start a.label).mp
            ((labels_cons _ _ _ _).mpr (.inl ⟨Nat.le_refl _, ha, rfl⟩))
          exact absurd hfirst (labels_nil _ _)
      | cons b spans' =>
          obtain ⟨hb, -, hrest'⟩ := (ordered_cons b _).mp hs'
          have hforward : ∀ x l, Labels (a :: spans) x l → Labels (b :: spans') x l :=
            fun x l => (h x l).mp
          have hbackward : ∀ x l, Labels (b :: spans') x l → Labels (a :: spans) x l :=
            fun x l => (h x l).mpr
          have hstart : a.start = b.start :=
            Nat.le_antisymm (hs.head_start_le hs' hbackward) (hs'.head_start_le hs hforward)
          have hfirst : Labels (a :: spans) a.start a.label :=
            (labels_cons _ _ _ _).mpr (.inl ⟨Nat.le_refl _, ha, rfl⟩)
          have hfirst' : Labels (b :: spans') a.start b.label :=
            (labels_cons _ _ _ _).mpr (.inl ⟨hstart.ge, hstart ▸ hb, rfl⟩)
          have hlabel : a.label = b.label :=
            hs'.label_unique (hforward _ _ hfirst) hfirst'
          have hstop : a.stop = b.stop :=
            Nat.le_antisymm
              (hs'.head_stop_le hchain' hstart.le hlabel hforward)
              (hs.head_stop_le hchain hstart.ge hlabel.symm hbackward)
          have heq : a = b := by
            cases a
            cases b
            simp_all
          subst heq
          have htail := ih hrest hrest' hchain.tail hchain'.tail fun x l => by
            rw [hs.labels_tail, hs'.labels_tail, h x l]
          rw [htail]

variable [DecidableEq L]

/-- Coalesce `spans` behind the pending span `a`. -/
def coalesceFrom (a : Span L) : List (Span L) → List (Span L)
  | [] => [a]
  | b :: spans =>
      if Joinable a b then
        coalesceFrom { a with stop := b.stop } spans
      else
        a :: coalesceFrom b spans

/-- Join neighbours that touch and carry equal labels. -/
def coalesce : List (Span L) → List (Span L)
  | [] => []
  | a :: spans => coalesceFrom a spans

/-- What holds of all spans, and of two joined ones, holds of all results. -/
theorem coalesceFrom_forall
    {P : Span L → Prop}
    (hP : ∀ a b, Joinable a b → P a → P b → P { a with stop := b.stop })
    (spans : List (Span L)) :
    ∀ {a : Span L}, P a → (∀ b, b ∈ spans → P b) → ∀ c, c ∈ coalesceFrom a spans → P c := by
  induction spans with
  | nil =>
      intro a ha _ c hc
      obtain rfl : c = a := by simpa [coalesceFrom] using hc
      exact ha
  | cons b spans ih =>
      intro a ha hspans c hc
      have hb := hspans b (by simp)
      have hrest : ∀ d, d ∈ spans → P d :=
        fun d hd => hspans d (List.mem_cons_of_mem b hd)
      rw [coalesceFrom] at hc
      split_ifs at hc with hjoin
      · exact ih (hP a b hjoin ha hb) hrest c hc
      · rcases List.mem_cons.mp hc with rfl | hc
        · exact ha
        · exact ih hb hrest c hc

theorem coalesce_forall
    {P : Span L → Prop}
    (hP : ∀ a b, Joinable a b → P a → P b → P { a with stop := b.stop })
    {spans : List (Span L)} (hspans : ∀ b, b ∈ spans → P b) :
    ∀ c, c ∈ coalesce spans → P c := by
  cases spans with
  | nil =>
      exact hspans
  | cons a spans =>
      exact coalesceFrom_forall hP spans (hspans a (by simp))
        (fun b hb => hspans b (List.mem_cons_of_mem a hb))

theorem ordered_coalesceFrom
    (spans : List (Span L)) :
    ∀ {a : Span L}, Ordered (a :: spans) → Ordered (coalesceFrom a spans) := by
  induction spans with
  | nil =>
      intro a h
      exact h
  | cons b spans ih =>
      intro a h
      obtain ⟨ha, hhead, htail⟩ := (ordered_cons a _).mp h
      obtain ⟨hb, hbhead, hbtail⟩ := (ordered_cons b _).mp htail
      have hab := hhead b (by simp)
      rw [coalesceFrom]
      split_ifs with hjoin
      · apply ih
        exact (ordered_cons _ _).mpr ⟨by simp only; omega, hbhead, hbtail⟩
      · refine (ordered_cons _ _).mpr ⟨ha, ?_, ih htail⟩
        exact coalesceFrom_forall (P := fun c => a.stop ≤ c.start)
          (fun _ _ _ h _ => h) spans hab
          (fun c hc => hhead c (List.mem_cons_of_mem b hc))

theorem labels_coalesceFrom
    (spans : List (Span L)) :
    ∀ {a : Span L}, Ordered (a :: spans) → ∀ (x : Nat) (l : L),
      (Labels (coalesceFrom a spans) x l ↔ Labels (a :: spans) x l) := by
  induction spans with
  | nil =>
      intro a _ x l
      rfl
  | cons b spans ih =>
      intro a h x l
      obtain ⟨ha, hhead, htail⟩ := (ordered_cons a _).mp h
      obtain ⟨hb, hbhead, hbtail⟩ := (ordered_cons b _).mp htail
      rw [coalesceFrom]
      split_ifs with hjoin
      · obtain ⟨htouch, hlabel⟩ := hjoin
        have hjoined : Ordered ({ a with stop := b.stop } :: spans) :=
          (ordered_cons _ _).mpr ⟨by simp only; omega, hbhead, hbtail⟩
        rw [ih hjoined, labels_cons, labels_cons, labels_cons, ← or_assoc]
        refine or_congr ?_ Iff.rfl
        constructor
        · rintro ⟨hlo, hhi, rfl⟩
          by_cases hx : x < a.stop
          · exact Or.inl ⟨hlo, hx, rfl⟩
          · exact Or.inr ⟨by omega, hhi, hlabel.symm⟩
        · rintro (⟨hlo, hhi, rfl⟩ | ⟨hlo, hhi, rfl⟩)
          · exact ⟨hlo, by simp only; omega, rfl⟩
          · exact ⟨by simp only; omega, hhi, hlabel⟩
      · rw [labels_cons, ih htail, labels_cons a]

/-- The pending span may only grow before it is given out. -/
theorem coalesceFrom_head
    (spans : List (Span L)) :
    ∀ a : Span L, ∃ s rest,
      coalesceFrom a spans = { a with stop := s } :: rest := by
  induction spans with
  | nil =>
      intro a
      exact ⟨a.stop, [], rfl⟩
  | cons b spans ih =>
      intro a
      rw [coalesceFrom]
      split_ifs with hjoin
      · exact ih { a with stop := b.stop }
      · exact ⟨a.stop, coalesceFrom b spans, rfl⟩

theorem isChain_coalesceFrom
    (spans : List (Span L)) :
    ∀ a : Span L,
      (coalesceFrom a spans).IsChain (fun b c => ¬ Joinable b c) := by
  induction spans with
  | nil =>
      intro a
      exact List.isChain_singleton a
  | cons b spans ih =>
      intro a
      rw [coalesceFrom]
      split_ifs with hjoin
      · exact ih _
      · obtain ⟨s, rest, hrest⟩ := coalesceFrom_head spans b
        have hchain := ih b
        rw [hrest] at hchain ⊢
        exact List.isChain_cons_cons.mpr ⟨hjoin, hchain⟩

theorem ordered_coalesce
    {spans : List (Span L)} (h : Ordered spans) :
    Ordered (coalesce spans) := by
  cases spans with
  | nil =>
      exact h
  | cons a spans =>
      exact ordered_coalesceFrom spans h

theorem labels_coalesce
    {spans : List (Span L)} (h : Ordered spans) (x : Nat) (l : L) :
    Labels (coalesce spans) x l ↔ Labels spans x l := by
  cases spans with
  | nil =>
      rfl
  | cons a spans =>
      exact labels_coalesceFrom spans h x l

theorem isChain_coalesce
    (spans : List (Span L)) :
    (coalesce spans).IsChain (fun a b => ¬ Joinable a b) := by
  cases spans with
  | nil =>
      exact List.isChain_nil
  | cons a spans =>
      exact isChain_coalesceFrom spans a

end Spans

end Spans
end DexprOS
