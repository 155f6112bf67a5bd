import DexprOS.Library.FuelLoop
import Mathlib.Logic.Relation
import Mathlib.Data.Fintype.Pigeonhole
import Mathlib.Data.Set.Finite.List
import Mathlib.Tactic.Common

/-!
# Walks along a partial successor function

A partial successor function on finitely many items either leads a walk to an
item without successor or runs it into a cycle.  When the items carry a rank that
only *retreating* items fail to raise, every cycle contains a retreating item.

Main facts:
* `Ends.not_cycle_of_reach`: a walk that ends meets no cycle;
* `ends_of_acyclic`: a walk over finitely many items that meets no cycle ends;
* `ends_iff_no_retreating_cycle`: it is enough to watch the retreating items;
* `returns_iff_ends`: a loop whose passes follow a walk returns when the walk ends.
-/

namespace DexprOS
namespace FiniteWalk

open Fuel Relation

universe u v w

section FiniteWalk

variable {α : Type u} (next : α → Option α)

/-- `y` is the successor of `x`. -/
def Follows (x y : α) : Prop := next x = some y

/-- The walk from `x` comes to an item without successor. -/
inductive Ends : α → Prop
  | last {x : α} (h : next x = none) : Ends x
  | step {x y : α} (h : next x = some y) (hy : Ends y) : Ends x

variable {next}

theorem Ends.of_follows
    {x y : α} (h : Ends next x) (hxy : Follows next x y) :
    Ends next y := by
  cases h with
  | last hnone =>
      rw [Follows, hnone] at hxy
      cases hxy
  | step hsome hy =>
      rw [Follows, hsome] at hxy
      cases hxy
      exact hy

theorem Ends.of_reach
    {x y : α} (h : Ends next x) (hxy : ReflTransGen (Follows next) x y) :
    Ends next y := by
  induction hxy with
  | refl => exact h
  | tail _ hstep ih => exact ih.of_follows hstep

/-- Moving one step on keeps an item that returns to itself returning. -/
theorem cycle_of_follows
    {x y : α} (hxy : Follows next x y)
    (hcycle : TransGen (Follows next) x x) :
    TransGen (Follows next) y y := by
  obtain ⟨z, hxz, hzx⟩ := TransGen.head'_iff.mp hcycle
  have hyz : y = z := Option.some.inj (hxy.symm.trans hxz)
  subst hyz
  exact TransGen.tail' hzx hxy

theorem Ends.not_cycle
    {x : α} (h : Ends next x) :
    ¬ TransGen (Follows next) x x := by
  induction h with
  | last hnone =>
      intro hcycle
      obtain ⟨z, hxz, -⟩ := TransGen.head'_iff.mp hcycle
      rw [Follows, hnone] at hxz
      cases hxz
  | step hsome _ ih =>
      exact fun hcycle => ih (cycle_of_follows hsome hcycle)

theorem Ends.not_cycle_of_reach
    {x y : α} (h : Ends next x) (hxy : ReflTransGen (Follows next) x y) :
    ¬ TransGen (Follows next) y y :=
  (h.of_reach hxy).not_cycle

/-- A walk that does not end goes on to another such item. -/
theorem exists_follows_of_not_ends
    {x : α} (h : ¬ Ends next x) :
    ∃ y, next x = some y ∧ ¬ Ends next y := by
  cases hx : next x with
  | none => exact absurd (Ends.last hx) h
  | some y => exact ⟨y, rfl, fun hy => h (Ends.step hx hy)⟩

/-- Over finitely many items a walk that meets no cycle ends. -/
theorem ends_of_acyclic
    {l : List α} (hmem : ∀ x y, next x = some y → y ∈ l)
    {x : α}
    (hacyclic : ∀ y, ReflTransGen (Follows next) x y →
      ¬ TransGen (Follows next) y y) :
    Ends next x := by
  by_contra hx
  let items : Nat → {y // ¬ Ends next y} := fun n =>
    Nat.rec ⟨x, hx⟩ (fun _ y =>
      ⟨(exists_follows_of_not_ends y.2).choose,
        (exists_follows_of_not_ends y.2).choose_spec.2⟩) n
  have hstep : ∀ n, Follows next (items n).1 (items (n + 1)).1 :=
    fun n => (exists_follows_of_not_ends (items n).2).choose_spec.1
  have hpath : ∀ n k, TransGen (Follows next) (items n).1 (items (n + 1 + k)).1 := by
    intro n k
    induction k with
    | zero => exact TransGen.single (hstep n)
    | succ k ih => exact ih.tail (hstep (n + 1 + k))
  have hreach : ∀ n, ReflTransGen (Follows next) x (items n).1 := by
    intro n
    induction n with
    | zero => exact ReflTransGen.refl
    | succ n ih => exact ih.tail (hstep n)
  have hin : ∀ n, (items (n + 1)).1 ∈ l := fun n => hmem _ _ (hstep n)
  -- infinitely many steps over the finitely many items of `l` repeat one
  have hfinite : Finite {y // y ∈ l} := (List.finite_toSet l).to_subtype
  obtain ⟨i, j, hne, heq⟩ := Finite.exists_ne_map_eq_of_infinite
    (fun n : Nat => (⟨(items (n + 1)).1, hin n⟩ : {y // y ∈ l}))
  have hval : (items (i + 1)).1 = (items (j + 1)).1 :=
    congrArg (fun y : {y // y ∈ l} => y.1) heq
  rcases Nat.lt_or_gt_of_ne hne with hlt | hlt
  · obtain ⟨k, rfl⟩ := Nat.exists_eq_add_of_lt hlt
    have hcycle := hpath (i + 1) k
    rw [show i + 1 + 1 + k = i + k + 1 + 1 by omega, ← hval] at hcycle
    exact hacyclic _ (hreach (i + 1)) hcycle
  · obtain ⟨k, rfl⟩ := Nat.exists_eq_add_of_lt hlt
    have hcycle := hpath (j + 1) k
    rw [show j + 1 + 1 + k = j + k + 1 + 1 by omega, hval] at hcycle
    exact hacyclic _ (hreach (j + 1)) hcycle

/-- Every cycle contains an item that does not raise the rank. -/
theorem exists_retreating_on_cycle
    {rank : α → Nat} {retreats : α → Prop}
    (hrank : ∀ x y, next x = some y → ¬ retreats x → rank x < rank y)
    {x : α} (hcycle : TransGen (Follows next) x x) :
    ∃ y, ReflTransGen (Follows next) x y ∧ retreats y ∧
      TransGen (Follows next) y y := by
  by_contra hnone
  have hgood : ∀ y, ReflTransGen (Follows next) x y →
      TransGen (Follows next) y y → ¬ retreats y :=
    fun y hy hyy hret => hnone ⟨y, hy, hret, hyy⟩
  have hraise : ∀ y, TransGen (Follows next) x y →
      ReflTransGen (Follows next) y x → rank x < rank y := by
    intro y hxy
    induction hxy with
    | single hstep =>
        intro _
        exact hrank _ _ hstep (hgood _ ReflTransGen.refl hcycle)
    | @tail b c hxb hbc ih =>
        intro hcx
        have hbx : ReflTransGen (Follows next) b x := hcx.head hbc
        have hbb : TransGen (Follows next) b b :=
          TransGen.trans_right hbx hxb
        exact (ih hbx).trans
          (hrank _ _ hbc (hgood b hxb.to_reflTransGen hbb))
  exact lt_irrefl _ (hraise x hcycle ReflTransGen.refl)

/-- A walk over finitely many items ends exactly when it meets no retreating item
that leads back to itself. -/
theorem ends_iff_no_retreating_cycle
    {l : List α} (hmem : ∀ x y, next x = some y → y ∈ l)
    {rank : α → Nat} {retreats : α → Prop}
    (hrank : ∀ x y, next x = some y → ¬ retreats x → rank x < rank y)
    (x : α) :
    Ends next x ↔
      ∀ y, ReflTransGen (Follows next) x y → retreats y →
        ¬ TransGen (Follows next) y y := by
  constructor
  · exact fun h y hxy _ => h.not_cycle_of_reach hxy
  · intro h
    refine ends_of_acyclic hmem (fun y hxy hcycle => ?_)
    obtain ⟨z, hyz, hret, hzz⟩ := exists_retreating_on_cycle hrank hcycle
    exact h z (hxy.trans hyz) hret hzz

end FiniteWalk

section LoopWalk

variable {α : Type u} {σ : Type v} {β : Type w}
  {next : α → Option α} {body : σ → Pass σ β} {tracks : σ → α → Prop}

/-- A loop whose passes follow the walk returns exactly when the walk ends. -/
theorem returns_iff_ends
    (hleave : ∀ s x, tracks s x → next x = none → ∃ result, body s = .leave result)
    (hagain : ∀ s x y, tracks s x → next x = some y →
      ∃ s', body s = .again s' ∧ tracks s' y)
    {s : σ} {x : α} (hs : tracks s x) :
    (∃ result, Returns (fun fuel => forever body fuel s) result) ↔ Ends next x := by
  constructor
  · rintro ⟨result, n, hn⟩
    have hrun := hn n (Nat.le_refl n)
    clear hn
    dsimp only at hrun
    induction n generalizing s x with
    | zero =>
        simp at hrun
    | succ n ih =>
        cases hx : next x with
        | none =>
            exact Ends.last hx
        | some y =>
            obtain ⟨s', hbody, hs'⟩ := hagain s x y hs hx
            rw [forever_again hbody] at hrun
            exact Ends.step hx (ih hs' hrun)
  · intro hends
    induction hends generalizing s with
    | last hnone =>
        obtain ⟨result, hbody⟩ := hleave s _ hs hnone
        exact ⟨result, forever_returns (forever_leave hbody 0)⟩
    | step hsome _ ih =>
        obtain ⟨s', hbody, hs'⟩ := hagain s _ _ hs hsome
        obtain ⟨result, hrun⟩ := ih hs'
        exact ⟨result, (returns_iff_of_succ (fun fuel => forever_again hbody fuel)).mpr
          hrun⟩

end LoopWalk

end FiniteWalk
end DexprOS
