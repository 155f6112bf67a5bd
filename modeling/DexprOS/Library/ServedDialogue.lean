import DexprOS.Library.Dialogue

/-!
# Dialogues with a machine

A dialogue runs against a machine that replies to its calls and changes its state with them.
Dialogues with loops depend on their fuel, so that a result has to come for every large enough
fuel.

Main facts:
* `Yields.bind`, `yields_ask`, `yields_loop`: the rules for results.
-/

namespace DexprOS
namespace Conversation

open Fuel

section Served

variable {C R N α β σ μ : Type} {S : Type}

/-- The dialogue against a machine, up to its result. -/
def Dialogue.serve (machine : C → S → R × S) : Dialogue C R N α → S → Option (α × S)
  | .done result, s => some (result, s)
  | .stuck, _ => none
  | .call c next, s => (next (machine c s).1).serve machine (machine c s).2
  | .note _ next, s => next.serve machine s

variable (machine : C → S → R × S)

/-- The dialogue ends with every large enough fuel, and what it ends with satisfies `post`. -/
def Yields (d : Nat → Dialogue C R N α) (post : α → S → Prop) (s : S) : Prop :=
  ∃ result s', Returns (fun fuel => (d fuel).serve machine s) (result, s') ∧ post result s'

variable {machine}
variable {post : α → S → Prop} {s : S}

theorem serve_bind
    (d : Dialogue C R N α) (f : α → Dialogue C R N β) (s : S) :
    (d >>= f).serve machine s =
      (d.serve machine s).bind fun r => (f r.1).serve machine r.2 := by
  induction d generalizing s with
  | done result => rfl
  | stuck => rfl
  | call c next ih => exact ih _ _
  | note n next ih => exact ih s

theorem yields_pure
    {result : α} (h : post result s) :
    Yields machine (fun _ => (pure result : Dialogue C R N α)) post s :=
  ⟨result, s, returns_pure _, h⟩

theorem yields_ask
    {post : R → S → Prop} {c : C} (h : post (machine c s).1 (machine c s).2) :
    Yields machine (fun _ => (.ask c : Dialogue C R N R)) post s :=
  ⟨_, _, returns_pure _, h⟩

theorem Yields.bind
    {post' : β → S → Prop} {d : Nat → Dialogue C R N α} {f : Nat → α → Dialogue C R N β}
    (h : Yields machine d post s)
    (hf : ∀ result s, post result s → Yields machine (fun fuel => f fuel result) post' s) :
    Yields machine (fun fuel => d fuel >>= f fuel) post' s := by
  obtain ⟨result, s', hreturns, hpost⟩ := h
  obtain ⟨result', t, hreturns', hpost'⟩ := hf result s' hpost
  refine ⟨result', t, ?_, hpost'⟩
  have hbind := hreturns.bind (g := fun r fuel => (f fuel r.1).serve machine r.2) hreturns'
  exact hbind.congr fun fuel => serve_bind (d fuel) (f fuel) s

theorem Yields.mono
    {post' : α → S → Prop} {d : Nat → Dialogue C R N α} (h : Yields machine d post s)
    (himp : ∀ result s, post result s → post' result s) :
    Yields machine d post' s := by
  obtain ⟨result, s', hreturns, hpost⟩ := h
  exact ⟨result, s', hreturns, himp result s' hpost⟩

/-- What a pass of a loop has to do: to leave with a result, or to keep the invariant and to
decrease the variant. -/
def PassYields (machine : C → S → R × S) (r : μ → μ → Prop) (variant : σ → S → μ)
    (invariant : σ → S → Prop) (post : β → S → Prop) (x : σ) (s : S)
    (d : Dialogue C R N (Pass σ β)) : Prop :=
  match d.serve machine s with
  | some (.leave result, s') => post result s'
  | some (.again x', s') => invariant x' s' ∧ r (variant x' s') (variant x s)
  | none => False

/-- A pass that leaves ends the loop. -/
theorem serve_loop_of_leave
    {body : σ → Dialogue C R N (Pass σ β)} {x : σ} {result : β} {s' : S}
    (h : (body x).serve machine s = some (.leave result, s')) (fuel : Nat) :
    (Dialogue.loop body (fuel + 1) x).serve machine s = some (result, s') := by
  rw [Dialogue.loop, serve_bind, h]
  rfl

/-- After any other pass the loop goes on from the new state. -/
theorem serve_loop_of_again
    {body : σ → Dialogue C R N (Pass σ β)} {x x' : σ} {s' : S}
    (h : (body x).serve machine s = some (.again x', s')) (fuel : Nat) :
    (Dialogue.loop body (fuel + 1) x).serve machine s =
      (Dialogue.loop body fuel x').serve machine s' := by
  rw [Dialogue.loop, serve_bind, h]
  rfl

/-- The rule for loops, with an invariant and a well-founded variant. -/
theorem yields_loop
    {r : μ → μ → Prop} (hr : WellFounded r) (variant : σ → S → μ) (invariant : σ → S → Prop)
    {post : β → S → Prop} {body : σ → Dialogue C R N (Pass σ β)}
    (hbody : ∀ x s, invariant x s →
      PassYields machine r variant invariant post x s (body x)) {x : σ}
    (hs : invariant x s) :
    Yields machine (fun fuel => .loop body fuel x) post s := by
  induction hv : variant x s using hr.induction generalizing x s with
  | _ v ih =>
      have hpass := hbody x s hs
      rw [PassYields] at hpass
      cases hserve : (body x).serve machine s with
      | none => rw [hserve] at hpass; exact hpass.elim
      | some p =>
          obtain ⟨pass, s'⟩ := p
          rw [hserve] at hpass
          cases pass with
          | leave result =>
              refine ⟨result, s', ⟨1, fun fuel hfuel => ?_⟩, hpass⟩
              obtain ⟨n, rfl⟩ := Nat.exists_eq_add_of_le' hfuel
              exact serve_loop_of_leave hserve n
          | again x' =>
              obtain ⟨hinv, hlt⟩ := hpass
              rw [hv] at hlt
              obtain ⟨result, t, hreturns, hpost⟩ := ih _ hlt hinv rfl
              exact ⟨result, t, (returns_iff_of_succ (serve_loop_of_again hserve)).mpr hreturns,
                hpost⟩

end Served

end Conversation
end DexprOS
