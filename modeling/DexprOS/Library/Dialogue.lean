import DexprOS.Library.FuelLoop

/-!
# Programs that call their environment

A `Dialogue` is a program that calls an environment of which nothing is known: after each
call it goes on with whatever reply it gets.  A note does not reach the environment; it
records a value of the program at that point.

A `Contract` keeps a state beside the conversation and says which calls and notes are right
in it, and which replies are expected.

Main facts:
* `Contract.Safe.bind`, `safe_loop`: the rules for composition and for loops;
* `Contract.Safe.allows_of_trace_eq`: a safe dialogue makes only right calls and notes as
  long as all replies before are expected ones.
-/

namespace DexprOS
namespace Conversation

open Fuel

section Programs

variable {C R N α β σ : Type}

/-- A program that calls its environment.  It is `stuck` where a loop runs out of fuel. -/
inductive Dialogue (C R N α : Type) where
  | done (result : α)
  | stuck
  | call (call : C) (next : R → Dialogue C R N α)
  | note (note : N) (next : Dialogue C R N α)

namespace Dialogue

def bind : Dialogue C R N α → (α → Dialogue C R N β) → Dialogue C R N β
  | done result, f => f result
  | stuck, _ => stuck
  | call c next, f => call c fun reply => (next reply).bind f
  | note n next, f => note n (next.bind f)

instance : Monad (Dialogue C R N) where
  pure := done
  bind := bind

/-- One call, with the reply as the result. -/
def ask (c : C) : Dialogue C R N R :=
  call c done

/-- A computation without calls. -/
def ofOption : Option α → Dialogue C R N α
  | none => stuck
  | some result => done result

/-- `for (;;) { body }` with at most `fuel` passes. -/
def loop (body : σ → Dialogue C R N (Pass σ β)) : Nat → σ → Dialogue C R N β
  | 0, _ => stuck
  | fuel + 1, s => do
      match ← body s with
      | .leave result => return result
      | .again s' => loop body fuel s'

end Dialogue

/-- What an observer of the conversation sees. -/
inductive Event (C R N : Type) where
  | called (call : C) (reply : R)
  | noted (note : N)
deriving DecidableEq

/-- The conversation, as long as there are replies. -/
def Dialogue.trace : Dialogue C R N α → List R → List (Event C R N)
  | .done _, _ => []
  | .stuck, _ => []
  | .call _ _, [] => []
  | .call c next, reply :: replies => .called c reply :: (next reply).trace replies
  | .note n next, replies => .noted n :: next.trace replies

end Programs

section Contracts

variable {C R N W α β σ : Type}

/-- The rules of a conversation, with a state `W` that the calls change. -/
structure Contract (C R N W : Type) where
  allowsCall : W → C → Prop
  allowsNote : W → N → Prop
  expects : C → R → Prop
  apply : W → C → R → W

namespace Contract

/-- A call or a note is right in a state, whatever the reply to the call. -/
def Allows (k : Contract C R N W) (w : W) : Event C R N → Prop
  | .called c _ => k.allowsCall w c
  | .noted n => k.allowsNote w n

/-- The reply to a call is an expected one. -/
def Expects (k : Contract C R N W) : Event C R N → Prop
  | .called c reply => k.expects c reply
  | .noted _ => True

/-- The state after an event. -/
def after (k : Contract C R N W) (w : W) : Event C R N → W
  | .called c reply => k.apply w c reply
  | .noted _ => w

/-- From the state `w`, a dialogue keeps to the contract as long as the replies are expected
ones, and its result satisfies `post`. -/
def Safe (k : Contract C R N W) (post : α → W → Prop) : Dialogue C R N α → W → Prop
  | .done result, w => post result w
  | .stuck, _ => True
  | .call c next, w =>
      k.allowsCall w c ∧ ∀ reply, k.expects c reply → k.Safe post (next reply) (k.apply w c reply)
  | .note n next, w => k.allowsNote w n ∧ k.Safe post next w

end Contract

variable {k : Contract C R N W} {post : α → W → Prop} {w : W}

theorem safe_pure
    {result : α} (h : post result w) :
    k.Safe post (pure result) w :=
  h

theorem safe_ask
    (post : R → W → Prop) {c : C} (hcall : k.allowsCall w c)
    (hreply : ∀ reply, k.expects c reply → post reply (k.apply w c reply)) :
    k.Safe post (.ask c) w :=
  ⟨hcall, hreply⟩

theorem safe_note
    {d : Dialogue C R N α} {n : N} (hnote : k.allowsNote w n) (h : k.Safe post d w) :
    k.Safe post (.note n d) w :=
  ⟨hnote, h⟩

theorem safe_ofOption
    (post : α → W → Prop) {computed : Option α}
    (h : ∀ result, computed = some result → post result w) :
    k.Safe post (.ofOption computed) w := by
  cases computed with
  | none =>
      trivial
  | some result =>
      exact h result rfl

theorem Contract.Safe.bind
    {post' : β → W → Prop} {d : Dialogue C R N α} {f : α → Dialogue C R N β}
    (h : k.Safe post d w)
    (hf : ∀ result w, post result w → k.Safe post' (f result) w) :
    k.Safe post' (d >>= f) w := by
  induction d generalizing w with
  | done result =>
      exact hf result w h
  | stuck =>
      trivial
  | call c next ih =>
      exact ⟨h.1, fun reply hreply => ih reply (h.2 reply hreply)⟩
  | note n next ih =>
      exact ⟨h.1, ih h.2⟩

/-- What a pass of a loop has to establish. -/
def PassPost (invariant : σ → W → Prop) (post : β → W → Prop) : Pass σ β → W → Prop
  | .leave result => post result
  | .again s => invariant s

/-- The rule for loops: each pass keeps the invariant or leaves. -/
theorem safe_loop
    {body : σ → Dialogue C R N (Pass σ β)} (invariant : σ → W → Prop) {post : β → W → Prop}
    (hbody : ∀ s w, invariant s w → k.Safe (PassPost invariant post) (body s) w)
    (fuel : Nat) {s : σ} (hs : invariant s w) :
    k.Safe post (.loop body fuel s) w := by
  induction fuel generalizing s w with
  | zero =>
      trivial
  | succ fuel ih =>
      refine (hbody s w hs).bind fun pass w hpass => ?_
      cases pass with
      | leave result =>
          exact safe_pure hpass
      | again s' =>
          exact ih hpass

/-- Every call and every note of a safe dialogue is right, if the replies before are
expected ones. -/
theorem Contract.Safe.allows_of_trace_eq
    {d : Dialogue C R N α} (h : k.Safe post d w) {replies : List R}
    {before rest : List (Event C R N)} {event : Event C R N}
    (htrace : d.trace replies = before ++ event :: rest)
    (hbefore : ∀ e ∈ before, k.Expects e) :
    k.Allows (before.foldl k.after w) event := by
  induction d generalizing w replies before with
  | done result =>
      simp [Dialogue.trace] at htrace
  | stuck =>
      simp [Dialogue.trace] at htrace
  | call c next ih =>
      cases replies with
      | nil =>
          simp [Dialogue.trace] at htrace
      | cons reply replies =>
          cases before with
          | nil =>
              obtain ⟨rfl, -⟩ := List.cons_eq_cons.mp htrace
              exact h.1
          | cons e before =>
              obtain ⟨rfl, hnext⟩ := List.cons_eq_cons.mp htrace
              rw [List.forall_mem_cons] at hbefore
              exact ih reply (h.2 reply hbefore.1) hnext hbefore.2
  | note n next ih =>
      cases before with
      | nil =>
          obtain ⟨rfl, -⟩ := List.cons_eq_cons.mp htrace
          exact h.1
      | cons e before =>
          obtain ⟨rfl, hnext⟩ := List.cons_eq_cons.mp htrace
          rw [List.forall_mem_cons] at hbefore
          rw [List.foldl_cons]
          exact ih h.2 hnext hbefore.2

end Contracts

end Conversation
end DexprOS
