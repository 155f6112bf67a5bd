import DexprOS.Library.FuelLoop
import Mathlib.Control.Monad.Writer

/-!
# Computations with a trace of their accesses

A computation in the writer monad gives a result and the list of everything that it has
accessed on the way, so that a bound on the accesses can be stated next to the result.

Main facts:
* `Traced.result_bind`, `Traced.within_bind_iff`: results and accesses of a sequence;
* `Traced.result_foldlM`, `Traced.within_foldlM_iff`: a loop over a list;
* `Traced.within_foldlM`: the invariant rule of such a loop;
* `Traced.result_findSomeM?`, `Traced.within_findSomeM?`: a loop that ends with a result;
* `Traced.result_foreverM`, `Traced.within_foreverM`: a loop with fuel;
* `Traced.within_relabel_iff`: a computation as a part of one with more accesses.
-/

namespace DexprOS

universe u v

/-- A computation that records its accesses. -/
abbrev Traced (Access : Type u) : Type u → Type u :=
  Writer (List Access)

namespace Traced

variable {Access α β : Type u} {ι : Type v}

section Trace

/-- What the computation gives. -/
def result (x : Traced Access α) : α :=
  (Id.run x.run).1

/-- What the computation accesses, in order. -/
def accesses (x : Traced Access α) : List Access :=
  (Id.run x.run).2

/-- A value that takes one access. -/
def access (made : Access) (value : α) : Traced Access α := do
  tell [made]
  pure value

/-- Every access satisfies `P`. -/
def Within (P : Access → Prop) (x : Traced Access α) : Prop :=
  ∀ made ∈ x.accesses, P made

variable {P : Access → Prop}

-- The parentheses keep these three lemmas from rewriting by definition only.

@[simp] theorem result_pure
    (value : α) :
    (pure value : Traced Access α).result = value :=
  (rfl)

@[simp] theorem result_bind
    (x : Traced Access α) (f : α → Traced Access β) :
    (x >>= f).result = (f x.result).result :=
  (rfl)

@[simp] theorem result_access
    (made : Access) (value : α) :
    (access made value).result = value :=
  (rfl)

@[simp] theorem within_pure
    (value : α) :
    (pure value : Traced Access α).Within P :=
  fun _ hmade => absurd hmade List.not_mem_nil

@[simp] theorem within_tell_iff
    (made : List Access) :
    (tell made : Traced Access PUnit).Within P ↔ ∀ a ∈ made, P a :=
  Iff.rfl

@[simp] theorem within_bind_iff
    (x : Traced Access α) (f : α → Traced Access β) :
    (x >>= f).Within P ↔ x.Within P ∧ (f x.result).Within P :=
  List.forall_mem_append

@[simp] theorem within_access_iff
    (made : Access) (value : α) :
    (access made value).Within P ↔ P made := by
  simp [access]

end Trace

section Fold

/-- A loop whose steps give what the steps of another one do. -/
theorem result_foldlM
    {f : β → ι → Traced Access β} {g : β → ι → β}
    (hstep : ∀ b i, (f b i).result = g b i) (items : List ι) (b : β) :
    (items.foldlM f b).result = items.foldl g b := by
  induction items generalizing b with
  | nil => rfl
  | cons i rest ih => rw [List.foldlM_cons, result_bind, hstep, ih, List.foldl_cons]

/-- A loop each of whose steps decides for itself. -/
theorem within_foldlM_iff
    {P : Access → Prop} {Q : ι → Prop} {f : β → ι → Traced Access β} {items : List ι}
    (hstep : ∀ i ∈ items, ∀ b, (f b i).Within P ↔ Q i) (b : β) :
    (items.foldlM f b).Within P ↔ ∀ i ∈ items, Q i := by
  induction items generalizing b with
  | nil => simp
  | cons i rest ih =>
      rw [List.foldlM_cons, within_bind_iff, hstep i List.mem_cons_self,
        ih fun j hj => hstep j (List.mem_cons_of_mem i hj), List.forall_mem_cons]

/-- The invariant rule of a loop: a step that finds the invariant stays within `P` and leaves
it. -/
theorem within_foldlM
    {P : Access → Prop} {I : β → Prop} {f : β → ι → Traced Access β} {items : List ι}
    (hstep : ∀ i ∈ items, ∀ b, I b → (f b i).Within P ∧ I (f b i).result) {b : β} (hb : I b) :
    (items.foldlM f b).Within P ∧ I (items.foldlM f b).result := by
  induction items generalizing b with
  | nil => simpa using hb
  | cons i rest ih =>
      obtain ⟨hwithin, hnext⟩ := hstep i List.mem_cons_self b hb
      obtain ⟨hrest, hresult⟩ := ih (fun j hj => hstep j (List.mem_cons_of_mem i hj)) hnext
      rw [List.foldlM_cons, within_bind_iff, result_bind]
      exact ⟨⟨hwithin, hrest⟩, hresult⟩

end Fold

section Search

/-- A loop that ends with the first result. -/
theorem result_findSomeM?
    {f : ι → Traced Access (Option β)} {g : ι → Option β}
    (hstep : ∀ i, (f i).result = g i) (items : List ι) :
    (items.findSomeM? f).result = items.findSome? g := by
  induction items with
  | nil => rfl
  | cons i rest ih =>
      rw [List.findSomeM?, List.findSome?_cons, result_bind, hstep]
      cases g i with
      | none => exact ih
      | some found => rfl

theorem within_findSomeM?
    {P : Access → Prop} {f : ι → Traced Access (Option β)} {items : List ι}
    (hstep : ∀ i ∈ items, (f i).Within P) :
    (items.findSomeM? f).Within P := by
  induction items with
  | nil => exact within_pure _
  | cons i rest ih =>
      rw [List.findSomeM?, within_bind_iff]
      refine ⟨hstep i List.mem_cons_self, ?_⟩
      cases (f i).result with
      | none => exact ih fun j hj => hstep j (List.mem_cons_of_mem i hj)
      | some found => exact within_pure _

end Search

section Fuel

open DexprOS.Fuel

variable {P : Access → Prop} {σ : Type u}

/-- What goes on with a value, if there is one. -/
def onSome (f : α → Traced Access (Option β)) : Option α → Traced Access (Option β)
  | none => pure none
  | some a => f a

@[simp] theorem result_onSome
    (f : α → Traced Access (Option β)) (a : Option α) :
    (onSome f a).result = a.bind fun a => (f a).result := by
  cases a <;> rfl

/-- `for (;;) { body }` with at most `fuel` passes. -/
def foreverM (body : σ → Traced Access (Pass σ β)) : Nat → σ → Traced Access (Option β)
  | 0, _ => pure none
  | fuel + 1, s => do
      match ← body s with
      | .leave result => pure (some result)
      | .again s' => foreverM body fuel s'

/-- A loop whose passes end like those of another one. -/
theorem result_foreverM
    {body : σ → Traced Access (Pass σ β)} {g : σ → Pass σ β}
    (hbody : ∀ s, (body s).result = g s) (fuel : Nat) (s : σ) :
    (foreverM body fuel s).result = forever g fuel s := by
  induction fuel generalizing s with
  | zero => rfl
  | succ fuel ih =>
      rw [foreverM, forever, result_bind, hbody]
      cases g s with
      | leave result => rfl
      | again s' => exact ih s'

/-- The invariant rule: a pass that finds the invariant stays within `P`, and leaves the
invariant behind when it goes round again. -/
theorem within_foreverM
    {I : σ → Prop} {body : σ → Traced Access (Pass σ β)}
    (hbody : ∀ s, I s → (body s).Within P ∧ ∀ s', (body s).result = .again s' → I s')
    (fuel : Nat) {s : σ} (hs : I s) :
    (foreverM body fuel s).Within P := by
  induction fuel generalizing s with
  | zero => exact within_pure none
  | succ fuel ih =>
      obtain ⟨hwithin, hagain⟩ := hbody s hs
      rw [foreverM, within_bind_iff]
      refine ⟨hwithin, ?_⟩
      cases hpass : (body s).result with
      | leave result => exact within_pure _
      | again s' => exact ih (hagain s' hpass)

end Fuel

section Relabel

variable {Access' : Type u}

/-- The computation with other names for its accesses. -/
def relabel (f : Access → Access') (x : Traced Access α) : Traced Access' α :=
  WriterT.adapt (List.map f) x

@[simp] theorem result_relabel
    (f : Access → Access') (x : Traced Access α) :
    (relabel f x).result = x.result :=
  (rfl)

@[simp] theorem within_relabel_iff
    {P : Access' → Prop} (f : Access → Access') (x : Traced Access α) :
    (relabel f x).Within P ↔ x.Within fun made => P (f made) :=
  List.forall_mem_map

end Relabel

end Traced

end DexprOS
