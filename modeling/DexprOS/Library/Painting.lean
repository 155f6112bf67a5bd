import DexprOS.Library.Damage
import Mathlib.Data.Set.Lattice
import Mathlib.Data.List.Nodup
import Mathlib.Data.List.ProdSigma

/-!
# Painting and erasing

A state shows a value at each place.  An operation paints a set of places if it leaves the
other places alone, and if what it shows at a place depends on what was shown there.  Filling
the painted places with one value makes up for the painting wherever that value was shown
before.

Main facts:
* `Paints.foldl`, `Fills.foldl`: operations one after another;
* `Paints.forEach`, `Fills.forEach`: operations in the cells of a raster;
* `Fills.erases`: filling undoes painting.
-/

namespace DexprOS
namespace Painting

open Damage

universe u v w

variable {S : Type u} {P : Type v} {V : Type w} {α : Type*}

section Operations

/-- Among the states of `Inv`, `f` changes only what is shown in `places`, and what it shows
at a place depends on what was shown there. -/
structure Paints (Inv : S → Prop) (view : S → P → V) (places : Set P) (f : S → S) : Prop where
  inv : ∀ s, Inv s → Inv (f s)
  keeps : ∀ s, Inv s → ∀ p, p ∉ places → view (f s) p = view s p
  pointwise : ∀ s t, Inv s → Inv t → ∀ p, view s p = view t p → view (f s) p = view (f t) p

/-- `f` shows `v` in `places` and changes nothing else. -/
structure Fills (Inv : S → Prop) (view : S → P → V) (places : Set P) (v : V) (f : S → S) :
    Prop where
  inv : ∀ s, Inv s → Inv (f s)
  keeps : ∀ s, Inv s → ∀ p, p ∉ places → view (f s) p = view s p
  fills : ∀ s, Inv s → ∀ p, p ∈ places → view (f s) p = v

variable {Inv : S → Prop} {view : S → P → V} {places places' : Set P} {v : V} {f g : S → S}

theorem paints_id :
    Paints Inv view ∅ id :=
  ⟨fun _ hs => hs, fun _ _ _ _ => rfl, fun _ _ _ _ _ h => h⟩

theorem fills_id :
    Fills Inv view ∅ v id :=
  ⟨fun _ hs => hs, fun _ _ _ _ => rfl, fun _ _ _ hp => absurd hp (Set.notMem_empty _)⟩

theorem Paints.mono
    (hf : Paints Inv view places f) (hsubset : places ⊆ places') :
    Paints Inv view places' f :=
  ⟨hf.inv, fun s hs p hp => hf.keeps s hs p fun h => hp (hsubset h), hf.pointwise⟩

theorem Paints.comp
    (hf : Paints Inv view places f) (hg : Paints Inv view places' g) :
    Paints Inv view (places ∪ places') (g ∘ f) where
  inv := fun s hs => hg.inv _ (hf.inv s hs)
  keeps := by
    intro s hs p hp
    rw [Set.mem_union, not_or] at hp
    exact (hg.keeps _ (hf.inv s hs) p hp.2).trans (hf.keeps s hs p hp.1)
  pointwise := fun s t hs ht p h =>
    hg.pointwise _ _ (hf.inv s hs) (hf.inv t ht) p (hf.pointwise s t hs ht p h)

theorem Fills.comp
    (hf : Fills Inv view places v f) (hg : Fills Inv view places' v g) :
    Fills Inv view (places ∪ places') v (g ∘ f) where
  inv := fun s hs => hg.inv _ (hf.inv s hs)
  keeps := by
    intro s hs p hp
    rw [Set.mem_union, not_or] at hp
    exact (hg.keeps _ (hf.inv s hs) p hp.2).trans (hf.keeps s hs p hp.1)
  fills := by
    intro s hs p hp
    by_cases hp' : p ∈ places'
    · exact hg.fills _ (hf.inv s hs) p hp'
    · exact (hg.keeps _ (hf.inv s hs) p hp').trans
        (hf.fills s hs p (hp.resolve_right hp'))

/-- Operations one after another paint what each of them paints. -/
theorem Paints.foldl {ops : List α} {region : α → Set P} {run : α → S → S}
    (hops : ∀ op ∈ ops, Paints Inv view (region op) (run op)) :
    Paints Inv view {p | ∃ op ∈ ops, p ∈ region op}
      fun s => ops.foldl (fun s op => run op s) s := by
  induction ops with
  | nil =>
      exact paints_id.mono (Set.empty_subset _)
  | cons op ops ih =>
      have hfirst := hops op List.mem_cons_self
      have hrest := ih fun op hop => hops op (List.mem_cons_of_mem _ hop)
      refine (hfirst.comp hrest).mono ?_
      rintro p (hp | ⟨op', hop', hp⟩)
      · exact ⟨op, List.mem_cons_self, hp⟩
      · exact ⟨op', List.mem_cons_of_mem _ hop', hp⟩

theorem Fills.congr
    (hf : Fills Inv view places v f) (heq : places = places') :
    Fills Inv view places' v f :=
  heq ▸ hf

/-- What an operation does in other states does not matter. -/
theorem Fills.of_eq
    (hf : Fills Inv view places v f) (heq : ∀ s, Inv s → g s = f s) :
    Fills Inv view places v g where
  inv := by
    intro s hs
    rw [heq s hs]
    exact hf.inv s hs
  keeps := by
    intro s hs
    rw [heq s hs]
    exact hf.keeps s hs
  fills := by
    intro s hs
    rw [heq s hs]
    exact hf.fills s hs

/-- Operations one after another fill what each of them fills. -/
theorem Fills.foldl {ops : List α} {region : α → Set P} {run : α → S → S}
    (hops : ∀ op ∈ ops, Fills Inv view (region op) v (run op)) :
    Fills Inv view {p | ∃ op ∈ ops, p ∈ region op} v
      fun s => ops.foldl (fun s op => run op s) s := by
  induction ops with
  | nil =>
      refine fills_id.congr ?_
      ext p
      simp
  | cons op ops ih =>
      have hfirst := hops op List.mem_cons_self
      have hrest := ih fun op hop => hops op (List.mem_cons_of_mem _ hop)
      refine (hfirst.comp hrest).congr ?_
      ext p
      simp

end Operations

section Projection

variable {S' : Type*} {proj : S' → S} {Inv : S → Prop} {Inv' : S' → Prop} {view : S → P → V}
variable {places : Set P} {v : V} {f : S → S} {g : S' → S'}

/-- What paints a part of the state paints the state. -/
theorem Paints.comap
    (hf : Paints Inv view places f) (hproj : ∀ s, Inv' s → Inv (proj s))
    (hinv : ∀ s, Inv' s → Inv' (g s)) (hg : ∀ s, Inv' s → proj (g s) = f (proj s)) :
    Paints Inv' (fun s => view (proj s)) places g where
  inv := hinv
  keeps := by
    intro s hs p hp
    rw [hg s hs]
    exact hf.keeps _ (hproj s hs) p hp
  pointwise := by
    intro s t hs ht p h
    rw [hg s hs, hg t ht]
    exact hf.pointwise _ _ (hproj s hs) (hproj t ht) p h

theorem Fills.comap
    (hf : Fills Inv view places v f) (hproj : ∀ s, Inv' s → Inv (proj s))
    (hinv : ∀ s, Inv' s → Inv' (g s)) (hg : ∀ s, Inv' s → proj (g s) = f (proj s)) :
    Fills Inv' (fun s => view (proj s)) places v g where
  inv := hinv
  keeps := by
    intro s hs p hp
    rw [hg s hs]
    exact hf.keeps _ (hproj s hs) p hp
  fills := by
    intro s hs p hp
    rw [hg s hs]
    exact hf.fills _ (hproj s hs) p hp

end Projection

section Raster

variable {Inv : S → Prop} {view : S → P → V} {v : V} {region : Nat → Nat → Set P}
variable {width height : Nat} {f : Nat → Nat → S → S}

/-- The places of the cells of a raster. -/
def rasterPlaces (width height : Nat) (region : Nat → Nat → Set P) : Set P :=
  {p | ∃ h < height, ∃ w < width, p ∈ region h w}

theorem Paints.forEach
    (hf : ∀ h < height, ∀ w < width, Paints Inv view (region h w) (f h w)) :
    Paints Inv view (rasterPlaces width height region) (forEach width height f) := by
  have hrow : ∀ h ∈ List.range height, Paints Inv view {p | ∃ w ∈ List.range width, p ∈ region h w}
      fun s => (List.range width).foldl (fun s w => f h w s) s :=
    fun h hh => Paints.foldl fun w hw => hf h (List.mem_range.mp hh) w (List.mem_range.mp hw)
  refine (Paints.foldl hrow).mono ?_
  rintro p ⟨h, hh, w, hw, hp⟩
  exact ⟨h, List.mem_range.mp hh, w, List.mem_range.mp hw, hp⟩

theorem Fills.forEach
    (hf : ∀ h < height, ∀ w < width, Fills Inv view (region h w) v (f h w)) :
    Fills Inv view (rasterPlaces width height region) v (forEach width height f) := by
  have hrow : ∀ h ∈ List.range height,
      Fills Inv view {p | ∃ w ∈ List.range width, p ∈ region h w} v
        fun s => (List.range width).foldl (fun s w => f h w s) s :=
    fun h hh => Fills.foldl fun w hw => hf h (List.mem_range.mp hh) w (List.mem_range.mp hw)
  refine (Fills.foldl hrow).congr ?_
  ext p
  simp only [rasterPlaces, Set.mem_ofPred_eq, List.mem_range]

end Raster

section OwnPlaces

variable {view : S → P → V} {visible : Set P} {place : α → P} {g : α → V → V}
variable {run : α → S → S}

/-- `run` changes what is shown in the operation's own place by `g`, and no other place. -/
structure DrawsOwnPlace (view : S → P → V) (visible : Set P) (place : α → P) (g : α → V → V)
    (run : α → S → S) (op : α) : Prop where
  mem : place op ∈ visible
  own : ∀ s, view (run op s) (place op) = g op (view s (place op))
  other : ∀ s, ∀ p ∈ visible, p ≠ place op → view (run op s) p = view s p

/-- Operations with places of their own do not interfere. -/
theorem foldl_own_place
    {ops : List α} (hnodup : (ops.map place).Nodup)
    (hops : ∀ op ∈ ops, DrawsOwnPlace view visible place g run op) :
    ∀ s, ∀ op ∈ ops,
      view (ops.foldl (fun s op => run op s) s) (place op) = g op (view s (place op)) := by
  induction ops with
  | nil =>
      intro s op hop
      exact absurd hop List.not_mem_nil
  | cons first rest ih =>
      intro s op hop
      obtain ⟨hfirst, hrest⟩ := List.nodup_cons.mp hnodup
      have hops' (op : α) (hop : op ∈ rest) := hops op (List.mem_cons_of_mem first hop)
      have hdraws := hops first List.mem_cons_self
      rw [List.foldl_cons]
      rcases List.mem_cons.mp hop with rfl | hop
      · -- the operations that follow have other places
        rw [← hdraws.own]
        refine List.foldlRecOn (motive := fun s' => view s' (place op) = view (run op s) (place op))
          rest _ rfl fun s' hs' op' hop' => ?_
        rw [(hops' op' hop').other s' _ hdraws.mem fun heq =>
          hfirst (heq ▸ List.mem_map_of_mem hop'), hs']
      · rw [ih hrest hops' (run first s) op hop, hdraws.other s _ (hops' op hop).mem fun heq =>
          hfirst (heq ▸ List.mem_map_of_mem hop)]

/-- So do the cells of a raster. -/
theorem forEach_own_place
    {width height : Nat} {place : Nat × Nat → P} {g : Nat × Nat → V → V}
    {f : Nat → Nat → S → S}
    (hinj : Function.Injective place)
    (hcells : ∀ h < height, ∀ w < width,
      DrawsOwnPlace view visible place g (fun c => f c.1 c.2) (h, w))
    (s : S) {h w : Nat} (hh : h < height) (hw : w < width) :
    view (forEach width height f s) (place (h, w)) = g (h, w) (view s (place (h, w))) := by
  have hfold : forEach width height f s =
      (List.product (List.range height) (List.range width)).foldl
        (fun s c => f c.1 c.2 s) s := by
    simp only [forEach, List.product, List.foldl_flatMap, List.foldl_map]
  have hnodup : ((List.product (List.range height) (List.range width)).map place).Nodup :=
    (List.Nodup.product List.nodup_range List.nodup_range).map hinj
  have hops : ∀ c ∈ List.product (List.range height) (List.range width),
      DrawsOwnPlace view visible place g (fun c => f c.1 c.2) c := by
    intro c hc
    obtain ⟨hh, hw⟩ := List.mem_product.mp hc
    exact hcells c.1 (List.mem_range.mp hh) c.2 (List.mem_range.mp hw)
  rw [hfold]
  exact foldl_own_place hnodup hops s (h, w)
    (List.mem_product.mpr ⟨List.mem_range.mpr hh, List.mem_range.mpr hw⟩)

end OwnPlaces

section Erasing

variable {Inv : S → Prop} {view : S → P → V} {places places' : Set P} {v : V}
variable {f g : S → S} {s t : S}

/-- Filling at least what was painted undoes the painting, also in a state that only shows
the same as the painted one. -/
theorem Fills.erases
    (hg : Fills Inv view places' v g) (hf : Paints Inv view places f)
    (hsubset : places ⊆ places') (hs : Inv s) (ht : Inv t) {p : P} (hp : view s p = v)
    (heq : view t p = view (f s) p) :
    view (g t) p = v := by
  by_cases hmem : p ∈ places'
  · exact hg.fills t ht p hmem
  · rw [hg.keeps t ht p hmem, heq, hf.keeps s hs p fun h => hmem (hsubset h), hp]

end Erasing

end Painting
end DexprOS
