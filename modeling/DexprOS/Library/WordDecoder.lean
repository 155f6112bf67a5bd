import Mathlib.Data.List.Basic
import Mathlib.Tactic.Common

/-!
# Decoders of code words

A decoder reads one symbol at a time.  A symbol moves it to another position, or
completes a word and takes it back to its home position, or is rejected there.

Main facts:
* `reads_words`: a concatenation of words that the decoder spells from its home
  position is read as exactly those words, in order;
* `Reads.simulates`: a machine that follows the decoder's positions and ignores some
  symbols emits exactly the words it is fed, with ignored symbols anywhere between;
* `comes_home`: a machine that every other symbol takes home or closer to home comes home.
-/

namespace DexprOS
namespace WordDecoder

universe u v w x

/-- What a symbol does at a position. -/
inductive Outcome (σ : Type u) (κ : Type w) where
  | moved (position : σ)
  | emits (key : κ)
  | rejects

section WordDecoder

variable {σ : Type u} {β : Type v} {κ : Type w}
variable (decode : σ → β → Outcome σ κ) (home : σ)

/-- From the position, the symbols complete one word for the key. -/
inductive Spells : σ → List β → κ → Prop where
  | last {p : σ} {b : β} {k : κ} :
      decode p b = .emits k → Spells p [b] k
  | next {p p' : σ} {b : β} {bs : List β} {k : κ} :
      decode p b = .moved p' → Spells p' bs k → Spells p (b :: bs) k

/-- From the position, the symbols complete one word after another, up to home. -/
inductive Reads : σ → List β → List κ → Prop where
  | done : Reads home [] []
  | moved {p p' : σ} {b : β} {bs : List β} {ks : List κ} :
      decode p b = .moved p' → Reads p' bs ks → Reads p (b :: bs) ks
  | emits {p : σ} {b : β} {bs : List β} {k : κ} {ks : List κ} :
      decode p b = .emits k → Reads home bs ks → Reads p (b :: bs) (k :: ks)

variable {decode home}

theorem Spells.reads
    {p : σ} {word : List β} {k : κ}
    (h : Spells decode p word k)
    {rest : List β} {ks : List κ}
    (hrest : Reads decode home home rest ks) :
    Reads decode home p (word ++ rest) (k :: ks) := by
  induction h with
  | last hb =>
      exact Reads.emits hb hrest
  | next hb _ ih =>
      exact Reads.moved hb ih

/-- Words are read one by one. -/
theorem reads_words
    {ω : Type x} {symbols : ω → List β} {key : ω → κ}
    (hspells : ∀ word, Spells decode home (symbols word) (key word))
    (words : List ω) :
    Reads decode home home (words.flatMap symbols) (words.map key) := by
  induction words with
  | nil =>
      exact Reads.done
  | cons word words ih =>
      exact (hspells word).reads ih

/-- A machine that simulates the decoder emits what is read. -/
theorem Reads.simulates
    {S : Type x} (step : S → β → S) (ignored : β → Bool)
    (At : σ → S → Prop) (log : S → List κ)
    (hignored : ∀ p s b, At p s → ignored b = true →
      At p (step s b) ∧ log (step s b) = log s)
    (hmoved : ∀ p p' s b, At p s → ignored b = false → decode p b = .moved p' →
      At p' (step s b) ∧ log (step s b) = log s)
    (hemits : ∀ p k s b, At p s → ignored b = false → decode p b = .emits k →
      At home (step s b) ∧ log (step s b) = log s ++ [k])
    {p : σ} {bs : List β} {ks : List κ}
    (h : Reads decode home p (bs.filter fun b => !ignored b) ks)
    {s : S} (hs : At p s) :
    At home (bs.foldl step s) ∧ log (bs.foldl step s) = log s ++ ks := by
  induction bs generalizing p ks s with
  | nil =>
      cases h
      exact ⟨hs, by simp⟩
  | cons b bs ih =>
      rw [List.foldl_cons]
      by_cases hb : ignored b = true
      · rw [List.filter_cons_of_neg (by simp [hb])] at h
        obtain ⟨hat, hlog⟩ := hignored p s b hs hb
        exact hlog ▸ ih h hat
      · have hb' : ignored b = false := by simpa using hb
        rw [List.filter_cons_of_pos (by simp [hb'])] at h
        cases h with
        | moved hstep hrest =>
            obtain ⟨hat, hlog⟩ := hmoved _ _ s b hs hb' hstep
            exact hlog ▸ ih hrest hat
        | emits hstep hrest =>
            obtain ⟨hat, hlog⟩ := hemits _ _ s b hs hb' hstep
            obtain ⟨hhome, hall⟩ := ih hrest hat
            exact ⟨hhome, by rw [hall, hlog, List.append_assoc]; rfl⟩

end WordDecoder

section Homecoming

variable {β : Type v} {S : Type x}

/-- Whatever it reads, the machine comes home within its distance.  Ignored symbols do not
count, and do not take it away from where it is. -/
theorem comes_home
    (step : S → β → S) (ignored : β → Bool) (Distance : Nat → S → Prop) (Home : S → Prop)
    (hpositive : ∀ n s, Distance n s → 1 ≤ n)
    (hignored : ∀ n s b, Distance n s → ignored b = true → Distance n (step s b))
    (hstep : ∀ n s b, Distance n s → ignored b = false →
      Home (step s b) ∨ ∃ n', n' < n ∧ Distance n' (step s b))
    (bs : List β) :
    ∀ {n : Nat} {s : S}, Distance n s → n ≤ (bs.filter fun b => !ignored b).length →
      ∃ front, front <+: bs ∧ 1 ≤ (front.filter fun b => !ignored b).length ∧
        (front.filter fun b => !ignored b).length ≤ n ∧ Home (front.foldl step s) := by
  induction bs with
  | nil =>
      intro n s hs hcount
      exact absurd hcount (by simpa using Nat.ne_of_gt (hpositive n s hs))
  | cons b bs ih =>
      intro n s hs hcount
      cases hb : ignored b with
      | true =>
          rw [List.filter_cons_of_neg (by simp [hb])] at hcount
          rcases ih (hignored n s b hs hb) hcount with ⟨front, hfront, hone, hle, hhome⟩
          refine ⟨b :: front, (List.prefix_cons_inj b).mpr hfront, ?_, ?_, hhome⟩
          · rwa [List.filter_cons_of_neg (by simp [hb])]
          · rwa [List.filter_cons_of_neg (by simp [hb])]
      | false =>
          rw [List.filter_cons_of_pos (by simp [hb]), List.length_cons] at hcount
          rcases hstep n s b hs hb with hhome | ⟨n', hlt, hs'⟩
          · refine ⟨[b], (List.prefix_cons_inj b).mpr List.nil_prefix, ?_, ?_, hhome⟩
            · simp [hb]
            · simpa [hb] using hpositive n s hs
          · rcases ih hs' (by omega) with ⟨front, hfront, -, hle, hhome⟩
            refine ⟨b :: front, (List.prefix_cons_inj b).mpr hfront, ?_, ?_, hhome⟩
            · rw [List.filter_cons_of_pos (by simp [hb]), List.length_cons]
              omega
            · rw [List.filter_cons_of_pos (by simp [hb]), List.length_cons]
              omega

end Homecoming

end WordDecoder
end DexprOS
