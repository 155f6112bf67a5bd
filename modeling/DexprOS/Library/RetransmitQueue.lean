import Mathlib.Data.List.Basic
import Mathlib.Tactic.Common

/-!
# A queue whose head is retransmitted until it is answered

A sender keeps the messages that wait for their turn in a bounded queue.  Its head
is in flight: it is sent when it gets to the front and again after every refusal,
up to a limit of retransmissions.  An acknowledgement, or one refusal more than the
limit, takes it off the queue and sends the next one.

The queue carries its history: what it accepted, what left it and what was sent.

Main facts:
* `Queue.Consistent` is the conservation law of the history: nothing is lost,
  duplicated or reordered, and everything is sent between once and `limit + 1` times;
* `Consistent.push`, `Consistent.acknowledge`, `Consistent.resend`: every operation
  keeps it;
* `pushAll_room`: pushing takes as many messages as there is room for;
* `repeats_filter_getLast?`: the last message of a kind that was sent is the last one
  of that kind that was accepted.
-/

namespace DexprOS
namespace Retransmit

universe u

variable {α : Type u}

section Repeats

/-- Every element of the list as often as the list of counts says. -/
def repeats (l : List α) (times : List Nat) : List α :=
  (l.zipWith (fun a n => List.replicate n a) times).flatten

@[simp] theorem repeats_nil
    (times : List Nat) :
    repeats ([] : List α) times = [] := by
  simp [repeats]

@[simp] theorem repeats_cons
    (a : α) (l : List α) (n : Nat) (times : List Nat) :
    repeats (a :: l) (n :: times) = List.replicate n a ++ repeats l times := by
  simp [repeats]

theorem repeats_append
    {l : List α} {times : List Nat}
    (hlength : times.length = l.length)
    (l' : List α) (times' : List Nat) :
    repeats (l ++ l') (times ++ times') = repeats l times ++ repeats l' times' := by
  rw [repeats, List.zipWith_append (by omega), List.flatten_append]
  rfl

/-- If everything is repeated at least once, the last element of a kind stays the
last one. -/
theorem repeats_filter_getLast?
    {l : List α} {times : List Nat}
    (hlength : times.length = l.length)
    (hpos : ∀ n ∈ times, 1 ≤ n)
    (p : α → Bool) :
    ((repeats l times).filter p).getLast? = (l.filter p).getLast? := by
  induction l generalizing times with
  | nil =>
      simp
  | cons a l ih =>
      obtain ⟨n, times, rfl⟩ := List.exists_cons_of_length_eq_add_one hlength
      have htail := ih (by simpa using hlength) (fun m hm => hpos m (by simp [hm]))
      obtain ⟨n, rfl⟩ := Nat.exists_eq_add_of_le' (hpos n (by simp))
      rw [repeats_cons, List.filter_append, List.getLast?_append, htail, List.filter_cons]
      by_cases ha : p a
      · rw [if_pos ha, List.filter_replicate_of_pos ha, List.getLast?_replicate,
          if_neg (by omega), List.getLast?_cons]
        cases (l.filter p).getLast? with
        | none => rfl
        | some b => rfl
      · rw [if_neg ha, List.filter_replicate_of_neg ha]
        simp

end Repeats

section RetransmitQueue

/-- The queue and its history. -/
@[ext] structure Queue (α : Type u) where
  pending : List α
  resends : Nat
  accepted : List α
  removed : List α
  sent : List α

namespace Queue

def empty : Queue α :=
  ⟨[], 0, [], [], []⟩

/-- A full queue drops the message; into an empty one it is sent at once. -/
def push (capacity : Nat) (a : α) (q : Queue α) : Queue α :=
  if q.pending.length = capacity then q
  else
    { q with
      pending := q.pending ++ [a]
      accepted := q.accepted ++ [a]
      sent := if q.pending.isEmpty then q.sent ++ [a] else q.sent }

/-- The head leaves and the message behind it is sent. -/
def next (q : Queue α) : Queue α :=
  match q.pending with
  | [] => q
  | a :: rest =>
      { q with
        pending := rest
        resends := 0
        removed := q.removed ++ [a]
        sent := q.sent ++ rest.head?.toList }

/-- A refused head is sent again while the limit allows it. -/
def resend (limit : Nat) (q : Queue α) : Queue α :=
  match q.pending with
  | [] => q
  | a :: _ =>
      if q.resends < limit then
        { q with resends := q.resends + 1, sent := q.sent ++ [a] }
      else q.next

/-- Messages that have been sent: those that left, and the head. -/
def issued (q : Queue α) : List α :=
  q.removed ++ q.pending.head?.toList

/-- Every accepted message left in order or is still waiting, and it was sent once
and again after each of at most `limit` refusals. -/
structure Consistent (capacity limit : Nat) (q : Queue α) : Prop where
  fits : q.pending.length ≤ capacity
  idle : q.pending = [] → q.resends = 0
  bounded : q.resends ≤ limit
  fifo : q.accepted = q.removed ++ q.pending
  written :
    ∃ times : List Nat,
      times.length = q.removed.length ∧ (∀ n ∈ times, 1 ≤ n ∧ n ≤ limit + 1) ∧
        q.sent = repeats q.removed times ++
          q.pending.head?.toList.flatMap (List.replicate (q.resends + 1))

namespace Consistent

variable {capacity limit : Nat} {q : Queue α}

theorem empty :
    (Queue.empty : Queue α).Consistent capacity limit where
  fits := Nat.zero_le _
  idle _ := rfl
  bounded := Nat.zero_le _
  fifo := rfl
  written := ⟨[], rfl, by simp, by simp [Queue.empty]⟩

theorem push
    (h : q.Consistent capacity limit)
    (a : α) :
    (q.push capacity a).Consistent capacity limit := by
  unfold Queue.push
  split
  · exact h
  · rename_i hfree
    have hfits := h.fits
    refine ⟨by simp; omega, by simp, h.bounded, by simp [h.fifo], ?_⟩
    obtain ⟨times, hlength, hbounds, hsent⟩ := h.written
    refine ⟨times, hlength, hbounds, ?_⟩
    cases hpending : q.pending with
    | nil =>
        simp [hsent, hpending, h.idle hpending]
    | cons b rest =>
        simp [hsent, hpending]

theorem next
    (h : q.Consistent capacity limit) :
    q.next.Consistent capacity limit := by
  unfold Queue.next
  cases hpending : q.pending with
  | nil =>
      exact h
  | cons a rest =>
      have hfits := h.fits
      have hbounded := h.bounded
      obtain ⟨times, hlength, hbounds, hsent⟩ := h.written
      rw [hpending] at hfits hsent
      refine ⟨by simp at hfits ⊢; omega, by simp, by simp, by simp [h.fifo, hpending],
        times ++ [q.resends + 1], by simp [hlength], ?_, ?_⟩
      · intro n hn
        rcases List.mem_append.mp hn with hn | hn
        · exact hbounds n hn
        · obtain rfl := List.mem_singleton.mp hn
          omega
      · rw [repeats_append hlength, hsent]
        cases rest <;> simp

theorem resend
    (h : q.Consistent capacity limit) :
    (q.resend limit).Consistent capacity limit := by
  unfold Queue.resend
  cases hpending : q.pending with
  | nil =>
      exact h
  | cons a rest =>
      have hfits := h.fits
      obtain ⟨times, hlength, hbounds, hsent⟩ := h.written
      rw [hpending] at hfits hsent
      dsimp only
      split
      · refine ⟨hfits, by simp, by dsimp only; omega, by simp [h.fifo, hpending],
          times, hlength, hbounds, ?_⟩
        simp [hsent, List.replicate_succ']
      · exact h.next

/-- Everything that was issued was sent, in order and without anything in between. -/
theorem sent_issued
    (h : q.Consistent capacity limit) :
    ∃ times : List Nat,
      times.length = q.issued.length ∧ (∀ n ∈ times, 1 ≤ n ∧ n ≤ limit + 1) ∧
        q.sent = repeats q.issued times := by
  have hbounded := h.bounded
  obtain ⟨times, hlength, hbounds, hsent⟩ := h.written
  cases hpending : q.pending with
  | nil =>
      exact ⟨times, by simp [issued, hpending, hlength], hbounds, by simp [hsent, issued, hpending]⟩
  | cons a rest =>
      refine ⟨times ++ [q.resends + 1], by simp [issued, hpending, hlength], ?_, ?_⟩
      · intro n hn
        rcases List.mem_append.mp hn with hn | hn
        · exact hbounds n hn
        · obtain rfl := List.mem_singleton.mp hn
          omega
      · simp [hsent, issued, hpending, repeats_append hlength]

/-- Only the messages behind the head have not been issued. -/
theorem accepted_eq_issued
    (h : q.Consistent capacity limit) :
    q.accepted = q.issued ++ q.pending.tail := by
  rw [h.fifo, issued]
  cases q.pending <;> simp

end Consistent

/-- Messages pushed one after another. -/
def pushAll (capacity : Nat) (l : List α) (q : Queue α) : Queue α :=
  l.foldl (fun q a => q.push capacity a) q

/-- Pushing leaves the head and its retransmissions alone. -/
theorem pushAll_removed
    (capacity : Nat) (l : List α) (q : Queue α) :
    (q.pushAll capacity l).removed = q.removed ∧ (q.pushAll capacity l).resends = q.resends := by
  induction l generalizing q with
  | nil =>
      exact ⟨rfl, rfl⟩
  | cons a l ih =>
      have hpush : (q.push capacity a).removed = q.removed ∧
          (q.push capacity a).resends = q.resends := by
        unfold push
        split <;> exact ⟨rfl, rfl⟩
      rw [pushAll, List.foldl_cons, ← pushAll]
      exact ⟨(ih _).1.trans hpush.1, (ih _).2.trans hpush.2⟩

/-- Of messages pushed one after another the queue takes as many as it has room for. -/
theorem pushAll_room
    {capacity : Nat} {q : Queue α}
    (hfits : q.pending.length ≤ capacity)
    (l : List α) :
    (q.pushAll capacity l).accepted = q.accepted ++ l.take (capacity - q.pending.length) ∧
      (q.pushAll capacity l).pending = q.pending ++ l.take (capacity - q.pending.length) := by
  induction l generalizing q with
  | nil =>
      simp [pushAll]
  | cons a l ih =>
      rw [pushAll, List.foldl_cons, ← pushAll]
      by_cases hfull : q.pending.length = capacity
      · have hnone : capacity - q.pending.length = 0 := by omega
        have hdropped : q.push capacity a = q := if_pos hfull
        rw [hdropped, (ih hfits).1, (ih hfits).2, hnone, List.take_zero, List.take_zero]
        exact ⟨rfl, rfl⟩
      · have hroom : capacity - q.pending.length =
            capacity - (q.pending.length + 1) + 1 := by
          omega
        have hpending : (q.push capacity a).pending = q.pending ++ [a] := by
          rw [push, if_neg hfull]
        have haccepted : (q.push capacity a).accepted = q.accepted ++ [a] := by
          rw [push, if_neg hfull]
        have hlength : (q.push capacity a).pending.length = q.pending.length + 1 := by
          simp [hpending]
        obtain ⟨hall, hwaiting⟩ := ih (q := q.push capacity a) (by omega)
        rw [hall, hwaiting, haccepted, hpending, hroom, List.take_succ_cons, List.length_append,
          List.length_singleton]
        simp

theorem next_removed
    {q : Queue α} {a : α} {rest : List α}
    (hpending : q.pending = a :: rest) :
    q.next.removed = q.removed ++ [a] ∧ q.next.resends = 0 := by
  simp [next, hpending]

/-- A refusal is counted, or it is one too many and removes the head. -/
theorem resend_removed
    {q : Queue α} {a : α} {rest : List α}
    (limit : Nat)
    (hpending : q.pending = a :: rest) :
    q.resends < limit ∧ (q.resend limit).removed = q.removed ∧
        (q.resend limit).resends = q.resends + 1 ∨
      limit ≤ q.resends ∧ (q.resend limit).removed = q.removed ++ [a] ∧
        (q.resend limit).resends = 0 := by
  simp only [resend, hpending]
  by_cases hmore : q.resends < limit
  · rw [if_pos hmore]
    exact Or.inl ⟨hmore, rfl, rfl⟩
  · rw [if_neg hmore]
    exact Or.inr ⟨Nat.le_of_not_lt hmore, next_removed hpending⟩

/-- What was sent stays sent. -/
theorem pushAll_sent
    (capacity : Nat) (l : List α) (q : Queue α) :
    q.sent <+: (q.pushAll capacity l).sent := by
  induction l generalizing q with
  | nil =>
      exact List.prefix_rfl
  | cons a l ih =>
      have hpush : q.sent <+: (q.push capacity a).sent := by
        unfold push
        split
        · exact List.prefix_rfl
        · dsimp only
          split
          · exact List.prefix_append _ _
          · exact List.prefix_rfl
      exact hpush.trans (ih _)

theorem next_sent
    (q : Queue α) :
    q.sent <+: q.next.sent := by
  unfold next
  split
  · exact List.prefix_rfl
  · exact List.prefix_append _ _

theorem resend_sent
    (limit : Nat) (q : Queue α) :
    q.sent <+: (q.resend limit).sent := by
  unfold resend
  split
  · exact List.prefix_rfl
  · split
    · exact List.prefix_append _ _
    · exact next_sent q

/-- An idle queue ignores answers. -/
theorem answer_idle
    {q : Queue α}
    (limit : Nat)
    (hpending : q.pending = []) :
    q.next = q ∧ q.resend limit = q := by
  simp [next, resend, hpending]

end Queue

end RetransmitQueue

end Retransmit
end DexprOS
