/- SocketChat/Lib/LossyFifo
   digest: A first-in first-out channel that loses but never reorders, repeats or invents. -/

import Mathlib.Data.List.Nodup
import Mathlib.Data.List.Perm.Basic

set_option autoImplicit false
set_option relaxedAutoImplicit false

namespace SocketChat.Lib.LossyFifo

universe u

/-- A channel together with its history. What has arrived and what is still under way,
oldest first, were put in in that order; everything put in is accounted for once. -/
structure Fifo (α : Type u) where
  sent : List α
  got : List α
  flight : List α
  lost : List α
  order : (got ++ flight).Sublist sent
  account : sent.Perm (got ++ flight ++ lost)

namespace Fifo

variable {α : Type u}

def empty : Fifo α := ⟨[], [], [], [], List.Sublist.refl _, List.Perm.refl _⟩

def push (c : Fifo α) (x : α) : Fifo α where
  sent := c.sent ++ [x]
  got := c.got
  flight := c.flight ++ [x]
  lost := c.lost
  order := by
    rw [← List.append_assoc]
    exact c.order.append (List.Sublist.refl [x])
  account := by
    have moved : (c.got ++ c.flight ++ c.lost ++ [x]).Perm
        (c.got ++ (c.flight ++ [x]) ++ c.lost) := by
      simp only [List.append_assoc]
      exact (List.perm_append_comm.append_left _).append_left _
    exact (c.account.append_right [x]).trans moved

def pull (c : Fifo α) : Option (α × Fifo α) :=
  match h : c.flight with
  | [] => none
  | x :: xs => some (x,
      { sent := c.sent
        got := c.got ++ [x]
        flight := xs
        lost := c.lost
        order := by simpa [h] using c.order
        account := by simpa [h] using c.account })

/-- The item at the given place under way never arrives. -/
def drop (c : Fifo α) (i : ℕ) : Option (Fifo α) :=
  if h : i < c.flight.length then
    some
      { sent := c.sent
        got := c.got
        flight := c.flight.eraseIdx i
        lost := c.flight[i] :: c.lost
        order := ((List.eraseIdx_sublist c.flight i).append_left c.got).trans c.order
        account := by
          have split : c.flight.Perm (c.flight[i] :: c.flight.eraseIdx i) :=
            (List.getElem_cons_eraseIdx_perm h).symm
          refine c.account.trans ?_
          have first : (c.got ++ c.flight ++ c.lost).Perm
              (c.got ++ (c.flight[i] :: c.flight.eraseIdx i) ++ c.lost) :=
            (split.append_left _).append_right _
          refine first.trans ?_
          simp only [List.append_assoc, List.cons_append]
          exact (List.perm_middle.symm).append_left c.got }
  else none

@[simp] theorem push_flight (c : Fifo α) (x : α) : (c.push x).flight = c.flight ++ [x] := rfl

theorem push_sent_ne_nil (c : Fifo α) (x : α) : (c.push x).sent ≠ [] := List.concat_ne_nil x c.sent

theorem pull_spec {c d : Fifo α} {x : α} (h : c.pull = some (x, d)) :
    c.flight = x :: d.flight ∧ d.got = c.got ++ [x] ∧ d.sent = c.sent ∧ d.lost = c.lost := by
  unfold pull at h
  split at h
  · cases h
  · rename_i y ys hflight
    obtain ⟨rfl, rfl⟩ := Prod.mk.inj (Option.some.inj h)
    exact ⟨hflight, rfl, rfl, rfl⟩

theorem pull_isSome {c : Fifo α} {x : α} {xs : List α} (h : c.flight = x :: xs) :
    ∃ d, c.pull = some (x, d) := by
  unfold pull
  split
  · rename_i hnil
    rw [hnil] at h
    cases h
  · rename_i y ys hflight
    rw [hflight] at h
    obtain ⟨rfl, rfl⟩ := List.cons.inj h
    exact ⟨_, rfl⟩

theorem drop_spec {c d : Fifo α} {i : ℕ} (h : c.drop i = some d) :
    d.got = c.got ∧ d.sent = c.sent ∧ d.flight = c.flight.eraseIdx i ∧
      ∃ x, c.flight[i]? = some x ∧ d.lost = x :: c.lost := by
  unfold drop at h
  split at h
  · rename_i hi
    obtain rfl := Option.some.inj h
    exact ⟨rfl, rfl, rfl, c.flight[i], List.getElem?_eq_getElem hi, rfl⟩
  · cases h

theorem length_flight_of_drop {c d : Fifo α} {i : ℕ} (h : c.drop i = some d) :
    d.flight.length + 1 = c.flight.length := by
  obtain ⟨_, _, hflight, x, hx, _⟩ := drop_spec h
  obtain ⟨hi, _⟩ := List.getElem?_eq_some_iff.mp hx
  rw [hflight]
  exact List.length_eraseIdx_add_one hi

theorem got_sublist (c : Fifo α) : c.got.Sublist c.sent :=
  (List.sublist_append_left c.got c.flight).trans c.order

theorem flight_subset (c : Fifo α) : c.flight ⊆ c.sent :=
  ((List.sublist_append_right c.got c.flight).trans c.order).subset

/-- While nothing is lost, what arrived followed by what is under way is what was sent. -/
theorem eq_sent_of_lost_nil (c : Fifo α) (h : c.lost = []) : c.got ++ c.flight = c.sent := by
  apply c.order.eq_of_length
  simpa [h] using c.account.length_eq.symm

theorem lost_nil_of_eq_sent (c : Fifo α) (h : c.got ++ c.flight = c.sent) : c.lost = [] := by
  have total := c.account.length_eq
  rw [← h] at total
  simp only [List.length_append] at total
  exact List.eq_nil_of_length_eq_zero (by omega)

/-- Where every item was sent once, the survivors are exactly the items not lost, in order. -/
theorem survivors_eq_filter [DecidableEq α] (c : Fifo α) (once : c.sent.Nodup) :
    c.got ++ c.flight = c.sent.filter (fun x => decide (x ∉ c.lost)) := by
  have apart : (c.got ++ c.flight ++ c.lost).Nodup := c.account.nodup_iff.mp once
  have disjoint : ∀ x ∈ c.got ++ c.flight, x ∉ c.lost := by
    intro x hx hlost
    exact (List.nodup_append.mp apart).2.2 x hx x hlost rfl
  have kept : (c.got ++ c.flight).filter (fun x => decide (x ∉ c.lost)) = c.got ++ c.flight :=
    List.filter_eq_self.mpr fun x hx => decide_eq_true (disjoint x hx)
  have gone : c.lost.filter (fun x => decide (x ∉ c.lost)) = [] :=
    List.filter_eq_nil_iff.mpr fun x hx => by simp [hx]
  have sub := c.order.filter (fun x => decide (x ∉ c.lost))
  rw [kept] at sub
  apply sub.eq_of_length
  have count := (c.account.filter (fun x => decide (x ∉ c.lost))).length_eq
  rw [List.filter_append, kept, gone, List.append_nil] at count
  exact count.symm

end Fifo

end SocketChat.Lib.LossyFifo
