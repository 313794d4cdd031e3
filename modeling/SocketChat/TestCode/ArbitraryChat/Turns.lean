/- SocketChat/TestCode/ArbitraryChat/Turns
   digest: The holder of the mutex is never blocked and gives it back within its own turns. -/

import SocketChat.TestCode.ArbitraryChat.Threads

set_option autoImplicit false
set_option relaxedAutoImplicit false

namespace SocketChat.TestCode.ArbitraryChat.Turns

open SocketChat.Lib.Deliveries
open SocketChat.Lib.Runs
open SocketChat.TestCode.ArbitraryChat.Model
open SocketChat.TestCode.ArbitraryChat.Threads

/-- How many turns the holder of the mutex needs to give it back. -/
def toRelease : Point → ℕ
  | .add | .remove => 2
  | .broadcasting _ i => MAX_CLIENTS - i + 2
  | .unlockAdd | .unlockBroadcast | .unlockRemove => 1
  | _ => 0

def due (s : State) (c : ConnId) : ℕ := (s.threads c).elim 0 fun th => toRelease th.point

def Broadcasts : Point → Prop
  | .broadcasting _ _ | .unlockBroadcast => True
  | _ => False

private theorem due_of_thread {s : State} {c : ConnId} {th : Thread}
    (thread : s.threads c = some th) :
    due s c = toRelease th.point := by
  rw [due, thread]
  rfl

theorem toRelease_le (point : Point) : toRelease point ≤ MAX_CLIENTS + 2 := by
  cases point with
  | _ =>
    dsimp only [toRelease]
    omega

private theorem toRelease_pos {point : Point} (holds : Holds point) : 0 < toRelease point := by
  cases point with
  | add => exact Nat.two_pos
  | unlockAdd => exact Nat.one_pos
  | broadcasting message i => exact Nat.succ_pos _
  | unlockBroadcast => exact Nat.one_pos
  | remove => exact Nat.two_pos
  | unlockRemove => exact Nat.one_pos
  | _ => exact holds.elim

def Nearer (t : State) (c : ConnId) (th : Thread) : Prop :=
  t.client_mutex = none ∨
    t.client_mutex = some c ∧ ∃ th', t.threads c = some th' ∧ Holds th'.point ∧
      toRelease th'.point < toRelease th.point ∧ (Broadcasts th.point → Broadcasts th'.point)

structure Spares (s t : State) (c : ConnId) (th : Thread) : Prop where
  died : t.died = s.died
  said : t.said = s.said
  others : ∀ d, d ≠ c → t.threads d = s.threads d
  table : Broadcasts th.point → t.client_sockets = s.client_sockets ∧ t.fds = s.fds

section Turns

variable {s t : State} {c : ConnId} {th : Thread}

private theorem spares_goto {point : Point} {m : Option ConnId}
    {sends : List (Sent ConnId SendCall)} :
    Spares s { s.goto c th point with client_mutex := m, sends := sends } c th := by
  refine ⟨rfl, rfl, ?_, fun _ => ⟨rfl, rfl⟩⟩
  intro d hd
  exact Function.update_of_ne hd ..

theorem holder_turn (alive : s.died = none) (thread : s.threads c = some th)
    (held : s.client_mutex = some c) (holds : Holds th.point) :
    ∃ t, step s (.run c) = some t ∧ Spares s t c th ∧ Nearer t c th := by
  have now : step s (.run c) = run s c := if_pos alive
  rw [now, run, thread, Option.bind_some]
  cases th with
  | mk clntSocket here =>
    cases here with
    | add =>
      refine ⟨_, rfl, ⟨rfl, rfl, fun d hd => Function.update_of_ne hd .., False.elim⟩, ?_⟩
      exact Or.inr ⟨held, _, Function.update_self .., trivial, Nat.lt_succ_self 1, False.elim⟩
    | unlockAdd => exact ⟨_, rfl, spares_goto, Or.inl rfl⟩
    | broadcasting message i =>
      dsimp only
      by_cases more : i < MAX_CLIENTS
      · rw [if_pos more]
        refine ⟨_, rfl, spares_goto, Or.inr ⟨held, _, Function.update_self .., trivial, ?_, id⟩⟩
        dsimp only [toRelease]
        omega
      · rw [if_neg more]
        refine ⟨_, rfl, spares_goto, Or.inr ⟨held, _, Function.update_self .., trivial, ?_,
          fun _ => trivial⟩⟩
        dsimp only [toRelease]
        omega
    | unlockBroadcast => exact ⟨_, rfl, spares_goto, Or.inl rfl⟩
    | remove =>
      refine ⟨_, rfl, ⟨rfl, rfl, fun d hd => Function.update_of_ne hd .., False.elim⟩, ?_⟩
      exact Or.inr ⟨held, _, Function.update_self .., trivial, Nat.lt_succ_self 1, False.elim⟩
    | unlockRemove => exact ⟨_, rfl, spares_goto, Or.inl rfl⟩
    | _ => exact holds.elim

/-- Whatever the other threads, the clients and `accept` do meanwhile, the mutex is free
before its holder has had more turns than it needs. -/
theorem released {as : List Action} (h : Handlers s) (thread : s.threads c = some th)
    (held : s.client_mutex = some c) (taken : exec step s as = some t)
    (turns : toRelease th.point ≤ as.count (.run c)) :
    ∃ before after m, as = before ++ after ∧ exec step s before = some m ∧
      m.client_mutex = none := by
  refine met_of_turns (I := fun u => Handlers u ∧ u.client_mutex = some c) (μ := fun u => due u c)
    ?_ ?_ ⟨h, held⟩ taken (Nat.le_trans (Nat.le_of_eq (due_of_thread thread)) turns)
  · rintro u ⟨h, held⟩
    obtain ⟨th, thread⟩ := h.holder c held
    rw [due_of_thread thread]
    exact Or.inr (toRelease_pos ((h.mutex c th thread).mpr held))
  · rintro u a v ⟨h, held⟩ moved
    obtain ⟨th, thread⟩ := h.holder c held
    rw [due_of_thread thread]
    have later := handlers_step h moved
    by_cases mine : a = .run c
    · subst mine
      obtain ⟨v', moved', _, nearer⟩ :=
        holder_turn (took_of_step moved).1 thread held ((h.mutex c th thread).mpr held)
      obtain rfl : v' = v := Option.some.inj (moved'.symm.trans moved)
      rcases nearer with free | ⟨held', th', thread', _, less, _⟩
      · exact Or.inl free
      · rw [due_of_thread thread', if_pos (beq_self_eq_true (Action.run c))]
        exact Or.inr ⟨⟨later, held'⟩, less⟩
    · obtain ⟨held', thread', _⟩ := other_turn h thread held mine moved
      rw [due_of_thread thread', if_neg fun same => mine (eq_of_beq same)]
      exact Or.inr ⟨⟨later, held'⟩, Nat.le_refl _⟩

theorem Spares.trans {m : State} {th' : Thread} (first : Spares s m c th)
    (second : Spares m t c th') (stays : Broadcasts th.point → Broadcasts th'.point) :
    Spares s t c th := by
  refine ⟨second.died.trans first.died, second.said.trans first.said, ?_, ?_⟩
  · intro d hd
    exact (second.others d hd).trans (first.others d hd)
  · intro inside
    obtain ⟨slots, fds⟩ := first.table inside
    obtain ⟨slots', fds'⟩ := second.table (stays inside)
    exact ⟨slots'.trans slots, fds'.trans fds⟩

end Turns

end SocketChat.TestCode.ArbitraryChat.Turns
