/- SocketChat/TestCode/ArbitraryChat/Membership
   digest: Who talks is in the table as long as every handler that talks found a free slot. -/

import SocketChat.TestCode.ArbitraryChat.Threads

set_option autoImplicit false
set_option relaxedAutoImplicit false

namespace SocketChat.TestCode.ArbitraryChat.Membership

open SocketChat.Lib.Runs
open SocketChat.Lib.SlotTable
open SocketChat.TestCode.ArbitraryChat.Model
open SocketChat.TestCode.ArbitraryChat.Threads

def InLoop : Point → Prop
  | .recv | .lockBroadcast _ | .broadcasting _ _ | .unlockBroadcast => True
  | _ => False

instance : DecidablePred InLoop
  | .recv | .lockBroadcast _ | .broadcasting _ _ | .unlockBroadcast => isTrue trivial
  | .lockAdd | .add | .unlockAdd | .lockRemove | .remove | .unlockRemove | .close | .returned =>
    isFalse fun inLoop => inLoop

/-- Every handler in its loop has its descriptor in the table, where the loop of `broadcast`
of every other such handler finds it. -/
def Symmetric (s : State) : Prop :=
  ∀ c th, s.threads c = some th → InLoop th.point →
    th.clntSocket ∈ occupants 0 s.client_sockets ∧
      ∀ d other, s.threads d = some other → d ≠ c → InLoop other.point →
        ∃ i < MAX_CLIENTS, target s other i = some th.clntSocket

/-- When the loop that puts a descriptor in the table runs, and its handler goes on after it,
the loop has a descriptor to put and a slot to put it in. -/
def FindsSlot (s : State) : Action → List Action → Prop
  | .run c, later => ∀ th, s.threads c = some th → th.point = .add → .run c ∈ later →
      0 ∈ s.client_sockets ∧ th.clntSocket ≠ 0
  | _, _ => True

instance (s : State) (a : Action) (later : List Action) : Decidable (FindsSlot s a later) :=
  match a with
  | .run c => inferInstanceAs (Decidable (∀ th, s.threads c = some th → th.point = .add →
      .run c ∈ later → 0 ∈ s.client_sockets ∧ th.clntSocket ≠ 0))
  | .accept _ | .depart _ | .recv _ _ | .sendFails _ => isTrue trivial

def Due (later : List Action) (c : ConnId) (point : Point) : Prop :=
  InLoop point ∨ point = .unlockAdd ∧ .run c ∈ later

structure Seated (s : State) (later : List Action) : Prop where
  handlers : Handlers s
  seated : ∀ c th, s.threads c = some th → Due later c th.point →
    th.clntSocket ∈ occupants 0 s.client_sockets

private theorem seated_init (servSock : ℤ) (later : List Action) :
    Seated (init servSock) later := by
  refine ⟨handlers_init servSock, ?_⟩
  intro c th thread
  cases thread

private theorem InLoop.running {point : Point} (inLoop : InLoop point) : point ≠ .returned := by
  rintro rfl
  exact inLoop

private theorem not_due {later : List Action} {c : ConnId} {point : Point} (out : ¬InLoop point)
    (past : point ≠ .unlockAdd) : ¬Due later c point := by
  rintro (inLoop | ⟨unlock, _⟩)
  · exact out inLoop
  · exact past unlock

private theorem Due.running {later : List Action} {c : ConnId} {point : Point}
    (due : Due later c point) : point ≠ .returned := by
  rintro rfl
  exact absurd due (not_due (fun inLoop => inLoop) Point.noConfusion)

private theorem Due.earlier {a : Action} {later : List Action} {c : ConnId} {point : Point}
    (due : Due later c point) : Due (a :: later) c point := by
  rcases due with inLoop | ⟨unlock, turn⟩
  · exact Or.inl inLoop
  · exact Or.inr ⟨unlock, List.mem_cons_of_mem a turn⟩

section Step

variable {s t : State} {a : Action} {later : List Action} {c : ConnId} {th : Thread}
  {point : Point}

private theorem apart (h : Handlers s) (thread : s.threads c = some th)
    (running : th.point ≠ .returned)
    {d : ConnId} {other : Thread} (thread' : s.threads d = some other)
    (running' : other.point ≠ .returned) (differ : d ≠ c) : th.clntSocket ≠ other.clntSocket := by
  intro same
  have mine := h.owns c th thread running
  rw [same, h.owns d other thread' running'] at mine
  exact differ (Option.some.inj mine)

private theorem symmetric_of_seated (here : Seated s later) : Symmetric s := by
  intro c th thread inLoop
  have held := here.seated c th thread (Or.inl inLoop)
  refine ⟨held, ?_⟩
  intro d other thread' differ inLoop'
  obtain ⟨member, used⟩ := mem_occupants.mp held
  obtain ⟨i, slot⟩ := List.mem_iff_getElem?.mp member
  have bound : i < MAX_CLIENTS := by
    rw [← here.handlers.size]
    exact (List.getElem?_eq_some_iff.mp slot).1
  have other_socket := apart here.handlers thread inLoop.running thread' inLoop'.running differ
  exact ⟨i, bound, Option.filter_eq_some_iff.mpr ⟨slot, decide_eq_true ⟨used, other_socket⟩⟩⟩

private theorem Seated.move (here : Seated s (a :: later)) (handlers : Handlers t)
    (thread : s.threads c = some th)
    (threads : t.threads = Function.update s.threads c (some { th with point := point }))
    (slots : t.client_sockets = s.client_sockets)
    (due : Due later c point → Due (a :: later) c th.point) : Seated t later := by
  refine ⟨handlers, ?_⟩
  intro d th' thread' due'
  rw [threads] at thread'
  rw [slots]
  rcases update_some_eq_some.mp thread' with ⟨rfl, rfl⟩ | ⟨_, old⟩
  · exact here.seated d th thread (due due')
  · exact here.seated d th' old due'.earlier

private theorem Seated.idle (here : Seated s (a :: later)) (handlers : Handlers t)
    (threads : t.threads = s.threads) (slots : t.client_sockets = s.client_sockets) :
    Seated t later := by
  refine ⟨handlers, ?_⟩
  intro d th' thread' due'
  rw [threads] at thread'
  rw [slots]
  exact here.seated d th' thread' due'.earlier

private theorem seated_step (here : Seated s (a :: later)) (ok : FindsSlot s a later)
    (taken : step s a = some t) : Seated t later := by
  have handlers := handlers_step here.handlers taken
  cases (took_of_step taken).2 with
  | acceptFailed clntSock failed => exact here.idle handlers rfl rfl
  | accepted clntSock valid fresh =>
    refine ⟨handlers, ?_⟩
    intro d th' thread' due'
    rcases update_some_eq_some.mp thread' with ⟨rfl, rfl⟩ | ⟨_, old⟩
    · exact absurd due' (not_due (fun inLoop => inLoop) Point.noConfusion)
    · exact here.seated d th' old due'.earlier
  | departed c => exact here.idle handlers rfl rfl
  | passed _ c th point thread passes =>
    refine here.move handlers thread rfl rfl ?_
    cases th with
    | mk clntSocket before =>
      cases passes with
      | ended => exact fun _ => Or.inl trivial
      | received got something fits => exact fun _ => Or.inl trivial
      | looped message i done => exact fun _ => Or.inl trivial
  | locked c th point thread free locks =>
    refine here.move handlers thread rfl rfl ?_
    cases th with
    | mk clntSocket before =>
      cases locks with
      | add => exact fun due => absurd due (not_due (fun inLoop => inLoop) Point.noConfusion)
      | remove => exact fun due => absurd due (not_due (fun inLoop => inLoop) Point.noConfusion)
  | unlocked c th point thread unlocks =>
    refine here.move handlers thread rfl rfl ?_
    cases th with
    | mk clntSocket before =>
      cases unlocks with
      | add => exact fun _ => Or.inr ⟨rfl, List.mem_cons_self⟩
      | broadcast => exact fun _ => Or.inl trivial
      | remove => exact fun due => absurd due (not_due (fun inLoop => inLoop) Point.noConfusion)
  | said c th message thread before free =>
    refine here.move handlers thread rfl rfl fun _ => Or.inl ?_
    rw [before]
    trivial
  | sent c th message i thread before more =>
    refine here.move handlers thread rfl rfl fun _ => Or.inl ?_
    rw [before]
    trivial
  | added c th thread before =>
    refine ⟨handlers, ?_⟩
    intro d th' thread' due'
    rcases update_some_eq_some.mp thread' with ⟨rfl, rfl⟩ | ⟨_, old⟩
    · -- The new one goes on, so the guard has it find a slot.
      rcases due' with inLoop | ⟨_, turn⟩
      · exact inLoop.elim
      · obtain ⟨room, used⟩ := ok th thread before turn
        exact (occupants_fill room used).mem_iff.mpr List.mem_cons_self
    · have held := here.seated d th' old due'.earlier
      by_cases stored : 0 ∈ s.client_sockets ∧ th.clntSocket ≠ 0
      · exact (occupants_fill stored.1 stored.2).mem_iff.mpr (List.mem_cons_of_mem _ held)
      · dsimp only
        rw [replace_of_idle stored]
        exact held
  | removed c th thread before =>
    refine ⟨handlers, ?_⟩
    intro d th' thread' due'
    rcases update_some_eq_some.mp thread' with ⟨rfl, rfl⟩ | ⟨differ, old⟩
    · exact absurd due' (not_due (fun inLoop => inLoop) Point.noConfusion)
    · have held := here.seated d th' old due'.earlier
      have running : th.point ≠ .returned := by simp [before]
      have other := apart here.handlers thread running old due'.running differ
      by_cases stored : th.clntSocket ∈ s.client_sockets ∧ th.clntSocket ≠ 0
      · have perm := occupants_clear stored.1 stored.2
        exact (List.mem_cons.mp (perm.mem_iff.mp held)).resolve_left other.symm
      · dsimp only
        rw [replace_of_idle fun both => stored ⟨both.1, both.2.symm⟩]
        exact held
  | closed c th thread before =>
    exact here.move handlers thread rfl rfl
      fun due => absurd due (not_due (fun inLoop => inLoop) Point.noConfusion)
  | sendFailed c th message i fd thread before found gone => exact here.idle handlers rfl rfl

private theorem turn_unlockAdd (alive : s.died = none) (thread : s.threads c = some th)
    (here : th.point = .unlockAdd) :
    step s (.run c) = some { s.goto c th .recv with client_mutex := none } := by
  rw [step, if_pos alive]
  dsimp only [run]
  rw [thread, Option.bind_some, here]

private theorem turn_add (alive : s.died = none) (thread : s.threads c = some th)
    (here : th.point = .add) (missed : ¬(0 ∈ s.client_sockets ∧ th.clntSocket ≠ 0)) :
    step s (.run c) = some (s.goto c th .unlockAdd) := by
  rw [step, if_pos alive]
  dsimp only [run]
  rw [thread, Option.bind_some, here]
  dsimp only
  rw [if_neg missed, replace_of_idle missed]
  rfl

/-- A handler that found no slot and goes on to its loop is there without being in the table. -/
theorem missed_not_always (h : Handlers s) (thread : s.threads c = some th)
    (here : th.point = .unlockAdd) (missed : th.clntSocket ∉ occupants 0 s.client_sockets)
    (turn : .run c ∈ later) (taken : exec step s later = some t) :
    ¬Always step Symmetric s later := by
  induction later generalizing s with
  | nil => cases turn
  | cons a later ih =>
    rintro ⟨_, always⟩
    obtain ⟨m, hm, rest⟩ := exec_cons_eq_some.mp taken
    by_cases mine : a = .run c
    · subst mine
      have went := turn_unlockAdd (took_of_step hm).1 thread here
      have symmetric := (always _ went).head
      exact missed (symmetric c _ (Function.update_self ..) trivial).1
    · have turn' : .run c ∈ later := (List.mem_cons.mp turn).resolve_left fun same => mine same.symm
      have held : s.client_mutex = some c := h.holding thread here trivial
      obtain ⟨_, thread', slots, _⟩ := other_turn h thread held mine hm
      rw [← slots] at missed
      exact ih (handlers_step h hm) thread' missed turn' rest (always m hm)

private theorem findsSlot_of_always {u : State} (here : Seated s (a :: later))
    (taken : step s a = some t) (rest : exec step t later = some u)
    (always : Always step Symmetric t later) : FindsSlot s a later := by
  cases a with
  | run c =>
    intro th thread before turn
    by_contra missed
    have went := turn_add (took_of_step taken).1 thread before missed
    obtain rfl := Option.some.inj (taken.symm.trans went)
    have absent : th.clntSocket ∉ occupants 0 s.client_sockets := by
      apply here.handlers.absent thread
      · simp [before]
      · simp [before, Listed]
    exact missed_not_always (handlers_step here.handlers taken) (Function.update_self ..) rfl
      absent turn rest always
  | _ => trivial

theorem symmetric_iff_findsSlot (servSock : ℤ) (as : List Action) (t : State)
    (taken : exec step (init servSock) as = some t) :
    Always step Symmetric (init servSock) as ↔
      GuardedAhead step FindsSlot (init servSock) as :=
  always_iff_guardedAhead (P := Symmetric) (I := Seated) (fun _ _ => symmetric_of_seated)
    (fun _ _ _ _ => seated_step) (fun _ _ _ _ _ => findsSlot_of_always)
    (seated_init servSock as) taken

end Step

def enters (c : ConnId) (clntSock : ℤ) : List Action :=
  .accept clntSock :: List.replicate 3 (.run c)

/-- Two clients enter and the first says a byte; the second leaves, and a third one enters with its
descriptor and says another. -/
def comingAndGoing : List Action :=
  enters 0 4 ++ enters 1 5 ++ [.recv 0 [104]] ++ List.replicate 13 (.run 0) ++
    [.depart 1, .recv 1 []] ++ List.replicate 4 (.run 1) ++ enters 2 5 ++ [.recv 2 [105]] ++
    List.replicate 13 (.run 2)

theorem symmetric_coming_and_going : ∃ t, exec step (init 3) comingAndGoing = some t ∧
    t.client_sockets.take 3 = [4, 5, 0] ∧ Always step Symmetric (init 3) comingAndGoing := by
  have shown : (exec step (init 3) comingAndGoing).map (fun t => t.client_sockets.take 3) =
      some [4, 5, 0] := by
    decide +kernel
  obtain ⟨t, taken, slots⟩ := Option.map_eq_some_iff.mp shown
  have finds : GuardedAhead step FindsSlot (init 3) comingAndGoing := by decide +kernel
  exact ⟨t, taken, slots, (symmetric_iff_findsSlot 3 comingAndGoing t taken).mpr finds⟩

/-- Eleven clients enter, the first of them leaves, and the last one says a byte. -/
def eleventh : List Action :=
  ((List.range 11).flatMap fun i => enters i (4 + i)) ++ [.depart 0, .recv 0 []] ++
    List.replicate 4 (.run 0) ++ [.recv 10 [104]] ++ List.replicate 13 (.run 10)

/-- The last one is heard by the other nine and hears nothing, with a slot free again. -/
theorem eleventh_not_symmetric : ∃ t, exec step (init 3) eleventh = some t ∧
    t.sends.length = 9 ∧ 0 ∈ t.client_sockets ∧ ¬Symmetric t := by
  have shown : (exec step (init 3) eleventh).map (fun t => (t.sends.length, t.client_sockets,
      (t.threads 10).map fun th => (th.clntSocket, decide (InLoop th.point)))) =
        some (9, [0, 5, 6, 7, 8, 9, 10, 11, 12, 13], some (14, true)) := by
    decide +kernel
  obtain ⟨t, taken, same⟩ := Option.map_eq_some_iff.mp shown
  obtain ⟨heard, same⟩ := Prod.mk.inj same
  obtain ⟨slots, handler⟩ := Prod.mk.inj same
  obtain ⟨th, thread, same⟩ := Option.map_eq_some_iff.mp handler
  obtain ⟨socket, inLoop⟩ := Prod.mk.inj same
  refine ⟨t, taken, heard, slots ▸ List.mem_cons_self, ?_⟩
  intro symmetric
  have held := (symmetric 10 th thread (of_decide_eq_true inLoop)).1
  rw [slots, socket] at held
  revert held
  decide

end SocketChat.TestCode.ArbitraryChat.Membership
