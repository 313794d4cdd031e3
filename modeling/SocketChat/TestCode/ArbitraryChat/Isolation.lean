/- SocketChat/TestCode/ArbitraryChat/Isolation
   digest: The server outlives the departures that no broadcast runs into, and only those. -/

import SocketChat.TestCode.ArbitraryChat.Delivery

set_option autoImplicit false
set_option relaxedAutoImplicit false

namespace SocketChat.TestCode.ArbitraryChat.Isolation

open SocketChat.Lib.CString
open SocketChat.Lib.Deliveries
open SocketChat.Lib.History
open SocketChat.Lib.Postings
open SocketChat.Lib.Room (present)
open SocketChat.Lib.Runs
open SocketChat.Lib.SlotTable
open SocketChat.TestCode.ArbitraryChat.Model
open SocketChat.TestCode.ArbitraryChat.Threads
open SocketChat.TestCode.ArbitraryChat.Delivery
open SocketChat.TestCode.ArbitraryChat.Turns

def aim (s : State) (th : Thread) : Option ℤ :=
  match th.point with
  | .broadcasting _ i => target s th i
  | _ => none

/-- The thread of `c` is about to send to a client that has left and is still in the table. -/
def SendsToDeparted (s : State) (c : ConnId) : Prop :=
  ∃ th ∈ s.threads c, ∃ fd ∈ aim s th, ∃ d ∈ s.fds fd, s.departed d = true

instance (s : State) (c : ConnId) : Decidable (SendsToDeparted s c) :=
  inferInstanceAs (Decidable (∃ th ∈ s.threads c, ∃ fd ∈ aim s th, ∃ d ∈ s.fds fd, _))

/-- `accept` gives positive descriptors and no broadcast sends to a client that has left. -/
def Isolated (s : State) : Action → Prop
  | .accept clntSock => 0 < clntSock
  | .run c => ¬SendsToDeparted s c
  | .sendFails c => ¬SendsToDeparted s c
  | _ => True

instance (s : State) (a : Action) : Decidable (Isolated s a) :=
  match a with
  | .accept clntSock => inferInstanceAs (Decidable (0 < clntSock))
  | .depart _ => isTrue trivial
  | .recv _ _ => isTrue trivial
  | .run c => inferInstanceAs (Decidable ¬SendsToDeparted s c)
  | .sendFails c => inferInstanceAs (Decidable ¬SendsToDeparted s c)

section Failure

variable {s t : State} {c : ConnId}

private theorem dies_iff (h : Handlers s) (alive : s.died = none) :
    (∃ t, step s (.sendFails c) = some t ∧ t.died = some "send() failed during broadcast") ↔
      SendsToDeparted s c := by
  constructor
  · rintro ⟨t, taken, _⟩
    cases (took_of_step taken).2 with
    | passed _ d th point thread passes => cases passes
    | sendFailed _ th message i fd thread here found gone =>
      obtain ⟨d, behind⟩ := h.connected_of_target found
      refine ⟨th, thread, fd, ?_, d, behind, gone d behind⟩
      rw [aim, here]
      exact found
  · rintro ⟨⟨clntSocket, point⟩, thread, fd, aimed, d, behind, gone⟩
    cases point with
    | broadcasting message i =>
      have failing : ∃ fd ∈ target s ⟨clntSocket, .broadcasting message i⟩ i,
          ∀ e ∈ s.fds fd, s.departed e = true := by
        refine ⟨fd, aimed, ?_⟩
        intro e open_
        obtain rfl : d = e := Option.some.inj (behind.symm.trans open_)
        exact gone
      refine ⟨{ s with
        sends := s.sends ++ sendTo s ⟨clntSocket, .broadcasting message i⟩ message i
        died := some "send() failed during broadcast" }, ?_, rfl⟩
      rw [step, if_pos alive]
      dsimp only [sendFails]
      rw [thread, Option.bind_some]
      exact if_pos failing
    | _ => cases aimed

private theorem smooth_of_isolated {a : Action} (h : Handlers s) (ok : Isolated s a)
    (taken : step s a = some t) : Smooth s a := by
  cases a with
  | accept clntSock => exact ok
  | sendFails c =>
    have alive := (took_of_step taken).1
    refine ok ((dies_iff h alive).mp ⟨t, taken, ?_⟩)
    cases (took_of_step taken).2 with
    | passed _ d th point thread passes => cases passes
    | sendFailed _ th message i fd thread here found gone => rfl
  | _ => trivial

private theorem survives {servSock : ℤ} {m : Noted}
    (run : ReachWhere (remember step note) (fun m => Isolated m.1) (start servSock) m) :
    Booked m := by
  refine invariant_of_step ?_ (booked_start servSock) run
  intro m a m' booked ok taken
  have smooth := smooth_of_isolated booked.handlers ok (remember_eq_some.mp taken).1
  exact booked_step m a m' booked smooth taken

end Failure

section Delivering

variable {s : State} {c : ConnId} {th : Thread}

private theorem can_release (alive : s.died = none) (thread : s.threads c = some th)
    (held : s.client_mutex = some c) (holds : Holds th.point) :
    ∃ t, ReachWhere step Smooth s t ∧ Spares s t c th ∧ t.client_mutex = none := by
  induction needed : toRelease th.point using Nat.strong_induction_on generalizing s th with
  | _ n ih =>
    obtain ⟨m, taken, spares, nearer⟩ := holder_turn alive thread held holds
    have first : ReachWhere step Smooth s m := .single (a := .run c) trivial taken
    rcases nearer with free | ⟨held', th', thread', holds', less, stays⟩
    · exact ⟨m, first, spares, free⟩
    · obtain ⟨t, run, spares', free⟩ :=
        ih _ (needed ▸ less) (spares.died.trans alive) thread' held' holds' rfl
      exact ⟨t, first.trans run, spares.trans spares' stays, free⟩

/-- Whoever holds the mutex now, a thread outside can see it free and be where it was. -/
theorem can_wait (h : Handlers s) (alive : s.died = none) (thread : s.threads c = some th)
    (outside : ¬Holds th.point) :
    ∃ t, ReachWhere step Smooth s t ∧ t.died = none ∧ t.said = s.said ∧
      t.threads c = some th ∧ t.client_mutex = none := by
  cases held : s.client_mutex with
  | none => exact ⟨s, .refl s, alive, rfl, thread, held⟩
  | some d =>
    obtain ⟨th', thread'⟩ := h.holder d held
    have apart : c ≠ d := by
      rintro rfl
      exact outside ((h.mutex c th thread).mpr held)
    obtain ⟨t, run, spares, free⟩ :=
      can_release alive thread' held ((h.mutex d th' thread').mpr held)
    exact ⟨t, run, spares.died.trans alive, spares.said, (spares.others c apart).trans thread,
      free⟩

private theorem can_say {message : List Byte} (alive : s.died = none)
    (thread : s.threads c = some th)
    (here : th.point = .lockBroadcast message) (free : s.client_mutex = none) :
    ∃ t, ReachWhere step Smooth s t ∧ t.died = none ∧
      t.threads c = some { th with point := .broadcasting message 0 } ∧
      t.client_mutex = some c ∧
      t.said = s.said ++ [⟨c, (occupants 0 t.client_sockets).filterMap t.fds⟩] := by
  have taken : step s (.run c) = some
      { (s.goto c th (.broadcasting message 0)).say c with client_mutex := some c } := by
    rw [step, if_pos alive]
    dsimp only [run]
    rw [thread, Option.bind_some, here]
    dsimp only
    rw [if_pos free]
  exact ⟨_, .single (a := .run c) trivial taken, alive, Function.update_self .., rfl, rfl⟩

/-- A chunk received can be broadcast to everybody else in the room. -/
theorem can_deliver {m : Noted} {message : List Byte} (booked : Booked m)
    (thread : m.1.threads c = some th) (here : th.point = .lockBroadcast message) :
    ∃ m' p members, ReachWhere (remember step note) (fun m => Smooth m.1) m m' ∧
      m'.1.died = none ∧ m'.1.said = m.1.said ++ [⟨c, members⟩] ∧ m'.2 = m.2 ++ [p] ∧
      p.behind p.sender = some c ∧ p.text = message ∧
      ∀ d, present d m'.1.history = true → d ≠ c →
        sendsTo m'.1.sends m.1.said.length d = 1 ∧
          callsTo SendCall.fd m'.1.sends m.2.length p d = 1 := by
  have outside : ¬Holds th.point := by
    rw [here]
    exact id
  obtain ⟨s₁, waited, alive₁, said₁, thread₁, free⟩ :=
    can_wait booked.handlers booked.alive thread outside
  obtain ⟨s₂, started, alive₂, thread₂, held, said₂⟩ := can_say alive₁ thread₁ here free
  obtain ⟨t, finished, spares, free'⟩ := can_release alive₂ thread₂ held trivial
  obtain ⟨postings₂, run₂⟩ := exists_reach_remember note (waited.trans started) m.2
  obtain ⟨postings, run₃⟩ := exists_reach_remember note finished postings₂
  have run := run₂.trans run₃
  have booked₂ := booked_run booked run₂
  have later := booked_run booked run
  obtain ⟨slots, fds⟩ := spares.table trivial
  have all : t.said = m.1.said ++ [⟨c, (occupants 0 t.client_sockets).filterMap t.fds⟩] := by
    rw [spares.said, said₂, slots, fds, said₁]
  have number := booked.ledger.length_eq
  -- the posting of this broadcast is the one the loop started with, and the only new one
  obtain ⟨p, posted₂, going⟩ := booked₂.going c _ message 0 thread₂ rfl
  have last : m.1.said.length = s₂.said.length - 1 := by
    rw [said₂, said₁, List.length_append, List.length_singleton, Nat.add_sub_cancel]
  have posted : postings[m.2.length]? = some p := by
    obtain ⟨rest, rfl⟩ := prefix_of_reach note_grows run₃
    rw [← number, last]
    exact (List.getElem?_append_left (List.getElem?_eq_some_iff.mp posted₂).1).trans posted₂
  have postings_eq : postings = m.2 ++ [p] := by
    obtain ⟨rest, rfl⟩ := prefix_of_reach note_grows run
    have size := later.ledger.length_eq
    rw [all, List.length_append, List.length_append, number] at size
    obtain ⟨q, rfl⟩ := List.length_eq_one_iff.mp (Nat.add_left_cancel size).symm
    rw [List.getElem?_concat_length] at posted
    rw [Option.some.inj posted]
  obtain ⟨b, mine, entry⟩ := later.ledger.entry_of_posted posted
  rw [all, ← number, List.getElem?_concat_length] at entry
  obtain ⟨rfl, members⟩ := Said.mk.inj (Option.some.inj entry)
  refine ⟨(t, postings), p, _, run, spares.died.trans alive₂, all, postings_eq, mine,
    going.text, ?_⟩
  intro d inside apart
  have member : d ∈ p.members 0 := by
    rw [← members]
    exact (later.handlers.inside.mem_filterMap d).mpr inside
  have once := later.ledger.once later.accounted posted d
  have other : p.behind p.sender ≠ some d := by
    rw [mine]
    intro same
    exact apart (Option.some.inj same).symm
  rw [owed_of_free free', List.count_nil, if_pos ⟨member, other⟩] at once
  refine ⟨?_, once⟩
  rw [number, ← later.ledger.callsTo_eq posted]
  exact once

private theorem can_take {s : State} {c : ConnId} {th : Thread} {got : List Byte}
    (alive : s.died = none) (thread : s.threads c = some th) (here : th.point = .recv)
    (some_bytes : got ≠ []) (fits : got.length ≤ BUFFER_SIZE) :
    ∃ t, step s (.recv c got) = some t ∧
      t.threads c = some { th with point := .lockBroadcast (cstr got) } := by
  have now : step s (.recv c got) = recv s c got := if_pos alive
  rw [now, recv, thread, Option.bind_some, here]
  dsimp only
  rw [if_neg some_bytes, if_pos fits]
  exact ⟨_, rfl, Function.update_self ..⟩

end Delivering

/-- While no broadcast sends to a client that has left and is not unregistered yet, the
server lives, each message is sent once to each other client in the room, the holder of the
mutex always goes on and gives it back within its turns, and a chunk that comes is taken and
can be delivered. Where a broadcast does send to such a client, it can end the server. -/
theorem survives_departures (servSock : ℤ) (m : Noted)
    (run : ReachWhere (remember step note) (fun m => Isolated m.1) (start servSock) m) :
    m.1.died = none ∧
      (∀ sent ∈ m.1.sends, ∃ p, m.2[sent.number]? = some p ∧
        p.Carries 0 sent.call.fd sent.call.message ∧ sent.reached = p.behind sent.call.fd) ∧
      (∀ a t, step m.1 a = some t → ∃ new, t.sends = m.1.sends ++ new ∧
        ∀ sent ∈ new, sent.reached = m.1.fds sent.call.fd) ∧
      (∀ k e, m.1.said[k]? = some e → ∀ c, sendsTo m.1.sends k c + (owed m.1 c).count k =
        if c ∈ e.members ∧ c ≠ e.sender then 1 else 0) ∧
      (∀ k p, m.2[k]? = some p → ∀ c,
        callsTo SendCall.fd m.1.sends k p c + (owed m.1 c).count k =
          if c ∈ p.members 0 ∧ p.behind p.sender ≠ some c then 1 else 0) ∧
      (∀ c, m.1.client_mutex = some c → (∃ t, step m.1 (.run c) = some t) ∧
        ∀ as t, Guarded step (fun _ => AcceptSucceeds) m.1 as → exec step m.1 as = some t →
          MAX_CLIENTS + 2 ≤ as.count (.run c) →
            ∃ before after u, as = before ++ after ∧ exec step m.1 before = some u ∧
              u.client_mutex = none) ∧
      (∀ c th got, m.1.threads c = some th → th.point = .recv → got ≠ [] →
        got.length ≤ BUFFER_SIZE → ∃ t, step m.1 (.recv c got) = some t ∧
          t.threads c = some { th with point := .lockBroadcast (cstr got) }) ∧
      (∀ c th message, m.1.threads c = some th → th.point = .lockBroadcast message →
        ∃ m' p members, ReachWhere (remember step note) (fun m => Smooth m.1) m m' ∧
          m'.1.died = none ∧ m'.1.said = m.1.said ++ [⟨c, members⟩] ∧ m'.2 = m.2 ++ [p] ∧
          p.behind p.sender = some c ∧ p.text = message ∧
          ∀ d, present d m'.1.history = true → d ≠ c →
            sendsTo m'.1.sends m.1.said.length d = 1 ∧
              callsTo SendCall.fd m'.1.sends m.2.length p d = 1) ∧
      (∀ c, (∃ t, step m.1 (.sendFails c) = some t ∧
        t.died = some "send() failed during broadcast") ↔ SendsToDeparted m.1 c) := by
  have booked := survives run
  have ⟨alive, h, account, ledger, _⟩ := booked
  refine ⟨alive, ledger.carried, fun a t => reached_of_step, account.once, ?_, ?_, ?_, ?_,
    fun c => dies_iff h alive⟩
  · intro k p posted c
    exact ledger.once account posted c
  · intro c held
    obtain ⟨th, thread⟩ := h.holder c held
    constructor
    · obtain ⟨t, taken, _⟩ := holder_turn alive thread held ((h.mutex c th thread).mpr held)
      exact ⟨t, taken⟩
    · intro as t _ taken turns
      exact released h thread held taken (Nat.le_trans (toRelease_le th.point) turns)
  · intro c th got thread here some_bytes fits
    exact can_take alive thread here some_bytes fits
  · intro c th message thread here
    exact can_deliver booked thread here

def departedFirst : List Action :=
  [.accept 4, .accept 5, .accept 6] ++
    List.replicate 3 (.run 0) ++ List.replicate 3 (.run 1) ++ List.replicate 3 (.run 2) ++
    [.depart 1, .recv 1 []] ++ List.replicate 4 (.run 1) ++
    [.recv 0 [104]] ++ List.replicate 13 (.run 0)

theorem survives_departures_three_clients : ∃ m,
    ReachWhere (remember step note) (fun m => Isolated m.1) (start 3) m ∧
      m.1.departed 1 = true ∧ m.1.died = none ∧
      (∀ sent ∈ m.1.sends, ∃ p, m.2[sent.number]? = some p ∧
        p.Carries 0 sent.call.fd sent.call.message ∧ sent.reached = p.behind sent.call.fd) ∧
      ∃ p, m.2[0]? = some p ∧ p.text = [104] ∧
        callsTo SendCall.fd m.1.sends 0 p 2 + (owed m.1 2).count 0 = 1 ∧
        callsTo SendCall.fd m.1.sends 0 p 1 + (owed m.1 1).count 0 = 0 := by
  have shown : (exec (remember step note) (start 3) departedFirst).map (fun m =>
      (m.1.departed 1, m.2[0]?.map fun p => (p.text, p.members 0, p.behind p.sender))) =
        some (true, some ([104], [0, 2], some 0)) := by
    decide +kernel
  obtain ⟨m, taken, same⟩ := Option.map_eq_some_iff.mp shown
  obtain ⟨left, first⟩ := Prod.mk.inj same
  obtain ⟨p, posted, facts⟩ := Option.map_eq_some_iff.mp first
  obtain ⟨text, facts⟩ := Prod.mk.inj facts
  obtain ⟨members, mine⟩ := Prod.mk.inj facts
  have isolated : Guarded (remember step note) (fun m => Isolated m.1) (start 3)
      departedFirst := by
    decide +kernel
  have run : ReachWhere (remember step note) (fun m => Isolated m.1) (start 3) m :=
    ⟨departedFirst, isolated, taken⟩
  obtain ⟨alive, carried, _, _, once, _⟩ := survives_departures 3 m run
  have counts := once 0 p posted
  rw [members, mine] at counts
  exact ⟨m, run, left, alive, carried, p, posted, text, counts 2, counts 1⟩

/-- A client leaves; before its own thread has noticed, another client's message is sent to it. -/
def departedSecond : List Action :=
  [.accept 4, .accept 5] ++ List.replicate 3 (.run 0) ++ List.replicate 3 (.run 1) ++
    [.depart 0, .recv 1 [104], .run 1, .sendFails 1]

theorem departure_ends_server : ∃ s, Reach step (init 3) s ∧
    s.died = some "send() failed during broadcast" ∧ ∀ a, step s a = none := by
  have shown : (exec step (init 3) departedSecond).map (fun s => s.died) =
      some (some "send() failed during broadcast") := by
    decide +kernel
  obtain ⟨s, taken, died⟩ := Option.map_eq_some_iff.mp shown
  refine ⟨s, ⟨departedSecond, taken⟩, died, ?_⟩
  intro a
  have dead : s.died ≠ none := by
    rw [died]
    exact Option.some_ne_none _
  exact if_neg dead

end SocketChat.TestCode.ArbitraryChat.Isolation
