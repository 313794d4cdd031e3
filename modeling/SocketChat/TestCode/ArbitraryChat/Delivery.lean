/- SocketChat/TestCode/ArbitraryChat/Delivery
   digest: All broadcasts are one sequence, of which each client is sent its part exactly. -/

import SocketChat.Lib.History
import SocketChat.Lib.Postings
import SocketChat.TestCode.ArbitraryChat.Turns

set_option autoImplicit false
set_option relaxedAutoImplicit false

namespace SocketChat.TestCode.ArbitraryChat.Delivery

open SocketChat.Lib
open SocketChat.Lib.CString
open SocketChat.Lib.Deliveries
open SocketChat.Lib.History
open SocketChat.Lib.Postings
open SocketChat.Lib.Room (Event present)
open SocketChat.Lib.Runs
open SocketChat.Lib.SlotTable
open SocketChat.TestCode.ArbitraryChat.Model
open SocketChat.TestCode.ArbitraryChat.Threads
open SocketChat.TestCode.ArbitraryChat.Turns

/-- `accept` gives positive descriptors and no `send` fails. -/
def Smooth (_ : State) : Action → Prop
  | .accept clntSock => 0 < clntSock
  | .sendFails _ => False
  | _ => True

/-- What a loop of `broadcast` with these slots before it will send to `c`. -/
def ahead (fds : ℤ → Option ConnId) (clntSocket : ℤ) (slots : List ℤ) (number : ℕ)
    (c : ConnId) : List ℕ :=
  ((recipients 0 clntSocket slots).filter fun fd => fds fd = some c).map fun _ => number

/-- What the broadcast going on, if there is one, has not sent to `c` yet. -/
def owed (s : State) (c : ConnId) : List ℕ :=
  match s.client_mutex.bind s.threads with
  | some ⟨clntSocket, .broadcasting _ i⟩ =>
      ahead s.fds clntSocket (s.client_sockets.drop i) (s.said.length - 1) c
  | _ => []

section Owed

variable {s t : State} {c : ConnId} {th : Thread}

theorem owed_of_free (free : s.client_mutex = none) : owed s = fun _ => [] := by
  funext d
  simp [owed, free]

private theorem owed_of_holder (held : s.client_mutex = some c) (thread : s.threads c = some th)
    (other : ∀ message i, th.point ≠ .broadcasting message i) : owed s = fun _ => [] := by
  funext d
  rw [owed, held, Option.bind_some, thread]
  split
  · rename_i clntSocket message i same
    have here := congrArg Thread.point (Option.some.inj same)
    exact absurd here (other message i)
  · rfl

private theorem owed_of_broadcasting {message : List Byte} {i : ℕ} (held : s.client_mutex = some c)
    (thread : s.threads c = some th) (here : th.point = .broadcasting message i) :
    owed s = ahead s.fds th.clntSocket (s.client_sockets.drop i) (s.said.length - 1) := by
  funext d
  cases th with
  | mk clntSocket point =>
    subst here
    rw [owed, held, Option.bind_some, thread]

private theorem ahead_congr {fds fds' : ℤ → Option ConnId} {slots : List ℤ} (clntSocket : ℤ) (k : ℕ)
    (same : ∀ fd ∈ occupants 0 slots, fds' fd = fds fd) :
    ahead fds' clntSocket slots k = ahead fds clntSocket slots k := by
  funext d
  rw [ahead, ahead]
  congr 1
  apply List.filter_congr
  intro fd hfd
  rw [same fd (mem_recipients.mp hfd).1]

private theorem occupants_drop {slots : List ℤ} {i : ℕ} {fd : ℤ}
    (held : fd ∈ occupants 0 (slots.drop i)) : fd ∈ occupants 0 slots := by
  obtain ⟨slot, used⟩ := mem_occupants.mp held
  exact mem_occupants.mpr ⟨List.mem_of_mem_drop slot, used⟩

private theorem owed_congr (mutex : t.client_mutex = s.client_mutex)
    (slots : t.client_sockets = s.client_sockets) (said : t.said = s.said)
    (threads : ∀ d, s.client_mutex = some d → t.threads d = s.threads d)
    (fds : ∀ fd ∈ occupants 0 s.client_sockets, t.fds fd = s.fds fd) : owed t = owed s := by
  cases held : s.client_mutex with
  | none => rw [owed_of_free held, owed_of_free (mutex.trans held)]
  | some d =>
    cases thread : s.threads d with
    | none =>
      funext e
      simp [owed, mutex, held, threads d held, thread]
    | some th =>
      have thread' : t.threads d = some th := (threads d held).trans thread
      by_cases going : ∃ message i, th.point = .broadcasting message i
      · obtain ⟨message, i, here⟩ := going
        rw [owed_of_broadcasting held thread here,
          owed_of_broadcasting (mutex.trans held) thread' here, slots, said]
        apply ahead_congr
        intro fd hfd
        exact fds fd (occupants_drop hfd)
      · push Not at going
        rw [owed_of_holder held thread going, owed_of_holder (mutex.trans held) thread' going]

end Owed

def Accounted (s : State) : Prop := Account s.said s.sends s.history (owed s)

section Steps

variable {s : State} {c : ConnId} {th : Thread}

private theorem ahead_of_start (h : Handlers s) (thread : s.threads c = some th)
    (running : th.point ≠ .returned) (k : ℕ) :
    ahead s.fds th.clntSocket s.client_sockets k =
      fun d => if present d s.history && c ≠ d then [k] else [] := by
  funext d
  have own : ∀ fd fd' e, s.fds fd = some e → s.fds fd' = some e → fd = fd' :=
    fun fd fd' e left right => h.injective left right
  exact share_recipients h.distinct own (h.owns c th thread running) h.inside k d

private theorem inbox_sendTo (message : List Byte) (i : ℕ) (d : ConnId) :
    inbox (sendTo s th message i) d ++
        ahead s.fds th.clntSocket (s.client_sockets.drop (i + 1)) (s.said.length - 1) d =
      ahead s.fds th.clntSocket (s.client_sockets.drop i) (s.said.length - 1) d := by
  cases slot : s.client_sockets[i]? with
  | none =>
    have past : s.client_sockets.length ≤ i := List.getElem?_eq_none_iff.mp slot
    rw [List.drop_eq_nil_of_le past, List.drop_eq_nil_of_le (Nat.le_succ_of_le past)]
    simp [sendTo, target, slot, inbox]
  | some fd =>
    obtain ⟨inside, rfl⟩ := List.getElem?_eq_some_iff.mp slot
    rw [List.drop_eq_getElem_cons inside]
    by_cases due : s.client_sockets[i] ≠ 0 ∧ s.client_sockets[i] ≠ th.clntSocket
    · have found : target s th i = some s.client_sockets[i] := by
        simp [target, inside, due.1, due.2]
      have first : recipients 0 th.clntSocket
          (s.client_sockets[i] :: s.client_sockets.drop (i + 1)) =
            s.client_sockets[i] ::
              recipients 0 th.clntSocket (s.client_sockets.drop (i + 1)) :=
        List.filter_cons_of_pos (decide_eq_true due)
      rw [ahead, ahead, first]
      by_cases behind : s.fds s.client_sockets[i] = some d
      · simp [sendTo, found, inbox, behind]
      · simp [sendTo, found, inbox, behind]
    · have skipped : target s th i = none := by
        simpa [target, inside] using due
      have first : recipients 0 th.clntSocket
          (s.client_sockets[i] :: s.client_sockets.drop (i + 1)) =
            recipients 0 th.clntSocket (s.client_sockets.drop (i + 1)) :=
        List.filter_cons_of_neg (by simpa using due)
      rw [ahead, ahead, first]
      simp [sendTo, skipped, inbox]

private theorem served_sendTo (h : Handlers s) (message : List Byte) (i : ℕ)
    (owing : ∀ d, ∀ k ∈ inbox (sendTo s th message i) d, k < s.said.length) :
    ∀ sent ∈ sendTo s th message i, sent.reached.isSome ∧ sent.number < s.said.length := by
  intro sent hsent
  obtain ⟨fd, found, rfl⟩ := Option.map_eq_some_iff.mp (Option.mem_toList.mp hsent)
  obtain ⟨d, behind⟩ := h.connected_of_target found
  refine ⟨Option.isSome_iff_exists.mpr ⟨d, behind⟩, owing d _ ?_⟩
  exact List.mem_map_of_mem (List.mem_filter.mpr ⟨hsent, decide_eq_true behind⟩)

private theorem owed_goto (h : Handlers s) (thread : s.threads c = some th)
    (outside : ¬Holds th.point) (point : Point) : owed (s.goto c th point) = owed s := by
  refine owed_congr rfl rfl rfl ?_ ?_
  · intro d held
    apply Function.update_of_ne
    rintro rfl
    exact outside ((h.mutex d th thread).mpr held)
  · intro fd _
    rfl

end Steps

private theorem accounted_of_owed {t : State} {left : ConnId → List ℕ} (same : owed t = left)
    (account : Account t.said t.sends t.history left) : Accounted t := by
  rw [Accounted, same]
  exact account

theorem accounted_init (servSock : ℤ) : Accounted (init servSock) := by
  rw [Accounted, owed_of_free rfl]
  exact account_nil

theorem accounted_step {s t : State} {a : Action} (h : Handlers s) (account : Accounted s)
    (ok : Smooth s a) (taken : step s a = some t) : Accounted t := by
  cases (took_of_step taken).2 with
  | acceptFailed clntSock failed =>
    have positive : 0 < clntSock := ok
    omega
  | accepted clntSock valid fresh =>
    refine accounted_of_owed (owed_congr (s := s) rfl rfl rfl ?_ ?_) account
    · intro d held
      obtain ⟨th, thread⟩ := h.holder d held
      exact Function.update_of_ne (Nat.ne_of_lt (h.numbered d th thread)) ..
    · intro fd held
      apply Function.update_of_ne
      rintro rfl
      obtain ⟨_, _, _, _, _, behind⟩ := h.connected held
      rw [fresh] at behind
      cases behind
  | departed c => exact account
  | passed _ c th point thread passes =>
    cases th with
    | mk clntSocket here =>
      cases passes with
      | ended => exact accounted_of_owed (owed_goto h thread (fun holds => holds) _) account
      | received got something fits =>
        exact accounted_of_owed (owed_goto h thread (fun holds => holds) _) account
      | looped message i done =>
        have held := (h.mutex c _ thread).mp trivial
        have nothing : owed s = fun _ => [] := by
          have past : s.client_sockets.drop i = [] := List.drop_eq_nil_of_le (h.size ▸ done)
          rw [owed_of_broadcasting held thread rfl, past]
          rfl
        refine accounted_of_owed
          (owed_of_holder held (Function.update_self ..) fun _ _ => Point.noConfusion) ?_
        rw [← nothing]
        exact account
  | locked c th point thread free locks =>
    rw [Accounted, owed_of_free free] at account
    refine accounted_of_owed (owed_of_holder rfl (Function.update_self ..) ?_) account
    intro message i same
    rw [show point = _ from same] at locks
    generalize th.point = here at locks
    cases locks
  | unlocked c th point thread unlocks =>
    have held := h.holding thread rfl unlocks.holds
    have quiet : ∀ message i, th.point ≠ .broadcasting message i := by
      intro message i same
      rw [same] at unlocks
      cases unlocks
    rw [Accounted, owed_of_holder held thread quiet] at account
    exact accounted_of_owed (owed_of_free rfl) account
  | said c th message thread here free =>
    rw [Accounted, owed_of_free free] at account
    have start := ahead_of_start h thread (by simp [here]) s.said.length
    have now : owed { (s.goto c th (.broadcasting message 0)).say c with
        client_mutex := some c } = _ :=
      owed_of_broadcasting rfl (Function.update_self ..) rfl
    have number : (s.say c).said.length - 1 = s.said.length := by
      rw [State.say, List.length_append, List.length_singleton, Nat.add_sub_cancel]
    have then_owed : ahead s.fds th.clntSocket s.client_sockets ((s.say c).said.length - 1) =
        _ := (congrArg _ number).trans start
    refine accounted_of_owed (now.trans then_owed) ?_
    exact account.say h.inside.mem_filterMap
  | sent c th message i thread here more =>
    have held := h.holding thread here trivial
    rw [Accounted, owed_of_broadcasting held thread here] at account
    refine accounted_of_owed (owed_of_broadcasting held (Function.update_self ..) rfl) ?_
    apply account.serve
    · apply served_sendTo h
      intro d k hk
      apply account.owing d
      rw [← inbox_sendTo message i d]
      exact List.mem_append_left _ hk
    · exact inbox_sendTo message i
  | added c th thread here =>
    have held := h.holding thread here trivial
    rw [Accounted, owed_of_holder held thread (by simp [here])] at account
    refine accounted_of_owed
      (owed_of_holder held (Function.update_self ..) fun _ _ => Point.noConfusion) ?_
    exact account.join_if _ c
  | removed c th thread here =>
    have held := h.holding thread here trivial
    rw [Accounted, owed_of_holder held thread (by simp [here])] at account
    refine accounted_of_owed
      (owed_of_holder held (Function.update_self ..) fun _ _ => Point.noConfusion) ?_
    by_cases stored : th.clntSocket ∈ s.client_sockets ∧ th.clntSocket ≠ 0
    · simp only [if_pos stored]
      exact account.leave c
    · simp only [if_neg stored]
      exact account
  | closed c th thread here =>
    have outside : ¬Holds th.point := by simp [here, Holds]
    have gone := h.absent thread (by simp [here]) (by simp [here, Listed])
    refine accounted_of_owed (owed_congr (s := s) rfl rfl rfl ?_ ?_) account
    · intro d held
      apply Function.update_of_ne
      rintro rfl
      exact outside ((h.mutex d th thread).mpr held)
    · intro fd held
      apply Function.update_of_ne
      rintro rfl
      exact gone held
  | sendFailed c th message i fd thread here found gone => exact ok.elim

private theorem alive_step {s t : State} {a : Action} (ok : Smooth s a)
    (taken : step s a = some t) :
    t.died = none := by
  obtain ⟨alive, took⟩ := took_of_step taken
  cases took with
  | acceptFailed clntSock failed =>
    have positive : 0 < clntSock := ok
    omega
  | sendFailed _ th message i fd thread here found gone => exact ok.elim
  | _ => exact alive

/-- The server is a room: what it does to the history is what may happen in one. -/
theorem simulates_room : Simulates step Smooth Room.Step
    (fun s events => Handlers s ∧ s.history = events) := by
  rintro s a t events ⟨h, rfl⟩ ok taken
  refine ⟨t.history, ?_, handlers_step h taken, rfl⟩
  cases (took_of_step taken).2 with
  | acceptFailed clntSock failed => exact .refl
  | accepted clntSock valid fresh => exact .refl
  | departed c => exact .refl
  | passed _ c th point thread passes => exact .refl
  | locked c th point thread free locks => exact .refl
  | unlocked c th point thread unlocks => exact .refl
  | said c th message thread here free => exact .single (.say c s.said.length)
  | sent c th message i thread here more => exact .refl
  | added c th thread here =>
    by_cases stored : 0 ∈ s.client_sockets ∧ th.clntSocket ≠ 0
    · simp only [if_pos stored]
      apply Relation.ReflTransGen.single
      apply Room.Step.join
      intro before
      obtain ⟨th', thread', late⟩ := h.joined c before
      rw [thread] at thread'
      obtain rfl := Option.some.inj thread'
      rw [here] at late
      exact late trivial
    · simp only [if_neg stored]
      exact .refl
  | removed c th thread here =>
    by_cases stored : th.clntSocket ∈ s.client_sockets ∧ th.clntSocket ≠ 0
    · simp only [if_pos stored]
      apply Relation.ReflTransGen.single
      apply Room.Step.leave
      apply (h.inside c).mpr
      exact ⟨th.clntSocket, mem_occupants.mpr stored, h.owns c th thread (by simp [here])⟩
    · simp only [if_neg stored]
      exact .refl
  | closed c th thread here => exact .refl
  | sendFailed c th message i fd thread here found gone => exact .refl

private theorem history_is_room {servSock : ℤ} {s : State}
    (run : ReachWhere step Smooth (init servSock) s) :
    Relation.ReflTransGen Room.Step [] s.history := by
  obtain ⟨events, room, _, rfl⟩ := simulates_room.run ⟨handlers_init servSock, rfl⟩ run
  exact room

/-- The broadcasts as each gets the mutex: from which descriptor, with the table and the
connections behind the descriptors at that time, and with its message. -/
def note (s : State) : Action → List (Posting ℤ ConnId (List Byte)) →
    List (Posting ℤ ConnId (List Byte))
  | .run c, postings =>
      match s.threads c with
      | some ⟨clntSocket, .lockBroadcast message⟩ =>
          postings ++ [⟨clntSocket, s.client_sockets, s.fds, message⟩]
      | _ => postings
  | _, postings => postings

abbrev Noted := State × List (Posting ℤ ConnId (List Byte))

def start (servSock : ℤ) : Noted := (init servSock, [])

theorem note_grows (s : State) (a : Action) (postings : List (Posting ℤ ConnId (List Byte))) :
    postings <+: note s a postings := by
  cases a with
  | run c =>
    dsimp only [note]
    split
    · exact List.prefix_append ..
    · exact List.prefix_rfl
  | _ => exact List.prefix_rfl

structure Going (s : State) (th : Thread) (message : List Byte)
    (p : Posting ℤ ConnId (List Byte)) : Prop where
  sender : p.sender = th.clntSocket
  table : p.table = s.client_sockets
  behind : ∀ fd ∈ occupants 0 s.client_sockets, p.behind fd = s.fds fd
  text : p.text = message

structure Booked (m : Noted) : Prop where
  alive : m.1.died = none
  handlers : Handlers m.1
  accounted : Accounted m.1
  ledger : Ledger 0 SendCall.fd SendCall.message m.2 m.1.said m.1.sends
  going : ∀ c th message i, m.1.threads c = some th → th.point = .broadcasting message i →
    ∃ p, m.2[m.1.said.length - 1]? = some p ∧ Going m.1 th message p

section Calls

variable {s t : State} {c : ConnId} {th : Thread} {message : List Byte}
  {postings : List (Posting ℤ ConnId (List Byte))}

private theorem note_run (thread : s.threads c = some th)
    (other : ∀ message, th.point ≠ .lockBroadcast message) :
    note s (.run c) postings = postings := by
  dsimp only [note]
  rw [thread]
  split
  · rename_i clntSocket message same
    exact absurd (congrArg Thread.point (Option.some.inj same)) (other message)
  · rfl

private theorem note_say (thread : s.threads c = some th)
    (here : th.point = .lockBroadcast message) :
    note s (.run c) postings =
      postings ++ [⟨th.clntSocket, s.client_sockets, s.fds, message⟩] := by
  cases th with
  | mk clntSocket point =>
    subst here
    dsimp only [note]
    rw [thread]

private theorem carried_sendTo (h : Handlers s) {p : Posting ℤ ConnId (List Byte)} {i : ℕ}
    (going : Going s th message p) :
    ∀ sent ∈ sendTo s th message i, sent.number = s.said.length - 1 ∧
      p.Carries 0 sent.call.fd sent.call.message ∧ sent.reached = p.behind sent.call.fd := by
  intro sent hsent
  obtain ⟨fd, found, rfl⟩ := Option.map_eq_some_iff.mp (Option.mem_toList.mp hsent)
  obtain ⟨slot, due⟩ := Option.filter_eq_some_iff.mp found
  obtain ⟨used, other⟩ := of_decide_eq_true due
  have listed := List.mem_of_getElem? slot
  have behind := going.behind fd (mem_occupants.mpr ⟨listed, used⟩)
  obtain ⟨d, reaches⟩ := h.connected_of_target found
  refine ⟨rfl, ⟨?_, used, ?_, ?_, going.text.symm⟩, behind.symm⟩
  · rw [going.table]
    exact listed
  · rw [going.sender]
    exact other
  · rw [behind, reaches]
    rfl

private theorem note_held {a : Action} (taken : step s a = some t)
    (held : s.client_mutex = some c) :
    note s a postings = postings := by
  cases (took_of_step taken).2 with
  | acceptFailed clntSock failed => rfl
  | accepted clntSock valid fresh => rfl
  | departed d => rfl
  | passed _ d th point thread passes =>
    cases th with
    | mk clntSocket here =>
      cases passes with
      | ended => rfl
      | received got something fits => rfl
      | looped message i done => exact note_run thread fun _ => Point.noConfusion
  | locked d th point thread free locks =>
    rw [held] at free
    cases free
  | unlocked d th point thread unlocks =>
    apply note_run thread
    intro message same
    rw [same] at unlocks
    cases unlocks
  | said d th message thread here free =>
    rw [held] at free
    cases free
  | sent d th message i thread here more => exact note_run thread (by simp [here])
  | added d th thread here => exact note_run thread (by simp [here])
  | removed d th thread here => exact note_run thread (by simp [here])
  | closed d th thread here => exact note_run thread (by simp [here])
  | sendFailed d th message i fd thread here found gone => rfl

private theorem going_turn {i : ℕ}
    (ledger : Ledger 0 SendCall.fd SendCall.message postings s.said s.sends)
    (before : ∀ th message i, s.threads c = some th → th.point = .broadcasting message i →
      ∃ p, postings[s.said.length - 1]? = some p ∧ Going s th message p)
    (taken : step s (.run c) = some t) (thread : t.threads c = some th)
    (here : th.point = .broadcasting message i) :
    ∃ p, (note s (.run c) postings)[t.said.length - 1]? = some p ∧ Going t th message p := by
  have moved : ∀ th', t.threads c = some th' → th'.point = .broadcasting message i := by
    intro th' thread'
    obtain rfl := Option.some.inj (thread.symm.trans thread')
    exact here
  cases (took_of_step taken).2 with
  | passed _ d th' point thread' passes =>
    generalize th'.point = old at passes
    cases passes with
    | looped text j done => cases moved _ (Function.update_self ..)
  | locked _ th' point thread' free locks =>
    cases moved _ (Function.update_self ..)
    generalize th'.point = old at locks
    cases locks
  | unlocked _ th' point thread' unlocks =>
    cases moved _ (Function.update_self ..)
    generalize th'.point = old at unlocks
    cases unlocks
  | said _ th' text thread' old free =>
    obtain rfl := Option.some.inj (thread.symm.trans (Function.update_self ..))
    cases here
    refine ⟨⟨th'.clntSocket, s.client_sockets, s.fds, message⟩, ?_, rfl, rfl, fun _ _ => rfl, rfl⟩
    have number : (s.say c).said.length - 1 = postings.length := by
      rw [State.say, List.length_append, List.length_singleton, Nat.add_sub_cancel,
        ledger.length_eq]
    rw [note_say thread' old]
    change (postings ++ _)[(s.say c).said.length - 1]? = _
    rw [number, List.getElem?_concat_length]
  | sent _ th' text j thread' old more =>
    obtain rfl := Option.some.inj (thread.symm.trans (Function.update_self ..))
    cases here
    obtain ⟨p, posted, going⟩ := before th' message j thread' old
    rw [note_run thread' (by simp [old])]
    exact ⟨p, posted, going.sender, going.table, going.behind, going.text⟩
  | added _ th' thread' old => cases moved _ (Function.update_self ..)
  | removed _ th' thread' old => cases moved _ (Function.update_self ..)
  | closed _ th' thread' old => cases moved _ (Function.update_self ..)

private theorem ledger_step {a : Action} (h : Handlers s)
    (ledger : Ledger 0 SendCall.fd SendCall.message postings s.said s.sends)
    (going : ∀ c th message i, s.threads c = some th → th.point = .broadcasting message i →
      ∃ p, postings[s.said.length - 1]? = some p ∧ Going s th message p)
    (ok : Smooth s a) (taken : step s a = some t) :
    Ledger 0 SendCall.fd SendCall.message (note s a postings) t.said t.sends := by
  cases (took_of_step taken).2 with
  | acceptFailed clntSock failed => exact ledger
  | accepted clntSock valid fresh => exact ledger
  | departed d => exact ledger
  | passed _ d th point thread passes =>
    cases th with
    | mk clntSocket here =>
      cases passes with
      | ended => exact ledger
      | received got something fits => exact ledger
      | looped message i done =>
        rw [note_run thread fun _ => Point.noConfusion]
        exact ledger
  | locked d th point thread free locks =>
    rw [note_run thread]
    · exact ledger
    · intro message same
      rw [same] at locks
      cases locks
  | unlocked d th point thread unlocks =>
    rw [note_held taken (h.holding thread rfl unlocks.holds)]
    exact ledger
  | said d th message thread here free =>
    rw [note_say thread here]
    exact ledger.post (h.owns d th thread (by simp [here]))
  | sent d th message i thread here more =>
    rw [note_run thread (by simp [here])]
    apply ledger.serve
    intro sent hsent
    obtain ⟨p, posted, goes⟩ := going d th message i thread here
    obtain ⟨number, carries, reached⟩ := carried_sendTo h goes sent hsent
    exact ⟨p, (congrArg (postings[·]?) number).trans posted, carries, reached⟩
  | added d th thread here =>
    rw [note_run thread (by simp [here])]
    exact ledger
  | removed d th thread here =>
    rw [note_run thread (by simp [here])]
    exact ledger
  | closed d th thread here =>
    rw [note_run thread (by simp [here])]
    exact ledger
  | sendFailed d th message i fd thread here found gone => exact ok.elim

end Calls

theorem booked_start (servSock : ℤ) : Booked (start servSock) where
  alive := rfl
  handlers := handlers_init servSock
  accounted := accounted_init servSock
  ledger := ledger_nil
  going := by
    intro c th message i thread
    cases thread

theorem booked_step (m : Noted) (a : Action) (m' : Noted) (h : Booked m) (ok : Smooth m.1 a)
    (taken : remember step note m a = some m') : Booked m' := by
  obtain ⟨s, postings⟩ := m
  obtain ⟨t, postings'⟩ := m'
  obtain ⟨moved, rfl⟩ := remember_eq_some.mp taken
  have later := handlers_step h.handlers moved
  refine ⟨alive_step ok moved, later, accounted_step h.handlers h.accounted ok moved,
    ledger_step h.handlers h.ledger h.going ok moved, ?_⟩
  intro c th message i thread here
  have held' := later.holding thread here trivial
  by_cases mine : a = .run c
  · subst mine
    exact going_turn h.ledger (h.going c) moved thread here
  · have held := (mutex_step moved held').resolve_right mine
    obtain ⟨th₀, thread₀⟩ := h.handlers.holder c held
    obtain ⟨_, same, slots, said, fds⟩ := other_turn h.handlers thread₀ held mine moved
    obtain rfl := Option.some.inj (thread.symm.trans same)
    obtain ⟨p, posted, going⟩ := h.going c th message i thread₀ here
    refine ⟨p, ?_, going.sender, going.table.trans slots.symm, ?_, going.text⟩
    · rw [note_held moved held, said]
      exact posted
    · intro fd listed
      rw [slots] at listed
      exact (going.behind fd listed).trans (fds fd listed).symm

theorem booked_run {m m' : Noted} (booked : Booked m)
    (run : ReachWhere (remember step note) (fun m => Smooth m.1) m m') : Booked m' :=
  invariant_of_step booked_step booked run

theorem reached_of_step {s t : State} {a : Action} (taken : step s a = some t) :
    ∃ new, t.sends = s.sends ++ new ∧ ∀ sent ∈ new, sent.reached = s.fds sent.call.fd := by
  have quiet : t.sends = s.sends →
      ∃ new, t.sends = s.sends ++ new ∧ ∀ sent ∈ new, sent.reached = s.fds sent.call.fd := by
    intro same
    refine ⟨[], by rw [same, List.append_nil], ?_⟩
    intro sent none_there
    cases none_there
  have aimed : ∀ th message i, ∀ sent ∈ sendTo s th message i,
      sent.reached = s.fds sent.call.fd := by
    intro th message i sent hsent
    obtain ⟨fd, _, rfl⟩ := Option.map_eq_some_iff.mp (Option.mem_toList.mp hsent)
    rfl
  cases (took_of_step taken).2 with
  | sent c th message i thread here more => exact ⟨_, rfl, aimed th message i⟩
  | sendFailed c th message i fd thread here found gone => exact ⟨_, rfl, aimed th message i⟩
  | _ => exact quiet rfl

/-- What is still owed is owed by the loop of `broadcast` of the thread that has the mutex. -/
theorem owed_of_loop {s : State} {c : ConnId} (h : Handlers s) (owing : owed s c ≠ []) :
    ∃ d th message i, s.client_mutex = some d ∧ s.threads d = some th ∧
      th.point = .broadcasting message i := by
  by_contra nobody
  apply owing
  cases held : s.client_mutex with
  | none => rw [owed_of_free held]
  | some d =>
    obtain ⟨th, thread⟩ := h.holder d held
    rw [owed_of_holder held thread]
    intro message i here
    exact nobody ⟨d, th, message, i, held, thread, here⟩

/-- Every call of a broadcast is given its message and the descriptor of another client that is
registered when it starts, and at the time of the call that descriptor is still that client's; each
such client gets one call, or is still owed it by the loop that has the mutex, which goes on and
gives the mutex back within its own turns. And the broadcasts are one sequence, of which each
client is sent, without its own, the stretch from its registration to its removal. -/
theorem broadcasts_delivered (servSock : ℤ) (m : Noted)
    (run : ReachWhere (remember step note) (fun m => Smooth m.1) (start servSock) m) :
    (∀ sent ∈ m.1.sends, ∃ p, m.2[sent.number]? = some p ∧
      p.Carries 0 sent.call.fd sent.call.message ∧ sent.reached = p.behind sent.call.fd) ∧
      (∀ a t, step m.1 a = some t → ∃ new, t.sends = m.1.sends ++ new ∧
        ∀ sent ∈ new, sent.reached = m.1.fds sent.call.fd) ∧
      (∀ k p, m.2[k]? = some p → ∀ c,
        callsTo SendCall.fd m.1.sends k p c + (owed m.1 c).count k =
          if c ∈ p.members 0 ∧ p.behind p.sender ≠ some c then 1 else 0) ∧
      (∀ c, owed m.1 c ≠ [] → ∃ d th message i, m.1.client_mutex = some d ∧
        m.1.threads d = some th ∧ th.point = .broadcasting message i) ∧
      (∀ c, m.1.client_mutex = some c → (∃ t, step m.1 (.run c) = some t) ∧
        ∀ as t, exec step m.1 as = some t → MAX_CLIENTS + 2 ≤ as.count (.run c) →
          ∃ before after u, as = before ++ after ∧ exec step m.1 before = some u ∧
            u.client_mutex = none) ∧
      Room.said m.1.history = List.range m.2.length ∧
      (∀ c k, Event.say c k ∈ m.1.history →
        ∃ p, m.2[k]? = some p ∧ p.behind p.sender = some c) ∧
      (∀ c, present c m.1.history = true ↔
        ∃ fd ∈ occupants 0 m.1.client_sockets, m.1.fds fd = some c) ∧
      (∀ c before after, m.1.history = before ++ .join c :: after →
        inbox m.1.sends c ++ owed m.1 c = Room.others c (after.takeWhile (Room.remains c))) ∧
      ∀ c, Event.join c ∉ m.1.history → inbox m.1.sends c = [] := by
  obtain ⟨alive, h, account, ledger, _⟩ := booked_run (booked_start servSock) run
  refine ⟨ledger.carried, fun a t => reached_of_step, ?_, fun c => owed_of_loop h, ?_, ?_, ?_,
    h.inside, ?_, ?_⟩
  · intro k p posted c
    exact ledger.once account posted c
  · intro c held
    obtain ⟨th, thread⟩ := h.holder c held
    constructor
    · obtain ⟨t, taken, _⟩ := holder_turn alive thread held ((h.mutex c th thread).mpr held)
      exact ⟨t, taken⟩
    · intro as t taken turns
      exact released h thread held taken (Nat.le_trans (toRelease_le th.point) turns)
  · rw [← ledger.length_eq]
    exact account.numbered
  · intro c k saying
    obtain ⟨e, here, rfl⟩ := Option.map_eq_some_iff.mp (account.own c k saying)
    exact ledger.posted_of_entry here
  · intro c before after split
    have room := history_is_room (reach_of_remember run)
    rw [split] at room
    obtain ⟨first, last⟩ := Room.join_once room
    rw [account.order c, split]
    exact Room.heard_of_joined first last
  · intro c never
    have whole := account.order c
    rw [Room.heard_of_not_joined never] at whole
    exact (List.append_eq_nil_iff.mp whole).1

/-- Two clients register and the first one says a byte; the second one leaves, and a third one comes
to have its descriptor and says a byte. -/
def threeClients : List Action :=
  [.accept 4, .accept 5] ++ List.replicate 3 (.run 0) ++ List.replicate 3 (.run 1) ++
    [.recv 0 [104]] ++ List.replicate 13 (.run 0) ++
    [.depart 1, .recv 1 []] ++ List.replicate 4 (.run 1) ++
    [.accept 5] ++ List.replicate 3 (.run 2) ++ [.recv 2 [105]] ++ List.replicate 13 (.run 2)

theorem broadcasts_delivered_three_clients : ∃ m,
    ReachWhere (remember step note) (fun m => Smooth m.1) (start 3) m ∧
      m.1.client_mutex = none ∧ m.2.map Posting.text = [[104], [105]] ∧
      (∀ sent ∈ m.1.sends, ∃ p, m.2[sent.number]? = some p ∧
        p.Carries 0 sent.call.fd sent.call.message ∧ sent.reached = p.behind sent.call.fd) ∧
      ∃ p, m.2[1]? = some p ∧ callsTo SendCall.fd m.1.sends 1 p 0 = 1 ∧
        callsTo SendCall.fd m.1.sends 1 p 1 = 0 ∧ callsTo SendCall.fd m.1.sends 1 p 2 = 0 := by
  have shown : (exec (remember step note) (start 3) threeClients).map (fun m =>
      ((m.1.client_mutex, m.2.map Posting.text),
        m.2[1]?.map fun p => (p.members 0, p.behind p.sender))) =
          some ((none, [[104], [105]]), some ([0, 2], some 2)) := by
    decide +kernel
  obtain ⟨m, taken, same⟩ := Option.map_eq_some_iff.mp shown
  obtain ⟨first, second⟩ := Prod.mk.inj same
  obtain ⟨free, texts⟩ := Prod.mk.inj first
  obtain ⟨p, posted, facts⟩ := Option.map_eq_some_iff.mp second
  obtain ⟨members, mine⟩ := Prod.mk.inj facts
  have smooth : Guarded (remember step note) (fun m => Smooth m.1) (start 3) threeClients := by
    apply guarded_of_forall
    simp [threeClients, Smooth]
  have run : ReachWhere (remember step note) (fun m => Smooth m.1) (start 3) m :=
    ⟨threeClients, smooth, taken⟩
  obtain ⟨carried, _, once, _⟩ := broadcasts_delivered 3 m run
  have counts : ∀ c, callsTo SendCall.fd m.1.sends 1 p c =
      if c ∈ [0, 2] ∧ some 2 ≠ some c then 1 else 0 := by
    intro c
    have all := once 1 p posted c
    rwa [owed_of_free free, List.count_nil, Nat.add_zero, members, mine] at all
  exact ⟨m, run, free, texts, carried, p, posted, counts 0, counts 1, counts 2⟩

end SocketChat.TestCode.ArbitraryChat.Delivery
