/- SocketChat/TestCode/ArbitraryChat/Threads
   digest: Where each thread stands, what it holds, and what is in the table for it. -/

import SocketChat.Lib.Seating
import SocketChat.TestCode.ArbitraryChat.Model

set_option autoImplicit false
set_option relaxedAutoImplicit false

namespace SocketChat.TestCode.ArbitraryChat.Threads

open SocketChat.Lib.CString
open SocketChat.Lib.Room (Event)
open SocketChat.Lib.Seating
open SocketChat.Lib.SlotTable
open SocketChat.TestCode.ArbitraryChat.Model

inductive Passes (c : ConnId) : Action → Point → Point → Prop
  | ended : Passes c (.recv c []) .recv .lockRemove
  | received (got : List Byte) (something : got ≠ []) (fits : got.length ≤ BUFFER_SIZE) :
      Passes c (.recv c got) .recv (.lockBroadcast (cstr got))
  | looped (message : List Byte) (i : ℕ) (done : MAX_CLIENTS ≤ i) :
      Passes c (.run c) (.broadcasting message i) .unlockBroadcast

inductive Locks : Point → Point → Prop
  | add : Locks .lockAdd .add
  | remove : Locks .lockRemove .remove

inductive Unlocks : Point → Point → Prop
  | add : Unlocks .unlockAdd .recv
  | broadcast : Unlocks .unlockBroadcast .recv
  | remove : Unlocks .unlockRemove .close

inductive Took (s : State) : Action → State → Prop
  | acceptFailed (clntSock : ℤ) (failed : clntSock < 0) :
      Took s (.accept clntSock) { s with died := some "accept() failed" }
  | accepted (clntSock : ℤ) (valid : 0 ≤ clntSock) (fresh : s.fds clntSock = none) :
      Took s (.accept clntSock)
        { s with
          threads := Function.update s.threads s.created (some ⟨clntSock, .lockAdd⟩)
          created := s.created + 1
          fds := Function.update s.fds clntSock (some s.created) }
  | departed (c : ConnId) :
      Took s (.depart c) { s with departed := Function.update s.departed c true }
  | passed (a : Action) (c : ConnId) (th : Thread) (point : Point)
      (thread : s.threads c = some th) (passes : Passes c a th.point point) :
      Took s a (s.goto c th point)
  | locked (c : ConnId) (th : Thread) (point : Point) (thread : s.threads c = some th)
      (free : s.client_mutex = none) (locks : Locks th.point point) :
      Took s (.run c) { s.goto c th point with client_mutex := some c }
  | unlocked (c : ConnId) (th : Thread) (point : Point) (thread : s.threads c = some th)
      (unlocks : Unlocks th.point point) :
      Took s (.run c) { s.goto c th point with client_mutex := none }
  | said (c : ConnId) (th : Thread) (message : List Byte) (thread : s.threads c = some th)
      (here : th.point = .lockBroadcast message) (free : s.client_mutex = none) :
      Took s (.run c)
        { (s.goto c th (.broadcasting message 0)).say c with client_mutex := some c }
  | sent (c : ConnId) (th : Thread) (message : List Byte) (i : ℕ)
      (thread : s.threads c = some th) (here : th.point = .broadcasting message i)
      (more : i < MAX_CLIENTS) :
      Took s (.run c)
        { s.goto c th (.broadcasting message (i + 1)) with
          sends := s.sends ++ sendTo s th message i }
  | added (c : ConnId) (th : Thread) (thread : s.threads c = some th) (here : th.point = .add) :
      Took s (.run c)
        { s.goto c th .unlockAdd with
          client_sockets := s.client_sockets.replace 0 th.clntSocket
          history :=
            if 0 ∈ s.client_sockets ∧ th.clntSocket ≠ 0 then s.history ++ [.join c]
            else s.history }
  | removed (c : ConnId) (th : Thread) (thread : s.threads c = some th)
      (here : th.point = .remove) :
      Took s (.run c)
        { s.goto c th .unlockRemove with
          client_sockets := s.client_sockets.replace th.clntSocket 0
          history :=
            if th.clntSocket ∈ s.client_sockets ∧ th.clntSocket ≠ 0 then
              s.history ++ [.leave c]
            else s.history }
  | closed (c : ConnId) (th : Thread) (thread : s.threads c = some th)
      (here : th.point = .close) :
      Took s (.run c)
        { s.goto c th .returned with fds := Function.update s.fds th.clntSocket none }
  | sendFailed (c : ConnId) (th : Thread) (message : List Byte) (i : ℕ) (fd : ℤ)
      (thread : s.threads c = some th) (here : th.point = .broadcasting message i)
      (found : target s th i = some fd) (gone : ∀ d, s.fds fd = some d → s.departed d = true) :
      Took s (.sendFails c)
        { s with
          sends := s.sends ++ sendTo s th message i
          died := some "send() failed during broadcast" }

private theorem took_accept {s t : State} {clntSock : ℤ} (taken : accept s clntSock = some t) :
    Took s (.accept clntSock) t := by
  unfold accept at taken
  split at taken
  · rename_i failed
    obtain rfl := Option.some.inj taken
    exact .acceptFailed clntSock failed
  · rename_i valid
    split at taken
    · rename_i fresh
      obtain rfl := Option.some.inj taken
      exact .accepted clntSock (Int.not_lt.mp valid) fresh.1
    · cases taken

private theorem took_depart {s t : State} {c : ConnId} (taken : depart s c = some t) :
    Took s (.depart c) t := by
  unfold depart at taken
  split at taken
  · obtain rfl := Option.some.inj taken
    exact .departed c
  · cases taken

private theorem took_recv {s t : State} {c : ConnId} {got : List Byte}
    (taken : recv s c got = some t) :
    Took s (.recv c got) t := by
  obtain ⟨⟨clntSocket, point⟩, thread, taken⟩ := Option.bind_eq_some_iff.mp taken
  cases point with
  | recv =>
    dsimp only at taken
    split at taken
    · rename_i nothing
      obtain rfl := Option.some.inj taken
      subst nothing
      exact .passed _ c _ _ thread .ended
    · rename_i something
      split at taken
      · rename_i fits
        obtain rfl := Option.some.inj taken
        exact .passed _ c _ _ thread (.received got something fits)
      · cases taken
  | _ => cases taken

private theorem took_run {s t : State} {c : ConnId} (taken : run s c = some t) :
    Took s (.run c) t := by
  obtain ⟨⟨clntSocket, point⟩, thread, taken⟩ := Option.bind_eq_some_iff.mp taken
  cases point with
  | lockAdd =>
    dsimp only at taken
    split at taken
    · rename_i free
      obtain rfl := Option.some.inj taken
      exact .locked c _ _ thread free .add
    · cases taken
  | add =>
    obtain rfl := Option.some.inj taken
    exact .added c _ thread rfl
  | unlockAdd =>
    obtain rfl := Option.some.inj taken
    exact .unlocked c _ _ thread .add
  | recv => cases taken
  | lockBroadcast message =>
    dsimp only at taken
    split at taken
    · rename_i free
      obtain rfl := Option.some.inj taken
      exact .said c _ message thread rfl free
    · cases taken
  | broadcasting message i =>
    dsimp only at taken
    split at taken
    · rename_i more
      obtain rfl := Option.some.inj taken
      exact .sent c _ message i thread rfl more
    · rename_i done
      obtain rfl := Option.some.inj taken
      exact .passed _ c _ _ thread (.looped message i (Nat.le_of_not_lt done))
  | unlockBroadcast =>
    obtain rfl := Option.some.inj taken
    exact .unlocked c _ _ thread .broadcast
  | lockRemove =>
    dsimp only at taken
    split at taken
    · rename_i free
      obtain rfl := Option.some.inj taken
      exact .locked c _ _ thread free .remove
    · cases taken
  | remove =>
    obtain rfl := Option.some.inj taken
    exact .removed c _ thread rfl
  | unlockRemove =>
    obtain rfl := Option.some.inj taken
    exact .unlocked c _ _ thread .remove
  | close =>
    obtain rfl := Option.some.inj taken
    exact .closed c _ thread rfl
  | returned => cases taken

private theorem took_sendFails {s t : State} {c : ConnId} (taken : sendFails s c = some t) :
    Took s (.sendFails c) t := by
  obtain ⟨⟨clntSocket, point⟩, thread, taken⟩ := Option.bind_eq_some_iff.mp taken
  cases point with
  | broadcasting message i =>
    dsimp only at taken
    split at taken
    · rename_i found
      obtain ⟨fd, found, gone⟩ := found
      obtain rfl := Option.some.inj taken
      exact .sendFailed c _ message i fd thread rfl found gone
    · cases taken
  | _ => cases taken

theorem took_of_step {s t : State} {a : Action} (taken : step s a = some t) :
    s.died = none ∧ Took s a t := by
  unfold step at taken
  split at taken
  · rename_i alive
    refine ⟨alive, ?_⟩
    cases a with
    | accept clntSock => exact took_accept taken
    | depart c => exact took_depart taken
    | recv c got => exact took_recv taken
    | run c => exact took_run taken
    | sendFails c => exact took_sendFails taken
  · cases taken

def Holds : Point → Prop
  | .add | .unlockAdd | .broadcasting _ _ | .unlockBroadcast | .remove | .unlockRemove => True
  | _ => False

def Early : Point → Prop
  | .lockAdd | .add => True
  | _ => False

def Listed : Point → Prop
  | .lockAdd | .add | .unlockRemove | .close | .returned => False
  | _ => True

theorem Unlocks.holds {before after : Point} (unlocks : Unlocks before after) :
    Holds before := by
  cases unlocks with
  | add => trivial
  | broadcast => trivial
  | remove => trivial

/-- The threads, the mutex, the table, the descriptors and the history belong together. -/
structure Handlers (s : State) : Prop where
  size : s.client_sockets.length = MAX_CLIENTS
  behind : ∀ fd c, s.fds fd = some c →
    ∃ th, s.threads c = some th ∧ th.clntSocket = fd ∧ th.point ≠ .returned
  owns : ∀ c th, s.threads c = some th → th.point ≠ .returned → s.fds th.clntSocket = some c
  numbered : ∀ c th, s.threads c = some th → c < s.created
  distinct : (occupants 0 s.client_sockets).Nodup
  registered : ∀ fd ∈ occupants 0 s.client_sockets,
    ∃ c th, s.threads c = some th ∧ th.clntSocket = fd ∧ Listed th.point
  mutex : ∀ c th, s.threads c = some th → (Holds th.point ↔ s.client_mutex = some c)
  holder : ∀ c, s.client_mutex = some c → ∃ th, s.threads c = some th
  joined : ∀ c, Event.join c ∈ s.history → ∃ th, s.threads c = some th ∧ ¬Early th.point
  inside : Roster 0 s.client_sockets s.fds s.history

theorem handlers_init (servSock : ℤ) : Handlers (init servSock) := by
  have unused : occupants 0 (init servSock).client_sockets = [] := occupants_replicate MAX_CLIENTS
  constructor
  · rfl
  · intro fd c opened
    cases opened
  · intro c th thread
    cases thread
  · intro c th thread
    cases thread
  · rw [unused]
    exact List.nodup_nil
  · rw [unused]
    intro fd hfd
    cases hfd
  · intro c th thread
    cases thread
  · intro c held
    cases held
  · intro c joined
    cases joined
  · exact roster_nil unused

namespace Handlers

variable {s t : State} {c : ConnId} {th : Thread} {point : Point}

theorem injective (h : Handlers s) {fd fd' : ℤ} (left : s.fds fd = some c)
    (right : s.fds fd' = some c) : fd = fd' := by
  obtain ⟨th, thread, rfl, _⟩ := h.behind fd c left
  obtain ⟨th', thread', rfl, _⟩ := h.behind fd' c right
  rw [thread] at thread'
  rw [Option.some.inj thread']

theorem connected (h : Handlers s) {fd : ℤ} (held : fd ∈ occupants 0 s.client_sockets) :
    ∃ c th, s.threads c = some th ∧ th.clntSocket = fd ∧ Listed th.point ∧
      s.fds fd = some c := by
  obtain ⟨c, th, thread, rfl, listed⟩ := h.registered fd held
  refine ⟨c, th, thread, rfl, listed, h.owns c th thread ?_⟩
  intro returned
  rw [returned] at listed
  exact listed

theorem connected_of_target (h : Handlers s) {i : ℕ} {fd : ℤ}
    (found : target s th i = some fd) : ∃ d, s.fds fd = some d := by
  obtain ⟨slot, due⟩ := Option.filter_eq_some_iff.mp found
  have held : fd ∈ occupants 0 s.client_sockets :=
    mem_occupants.mpr ⟨List.mem_of_getElem? slot, (of_decide_eq_true due).1⟩
  obtain ⟨d, _, _, _, _, behind⟩ := h.connected held
  exact ⟨d, behind⟩

theorem holding (h : Handlers s) (thread : s.threads c = some th) (here : th.point = point)
    (holds : Holds point) : s.client_mutex = some c := by
  apply (h.mutex c th thread).mp
  rw [here]
  exact holds

theorem absent (h : Handlers s) (thread : s.threads c = some th) (open_ : th.point ≠ .returned)
    (unlisted : ¬Listed th.point) : th.clntSocket ∉ occupants 0 s.client_sockets := by
  intro held
  obtain ⟨d, th', thread', _, listed, behind⟩ := h.connected held
  rw [h.owns c th thread open_] at behind
  obtain rfl := Option.some.inj behind
  rw [thread] at thread'
  obtain rfl := Option.some.inj thread'
  exact unlisted listed

private theorem move (h : Handlers s) (thread : s.threads c = some th)
    (threads : t.threads = Function.update s.threads c (some { th with point := point }))
    (fds : t.fds = s.fds) (created : t.created = s.created)
    (slots : t.client_sockets = s.client_sockets)
    (mine : Holds point ↔ t.client_mutex = some c)
    (others : ∀ d, d ≠ c → (t.client_mutex = some d ↔ s.client_mutex = some d))
    (before : th.point ≠ .returned) (after : point ≠ .returned)
    (early : Early point → Early th.point)
    (listed : Listed th.point → th.clntSocket ∈ occupants 0 s.client_sockets → Listed point)
    (joins : ∀ d, Event.join d ∈ t.history → Event.join d ∈ s.history)
    (inside : Roster 0 s.client_sockets s.fds t.history) : Handlers t := by
  constructor
  · rw [slots]
    exact h.size
  · intro fd d opened
    rw [fds] at opened
    obtain ⟨th', thread', same, running⟩ := h.behind fd d opened
    rw [threads]
    by_cases hd : d = c
    · subst hd
      rw [thread] at thread'
      obtain rfl := Option.some.inj thread'
      exact ⟨_, Function.update_self .., same, after⟩
    · exact ⟨th', (Function.update_of_ne hd ..).trans thread', same, running⟩
  · intro d th' thread' running
    rw [threads] at thread'
    rw [fds]
    rcases update_some_eq_some.mp thread' with ⟨rfl, rfl⟩ | ⟨_, old⟩
    · exact h.owns d th thread before
    · exact h.owns d th' old running
  · intro d th' thread'
    rw [threads] at thread'
    rw [created]
    rcases update_some_eq_some.mp thread' with ⟨rfl, rfl⟩ | ⟨_, old⟩
    · exact h.numbered d th thread
    · exact h.numbered d th' old
  · rw [slots]
    exact h.distinct
  · intro fd held
    rw [slots] at held
    obtain ⟨d, th', thread', same, inside⟩ := h.registered fd held
    rw [threads]
    by_cases hd : d = c
    · subst hd
      rw [thread] at thread'
      obtain rfl := Option.some.inj thread'
      refine ⟨d, _, Function.update_self .., same, listed inside ?_⟩
      rw [same]
      exact held
    · exact ⟨d, th', (Function.update_of_ne hd ..).trans thread', same, inside⟩
  · intro d th' thread'
    rw [threads] at thread'
    rcases update_some_eq_some.mp thread' with ⟨rfl, rfl⟩ | ⟨other, old⟩
    · exact mine
    · rw [others d other]
      exact h.mutex d th' old
  · intro d held
    rw [threads]
    by_cases hd : d = c
    · subst hd
      exact ⟨_, Function.update_self ..⟩
    · obtain ⟨th', thread'⟩ := h.holder d ((others d hd).mp held)
      exact ⟨th', (Function.update_of_ne hd ..).trans thread'⟩
  · intro d joined
    obtain ⟨th', thread', late⟩ := h.joined d (joins d joined)
    rw [threads]
    by_cases hd : d = c
    · subst hd
      rw [thread] at thread'
      obtain rfl := Option.some.inj thread'
      exact ⟨_, Function.update_self .., fun again => late (early again)⟩
    · exact ⟨th', (Function.update_of_ne hd ..).trans thread', late⟩
  · rw [slots, fds]
    exact inside

private theorem fill (h : Handlers s) (thread : s.threads c = some th) (listed : Listed th.point)
    (late : ¬Early th.point)
    (absent : th.clntSocket ∉ occupants 0 s.client_sockets) :
    Handlers { s with
      client_sockets := s.client_sockets.replace 0 th.clntSocket
      history :=
        if 0 ∈ s.client_sockets ∧ th.clntSocket ≠ 0 then s.history ++ [.join c]
        else s.history } := by
  have running : th.point ≠ .returned := by
    intro returned
    rw [returned] at listed
    exact listed
  by_cases stored : 0 ∈ s.client_sockets ∧ th.clntSocket ≠ 0
  · obtain ⟨room, used⟩ := stored
    have mem : ∀ fd, fd ∈ occupants 0 (s.client_sockets.replace 0 th.clntSocket) ↔
        fd = th.clntSocket ∨ fd ∈ occupants 0 s.client_sockets := by
      intro fd
      rw [(occupants_fill room used).mem_iff, List.mem_cons]
    rw [if_pos ⟨room, used⟩]
    refine ⟨?_, h.behind, h.owns, h.numbered, ?_, ?_, h.mutex, h.holder, ?_, ?_⟩
    · exact (List.length_replace).trans h.size
    · apply (occupants_fill room used).nodup_iff.mpr
      exact List.nodup_cons.mpr ⟨absent, h.distinct⟩
    · intro fd held
      rcases (mem fd).mp held with rfl | old
      · exact ⟨c, th, thread, rfl, listed⟩
      · exact h.registered fd old
    · intro d joined
      rcases List.mem_append.mp joined with old | added
      · exact h.joined d old
      · cases List.mem_singleton.mp added
        exact ⟨th, thread, late⟩
    · exact h.inside.join room used (h.owns c th thread running)
  · rw [if_neg stored, replace_of_idle stored]
    exact h

private theorem clear (h : Handlers s) (thread : s.threads c = some th)
    (running : th.point ≠ .returned) :
    Handlers { s with
        client_sockets := s.client_sockets.replace th.clntSocket 0
        history :=
          if th.clntSocket ∈ s.client_sockets ∧ th.clntSocket ≠ 0 then s.history ++ [.leave c]
          else s.history } ∧
      th.clntSocket ∉ occupants 0 (s.client_sockets.replace th.clntSocket 0) := by
  by_cases stored : th.clntSocket ∈ s.client_sockets ∧ th.clntSocket ≠ 0
  · obtain ⟨held, used⟩ := stored
    have perm := occupants_clear held used
    obtain ⟨gone, distinct⟩ := List.nodup_cons.mp (perm.nodup_iff.mp h.distinct)
    have earlier : ∀ fd, fd ∈ occupants 0 (s.client_sockets.replace th.clntSocket 0) →
        fd ∈ occupants 0 s.client_sockets := by
      intro fd hfd
      exact perm.mem_iff.mpr (List.mem_cons_of_mem _ hfd)
    rw [if_pos ⟨held, used⟩]
    refine ⟨⟨?_, h.behind, h.owns, h.numbered, distinct, ?_, h.mutex, h.holder, ?_, ?_⟩, gone⟩
    · exact (List.length_replace).trans h.size
    · intro fd hfd
      exact h.registered fd (earlier fd hfd)
    · intro d joined
      rcases List.mem_append.mp joined with old | left
      · exact h.joined d old
      · cases List.mem_singleton.mp left
    · have mine := h.owns c th thread running
      exact h.inside.leave perm gone (fun fd behind => h.injective behind mine) mine
  · rw [if_neg stored, replace_of_idle fun both => stored ⟨both.1, both.2.symm⟩]
    exact ⟨h, fun inside => stored (mem_occupants.mp inside)⟩

private theorem accepted (h : Handlers s) {clntSock : ℤ} (fresh : s.fds clntSock = none) :
    Handlers { s with
      threads := Function.update s.threads s.created (some ⟨clntSock, .lockAdd⟩)
      created := s.created + 1
      fds := Function.update s.fds clntSock (some s.created) } := by
  have newcomer : ∀ d th, s.threads d = some th → d ≠ s.created := by
    intro d th thread
    exact Nat.ne_of_lt (h.numbered d th thread)
  have unlisted : clntSock ∉ occupants 0 s.client_sockets := by
    intro held
    obtain ⟨_, _, _, _, _, behind⟩ := h.connected held
    rw [fresh] at behind
    cases behind
  constructor
  · exact h.size
  · intro fd d opened
    rcases update_some_eq_some.mp opened with ⟨rfl, rfl⟩ | ⟨_, old⟩
    · exact ⟨_, Function.update_self .., rfl, Point.noConfusion⟩
    · obtain ⟨th, thread, same, running⟩ := h.behind fd d old
      exact ⟨th, (Function.update_of_ne (newcomer d th thread) ..).trans thread, same, running⟩
  · intro d th thread running
    apply update_some_eq_some.mpr
    rcases update_some_eq_some.mp thread with ⟨rfl, rfl⟩ | ⟨_, old⟩
    · exact Or.inl ⟨rfl, rfl⟩
    · have behind := h.owns d th old running
      refine Or.inr ⟨?_, behind⟩
      rintro rfl
      rw [fresh] at behind
      cases behind
  · intro d th thread
    rcases update_some_eq_some.mp thread with ⟨rfl, rfl⟩ | ⟨_, old⟩
    · exact Nat.lt_succ_self _
    · exact Nat.lt_succ_of_lt (h.numbered d th old)
  · exact h.distinct
  · intro fd held
    obtain ⟨d, th, thread, same, listed⟩ := h.registered fd held
    exact ⟨d, th, (Function.update_of_ne (newcomer d th thread) ..).trans thread, same, listed⟩
  · intro d th thread
    rcases update_some_eq_some.mp thread with ⟨rfl, rfl⟩ | ⟨_, old⟩
    · constructor
      · intro holds
        cases holds
      · intro held
        obtain ⟨th, thread⟩ := h.holder s.created held
        exact absurd (h.numbered _ th thread) (Nat.lt_irrefl _)
    · exact h.mutex d th old
  · intro d held
    obtain ⟨th, thread⟩ := h.holder d held
    exact ⟨th, (Function.update_of_ne (newcomer d th thread) ..).trans thread⟩
  · intro d joined
    obtain ⟨th, thread, late⟩ := h.joined d joined
    exact ⟨th, (Function.update_of_ne (newcomer d th thread) ..).trans thread, late⟩
  · exact h.inside.update unlisted _

private theorem closed (h : Handlers s) (thread : s.threads c = some th)
    (here : th.point = .close) :
    Handlers { s.goto c th .returned with fds := Function.update s.fds th.clntSocket none } := by
  have running : th.point ≠ .returned := by simp [here]
  have mine := h.owns c th thread running
  have gone : th.clntSocket ∉ occupants 0 s.client_sockets := by
    apply h.absent thread running
    rw [here]
    exact fun listed => listed
  have other : ∀ d th', s.threads d = some th' → th'.clntSocket ≠ th.clntSocket →
      d ≠ c := by
    rintro d th' thread' apart rfl
    rw [thread] at thread'
    exact apart (congrArg Thread.clntSocket (Option.some.inj thread')).symm
  constructor
  · exact h.size
  · intro fd d opened
    obtain ⟨apart, old⟩ := update_none_eq_some.mp opened
    obtain ⟨th', thread', rfl, still⟩ := h.behind fd d old
    exact ⟨th', (Function.update_of_ne (other d th' thread' apart) ..).trans thread', rfl, still⟩
  · intro d th' thread' still
    rcases update_some_eq_some.mp thread' with ⟨rfl, rfl⟩ | ⟨hd, old⟩
    · exact absurd rfl still
    · have behind := h.owns d th' old still
      refine update_none_eq_some.mpr ⟨?_, behind⟩
      intro same
      rw [same, mine] at behind
      exact hd (Option.some.inj behind).symm
  · intro d th' thread'
    rcases update_some_eq_some.mp thread' with ⟨rfl, rfl⟩ | ⟨_, old⟩
    · exact h.numbered d th thread
    · exact h.numbered d th' old
  · exact h.distinct
  · intro fd held
    obtain ⟨d, th', thread', rfl, listed⟩ := h.registered fd held
    have apart : th'.clntSocket ≠ th.clntSocket := by
      intro same
      rw [same] at held
      exact gone held
    exact ⟨d, th', (Function.update_of_ne (other d th' thread' apart) ..).trans thread', rfl,
      listed⟩
  · intro d th' thread'
    rcases update_some_eq_some.mp thread' with ⟨rfl, rfl⟩ | ⟨_, old⟩
    · have mutex := h.mutex d th thread
      rw [here] at mutex
      exact mutex
    · exact h.mutex d th' old
  · intro d held
    by_cases hd : d = c
    · subst hd
      exact ⟨_, Function.update_self ..⟩
    · obtain ⟨th', thread'⟩ := h.holder d held
      exact ⟨th', (Function.update_of_ne hd ..).trans thread'⟩
  · intro d joined
    by_cases hd : d = c
    · subst hd
      exact ⟨_, Function.update_self .., fun early => early⟩
    · obtain ⟨th', thread', late⟩ := h.joined d joined
      exact ⟨th', (Function.update_of_ne hd ..).trans thread', late⟩
  · exact h.inside.update gone none

end Handlers

private theorem others_of_lock {m : Option ConnId} {c d : ConnId} (free : m = none) (hd : d ≠ c) :
    some c = some d ↔ m = some d := by
  subst free
  constructor
  · intro same
    exact absurd (Option.some.inj same).symm hd
  · intro held
    cases held

private theorem others_of_unlock {m : Option ConnId} {c d : ConnId} (held : m = some c)
    (hd : d ≠ c) :
    none = some d ↔ m = some d := by
  subst held
  constructor
  · intro free
    cases free
  · intro same
    exact absurd (Option.some.inj same).symm hd

def AcceptSucceeds : Action → Prop
  | .accept clntSock => 0 < clntSock
  | _ => True

theorem handlers_step {s t : State} {a : Action} (h : Handlers s)
    (taken : step s a = some t) : Handlers t := by
  cases (took_of_step taken).2 with
  | acceptFailed clntSock failed =>
    exact ⟨h.size, h.behind, h.owns, h.numbered, h.distinct, h.registered, h.mutex, h.holder,
      h.joined, h.inside⟩
  | accepted clntSock valid fresh => exact h.accepted fresh
  | departed c =>
    exact ⟨h.size, h.behind, h.owns, h.numbered, h.distinct, h.registered, h.mutex, h.holder,
      h.joined, h.inside⟩
  | passed _ c th point thread passes =>
    have mutex := h.mutex c th thread
    cases th with
    | mk clntSocket here =>
      cases passes with
      | ended =>
        exact h.move thread rfl rfl rfl rfl mutex (fun _ _ => Iff.rfl) Point.noConfusion
          Point.noConfusion (fun early => early) (fun _ _ => trivial) (fun _ => id) h.inside
      | received got something fits =>
        exact h.move thread rfl rfl rfl rfl mutex (fun _ _ => Iff.rfl) Point.noConfusion
          Point.noConfusion (fun early => early) (fun _ _ => trivial) (fun _ => id) h.inside
      | looped message i done =>
        exact h.move thread rfl rfl rfl rfl mutex (fun _ _ => Iff.rfl) Point.noConfusion
          Point.noConfusion (fun early => early) (fun _ _ => trivial) (fun _ => id) h.inside
  | locked c th point thread free locks =>
    have others := fun d => others_of_lock (d := d) (c := c) free
    cases th with
    | mk clntSocket here =>
      cases locks with
      | add =>
        exact h.move thread rfl rfl rfl rfl ⟨fun _ => rfl, fun _ => trivial⟩ others
          Point.noConfusion Point.noConfusion (fun _ => trivial) (fun listed _ => listed.elim)
          (fun _ => id) h.inside
      | remove =>
        exact h.move thread rfl rfl rfl rfl ⟨fun _ => rfl, fun _ => trivial⟩ others
          Point.noConfusion Point.noConfusion (fun early => early) (fun _ _ => trivial)
          (fun _ => id) h.inside
  | unlocked c th point thread unlocks =>
    have mutex := h.mutex c th thread
    cases th with
    | mk clntSocket here =>
      cases unlocks with
      | add =>
        have others := fun d => others_of_unlock (d := d) (mutex.mp trivial)
        exact h.move thread rfl rfl rfl rfl ⟨False.elim, nofun⟩ others
          Point.noConfusion Point.noConfusion (fun early => early) (fun _ _ => trivial)
          (fun _ => id) h.inside
      | broadcast =>
        have others := fun d => others_of_unlock (d := d) (mutex.mp trivial)
        exact h.move thread rfl rfl rfl rfl ⟨False.elim, nofun⟩ others
          Point.noConfusion Point.noConfusion (fun early => early) (fun _ _ => trivial)
          (fun _ => id) h.inside
      | remove =>
        have others := fun d => others_of_unlock (d := d) (mutex.mp trivial)
        exact h.move thread rfl rfl rfl rfl ⟨False.elim, nofun⟩ others
          Point.noConfusion Point.noConfusion (fun early => early) (fun listed _ => listed.elim)
          (fun _ => id) h.inside
  | said c th message thread here free =>
    have others := fun d => others_of_lock (d := d) (c := c) free
    refine h.move thread rfl rfl rfl rfl ⟨fun _ => rfl, fun _ => trivial⟩ others
      (by simp [here]) Point.noConfusion (fun early => early.elim) (fun _ _ => trivial) ?_
      (h.inside.say _)
    intro d joined
    rcases List.mem_append.mp joined with old | new
    · exact old
    · cases List.mem_singleton.mp new
  | sent c th message i thread here more =>
    have mutex := h.mutex c th thread
    rw [here] at mutex
    exact h.move thread rfl rfl rfl rfl mutex (fun _ _ => Iff.rfl) (by simp [here])
      Point.noConfusion (fun early => early.elim) (fun _ _ => trivial) (fun _ => id) h.inside
  | added c th thread here =>
    have mutex := h.mutex c th thread
    have running : th.point ≠ .returned := by simp [here]
    have absent := h.absent thread running (by simp [here, Listed])
    rw [here] at mutex
    have moved : Handlers (s.goto c th .unlockAdd) :=
      h.move thread rfl rfl rfl rfl mutex (fun _ _ => Iff.rfl) running Point.noConfusion
        (fun early => early.elim) (fun _ _ => trivial) (fun _ => id) h.inside
    have past : (s.goto c th .unlockAdd).threads c = some { th with point := .unlockAdd } :=
      Function.update_self ..
    have filled := moved.fill past trivial (fun early => early) absent
    exact filled
  | removed c th thread here =>
    have mutex := h.mutex c th thread
    have running : th.point ≠ .returned := by simp [here]
    obtain ⟨cleared, gone⟩ := h.clear thread running
    rw [here] at mutex
    exact cleared.move thread rfl rfl rfl rfl mutex (fun _ _ => Iff.rfl) running
      Point.noConfusion (fun early => early.elim) (fun _ held => absurd held gone) (fun _ => id)
      cleared.inside
  | closed c th thread here => exact h.closed thread here
  | sendFailed c th message i fd thread here found gone =>
    exact ⟨h.size, h.behind, h.owns, h.numbered, h.distinct, h.registered, h.mutex, h.holder,
      h.joined, h.inside⟩

theorem mutex_step {s t : State} {c : ConnId} {a : Action} (taken : step s a = some t)
    (held : t.client_mutex = some c) : s.client_mutex = some c ∨ a = .run c := by
  cases (took_of_step taken).2 with
  | locked d th point thread free locks =>
    obtain rfl : d = c := Option.some.inj held
    exact Or.inr rfl
  | said d th message thread here free =>
    obtain rfl : d = c := Option.some.inj held
    exact Or.inr rfl
  | unlocked d th point thread unlocks => cases held
  | _ => exact Or.inl held

/-- While `c` holds the mutex, nobody else's step takes it, moves the thread of `c`, starts a
broadcast, or changes the table or what is behind its descriptors. -/
theorem other_turn {s t : State} {c : ConnId} {th : Thread} {a : Action} (h : Handlers s)
    (thread : s.threads c = some th) (held : s.client_mutex = some c) (other : a ≠ .run c)
    (taken : step s a = some t) :
    t.client_mutex = some c ∧ t.threads c = some th ∧ t.client_sockets = s.client_sockets ∧
      t.said = s.said ∧ ∀ fd ∈ occupants 0 s.client_sockets, t.fds fd = s.fds fd := by
  have apart : ∀ d, a = .run d → c ≠ d := by
    rintro d rfl rfl
    exact other rfl
  have locked_out : ∀ d th', s.threads d = some th' → c ≠ d → ¬Holds th'.point := by
    intro d th' thread' moved inside
    rw [(h.mutex d th' thread').mp inside] at held
    exact moved (Option.some.inj held).symm
  cases (took_of_step taken).2 with
  | acceptFailed clntSock failed => exact ⟨held, thread, rfl, rfl, fun _ _ => rfl⟩
  | accepted clntSock valid fresh =>
    have older : c ≠ s.created := Nat.ne_of_lt (h.numbered c th thread)
    refine ⟨held, (Function.update_of_ne older ..).trans thread, rfl, rfl, ?_⟩
    intro fd listed
    apply Function.update_of_ne
    rintro rfl
    obtain ⟨_, _, _, _, _, behind⟩ := h.connected listed
    rw [fresh] at behind
    cases behind
  | departed d => exact ⟨held, thread, rfl, rfl, fun _ _ => rfl⟩
  | passed _ d th' point thread' passes =>
    have moved : c ≠ d := by
      rintro rfl
      rw [thread] at thread'
      obtain rfl := Option.some.inj thread'
      have holds := (h.mutex c th thread).mpr held
      generalize th.point = here at holds passes
      cases passes with
      | ended => exact holds
      | received got something fits => exact holds
      | looped message i done => exact other rfl
    exact ⟨held, (Function.update_of_ne moved ..).trans thread, rfl, rfl, fun _ _ => rfl⟩
  | locked d th' point thread' free locks =>
    rw [held] at free
    cases free
  | unlocked d th' point thread' unlocks =>
    exact absurd unlocks.holds (locked_out d th' thread' (apart d rfl))
  | said d th' message thread' here free =>
    rw [held] at free
    cases free
  | sent d th' message i thread' here more =>
    exact ⟨held, (Function.update_of_ne (apart d rfl) ..).trans thread, rfl, rfl, fun _ _ => rfl⟩
  | added d th' thread' here =>
    exact absurd (by rw [here]; trivial) (locked_out d th' thread' (apart d rfl))
  | removed d th' thread' here =>
    exact absurd (by rw [here]; trivial) (locked_out d th' thread' (apart d rfl))
  | closed d th' thread' here =>
    refine ⟨held, (Function.update_of_ne (apart d rfl) ..).trans thread, rfl, rfl, ?_⟩
    intro fd listed
    apply Function.update_of_ne
    rintro rfl
    exact h.absent thread' (by simp [here]) (by simp [here, Listed]) listed
  | sendFailed d th' message i fd thread' here found gone =>
    exact ⟨held, thread, rfl, rfl, fun _ _ => rfl⟩

end SocketChat.TestCode.ArbitraryChat.Threads
