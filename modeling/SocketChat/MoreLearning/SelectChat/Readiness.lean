/- SocketChat/MoreLearning/SelectChat/Readiness
   digest: The loop receives only from connections that this round's select reported. -/

import SocketChat.Lib.History
import SocketChat.MoreLearning.SelectChat.Recipients

set_option autoImplicit false
set_option relaxedAutoImplicit false

namespace SocketChat.MoreLearning.SelectChat.Readiness

open SocketChat.Lib.CString (Byte)
open SocketChat.Lib.History
open SocketChat.Lib.Runs
open SocketChat.Lib.SlotTable
open SocketChat.MoreLearning.SelectChat.Model
open SocketChat.MoreLearning.SelectChat.Recipients
open SocketChat.MoreLearning.SelectChat.Table

/-- One round of the loop: the clients' descriptors put in the set, those `select` left in it,
the connections behind the descriptors at that time, and the calls of `recv` since. -/
structure Round where
  polled : List ℤ
  ready : List ℤ
  behind : ℤ → Option ConnId
  received : List ℤ

/-- The descriptor that `recv` is called with next, if it is called at this point. -/
def receives (s : State) : Option ℤ :=
  match s.point with
  | .scan readfds i => s.clients[i]?.filter fun sd => 0 < sd ∧ sd ∈ readfds
  | _ => none

def note (s : State) : Action → Round → Round
  | .select readfds, _ => ⟨s.clients.filter (0 < ·), readfds, s.fds, []⟩
  | .recv _ _, round => { round with received := round.received ++ (receives s).toList }
  | _, round => round

def noRound : Round := ⟨[], [], fun _ => none, []⟩

/-- A reported descriptor that stands for the client it stood for when it was reported, and
that nothing has been received from since. -/
structure Reported (s : State) (round : Round) (sd : ℤ) : Prop where
  polled : sd ∈ round.polled
  ready : sd ∈ round.ready
  unread : sd ∉ round.received
  same : s.fds sd = round.behind sd

def Follows (m : State × Round) : Prop :=
  match m.1.point with
  | .select => True
  | .accept readfds =>
      m.2 = ⟨m.1.clients.filter (0 < ·), readfds, m.1.fds, []⟩ ∧
        ∀ fd ∈ readfds, fd = m.1.server_sock ∨ (0 < fd ∧ fd ∈ m.1.clients)
  | .scan readfds i =>
      ∀ j sd, i ≤ j → m.1.clients[j]? = some sd → 0 < sd → sd ∈ readfds → Reported m.1 m.2 sd

private theorem receives_eq_some {s : State} {sd : ℤ} : receives s = some sd ↔
    ∃ readfds i, s.point = .scan readfds i ∧ s.clients[i]? = some sd ∧ 0 < sd ∧
      sd ∈ readfds := by
  unfold receives
  cases s.point with
  | select => simp
  | accept readfds => simp
  | scan readfds i => simp [Option.filter_eq_some_iff]

private theorem receives_of_recv {s t : State} {got beyond : List Byte}
    (taken : recv s got beyond = some t) : ∃ readfds i sd, s.point = .scan readfds i ∧
      s.clients[i]? = some sd ∧ receives s = some sd := by
  cases took_recv taken with
  | closed readfds i sd beyond here held used ready =>
    exact ⟨readfds, i, sd, here, held, receives_eq_some.mpr ⟨readfds, i, here, held, used, ready⟩⟩
  | forwarded readfds i sd conn got beyond msg here held used ready behind some_bytes fits text =>
    exact ⟨readfds, i, sd, here, held, receives_eq_some.mpr ⟨readfds, i, here, held, used, ready⟩⟩

private theorem Follows.scan {m : State × Round} (follows : Follows m) {readfds : List ℤ} {i : ℕ}
    (here : m.1.point = .scan readfds i) {j : ℕ} {sd : ℤ} (later : i ≤ j)
    (held : m.1.clients[j]? = some sd) (used : 0 < sd) (ready : sd ∈ readfds) :
    Reported m.1 m.2 sd := by
  unfold Follows at follows
  rw [here] at follows
  exact follows j sd later held used ready

private theorem follows_next {m : State × Round} {readfds : List ℤ} {i : ℕ}
    (here : m.1.point = next readfds i)
    (rest : ∀ j sd, i + 1 ≤ j → m.1.clients[j]? = some sd → 0 < sd → sd ∈ readfds →
      Reported m.1 m.2 sd) : Follows m := by
  unfold Follows
  unfold next at here
  split at here
  · rw [here]
    exact rest
  · rw [here]
    trivial

private theorem follows_selected {s : State} {readfds : List ℤ} (round : Round)
    (within : ∀ fd ∈ readfds, fd = s.server_sock ∨ (0 < fd ∧ fd ∈ s.clients)) :
    Follows ({ s with
      point := if s.server_sock ∈ readfds then .accept readfds else .scan readfds 0 },
      note s (.select readfds) round) := by
  by_cases arrived : s.server_sock ∈ readfds
  · simp only [if_pos arrived]
    exact ⟨rfl, within⟩
  · simp only [if_neg arrived]
    intro j sd _ held used ready
    have polled : sd ∈ s.clients.filter (0 < ·) :=
      List.mem_filter.mpr ⟨List.mem_of_getElem? held, decide_eq_true used⟩
    exact ⟨polled, ready, List.not_mem_nil, rfl⟩

private theorem not_reported_of_fresh {s : State} (h : Members s) {readfds : List ℤ} {new_sock : ℤ}
    (within : ∀ fd ∈ readfds, fd = s.server_sock ∨ (0 < fd ∧ fd ∈ s.clients))
    (fresh : s.fds new_sock = none) (other : new_sock ≠ s.server_sock) :
    new_sock ∉ readfds := by
  intro reported
  rcases within new_sock reported with server | ⟨used, held⟩
  · exact other server
  · have opened := h.connected new_sock (mem_occupants.mpr ⟨held, Int.ne_of_gt used⟩)
    rw [fresh] at opened
    cases opened

private theorem mem_of_mem_fill {table : List ℤ} {new_sock sd : ℤ} (new_used : 0 < new_sock)
    (held : sd ∈ table.replace 0 new_sock) (used : 0 < sd) : sd = new_sock ∨ sd ∈ table := by
  by_cases room : 0 ∈ table
  · have occupied := mem_occupants.mpr ⟨held, Int.ne_of_gt used⟩
    rcases (mem_occupants_fill room (Int.ne_of_gt new_used)).mp occupied with new | old
    · exact Or.inl new
    · exact Or.inr (mem_occupants.mp old).1
  · rw [List.replace_of_not_mem room] at held
    exact Or.inr held

private theorem follows_opened {s : State} {round : Round} (h : Members s)
    (follows : Follows (s, round))
    {readfds : List ℤ} {new_sock : ℤ} (here : s.point = .accept readfds)
    (positive : 0 < new_sock) (fresh : s.fds new_sock = none) (other : new_sock ≠ s.server_sock)
    (history : List (Lib.Room.Event ConnId ℕ)) :
    Follows ({ s with
      point := .scan readfds 0
      clients := s.clients.replace 0 new_sock
      fds := Function.update s.fds new_sock (some s.accepted)
      accepted := s.accepted + 1
      history := history }, round) := by
  unfold Follows at follows
  simp only [here] at follows
  obtain ⟨rfl, within⟩ := follows
  intro j sd _ held used ready
  have apart : sd ≠ new_sock := by
    rintro rfl
    exact not_reported_of_fresh h within fresh other ready
  have listed : sd ∈ s.clients :=
    (mem_of_mem_fill positive (List.mem_of_getElem? held) used).resolve_left apart
  refine ⟨List.mem_filter.mpr ⟨listed, decide_eq_true used⟩, ready, List.not_mem_nil, ?_⟩
  exact Function.update_of_ne apart _ _

private theorem reported_later {s : State} {round : Round} (h : Members s)
    (follows : Follows (s, round)) {readfds : List ℤ} {i j : ℕ} {sd later : ℤ}
    (here : s.point = .scan readfds i) (held : s.clients[i]? = some sd) (used : 0 < sd)
    (ready : sd ∈ readfds) (behind : i < j) (held' : s.clients[j]? = some later)
    (used' : 0 < later) (ready' : later ∈ readfds) (got beyond : List Byte) :
    Reported s (note s (.recv got beyond) round) later ∧ later ≠ sd := by
  have apart : later ≠ sd := by
    rintro rfl
    exact Nat.ne_of_lt behind (slot_unique h.distinct (Int.ne_of_gt used) held held')
  have call : receives s = some sd := receives_eq_some.mpr ⟨readfds, i, here, held, used, ready⟩
  have before := follows.scan here (Nat.le_of_lt behind) held' used' ready'
  refine ⟨⟨before.polled, before.ready, ?_, before.same⟩, apart⟩
  simp only [note, call, Option.toList_some, List.mem_append, List.mem_singleton]
  rintro (already | rfl)
  · exact before.unread already
  · exact apart rfl

private theorem accept_apart {s t : State} {new_sock : ℤ} (taken : accept s new_sock = some t)
    (valid : 0 < new_sock) : new_sock ≠ s.server_sock := by
  unfold accept at taken
  split at taken
  · rw [if_neg (Int.not_lt.mpr (Int.le_of_lt valid))] at taken
    split at taken
    · rename_i fresh
      exact fresh.2
    · cases taken
  · cases taken

private theorem follows_step (m : State × Round) (a : Action) (m' : State × Round)
    (h : Members m.1 ∧ Follows m) (ok : AcceptSucceeds m.1 a)
    (taken : remember step note m a = some m') : Members m'.1 ∧ Follows m' := by
  obtain ⟨s, round⟩ := m
  obtain ⟨t, round'⟩ := m'
  obtain ⟨members, follows⟩ := h
  obtain ⟨moved, noted⟩ := remember_eq_some.mp taken
  refine ⟨members_step members ok moved, ?_⟩
  subst noted
  cases took_of_step moved with
  | selected readfds here within => exact follows_selected round within
  | refused readfds new_sock here failed =>
    have positive : 0 < new_sock := ok
    omega
  | opened readfds new_sock here valid fresh =>
    exact follows_opened members follows here ok fresh (accept_apart moved ok) _
  | skipped readfds i here =>
    apply follows_next rfl
    intro j sd later held used ready
    have reported := follows.scan here (Nat.le_of_lt later) held used ready
    exact ⟨reported.polled, reported.ready, reported.unread, reported.same⟩
  | closed readfds i sd beyond here held used ready =>
    apply follows_next rfl
    intro j later behind held' used' ready'
    have differ : i ≠ j := Nat.ne_of_lt behind
    change (s.clients.set i 0)[j]? = some later at held'
    rw [List.getElem?_set_ne differ] at held'
    obtain ⟨reported, apart⟩ := reported_later members follows here held used ready behind held'
      used' ready' [] beyond
    refine ⟨reported.polled, reported.ready, reported.unread, ?_⟩
    rw [← reported.same]
    exact Function.update_of_ne apart _ _
  | forwarded readfds i sd conn got beyond msg here held used ready behind some_bytes fits text =>
    apply follows_next rfl
    intro j later after held' used' ready'
    obtain ⟨reported, _⟩ := reported_later members follows here held used ready after held'
      used' ready' got beyond
    exact ⟨reported.polled, reported.ready, reported.unread, reported.same⟩

/-- In every round `recv` is called only with descriptors of clients that were put in the
set and left in it by `select`, at most once with each, and for the connection it stood for
at the time of `select`, whoever was accepted since. -/
theorem received_reported (server_sock : ℤ) (s : State) (round : Round)
    (run : ReachWhere (remember step note) (fun m a => AcceptSucceeds m.1 a)
      (init server_sock, noRound) (s, round)) :
    (∀ sd, receives s = some sd → Reported s round sd ∧ (s.fds sd).isSome) ∧
      ∀ got beyond t, step s (.recv got beyond) = some t →
        ∃ readfds i sd, s.point = .scan readfds i ∧ s.clients[i]? = some sd ∧
          Reported s round sd ∧ (s.fds sd).isSome ∧
            (note s (.recv got beyond) round).received = round.received ++ [sd] := by
  have start : Follows (init server_sock, noRound) := trivial
  have invariant : Members s ∧ Follows (s, round) :=
    invariant_of_step (P := fun m : State × Round => Members m.1 ∧ Follows m) follows_step
      ⟨members_init server_sock, start⟩ run
  obtain ⟨members, follows⟩ := invariant
  have reported : ∀ sd, receives s = some sd → Reported s round sd ∧ (s.fds sd).isSome := by
    intro sd call
    obtain ⟨readfds, i, here, held, used, ready⟩ := receives_eq_some.mp call
    refine ⟨follows.scan here (Nat.le_refl i) held used ready, ?_⟩
    exact members.connected sd
      (mem_occupants.mpr ⟨List.mem_of_getElem? held, Int.ne_of_gt used⟩)
  refine ⟨reported, ?_⟩
  intro got beyond t taken
  obtain ⟨readfds, i, sd, here, held, call⟩ := receives_of_recv taken
  refine ⟨readfds, i, sd, here, held, (reported sd call).1, (reported sd call).2, ?_⟩
  rw [note, call]
  rfl

/-- The second client is accepted in the round in which the first one has sent something, and gets
the slot behind it. -/
def acceptedMeanwhile : List Action :=
  [.select [3], .accept 4] ++ List.replicate 10 .skip ++ [.select [4, 3], .accept 5]

theorem received_accepted_meanwhile : ∃ s round t,
    exec (remember step note) (init 3, noRound) acceptedMeanwhile = some (s, round) ∧
      step s (.recv [104] []) = some t ∧ Reported s round 4 ∧
        (note s (.recv [104] []) round).received = [4] := by
  have shown : (exec (remember step note) (init 3, noRound) acceptedMeanwhile).map
      (fun m => (m.2.received, receives m.1, (step m.1 (.recv [104] [])).isSome)) =
        some ([], some 4, true) := by
    decide +kernel
  obtain ⟨⟨s, round⟩, taken, facts⟩ := Option.map_eq_some_iff.mp shown
  obtain ⟨unread, facts⟩ := Prod.mk.inj facts
  obtain ⟨call, goes_on⟩ := Prod.mk.inj facts
  obtain ⟨t, received⟩ := Option.isSome_iff_exists.mp goes_on
  have succeeds : Guarded (remember step note) (fun m a => AcceptSucceeds m.1 a)
      (init 3, noRound) acceptedMeanwhile := by
    apply guarded_of_forall
    simp [acceptedMeanwhile, AcceptSucceeds]
  obtain ⟨_, recvs⟩ := received_reported 3 s round ⟨acceptedMeanwhile, succeeds, taken⟩
  obtain ⟨_, _, sd, _, _, reported, _, noted⟩ := recvs [104] [] t received
  obtain rfl : 4 = sd := by simpa [note, call, unread] using noted
  refine ⟨s, round, t, taken, received, reported, ?_⟩
  rw [noted, unread]
  rfl

end SocketChat.MoreLearning.SelectChat.Readiness
