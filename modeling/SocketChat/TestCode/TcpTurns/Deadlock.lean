/- SocketChat/TestCode/TcpTurns/Deadlock
   digest: Both programs wait for the other exactly after an empty line at the wrong moment. -/

import SocketChat.Lib.Runs
import SocketChat.TestCode.TcpTurns.Model

set_option autoImplicit false
set_option relaxedAutoImplicit false

namespace SocketChat.TestCode.TcpTurns.Deadlock

open SocketChat.Lib.CString
open SocketChat.Lib.Runs
open SocketChat.Lib.Sides
open Model

/-- Both programs wait in `recv` and nothing is in flight. -/
def BothWait (s : State) : Prop := ∀ who, (s.party who).point = .recv ∧ s.inbox who = []

def Free (s : State) : Prop := ¬BothWait s

def TypesNothing (p : Party) : Prop :=
  ∃ piece rest, Lib.Lines.fgets B p.stdin = some (piece, rest) ∧ text piece = []

/-- In the server-first mode the client reads no empty line while the server waits in `recv`
and nothing is in flight. -/
def Expected (mode : Mode) (s : State) : Action → Prop
  | .fgets who => mode = .serverFirst → who = .client → TypesNothing (s.party who) →
      ¬((s.party who.peer).point = .recv ∧ ∀ x, s.inbox x = [])
  | _ => True

private theorem point_fgets_eq_recv (mode : Mode) (who : Side) (p : Party) :
    ((mode.loop who).fgets p).point = .recv ↔
      mode = .serverFirst ∧ who = .client ∧ TypesNothing p := by
  unfold Loop.fgets TypesNothing
  cases typed : Lib.Lines.fgets B p.stdin with
  | none => simp
  | some both =>
    obtain ⟨piece, rest⟩ := both
    by_cases empty : text piece = []
    · cases mode <;> cases who <;>
        simp [empty, Mode.loop, ServerFirst.server, ServerFirst.client, ClientFirst.server,
          ClientFirst.client]
    · have moved : ∀ loop : Loop, (if text piece = [] then loop.skip
          else if loop.quits ∧ text piece = lit ['q', 'u', 'i', 't'] then .closed
          else .send (text piece)) ≠ .recv := by
        intro loop
        rw [if_neg empty]
        split <;> exact Point.noConfusion
      refine iff_of_false (moved _) ?_
      rintro ⟨_, _, piece', rest', same, empty'⟩
      cases same
      exact empty empty'

private theorem free_of_point {s : State} {who : Side} (elsewhere : (s.party who).point ≠ .recv) :
    Free s := fun dead => elsewhere (dead who).1

private theorem free_of_inbox {s : State} {who : Side} (some_bytes : s.inbox who ≠ []) : Free s :=
  fun dead => some_bytes (dead who).2

private theorem point_recv_ne (mode : Mode) (who : Side) (p : Party) (chunk : List Byte) :
    ((mode.loop who).recv p chunk).point ≠ .recv := by
  unfold Loop.recv
  dsimp only
  split <;> exact Point.noConfusion

/-- A step leads to a deadlock exactly when it is the client's, skipping an empty line that the
server waits for. -/
theorem free_step (mode : Mode) (s : State) (a : Action) (t : State) (_ : Free s)
    (taken : step mode s a = some t) : Free t ↔ Expected mode s a := by
  cases a with
  | fgets who =>
    simp only [step, Option.ite_none_right_eq_some, Option.some.injEq] at taken
    obtain ⟨ready, rfl⟩ := taken
    have here := Duo.party_setParty s who ((mode.loop who).fgets (s.party who)) who
    have there := Duo.party_setParty s who ((mode.loop who).fgets (s.party who)) who.peer
    rw [if_pos rfl] at here
    rw [if_neg (Side.peer_ne who)] at there
    have turned := point_fgets_eq_recv mode who (s.party who)
    constructor
    · intro free first client nothing waits
      refine free fun x => ?_
      refine ⟨?_, waits.2 x⟩
      by_cases same : x = who
      · rw [same, here]
        exact turned.mpr ⟨first, client, nothing⟩
      · rw [Side.eq_peer_of_ne same, there]
        exact waits.1
    · intro expected dead
      have arrived := (dead who).1
      rw [here] at arrived
      obtain ⟨first, client, nothing⟩ := turned.mp arrived
      have waits := (dead who.peer).1
      rw [there] at waits
      exact expected first client nothing ⟨waits, fun x => (dead x).2⟩
  | send who k =>
    refine iff_of_true ?_ trivial
    rw [step] at taken
    split at taken
    · rename_i rest ready
      simp only [Option.ite_none_right_eq_some, Option.some.injEq] at taken
      obtain ⟨⟨pos, bound⟩, rfl⟩ := taken
      apply free_of_inbox
      · rw [Duo.inbox_setInbox, if_pos rfl]
        intro none_sent
        have length := congrArg List.length none_sent
        simp only [List.length_append, List.length_take, List.length_nil] at length
        omega
    · cases taken
  | recv who k =>
    refine iff_of_true ?_ trivial
    simp only [step, Option.ite_none_right_eq_some, Option.some.injEq] at taken
    obtain ⟨_, rfl⟩ := taken
    apply free_of_point
    change ((s.setParty who _).party who).point ≠ .recv
    rw [Duo.party_setParty, if_pos rfl]
    exact point_recv_ne mode who (s.party who) _
  | hangup who =>
    refine iff_of_true ?_ trivial
    have closed : ((setPoint s who .closed).party who).point ≠ .recv := by
      rw [setPoint, Duo.party_setParty, if_pos rfl]
      exact Point.noConfusion
    rw [step] at taken
    split at taken
    · obtain rfl := Option.some.inj taken
      exact free_of_point closed
    · obtain rfl := Option.some.inj taken
      exact free_of_point closed
    · cases taken

private theorem free_init (mode : Mode) (stdin : Side → List Byte) : Free (init mode stdin) := by
  cases mode with
  | serverFirst =>
    intro dead
    cases (dead .server).1
  | clientFirst =>
    intro dead
    cases (dead .client).1

/-- Along a run no state is a deadlock exactly when no empty line is read in the client's turn
of the server-first mode; in the client-first mode no run comes to a deadlock. -/
theorem no_deadlock_iff (mode : Mode) (stdin : Side → List Byte) {as : List Action} {t : State}
    (taken : exec (step mode) (init mode stdin) as = some t) :
    (Always (step mode) Free (init mode stdin) as ↔
        Guarded (step mode) (Expected mode) (init mode stdin) as) ∧
      (mode = .clientFirst → Always (step mode) Free (init mode stdin) as) := by
  have exact_guard := always_iff_guarded (free_step mode) (free_init mode stdin) taken
  refine ⟨exact_guard, fun client_first => exact_guard.mpr ?_⟩
  refine guarded_of_forall (fun a _ s => ?_) _
  cases a with
  | fgets who =>
    intro server_first
    rw [client_first] at server_first
    cases server_first
  | send who k => trivial
  | recv who k => trivial
  | hangup who => trivial

def typed (answer : List Byte) : Side → List Byte
  | .server => [97, 10]
  | .client => answer

theorem no_deadlock_iff_one_turn : ∃ t,
    exec (step .serverFirst) (init .serverFirst (typed [98, 10]))
        [.fgets .server, .send .server 1, .recv .client 1, .fgets .client] = some t ∧
      Always (step .serverFirst) Free (init .serverFirst (typed [98, 10]))
        [.fgets .server, .send .server 1, .recv .client 1, .fgets .client] := by
  refine ⟨_, rfl, (no_deadlock_iff .serverFirst (typed [98, 10]) rfl).1.mpr ?_⟩
  refine ⟨?_, fun s first => ⟨trivial, fun s' second => ⟨trivial, fun s'' third => ⟨?_, ?_⟩⟩⟩⟩
  · intro _ client
    cases client
  · obtain rfl := Option.some.inj first
    obtain rfl := Option.some.inj second
    obtain rfl := Option.some.inj third
    intro _ _ nothing
    obtain ⟨piece, rest, read, empty⟩ := nothing
    cases read
    cases empty
  · intro _ _
    trivial

/-- The client answers with an empty line, and both programs wait for ever. -/
theorem empty_line_deadlocks : ∃ t,
    exec (step .serverFirst) (init .serverFirst (typed [10]))
        [.fgets .server, .send .server 1, .recv .client 1, .fgets .client] = some t ∧
      ¬Free t := by
  refine ⟨_, rfl, not_not.mpr fun who => ?_⟩
  cases who <;> decide +kernel

end SocketChat.TestCode.TcpTurns.Deadlock
