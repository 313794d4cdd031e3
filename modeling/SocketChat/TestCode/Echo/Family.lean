/- SocketChat/TestCode/Echo/Family
   digest: The five TCP echo servers do the same for each of their clients. -/

import SocketChat.Lib.Services
import SocketChat.TestCode.Echo.Constrained
import SocketChat.TestCode.Echo.Iterative
import SocketChat.TestCode.Echo.Multiplexing

set_option autoImplicit false
set_option relaxedAutoImplicit false

namespace SocketChat.TestCode.Echo.Family

open SocketChat.Lib.CString
open SocketChat.Lib.Runs
open SocketChat.Lib.Services
open SocketChat.Lib.Transducer
open SocketChat.TestCode.Echo.Agreement
open SocketChat.TestCode.Echo.Iterative (stream pending out_append_pending)
open SocketChat.TestCode.Echo.Model
open SocketChat.TestCode.Echo.Serial (Clients)

/-- The servers, with what their command lines give them. -/
inductive Program
  | multithread
  | multiprocess
  | iterative
  | multiplexing (ports : Multiplexing.Ports)
  | constrained (processLimit : ℕ)

abbrev Server := Service.{0, 0, 0, 0, 0} HandleTCPClient .recv ConnId

def multithreadServer : Server where
  State := Multithread.State
  Action := Action
  init := Multithread.init
  step := Multithread.step
  calls := fun c a => calls c (events [a])
  point := fun s c => place s.threads c
  output := fun s c => s.echoed c
  Good := fun s => Unstarted s.threads s.accepted (s.main ≠ .accept)
  good := ⟨fun _ _ => rfl, fun other => absurd rfl other⟩
  unserved := fun _ => ⟨rfl, rfl⟩
  serves := multithread_step

def multiprocessServer : Server where
  State := Multiprocess.State
  Action := Action
  init := Multiprocess.init
  step := Multiprocess.step
  calls := fun c a => calls c (events [a])
  point := fun s c => place s.children c
  output := fun s c => s.echoed c
  Good := fun s => Unstarted s.children s.accepted (s.parent = .fork)
  good := ⟨fun _ _ => rfl, Multiprocess.ParentPoint.noConfusion⟩
  unserved := fun _ => ⟨rfl, rfl⟩
  serves := multiprocess_step

def iterativeServer : Server where
  State := Serial.State
  Action := Serial.Action
  init := Serial.init
  step := Serial.step
  calls := fun c a => calls c (Serial.event? a).toList
  point := fun s c => place s.clients.handlers c
  output := fun s c => s.clients.echoed c
  Good := fun s => s.clients.InTurn s.place.current
  good := Clients.inTurn_none
  unserved := fun _ => ⟨rfl, rfl⟩
  serves := fun c _ _ _ h taken => ⟨Serial.inTurn_step h taken, Serial.attends_step c h taken⟩

def multiplexingServer (ports : Multiplexing.Ports) : Server where
  State := Multiplexing.State
  Action := Multiplexing.Action
  init := Multiplexing.init
  step := Multiplexing.step ports
  calls := fun c a => calls c (Multiplexing.event? a).toList
  point := fun s c => place s.clients.handlers c
  output := fun s c => s.clients.echoed c
  Good := fun s => s.clients.InTurn s.place.current
  good := Clients.inTurn_none
  unserved := fun _ => ⟨rfl, rfl⟩
  serves := fun c _ _ _ h taken =>
    ⟨Multiplexing.inTurn_step h taken, Multiplexing.attends_step c h taken⟩

def constrainedServer (processLimit : ℕ) : Server where
  State := Constrained.State
  Action := Constrained.Action
  init := Constrained.init
  step := Constrained.step processLimit
  calls := fun c a => calls c (Constrained.event? a).toList
  point := fun s c => place s.clients.handlers c
  output := fun s c => s.clients.echoed c
  Good := Constrained.Kept processLimit
  good := Constrained.kept_init processLimit
  unserved := fun _ => ⟨rfl, rfl⟩
  serves := fun c s a t k taken =>
    ⟨Constrained.kept_step s a t k taken, Constrained.attends_step c k.numbered taken⟩

def Program.server : Program → Server
  | .multithread => multithreadServer
  | .multiprocess => multiprocessServer
  | .iterative => iterativeServer
  | .multiplexing ports => multiplexingServer ports
  | .constrained processLimit => constrainedServer processLimit

section Handler

variable {p q : Point} {ks : List Call} {out : List Byte}

private theorem nil_of_failed {message : String}
    (taken : run HandleTCPClient (.failed message) ks = some (q, out)) : ks = [] := by
  cases ks with
  | nil => rfl
  | cons k ks =>
    obtain ⟨_, _, _, first, _⟩ := run_cons_eq_some.mp taken
    cases first

private theorem sound_of_alive (alive : Multithread.message q = none)
    (taken : run HandleTCPClient p ks = some (q, out)) : ∀ k ∈ ks, k.fails = false := by
  induction ks generalizing p out with
  | nil => exact fun k none_there => absurd none_there List.not_mem_nil
  | cons k ks ih =>
    obtain ⟨m, front, rest, first, further, _⟩ := run_cons_eq_some.mp taken
    have failed := message_isSome first
    intro l inside
    rcases List.mem_cons.mp inside with rfl | later
    · rw [← failed]
      cases m with
      | failed message =>
        obtain rfl := nil_of_failed further
        obtain ⟨rfl, _⟩ := Prod.mk.inj (Option.some.inj further)
        cases alive
      | _ => rfl
    · exact ih further l later

private theorem echoed_of_alive (alive : Multithread.message q = none)
    (taken : run HandleTCPClient .recv ks = some (q, out)) : out ++ pending q = stream ks :=
  out_append_pending (sound_of_alive alive taken) taken

end Handler

/-- A client that calls on two of the servers in the same way is at the same point with both and
has been sent the same, whatever other clients do and which of them fail; as long as its own handler
has not failed, that and the chunk on its way back are what has been received from it. -/
theorem servers_agree_on_each_client (P Q : Program) {as : List P.server.Action}
    {s : P.server.State} {bs : List Q.server.Action} {t : Q.server.State}
    (taken : exec P.server.step P.server.init as = some s)
    (taken' : exec Q.server.step Q.server.init bs = some t) {c : ConnId}
    (same : P.server.callsOf c as = Q.server.callsOf c bs) :
    P.server.point s c = Q.server.point t c ∧ P.server.output s c = Q.server.output t c ∧
      (Multithread.message (P.server.point s c) = none →
        P.server.output s c ++ pending (P.server.point s c) = stream (P.server.callsOf c as)) := by
  obtain ⟨point, output⟩ := P.server.agree Q.server taken taken' same
  exact ⟨point, output, fun alive => echoed_of_alive alive (P.server.alone taken c)⟩

def lostChild : List multiprocessServer.Action :=
  [.event .accept, .main, .event (.call 0 .recvFails), .main, .main, .reap 0, .main, .main,
    .event .accept, .main, .event (.call 1 (.recv (lit ['A']))), .event (.call 1 .send)]

def lostProcess : List (constrainedServer 2).Action :=
  [.fork, .fork, .accept 1, .call 1 0 .recvFails, .accept 0, .call 0 1 (.recv (lit ['A'])),
    .call 0 1 .send]

theorem same_echo_after_a_lost_client : ∃ s t,
    exec multiprocessServer.step multiprocessServer.init lostChild = some s ∧
      exec (constrainedServer 2).step (constrainedServer 2).init lostProcess = some t ∧
      multiprocessServer.output s 1 = (constrainedServer 2).output t 1 := by
  obtain ⟨s, taken⟩ : ∃ s, exec multiprocessServer.step multiprocessServer.init lostChild =
    some s := ⟨_, rfl⟩
  obtain ⟨t, taken'⟩ : ∃ t, exec (constrainedServer 2).step (constrainedServer 2).init
    lostProcess = some t := ⟨_, rfl⟩
  exact ⟨s, t, taken, taken', (servers_agree_on_each_client .multiprocess (.constrained 2) taken
    taken' (c := 1) rfl).2.1⟩

/-- A server that handles its clients one after the other is done with all but one of them. -/
theorem done_of_inTurn {cl : Clients} {current : Option ConnId} (h : cl.InTurn current)
    {c : ConnId} {ks : List Call}
    (served : run HandleTCPClient .recv ks = some (place cl.handlers c, cl.echoed c))
    (before : c < cl.accepted) (other : current ≠ some c) :
    cl.handlers c = some .returned ∧ cl.echoed c = stream ks := by
  have closed := h.done c before other
  refine ⟨closed, ?_⟩
  rw [place, closed] at served
  have whole := echoed_of_alive rfl served
  change cl.echoed c ++ [] = stream ks at whole
  rw [List.append_nil] at whole
  exact whole

/-- A client of the iterative or of the multiplexing server, the one apart that is being handled,
has been sent all that was received from it and its connection has been closed. -/
theorem serial_servers_finish_each_client (ports : Multiplexing.Ports) (c : ConnId) :
    (∀ as s, exec Serial.step Serial.init as = some s → c < s.clients.accepted →
      s.place.current ≠ some c → s.clients.handlers c = some .returned ∧
        s.clients.echoed c = stream (iterativeServer.callsOf c as)) ∧
    (∀ as s, exec (Multiplexing.step ports) Multiplexing.init as = some s →
      c < s.clients.accepted → s.place.current ≠ some c →
      s.clients.handlers c = some .returned ∧
        s.clients.echoed c = stream ((multiplexingServer ports).callsOf c as)) := by
  constructor
  · intro as s taken
    have h : s.clients.InTurn s.place.current :=
      invariant_of_step_reach (fun _ _ _ here moved => Serial.inTurn_step here moved)
        Clients.inTurn_none ⟨as, taken⟩
    exact done_of_inTurn h (iterativeServer.alone taken c)
  · intro as s taken
    have h : s.clients.InTurn s.place.current :=
      invariant_of_step_reach (fun _ _ _ here moved => Multiplexing.inTurn_step here moved)
        Clients.inTurn_none ⟨as, taken⟩
    exact done_of_inTurn h ((multiplexingServer ports).alone taken c)

def oneThenAnother : List iterativeServer.Action :=
  [.event .accept, .event (.call 0 (.recv (lit ['A']))), .event (.call 0 .send),
    .event (.call 0 (.recv [])), .event (.call 0 .close), .event .accept]

theorem first_client_finished : ∃ s,
    exec iterativeServer.step iterativeServer.init oneThenAnother = some s ∧
      s.clients.handlers 0 = some .returned ∧
      s.clients.echoed 0 = stream (iterativeServer.callsOf 0 oneThenAnother) := by
  obtain ⟨s, taken⟩ : ∃ s, exec iterativeServer.step iterativeServer.init oneThenAnother =
    some s := ⟨_, rfl⟩
  have ends : (exec Serial.step Serial.init oneThenAnother).map
      (fun s => (s.clients.accepted, s.place)) = some (2, .handle 1) := by decide +kernel
  rw [show exec Serial.step Serial.init oneThenAnother = some s from taken] at ends
  obtain ⟨two, place⟩ := Prod.mk.inj (Option.some.inj ends)
  refine ⟨s, taken, (serial_servers_finish_each_client Multiplexing.twoPorts 0).1 oneThenAnother s
    taken ?_ ?_⟩
  · rw [two]
    decide
  · rw [place]
    decide

end SocketChat.TestCode.Echo.Family
