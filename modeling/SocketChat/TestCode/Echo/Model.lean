/- SocketChat/TestCode/Echo/Model
   digest: HandleTCPClient of the echo servers, a thread or a forked child for each client. -/

import Mathlib.Algebra.Order.Group.Nat
import SocketChat.Lib.CString

set_option autoImplicit false
set_option relaxedAutoImplicit false

namespace SocketChat.TestCode.Echo.Model

open SocketChat.Lib.CString

def RCVBUFSIZE : ℕ := 32

abbrev ConnId := ℕ

/-- Where `HandleTCPClient` stands; `failed` is within `DieWithError`. -/
inductive Point
  | recv
  | send (echoBuffer : List Byte)
  | close
  | returned
  | failed (message : String)
deriving DecidableEq

/-- A system call of `HandleTCPClient` with its result. A `send` that takes fewer bytes than it is
given is as much a failure to it as one that returns -1. -/
inductive Call
  | recv (got : List Byte)
  | recvFails
  | send
  | sendFails (taken : ℕ)
  | close
deriving DecidableEq

def Call.fails : Call → Bool
  | .recvFails => true
  | .sendFails _ => true
  | _ => false

/-- One system call, where it leads, and the bytes that the client is sent by it. -/
def HandleTCPClient : Point → Call → Option (Point × List Byte)
  | .recv, .recv got =>
      if got = [] then some (.close, [])
      else if got.length ≤ RCVBUFSIZE then some (.send got, [])
      else none
  | .recv, .recvFails => some (.failed "recv() failed", [])
  | .send echoBuffer, .send => some (.recv, echoBuffer)
  | .send echoBuffer, .sendFails taken =>
      if taken < echoBuffer.length then some (.failed "send() failed", echoBuffer.take taken)
      else none
  | .close, .close => some (.returned, [])
  | _, _ => none

inductive Handles : Point → Call → Point → List Byte → Prop
  | ended {got : List Byte} (nothing : got = []) : Handles .recv (.recv got) .close []
  | chunk {got : List Byte} (some_bytes : got ≠ []) (room : got.length ≤ RCVBUFSIZE) :
      Handles .recv (.recv got) (.send got) []
  | recvFails : Handles .recv .recvFails (.failed "recv() failed") []
  | send (echoBuffer : List Byte) : Handles (.send echoBuffer) .send .recv echoBuffer
  | sendFails {echoBuffer : List Byte} {taken : ℕ} (short : taken < echoBuffer.length) :
      Handles (.send echoBuffer) (.sendFails taken) (.failed "send() failed")
        (echoBuffer.take taken)
  | close : Handles .close .close .returned []

theorem handles_of_eq {p q : Point} {k : Call} {out : List Byte}
    (taken : HandleTCPClient p k = some (q, out)) : Handles p k q out := by
  unfold HandleTCPClient at taken
  split at taken
  · split at taken
    · rename_i nothing
      cases taken
      exact .ended nothing
    · rename_i some_bytes
      split at taken
      · rename_i room
        cases taken
        exact .chunk some_bytes room
      · cases taken
  · cases taken
    exact .recvFails
  · cases taken
    exact .send _
  · split at taken
    · rename_i short
      cases taken
      exact .sendFails short
    · cases taken
  · cases taken
    exact .close
  · cases taken

/-- What the clients have to do with: a connection is accepted, or a handler makes a call. -/
inductive Event
  | accept
  | call (c : ConnId) (k : Call)
deriving DecidableEq

/-- `fails` is the failure of a call of `main` itself. -/
inductive Action
  | event (e : Event)
  | main
  | fails
  | reap (c : ConnId)
deriving DecidableEq

def event? : Action → Option Event
  | .event e => some e
  | _ => none

def events (actions : List Action) : List Event := actions.filterMap event?

-- tcp_echo_server_multithread.c
namespace Multithread

inductive MainPoint
  | accept
  | malloc
  | create
deriving DecidableEq

/-- `died` is the message of `DieWithError`, after which the process is gone. -/
structure State where
  main : MainPoint
  died : Option String
  accepted : ℕ
  threads : ConnId → Option Point
  echoed : ConnId → List Byte

def init : State where
  main := .accept
  died := none
  accepted := 0
  threads := fun _ => none
  echoed := fun _ => []

/-- `DieWithError` in a thread ends the process. -/
def message : Point → Option String
  | .failed text => some text
  | _ => none

def call (s : State) (c : ConnId) (k : Call) : Option State :=
  (s.threads c).bind fun point =>
    (HandleTCPClient point k).map fun next =>
      { s with
        died := message next.1
        threads := Function.update s.threads c (some next.1)
        echoed := Function.update s.echoed c (s.echoed c ++ next.2) }

def accept (s : State) : Option State :=
  match s.main with
  | .accept => some { s with main := .malloc, accepted := s.accepted + 1 }
  | _ => none

/-- The thread that `main` creates handles the connection accepted last. -/
def runMain (s : State) : Option State :=
  match s.main with
  | .accept => none
  | .malloc => some { s with main := .create }
  | .create =>
      some { s with
        main := .accept
        threads := Function.update s.threads (s.accepted - 1) (some .recv) }

def mainFails (s : State) : State :=
  match s.main with
  | .accept => { s with died := some "accept() failed" }
  | .malloc => { s with died := some "malloc() failed" }
  | .create => { s with died := some "pthread_create() failed" }

def step (s : State) (a : Action) : Option State :=
  if s.died = none then
    match a with
    | .event .accept => accept s
    | .event (.call c k) => call s c k
    | .main => runMain s
    | .fails => some (mainFails s)
    | .reap _ => none
  else none

end Multithread

-- tcp_echo_server_multiprocess.c
namespace Multiprocess

/-- Where the parent stands; `test` is the head of the loop that cleans up zombies. -/
inductive ParentPoint
  | accept
  | fork
  | count
  | test
  | waitpid
  | decrement
deriving DecidableEq

structure State where
  parent : ParentPoint
  died : Option String
  childProcCount : ℕ
  accepted : ℕ
  children : ConnId → Option Point
  reaped : List ConnId
  echoed : ConnId → List Byte

def init : State where
  parent := .accept
  died := none
  childProcCount := 0
  accepted := 0
  children := fun _ => none
  reaped := []
  echoed := fun _ => []

/-- A child exits when `HandleTCPClient` has returned, or in `DieWithError`. -/
def exited : Point → Bool
  | .returned => true
  | .failed _ => true
  | _ => false

def unreaped (s : State) : List ConnId :=
  (List.range s.accepted).filter fun c => (s.children c).isSome && c ∉ s.reaped

def zombies (s : State) : List ConnId :=
  (unreaped s).filter fun c => (s.children c).any exited

/-- A child is a process of its own: that it fails is nothing to the others. -/
def call (s : State) (c : ConnId) (k : Call) : Option State :=
  (s.children c).bind fun point =>
    (HandleTCPClient point k).map fun next =>
      { s with
        children := Function.update s.children c (some next.1)
        echoed := Function.update s.echoed c (s.echoed c ++ next.2) }

def accept (s : State) : Option State :=
  match s.parent with
  | .accept => some { s with parent := .fork, accepted := s.accepted + 1 }
  | _ => none

/-- The next step of the parent; `childProcCount` is an `unsigned int`, and `waitpid` fails when
there is no child to wait for and returns 0 when none of them has exited. -/
def runParent (s : State) : Option State :=
  match s.parent with
  | .accept => none
  | .fork =>
      some { s with
        parent := .count
        children := Function.update s.children (s.accepted - 1) (some .recv) }
  | .count => some { s with parent := .test, childProcCount := (s.childProcCount + 1) % 2 ^ 32 }
  | .test =>
      if s.childProcCount = 0 then some { s with parent := .accept }
      else some { s with parent := .waitpid }
  | .waitpid =>
      if unreaped s = [] then some { s with died := some "waitpid() failed" }
      else if zombies s = [] then some { s with parent := .accept }
      else none
  | .decrement =>
      some { s with
        parent := .test
        childProcCount := (s.childProcCount + (2 ^ 32 - 1)) % 2 ^ 32 }

def parentFails (s : State) : Option State :=
  match s.parent with
  | .accept => some { s with died := some "accept() failed" }
  | .fork => some { s with died := some "fork() failed" }
  | _ => none

/-- `waitpid` returns a child that has exited. -/
def reap (s : State) (c : ConnId) : Option State :=
  match s.parent with
  | .waitpid =>
      if c ∈ zombies s then some { s with parent := .decrement, reaped := s.reaped ++ [c] }
      else none
  | _ => none

def step (s : State) : Action → Option State
  | .event (.call c k) => call s c k
  | .event .accept => if s.died = none then accept s else none
  | .main => if s.died = none then runParent s else none
  | .fails => if s.died = none then parentFails s else none
  | .reap c => if s.died = none then reap s c else none

inductive Took (s : State) : Action → State → Prop
  | accepted (here : s.parent = .accept) :
      Took s (.event .accept) { s with parent := .fork, accepted := s.accepted + 1 }
  | called (c : ConnId) (k : Call) (p q : Point) (out : List Byte)
      (child : s.children c = some p) (handled : HandleTCPClient p k = some (q, out)) :
      Took s (.event (.call c k)) { s with
        children := Function.update s.children c (some q)
        echoed := Function.update s.echoed c (s.echoed c ++ out) }
  | forked (here : s.parent = .fork) :
      Took s .main { s with
        parent := .count
        children := Function.update s.children (s.accepted - 1) (some .recv) }
  | counted (here : s.parent = .count) :
      Took s .main { s with
        parent := .test, childProcCount := (s.childProcCount + 1) % 2 ^ 32 }
  | cleaned (here : s.parent = .test) (zero : s.childProcCount = 0) :
      Took s .main { s with parent := .accept }
  | goesOn (here : s.parent = .test) (more : s.childProcCount ≠ 0) :
      Took s .main { s with parent := .waitpid }
  | waitFailed (here : s.parent = .waitpid) (nobody : unreaped s = []) :
      Took s .main { s with died := some "waitpid() failed" }
  | noZombie (here : s.parent = .waitpid) (some_child : unreaped s ≠ [])
      (nobody : zombies s = []) : Took s .main { s with parent := .accept }
  | decremented (here : s.parent = .decrement) :
      Took s .main { s with
        parent := .test
        childProcCount := (s.childProcCount + (2 ^ 32 - 1)) % 2 ^ 32 }
  | acceptFailed (here : s.parent = .accept) :
      Took s .fails { s with died := some "accept() failed" }
  | forkFailed (here : s.parent = .fork) : Took s .fails { s with died := some "fork() failed" }
  | reaped (c : ConnId) (here : s.parent = .waitpid) (zombie : c ∈ zombies s) :
      Took s (.reap c) { s with parent := .decrement, reaped := s.reaped ++ [c] }

theorem took_of_step {s t : State} {a : Action} (taken : step s a = some t) : Took s a t := by
  cases a with
  | event e =>
    cases e with
    | accept =>
      simp only [step, accept] at taken
      split at taken
      · split at taken
        · rename_i here
          cases taken
          exact .accepted here
        · cases taken
      · cases taken
    | call c k =>
      obtain ⟨p, child, taken⟩ := Option.bind_eq_some_iff.mp taken
      obtain ⟨⟨q, out⟩, handled, rfl⟩ := Option.map_eq_some_iff.mp taken
      exact .called c k p q out child handled
  | main =>
    simp only [step, runParent] at taken
    split at taken
    · split at taken
      · cases taken
      · rename_i here
        cases taken
        exact .forked here
      · rename_i here
        cases taken
        exact .counted here
      · rename_i here
        split at taken
        · rename_i zero
          cases taken
          exact .cleaned here zero
        · rename_i more
          cases taken
          exact .goesOn here more
      · rename_i here
        split at taken
        · rename_i nobody
          cases taken
          exact .waitFailed here nobody
        · rename_i some_child
          split at taken
          · rename_i nobody
            cases taken
            exact .noZombie here some_child nobody
          · cases taken
      · rename_i here
        cases taken
        exact .decremented here
    · cases taken
  | fails =>
    simp only [step, parentFails] at taken
    split at taken
    · split at taken
      · rename_i here
        cases taken
        exact .acceptFailed here
      · rename_i here
        cases taken
        exact .forkFailed here
      · cases taken
    · cases taken
  | reap c =>
    simp only [step, reap] at taken
    split at taken
    · split at taken
      · rename_i here
        split at taken
        · rename_i zombie
          cases taken
          exact .reaped c here zombie
        · cases taken
      · cases taken
    · cases taken

end Multiprocess

end SocketChat.TestCode.Echo.Model
