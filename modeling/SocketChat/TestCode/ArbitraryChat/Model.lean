/- SocketChat/TestCode/ArbitraryChat/Model
   digest: The threads of tcp_chat_arbitrary_server.c, one step for each shared access. -/

import SocketChat.Lib.CString
import SocketChat.Lib.Deliveries
import SocketChat.Lib.Runs
import SocketChat.Lib.SlotTable

set_option autoImplicit false
set_option relaxedAutoImplicit false

namespace SocketChat.TestCode.ArbitraryChat.Model

open SocketChat.Lib.CString
open SocketChat.Lib.Deliveries (Said Sent)
open SocketChat.Lib.Room (Event)
open SocketChat.Lib.SlotTable (occupants)

def MAX_CLIENTS : ℕ := 10

def BUFFER_SIZE : ℕ := 256

abbrev ConnId := ℕ

/-- Where a handler stands: before the call or the loop it is named after. `broadcasting`
is the loop of `broadcast` at slot `i`. -/
inductive Point
  | lockAdd
  | add
  | unlockAdd
  | recv
  | lockBroadcast (message : List Byte)
  | broadcasting (message : List Byte) (i : ℕ)
  | unlockBroadcast
  | lockRemove
  | remove
  | unlockRemove
  | close
  | returned
deriving DecidableEq

structure Thread where
  clntSocket : ℤ
  point : Point

/-- `send(fd, message, strlen(message), 0)`. -/
structure SendCall where
  fd : ℤ
  message : List Byte

/-- `fds` gives the connection behind each open descriptor and `departed` tells whether its
peer has closed or reset it; `died` is the message of `DieWithError`, after which the
process is gone. The last three fields are the account of the broadcasts and the history of
the table. -/
structure State where
  servSock : ℤ
  threads : ConnId → Option Thread
  created : ℕ
  client_sockets : List ℤ
  client_mutex : Option ConnId
  fds : ℤ → Option ConnId
  departed : ConnId → Bool
  died : Option String
  said : List (Said ConnId)
  sends : List (Sent ConnId SendCall)
  history : List (Event ConnId ℕ)

def init (servSock : ℤ) : State where
  servSock := servSock
  threads := fun _ => none
  created := 0
  client_sockets := List.replicate MAX_CLIENTS 0
  client_mutex := none
  fds := fun _ => none
  departed := fun _ => false
  died := none
  said := []
  sends := []
  history := []

def State.goto (s : State) (c : ConnId) (th : Thread) (point : Point) : State :=
  { s with threads := Function.update s.threads c (some { th with point := point }) }

/-- `AcceptTCPConnection` and the `pthread_create` for the new connection. -/
def accept (s : State) (clntSock : ℤ) : Option State :=
  if clntSock < 0 then some { s with died := some "accept() failed" }
  else if s.fds clntSock = none ∧ clntSock ≠ s.servSock then
    some { s with
      threads := Function.update s.threads s.created (some ⟨clntSock, .lockAdd⟩)
      created := s.created + 1
      fds := Function.update s.fds clntSock (some s.created) }
  else none

def depart (s : State) (c : ConnId) : Option State :=
  if c < s.created then some { s with departed := Function.update s.departed c true } else none

/-- `recv` returns nothing or a chunk, which is then a string up to its first NUL. -/
def recv (s : State) (c : ConnId) (got : List Byte) : Option State :=
  (s.threads c).bind fun th =>
    match th.point with
    | .recv =>
        if got = [] then some (s.goto c th .lockRemove)
        else if got.length ≤ BUFFER_SIZE then some (s.goto c th (.lockBroadcast (cstr got)))
        else none
    | _ => none

/-- What the loop of `broadcast` finds in a slot it has to send to. -/
def target (s : State) (th : Thread) (i : ℕ) : Option ℤ :=
  s.client_sockets[i]?.filter fun fd => fd ≠ 0 ∧ fd ≠ th.clntSocket

/-- The `send` of the loop of `broadcast` to a slot, if it is one to send to. -/
def sendTo (s : State) (th : Thread) (message : List Byte) (i : ℕ) :
    List (Sent ConnId SendCall) :=
  ((target s th i).map fun fd => ⟨s.said.length - 1, s.fds fd, ⟨fd, message⟩⟩).toList

/-- `broadcast` has the mutex: its message is next in the order of all messages. -/
def State.say (s : State) (c : ConnId) : State :=
  { s with
    said := s.said ++ [⟨c, (occupants 0 s.client_sockets).filterMap s.fds⟩]
    history := s.history ++ [.say c s.said.length] }

/-- The next step of a handler that is not waiting in `recv`; a `send` succeeds. -/
def run (s : State) (c : ConnId) : Option State :=
  (s.threads c).bind fun th =>
    match th.point with
    | .lockAdd =>
        if s.client_mutex = none then
          some { s.goto c th .add with client_mutex := some c }
        else none
    | .add =>
        some { s.goto c th .unlockAdd with
          client_sockets := s.client_sockets.replace 0 th.clntSocket
          history :=
            if 0 ∈ s.client_sockets ∧ th.clntSocket ≠ 0 then s.history ++ [.join c]
            else s.history }
    | .unlockAdd => some { s.goto c th .recv with client_mutex := none }
    | .recv => none
    | .lockBroadcast message =>
        if s.client_mutex = none then
          some { (s.goto c th (.broadcasting message 0)).say c with client_mutex := some c }
        else none
    | .broadcasting message i =>
        if i < MAX_CLIENTS then
          some { s.goto c th (.broadcasting message (i + 1)) with
            sends := s.sends ++ sendTo s th message i }
        else some (s.goto c th .unlockBroadcast)
    | .unlockBroadcast => some { s.goto c th .recv with client_mutex := none }
    | .lockRemove =>
        if s.client_mutex = none then
          some { s.goto c th .remove with client_mutex := some c }
        else none
    | .remove =>
        some { s.goto c th .unlockRemove with
          client_sockets := s.client_sockets.replace th.clntSocket 0
          history :=
            if th.clntSocket ∈ s.client_sockets ∧ th.clntSocket ≠ 0 then
              s.history ++ [.leave c]
            else s.history }
    | .unlockRemove => some { s.goto c th .close with client_mutex := none }
    | .close =>
        some { s.goto c th .returned with fds := Function.update s.fds th.clntSocket none }
    | .returned => none

/-- A `send` of `broadcast` fails, for want of an open descriptor or of a peer. -/
def sendFails (s : State) (c : ConnId) : Option State :=
  (s.threads c).bind fun th =>
    match th.point with
    | .broadcasting message i =>
        if ∃ fd ∈ target s th i, ∀ d ∈ s.fds fd, s.departed d = true then
          some { s with
            sends := s.sends ++ sendTo s th message i
            died := some "send() failed during broadcast" }
        else none
    | _ => none

inductive Action
  | accept (clntSock : ℤ)
  | depart (c : ConnId)
  | recv (c : ConnId) (got : List Byte)
  | run (c : ConnId)
  | sendFails (c : ConnId)
  deriving DecidableEq

def step (s : State) (a : Action) : Option State :=
  if s.died = none then
    match a with
    | .accept clntSock => accept s clntSock
    | .depart c => depart s c
    | .recv c got => recv s c got
    | .run c => run s c
    | .sendFails c => sendFails s c
  else none

end SocketChat.TestCode.ArbitraryChat.Model
