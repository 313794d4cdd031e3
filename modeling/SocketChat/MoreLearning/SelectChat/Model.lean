/- SocketChat/MoreLearning/SelectChat/Model
   digest: The select loop of TCP_CHAT/Brodcast/Server.c, one step for each call it waits in. -/

import SocketChat.Lib.CString
import SocketChat.Lib.Deliveries
import SocketChat.Lib.Runs
import SocketChat.Lib.SlotTable

set_option autoImplicit false
set_option relaxedAutoImplicit false

namespace SocketChat.MoreLearning.SelectChat.Model

open SocketChat.Lib.CString
open SocketChat.Lib.Deliveries (Said Sent)
open SocketChat.Lib.Room (Event)
open SocketChat.Lib.SlotTable (occupants)

def MAX_CLIENTS : ℕ := 10

def BUFFER_SIZE : ℕ := 256

/-- Accepted connections, numbered in the order they were accepted. -/
abbrev ConnId := ℕ

/-- Before `select`, before `accept`, or before slot `i` of the loop over the table. -/
inductive Point
  | select
  | accept (readfds : List ℤ)
  | scan (readfds : List ℤ) (i : ℕ)

/-- `send(fd, msg, strlen(msg), 0)`. -/
structure SendCall where
  fd : ℤ
  msg : List Byte

/-- `fds` gives the accepted connection behind each open descriptor; the last three fields
are the account of the chunks received and sent, and the history of the table. -/
structure State where
  point : Point
  server_sock : ℤ
  clients : List ℤ
  fds : ℤ → Option ConnId
  accepted : ℕ
  said : List (Said ConnId)
  sends : List (Sent ConnId SendCall)
  history : List (Event ConnId ℕ)

def init (server_sock : ℤ) : State where
  point := .select
  server_sock := server_sock
  clients := List.replicate MAX_CLIENTS 0
  fds := fun _ => none
  accepted := 0
  said := []
  sends := []
  history := []

/-- `select` reports some of the descriptors that are in the set. -/
def select (s : State) (readfds : List ℤ) : Option State :=
  match s.point with
  | .select =>
      if ∀ fd ∈ readfds, fd = s.server_sock ∨ (0 < fd ∧ fd ∈ s.clients) then
        some { s with
          point := if s.server_sock ∈ readfds then .accept readfds else .scan readfds 0 }
      else none
  | _ => none

/-- `accept` returns -1 or a descriptor that is not open, and either goes to the first free
slot of the table, if there is one. -/
def accept (s : State) (new_sock : ℤ) : Option State :=
  match s.point with
  | .accept readfds =>
      if new_sock < 0 then
        some { s with
          point := .scan readfds 0
          clients := s.clients.replace 0 new_sock }
      else if s.fds new_sock = none ∧ new_sock ≠ s.server_sock then
        some { s with
          point := .scan readfds 0
          clients := s.clients.replace 0 new_sock
          fds := Function.update s.fds new_sock (some s.accepted)
          accepted := s.accepted + 1
          history :=
            if 0 ∈ s.clients ∧ new_sock ≠ 0 then s.history ++ [.join s.accepted]
            else s.history }
      else none
  | _ => none

def next (readfds : List ℤ) (i : ℕ) : Point :=
  if i + 1 < MAX_CLIENTS then .scan readfds (i + 1) else .select

def skip (s : State) : Option State :=
  match s.point with
  | .scan readfds i =>
      s.clients[i]?.bind fun sd =>
        if 0 < sd ∧ sd ∈ readfds then none else some { s with point := next readfds i }
  | _ => none

/-- `broadcast`: a `send` to every slot in use but the sender's. -/
def broadcast (s : State) (sender : ℤ) (msg : List Byte) : List (Sent ConnId SendCall) :=
  (s.clients.filter fun fd => fd ≠ 0 ∧ fd ≠ sender).map fun fd =>
    ⟨s.said.length, s.fds fd, ⟨fd, msg⟩⟩

/-- `recv` returns nothing, and the connection is closed, or a chunk, which is forwarded as
far as `strlen` finds it to go; `beyond` is what lies behind the buffer on the stack. -/
def recv (s : State) (got beyond : List Byte) : Option State :=
  match s.point with
  | .scan readfds i =>
      s.clients[i]?.bind fun sd =>
        if 0 < sd ∧ sd ∈ readfds then
          if got = [] then
            some { s with
              point := next readfds i
              clients := s.clients.set i 0
              fds := Function.update s.fds sd none
              history := s.history ++ ((s.fds sd).map Event.leave).toList }
          else if got.length ≤ BUFFER_SIZE then
            (s.fds sd).map fun conn =>
              let buffer := got ++ List.replicate (BUFFER_SIZE - got.length) 0
              { s with
                point := next readfds i
                said := s.said ++ [⟨conn, (occupants 0 s.clients).filterMap s.fds⟩]
                sends := s.sends ++ broadcast s sd (cstr (buffer ++ beyond))
                history := s.history ++ [.say conn s.said.length] }
          else none
        else none
  | _ => none

inductive Action
  | select (readfds : List ℤ)
  | accept (new_sock : ℤ)
  | skip
  | recv (got beyond : List Byte)

def step (s : State) : Action → Option State
  | .select readfds => select s readfds
  | .accept new_sock => accept s new_sock
  | .skip => skip s
  | .recv got beyond => recv s got beyond

end SocketChat.MoreLearning.SelectChat.Model
