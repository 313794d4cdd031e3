/- SocketChat/MoreLearning/TcpOneWay/Model
   digest: The send loop of TCP_CLIENT_ONE_WAY.c and the receive loop of TCP_SERVER_ONE_WAY.c. -/

import SocketChat.Lib.Lines

set_option autoImplicit false
set_option relaxedAutoImplicit false

namespace SocketChat.MoreLearning.TcpOneWay.Model

open SocketChat.Lib.CString

def BUFFER_SIZE : ℕ := 1024

inductive Point
  | loop
  | closed
deriving DecidableEq

/-- `stream` holds the bytes in flight, `printed` the texts printed after the labels. -/
structure State where
  client : Point
  stdin : List Byte
  stream : List Byte
  server : Point
  printed : List (List Byte)

def init (stdin : List Byte) : State where
  client := .loop
  stdin := stdin
  stream := []
  server := .loop
  printed := []

/-- `strncmp(buffer, "exit", 4) == 0 || strncmp(buffer, "quit", 4) == 0`. -/
def isExit (buffer : List Byte) : Bool :=
  (lit ['e', 'x', 'i', 't']).isPrefixOf (cstr buffer) ||
    (lit ['q', 'u', 'i', 't']).isPrefixOf (cstr buffer)

/-- The client's loop body, which sends `strlen(buffer)` bytes; the server's, with a `recv` of
`k` bytes; and the server's with the `recv` that finds the end of the stream. -/
inductive Action
  | send
  | recv (k : ℕ)
  | recvEnd
deriving DecidableEq

def send (s : State) : State :=
  match Lib.Lines.fgets BUFFER_SIZE s.stdin with
  | none => { s with client := .closed }
  | some (piece, rest) =>
      { s with
        client := if isExit piece then .closed else .loop
        stdin := rest
        stream := s.stream ++ cstr piece }

/-- The server's buffer after `memset` and `recv`. -/
def received (chunk : List Byte) : List Byte := overwrite (List.replicate BUFFER_SIZE 0) chunk

def recv (s : State) (k : ℕ) : State :=
  let buffer := received (s.stream.take k)
  { s with
    stream := s.stream.drop k
    server := if isExit buffer then .closed else .loop
    printed := s.printed ++ [cstr buffer] }

def step (s : State) : Action → Option State
  | .send => if s.client = .loop then some (send s) else none
  | .recv k =>
      if s.server = .loop ∧ 0 < k ∧ k ≤ BUFFER_SIZE - 1 ∧ k ≤ s.stream.length then some (recv s k)
      else none
  | .recvEnd =>
      if s.server = .loop ∧ s.client = .closed ∧ s.stream = [] then
        some { s with server := .closed }
      else none

end SocketChat.MoreLearning.TcpOneWay.Model
