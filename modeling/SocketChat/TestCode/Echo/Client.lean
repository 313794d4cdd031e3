/- SocketChat/TestCode/Echo/Client
   digest: tcp_echo_client.c connected to the HandleTCPClient of a thread. -/

import Mathlib.Algebra.Ring.Int.Defs
import SocketChat.Lib.Lines
import SocketChat.TestCode.Echo.Model

set_option autoImplicit false
set_option relaxedAutoImplicit false

namespace SocketChat.TestCode.Echo.Client

open SocketChat.Lib.CString
open SocketChat.Lib.Lines (newline)
open SocketChat.TestCode.Echo.Model

inductive ClientPoint
  | send
  | recv
  | close
  | exited
  | failed (message : String)
deriving DecidableEq

/-- `toServer` and `toClient` are the bytes in flight, and the last two fields the indices of the
two buffers, each called `echoBuffer`, that have been written. -/
structure State where
  client : ClientPoint
  echoString : List Byte
  totalBytesRcvd : ℤ
  echoBuffer : List Byte
  printed : List Byte
  server : Point
  toServer : List Byte
  toClient : List Byte
  written : List ℕ
  serverWritten : List ℕ
deriving DecidableEq

def init (echoString echoBuffer : List Byte) : State where
  client := .send
  echoString := echoString
  totalBytesRcvd := 0
  echoBuffer := echoBuffer
  printed := []
  server := .recv
  toServer := []
  toClient := []
  written := []
  serverWritten := []

/-- `unsigned int echoStringLen = strlen(echoString)`. -/
def echoStringLen (s : State) : ℕ := strlen s.echoString % 2 ^ 32

/-- `while (totalBytesRcvd < echoStringLen)`, which compares as unsigned numbers. -/
def afterTest (totalBytesRcvd : ℤ) (echoStringLen : ℕ) : ClientPoint :=
  if totalBytesRcvd % 2 ^ 32 < echoStringLen then .recv else .close

/-- Besides the calls of the client there are those of the server; `n` is how much a `recv`
returns. -/
inductive Action
  | send
  | recv (n : ℕ)
  | recvEnd
  | close
  | serverRecv (n : ℕ)
  | serverRecvEnd
  | serverSend
  | serverClose
deriving DecidableEq

/-- `send` takes all bytes, as many as the test behind it expects. -/
def send (s : State) : Option State :=
  match s.client with
  | .send =>
      some { s with
        client := afterTest 0 (echoStringLen s)
        printed := lit ['R', 'e', 'c', 'e', 'i', 'v', 'e', 'd', ':', ' ']
        toServer := s.toServer ++ s.echoString.take (echoStringLen s) }
  | _ => none

def recv (s : State) (n : ℕ) : Option State :=
  match s.client with
  | .recv =>
      if 0 < n ∧ n ≤ RCVBUFSIZE - 1 ∧ n ≤ s.toClient.length then
        let echoBuffer := overwrite s.echoBuffer (s.toClient.take n ++ [0])
        some { s with
          client := afterTest (s.totalBytesRcvd + n) (echoStringLen s)
          totalBytesRcvd := s.totalBytesRcvd + n
          echoBuffer := echoBuffer
          printed := s.printed ++ cstr echoBuffer
          toClient := s.toClient.drop n
          written := s.written ++ List.range (n + 1) }
      else none
  | _ => none

/-- `recv` returns 0 once the server has closed and everything has arrived. -/
def recvEnd (s : State) : Option State :=
  match s.client with
  | .recv =>
      if s.server = .returned ∧ s.toClient = [] then
        some { s with client := .failed "recv() failed or connection closed prematurely" }
      else none
  | _ => none

def close (s : State) : Option State :=
  match s.client with
  | .close => some { s with client := .exited, printed := s.printed ++ [newline] }
  | _ => none

def serve (s : State) (k : Call) : Option State :=
  (HandleTCPClient s.server k).map fun next =>
    { s with server := next.1, toClient := s.toClient ++ next.2 }

def serverRecv (s : State) (n : ℕ) : Option State :=
  if 0 < n ∧ n ≤ s.toServer.length then
    serve { s with
      toServer := s.toServer.drop n
      serverWritten := s.serverWritten ++ List.range n } (.recv (s.toServer.take n))
  else none

def serverRecvEnd (s : State) : Option State :=
  if s.client = .exited ∧ s.toServer = [] then serve s (.recv []) else none

def step (s : State) : Action → Option State
  | .send => send s
  | .recv n => recv s n
  | .recvEnd => recvEnd s
  | .close => close s
  | .serverRecv n => serverRecv s n
  | .serverRecvEnd => serverRecvEnd s
  | .serverSend => serve s .send
  | .serverClose => serve s .close

end SocketChat.TestCode.Echo.Client
