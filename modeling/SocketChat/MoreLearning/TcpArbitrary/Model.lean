/- SocketChat/MoreLearning/TcpArbitrary/Model
   digest: The two threads of TCP_CHAT/Arbitary/Client.c and Server.c, which share a flag. -/

import SocketChat.Lib.Lines

set_option autoImplicit false
set_option relaxedAutoImplicit false

namespace SocketChat.MoreLearning.TcpArbitrary.Model

open SocketChat.Lib.CString

def BUFFER_SIZE : ℕ := 256

/-- The programs differ in what `receive_messages` prints in front of a message. -/
structure Program where
  heading : List Byte

def client : Program := ⟨lit ['\r', 'S', 'e', 'r', 'v', 'e', 'r', ':', ' ']⟩

def server : Program := ⟨lit ['\r', 'C', 'l', 'i', 'e', 'n', 't', ':', ' ']⟩

/-- `receive_messages` waits in `recv`, or it has returned. -/
inductive Receiver
  | receiving
  | returned
deriving DecidableEq

/-- `send_messages` stands before the test of its loop, before `fgets` or before `send`, or it
has returned. -/
inductive Sender
  | test
  | fgets
  | send
  | returned
deriving DecidableEq

/-- `running` is shared by the two threads, `buffer` is that of `send_messages`; `shown` is
what was printed of messages and `sends` are the payloads of the calls of `send`. -/
structure State where
  running : Bool
  receiver : Receiver
  shown : List (List Byte)
  sender : Sender
  buffer : List Byte
  stdin : List Byte
  sends : List (List Byte)

/-- `buffer` starts with what the stack held. -/
def init (stack stdin : List Byte) : State where
  running := true
  receiver := .receiving
  shown := []
  sender := .test
  buffer := stack
  stdin := stdin
  sends := []

/-- `recv` returns nothing, or a chunk that is printed as a string; nobody else clears
`running`, so the test of this loop lets every other turn pass. -/
def recv (program : Program) (s : State) (got beyond : List Byte) : State :=
  if got = [] then { s with running := false, receiver := .returned }
  else
    let buffer := overwrite (List.replicate BUFFER_SIZE 0) got
    { s with shown := s.shown ++ [program.heading ++ cstr (buffer ++ beyond)] }

/-- `while (running)`, in `send_messages`. -/
def test (s : State) : State := { s with sender := if s.running then .fgets else .returned }

/-- The result of `fgets` is not looked at. -/
def fgets (s : State) : State :=
  match Lib.Lines.fgets BUFFER_SIZE s.stdin with
  | none => { s with sender := .send }
  | some (piece, rest) =>
      { s with sender := .send, buffer := overwrite s.buffer (piece ++ [0]), stdin := rest }

/-- `send(sockfd, buffer, strlen(buffer), 0)`. -/
def send (s : State) (beyond : List Byte) : State :=
  { s with sender := .test, sends := s.sends ++ [cstr (s.buffer ++ beyond)] }

inductive Action
  | recv (got beyond : List Byte)
  | test
  | fgets
  | send (beyond : List Byte)
deriving DecidableEq

def step (program : Program) (s : State) : Action → Option State
  | .recv got beyond =>
      if s.receiver = .receiving ∧ got.length ≤ BUFFER_SIZE then some (recv program s got beyond)
      else none
  | .test => if s.sender = .test then some (test s) else none
  | .fgets => if s.sender = .fgets then some (fgets s) else none
  | .send beyond => if s.sender = .send then some (send s beyond) else none

end SocketChat.MoreLearning.TcpArbitrary.Model
