/- SocketChat/MoreLearning/TcpTurns/Model
   digest: The turn loops of TCP_CHAT/TurnTaking/Server.c and Client.c. -/

import SocketChat.Lib.Lines
import SocketChat.Lib.Sides

set_option autoImplicit false
set_option relaxedAutoImplicit false

namespace SocketChat.MoreLearning.TcpTurns.Model

open SocketChat.Lib.CString
open SocketChat.Lib.Sides

def BUFFER_SIZE : ℕ := 256

inductive Point
  | fgets
  | recv
  | closed
deriving DecidableEq

/-- The last two fields are the texts sent and the texts printed after the label. -/
structure Party where
  point : Point
  stdin : List Byte
  sent : List (List Byte)
  shown : List (List Byte)

abbrev State := Duo Party (List Byte)

/-- The server talks first; from there on the two loops are the same. -/
def start : Side → Point
  | .server => .fgets
  | .client => .recv

def init (stdin : Side → List Byte) : State where
  party := fun who => { point := start who, stdin := stdin who, sent := [], shown := [] }
  inbox := fun _ => []

def cleared : List Byte := List.replicate BUFFER_SIZE 0

def typed (stdin : List Byte) : List Byte × List Byte :=
  match Lib.Lines.fgets BUFFER_SIZE stdin with
  | none => (cleared, stdin)
  | some (piece, rest) => (overwrite cleared (piece ++ [0]), rest)

/-- `strcmp(buffer, "exit\n") == 0`. -/
def isExit (buffer : List Byte) : Bool := strEq buffer (lit ['e', 'x', 'i', 't', '\n'])

/-- `fgets` and `send`, `recv` of `k` bytes with the memory beyond the buffer, or the end of
the loop for a reason other than `exit`. -/
inductive Action
  | type (who : Side)
  | recv (who : Side) (k : ℕ) (beyond : List Byte)
  | hangup (who : Side)
deriving DecidableEq

/-- From `memset` to `send`, which takes the `strlen(buffer)` bytes as a whole. -/
def type (s : State) (who : Side) : State :=
  let p := s.party who
  let buffer := (typed p.stdin).1
  let left := (typed p.stdin).2
  if isExit buffer then s.setParty who { p with point := .closed, stdin := left }
  else
    (s.setParty who { p with point := .recv, stdin := left, sent := p.sent ++ [cstr buffer] })
      |>.setInbox who.peer (s.inbox who.peer ++ cstr buffer)

/-- From `memset` to `printf`. -/
def recv (s : State) (who : Side) (k : ℕ) (beyond : List Byte) : State :=
  let p := s.party who
  let buffer := overwrite cleared ((s.inbox who).take k)
  (s.setParty who { p with point := .fgets, shown := p.shown ++ [cstr (buffer ++ beyond)] })
    |>.setInbox who ((s.inbox who).drop k)

def step (s : State) : Action → Option State
  | .type who => if (s.party who).point = .fgets then some (type s who) else none
  | .recv who k beyond =>
      if (s.party who).point = .recv ∧ 0 < k ∧ k ≤ BUFFER_SIZE ∧ k ≤ (s.inbox who).length then
        some (recv s who k beyond)
      else none
  | .hangup who =>
      if (s.party who).point ≠ .closed then
        some (s.setParty who { s.party who with point := .closed })
      else none

end SocketChat.MoreLearning.TcpTurns.Model
