/- SocketChat/TestCode/TcpTurns/Model
   digest: The turn loops of tcp_chat_turntaking_server.c and tcp_chat_turntaking_client.c. -/

import SocketChat.Lib.Lines
import SocketChat.Lib.Sides

set_option autoImplicit false
set_option relaxedAutoImplicit false

namespace SocketChat.TestCode.TcpTurns.Model

open SocketChat.Lib.CString
open SocketChat.Lib.Lines
open SocketChat.Lib.Sides

def B : ℕ := 512

/-- Before `fgets`, in the loop that sends what is left of a text, before `recv`, or with the
connection closed. -/
inductive Point
  | fgets
  | send (rest : List Byte)
  | recv
  | closed
deriving DecidableEq

/-- What distinguishes the four turn loops: where the loop starts, where `continue` leads after
an empty line, whether the line `quit` ends the loop, and whether what was received is sent
back. -/
structure Loop where
  start : Point
  skip : Point
  quits : Bool
  echoes : Bool

namespace ServerFirst

/-- `while(fgets(...)){ ...; send; recv }` of the server. -/
def server : Loop where
  start := .fgets
  skip := .fgets
  quits := false
  echoes := false

/-- `for(;;){ recv; fgets; ...; send }` of the client. -/
def client : Loop where
  start := .recv
  skip := .recv
  quits := true
  echoes := false

end ServerFirst

namespace ClientFirst

/-- `for(;;){ recv; send }` of the server, which types nothing and sends back what it
received. -/
def server : Loop where
  start := .recv
  skip := .fgets
  quits := false
  echoes := true

/-- `while(fgets(...)){ ...; send; recv }` of the client. -/
def client : Loop where
  start := .fgets
  skip := .fgets
  quits := true
  echoes := false

end ClientFirst

inductive Mode
  | serverFirst
  | clientFirst
deriving DecidableEq

def Mode.loop : Mode → Side → Loop
  | serverFirst, .server => ServerFirst.server
  | serverFirst, .client => ServerFirst.client
  | clientFirst, .server => ClientFirst.server
  | clientFirst, .client => ClientFirst.client

structure Party where
  point : Point
  stdin : List Byte
  shown : List (List Byte)

abbrev State := Duo Party (List Byte)

def init (mode : Mode) (stdin : Side → List Byte) : State where
  party := fun who => { point := (mode.loop who).start, stdin := stdin who, shown := [] }
  inbox := fun _ => []

/-- The text of a piece: `buf[strcspn(buf, "\n")] = 0`. -/
def text (piece : List Byte) : List Byte := (cstr piece).takeWhile (· ≠ newline)

def Loop.fgets (loop : Loop) (p : Party) : Party :=
  match Lib.Lines.fgets B p.stdin with
  | none => { p with point := .closed }
  | some (piece, rest) =>
      { p with
        point :=
          if text piece = [] then loop.skip
          else if loop.quits ∧ text piece = lit ['q', 'u', 'i', 't'] then .closed
          else .send (text piece)
        stdin := rest }

/-- After a `recv` that returned bytes; the text shown ends at the first NUL. -/
def Loop.recv (loop : Loop) (p : Party) (chunk : List Byte) : Party :=
  { p with
    point := if loop.echoes then .send chunk else .fgets
    shown := p.shown ++ [cstr chunk] }

/-- `send` and `recv` take at most `k` bytes; `hangup` is either of them returning no more
than 0. -/
inductive Action
  | fgets (who : Side)
  | send (who : Side) (k : ℕ)
  | recv (who : Side) (k : ℕ)
  | hangup (who : Side)
deriving DecidableEq

def setPoint (s : State) (who : Side) (point : Point) : State :=
  s.setParty who { s.party who with point := point }

def step (mode : Mode) (s : State) : Action → Option State
  | .fgets who =>
      if (s.party who).point = .fgets then
        some (s.setParty who ((mode.loop who).fgets (s.party who)))
      else none
  | .send who k =>
      match (s.party who).point with
      | .send rest =>
          if 0 < k ∧ k ≤ rest.length then
            let point := if rest.drop k = [] then .recv else .send (rest.drop k)
            some ((setPoint s who point).setInbox who.peer (s.inbox who.peer ++ rest.take k))
          else none
      | _ => none
  | .recv who k =>
      if (s.party who).point = .recv ∧ 0 < k ∧ k ≤ B - 1 ∧ k ≤ (s.inbox who).length then
        let chunk := (s.inbox who).take k
        some ((s.setParty who ((mode.loop who).recv (s.party who) chunk)).setInbox who
          ((s.inbox who).drop k))
      else none
  | .hangup who =>
      match (s.party who).point with
      | .send _ => some (setPoint s who .closed)
      | .recv => some (setPoint s who .closed)
      | _ => none

end SocketChat.TestCode.TcpTurns.Model
