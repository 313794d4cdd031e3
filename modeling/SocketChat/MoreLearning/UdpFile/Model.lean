/- SocketChat/MoreLearning/UdpFile/Model
   digest: The datagram file transfer of UDP_FILE_SERVER.c and UDP_FILE_CLIENT.c as one machine. -/

import SocketChat.Lib.Blocks
import SocketChat.Lib.CString
import SocketChat.Lib.LossyFifo
import SocketChat.Lib.Runs

set_option autoImplicit false
set_option relaxedAutoImplicit false

namespace SocketChat.MoreLearning.UdpFile.Model

open SocketChat.Lib.Blocks (blocks)
open SocketChat.Lib.CString
open SocketChat.Lib.LossyFifo

def BUFFER_SIZE : ℕ := 1024

def START : List Byte := lit ['S', 'T', 'A', 'R', 'T']
def ACK : List Byte := lit ['A', 'C', 'K']
def EOF : List Byte := lit ['E', 'O', 'F']
def ERROR : List Byte := lit ['E', 'R', 'R', 'O', 'R']

/-- A datagram and, for the proofs only, the number of the packet it carries or answers. -/
structure Datagram where
  packet : Option ℕ
  payload : List Byte
  deriving DecidableEq

/-- Where the server stands: at its first `recvfrom`, before an `fread`, at the `recvfrom`
for the acknowledgment, or after closing its socket. -/
inductive ServerPoint
  | request
  | read
  | ack
  | finished
  deriving DecidableEq

/-- `Packet %d sent and acknowledged (%zu bytes)`, with the packet that was waited for. -/
structure Logged where
  packet_count : BitVec 32
  n : ℕ
  packet : ℕ

/-- `file` is the unread rest of `file.txt`, or `none` if it cannot be opened; `packets`
counts the data datagrams sent, without the width of `packet_count`. -/
structure Server where
  point : ServerPoint
  file : Option (List Byte)
  n : ℕ
  packet_count : BitVec 32
  log : List Logged
  packets : ℕ

inductive Leave
  | timeout
  | eof
  | error
  deriving DecidableEq

/-- Where the client stands: at `recvfrom`, between `fwrite` and `packet_count++`, between
that and `sendto`, or out of its loop. -/
inductive ClientPoint
  | receive
  | written (packet : Option ℕ)
  | counted (packet : Option ℕ)
  | left (why : Leave)
  deriving DecidableEq

/-- `received` is `received.txt`; `kept` lists the datagrams written to it. -/
structure Client where
  point : ClientPoint
  received : List Byte
  packet_count : BitVec 32
  kept : List Datagram

structure State where
  server : Server
  client : Client
  down : Fifo Datagram
  up : Fifo Datagram

/-- Both programs are up and the client has just sent `START`. -/
def init (file : Option (List Byte)) : State where
  server := ⟨.request, file, 0, 0, [], 0⟩
  client := ⟨.receive, [], 0, []⟩
  down := Fifo.empty
  up := Fifo.empty.push ⟨none, START⟩

/-- The server's first `recvfrom` and its `fopen`. -/
def serverRequest (s : State) : Option State :=
  if s.server.point = .request then
    s.up.pull.map fun (_, up) =>
      match s.server.file with
      | none =>
          { s with
            up := up
            down := s.down.push ⟨none, ERROR⟩
            server := { s.server with point := .finished } }
      | some _ => { s with up := up, server := { s.server with point := .read } }
  else none

/-- One `fread` with the `sendto` that follows it, of the chunk or of the end marker. -/
def serverRead (s : State) : Option State :=
  if s.server.point = .read then
    s.server.file.map fun rest =>
      let buffer := rest.take BUFFER_SIZE
      if 0 < buffer.length then
        { s with
          down := s.down.push ⟨some (s.server.packets + 1), buffer⟩
          server := { s.server with
            point := .ack
            file := some (rest.drop BUFFER_SIZE)
            n := buffer.length
            packet_count := s.server.packet_count + 1
            packets := s.server.packets + 1 } }
      else
        { s with
          down := s.down.push ⟨none, EOF⟩
          server := { s.server with point := .finished } }
  else none

/-- The `recvfrom` for the acknowledgment returns a datagram, whatever it is. -/
def serverAck (s : State) : Option State :=
  if s.server.point = .ack then
    s.up.pull.map fun (_, up) =>
      { s with
        up := up
        server := { s.server with
          point := .read
          log := s.server.log ++ [⟨s.server.packet_count, s.server.n, s.server.packets⟩] } }
  else none

/-- The `recvfrom` for the acknowledgment times out: `No ACK received, continuing...`. -/
def serverTimeout (s : State) : Option State :=
  if s.server.point = .ack then some { s with server := { s.server with point := .read } }
  else none

/-- The client's `recvfrom` with the tests for the markers and the `fwrite`. -/
def clientReceive (s : State) : Option State :=
  if s.client.point = .receive then
    s.down.pull.map fun (d, down) =>
      let buffer := d.payload.take BUFFER_SIZE
      if buffer = EOF then
        { s with down := down, client := { s.client with point := .left .eof } }
      else if buffer = ERROR then
        { s with down := down, client := { s.client with point := .left .error } }
      else
        { s with
          down := down
          client := { s.client with
            point := .written d.packet
            received := s.client.received ++ buffer
            kept := s.client.kept ++ [d] } }
  else none

def clientTimeout (s : State) : Option State :=
  if s.client.point = .receive then
    some { s with client := { s.client with point := .left .timeout } }
  else none

/-- `packet_count++`. -/
def clientCount (s : State) : Option State :=
  match s.client.point with
  | .written packet =>
      some { s with
        client := { s.client with
          point := .counted packet
          packet_count := s.client.packet_count + 1 } }
  | _ => none

def clientAck (s : State) : Option State :=
  match s.client.point with
  | .counted packet =>
      some { s with
        client := { s.client with point := .receive }
        up := s.up.push ⟨packet, ACK⟩ }
  | _ => none

inductive Action
  | serverRequest
  | serverRead
  | serverAck
  | serverTimeout
  | clientReceive
  | clientTimeout
  | clientCount
  | clientAck
  | loseDown (i : ℕ)
  | loseUp (i : ℕ)
  deriving DecidableEq

def step (s : State) : Action → Option State
  | .serverRequest => serverRequest s
  | .serverRead => serverRead s
  | .serverAck => serverAck s
  | .serverTimeout => serverTimeout s
  | .clientReceive => clientReceive s
  | .clientTimeout => clientTimeout s
  | .clientCount => clientCount s
  | .clientAck => clientAck s
  | .loseDown i => (s.down.drop i).map fun down => { s with down := down }
  | .loseUp i => (s.up.drop i).map fun up => { s with up := up }

/-- The text of a chunk is that of a control datagram. -/
def IsMarker (chunk : List Byte) : Prop := chunk = EOF ∨ chunk = ERROR

instance (chunk : List Byte) : Decidable (IsMarker chunk) := inferInstanceAs (Decidable (_ ∨ _))

abbrev chunks (content : List Byte) : List (List Byte) := blocks BUFFER_SIZE content

def Client.acking (c : Client) : List (Option ℕ) :=
  match c.point with
  | .written packet => [packet]
  | .counted packet => [packet]
  | _ => []

def State.acks (s : State) : List (Option ℕ) := s.up.flight.map (·.packet) ++ s.client.acking

def State.coming (s : State) : List (Option ℕ) :=
  s.acks ++
    match s.client.point with
    | .left _ => []
    | _ => s.down.flight.map (·.packet)

end SocketChat.MoreLearning.UdpFile.Model
