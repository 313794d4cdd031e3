/- SocketChat/MoreLearning/UdpBroadcast/Model
   digest: The receive loop of UDP_CHAT/Brodcast/Server.c and the two threads of its Client.c. -/

import SocketChat.Lib.Lines

set_option autoImplicit false
set_option relaxedAutoImplicit false

namespace SocketChat.MoreLearning.UdpBroadcast.Model

open SocketChat.Lib.CString

def MAX_CLIENTS : ℕ := 10

def BUFFER_SIZE : ℕ := 256

/-- The two fields of an address that the programs read, in network byte order. -/
structure SockaddrIn where
  sin_port : UInt16
  s_addr : UInt32
deriving DecidableEq

/-- `sendto(sockfd, msg, strlen(msg), 0, dest)`. -/
structure SendTo where
  dest : SockaddrIn
  msg : List Byte
deriving DecidableEq

/-- What a `recvfrom` did: it stored a datagram and its source, or it failed and left in
`client` what was there. -/
inductive Recvfrom
  | received (client : SockaddrIn) (payload : List Byte)
  | failed (client : SockaddrIn)

def Recvfrom.client : Recvfrom → SockaddrIn
  | received client _ => client
  | failed client => client

/-- `buffer` after the call: it was cleared, and a longer datagram is cut off. -/
def Recvfrom.buffer : Recvfrom → List Byte
  | received _ payload =>
      overwrite (List.replicate BUFFER_SIZE 0) (payload.take BUFFER_SIZE)
  | failed _ => List.replicate BUFFER_SIZE 0

namespace Server

/-- The first `client_count` entries of `clients` are in use. -/
structure State where
  clients : Vector SockaddrIn MAX_CLIENTS
  client_count : ℕ

def init : State where
  clients := Vector.replicate MAX_CLIENTS ⟨0, 0⟩
  client_count := 0

/-- `clients[0..client_count)`. -/
def State.table (s : State) : List SockaddrIn := s.clients.toList.take s.client_count

def found (client : SockaddrIn) : List SockaddrIn → Bool
  | [] => false
  | entry :: entries =>
      if entry.sin_port = client.sin_port ∧ entry.s_addr = client.s_addr then true
      else found client entries

def broadcast (sender : SockaddrIn) (msg : List Byte) : List SockaddrIn → List SendTo
  | [] => []
  | entry :: entries =>
      if entry.sin_port ≠ sender.sin_port ∨ entry.s_addr ≠ sender.s_addr then
        ⟨entry, msg⟩ :: broadcast sender msg entries
      else broadcast sender msg entries

/-- `clients[client_count++] = client`, where the client is new and there is room. -/
def enter (s : State) (client : SockaddrIn) : State :=
  if room : found client s.table = false ∧ s.client_count < MAX_CLIENTS then
    { clients := s.clients.set s.client_count client room.2, client_count := s.client_count + 1 }
  else s

/-- The loop body after `recvfrom`, with the datagrams it sends. A buffer without a NUL is
read on into the memory `beyond` it. -/
def serve (s : State) (call : Recvfrom) (beyond : List Byte) : State × List SendTo :=
  let s := enter s call.client
  (s, broadcast call.client (cstr (call.buffer ++ beyond)) s.table)

end Server

namespace Client

/-- `htons` on a little-endian machine. -/
def htons (port : UInt16) : UInt16 := port <<< 8 ||| port >>> 8

/-- The address that `main` stores in `server`: 127.0.0.1, port 8080. -/
def configured : SockaddrIn where
  sin_port := htons 8080
  s_addr := 0x0100007F

/-- `receive_messages` waits in `recvfrom`, or it has left its loop on a result `n`. -/
inductive Receiver
  | receiving
  | ended (n : ℤ)
deriving DecidableEq

inductive Sender
  | fgets
  | sendto
deriving DecidableEq

/-- `server` is shared by the two threads, `buffer` is that of `send_messages`. -/
structure State where
  server : SockaddrIn
  receiver : Receiver
  shown : List (List Byte)
  sender : Sender
  buffer : List Byte
  stdin : List Byte
  sends : List SendTo

def init (stack stdin : List Byte) : State where
  server := configured
  receiver := .receiving
  shown := []
  sender := .fgets
  buffer := stack
  stdin := stdin
  sends := []

/-- `recvfrom` stores the source of the datagram in `server`, of an empty one as well. -/
def recvfrom (s : State) (source : SockaddrIn) (payload beyond : List Byte) : State :=
  let n := (payload.take BUFFER_SIZE).length
  if n = 0 then { s with server := source, receiver := .ended 0 }
  else
    let buffer := overwrite (List.replicate BUFFER_SIZE 0) (payload.take BUFFER_SIZE)
    { s with server := source, shown := s.shown ++ [cstr (buffer ++ beyond)] }

/-- The result of `fgets` is not looked at. -/
def fgets (s : State) : State :=
  match Lib.Lines.fgets BUFFER_SIZE s.stdin with
  | none => { s with sender := .sendto }
  | some (piece, rest) =>
      { s with sender := .sendto, buffer := overwrite s.buffer (piece ++ [0]), stdin := rest }

def sendto (s : State) (beyond : List Byte) : State :=
  { s with sender := .fgets, sends := s.sends ++ [⟨s.server, cstr (s.buffer ++ beyond)⟩] }

inductive Action
  | recvfrom (source : SockaddrIn) (payload beyond : List Byte)
  | recvfromFails
  | fgets
  | sendto (beyond : List Byte)
deriving DecidableEq

def step (s : State) : Action → Option State
  | .recvfrom source payload beyond =>
      if s.receiver = .receiving then some (recvfrom s source payload beyond) else none
  | .recvfromFails =>
      if s.receiver = .receiving then some { s with receiver := .ended (-1) } else none
  | .fgets => if s.sender = .fgets then some (fgets s) else none
  | .sendto beyond => if s.sender = .sendto then some (sendto s beyond) else none

end Client

end SocketChat.MoreLearning.UdpBroadcast.Model
