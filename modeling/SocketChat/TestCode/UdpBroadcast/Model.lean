/- SocketChat/TestCode/UdpBroadcast/Model
   digest: The relay of udp_broadcast_sender.c among clients and udp_broadcast_receiver.c. -/

import SocketChat.Lib.CString

set_option autoImplicit false
set_option relaxedAutoImplicit false

namespace SocketChat.TestCode.UdpBroadcast.Model

open SocketChat.Lib.CString

def ECHOMAX : ℕ := 255

/-- The source of a datagram. Neither program looks at it but to print its address. -/
inductive Source
  | client (sin_addr : UInt32)
  | relay
deriving DecidableEq

structure Datagram where
  source : Source
  payload : List Byte
deriving DecidableEq

/-- The relay's own address, or 255.255.255.255, both with the port all sockets are bound to. -/
inductive Dest
  | relay
  | broadcast
deriving DecidableEq

/-- A socket bound to the port, and what its program has printed about the datagrams it took. -/
structure Sock where
  queue : List Datagram
  shown : List (Source × List Byte)

def Sock.arrive (sock : Sock) (d : Datagram) : Sock := { sock with queue := sock.queue ++ [d] }

/-- `recvfrom` and `printf`: whichever datagram comes first is cut off at the buffer's end and
printed up to a NUL. The buffer is the part of it that was kept. -/
def Sock.recvfrom (sock : Sock) (i : ℕ) : Option (Source × List Byte × Sock) :=
  sock.queue[i]?.map fun d =>
    let buffer := d.payload.take ECHOMAX
    (d.source, buffer,
      { queue := sock.queue.eraseIdx i, shown := sock.shown ++ [(d.source, cstr (buffer ++ [0]))] })

/-- What the clients are still going to send, the relay's socket and those of the receivers on
the segment, and how many client datagrams the relay has received and how many broadcasts it has
made. -/
structure State where
  unsent : List (Datagram × Dest)
  servSock : Sock
  receivers : List Sock
  heard : ℕ
  broadcasts : ℕ

/-- The network: a broadcast reaches every socket on the segment, the sender's own as well. -/
def State.sendto (s : State) (d : Datagram) : Dest → State
  | .relay => { s with servSock := s.servSock.arrive d }
  | .broadcast =>
      { s with servSock := s.servSock.arrive d, receivers := s.receivers.map (·.arrive d) }

def init (messages : List (UInt32 × List Byte × Dest)) (receivers : ℕ) : State where
  unsent := messages.map fun m => (⟨.client m.1, m.2.1⟩, m.2.2)
  servSock := ⟨[], []⟩
  receivers := List.replicate receivers ⟨[], []⟩
  heard := 0
  broadcasts := 0

def Source.isClient : Source → Bool
  | client _ => true
  | relay => false

/-- A client sends its next datagram; the relay makes one turn of its loop, and a receiver one
turn of its own, with the `i`-th of the datagrams that wait for it. -/
inductive Action
  | client
  | relay (i : ℕ)
  | receiver (j i : ℕ)
deriving DecidableEq

def step (s : State) : Action → Option State
  | .client =>
      match s.unsent with
      | [] => none
      | (d, dest) :: unsent => some (({ s with unsent := unsent } : State).sendto d dest)
  | .relay i =>
      (s.servSock.recvfrom i).map fun (source, echoBuffer, servSock) =>
        ({ s with
            servSock := servSock
            heard := if source.isClient then s.heard + 1 else s.heard
            broadcasts := s.broadcasts + 1 } : State).sendto ⟨.relay, echoBuffer⟩ .broadcast
  | .receiver j i =>
      s.receivers[j]?.bind fun sock =>
        (sock.recvfrom i).map fun (_, _, sock) => { s with receivers := s.receivers.set j sock }

end SocketChat.TestCode.UdpBroadcast.Model
