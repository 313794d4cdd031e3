/- SocketChat/TestCode/UdpEcho/Model
   digest: udp_echo_client.c and udp_echo_server.c, and the datagrams between them. -/

import Mathlib.Algebra.Order.Group.Nat
import SocketChat.Lib.Lines

set_option autoImplicit false
set_option relaxedAutoImplicit false

namespace SocketChat.TestCode.UdpEcho.Model

open SocketChat.Lib.CString
open SocketChat.Lib.Lines (newline)

def ECHOMAX : ℕ := 255

inductive ClientPoint
  | sendto
  | recvfrom
  | exited
  | failed (message : String)
deriving DecidableEq

/-- Where `main` of the server stands; `recvMsgSize` bytes are to be sent back. -/
inductive ServerPoint
  | recvfrom
  | sendto (recvMsgSize : ℕ)
  | failed (message : String)
deriving DecidableEq

/-- What a run starts from: the word given to the client, what the two arrays called `echoBuffer`
and the stacks behind them hold, the address of the client as `inet_ntoa` writes it, and the
longest datagram that the channel takes. -/
structure Setup where
  echoString : List Byte
  nul_free : 0 ∉ echoString
  stack : List Byte
  serverStack : List Byte
  clientIP : List Byte
  limit : ℕ

/-- The two arrays with what lies behind them, the indices that have been written in each, what
the programs have printed, and the datagrams on their way. -/
structure State where
  client : ClientPoint
  echoBuffer : List Byte
  written : List ℕ
  printed : List Byte
  server : ServerPoint
  serverBuffer : List Byte
  serverWritten : List ℕ
  serverPrinted : List Byte
  toServer : List (List Byte)
  toClient : List (List Byte)
deriving DecidableEq

def init (c : Setup) : State where
  client := .sendto
  echoBuffer := c.stack
  written := []
  printed := []
  server := .recvfrom
  serverBuffer := c.serverStack
  serverWritten := []
  serverPrinted := []
  toServer := []
  toClient := []

/-- `unsigned int echoStringLen = strlen(echoString)`. -/
def echoStringLen (c : Setup) : ℕ := strlen c.echoString % 2 ^ 32

/-- A datagram longer than the channel takes is not sent at all. -/
def sendto (limit : ℕ) (datagram : List Byte) : ℤ :=
  if datagram.length ≤ limit then datagram.length else -1

def deliver (limit : ℕ) (channel : List (List Byte)) (datagram : List Byte) : List (List Byte) :=
  if datagram.length ≤ limit then channel ++ [datagram] else channel

inductive Action
  | sendto
  | recvfrom
  | serverRecvfrom
  | serverSendto
deriving DecidableEq

def clientSendto (c : Setup) (s : State) : Option State :=
  match s.client with
  | .sendto =>
      let datagram := c.echoString.take (echoStringLen c)
      some { s with
        client :=
          if sendto c.limit datagram ≠ echoStringLen c then
            .failed "sendto() sent a different number of bytes than expected"
          else .recvfrom
        toServer := deliver c.limit s.toServer datagram }
  | _ => none

/-- A datagram longer than the buffer is cut off, and what has come has to be as long as what was
sent. -/
def clientRecvfrom (c : Setup) (s : State) : Option State :=
  match s.client, s.toClient with
  | .recvfrom, datagram :: later =>
      let got := datagram.take ECHOMAX
      let s := { s with
        echoBuffer := overwrite s.echoBuffer got
        written := s.written ++ List.range got.length
        toClient := later }
      if got.length ≠ echoStringLen c then some { s with client := .failed "recvfrom() failed" }
      else
        let echoBuffer := storeAt s.echoBuffer got.length [0]
        some { s with
          client := .exited
          echoBuffer := echoBuffer
          written := s.written ++ [got.length]
          printed := s.printed ++ lit "Received: ".toList ++ cstr echoBuffer ++ [newline] }
  | _, _ => none

def serverRecvfrom (c : Setup) (s : State) : Option State :=
  match s.server, s.toServer with
  | .recvfrom, datagram :: later =>
      let got := datagram.take ECHOMAX
      let echoBuffer := storeAt (overwrite s.serverBuffer got) got.length [0]
      some { s with
        server := .sendto got.length
        serverBuffer := echoBuffer
        serverWritten := s.serverWritten ++ List.range got.length ++ [got.length]
        serverPrinted := s.serverPrinted ++ lit "Handling client ".toList ++ c.clientIP ++
          lit " | Received: ".toList ++ cstr echoBuffer ++ [newline]
        toServer := later }
  | _, _ => none

def serverSendto (c : Setup) (s : State) : Option State :=
  match s.server with
  | .sendto recvMsgSize =>
      let datagram := s.serverBuffer.take recvMsgSize
      let s := { s with toClient := deliver c.limit s.toClient datagram }
      if sendto c.limit datagram ≠ recvMsgSize then
        some { s with
          server := .failed "sendto() sent a different number of bytes than expected" }
      else
        some { s with
          server := .recvfrom
          serverPrinted := s.serverPrinted ++ lit "Message echoed back to client\n".toList }
  | _ => none

def step (c : Setup) (s : State) : Action → Option State
  | .sendto => clientSendto c s
  | .recvfrom => clientRecvfrom c s
  | .serverRecvfrom => serverRecvfrom c s
  | .serverSendto => serverSendto c s

end SocketChat.TestCode.UdpEcho.Model
