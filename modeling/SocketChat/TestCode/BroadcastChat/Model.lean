/- SocketChat/TestCode/BroadcastChat/Model
   digest: The threads of tcp_chat_broadcast_server.c, a step for each access to what they share. -/

import SocketChat.Lib.Lines
import SocketChat.Lib.Packed

set_option autoImplicit false
set_option relaxedAutoImplicit false

namespace SocketChat.TestCode.BroadcastChat.Model

open SocketChat.Lib.CString
open SocketChat.Lib.Lines (newline)
open SocketChat.Lib.Packed

def RCVBUFSIZE : ℕ := 32
def MAXCLIENTS : ℕ := 100

abbrev ConnId := ℕ

/-- Where `main` stands: before `accept`, within `add_client(s)`, before `pthread_create`.
`clients[nclients++] = s` is the store `add` and the increment `count`. -/
inductive MainPoint
  | accept
  | lockAdd (s : ℤ)
  | add (s : ℤ)
  | count (s : ℤ)
  | unlockAdd (s : ℤ)
  | create (s : ℤ)
deriving DecidableEq

/-- Where a handler stands: in the loop of `HandleTCPClient`, within `remove_client`, before
`close`, or at its end. `searching` and `shifting` are the two loops of `remove_client`. -/
inductive HandlerPoint
  | recv
  | send (buf : List Byte)
  | lockRemove
  | searching (i : ℕ)
  | shifting (j : ℕ)
  | unlockRemove
  | close
  | returned
deriving DecidableEq

/-- Where `ServerSendThread` stands; `buf` is the text of the line without its newline. -/
inductive SendPoint
  | fgets
  | lockBroadcast (buf : List Byte)
  | broadcasting (buf : List Byte) (i : ℕ)
  | unlockBroadcast
  | returned
deriving DecidableEq

structure Handler where
  clntSock : ℤ
  point : HandlerPoint
deriving DecidableEq

inductive Owner
  | main
  | sender
  | handler (c : ConnId)
deriving DecidableEq

/-- `fds` gives the connection behind each open descriptor and `sock` the descriptor that each
connection was accepted with; `died` is the message of `DieWithError`, after which the process is
gone. `added` are the connections that `add_client` found room for and `removed` those that
`remove_client` was called for, and the last three fields are the bytes received from each client,
those of them that have been echoed, and all bytes sent to it. -/
structure State where
  servSock : ℤ
  main : MainPoint
  sender : SendPoint
  handlers : ConnId → Option Handler
  clients : Vector ℤ MAXCLIENTS
  nclients : ℕ
  clients_mtx : Option Owner
  stdin : List Byte
  fds : ℤ → Option ConnId
  died : Option String
  accepted : ℕ
  sock : ConnId → ℤ
  added : List ConnId
  removed : List ConnId
  received : ConnId → List Byte
  echoed : ConnId → List Byte
  stream : ConnId → List Byte

def init (servSock : ℤ) (stdin : List Byte) : State where
  servSock := servSock
  main := .accept
  sender := .fgets
  handlers := fun _ => none
  clients := Vector.replicate MAXCLIENTS 0
  nclients := 0
  clients_mtx := none
  stdin := stdin
  fds := fun _ => none
  died := none
  accepted := 0
  sock := fun _ => 0
  added := []
  removed := []
  received := fun _ => []
  echoed := fun _ => []
  stream := fun _ => []

def State.goto (s : State) (c : ConnId) (h : Handler) (point : HandlerPoint) : State :=
  { s with handlers := Function.update s.handlers c (some { h with point := point }) }

def put (fds : ℤ → Option ConnId) (stream : ConnId → List Byte) (fd : ℤ) (bytes : List Byte) :
    ConnId → List Byte :=
  match fds fd with
  | none => stream
  | some c => Function.update stream c (stream c ++ bytes)

def State.newest (s : State) : ConnId := s.accepted - 1

/-- `accept` returns a descriptor that is not open, or fails. -/
def accept (s : State) (clntSock : ℤ) : Option State :=
  match s.main with
  | .accept =>
      if clntSock < 0 then some { s with died := some "accept() failed" }
      else if s.fds clntSock = none ∧ clntSock ≠ s.servSock then
        some { s with
          main := .lockAdd clntSock
          fds := Function.update s.fds clntSock (some s.accepted)
          sock := Function.update s.sock s.accepted clntSock
          accepted := s.accepted + 1 }
      else none
  | _ => none

/-- The next step of `main` when it is not waiting in `accept`. -/
def runMain (s : State) : Option State :=
  match s.main with
  | .accept => none
  | .lockAdd fd =>
      if s.clients_mtx = none then some { s with main := .add fd, clients_mtx := some .main }
      else none
  | .add fd =>
      if room : s.nclients < MAXCLIENTS then
        some { s with
          main := .count fd
          clients := s.clients.set s.nclients fd room
          added := s.added ++ [s.newest] }
      else some { s with main := .unlockAdd fd }
  | .count fd => some { s with main := .unlockAdd fd, nclients := s.nclients + 1 }
  | .unlockAdd fd => some { s with main := .create fd, clients_mtx := none }
  | .create fd =>
      some { s with
        main := .accept
        handlers := Function.update s.handlers s.newest (some ⟨fd, .recv⟩) }

def createFails (s : State) : Option State :=
  match s.main with
  | .create _ => some { s with died := some "pthread_create() failed" }
  | _ => none

/-- `recv` returns nothing at the end of the connection, or a chunk. -/
def recv (s : State) (c : ConnId) (got : List Byte) : Option State :=
  (s.handlers c).bind fun h =>
    match h.point with
    | .recv =>
        if got = [] then some (s.goto c h .lockRemove)
        else if got.length ≤ RCVBUFSIZE - 1 then
          some { s.goto c h (.send got) with
            received := Function.update s.received c (s.received c ++ got) }
        else none
    | _ => none

def recvFails (s : State) (c : ConnId) : Option State :=
  (s.handlers c).bind fun h =>
    match h.point with
    | .recv => some { s with died := some "recv() failed" }
    | _ => none

/-- `send(clntSock, buf, recvSize, 0)` takes so many bytes, and fewer are an error. -/
def send (s : State) (c : ConnId) (taken : ℕ) : Option State :=
  (s.handlers c).bind fun h =>
    match h.point with
    | .send buf =>
        if taken = buf.length then
          some { s.goto c h .recv with
            echoed := Function.update s.echoed c (s.echoed c ++ buf)
            stream := put s.fds s.stream h.clntSock buf }
        else if taken < buf.length then
          some { s with
            died := some "send() failed"
            stream := put s.fds s.stream h.clntSock (buf.take taken) }
        else none
    | _ => none

/-- The next step of a handler that is neither in `recv` nor in `send`. -/
def runHandler (s : State) (c : ConnId) : Option State :=
  (s.handlers c).bind fun h =>
    match h.point with
    | .recv => none
    | .send _ => none
    | .lockRemove =>
        if s.clients_mtx = none then
          some { s.goto c h (.searching 0) with
            clients_mtx := some (.handler c)
            removed := s.removed ++ [c] }
        else none
    | .searching i =>
        if i < s.nclients then
          if s.clients[i]? = some h.clntSock then some (s.goto c h (.shifting i))
          else some (s.goto c h (.searching (i + 1)))
        else some (s.goto c h .unlockRemove)
    | .shifting j =>
        if j + 1 < s.nclients then
          some { s.goto c h (.shifting (j + 1)) with clients := pull s.clients j }
        else some { s.goto c h .unlockRemove with nclients := s.nclients - 1 }
    | .unlockRemove => some { s.goto c h .close with clients_mtx := none }
    | .close =>
        some { s.goto c h .returned with fds := Function.update s.fds h.clntSock none }
    | .returned => none

/-- `len = strlen(buf)`, and the newline at the end is cut off. -/
def stripped (buf : List Byte) : List Byte :=
  if (cstr buf).getLast? = some newline then (cstr buf).dropLast else cstr buf

theorem stripped_eq_filter {buf : List Byte} (nul_free : 0 ∉ buf)
    (single : newline ∉ buf.dropLast) : stripped buf = buf.filter (· ≠ newline) := by
  rw [stripped, cstr_of_nul_free nul_free, Lib.Lines.filter_newline single]

/-- The next step of `ServerSendThread` when it is not in `send`. -/
def runSender (s : State) : Option State :=
  match s.sender with
  | .fgets =>
      match Lib.Lines.fgets RCVBUFSIZE s.stdin with
      | none => some { s with sender := .returned }
      | some (piece, rest) =>
          if stripped piece = [] then some { s with stdin := rest }
          else some { s with stdin := rest, sender := .lockBroadcast (stripped piece) }
  | .lockBroadcast buf =>
      if s.clients_mtx = none then
        some { s with sender := .broadcasting buf 0, clients_mtx := some .sender }
      else none
  | .broadcasting _ i =>
      if i < s.nclients then none else some { s with sender := .unlockBroadcast }
  | .unlockBroadcast => some { s with sender := .fgets, clients_mtx := none }
  | .returned => none

/-- `send(clients[i], buf, len, 0)` takes so many bytes, none if it fails, and nobody minds. -/
def broadcast (s : State) (taken : ℕ) : Option State :=
  match s.sender with
  | .broadcasting buf i =>
      if i < s.nclients ∧ taken ≤ buf.length then
        s.clients[i]?.map fun fd =>
          { s with
            sender := .broadcasting buf (i + 1)
            stream := put s.fds s.stream fd (buf.take taken) }
      else none
  | _ => none

inductive Action
  | accept (clntSock : ℤ)
  | main
  | createFails
  | recv (c : ConnId) (got : List Byte)
  | recvFails (c : ConnId)
  | send (c : ConnId) (taken : ℕ)
  | handler (c : ConnId)
  | sender
  | broadcast (taken : ℕ)
deriving DecidableEq

def step (s : State) (a : Action) : Option State :=
  if s.died = none then
    match a with
    | .accept clntSock => accept s clntSock
    | .main => runMain s
    | .createFails => createFails s
    | .recv c got => recv s c got
    | .recvFails c => recvFails s c
    | .send c taken => send s c taken
    | .handler c => runHandler s c
    | .sender => runSender s
    | .broadcast taken => broadcast s taken
  else none

end SocketChat.TestCode.BroadcastChat.Model
