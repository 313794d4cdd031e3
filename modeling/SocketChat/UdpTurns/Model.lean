/- SocketChat/UdpTurns/Model
   digest: The turn-taking UDP chats of Test_Code and of MoreLearning/UDP_CHAT/TurnTaking. -/

import SocketChat.Lib.Lines
import SocketChat.Lib.Sides

set_option autoImplicit false
set_option relaxedAutoImplicit false

namespace SocketChat.UdpTurns.Model

open SocketChat.Lib.CString
open SocketChat.Lib.Sides

/-- What distinguishes the four programs: the size of the buffer, whether it is cleared
before `recvfrom`, whether a NUL is stored after what was received, whether the program looks
for `exit`, and whether it receives before it types. -/
structure Program where
  bufferSize : ℕ
  clears : Bool
  terminates : Bool
  exits : Bool
  waits : Bool

abbrev Programs := Side → Program

namespace TestCode

def MAX_BUFFER_SIZE : ℕ := 1024

def run_client : Program where
  bufferSize := MAX_BUFFER_SIZE
  clears := false
  terminates := true
  exits := true
  waits := false

def run_server : Program where
  bufferSize := MAX_BUFFER_SIZE
  clears := false
  terminates := true
  exits := true
  waits := true

def programs : Programs
  | .client => run_client
  | .server => run_server

end TestCode

namespace MoreLearning

def clientMain : Program where
  bufferSize := 256
  clears := true
  terminates := false
  exits := false
  waits := false

def serverMain : Program where
  bufferSize := 256
  clears := true
  terminates := false
  exits := false
  waits := true

def programs : Programs
  | .client => clientMain
  | .server => serverMain

end MoreLearning

inductive Chat
  | testCode
  | moreLearning

def Chat.programs : Chat → Programs
  | testCode => TestCode.programs
  | moreLearning => MoreLearning.programs

/-- Where a program stands. `sendto` keeps whether `fgets` returned a line, which no program
looks at; `first` is the `recvfrom` of a server before it has sent anything. -/
inductive Point
  | first
  | fgets
  | sendto (typed : Bool)
  | recvfrom
  | closed
deriving DecidableEq

/-- `buffer` is the memory from the buffer on; the last three fields are the texts printed,
and the payloads sent and received. -/
structure Party where
  point : Point
  buffer : List Byte
  stdin : List Byte
  shown : List (List Byte)
  sent : List (List Byte)
  received : List (List Byte)

/-- The datagrams held for a party stand in the order they were sent. -/
abbrev State := Duo Party (List (List Byte))

def Program.start (p : Program) (stack stdin : List Byte) : Party where
  point := if p.waits then .first else .fgets
  buffer := stack
  stdin := stdin
  shown := []
  sent := []
  received := []

def init (programs : Programs) (stack stdin : Side → List Byte) : State where
  party := fun who => (programs who).start (stack who) (stdin who)
  inbox := fun _ => []

/-- `strncmp(buffer, "exit", 4) == 0`. -/
def isExit (buffer : List Byte) : Bool := (lit ['e', 'x', 'i', 't']).isPrefixOf (cstr buffer)

/-- At the end of the input `fgets` leaves the buffer as it is. -/
def Program.fgets (p : Program) (s : Party) : Party :=
  match Lib.Lines.fgets p.bufferSize s.stdin with
  | none => { s with point := .sendto false }
  | some (piece, rest) =>
      { s with point := .sendto true, buffer := overwrite s.buffer (piece ++ [0]), stdin := rest }

/-- `sendto` of `strlen(buffer)` bytes, and the test whether this party leaves. -/
def Program.sendto (p : Program) (s : Party) : Party :=
  { s with
    point := if p.exits ∧ isExit s.buffer then .closed else .recvfrom
    sent := s.sent ++ [cstr s.buffer] }

/-- The memory after `recvfrom`: a datagram longer than the buffer is cut off, and the NUL is
stored at the number of bytes received. -/
def Program.store (p : Program) (buffer payload : List Byte) : List Byte :=
  let cleared := if p.clears then overwrite buffer (List.replicate p.bufferSize 0) else buffer
  let received := payload.take p.bufferSize
  overwrite cleared (if p.terminates then received ++ [0] else received)

/-- `recvfrom`, and the test whether the other party leaves, which the first one lacks. -/
def Program.recvfrom (p : Program) (s : Party) (payload : List Byte) : Party :=
  let buffer := p.store s.buffer payload
  { s with
    point := if s.point ≠ .first ∧ p.exits ∧ isExit buffer then .closed else .fgets
    buffer := buffer
    shown := s.shown ++ [cstr buffer]
    received := s.received ++ [payload] }

/-- A step of a party, which may be handed any datagram held for it, or one of the network,
which may lose a datagram or double it. -/
inductive Action
  | fgets (who : Side)
  | sendto (who : Side)
  | recvfrom (who : Side) (i : ℕ)
  | lose (who : Side) (i : ℕ)
  | duplicate (who : Side) (i : ℕ)

def Point.receiving : Point → Bool
  | first => true
  | recvfrom => true
  | _ => false

def step (programs : Programs) (s : State) : Action → Option State
  | .fgets who =>
      if (s.party who).point = .fgets then
        some (s.setParty who ((programs who).fgets (s.party who)))
      else none
  | .sendto who =>
      match (s.party who).point with
      | .sendto _ =>
          let text := cstr (s.party who).buffer
          some ((s.setParty who ((programs who).sendto (s.party who))).setInbox who.peer
            (s.inbox who.peer ++ [text]))
      | _ => none
  | .recvfrom who i =>
      if (s.party who).point.receiving then
        (s.inbox who)[i]?.map fun payload =>
          (s.setParty who ((programs who).recvfrom (s.party who) payload)).setInbox who
            ((s.inbox who).eraseIdx i)
      else none
  | .lose who i =>
      (s.inbox who)[i]?.map fun _ => s.setInbox who ((s.inbox who).eraseIdx i)
  | .duplicate who i =>
      (s.inbox who)[i]?.map fun payload => s.setInbox who (s.inbox who ++ [payload])

theorem sent_fgets (p : Program) (s : Party) : (p.fgets s).sent = s.sent := by
  unfold Program.fgets
  split <;> rfl

theorem point_fgets (p : Program) (s : Party) : ∃ typed, (p.fgets s).point = .sendto typed := by
  unfold Program.fgets
  split <;> exact ⟨_, rfl⟩

theorem point_sendto (p : Program) (s : Party) :
    (p.sendto s).point = .closed ∨ (p.sendto s).point = .recvfrom := by
  unfold Program.sendto
  dsimp only
  split
  · exact Or.inl rfl
  · exact Or.inr rfl

theorem point_recvfrom (p : Program) (s : Party) (payload : List Byte) :
    (p.recvfrom s payload).point = .closed ∨ (p.recvfrom s payload).point = .fgets := by
  unfold Program.recvfrom
  dsimp only
  split
  · exact Or.inl rfl
  · exact Or.inr rfl

def Action.party : Action → Option Side
  | fgets who => some who
  | sendto who => some who
  | recvfrom who _ => some who
  | lose _ _ => none
  | duplicate _ _ => none

inductive Moves (programs : Programs) (s : State) (a : Action) (who : Side) : Party → Prop
  | idle (rests : a.party ≠ some who) : Moves programs s a who (s.party who)
  | fgets (acts : a = .fgets who) (ready : (s.party who).point = .fgets) :
      Moves programs s a who ((programs who).fgets (s.party who))
  | sendto (typed : Bool) (acts : a = .sendto who) (ready : (s.party who).point = .sendto typed) :
      Moves programs s a who ((programs who).sendto (s.party who))
  | recvfrom (i : ℕ) (payload : List Byte) (acts : a = .recvfrom who i)
      (ready : (s.party who).point.receiving = true) (held : (s.inbox who)[i]? = some payload) :
      Moves programs s a who ((programs who).recvfrom (s.party who) payload)

theorem moves_of_step {programs : Programs} {s t : State} {a : Action}
    (taken : step programs s a = some t) (x : Side) : Moves programs s a x (t.party x) := by
  cases a with
  | fgets who =>
    simp only [step, Option.ite_none_right_eq_some, Option.some.injEq] at taken
    obtain ⟨ready, rfl⟩ := taken
    rw [Duo.party_setParty]
    split
    · subst x
      exact .fgets rfl ready
    · rename_i differ
      exact .idle fun acts => differ (Option.some.inj acts).symm
  | sendto who =>
    rw [step] at taken
    split at taken
    · rename_i typed ready
      obtain rfl := Option.some.inj taken
      rw [Duo.party_setInbox, Duo.party_setParty]
      split
      · subst x
        exact .sendto typed rfl ready
      · rename_i differ
        exact .idle fun acts => differ (Option.some.inj acts).symm
    · cases taken
  | recvfrom who i =>
    simp only [step, Option.ite_none_right_eq_some, Option.map_eq_some_iff] at taken
    obtain ⟨ready, payload, held, rfl⟩ := taken
    rw [Duo.party_setInbox, Duo.party_setParty]
    split
    · subst x
      exact .recvfrom i payload rfl ready held
    · rename_i differ
      exact .idle fun acts => differ (Option.some.inj acts).symm
  | lose who i =>
    obtain ⟨payload, _, rfl⟩ := Option.map_eq_some_iff.mp taken
    exact .idle fun acts => by cases acts
  | duplicate who i =>
    obtain ⟨payload, _, rfl⟩ := Option.map_eq_some_iff.mp taken
    exact .idle fun acts => by cases acts

end SocketChat.UdpTurns.Model
