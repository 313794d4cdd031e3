/- SocketChat/Socket/Model
   digest: The chat loops of Socket_Server.c and Socket_Client.c. -/

import SocketChat.Lib.Lines
import SocketChat.Lib.Sides

set_option autoImplicit false
set_option relaxedAutoImplicit false

namespace SocketChat.Socket.Model

open SocketChat.Lib.CString
open SocketChat.Lib.Sides

/-- The size of `buffer` in both programs; `fgets` and `read` are given one less. -/
def BUFFER_SIZE : ℕ := 256

/-- Before `fgets`, before `write`, before `read`, out of the loop after an own `Bye`, or ended
by `error`. -/
inductive Point
  | fgets
  | write
  | read
  | left
  | died
deriving DecidableEq

/-- The last two fields are the messages written and the texts printed. -/
structure Party where
  point : Point
  buffer : List Byte
  stdin : List Byte
  said : List (List Byte)
  shown : List (List Byte)

abbrev State := Duo Party (List Byte)

/-- The client talks first; from there on the two loops are the same. -/
def start : Side → Point
  | .client => .fgets
  | .server => .read

/-- `bzero(buffer, 256)`. -/
def cleared : List Byte := List.replicate BUFFER_SIZE 0

def init (stdin : Side → List Byte) : State where
  party := fun who =>
    { point := start who, buffer := cleared, stdin := stdin who, said := [], shown := [] }
  inbox := fun _ => []

/-- `strncmp("Bye", buffer, 3) == 0`. -/
def isBye (buffer : List Byte) : Bool := (lit ['B', 'y', 'e']).isPrefixOf (cstr buffer)

/-- At the end of the input `fgets` leaves the buffer as `bzero` left it. -/
def Party.fgets (p : Party) : Party :=
  match Lib.Lines.fgets (BUFFER_SIZE - 1) p.stdin with
  | none => { p with point := .write, buffer := cleared }
  | some (piece, rest) =>
      { p with point := .write, buffer := overwrite cleared (piece ++ [0]), stdin := rest }

/-- `write` of `strlen(buffer)` bytes, and the test whether this party leaves. -/
def Party.write (p : Party) : Party :=
  { p with
    point := if isBye p.buffer then .left else .read
    said := p.said ++ [cstr p.buffer] }

/-- `read` that returned these bytes, none of them at the end of the stream, and `printf`. -/
def Party.read (p : Party) (chunk : List Byte) : Party :=
  let buffer := overwrite cleared chunk
  { p with point := .fgets, buffer := buffer, shown := p.shown ++ [cstr buffer] }

theorem point_write_of_empty {p : Party} (empty : cstr p.buffer = []) :
    p.write.point = .read := by
  have silent : isBye p.buffer = false := by
    rw [isBye, empty]
    rfl
  rw [Party.write, silent]
  rfl

def Point.inside : Point → Bool
  | left => false
  | died => false
  | _ => true

/-- `read` takes `k` bytes, or `readEnd` none at the end of the stream; `fail` is a `read` or a
`write` with a negative result. -/
inductive Action
  | fgets (who : Side)
  | write (who : Side)
  | read (who : Side) (k : ℕ)
  | readEnd (who : Side)
  | fail (who : Side)
deriving DecidableEq

def step (s : State) : Action → Option State
  | .fgets who =>
      if (s.party who).point = .fgets then some (s.setParty who (s.party who).fgets) else none
  | .write who =>
      if (s.party who).point = .write then
        some ((s.setParty who (s.party who).write).setInbox who.peer
          (s.inbox who.peer ++ cstr (s.party who).buffer))
      else none
  | .read who k =>
      if (s.party who).point = .read ∧ 0 < k ∧ k ≤ BUFFER_SIZE - 1 ∧ k ≤ (s.inbox who).length then
        some ((s.setParty who ((s.party who).read ((s.inbox who).take k))).setInbox who
          ((s.inbox who).drop k))
      else none
  | .readEnd who =>
      if (s.party who).point = .read ∧ (s.party who.peer).point.inside = false ∧
          s.inbox who = [] then
        some (s.setParty who ((s.party who).read []))
      else none
  | .fail who =>
      if (s.party who).point = .write ∨ (s.party who).point = .read then
        some (s.setParty who { s.party who with point := .died })
      else none

def Action.who : Action → Side
  | fgets who => who
  | write who => who
  | read who _ => who
  | readEnd who => who
  | fail who => who

inductive Moves (s : State) : Action → Party → Prop
  | fgets (who : Side) (ready : (s.party who).point = .fgets) :
      Moves s (.fgets who) (s.party who).fgets
  | write (who : Side) (ready : (s.party who).point = .write) :
      Moves s (.write who) (s.party who).write
  | read (who : Side) (k : ℕ) (ready : (s.party who).point = .read) :
      Moves s (.read who k) ((s.party who).read ((s.inbox who).take k))
  | readEnd (who : Side) (ready : (s.party who).point = .read) :
      Moves s (.readEnd who) ((s.party who).read [])
  | fail (who : Side) (ready : (s.party who).point = .write ∨ (s.party who).point = .read) :
      Moves s (.fail who) { s.party who with point := .died }

theorem moves_of_step {s t : State} {a : Action} (taken : step s a = some t) :
    Moves s a (t.party a.who) ∧ t.party a.who.peer = s.party a.who.peer := by
  cases a with
  | fgets who =>
    simp only [step, Option.ite_none_right_eq_some, Option.some.injEq] at taken
    obtain ⟨ready, rfl⟩ := taken
    rw [Action.who, Duo.party_setParty_self, Duo.party_setParty_peer]
    exact ⟨.fgets who ready, rfl⟩
  | write who =>
    simp only [step, Option.ite_none_right_eq_some, Option.some.injEq] at taken
    obtain ⟨ready, rfl⟩ := taken
    rw [Action.who, Duo.party_setInbox, Duo.party_setParty_self, Duo.party_setParty_peer]
    exact ⟨.write who ready, rfl⟩
  | read who k =>
    simp only [step, Option.ite_none_right_eq_some, Option.some.injEq] at taken
    obtain ⟨⟨ready, _⟩, rfl⟩ := taken
    rw [Action.who, Duo.party_setInbox, Duo.party_setParty_self, Duo.party_setParty_peer]
    exact ⟨.read who k ready, rfl⟩
  | readEnd who =>
    simp only [step, Option.ite_none_right_eq_some, Option.some.injEq] at taken
    obtain ⟨⟨ready, _⟩, rfl⟩ := taken
    rw [Action.who, Duo.party_setParty_self, Duo.party_setParty_peer]
    exact ⟨.readEnd who ready, rfl⟩
  | fail who =>
    simp only [step, Option.ite_none_right_eq_some, Option.some.injEq] at taken
    obtain ⟨ready, rfl⟩ := taken
    rw [Action.who, Duo.party_setParty_self, Duo.party_setParty_peer]
    exact ⟨.fail who ready, rfl⟩

end SocketChat.Socket.Model
