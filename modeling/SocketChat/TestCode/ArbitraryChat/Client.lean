/- SocketChat/TestCode/ArbitraryChat/Client
   digest: The two threads of tcp_chat_arbitrary_client.c, and what they keep of a stream. -/

import SocketChat.Lib.CString
import SocketChat.Lib.Lines

set_option autoImplicit false
set_option relaxedAutoImplicit false

namespace SocketChat.TestCode.ArbitraryChat.Client

open SocketChat.Lib.CString
open SocketChat.Lib.Lines (fgets fgets_append)

def RCVBUFSIZE : ℕ := 256

/-- What is left of the standard input, the line that `send_thread` has read and not sent yet, the
chunks that `receive_thread` has received, and what the process has printed. `exited` tells whether
it is gone, by `exit` or in `DieWithError`. -/
structure Process where
  stdin : List Byte
  buffer : Option (List Byte)
  received : List (List Byte)
  printed : List Byte
  exited : Bool
deriving DecidableEq

def connected (stdin : List Byte) : Process :=
  ⟨stdin, none, [], lit "Connected to server. You can start sending messages.\n".toList, false⟩

/-- `fgets` gives `send_thread` a line, or a part of one. -/
def Process.read (cl : Process) : Option Process :=
  if cl.exited = false ∧ cl.buffer = none then
    (fgets RCVBUFSIZE cl.stdin).map fun next =>
      { cl with buffer := some next.1, stdin := next.2 }
  else none

/-- `send` takes `strlen` bytes of the buffer. -/
def Process.send (cl : Process) : Option (Process × List Byte) :=
  if cl.exited = false then cl.buffer.map fun buffer => ({ cl with buffer := none }, cstr buffer)
  else none

def Process.sendFails (cl : Process) : Option Process :=
  if cl.exited = false ∧ cl.buffer.isSome = true then some { cl with exited := true } else none

def Process.recv (cl : Process) (got : List Byte) : Option Process :=
  if cl.exited = false ∧ got ≠ [] ∧ got.length ≤ RCVBUFSIZE - 1 then
    some { cl with
      received := cl.received ++ [got]
      printed := cl.printed ++ lit "Received: ".toList ++ cstr (got ++ [0]) }
  else none

/-- `recv` returns 0: the process exits, whatever `send_thread` is about. -/
def Process.ends (cl : Process) : Option Process :=
  if cl.exited = false then
    some { cl with
      printed := cl.printed ++ lit "Connection closed by server.\n".toList, exited := true }
  else none

def Process.recvFails (cl : Process) : Option Process :=
  if cl.exited = false then some { cl with exited := true } else none

def Process.killed (cl : Process) : Process := { cl with exited := true }

def Process.unsent (cl : Process) : List Byte := cl.buffer.getD [] ++ cl.stdin

section Calls

variable {cl cl' : Process} {out got : List Byte}

theorem read_unsent (taken : cl.read = some cl') :
    cl'.unsent = cl.unsent ∧ cl'.received = cl.received ∧ cl'.exited = cl.exited := by
  simp only [Process.read, Option.ite_none_right_eq_some] at taken
  obtain ⟨⟨_, idle⟩, typed⟩ := taken
  obtain ⟨⟨piece, rest⟩, line, rfl⟩ := Option.map_eq_some_iff.mp typed
  refine ⟨?_, rfl, rfl⟩
  rw [Process.unsent, Process.unsent, idle]
  exact fgets_append line

theorem send_unsent (nul_free : 0 ∉ cl.unsent) (taken : cl.send = some (cl', out)) :
    out ++ cl'.unsent = cl.unsent ∧ cl'.received = cl.received := by
  simp only [Process.send, Option.ite_none_right_eq_some] at taken
  obtain ⟨_, sent⟩ := taken
  obtain ⟨buffer, held, same⟩ := Option.map_eq_some_iff.mp sent
  obtain ⟨rfl, rfl⟩ := Prod.mk.inj same
  have text : cl.unsent = buffer ++ cl.stdin := by
    rw [Process.unsent, held]
    rfl
  rw [text] at nul_free ⊢
  refine ⟨?_, rfl⟩
  rw [cstr_of_nul_free fun inside => nul_free (List.mem_append_left _ inside)]
  rfl

end Calls

/-- What a process that was sent no NUL has printed: every chunk behind a word of its own, and a
farewell if the server has closed the connection. -/
def Shown (cl : Process) : Prop :=
  ∃ farewell, cl.printed = lit "Connected to server. You can start sending messages.\n".toList ++
      cl.received.flatMap (fun got => lit "Received: ".toList ++ got) ++ farewell ∧
    (farewell = [] ∨ cl.exited = true ∧ farewell = lit "Connection closed by server.\n".toList)

section Shown

variable {cl cl' : Process} {out got : List Byte}

theorem shown_connected (stdin : List Byte) : Shown (connected stdin) := ⟨[], rfl, .inl rfl⟩

private theorem printed_of_running (shown : Shown cl) (running : cl.exited = false) :
    cl.printed = lit "Connected to server. You can start sending messages.\n".toList ++
      cl.received.flatMap fun got => lit "Received: ".toList ++ got := by
  obtain ⟨farewell, whole, rfl | ⟨gone, _⟩⟩ := shown
  · rw [whole, List.append_nil]
  · rw [running] at gone
    cases gone

private theorem shown_still (shown : Shown cl) (printed : cl'.printed = cl.printed)
    (received : cl'.received = cl.received) (gone : cl.exited = true → cl'.exited = true) :
    Shown cl' := by
  obtain ⟨farewell, whole, rest⟩ := shown
  refine ⟨farewell, by rw [printed, received, whole], ?_⟩
  exact rest.imp_right fun ended => ⟨gone ended.1, ended.2⟩

theorem shown_read (shown : Shown cl) (taken : cl.read = some cl') : Shown cl' := by
  simp only [Process.read, Option.ite_none_right_eq_some] at taken
  obtain ⟨_, typed⟩ := taken
  obtain ⟨_, _, rfl⟩ := Option.map_eq_some_iff.mp typed
  exact shown_still shown rfl rfl id

theorem shown_send (shown : Shown cl) (taken : cl.send = some (cl', out)) : Shown cl' := by
  simp only [Process.send, Option.ite_none_right_eq_some] at taken
  obtain ⟨_, sent⟩ := taken
  obtain ⟨_, _, same⟩ := Option.map_eq_some_iff.mp sent
  obtain ⟨rfl, _⟩ := Prod.mk.inj same
  exact shown_still shown rfl rfl id

theorem shown_killed (shown : Shown cl) : Shown cl.killed :=
  shown_still shown rfl rfl fun _ => rfl

theorem shown_sendFails (shown : Shown cl) (taken : cl.sendFails = some cl') : Shown cl' := by
  simp only [Process.sendFails, Option.ite_none_right_eq_some, Option.some.injEq] at taken
  obtain ⟨_, rfl⟩ := taken
  exact shown_killed shown

theorem shown_recvFails (shown : Shown cl) (taken : cl.recvFails = some cl') : Shown cl' := by
  simp only [Process.recvFails, Option.ite_none_right_eq_some, Option.some.injEq] at taken
  obtain ⟨_, rfl⟩ := taken
  exact shown_killed shown

theorem shown_recv (shown : Shown cl) (nul_free : 0 ∉ got) (taken : cl.recv got = some cl') :
    Shown cl' := by
  simp only [Process.recv, Option.ite_none_right_eq_some, Option.some.injEq] at taken
  obtain ⟨⟨running, _⟩, rfl⟩ := taken
  refine ⟨[], ?_, .inl rfl⟩
  change cl.printed ++ _ ++ cstr (got ++ [0]) = _ ++ (cl.received ++ [got]).flatMap _ ++ []
  rw [printed_of_running shown running, cstr_snoc_zero, cstr_of_nul_free nul_free,
    List.flatMap_append, List.flatMap_singleton, List.append_nil]
  simp only [List.append_assoc]

theorem shown_ends (shown : Shown cl) (taken : cl.ends = some cl') : Shown cl' := by
  simp only [Process.ends, Option.ite_none_right_eq_some, Option.some.injEq] at taken
  obtain ⟨running, rfl⟩ := taken
  refine ⟨_, ?_, .inr ⟨rfl, rfl⟩⟩
  change cl.printed ++ _ = _
  rw [printed_of_running shown running]

end Shown

end SocketChat.TestCode.ArbitraryChat.Client
