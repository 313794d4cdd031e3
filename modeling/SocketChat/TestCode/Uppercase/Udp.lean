/- SocketChat/TestCode/Uppercase/Udp
   digest: udp_echo_uppercase_server.c and its clients, on a network that loses and doubles. -/

import Mathlib.Data.List.Induction
import SocketChat.Lib.CString
import SocketChat.Lib.Responder

set_option autoImplicit false
set_option relaxedAutoImplicit false

namespace SocketChat.TestCode.Uppercase.Udp

open SocketChat.Lib.CString
open SocketChat.Lib.Responder
open SocketChat.Lib.Runs

def MAX_BUFFER_SIZE : ℕ := 2048

/-- `toupper` in the C locale. -/
def toupper (c : Byte) : Byte := if 97 ≤ c ∧ c ≤ 122 then c - 32 else c

/-- `buffer[i] = toupper(buffer[i])` for each `i` below a bound. -/
def uppercase (buffer : List Byte) : ℕ → List Byte
  | 0 => buffer
  | i + 1 => (uppercase buffer i).modify i toupper

/-- The buffer with what lies behind it on the stack, the indices that have been written, and what
has been printed. -/
structure Server where
  buffer : List Byte
  written : List ℕ
  printed : List Byte
deriving DecidableEq

/-- The body of the loop, for a datagram from a client whose address and port print as `shown`; with
what `sendto` is given to send back. -/
def Server.serve (s : Server) (shown datagram : List Byte) : Server × List Byte :=
  let got := datagram.take MAX_BUFFER_SIZE
  let n := got.length
  let buffer := storeAt (overwrite s.buffer got) n [0]
  let reply := uppercase buffer n
  ({ buffer := reply
     written := s.written ++ List.range n ++ [n]
     printed := s.printed ++
       lit "Received from ".toList ++ shown ++ lit " -> Message: ".toList ++ cstr buffer ++
       lit ['\n'] ++
       lit "Sent reply to ".toList ++ shown ++ lit " -> Message: ".toList ++ cstr reply ++
       lit ['\n'] },
    reply.take n)

def message : List Byte := lit "hello, this is a udp test!".toList

/-- Where `main` of the client stands once its socket is open; `exit` in the midst is a failure. -/
inductive Point
  | sendto
  | recvfrom
  | returned
  | failed
deriving DecidableEq

structure Client where
  point : Point
  buffer : List Byte
  printed : List Byte
deriving DecidableEq

def Client.started (stack : List Byte) : Client := ⟨.sendto, stack, []⟩

def Client.sendto (k : Client) : Option (Client × Option (List Byte)) :=
  if k.point = .sendto then
    some ({ k with
      point := .recvfrom
      printed := k.printed ++ lit "Message sent to server: ".toList ++ message ++ lit ['\n'] },
      some message)
  else none

def Client.recvfrom (k : Client) (datagram : List Byte) : Option Client :=
  if k.point = .recvfrom then
    let got := datagram.take MAX_BUFFER_SIZE
    let buffer := storeAt (overwrite k.buffer got) got.length [0]
    some {
      point := .returned
      buffer := buffer
      printed := k.printed ++ lit "Reply from server: ".toList ++ cstr buffer ++ lit ['\n'] }
  else none

def Client.recvfromFails (k : Client) : Option Client :=
  if k.point = .recvfrom then some { k with point := .failed } else none

variable {α : Type} [DecidableEq α]

/-- The server goes on when `recvfrom` fails, and its clients do not. -/
def protocol (shown : α → List Byte) : Protocol α (List Byte) Server Client where
  serve := fun s a datagram =>
    let served := s.serve (shown a) datagram
    some (served.1, some served.2)
  serveFails := some
  ask := Client.sendto
  get := Client.recvfrom
  getFails := Client.recvfromFails

abbrev State (α : Type) := Net α (List Byte) Server Client

def init (stack : List Byte) (clients : α → Option (List Byte)) : State α where
  server := ⟨stack, [], []⟩
  clients := fun a => (clients a).map Client.started
  asked := []
  answered := []

section Loop

private theorem modify_at (front : List Byte) (c : Byte) (back : List Byte) :
    (front ++ c :: back).modify front.length toupper = front ++ toupper c :: back := by
  induction front with
  | nil => rfl
  | cons b front ih => exact congrArg (b :: ·) ih

private theorem uppercase_append (front back : List Byte) :
    uppercase (front ++ back) front.length = front.map toupper ++ back := by
  induction front using List.reverseRecOn generalizing back with
  | nil => rfl
  | append_singleton front c ih =>
    have at_c := modify_at (front.map toupper) c back
    rw [List.length_map] at at_c
    rw [List.length_append, List.length_singleton, uppercase, List.append_assoc,
      List.singleton_append, ih, at_c, List.map_append, List.append_assoc]
    rfl

theorem take_uppercase (buffer got : List Byte) :
    (uppercase (storeAt (overwrite buffer got) got.length [0]) got.length).take got.length =
      got.map toupper := by
  have stored : storeAt (overwrite buffer got) got.length [0] =
      got ++ overwrite (buffer.drop got.length) [0] := by
    rw [storeAt, overwrite, List.take_left, List.drop_left]
  rw [stored, uppercase_append]
  apply List.take_left'
  exact List.length_map _

end Loop

section Server

variable (s : Server) (shown datagram : List Byte)

private theorem serve_answers : (s.serve shown datagram).2 =
    (datagram.take MAX_BUFFER_SIZE).map toupper :=
  take_uppercase s.buffer (datagram.take MAX_BUFFER_SIZE)

end Server

def Printed (k : Client) : Prop :=
  match k.point with
  | .sendto => k.printed = []
  | .recvfrom => k.printed = lit "Message sent to server: hello, this is a udp test!\n".toList
  | .returned => k.printed = lit "Message sent to server: hello, this is a udp test!\n".toList ++
      lit "Reply from server: HELLO, THIS IS A UDP TEST!\n".toList
  | .failed => True

private theorem message_in_capitals :
    ((message.take MAX_BUFFER_SIZE).map toupper).take MAX_BUFFER_SIZE =
    lit "HELLO, THIS IS A UDP TEST!".toList := by
  decide +kernel

omit [DecidableEq α] in
private theorem keeps (shown : α → List Byte) :
    Keeps (protocol shown) (fun d => (d.take MAX_BUFFER_SIZE).map toupper)
      (fun _ k => Printed k) (fun _ d => d = message) where
  answers := by
    intro s a d s' r served
    obtain ⟨_, same⟩ := Prod.mk.inj (Option.some.inj served)
    rw [← Option.some.inj same]
    exact serve_answers s (shown a) d
  asks := by
    intro a k k' d before asked
    simp only [protocol, Client.sendto, Option.ite_none_right_eq_some, Option.some.injEq,
      Prod.mk.injEq] at asked
    obtain ⟨here, rfl, rfl⟩ := asked
    rw [Printed, here] at before
    refine ⟨?_, fun q sent => (Option.some.inj sent).symm⟩
    change k.printed ++ _ ++ _ ++ _ = _
    rw [before]
    decide +kernel
  gets := by
    rintro a k k' d before rfl got
    simp only [protocol, Client.recvfrom, Option.ite_none_right_eq_some, Option.some.injEq] at got
    obtain ⟨here, rfl⟩ := got
    rw [Printed, here] at before
    change k.printed ++ _ ++ _ ++ _ = _
    have line : lit "Reply from server: ".toList ++
        (cstr (lit "HELLO, THIS IS A UDP TEST!".toList) ++ lit ['\n']) =
          lit "Reply from server: HELLO, THIS IS A UDP TEST!\n".toList := by
      decide +kernel
    rw [message_in_capitals, before, storeAt_overwrite, cstr_overwrite, List.append_assoc,
      List.append_assoc, line]
  fails := by
    intro a k k' before failed
    simp only [protocol, Client.recvfromFails, Option.ite_none_right_eq_some,
      Option.some.injEq] at failed
    obtain ⟨_, rfl⟩ := failed
    trivial

/-- Whatever the network delivers, again or never, and whoever else sends the server anything, of
any length: everything that the server sends back is what somebody there has sent, cut to the buffer
and in capitals, with nothing of what the buffer held before; and a client that gets to its end has
printed its own message in capitals. -/
theorem answers_in_capitals (shown : α → List Byte) (stack : List Byte)
    (clients : α → Option (List Byte)) {m : State α}
    (run : Reach (step (protocol shown)) (init stack clients) m) :
    (∀ e ∈ m.answered, ∃ d, (e.1, d) ∈ m.asked ∧ e.2 = (d.take MAX_BUFFER_SIZE).map toupper) ∧
    ∀ a k, m.clients a = some k → k.point = .returned →
      k.printed = lit "Message sent to server: hello, this is a udp test!\n".toList ++
        lit "Reply from server: HELLO, THIS IS A UDP TEST!\n".toList := by
  have start : ∀ a k, (clients a).map Client.started = some k → Printed k := by
    intro a k there
    obtain ⟨_, _, rfl⟩ := Option.map_eq_some_iff.mp there
    rfl
  have kept := kept_run (keeps shown) start run
  refine ⟨kept.answered, fun a k there done => ?_⟩
  have printed := kept.clients a k there
  rw [Printed, done] at printed
  exact printed

/-- Two clients, and somebody else who sends the server a word; the second client is answered
first, and the datagram of the first one is delivered twice. -/
def twoClients (a : ℕ) : Option (List Byte) := if a = 1 ∨ a = 2 then some [] else none

def crowded : List (Action ℕ (List Byte)) :=
  [.stranger 7 (lit ['a', 'B', '1']), .ask 1, .ask 2, .serve 0, .serve 2, .serve 1, .serve 1,
    .get 1, .get 3]

theorem two_in_capitals : ∃ m, Reach (step (protocol fun _ : ℕ => [])) (init [] twoClients) m ∧
    (7, lit ['A', 'B', '1']) ∈ m.answered ∧
    (∀ e ∈ m.answered, ∃ d, (e.1, d) ∈ m.asked ∧ e.2 = (d.take MAX_BUFFER_SIZE).map toupper) ∧
    ∃ k, m.clients 1 = some k ∧
      k.printed = lit "Message sent to server: hello, this is a udp test!\n".toList ++
        lit "Reply from server: HELLO, THIS IS A UDP TEST!\n".toList := by
  have shown : (exec (step (protocol fun _ : ℕ => [])) (init [] twoClients) crowded).map
      (fun m => (m.answered[0]?, (m.clients 1).map Client.point)) =
      some (some (7, lit ['A', 'B', '1']), some .returned) := by
    decide +kernel
  obtain ⟨m, taken, ends⟩ := Option.map_eq_some_iff.mp shown
  obtain ⟨first, there⟩ := Prod.mk.inj ends
  obtain ⟨k, known, done⟩ := Option.map_eq_some_iff.mp there
  have run : Reach (step (protocol fun _ : ℕ => [])) (init [] twoClients) m := ⟨crowded, taken⟩
  obtain ⟨answers, clients⟩ := answers_in_capitals _ [] twoClients run
  exact ⟨m, run, List.mem_of_getElem? first, answers, k, known, clients 1 k known done⟩

def Inside (m : State α) : Prop := ∀ i ∈ m.server.written, i < MAX_BUFFER_SIZE

def Short (m : State α) : Action α (List Byte) → Prop
  | .serve i => ∀ e ∈ m.asked[i]?, e.2.length < MAX_BUFFER_SIZE
  | _ => True

private theorem inside_step (shown : α → List Byte) (m : State α) (a : Action α (List Byte))
    (m' : State α) (inside : Inside m) (taken : step (protocol shown) m a = some m') :
    Inside m' ↔ Short m a := by
  cases a with
  | ask a =>
    obtain ⟨_, _, asking⟩ := Option.bind_eq_some_iff.mp taken
    obtain ⟨_, _, rfl⟩ := Option.map_eq_some_iff.mp asking
    exact iff_of_true inside trivial
  | stranger a d =>
    simp only [step, Option.ite_none_right_eq_some, Option.some.injEq] at taken
    obtain ⟨_, rfl⟩ := taken
    exact iff_of_true inside trivial
  | serve i =>
    obtain ⟨e, there, serving⟩ := Option.bind_eq_some_iff.mp taken
    obtain ⟨out, served, rfl⟩ := Option.map_eq_some_iff.mp serving
    obtain rfl := Option.some.inj served
    have bound : (e.2.take MAX_BUFFER_SIZE).length < MAX_BUFFER_SIZE ↔
        e.2.length < MAX_BUFFER_SIZE := by
      rw [List.length_take]
      omega
    rw [Short, there]
    simp only [Option.mem_def, Option.some.injEq, forall_eq']
    rw [← bound, ← range_zero_inside]
    change (∀ i ∈ m.server.written ++ List.range _ ++ [_], i < MAX_BUFFER_SIZE) ↔ _
    rw [List.append_assoc]
    exact ⟨fun all i new => all i (List.mem_append_right _ new),
      fun new i listed => (List.mem_append.mp listed).elim (inside i) (new i)⟩
  | serveFails =>
    obtain rfl := Option.some.inj taken
    exact iff_of_true inside trivial
  | get i =>
    obtain ⟨_, _, getting⟩ := Option.bind_eq_some_iff.mp taken
    obtain ⟨_, _, got⟩ := Option.bind_eq_some_iff.mp getting
    obtain ⟨_, _, rfl⟩ := Option.map_eq_some_iff.mp got
    exact iff_of_true inside trivial
  | getFails a =>
    obtain ⟨_, _, failing⟩ := Option.bind_eq_some_iff.mp taken
    obtain ⟨_, _, rfl⟩ := Option.map_eq_some_iff.mp failing
    exact iff_of_true inside trivial

/-- The server stays inside of its buffer in a run exactly when no datagram fills the buffer. -/
theorem written_inside_iff (shown : α → List Byte) (stack : List Byte)
    (clients : α → Option (List Byte)) {as : List (Action α (List Byte))} {m : State α}
    (taken : exec (step (protocol shown)) (init stack clients) as = some m) :
    Always (step (protocol shown)) Inside (init stack clients) as ↔
      Guarded (step (protocol shown)) Short (init stack clients) as :=
  always_iff_guarded (inside_step shown)
    (fun _ nothing => absurd nothing List.not_mem_nil) taken

theorem full_datagram_overruns : ∃ m,
    exec (step (protocol fun _ : ℕ => [])) (init [] twoClients)
      [.stranger 7 (List.replicate 2048 97), .serve 0] = some m ∧
    ¬Always (step (protocol fun _ : ℕ => [])) Inside (init [] twoClients)
      [.stranger 7 (List.replicate 2048 97), .serve 0] := by
  have shown : (exec (step (protocol fun _ : ℕ => [])) (init [] twoClients)
      [.stranger 7 (List.replicate 2048 97), .serve 0]).isSome := by
    decide +kernel
  obtain ⟨m, taken⟩ := Option.isSome_iff_exists.mp shown
  refine ⟨m, taken, fun always => ?_⟩
  have short := (written_inside_iff _ [] twoClients taken).mp always
  have full := (short.2 _ rfl).1 (7, List.replicate 2048 97) rfl
  rw [List.length_replicate] at full
  exact Nat.lt_irrefl _ full

end SocketChat.TestCode.Uppercase.Udp
