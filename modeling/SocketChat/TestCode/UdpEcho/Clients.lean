/- SocketChat/TestCode/UdpEcho/Clients
   digest: The UDP echo server with many clients, on a network that loses and doubles. -/

import SocketChat.Lib.Responder
import SocketChat.TestCode.UdpEcho.RoundTrip

set_option autoImplicit false
set_option relaxedAutoImplicit false

namespace SocketChat.TestCode.UdpEcho.Clients

open SocketChat.Lib.CString
open SocketChat.Lib.Responder
open SocketChat.Lib.Runs
open SocketChat.TestCode.UdpEcho.Model (Setup State ClientPoint ECHOMAX echoStringLen)
open SocketChat.TestCode.UdpEcho.RoundTrip (reply sentWord echo take_echo stored_eq cstr_stored
  echo_length_ne)

structure Client where
  setup : Setup
  state : State

def Client.started (c : Setup) : Client := ⟨c, Model.init c⟩

/-- The two calls of the loop of the server, for a datagram from a client with such an address. -/
def serve (c : Setup) (s : State) (datagram : List Byte) : Option (State × Option (List Byte)) :=
  (Model.serverRecvfrom c { s with toServer := [datagram], toClient := [] }).bind fun s =>
    (Model.serverSendto c s).map fun s => (s, s.toClient.head?)

def serveFails (s : State) : Option State :=
  if s.server = .recvfrom then some { s with server := .failed "recvfrom() failed" } else none

def Client.ask (k : Client) : Option (Client × Option (List Byte)) :=
  (Model.clientSendto k.setup { k.state with toServer := [] }).map fun s =>
    (⟨k.setup, s⟩, s.toServer.head?)

def Client.get (k : Client) (datagram : List Byte) : Option Client :=
  (Model.clientRecvfrom k.setup { k.state with toClient := [datagram] }).map fun s => ⟨k.setup, s⟩

def Client.getFails (k : Client) : Option Client :=
  if k.state.client = .recvfrom then
    some ⟨k.setup, { k.state with client := .failed "recvfrom() failed" }⟩
  else none

variable {α : Type} [DecidableEq α]

/-- What the server is started with, and the addresses as `inet_ntoa` writes them. -/
def protocol (c : Setup) (ip : α → List Byte) : Protocol α (List Byte) State Client where
  serve := fun s a datagram => serve { c with clientIP := ip a } s datagram
  serveFails := serveFails
  ask := Client.ask
  get := Client.get
  getFails := Client.getFails

abbrev Crowd (α : Type) := Net α (List Byte) State Client

def init (c : Setup) (users : α → Option Setup) : Crowd α where
  server := Model.init c
  clients := fun a => (users a).map Client.started
  asked := []
  answered := []

section Server

variable {c : Setup} {s t : State} {datagram answer : List Byte}

private theorem received_front
    (received : Model.serverRecvfrom c { s with toServer := [datagram], toClient := [] } = some t) :
    t.server = .sendto (datagram.take ECHOMAX).length ∧ t.toClient = [] ∧
      t.serverBuffer.take (datagram.take ECHOMAX).length = datagram.take ECHOMAX := by
  simp only [Model.serverRecvfrom] at received
  split at received
  · rename_i here arrived
    obtain ⟨rfl, rfl⟩ := List.cons.inj arrived
    obtain rfl := Option.some.inj received
    refine ⟨rfl, rfl, ?_⟩
    change (storeAt _ _ [0]).take _ = _
    rw [storeAt_overwrite, overwrite, List.append_assoc, List.take_left]
  · cases received

/-- What is sent is the front of the buffer, if the channel takes it. -/
theorem sent_front {n : ℕ} (here : s.server = .sendto n) (nothing : s.toClient = [])
    (sent : Model.serverSendto c s = some t) (head : t.toClient.head? = some answer) :
    answer = s.serverBuffer.take n := by
  have out : t.toClient = Model.deliver c.limit [] (s.serverBuffer.take n) := by
    simp only [Model.serverSendto, here, nothing] at sent
    split at sent
    · obtain rfl := Option.some.inj sent
      rfl
    · obtain rfl := Option.some.inj sent
      rfl
  rw [out, Model.deliver] at head
  split at head
  · exact (Option.some.inj head).symm
  · cases head

private theorem serve_answers (served : serve c s datagram = some (t, some answer)) :
    answer = datagram.take ECHOMAX := by
  obtain ⟨u, received, sent⟩ := Option.bind_eq_some_iff.mp served
  obtain ⟨v, replied, same⟩ := Option.map_eq_some_iff.mp sent
  obtain ⟨rfl, head⟩ := Prod.mk.inj same
  obtain ⟨here, nothing, front⟩ := received_front received
  rw [sent_front here nothing replied head, front]

end Server

def Printed (k : Client) : Prop :=
  match k.state.client with
  | .exited => k.state.printed = reply k.setup.echoString
  | .failed _ => True
  | _ => k.state.printed = []

/-- A client was started for its address, with a word whose length fits an `unsigned int`. -/
structure Sound (users : α → Option Setup) (a : α) (k : Client) : Prop where
  setup : users a = some k.setup
  short : k.setup.echoString.length < 2 ^ 32
  printed : Printed k

section Client

variable {users : α → Option Setup} {a : α} {k k' : Client} {d : Option (List Byte)}

omit [DecidableEq α] in
private theorem sound_ask (sound : Sound users a k) (asked : k.ask = some (k', d)) :
    Sound users a k' ∧ ∀ q ∈ d, ∃ c, users a = some c ∧ q = sentWord c := by
  obtain ⟨t, sent, same⟩ := Option.map_eq_some_iff.mp asked
  obtain ⟨rfl, rfl⟩ := Prod.mk.inj same
  simp only [Model.clientSendto] at sent
  split at sent
  · rename_i here
    obtain rfl := Option.some.inj sent
    have printed := sound.printed
    rw [Printed, here] at printed
    refine ⟨⟨sound.setup, sound.short, ?_⟩, fun q there => ⟨k.setup, sound.setup, ?_⟩⟩
    · unfold Printed
      dsimp only
      split
      · rename_i exited
        split at exited <;> cases exited
      · trivial
      · exact printed
    · change q ∈ (Model.deliver k.setup.limit [] (sentWord k.setup)).head? at there
      rw [Model.deliver] at there
      split at there
      · exact (Option.some.inj there).symm
      · cases there
  · cases sent

private theorem echo_of_whole {c : Setup} (short : c.echoString.length < 2 ^ 32)
    (whole : (echo c).length = echoStringLen c) : echo c = c.echoString := by
  have all : echoStringLen c = c.echoString.length := by
    rw [RoundTrip.echoStringLen_eq, Nat.mod_eq_of_lt short]
  have word : sentWord c = c.echoString := by
    rw [sentWord, all, List.take_length]
  have fits : echoStringLen c ≤ ECHOMAX :=
    Nat.not_lt.mp fun long => (echo_length_ne c).mpr long whole
  rw [echo, word]
  exact List.take_of_length_le (all ▸ fits)

omit [DecidableEq α] in
private theorem sound_get (sound : Sound users a k) (got : k.get (echo k.setup) = some k') :
    Sound users a k' := by
  obtain ⟨t, received, rfl⟩ := Option.map_eq_some_iff.mp got
  refine ⟨sound.setup, sound.short, ?_⟩
  simp only [Model.clientRecvfrom] at received
  split at received
  · rename_i here arrived
    obtain ⟨rfl, rfl⟩ := List.cons.inj arrived
    split at received
    · obtain rfl := Option.some.inj received
      trivial
    · rename_i whole
      obtain rfl := Option.some.inj received
      have printed := sound.printed
      rw [Printed, here] at printed
      change k.state.printed = [] at printed
      rw [take_echo] at whole
      change k.state.printed ++ lit "Received: ".toList ++ cstr (storeAt (overwrite
        k.state.echoBuffer ((echo k.setup).take ECHOMAX)) ((echo k.setup).take ECHOMAX).length
          [0]) ++ [Lib.Lines.newline] = reply k.setup.echoString
      rw [printed, take_echo, stored_eq, cstr_stored, echo_of_whole sound.short (not_not.mp whole)]
      rfl
  · cases received

omit [DecidableEq α] in
private theorem sound_getFails (sound : Sound users a k) (failed : k.getFails = some k') :
    Sound users a k' := by
  simp only [Client.getFails, Option.ite_none_right_eq_some, Option.some.injEq] at failed
  obtain ⟨_, rfl⟩ := failed
  exact ⟨sound.setup, sound.short, trivial⟩

end Client

omit [DecidableEq α] in
private theorem keeps (c : Setup) (ip : α → List Byte) (users : α → Option Setup) :
    Keeps (protocol c ip) (fun d => d.take ECHOMAX) (Sound users)
      (fun a d => ∃ k, users a = some k ∧ d = sentWord k) where
  answers := fun _ _ _ _ _ served => serve_answers served
  asks := fun _ _ _ _ sound asked => sound_ask sound asked
  gets := by
    rintro a k k' _ sound ⟨c, here, rfl⟩ got
    obtain rfl := Option.some.inj (sound.setup.symm.trans here)
    exact sound_get sound got
  fails := fun _ _ _ sound failed => sound_getFails sound failed

/-- Whatever the network delivers, again or never, and whoever else sends the server anything: all
that the server sends back is what somebody there has sent, as far as it fits into the buffer, with
nothing of what the buffer held before; and a client that ends well has printed its own word. -/
theorem words_come_back (c : Setup) (ip : α → List Byte) (users : α → Option Setup)
    (short : ∀ a k, users a = some k → k.echoString.length < 2 ^ 32) {m : Crowd α}
    (run : Reach (step (protocol c ip)) (init c users) m) :
    (∀ e ∈ m.answered, ∃ d, (e.1, d) ∈ m.asked ∧ e.2 = d.take ECHOMAX) ∧
    ∀ a k, m.clients a = some k → k.state.client = .exited →
      users a = some k.setup ∧ k.state.printed = reply k.setup.echoString := by
  have start : ∀ a k, (users a).map Client.started = some k → Sound users a k := by
    intro a k there
    obtain ⟨setup, here, rfl⟩ := Option.map_eq_some_iff.mp there
    exact ⟨here, short a setup here, rfl⟩
  have kept := kept_run (keeps c ip users) start run
  refine ⟨kept.answered, fun a k there done => ?_⟩
  have sound := kept.clients a k there
  have printed := sound.printed
  rw [Printed, done] at printed
  exact ⟨sound.setup, printed⟩

def word (text : List Char) (nul_free : 0 ∉ lit text) : Setup where
  echoString := lit text
  nul_free := nul_free
  stack := []
  serverStack := []
  clientIP := []
  limit := 65507

def unused : Setup := word [] (by decide)

def twoWords (a : ℕ) : Option Setup :=
  if a = 1 then some (word ['h', 'i'] (by decide))
  else if a = 2 then some (word ['h', 'o'] (by decide))
  else none

def echoedTwice : List (Action ℕ (List Byte)) :=
  [.ask 1, .ask 2, .serve 1, .serve 0, .serve 1, .get 1, .get 2]

theorem two_words_come_back : ∃ m,
    Reach (step (protocol unused fun _ : ℕ => [])) (init unused twoWords) m ∧
    ∃ k, m.clients 2 = some k ∧ k.state.printed = reply (lit ['h', 'o']) := by
  have shown : (exec (step (protocol unused fun _ : ℕ => []))
      (init unused twoWords) echoedTwice).map
        (fun m => (m.clients 2).map fun k => k.state.client) = some (some .exited) := by
    decide +kernel
  obtain ⟨m, taken, ends⟩ := Option.map_eq_some_iff.mp shown
  obtain ⟨k, known, done⟩ := Option.map_eq_some_iff.mp ends
  have short : ∀ a k, twoWords a = some k → k.echoString.length < 2 ^ 32 := by
    intro a k there
    unfold twoWords at there
    split at there
    · obtain rfl := Option.some.inj there
      decide
    · split at there
      · obtain rfl := Option.some.inj there
        decide
      · cases there
  obtain ⟨setup, printed⟩ :=
    (words_come_back _ _ twoWords short ⟨echoedTwice, taken⟩).2 2 k known done
  refine ⟨m, ⟨echoedTwice, taken⟩, k, known, printed.trans ?_⟩
  rw [← Option.some.inj setup]
  rfl

end SocketChat.TestCode.UdpEcho.Clients
