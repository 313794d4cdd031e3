/- SocketChat/TestCode/ArbitraryChat/Chat
   digest: The clients and the server together: what everyone types, and what everyone is shown. -/

import Mathlib.Data.Int.Order.Basic
import SocketChat.Lib.Conversation
import SocketChat.TestCode.ArbitraryChat.Client
import SocketChat.TestCode.ArbitraryChat.Delivery
import SocketChat.TestCode.ArbitraryChat.Payload

set_option autoImplicit false
set_option relaxedAutoImplicit false

namespace SocketChat.TestCode.ArbitraryChat.Chat

open SocketChat.Lib
open SocketChat.Lib.CString
open SocketChat.Lib.Conversation
open SocketChat.Lib.Deliveries
open SocketChat.Lib.History
open SocketChat.Lib.Runs
open SocketChat.TestCode.ArbitraryChat.Client
open SocketChat.TestCode.ArbitraryChat.Delivery hiding Noted note start
open SocketChat.TestCode.ArbitraryChat.Model (ConnId SendCall BUFFER_SIZE)
open SocketChat.TestCode.ArbitraryChat.Payload
open SocketChat.TestCode.ArbitraryChat.Threads

/-- The server with its account, the clients, and what is on its way to the server and back. The
client of a connection is there before it is accepted. -/
structure System where
  server : Noted
  clients : ConnId → Process
  up : ConnId → List Byte
  down : ConnId → List Byte

def init (servSock : ℤ) (stdin : ConnId → List Byte) : System where
  server := start servSock
  clients := fun c => connected (stdin c)
  up := fun _ => []
  down := fun _ => []

inductive Action
  | server (a : Model.Action)
  | read (c : ConnId)
  | send (c : ConnId)
  | sendFails (c : ConnId)
  | recv (c : ConnId) (k : ℕ)
  | ends (c : ConnId)
  | recvFails (c : ConnId)
  | killed (c : ConnId)
deriving DecidableEq

/-- A `recv` of the server takes what has come first from the client; it gives nothing, or fails,
when the client is gone. -/
def Arrives (m : System) : Model.Action → Prop
  | .recv c got => if got = [] then (m.clients c).exited = true else got <+: m.up c
  | .depart c => (m.clients c).exited = true
  | _ => True

instance (m : System) (a : Model.Action) : Decidable (Arrives m a) := by
  cases a
  all_goals
    unfold Arrives
    infer_instance

def upAfter (up : ConnId → List Byte) : Model.Action → ConnId → List Byte
  | .recv c got => Function.update up c ((up c).drop got.length)
  | _ => up

/-- The bytes that a step of the server has sent to a client; a `send` that fails sends none. -/
def delivered (s t : Model.State) : Model.Action → ConnId → List Byte
  | .sendFails _, _ => []
  | _, d => ((t.sends.drop s.sends.length).filter fun sent => sent.reached = some d).flatMap
      fun sent => sent.call.message

def serve (m : System) (a : Model.Action) : Option System :=
  if Arrives m a then
    (remember Model.step note m.server a).map fun server =>
      { m with
        server := server
        up := upAfter m.up a
        down := fun d => m.down d ++ delivered m.server.1 server.1 a d }
  else none

def System.put (m : System) (c : ConnId) (cl : Process) : System :=
  { m with clients := Function.update m.clients c cl }

def closed : Model.Point → Bool
  | .returned => true
  | _ => false

/-- The server has closed the connection, or is gone, and all that it has sent has been received. -/
def Ended (m : System) (c : ConnId) : Prop :=
  (m.server.1.died.isSome = true ∨
    (m.server.1.threads c).any (fun th => closed th.point) = true) ∧ m.down c = []

instance (m : System) (c : ConnId) : Decidable (Ended m c) := inferInstanceAs (Decidable (_ ∧ _))

def step (m : System) : Action → Option System
  | .server a => serve m a
  | .read c => ((m.clients c).read).map (m.put c)
  | .send c =>
      ((m.clients c).send).map fun sent =>
        { m.put c sent.1 with up := Function.update m.up c (m.up c ++ sent.2) }
  | .sendFails c => ((m.clients c).sendFails).map (m.put c)
  | .recv c k =>
      ((m.clients c).recv ((m.down c).take k)).map fun cl =>
        { m.put c cl with down := Function.update m.down c ((m.down c).drop k) }
  | .ends c => if Ended m c then ((m.clients c).ends).map (m.put c) else none
  | .recvFails c => ((m.clients c).recvFails).map (m.put c)
  | .killed c => some (m.put c (m.clients c).killed)

/-- The descriptors of the standard streams are not closed, and no chunk fills the buffer of the
server, which would put the NUL outside of it. -/
def Roomy (_ : System) : Action → Prop
  | .server (.accept clntSock) => clntSock ≠ 0
  | .server (.recv _ got) => got.length < BUFFER_SIZE
  | _ => True

def System.stream (m : System) (d : ConnId) : List Byte :=
  (m.clients d).received.flatten ++ m.down d

def Typed (stdin : ConnId → List Byte) (m : System) (c : ConnId) : Prop :=
  ∃ rest, bytesOf m.server.2.received c ++ m.up c ++ rest = stdin c ∧
    ((m.clients c).exited = false → rest = (m.clients c).unsent)

section Server

variable {s t : Model.State} {notes : Notes} {a : Model.Action} {c : ConnId} {m : System}

private theorem waiting_of_locks {here next : Model.Point} (locks : Locks here next) :
    waiting here = none := by
  cases locks with
  | add => rfl
  | remove => rfl

private theorem waiting_of_unlocks {here next : Model.Point} (unlocks : Unlocks here next) :
    waiting here = none := by
  cases unlocks with
  | add => rfl
  | broadcast => rfl
  | remove => rfl

private theorem handed_of_passes {here next : Model.Point} {th : Model.Thread}
    (thread : s.threads c = some th) (same : th.point = here) (passes : Passes c a here next) :
    (note s a notes).handed = notes.handed := by
  cases passes with
  | ended => rfl
  | received got something fits => rfl
  | looped message i done =>
    rw [note_run thread (by rw [same]; rfl)]

private theorem senders_step (senders : notes.handed.map Prod.fst = s.said.map Said.sender)
    (taken : Model.step s a = some t) :
    (note s a notes).handed.map Prod.fst = t.said.map Said.sender := by
  cases (took_of_step taken).2 with
  | acceptFailed clntSock failed => exact senders
  | accepted clntSock valid fresh => exact senders
  | departed c => exact senders
  | passed _ c th point thread passes =>
    rw [handed_of_passes thread rfl passes]
    exact senders
  | locked c th point thread free locks =>
    rw [note_run thread (waiting_of_locks locks)]
    exact senders
  | unlocked c th point thread unlocks =>
    rw [note_run thread (waiting_of_unlocks unlocks)]
    exact senders
  | said c th message thread here free =>
    have taken_up : pending s.threads c = some message := by
      rw [pending_own thread, here]
      rfl
    change (notes.handed ++ ((pending s.threads c).map (Prod.mk c)).toList).map Prod.fst =
      (s.said ++ [_]).map Said.sender
    rw [taken_up, List.map_append, List.map_append, senders]
    rfl
  | sent c th message i thread here more =>
    rw [note_run thread (by rw [here]; rfl)]
    exact senders
  | added c th thread here =>
    rw [note_run thread (by rw [here]; rfl)]
    exact senders
  | removed c th thread here =>
    rw [note_run thread (by rw [here]; rfl)]
    exact senders
  | closed c th thread here =>
    rw [note_run thread (by rw [here]; rfl)]
    exact senders
  | sendFailed c th message i fd thread here found gone => exact senders

private theorem died_step (notes : Notes) (taken : Model.step s a = some t) (died : t.died ≠ none)
    (d : ConnId) :
    (note s a notes).handed = notes.handed ∧ delivered s t a d = [] := by
  obtain ⟨alive, took⟩ := took_of_step taken
  cases took with
  | acceptFailed clntSock failed =>
    refine ⟨rfl, ?_⟩
    change ((s.sends.drop s.sends.length).filter _).flatMap _ = []
    rw [List.drop_length]
    rfl
  | sendFailed c th message i fd thread here found gone => exact ⟨rfl, rfl⟩
  | _ => exact absurd alive died

private theorem sends_prefix (taken : Model.step s a = some t) : s.sends <+: t.sends := by
  cases (took_of_step taken).2 with
  | sent c th message i thread here more => exact List.prefix_append ..
  | sendFailed c th message i fd thread here found gone => exact List.prefix_append ..
  | _ => exact List.prefix_rfl

private theorem died_of_sendFails (taken : Model.step s (.sendFails c) = some t) :
    t.died ≠ none := by
  generalize moving : Model.Action.sendFails c = a at taken
  cases (took_of_step taken).2 with
  | sendFailed c th message i fd thread here found gone => exact Option.some_ne_none _
  | passed _ c th point thread passes =>
    subst moving
    cases passes
  | _ => cases moving

private theorem nonneg_of_alive {clntSock : ℤ} (taken : Model.step s (.accept clntSock) = some t)
    (alive : t.died = none) : 0 ≤ clntSock := by
  generalize moving : Model.Action.accept clntSock = a at taken
  cases (took_of_step taken).2 with
  | acceptFailed _ failed => cases alive
  | accepted _ valid fresh =>
    cases moving
    exact valid
  | passed _ c th point thread passes =>
    subst moving
    cases passes
  | _ => cases moving

private theorem smooth_of_alive (roomy : Roomy m (.server a)) (taken : Model.step s a = some t)
    (alive : t.died = none) : Smooth s a := by
  cases a with
  | accept clntSock =>
    have nonneg := nonneg_of_alive taken alive
    have other : clntSock ≠ 0 := roomy
    exact lt_iff_le_and_ne.mpr ⟨nonneg, other.symm⟩
  | sendFails c => exact absurd alive (died_of_sendFails taken)
  | depart c => trivial
  | recv c got => trivial
  | run c => trivial

private theorem delivered_sentTo (taken : Model.step s a = some t) (alive : t.died = none)
    (d : ConnId) :
    sentTo SendCall.message t.sends d = sentTo SendCall.message s.sends d ++ delivered s t a d := by
  obtain ⟨more, whole⟩ := sends_prefix taken
  have behind : sentTo SendCall.message (t.sends.drop s.sends.length) d = delivered s t a d := by
    cases a with
    | sendFails c => exact absurd alive (died_of_sendFails taken)
    | _ => rfl
  rw [← behind, ← whole, List.drop_left, sentTo_append]

end Server

structure Kept (stdin : ConnId → List Byte) (m : System) : Prop where
  carried : Carried m.server
  senders : m.server.2.handed.map Prod.fst = m.server.1.said.map Said.sender
  account : m.server.1.died = none → Accounted m.server.1
  wire : m.server.1.died = none → ∀ d, m.stream d = sentTo SendCall.message m.server.1.sends d
  room : m.server.1.died = none → Relation.ReflTransGen Room.Step [] m.server.1.history
  hears : ∀ d, Hears m.server.2.handed d (m.stream d)
  typed : ∀ c, Typed stdin m c

private theorem kept_init (servSock : ℤ) (stdin : ConnId → List Byte) :
    Kept stdin (init servSock stdin) where
  carried := carried_start servSock
  senders := rfl
  account := fun _ => accounted_init servSock
  wire := fun _ _ => rfl
  room := fun _ => .refl
  hears := fun _ => ⟨[], List.nil_sublist _, fun _ none_there => absurd none_there List.not_mem_nil,
    rfl⟩
  typed := fun c => ⟨stdin c, rfl, fun _ => rfl⟩

section Kept

variable {stdin : ConnId → List Byte} {m : System} {a : Model.Action} {server : Noted}

private theorem mem_stdin (k : Kept stdin m) {c : ConnId} {b : Byte}
    (inside : b ∈ bytesOf m.server.2.received c ++ m.up c) : b ∈ stdin c := by
  obtain ⟨rest, whole, _⟩ := k.typed c
  rw [← whole]
  exact List.mem_append_left _ inside

private theorem whole_of_roomy (nul_free : ∀ c, 0 ∉ stdin c) (k : Kept stdin m)
    (roomy : Roomy m (.server a)) (arrives : Arrives m a) : Whole m.server a := by
  cases a with
  | recv c got =>
    refine ⟨fun nul => ?_, roomy⟩
    have some_bytes : got ≠ [] := List.ne_nil_of_mem nul
    rw [Arrives, if_neg some_bytes] at arrives
    exact nul_free c (mem_stdin k (List.mem_append_right _ (arrives.subset nul)))
  | accept | depart | run | sendFails => trivial

private theorem typed_serve (arrives : Arrives m a)
    (taken : remember Model.step note m.server a = some server) (c : ConnId) :
    bytesOf server.2.received c ++ upAfter m.up a c =
      bytesOf m.server.2.received c ++ m.up c := by
  obtain ⟨_, noted⟩ := remember_eq_some.mp taken
  rw [← noted]
  cases a with
  | recv d got =>
    have front : got <+: m.up d := by
      by_cases nothing : got = []
      · rw [nothing]
        exact List.nil_prefix
      · rw [Arrives, if_neg nothing] at arrives
        exact arrives
    obtain ⟨later, whole⟩ := front
    change bytesOf (m.server.2.received ++ [(d, got)]) c ++
      Function.update m.up d ((m.up d).drop got.length) c = _
    rw [bytesOf_append]
    by_cases own : c = d
    · subst own
      rw [bytesOf_own, Function.update_self, ← whole, List.drop_left, List.append_assoc]
    · rw [bytesOf_other own, Function.update_of_ne own, List.append_nil]
  | accept | depart | run | sendFails => rfl

private theorem kept_serve (nul_free : ∀ c, 0 ∉ stdin c) {m' : System} (k : Kept stdin m)
    (roomy : Roomy m (.server a)) (taken : serve m a = some m') : Kept stdin m' := by
  simp only [serve, Option.ite_none_right_eq_some] at taken
  obtain ⟨arrives, served⟩ := taken
  obtain ⟨⟨t, notes⟩, moved, rfl⟩ := Option.map_eq_some_iff.mp served
  have typed := typed_serve arrives moved
  have carried := carried_step _ _ _ k.carried (whole_of_roomy nul_free k roomy arrives) moved
  obtain ⟨stepped, noted⟩ := remember_eq_some.mp moved
  obtain rfl : note m.server.1 a m.server.2 = notes := noted
  have senders := senders_step k.senders stepped
  have before : m.server.1.died = none := (took_of_step stepped).1
  have account : t.died = none → Accounted t := fun alive =>
    accounted_step k.carried.handlers (k.account before) (smooth_of_alive roomy stepped alive)
      stepped
  have room : t.died = none → Relation.ReflTransGen Room.Step [] t.history := by
    intro alive
    obtain ⟨events, further, _, rfl⟩ := simulates_room m.server.1 a t m.server.1.history
      ⟨k.carried.handlers, rfl⟩ (smooth_of_alive roomy stepped alive) stepped
    exact (k.room before).trans further
  have wire : t.died = none → ∀ d, m.stream d ++ delivered m.server.1 t a d =
      sentTo SendCall.message t.sends d := by
    intro alive d
    rw [k.wire before d, delivered_sentTo stepped alive d]
  refine ⟨carried, senders, account, ?_, room, ?_, ?_⟩
  · intro alive d
    rw [← wire alive d, System.stream, System.stream, List.append_assoc]
  · intro d
    change Hears (note m.server.1 a m.server.2).handed d
      ((m.clients d).received.flatten ++ (m.down d ++ delivered m.server.1 t a d))
    rw [← List.append_assoc]
    change Hears _ d (m.stream d ++ delivered m.server.1 t a d)
    by_cases alive : t.died = none
    · rw [wire alive d]
      exact hears_of_account (account alive) senders carried.exactly.whole d
    · obtain ⟨handed, nothing⟩ := died_step m.server.2 stepped alive d
      rw [handed, nothing, List.append_nil]
      exact k.hears d
  · intro c
    obtain ⟨rest, whole, unsent⟩ := k.typed c
    refine ⟨rest, ?_, unsent⟩
    rw [← whole, ← typed c]

private theorem kept_put (k : Kept stdin m) (c : ConnId) (cl : Process) (up down : List Byte)
    (stream : cl.received.flatten ++ down = m.stream c)
    (typed : ∀ rest, bytesOf m.server.2.received c ++ m.up c ++ rest = stdin c →
      ((m.clients c).exited = false → rest = (m.clients c).unsent) →
      ∃ rest', bytesOf m.server.2.received c ++ up ++ rest' = stdin c ∧
        (cl.exited = false → rest' = cl.unsent)) :
    Kept stdin { m.put c cl with
      up := Function.update m.up c up, down := Function.update m.down c down } := by
  have same : ∀ d, ({ m.put c cl with
      up := Function.update m.up c up
      down := Function.update m.down c down } : System).stream d = m.stream d := by
    intro d
    change (Function.update m.clients c cl d).received.flatten ++
      Function.update m.down c down d = _
    by_cases own : d = c
    · rw [own, Function.update_self, Function.update_self, stream]
    · rw [Function.update_of_ne own, Function.update_of_ne own]
      rfl
  refine ⟨k.carried, k.senders, k.account, ?_, k.room, ?_, ?_⟩
  · intro alive d
    rw [same d]
    exact k.wire alive d
  · intro d
    rw [same d]
    exact k.hears d
  · intro d
    by_cases own : d = c
    · subst own
      obtain ⟨rest, whole, unsent⟩ := k.typed d
      obtain ⟨rest', whole', unsent'⟩ := typed rest whole unsent
      refine ⟨rest', ?_, ?_⟩
      · change _ ++ Function.update m.up d up d ++ rest' = stdin d
        rw [Function.update_self]
        exact whole'
      · change (Function.update m.clients d cl d).exited = false →
          rest' = (Function.update m.clients d cl d).unsent
        rw [Function.update_self]
        exact unsent'
    · obtain ⟨rest, whole, unsent⟩ := k.typed d
      refine ⟨rest, ?_, ?_⟩
      · change _ ++ Function.update m.up c up d ++ rest = stdin d
        rw [Function.update_of_ne own]
        exact whole
      · change (Function.update m.clients c cl d).exited = false →
          rest = (Function.update m.clients c cl d).unsent
        rw [Function.update_of_ne own]
        exact unsent

private theorem kept_still (k : Kept stdin m) {c : ConnId} {cl : Process}
    (received : cl.received = (m.clients c).received)
    (unsent : cl.exited = false → (m.clients c).exited = false ∧ cl.unsent = (m.clients c).unsent) :
    Kept stdin (m.put c cl) := by
  have put := kept_put k c cl (m.up c) (m.down c)
    (by rw [received, System.stream]) (fun rest whole before => ⟨rest, whole, fun running =>
      (before (unsent running).1).trans (unsent running).2.symm⟩)
  rw [Function.update_eq_self, Function.update_eq_self] at put
  exact put

private theorem kept_send (nul_free : ∀ c, 0 ∉ stdin c) (k : Kept stdin m) {c : ConnId}
    {cl : Process} {out : List Byte} (sent : (m.clients c).send = some (cl, out)) :
    Kept stdin { m.put c cl with up := Function.update m.up c (m.up c ++ out) } := by
  have typed := k.typed c
  obtain ⟨rest, whole, unsent⟩ := typed
  have running : (m.clients c).exited = false := by
    simp only [Process.send, Option.ite_none_right_eq_some] at sent
    exact sent.1
  have clean : 0 ∉ (m.clients c).unsent := by
    rw [← unsent running]
    intro inside
    refine nul_free c ?_
    rw [← whole]
    exact List.mem_append_right _ inside
  obtain ⟨goes, received⟩ := send_unsent clean sent
  have put := kept_put k c cl (m.up c ++ out) (m.down c)
    (by rw [received, System.stream]) (fun rest' whole' before => ⟨cl.unsent, by
      rw [← whole', before running, ← goes]
      simp only [List.append_assoc], fun _ => rfl⟩)
  rw [Function.update_eq_self c m.down] at put
  exact put

private theorem kept_recv (k : Kept stdin m) {c : ConnId} {n : ℕ} {cl : Process}
    (got : (m.clients c).recv ((m.down c).take n) = some cl) :
    Kept stdin { m.put c cl with down := Function.update m.down c ((m.down c).drop n) } := by
  simp only [Process.recv, Option.ite_none_right_eq_some, Option.some.injEq] at got
  obtain ⟨⟨running, _⟩, same⟩ := got
  have put := kept_put k c cl (m.up c) ((m.down c).drop n)
    (by
      rw [← same]
      change ((m.clients c).received ++ [(m.down c).take n]).flatten ++ _ = _
      rw [List.flatten_append, List.flatten_singleton, List.append_assoc, List.take_append_drop,
        System.stream])
    (fun rest whole before => ⟨rest, whole, fun _ => by
      rw [before running, ← same]
      rfl⟩)
  rw [Function.update_eq_self c m.up] at put
  exact put

private theorem kept_step (nul_free : ∀ c, 0 ∉ stdin c) (m : System) (a : Action) (m' : System)
    (k : Kept stdin m) (roomy : Roomy m a) (taken : step m a = some m') : Kept stdin m' := by
  cases a with
  | server a => exact kept_serve nul_free k roomy taken
  | read c =>
    obtain ⟨cl, moved, rfl⟩ := Option.map_eq_some_iff.mp taken
    obtain ⟨unsent, received, exited⟩ := read_unsent moved
    exact kept_still k received fun running => ⟨exited.symm.trans running, unsent⟩
  | send c =>
    obtain ⟨⟨cl, out⟩, moved, rfl⟩ := Option.map_eq_some_iff.mp taken
    exact kept_send nul_free k moved
  | sendFails c =>
    obtain ⟨cl, moved, rfl⟩ := Option.map_eq_some_iff.mp taken
    simp only [Process.sendFails, Option.ite_none_right_eq_some, Option.some.injEq] at moved
    obtain ⟨_, rfl⟩ := moved
    exact kept_still k rfl fun running => by cases running
  | recv c n =>
    obtain ⟨cl, moved, rfl⟩ := Option.map_eq_some_iff.mp taken
    exact kept_recv k moved
  | ends c =>
    simp only [step, Option.ite_none_right_eq_some] at taken
    obtain ⟨_, ended⟩ := taken
    obtain ⟨cl, moved, rfl⟩ := Option.map_eq_some_iff.mp ended
    simp only [Process.ends, Option.ite_none_right_eq_some, Option.some.injEq] at moved
    obtain ⟨_, rfl⟩ := moved
    exact kept_still k rfl fun running => by cases running
  | recvFails c =>
    obtain ⟨cl, moved, rfl⟩ := Option.map_eq_some_iff.mp taken
    simp only [Process.recvFails, Option.ite_none_right_eq_some, Option.some.injEq] at moved
    obtain ⟨_, rfl⟩ := moved
    exact kept_still k rfl fun running => by cases running
  | killed c =>
    obtain rfl := Option.some.inj taken
    exact kept_still k rfl fun running => by cases running

private theorem handed_of_typed (k : Kept stdin m) (c : ConnId) :
    bytesOf m.server.2.handed c <+: stdin c := by
  obtain ⟨rest, whole, _⟩ := k.typed c
  rw [← whole, ← k.carried.exactly.streams c]
  exact ((List.prefix_append _ _).trans (List.prefix_append _ _)).trans (List.prefix_append _ _)

private theorem nul_free_stream (nul_free : ∀ c, 0 ∉ stdin c) (k : Kept stdin m) (d : ConnId) :
    0 ∉ m.stream d := by
  intro nul
  obtain ⟨c, said⟩ := (k.hears d).mem nul
  exact nul_free c ((handed_of_typed k c).subset said)

private theorem shown_step (nul_free : ∀ c, 0 ∉ stdin c) (m : System) (a : Action) (m' : System)
    (k : Kept stdin m) (shown : ∀ d, Shown (m.clients d)) (taken : step m a = some m') :
    ∀ d, Shown (m'.clients d) := by
  have put : ∀ c cl, Shown cl → ∀ d, Shown (Function.update m.clients c cl d) := by
    intro c cl own d
    by_cases same : d = c
    · rw [same, Function.update_self]
      exact own
    · rw [Function.update_of_ne same]
      exact shown d
  cases a with
  | server a =>
    simp only [step, serve, Option.ite_none_right_eq_some] at taken
    obtain ⟨_, served⟩ := taken
    obtain ⟨server, _, rfl⟩ := Option.map_eq_some_iff.mp served
    exact shown
  | read c =>
    obtain ⟨cl, moved, rfl⟩ := Option.map_eq_some_iff.mp taken
    exact put c cl (shown_read (shown c) moved)
  | send c =>
    obtain ⟨⟨cl, out⟩, moved, rfl⟩ := Option.map_eq_some_iff.mp taken
    exact put c cl (shown_send (shown c) moved)
  | sendFails c =>
    obtain ⟨cl, moved, rfl⟩ := Option.map_eq_some_iff.mp taken
    exact put c cl (shown_sendFails (shown c) moved)
  | recv c n =>
    obtain ⟨cl, moved, rfl⟩ := Option.map_eq_some_iff.mp taken
    refine put c cl (shown_recv (shown c) (fun nul => ?_) moved)
    exact nul_free_stream nul_free k c (List.mem_append_right _ (List.mem_of_mem_take nul))
  | ends c =>
    simp only [step, Option.ite_none_right_eq_some] at taken
    obtain ⟨_, ended⟩ := taken
    obtain ⟨cl, moved, rfl⟩ := Option.map_eq_some_iff.mp ended
    exact put c cl (shown_ends (shown c) moved)
  | recvFails c =>
    obtain ⟨cl, moved, rfl⟩ := Option.map_eq_some_iff.mp taken
    exact put c cl (shown_recvFails (shown c) moved)
  | killed c =>
    obtain rfl := Option.some.inj taken
    exact put c _ (shown_killed (shown c))

private theorem kept_shown_run (nul_free : ∀ c, 0 ∉ stdin c) {servSock : ℤ}
    (run : ReachWhere step Roomy (init servSock stdin) m) :
    Kept stdin m ∧ ∀ d, Shown (m.clients d) := by
  refine invariant_of_step (P := fun m => Kept stdin m ∧ ∀ d, Shown (m.clients d)) ?_
    ⟨kept_init servSock stdin, fun d => shown_connected (stdin d)⟩ run
  rintro m a m' ⟨k, shown⟩ roomy taken
  exact ⟨kept_step nul_free m a m' k roomy taken, shown_step nul_free m a m' k shown taken⟩

end Kept

/-- Whatever the clients type, however their processes, the threads of the server and the
connections proceed, and whichever of them fail: there is one conversation, in which everyone's
part is a beginning of its input, and what a client is shown is a beginning of a part of the
conversation that has nothing of its own in it. -/
theorem everyone_is_shown_one_conversation (servSock : ℤ) (stdin : ConnId → List Byte)
    (nul_free : ∀ c, 0 ∉ stdin c) {m : System}
    (run : ReachWhere step Roomy (init servSock stdin) m) :
    ∃ talk : List (ConnId × List Byte), (∀ c, bytesOf talk c <+: stdin c) ∧
      ∀ d, Shown (m.clients d) ∧ ∃ heard : List (ConnId × List Byte), heard.Sublist talk ∧
        (∀ e ∈ heard, e.1 ≠ d) ∧ (m.clients d).received.flatten <+: heard.flatMap Prod.snd := by
  obtain ⟨k, shown⟩ := kept_shown_run nul_free run
  refine ⟨m.server.2.handed, handed_of_typed k, fun d => ⟨shown d, ?_⟩⟩
  obtain ⟨heard, part, others, whole⟩ := k.hears d
  refine ⟨heard, part, others, ?_⟩
  rw [← whole]
  exact List.prefix_append _ _

/-- At rest the conversation is whole: as long as the server lives, what a running client has typed
is in it once nothing of that is on its way, and a client to which nothing is on its way has been
shown all that the others have said since it entered, until it left. -/
theorem conversation_is_whole_at_rest (servSock : ℤ) (stdin : ConnId → List Byte)
    (nul_free : ∀ c, 0 ∉ stdin c) {m : System}
    (run : ReachWhere step Roomy (init servSock stdin) m) (alive : m.server.1.died = none)
    (free : m.server.1.client_mutex = none) :
    (∀ c, (m.clients c).exited = false → (m.clients c).unsent = [] → m.up c = [] →
      pending m.server.1.threads c = none → bytesOf m.server.2.handed c = stdin c) ∧
    ∀ d before after, m.down d = [] → m.server.1.history = before ++ .join d :: after →
      (m.clients d).received.flatten =
        (Room.others d (after.takeWhile (Room.remains d))).flatMap (text m.server.2.handed) := by
  obtain ⟨k, _⟩ := kept_shown_run nul_free run
  constructor
  · intro c running nothing_unsent nothing_up idle
    obtain ⟨rest, whole, unsent⟩ := k.typed c
    have streams := k.carried.exactly.streams c
    rw [idle, Option.getD_none, List.append_nil] at streams
    rw [unsent running, nothing_unsent, nothing_up, List.append_nil, List.append_nil] at whole
    rw [streams, whole]
  · intro d before after nothing_down split
    have owed_nothing : owed m.server.1 d = [] := by rw [owed_of_free free]
    have wire := k.wire alive d
    rw [System.stream, nothing_down, List.append_nil] at wire
    rw [wire]
    exact sentTo_since_join (k.account alive) k.carried.exactly.whole (k.room alive) owed_nothing
      split

/-- The first of two clients types a line, and the other one is shown it. -/
def oneLine (c : ConnId) : List Byte := if c = 0 then lit ['h', 'i', '\n'] else []

def sayHi : List Action :=
  [.server (.accept 4), .server (.accept 5)] ++ List.replicate 3 (.server (.run 0)) ++
    List.replicate 3 (.server (.run 1)) ++ [.read 0, .send 0, .server (.recv 0 (oneLine 0))] ++
    List.replicate 13 (.server (.run 0)) ++ [.recv 1 3]

private theorem oneLine_nul_free (c : ConnId) : 0 ∉ oneLine c := by
  unfold oneLine
  split
  · decide
  · exact List.not_mem_nil

private theorem sayHi_roomy : Guarded step Roomy (init 3 oneLine) sayHi := by
  apply guarded_of_forall
  simp [sayHi, Roomy, oneLine, lit, BUFFER_SIZE]

theorem one_line_one_conversation : ∃ m, ReachWhere step Roomy (init 3 oneLine) m ∧
    (m.clients 1).received = [oneLine 0] ∧
    ∃ talk : List (ConnId × List Byte), (∀ c, bytesOf talk c <+: oneLine c) ∧
      ∀ d, Shown (m.clients d) ∧ ∃ heard : List (ConnId × List Byte), heard.Sublist talk ∧
        (∀ e ∈ heard, e.1 ≠ d) ∧ (m.clients d).received.flatten <+: heard.flatMap Prod.snd := by
  have shown : (exec step (init 3 oneLine) sayHi).map (fun m => (m.clients 1).received) =
      some [oneLine 0] := by
    decide +kernel
  obtain ⟨m, taken, received⟩ := Option.map_eq_some_iff.mp shown
  have run : ReachWhere step Roomy (init 3 oneLine) m := ⟨sayHi, sayHi_roomy, taken⟩
  exact ⟨m, run, received, everyone_is_shown_one_conversation 3 oneLine oneLine_nul_free run⟩

/-- The line is in the conversation, and it is what the other client has been shown. -/
theorem one_line_whole_at_rest : ∃ m, ReachWhere step Roomy (init 3 oneLine) m ∧
    bytesOf m.server.2.handed 0 = oneLine 0 ∧
    m.server.1.history = [.join 0, .join 1, .say 0 0] ∧
    (m.clients 1).received.flatten = text m.server.2.handed 0 := by
  have shown : (exec step (init 3 oneLine) sayHi).map (fun m =>
      (m.server.1.died, m.server.1.client_mutex, m.server.1.history)) =
        some (none, none, [.join 0, .join 1, .say 0 0]) := by
    decide +kernel
  obtain ⟨m, taken, server⟩ := Option.map_eq_some_iff.mp shown
  have shown' : (exec step (init 3 oneLine) sayHi).map (fun m =>
      (((m.clients 0).exited, pending m.server.1.threads 0), (m.clients 0).unsent, m.up 0,
        m.down 1)) = some ((false, none), [], [], []) := by
    decide +kernel
  rw [taken] at shown'
  obtain ⟨died, server⟩ := Prod.mk.inj server
  obtain ⟨free, history⟩ := Prod.mk.inj server
  obtain ⟨first, wires⟩ := Prod.mk.inj (Option.some.inj shown')
  obtain ⟨running, idle⟩ := Prod.mk.inj first
  obtain ⟨unsent, wires⟩ := Prod.mk.inj wires
  obtain ⟨up, down⟩ := Prod.mk.inj wires
  have run : ReachWhere step Roomy (init 3 oneLine) m := ⟨sayHi, sayHi_roomy, taken⟩
  obtain ⟨typed, heard⟩ :=
    conversation_is_whole_at_rest 3 oneLine oneLine_nul_free run died free
  have other := heard 1 [.join 0] [.say 0 0] down history
  refine ⟨m, run, typed 0 running unsent up idle, history, other.trans ?_⟩
  exact List.append_nil _

end SocketChat.TestCode.ArbitraryChat.Chat
