/- SocketChat/MoreLearning/SelectChat/Chat
   digest: The select server and its clients together: what everyone types, and what is shown. -/

import SocketChat.Lib.Conversation
import SocketChat.MoreLearning.SelectChat.Client
import SocketChat.MoreLearning.SelectChat.Payload
import SocketChat.MoreLearning.SelectChat.Recipients

set_option autoImplicit false
set_option relaxedAutoImplicit false

namespace SocketChat.MoreLearning.SelectChat.Chat

open SocketChat.Lib
open SocketChat.Lib.CString
open SocketChat.Lib.Conversation
open SocketChat.Lib.Deliveries
open SocketChat.Lib.History
open SocketChat.Lib.Runs
open SocketChat.MoreLearning.SelectChat.Client (Cut)
open SocketChat.MoreLearning.SelectChat.Model (ConnId SendCall)
open SocketChat.MoreLearning.SelectChat.Payload (Carried Whole)
open SocketChat.MoreLearning.SelectChat.Recipients
open SocketChat.MoreLearning.SelectChat.Table

/-- The server and the clients, each with its account, what is on its way to the server and back,
whether what a client sends still gets on its way, and the chunks that its `recv` has returned. -/
structure System where
  server : Payload.Noted
  clients : ConnId → Client.Noted
  up : ConnId → List Byte
  down : ConnId → List Byte
  broken : ConnId → Bool
  received : ConnId → List (List Byte)

def init (server_sock : ℤ) : System where
  server := Payload.start server_sock
  clients := fun _ => Client.start
  up := fun _ => []
  down := fun _ => []
  broken := fun _ => false
  received := fun _ => []

/-- The server or a client takes a step, or its user does; or the process of a client is killed, in
the midst of a `send` perhaps. -/
inductive Action
  | server (a : Model.Action)
  | client (c : ConnId) (a : Client.Action)
  | killed (c : ConnId) (taken : ℕ)

def speaker (s : Model.State) : Option ConnId :=
  match s.point with
  | .scan _ i => s.clients[i]?.bind s.fds
  | _ => none

def Gone (m : System) (c : ConnId) : Prop :=
  (m.clients c).1.point = .left ∨ m.broken c = true

instance (m : System) (c : ConnId) : Decidable (Gone m c) := inferInstanceAs (Decidable (_ ∨ _))

/-- A `recv` of the server takes what has come first from the client; it gives nothing, or fails,
when the client is gone. -/
def Arrives (m : System) : Model.Action → Prop
  | .recv got _ =>
      (speaker m.server.1).any fun c => if got = [] then Gone m c else got.isPrefixOf (m.up c)
  | _ => True

instance (m : System) (a : Model.Action) : Decidable (Arrives m a) := by
  cases a
  all_goals
    unfold Arrives
    infer_instance

def upAfter (m : System) : Model.Action → ConnId → List Byte
  | .recv got _, c =>
      if speaker m.server.1 = some c then (m.up c).drop got.length else m.up c
  | _, c => m.up c

def serve (m : System) (a : Model.Action) : Option System :=
  if Arrives m a then
    (remember Model.step Payload.note m.server a).map fun server =>
      { m with
        server := server
        up := upAfter m a
        down := fun d =>
          m.down d ++ sentTo SendCall.msg (server.1.sends.drop m.server.1.sends.length) d }
  else none

def chunk : Client.Action → List Byte
  | .recv got _ => got
  | _ => []

/-- A `send` that fails is the last one that gets anything on its way. -/
def fails : Client.Action → Bool
  | .sendFails _ => true
  | _ => false

def System.put (m : System) (c : ConnId) (cl : Client.Noted) (up down : List Byte) (broken : Bool)
    (received : List (List Byte)) : System :=
  { m with
    clients := Function.update m.clients c cl
    up := Function.update m.up c up
    down := Function.update m.down c down
    broken := Function.update m.broken c broken
    received := Function.update m.received c received }

/-- A `recv` of a client takes what has come first from the server, or nothing where the
connection is closed or broken. -/
def act (m : System) (c : ConnId) (a : Client.Action) : Option System :=
  if chunk a <+: m.down c then
    (remember Client.step Client.note (m.clients c) a).map fun cl =>
      let out := (cl.1.sends.drop (m.clients c).1.sends.length).flatten
      m.put c cl (m.up c ++ if m.broken c then [] else out) ((m.down c).drop (chunk a).length)
        (m.broken c || fails a) (m.received c ++ [chunk a].filter fun got => got ≠ [])
  else none

def kill (m : System) (c : ConnId) (taken : ℕ) : System :=
  let cl := m.clients c
  let out := (Client.sending cl.1.point).flatten.take taken
  m.put c ({ cl.1 with point := .left }, cl.2) (m.up c ++ if m.broken c then [] else out)
    (m.down c) true (m.received c)

def step (m : System) : Action → Option System
  | .server a => serve m a
  | .client c a => act m c a
  | .killed c taken => some (kill m c taken)

/-- No `accept` fails and the descriptors of the standard streams are not closed, no NUL is typed,
and no chunk fills the buffer of a process, which would put the NUL outside of it. -/
def Roomy (_ : System) : Action → Prop
  | .server (.accept new_sock) => 0 < new_sock
  | .server (.recv got _) => got.length < Model.BUFFER_SIZE
  | .client _ (.type bytes) => 0 ∉ bytes
  | .client _ (.recv got _) => got.length < Client.BUFFER_SIZE
  | _ => True

def talk (server : Payload.Noted) : List (ConnId × List Byte) :=
  (server.1.said.map Said.sender).zip server.2

def System.stream (m : System) (d : ConnId) : List Byte := (m.received d).flatten ++ m.down d

/-- What of a client has got on its way is a beginning of what has been typed, and all that it has
sent as long as that goes on its way. -/
structure Flow (cl : Client.Noted) (broken : Bool) (carried : List Byte) : Prop where
  begun : carried <+: cl.2
  whole : broken = false → Cut cl ∧ carried = cl.1.sends.flatten

section Client

variable {s t : Client.State} {typed : List Byte} {a : Client.Action} {cl cl' : Client.Noted}
  {broken : Bool} {carried : List Byte} {received : List (List Byte)}

private theorem client_sends (taken : Client.step s a = some t) : s.sends <+: t.sends := by
  cases Client.took_of_step taken with
  | sent buffer here => exact List.prefix_append ..
  | sendFailed buffer taken here => exact List.prefix_append ..
  | _ => exact List.prefix_rfl

private theorem typed_front (s : Client.State) (a : Client.Action) (typed : List Byte) :
    typed <+: Client.note s a typed := by
  cases a with
  | type bytes => exact List.prefix_append ..
  | _ => exact List.prefix_rfl

private theorem cut_begun (h : Cut (s, typed)) (k : ℕ) :
    s.sends.flatten ++ (Client.sending s.point).flatten.take k <+: typed := by
  have whole :
      s.sends.flatten ++ ((Client.sending s.point).flatten ++ Client.unread s) = typed := by
    rw [← List.append_assoc, ← List.flatten_filter_ne_nil (L := s.sends), ← List.flatten_append]
    exact h.whole
  rw [← whole]
  exact (List.prefix_append_right_inj _).mpr ((List.take_prefix k _).trans (List.prefix_append ..))

private theorem cstr_sending (h : Cut (s, typed)) {buffer : List Byte}
    (here : s.point = .send buffer) :
    cstr buffer = (Client.sending s.point).flatten := by
  have whole : (Client.sending s.point).flatten = buffer := by
    rw [here, Client.sending, List.flatten_filter_ne_nil, List.flatten_singleton]
  rw [whole]
  apply cstr_of_nul_free
  intro nul
  refine h.nul_free ((cut_begun h buffer.length).subset (List.mem_append_right _ ?_))
  rw [whole, List.take_length]
  exact nul

private theorem flow_act (flow : Flow cl broken carried)
    (sound : fails a = false → Client.Sound cl a)
    (taken : remember Client.step Client.note cl a = some cl') :
    Flow cl' (broken || fails a)
      (carried ++ if broken then [] else (cl'.1.sends.drop cl.1.sends.length).flatten) := by
  obtain ⟨s, typed⟩ := cl
  obtain ⟨t, typed'⟩ := cl'
  obtain ⟨moved, noted⟩ := remember_eq_some.mp taken
  obtain rfl : Client.note s a typed = typed' := noted
  cases broken with
  | true =>
    rw [if_pos rfl, List.append_nil]
    exact ⟨flow.begun.trans (typed_front s a typed), fun working => by cases working⟩
  | false =>
    obtain ⟨cut, same⟩ := flow.whole rfl
    obtain ⟨more, sends⟩ := client_sends moved
    have all : carried ++ (t.sends.drop s.sends.length).flatten = t.sends.flatten := by
      rw [same, ← sends, List.drop_left, List.flatten_append]
    rw [if_neg Bool.false_ne_true, Bool.false_or]
    change Flow _ _ (carried ++ (t.sends.drop s.sends.length).flatten)
    rw [all]
    cases failing : fails a with
    | false =>
      have later : Cut (t, Client.note s a typed) :=
        Client.cut_step _ a _ cut (sound failing) taken
      have begun := cut_begun later 0
      rw [List.take_zero, List.append_nil] at begun
      exact ⟨begun, fun _ => ⟨later, rfl⟩⟩
    | true =>
      refine ⟨?_, fun working => by cases working⟩
      cases Client.took_of_step moved with
      | sendFailed buffer k here =>
        change (s.sends ++ [(cstr buffer).take k]).flatten <+: typed
        rw [List.flatten_append, List.flatten_singleton, cstr_sending cut here]
        exact cut_begun cut k
      | _ => cases failing

private theorem flow_killed (flow : Flow cl broken carried) (k : ℕ) :
    Flow ({ cl.1 with point := .left }, cl.2) true
      (carried ++ if broken then [] else (Client.sending cl.1.point).flatten.take k) := by
  refine ⟨?_, fun working => by cases working⟩
  cases broken with
  | true =>
    rw [if_pos rfl, List.append_nil]
    exact flow.begun
  | false =>
    obtain ⟨cut, same⟩ := flow.whole rfl
    rw [same]
    exact cut_begun cut k

private theorem shown_act (shown : s.shown = received.map (lit "Msg: ".toList ++ ·))
    (nul_free : 0 ∉ chunk a) (room : (chunk a).length < Client.BUFFER_SIZE)
    (taken : Client.step s a = some t) :
    t.shown = (received ++ [chunk a].filter fun got => got ≠ []).map
      (lit "Msg: ".toList ++ ·) := by
  rw [List.map_append, ← shown]
  cases Client.took_of_step taken with
  | received keyboard got beyond here some_bytes fits =>
    have kept : [got].filter (fun got => got ≠ []) = [got] :=
      List.filter_cons_of_pos (by simpa using some_bytes)
    rw [chunk, kept, List.map_singleton]
    have text : cstr (overwrite (List.replicate Client.BUFFER_SIZE 0) got ++ beyond) = got :=
      (cstr_overwrite_zeros room beyond).trans (cstr_of_nul_free nul_free)
    exact congrArg (fun msg => s.shown ++ [lit "Msg: ".toList ++ msg]) text
  | _ => exact (List.append_nil _).symm

end Client

structure Kept (m : System) : Prop where
  carried : Carried m.server
  members : Members m.server.1
  settled : Settled m.server.1
  room : Relation.ReflTransGen Room.Step [] m.server.1.history
  wire : ∀ d, m.stream d = sentTo SendCall.msg m.server.1.sends d
  clean : ∀ c, 0 ∉ (m.clients c).2
  flow : ∀ c, Flow (m.clients c) (m.broken c) (partOf (talk m.server) c ++ m.up c)
  shown : ∀ d, (m.clients d).1.shown = (m.received d).map (lit "Msg: ".toList ++ ·)

private theorem kept_init (server_sock : ℤ) : Kept (init server_sock) where
  carried := Payload.carried_start server_sock
  members := members_init server_sock
  settled := account_nil
  room := .refl
  wire := fun _ => rfl
  clean := fun _ => List.not_mem_nil
  flow := fun _ => ⟨List.prefix_rfl, fun _ => ⟨Client.cut_start, rfl⟩⟩
  shown := fun _ => rfl

section Server

variable {m : System} {a : Model.Action} {server : Payload.Noted}

private theorem talk_senders (carried : Carried server) :
    (talk server).map Prod.fst = server.1.said.map Said.sender := by
  apply List.map_fst_zip
  rw [List.length_map, carried.sized]

private theorem talk_text (carried : Carried server) :
    ∀ sent ∈ server.1.sends, (talk server)[sent.number]?.map Prod.snd = some sent.call.msg := by
  intro sent inside
  rw [← List.getElem?_map, talk, List.map_snd_zip]
  · exact (carried.exactly.whole sent inside).1
  · rw [List.length_map, carried.sized]

private theorem hears (k : Kept m) (d : ConnId) : Hears (talk m.server) d (m.stream d) := by
  rw [k.wire d]
  exact hears_of_account k.settled (talk_senders k.carried) (talk_text k.carried) d

private theorem nul_free_up (k : Kept m) (c : ConnId) : 0 ∉ m.up c := fun nul =>
  k.clean c ((k.flow c).begun.subset (List.mem_append_right _ nul))

private theorem nul_free_stream (k : Kept m) (d : ConnId) : 0 ∉ m.stream d := by
  intro nul
  obtain ⟨c, said⟩ := (hears k d).mem nul
  exact k.clean c ((k.flow c).begun.subset (List.mem_append_left _ said))

private theorem front_of_arrives {got beyond : List Byte} (some_bytes : got ≠ [])
    (arrives : Arrives m (.recv got beyond)) :
    ∃ c, speaker m.server.1 = some c ∧ got <+: m.up c := by
  obtain ⟨c, here, front⟩ := (Option.any_eq_true ..).mp arrives
  rw [if_neg some_bytes] at front
  exact ⟨c, here, List.isPrefixOf_iff_prefix.mp front⟩

private theorem whole_of_roomy (k : Kept m) (roomy : Roomy m (.server a)) (arrives : Arrives m a) :
    Whole m.server a := by
  cases a with
  | recv got beyond =>
    intro some_bytes _
    obtain ⟨c, _, front⟩ := front_of_arrives some_bytes arrives
    exact ⟨fun nul => nul_free_up k c (front.subset nul), roomy⟩
  | select | accept | skip => trivial

private theorem server_sends {s t : Model.State} (taken : Model.step s a = some t) :
    s.sends <+: t.sends := by
  cases took_of_step taken with
  | forwarded => exact List.prefix_append ..
  | _ => exact List.prefix_rfl

private theorem carried_serve (sized : m.server.2.length = m.server.1.said.length)
    (taken : remember Model.step Payload.note m.server a = some server) (arrives : Arrives m a)
    (c : ConnId) :
    partOf (talk server) c ++ upAfter m a c = partOf (talk m.server) c ++ m.up c := by
  obtain ⟨t, chunks⟩ := server
  obtain ⟨moved, noted⟩ := remember_eq_some.mp taken
  obtain rfl : Payload.note m.server.1 a m.server.2 = chunks := noted
  cases took_of_step moved with
  | selected | refused | opened | skipped => rfl
  | closed readfds i sd beyond here held used ready =>
    refine congrArg (partOf (talk m.server) c ++ ·) ?_
    exact ite_self (m.up c)
  | forwarded readfds i sd conn got beyond msg here held used ready behind some_bytes fits text =>
    have own : speaker m.server.1 = some conn := by
      rw [speaker, here]
      change m.server.1.clients[i]?.bind m.server.1.fds = some conn
      rw [held]
      exact behind
    obtain ⟨c', there, later, whole⟩ := front_of_arrives some_bytes arrives
    obtain rfl : conn = c' := Option.some.inj (own.symm.trans there)
    have longer : ∀ members, talk ({ m.server.1 with said := m.server.1.said ++ [⟨conn, members⟩] },
        m.server.2 ++ [got]) = talk m.server ++ [(conn, got)] := by
      intro members
      rw [talk, List.map_append, List.zip_append (by rw [List.length_map, sized])]
      rfl
    rw [show Payload.note m.server.1 (.recv got beyond) m.server.2 = m.server.2 ++ [got] from
      if_neg some_bytes]
    refine (congrArg (partOf · c ++ _) (longer _)).trans ?_
    rw [partOf_append, upAfter, own]
    by_cases same : conn = c
    · subst same
      rw [partOf_own, if_pos rfl, ← whole, List.drop_left, List.append_assoc]
    · rw [partOf_other fun other => same other.symm,
        if_neg fun other => same (Option.some.inj other), List.append_nil]

private theorem kept_serve (k : Kept m) {m' : System} (roomy : Roomy m (.server a))
    (taken : serve m a = some m') : Kept m' := by
  simp only [serve, Option.ite_none_right_eq_some] at taken
  obtain ⟨arrives, served⟩ := taken
  obtain ⟨server, moved, rfl⟩ := Option.map_eq_some_iff.mp served
  have stepped := (remember_eq_some.mp moved).1
  have succeeds : AcceptSucceeds m.server.1 a := by
    cases a with
    | accept new_sock => exact roomy
    | select | skip | recv => trivial
  obtain ⟨events, further, _, rfl⟩ := simulates_room m.server.1 a server.1 m.server.1.history
    ⟨k.members, rfl⟩ succeeds stepped
  refine ⟨Payload.carried_step _ _ _ k.carried (whole_of_roomy k roomy arrives) moved,
    members_step k.members succeeds stepped, settled_step k.members k.settled stepped,
    k.room.trans further, ?_, k.clean, ?_, k.shown⟩
  · intro d
    obtain ⟨more, sends⟩ := server_sends stepped
    change (m.received d).flatten ++ (m.down d ++
      sentTo SendCall.msg (server.1.sends.drop m.server.1.sends.length) d) = _
    rw [← List.append_assoc, ← sends, List.drop_left, sentTo_append, ← k.wire d]
    rfl
  · intro c
    rw [carried_serve k.carried.sized moved arrives c]
    exact k.flow c

end Server

section Clients

variable {m : System} {c : ConnId} {a : Client.Action}

private theorem kept_put (k : Kept m) {cl : Client.Noted} {up down : List Byte} {broken : Bool}
    {received : List (List Byte)} (stream : received.flatten ++ down = m.stream c)
    (clean : 0 ∉ cl.2) (flow : Flow cl broken (partOf (talk m.server) c ++ up))
    (shown : cl.1.shown = received.map (lit "Msg: ".toList ++ ·)) :
    Kept (m.put c cl up down broken received) := by
  refine ⟨k.carried, k.members, k.settled, k.room, ?_, ?_, ?_, ?_⟩
  · intro d
    refine Eq.trans ?_ (k.wire d)
    change (Function.update m.received c received d).flatten ++ Function.update m.down c down d = _
    by_cases own : d = c
    · subst own
      rw [Function.update_self, Function.update_self, stream]
    · rw [Function.update_of_ne own, Function.update_of_ne own]
      rfl
  · intro d
    change 0 ∉ (Function.update m.clients c cl d).2
    by_cases own : d = c
    · subst own
      rw [Function.update_self]
      exact clean
    · rw [Function.update_of_ne own]
      exact k.clean d
  · intro d
    change Flow (Function.update m.clients c cl d) (Function.update m.broken c broken d)
      (partOf (talk m.server) d ++ Function.update m.up c up d)
    by_cases own : d = c
    · subst own
      rw [Function.update_self, Function.update_self, Function.update_self]
      exact flow
    · rw [Function.update_of_ne own, Function.update_of_ne own, Function.update_of_ne own]
      exact k.flow d
  · intro d
    change (Function.update m.clients c cl d).1.shown =
      (Function.update m.received c received d).map _
    by_cases own : d = c
    · subst own
      rw [Function.update_self, Function.update_self]
      exact shown
    · rw [Function.update_of_ne own, Function.update_of_ne own]
      exact k.shown d

private theorem chunk_of_roomy (roomy : Roomy m (.client c a)) :
    (chunk a).length < Client.BUFFER_SIZE := by
  cases a with
  | recv got beyond => exact roomy
  | _ => exact Nat.zero_lt_succ 255

private theorem sound_of_roomy (roomy : Roomy m (.client c a)) (cl : Client.Noted)
    (works : fails a = false) : Client.Sound cl a := by
  cases a with
  | type bytes => exact roomy
  | sendFails taken => cases works
  | _ => trivial

private theorem clean_act (roomy : Roomy m (.client c a)) {s : Client.State} {typed : List Byte}
    (clean : 0 ∉ typed) : 0 ∉ Client.note s a typed := by
  cases a with
  | type bytes =>
    have typed_now : 0 ∉ bytes := roomy
    exact fun nul => (List.mem_append.mp nul).elim clean typed_now
  | _ => exact clean

private theorem kept_act (k : Kept m) {m' : System} (roomy : Roomy m (.client c a))
    (taken : act m c a = some m') : Kept m' := by
  simp only [act, Option.ite_none_right_eq_some] at taken
  obtain ⟨⟨later, front⟩, acted⟩ := taken
  obtain ⟨cl, moved, rfl⟩ := Option.map_eq_some_iff.mp acted
  obtain ⟨stepped, noted⟩ := remember_eq_some.mp moved
  have nul_free : 0 ∉ chunk a := by
    intro nul
    refine nul_free_stream k c (List.mem_append_right _ ?_)
    rw [← front]
    exact List.mem_append_left _ nul
  refine kept_put k ?_ ?_ ?_ ?_
  · rw [List.flatten_append, List.flatten_filter_ne_nil, List.flatten_singleton, System.stream,
      ← front, List.drop_left, List.append_assoc]
  · rw [← noted]
    exact clean_act roomy (k.clean c)
  · rw [← List.append_assoc]
    exact flow_act (k.flow c) (sound_of_roomy roomy _) moved
  · exact shown_act (k.shown c) nul_free (chunk_of_roomy roomy) stepped

private theorem kept_kill (k : Kept m) (c : ConnId) (taken : ℕ) : Kept (kill m c taken) := by
  refine kept_put k rfl (k.clean c) ?_ (k.shown c)
  rw [← List.append_assoc]
  exact flow_killed (k.flow c) taken

private theorem kept_step (m : System) (a : Action) (m' : System) (k : Kept m) (roomy : Roomy m a)
    (taken : step m a = some m') : Kept m' := by
  cases a with
  | server a => exact kept_serve k roomy taken
  | client c a => exact kept_act k roomy taken
  | killed c n =>
    obtain rfl := Option.some.inj taken
    exact kept_kill k c n

end Clients

/-- Whatever the users type and when, however the processes, the server and the connections proceed
and whichever client is killed or cannot send: there is one conversation, in which everyone's part
is a beginning of what it has typed, and a client is shown, message by message behind the same
words, a beginning of a part of the conversation that has nothing of its own in it. -/
theorem screens_show_one_conversation (server_sock : ℤ) {m : System}
    (run : ReachWhere step Roomy (init server_sock) m) :
    ∃ said : List (ConnId × List Byte), (∀ c, partOf said c <+: (m.clients c).2) ∧
      ∀ d, (m.clients d).1.shown = (m.received d).map (lit "Msg: ".toList ++ ·) ∧
        ∃ heard : List (ConnId × List Byte), heard.Sublist said ∧ (∀ e ∈ heard, e.1 ≠ d) ∧
          (m.received d).flatten <+: heard.flatMap Prod.snd := by
  have k := invariant_of_step kept_step (kept_init server_sock) run
  refine ⟨talk m.server, fun c => (List.prefix_append ..).trans (k.flow c).begun,
    fun d => ⟨k.shown d, ?_⟩⟩
  obtain ⟨heard, part, others, whole⟩ := hears k d
  refine ⟨heard, part, others, ?_⟩
  rw [← whole]
  exact List.prefix_append ..

/-- Two clients join, one in each round; a line is typed at the first one, and the other one is
shown it. -/
def sayHi : List Action :=
  [.server (.select [3]), .server (.accept 4)] ++ List.replicate 10 (.server .skip) ++
    [.server (.select [3]), .server (.accept 5)] ++ List.replicate 10 (.server .skip) ++
    [.client 0 (.type (lit ['h', 'i', '\n'])), .client 0 (.select false true),
      .client 0 (.refill 3), .client 0 .fgets, .client 0 .send, .server (.select [4]),
      .server (.recv (lit ['h', 'i', '\n']) []), .client 1 (.select true false),
      .client 1 (.recv (lit ['h', 'i', '\n']) [])]

private theorem sayHi_run : ∃ m, ReachWhere step Roomy (init 3) m ∧
    (m.clients 1).1.shown = [lit "Msg: hi\n".toList] ∧
    m.broken 0 = false ∧ Client.sending (m.clients 0).1.point = [] ∧
    Client.unread (m.clients 0).1 = [] ∧ m.up 0 = [] := by
  have shown : (exec step (init 3) sayHi).map (fun m =>
      (((m.clients 1).1.shown, m.broken 0, Client.sending (m.clients 0).1.point),
        Client.unread (m.clients 0).1, m.up 0)) =
      some (([lit "Msg: hi\n".toList], false, []), [], []) := by
    decide +kernel
  obtain ⟨m, taken, ends⟩ := Option.map_eq_some_iff.mp shown
  obtain ⟨left, right⟩ := Prod.mk.inj ends
  obtain ⟨seen, left⟩ := Prod.mk.inj left
  obtain ⟨working, sending⟩ := Prod.mk.inj left
  obtain ⟨unread, up⟩ := Prod.mk.inj right
  have roomy : Guarded step Roomy (init 3) sayHi := by
    apply guarded_of_forall
    simp [sayHi, Roomy, lit, Model.BUFFER_SIZE, Client.BUFFER_SIZE]
  exact ⟨m, ⟨sayHi, roomy, taken⟩, seen, working, sending, unread, up⟩

theorem hi_on_one_screen : ∃ m, ReachWhere step Roomy (init 3) m ∧
    (m.clients 1).1.shown = [lit "Msg: hi\n".toList] ∧
    ∃ said : List (ConnId × List Byte), (∀ c, partOf said c <+: (m.clients c).2) ∧
      ∀ d, (m.clients d).1.shown = (m.received d).map (lit "Msg: ".toList ++ ·) ∧
        ∃ heard : List (ConnId × List Byte), heard.Sublist said ∧ (∀ e ∈ heard, e.1 ≠ d) ∧
          (m.received d).flatten <+: heard.flatMap Prod.snd := by
  obtain ⟨m, run, seen, _⟩ := sayHi_run
  exact ⟨m, run, seen, screens_show_one_conversation 3 run⟩

end SocketChat.MoreLearning.SelectChat.Chat
