/- SocketChat/TestCode/BroadcastChat/Chat
   digest: The clients and the server together: what every client is shown. -/

import SocketChat.TestCode.BroadcastChat.Client
import SocketChat.TestCode.BroadcastChat.Provenance

set_option autoImplicit false
set_option relaxedAutoImplicit false

namespace SocketChat.TestCode.BroadcastChat.Chat

open SocketChat.Lib.CString
open SocketChat.Lib.Lines (newline fgets fgets_append newline_notMem_dropLast_fgets)
open SocketChat.Lib.Merging
open SocketChat.Lib.Runs
open SocketChat.TestCode.BroadcastChat.Client (Command RCVBUFSIZE)
open SocketChat.TestCode.BroadcastChat.Listing
open SocketChat.TestCode.BroadcastChat.Model (ConnId stripped stripped_eq_filter)
open SocketChat.TestCode.BroadcastChat.Provenance
open SocketChat.TestCode.BroadcastChat.Stream
open SocketChat.TestCode.BroadcastChat.Threads

/-- Where `main` of a client stands, once `RecvThread` has been started: before `fgets`, before
`send` with the text of a piece, before `pthread_join`, or at its end. -/
inductive Point
  | fgets
  | send (buf : List Byte)
  | join
  | returned
  | exited
deriving DecidableEq

/-- What is left of the standard input, whether `close(sock)` has been called and `RecvThread` is in
its loop, the chunks that it has received, and what the process has printed on both streams. -/
structure Process where
  point : Point
  stdin : List Byte
  closed : Bool
  receiving : Bool
  received : List (List Byte)
  printed : List Byte
  errors : List String
deriving DecidableEq

def connected (stdin : List Byte) : Process := ⟨.fgets, stdin, false, true, [], [], []⟩

/-- `fgets` and what follows it, up to `send`. -/
def Process.read (k : Process) : Option Process :=
  if k.point = .fgets then
    match fgets RCVBUFSIZE k.stdin with
    | none => some { k with point := .join }
    | some (piece, rest) =>
        if Command (stripped piece) then
          some { k with point := .join, stdin := rest, closed := true }
        else some { k with point := .send (stripped piece), stdin := rest }
  else none

/-- `send(sock, buf, len, 0)` takes so many bytes, and fewer are an error. -/
def Process.send (k : Process) (taken : ℕ) : Option (Process × List Byte) :=
  match k.point with
  | .send buf =>
      if taken = buf.length then some ({ k with point := .fgets }, buf)
      else if taken < buf.length then
        some ({ k with point := .exited, errors := k.errors ++ ["send() failed"] }, buf.take taken)
      else none
  | _ => none

def Process.Receiving (k : Process) : Prop :=
  k.receiving = true ∧ k.point ≠ .returned ∧ k.point ≠ .exited

instance (k : Process) : Decidable k.Receiving := inferInstanceAs (Decidable (_ ∧ _))

def Process.recv (k : Process) (got : List Byte) : Option Process :=
  if k.Receiving ∧ got ≠ [] ∧ got.length ≤ RCVBUFSIZE - 1 then
    some { k with
      received := k.received ++ [got]
      printed := k.printed ++ lit "<< ".toList ++ cstr (got ++ [0]) ++ lit ['\n'] }
  else none

/-- `recv` returns 0, or fails other than by a signal; `message` is what is said of it. -/
def Process.recvEnds (k : Process) (message : String) : Option Process :=
  if k.Receiving then some { k with receiving := false, errors := k.errors ++ [message] }
  else none

def Process.join (k : Process) : Option Process :=
  if k.point = .join ∧ k.receiving = false then some { k with point := .returned } else none

def Process.killed (k : Process) : Process := { k with point := .exited }

/-- Nothing more comes from the process: it has closed its connection, or is not there any more. -/
def Process.Gone (k : Process) : Prop :=
  k.closed = true ∨ k.point = .returned ∨ k.point = .exited

instance (k : Process) : Decidable k.Gone := inferInstanceAs (Decidable (_ ∨ _))

/-- The client of a connection is there before it is accepted; `wire` is what its sends have taken,
and what it has not received yet is what the stream of the server has beyond its chunks. -/
structure System where
  server : Model.State
  clients : ConnId → Process
  wire : ConnId → List Byte

def init (servSock : ℤ) (stdin : List Byte) (typed : ConnId → List Byte) : System where
  server := Model.init servSock stdin
  clients := fun c => connected (typed c)
  wire := fun _ => []

inductive Action
  | server (a : Model.Action)
  | read (c : ConnId)
  | send (c : ConnId) (taken : ℕ)
  | recv (c : ConnId) (k : ℕ)
  | recvEnds (c : ConnId)
  | recvFails (c : ConnId)
  | join (c : ConnId)
  | killed (c : ConnId)
deriving DecidableEq

/-- A `recv` of the server takes what has come next from the client, and nothing when there is
nothing more. -/
def Arrives (m : System) : Model.Action → Prop
  | .recv c got => m.server.received c ++ got <+: m.wire c ∧
      (got = [] → (m.clients c).Gone ∧ m.server.received c = m.wire c)
  | _ => True

instance (m : System) (a : Model.Action) : Decidable (Arrives m a) := by
  cases a
  all_goals
    unfold Arrives
    infer_instance

def serve (m : System) (a : Model.Action) : Option System :=
  if Arrives m a then (Model.step m.server a).map fun server => { m with server := server }
  else none

def System.put (m : System) (c : ConnId) (k : Process) : System :=
  { m with clients := Function.update m.clients c k }

def System.down (m : System) (c : ConnId) : List Byte :=
  (m.server.stream c).drop (m.clients c).received.flatten.length

def returned : Model.HandlerPoint → Bool
  | .returned => true
  | _ => false

/-- The server has closed the connection, or is gone, and all that it has sent has been received. -/
def Ended (m : System) (c : ConnId) : Prop :=
  (m.server.died.isSome = true ∨
    (m.server.handlers c).any (fun h => returned h.point) = true) ∧ m.down c = []

instance (m : System) (c : ConnId) : Decidable (Ended m c) := inferInstanceAs (Decidable (_ ∧ _))

def step (m : System) : Action → Option System
  | .server a => serve m a
  | .read c => (m.clients c).read.map (m.put c)
  | .send c taken =>
      ((m.clients c).send taken).map fun sent =>
        { m.put c sent.1 with wire := Function.update m.wire c (m.wire c ++ sent.2) }
  | .recv c k => ((m.clients c).recv ((m.down c).take k)).map (m.put c)
  | .recvEnds c =>
      if Ended m c then ((m.clients c).recvEnds "Server closed connection").map (m.put c) else none
  | .recvFails c => ((m.clients c).recvEnds "recv() failed").map (m.put c)
  | .join c => (m.clients c).join.map (m.put c)
  | .killed c => some (m.put c (m.clients c).killed)

def Whole (m : System) : Action → Prop
  | .server a => whole m.server a = true
  | _ => True

instance (m : System) (a : Action) : Decidable (Whole m a) := by
  cases a
  all_goals
    unfold Whole
    infer_instance

section Client

/-- What is sent is a beginning of what has been typed, without newlines; as long as the loop of
`main` runs, all that it has read. -/
def Fair (typed : List Byte) (k : Process) (wire : List Byte) : Prop :=
  ∃ consumed, typed = consumed ++ k.stdin ∧ wire <+: consumed.filter (· ≠ newline) ∧
    match k.point with
    | .fgets => wire = consumed.filter (· ≠ newline)
    | .send buf => wire ++ buf = consumed.filter (· ≠ newline)
    | _ => True

/-- Every chunk has been printed behind a mark, on a line of its own. -/
def Shown (k : Process) : Prop :=
  k.printed = k.received.flatMap fun got => lit "<< ".toList ++ got ++ lit ['\n']

variable {typed wire : List Byte} {k k' : Process}

private theorem fair_connected (typed : List Byte) : Fair typed (connected typed) [] :=
  ⟨[], rfl, List.nil_prefix, rfl⟩

private theorem fair_past (fair : Fair typed k wire) (stdin : k'.stdin = k.stdin)
    (past : k'.point = k.point ∨ k'.point = .join ∨ k'.point = .returned ∨ k'.point = .exited) :
    Fair typed k' wire := by
  obtain ⟨consumed, whole, sent, here⟩ := fair
  refine ⟨consumed, by rw [stdin, whole], sent, ?_⟩
  rcases past with same | other | other | other
  · rwa [same]
  all_goals
    rw [other]
    trivial

private theorem fair_read (nul_free : 0 ∉ typed) (fair : Fair typed k wire)
    (taken : k.read = some k') :
    Fair typed k' wire ∧ k'.received = k.received ∧ k'.printed = k.printed := by
  simp only [Process.read, Option.ite_none_right_eq_some] at taken
  obtain ⟨here, taken⟩ := taken
  split at taken
  case h_1 nothing =>
    obtain rfl := Option.some.inj taken
    exact ⟨fair_past fair rfl (.inr (.inl rfl)), rfl, rfl⟩
  case h_2 piece rest line =>
    obtain ⟨consumed, whole, _, same⟩ := fair
    rw [here] at same
    dsimp only at same
    have input : typed = consumed ++ piece ++ rest := by
      rw [whole, ← fgets_append line, List.append_assoc]
    have text : stripped piece = piece.filter (· ≠ newline) := by
      refine stripped_eq_filter (fun inside => nul_free ?_) (newline_notMem_dropLast_fgets line)
      rw [input]
      exact List.mem_append_left rest (List.mem_append_right consumed inside)
    have sent : wire ++ stripped piece = (consumed ++ piece).filter (· ≠ newline) := by
      rw [List.filter_append, same, text]
    split at taken
    · obtain rfl := Option.some.inj taken
      exact ⟨⟨consumed ++ piece, input, ⟨stripped piece, sent⟩, trivial⟩, rfl, rfl⟩
    · obtain rfl := Option.some.inj taken
      exact ⟨⟨consumed ++ piece, input, ⟨stripped piece, sent⟩, sent⟩, rfl, rfl⟩

private theorem fair_send {n : ℕ} {out : List Byte} (fair : Fair typed k wire)
    (taken : k.send n = some (k', out)) :
    Fair typed k' (wire ++ out) ∧ k'.received = k.received ∧ k'.printed = k.printed := by
  obtain ⟨consumed, whole, _, same⟩ := fair
  unfold Process.send at taken
  split at taken
  case h_2 => cases taken
  case h_1 buf here =>
    rw [here] at same
    dsimp only at same
    split at taken
    · obtain ⟨rfl, rfl⟩ := Prod.mk.inj (Option.some.inj taken)
      exact ⟨⟨consumed, whole, ⟨[], by rw [List.append_nil, same]⟩, same⟩, rfl, rfl⟩
    · obtain ⟨_, sent⟩ := Option.ite_none_right_eq_some.mp taken
      obtain ⟨rfl, rfl⟩ := Prod.mk.inj (Option.some.inj sent)
      refine ⟨⟨consumed, whole, ?_, trivial⟩, rfl, rfl⟩
      rw [← same]
      exact (List.prefix_append_right_inj _).mpr (List.take_prefix n buf)

private theorem shown_still (shown : Shown k) (received : k'.received = k.received)
    (printed : k'.printed = k.printed) : Shown k' := by
  rw [Shown, received, printed]
  exact shown

private theorem shown_recv {got : List Byte} (shown : Shown k) (nul_free : 0 ∉ got)
    (taken : k.recv got = some k') : Shown k' ∧ k'.received = k.received ++ [got] ∧
      k'.point = k.point ∧ k'.stdin = k.stdin := by
  obtain ⟨_, same⟩ := Option.ite_none_right_eq_some.mp taken
  obtain rfl := Option.some.inj same
  refine ⟨?_, rfl, rfl, rfl⟩
  change k.printed ++ lit "<< ".toList ++ cstr (got ++ [0]) ++ lit ['\n'] =
    (k.received ++ [got]).flatMap _
  rw [cstr_snoc_zero, cstr_of_nul_free nul_free, List.flatMap_append, List.flatMap_singleton,
    shown]
  simp only [List.append_assoc]

end Client

section Server

variable {s t : Model.State} {a : Model.Action}

private theorem living_of_step (taken : Model.step s a = some t) : s.died = none :=
  (Option.ite_none_right_eq_some.mp taken).1

private theorem received_of_step (taken : Model.step s a = some t) :
    t.received = s.received ∨ ∃ c got, a = .recv c got ∧
      t.received = Function.update s.received c (s.received c ++ got) := by
  cases moves_of_step taken with
  | received c h got thread here fits => exact Or.inr ⟨c, got, rfl, rfl⟩
  | _ => exact Or.inl rfl

private theorem put_prefix (fds : ℤ → Option ConnId) (stream : ConnId → List Byte) (fd : ℤ)
    (bytes : List Byte) (c : ConnId) : stream c <+: Model.put fds stream fd bytes c := by
  cases behind : fds fd with
  | none =>
    rw [Model.put, behind]
  | some d =>
    rw [put_of_open behind]
    by_cases same : c = d
    · subst same
      rw [Function.update_self]
      exact List.prefix_append _ _
    · rw [Function.update_of_ne same]

private theorem stream_of_step (taken : Model.step s a = some t) (c : ConnId) :
    s.stream c <+: t.stream c := by
  cases moves_of_step taken with
  | echoed | sendFailed | sent => exact put_prefix ..
  | _ => exact List.prefix_rfl

end Server

structure Kept (stdin : List Byte) (typed : ConnId → List Byte) (m : System) : Prop where
  orderly : Orderly m.server
  accounted : Accounted m.server
  nul_free : 0 ∉ m.server.stdin
  told : ∀ c, Told stdin m.server c
  arrived : ∀ c, m.server.received c <+: m.wire c
  fair : ∀ c, Fair (typed c) (m.clients c) (m.wire c)
  chunks : ∀ c, (m.clients c).received.flatten <+: m.server.stream c
  shown : ∀ c, Shown (m.clients c)

section System

variable {stdin : List Byte} {typed : ConnId → List Byte} {m m' : System} {c : ConnId}

private theorem kept_init (servSock : ℤ) (nul_free : 0 ∉ stdin) :
    Kept stdin typed (init servSock stdin typed) where
  orderly := orderly_init servSock stdin
  accounted _ := rfl
  nul_free := nul_free
  told := told_init servSock stdin
  arrived _ := List.prefix_rfl
  fair c := fair_connected (typed c)
  chunks _ := List.prefix_rfl
  shown _ := rfl

private theorem kept_serve {a : Model.Action} (kept : Kept stdin typed m)
    (taken : serve m a = some m') :
    Kept stdin typed m' := by
  obtain ⟨arrives, moved⟩ := Option.ite_none_right_eq_some.mp taken
  obtain ⟨t, served, rfl⟩ := Option.map_eq_some_iff.mp moved
  refine ⟨orderly_step _ _ _ kept.orderly served,
    accounted_step kept.orderly.wired kept.accounted served,
    fun inside => kept.nul_free ((stdin_suffix_of_step served).subset inside),
    fun c => told_step kept.orderly kept.accounted kept.nul_free (living_of_step served)
      (kept.told c) served, fun c => ?_, kept.fair,
    fun c => (kept.chunks c).trans (stream_of_step served c), kept.shown⟩
  change t.received c <+: m.wire c
  rcases received_of_step served with same | ⟨d, got, rfl, same⟩
  · rw [same]
    exact kept.arrived c
  · rw [same]
    by_cases own : c = d
    · subst own
      rw [Function.update_self]
      exact arrives.1
    · rw [Function.update_of_ne own]
      exact kept.arrived c

private theorem kept_client (kept : Kept stdin typed m) {k : Process} {wire : List Byte}
    (more : m.wire c <+: wire) (fair : Fair (typed c) k wire)
    (chunks : k.received.flatten <+: m.server.stream c) (shown : Shown k) :
    Kept stdin typed { m.put c k with wire := Function.update m.wire c wire } := by
  refine ⟨kept.orderly, kept.accounted, kept.nul_free, kept.told, fun d => ?_, fun d => ?_,
    fun d => ?_, fun d => ?_⟩
  all_goals by_cases own : d = c
  · subst own
    change _ <+: Function.update m.wire d wire d
    rw [Function.update_self]
    exact (kept.arrived d).trans more
  · change _ <+: Function.update m.wire c wire d
    rw [Function.update_of_ne own]
    exact kept.arrived d
  · subst own
    change Fair (typed d) (Function.update m.clients d k d) (Function.update m.wire d wire d)
    rw [Function.update_self, Function.update_self]
    exact fair
  · change Fair (typed d) (Function.update m.clients c k d) (Function.update m.wire c wire d)
    rw [Function.update_of_ne own, Function.update_of_ne own]
    exact kept.fair d
  · subst own
    change (Function.update m.clients d k d).received.flatten <+: _
    rw [Function.update_self]
    exact chunks
  · change (Function.update m.clients c k d).received.flatten <+: _
    rw [Function.update_of_ne own]
    exact kept.chunks d
  · subst own
    change Shown (Function.update m.clients d k d)
    rw [Function.update_self]
    exact shown
  · change Shown (Function.update m.clients c k d)
    rw [Function.update_of_ne own]
    exact kept.shown d

private theorem kept_put (kept : Kept stdin typed m) {k : Process}
    (fair : Fair (typed c) k (m.wire c))
    (chunks : k.received.flatten <+: m.server.stream c) (shown : Shown k) :
    Kept stdin typed (m.put c k) := by
  have same := kept_client kept List.prefix_rfl fair chunks shown
  rwa [Function.update_eq_self] at same

private theorem kept_stops (kept : Kept stdin typed m) {k : Process}
    (stdin_eq : k.stdin = (m.clients c).stdin)
    (past : k.point = (m.clients c).point ∨ k.point = .join ∨ k.point = .returned ∨
      k.point = .exited)
    (received : k.received = (m.clients c).received)
    (printed : k.printed = (m.clients c).printed) : Kept stdin typed (m.put c k) :=
  kept_put kept (fair_past (kept.fair c) stdin_eq past) (received ▸ kept.chunks c)
    (shown_still (kept.shown c) received printed)

private theorem stream_nul_free (kept : Kept stdin typed m) (nul_free : 0 ∉ stdin)
    (typed_nul_free : 0 ∉ typed c) : 0 ∉ m.server.stream c := by
  obtain ⟨consumed, said, heard, whole, merge, own, _, words⟩ := kept.told c
  obtain ⟨read, input, sent, _⟩ := kept.fair c
  intro inside
  rcases merge.mem_or_mem inside with mine | others
  · have on_wire := (own.trans ((kept.arrived c).trans sent)).subset mine
    refine typed_nul_free ?_
    rw [input]
    exact List.mem_append_left _ (List.mem_of_mem_filter on_wire)
  · refine nul_free ?_
    rw [whole]
    exact List.mem_append_left _
      (List.mem_of_mem_filter (words.subset (List.mem_append_left _ others)))

private theorem kept_step (nul_free : 0 ∉ stdin) (typed_nul_free : ∀ c, 0 ∉ typed c) (m : System)
    (a : Action) (m' : System) (kept : Kept stdin typed m) (taken : step m a = some m') :
    Kept stdin typed m' := by
  cases a with
  | server a => exact kept_serve kept taken
  | read c =>
    obtain ⟨k, read, rfl⟩ := Option.map_eq_some_iff.mp taken
    obtain ⟨fair, received, printed⟩ := fair_read (typed_nul_free c) (kept.fair c) read
    exact kept_put kept fair (received ▸ kept.chunks c)
      (shown_still (kept.shown c) received printed)
  | send c n =>
    obtain ⟨⟨k, out⟩, sent, rfl⟩ := Option.map_eq_some_iff.mp taken
    obtain ⟨fair, received, printed⟩ := fair_send (kept.fair c) sent
    exact kept_client kept (List.prefix_append _ _) fair (received ▸ kept.chunks c)
      (shown_still (kept.shown c) received printed)
  | recv c n =>
    obtain ⟨k, got, rfl⟩ := Option.map_eq_some_iff.mp taken
    have front : (m.clients c).received.flatten ++ (m.down c).take n <+: m.server.stream c := by
      rw [List.prefix_iff_eq_append.mp (kept.chunks c) |>.symm]
      exact (List.prefix_append_right_inj _).mpr (List.take_prefix n _)
    have fresh : 0 ∉ (m.down c).take n := fun inside =>
      stream_nul_free kept nul_free (typed_nul_free c)
        (front.subset (List.mem_append_right _ inside))
    obtain ⟨shown, received, point, stdin⟩ := shown_recv (kept.shown c) fresh got
    refine kept_put kept (fair_past (kept.fair c) stdin (.inl point)) ?_ shown
    rw [received, List.flatten_append, List.flatten_singleton]
    exact front
  | recvEnds c =>
    obtain ⟨_, ends⟩ := Option.ite_none_right_eq_some.mp taken
    obtain ⟨k, ended, rfl⟩ := Option.map_eq_some_iff.mp ends
    obtain ⟨_, same⟩ := Option.ite_none_right_eq_some.mp ended
    obtain rfl := Option.some.inj same
    exact kept_stops kept rfl (.inl rfl) rfl rfl
  | recvFails c =>
    obtain ⟨k, failed, rfl⟩ := Option.map_eq_some_iff.mp taken
    obtain ⟨_, same⟩ := Option.ite_none_right_eq_some.mp failed
    obtain rfl := Option.some.inj same
    exact kept_stops kept rfl (.inl rfl) rfl rfl
  | join c =>
    obtain ⟨k, joined, rfl⟩ := Option.map_eq_some_iff.mp taken
    obtain ⟨_, same⟩ := Option.ite_none_right_eq_some.mp joined
    obtain rfl := Option.some.inj same
    exact kept_stops kept rfl (.inr (.inr (.inl rfl))) rfl rfl
  | killed c =>
    obtain rfl := Option.some.inj taken
    exact kept_stops kept rfl (.inr (.inr (.inr rfl))) rfl rfl

/-- In every run, however the bytes are cut, whatever fails and whoever is killed: a client prints
every chunk that it receives on a line of its own, and the chunks are a beginning of a merge of its
own words, as far as they have come back, with words of the server, in the order in which they have
been typed. -/
theorem shown_is_own_and_servers (nul_free : 0 ∉ stdin) (typed_nul_free : ∀ c, 0 ∉ typed c)
    {servSock : ℤ} (run : Reach step (init servSock stdin typed) m) (c : ConnId) :
    ((m.clients c).printed =
      (m.clients c).received.flatMap fun got => lit "<< ".toList ++ got ++ lit ['\n']) ∧
    ∃ words own heard, (m.clients c).received.flatten <+: words ∧ Merge own heard words ∧
      own <+: (typed c).filter (· ≠ newline) ∧
      heard.Sublist (stdin.filter (· ≠ newline)) := by
  have kept : Kept stdin typed m :=
    invariant_of_step_reach (kept_step nul_free typed_nul_free) (kept_init servSock nul_free) run
  obtain ⟨consumed, said, heard, whole, merge, own, _, words⟩ := kept.told c
  obtain ⟨read, input, sent, _⟩ := kept.fair c
  refine ⟨kept.shown c, m.server.stream c, said, heard, kept.chunks c, merge, ?_, ?_⟩
  · rw [input, List.filter_append]
    exact (own.trans ((kept.arrived c).trans sent)).trans (List.prefix_append _ _)
  · rw [whole, List.filter_append]
    exact (List.sublist_append_left heard _).trans
      (words.trans (List.sublist_append_left _ _))

def oneWord : ConnId → List Byte := fun _ => lit ['A', '\n']

private theorem oneWord_nul_free (c : ConnId) : 0 ∉ oneWord c := by
  unfold oneWord
  decide

def joining : List Action :=
  [.server (.accept 4), .server .main, .server .main, .server .main, .server .main, .server .main]

def talking : List Action :=
  [.read 0, .send 0 1, .server (.recv 0 (lit ['A'])), .server .sender, .server (.send 0 1),
    .server .sender, .server (.broadcast 2), .server .sender, .server .sender, .recv 0 3]

theorem two_words_on_one_line : ∃ m,
    Reach step (init 3 (lit ['H', 'i', '\n']) oneWord) m ∧
    (m.clients 0).printed = lit "<< AHi\n".toList ∧
    ((m.clients 0).printed =
      (m.clients 0).received.flatMap fun got => lit "<< ".toList ++ got ++ lit ['\n']) ∧
    ∃ words own heard, (m.clients 0).received.flatten <+: words ∧ Merge own heard words ∧
      own <+: (oneWord 0).filter (· ≠ newline) ∧
      heard.Sublist ((lit ['H', 'i', '\n']).filter (· ≠ newline)) := by
  have ends : (exec step (init 3 (lit ['H', 'i', '\n']) oneWord) (joining ++ talking)).map
      (fun m => (m.clients 0).printed) = some (lit "<< AHi\n".toList) := by
    decide +kernel
  obtain ⟨m, taken, printed⟩ := Option.map_eq_some_iff.mp ends
  have run : Reach step (init 3 (lit ['H', 'i', '\n']) oneWord) m := ⟨_, taken⟩
  exact ⟨m, run, printed, shown_is_own_and_servers (by decide) oneWord_nul_free run 0⟩

end System

section Rest

variable {stdin : List Byte} {typed : ConnId → List Byte} {m m' : System} {c : ConnId}

/-- The client and its handler wait for more, as does `ServerSendThread` if it has not ended, and
nothing is on its way between them. -/
structure Resting (m : System) (c : ConnId) : Prop where
  sender : m.server.sender = .fgets ∨ m.server.sender = .returned
  handler : ∃ h, m.server.handlers c = some h ∧ h.point = .recv
  client : (m.clients c).point = .fgets
  up : m.server.received c = m.wire c
  down : (m.clients c).received.flatten = m.server.stream c

private theorem server_of_step {a : Action} (taken : step m a = some m') :
    m'.server = m.server ∨ ∃ b, a = .server b ∧ Model.step m.server b = some m'.server := by
  cases a with
  | server b =>
    obtain ⟨_, moved⟩ := Option.ite_none_right_eq_some.mp taken
    obtain ⟨t, served, rfl⟩ := Option.map_eq_some_iff.mp moved
    exact Or.inr ⟨b, rfl, served⟩
  | recvEnds c =>
    obtain ⟨_, ends⟩ := Option.ite_none_right_eq_some.mp taken
    obtain ⟨k, _, rfl⟩ := Option.map_eq_some_iff.mp ends
    exact Or.inl rfl
  | killed c =>
    obtain rfl := Option.some.inj taken
    exact Or.inl rfl
  | read | send | recv | recvFails | join =>
    obtain ⟨k, _, rfl⟩ := Option.map_eq_some_iff.mp taken
    exact Or.inl rfl

private theorem account_server_step (nul_free : 0 ∉ stdin) (typed_nul_free : ∀ c, 0 ∉ typed c)
    (m : System) (a : Action) (m' : System) (before : Kept stdin typed m ∧ Account stdin m.server)
    (all : Whole m a) (taken : step m a = some m') :
    Kept stdin typed m' ∧ Account stdin m'.server := by
  obtain ⟨kept, account⟩ := before
  refine ⟨kept_step nul_free typed_nul_free m a m' kept taken, ?_⟩
  rcases server_of_step taken with same | ⟨b, rfl, served⟩
  · rw [same]
    exact account
  · exact account_step kept.orderly kept.nul_free account all served

def HeardSince (c : ConnId) (s : Model.State) (m : System) : Prop :=
  c ∈ m.server.added ∧ (c ∉ m.server.removed → Hears c s m.server)

private theorem heardSince_step {s : Model.State} {a : Action} (kept : Kept stdin typed m)
    (before : HeardSince c s m) (all : Whole m a) (taken : step m a = some m') :
    HeardSince c s m' := by
  obtain ⟨added, hears⟩ := before
  rcases server_of_step taken with same | ⟨b, rfl, served⟩
  · rw [HeardSince, same]
    exact ⟨added, hears⟩
  · have later := Continues.of_step served
    refine ⟨later.added.subset added, fun stays => ?_⟩
    have stayed : c ∉ m.server.removed := fun gone => stays (later.removed.subset gone)
    exact (hears stayed).trans
      (hears_step kept.orderly kept.nul_free (mem_listed.mpr ⟨added, stayed⟩) all served)

/-- Where the sends of the server take all they are given, a client that is listed has missed
nothing: whenever all is at rest, it has been shown all that it has typed so far, and all that the
server has read from before any moment since which it is listed, and nothing else. -/
theorem listed_client_misses_nothing (nul_free : 0 ∉ stdin) (typed_nul_free : ∀ c, 0 ∉ typed c)
    {servSock : ℤ} (start : ReachWhere step Whole (init servSock stdin typed) m)
    (run : ReachWhere step Whole m m') (joined : c ∈ listed m.server)
    (stays : c ∈ listed m'.server) (rest : Resting m' c) :
    ∃ own earlier before later, typed c = own ++ (m'.clients c).stdin ∧
      stdin = earlier ++ before ++ m.server.stdin ∧ m.server.stdin = later ++ m'.server.stdin ∧
      Merge (own.filter (· ≠ newline)) ((before ++ later).filter (· ≠ newline))
        (m'.clients c).received.flatten := by
  have there : Kept stdin typed m ∧ Account stdin m.server :=
    invariant_of_step (account_server_step nul_free typed_nul_free)
      ⟨kept_init servSock nul_free, account_init servSock stdin⟩ start
  have further : Kept stdin typed m' ∧ HeardSince c m.server m' := by
    refine invariant_of_step (P := fun m' => Kept stdin typed m' ∧ HeardSince c m.server m') ?_
      ⟨there.1, (mem_listed.mp joined).1, fun _ => .quiet rfl rfl rfl rfl⟩ run
    intro m₁ a m₂ both all taken
    exact ⟨kept_step nul_free typed_nul_free m₁ a m₂ both.1 taken,
      heardSince_step both.1 both.2 all taken⟩
  obtain ⟨kept, _, hears⟩ := further
  obtain ⟨earlier, before, later, sent, whole, more, merge, words⟩ :=
    (there.2.since c joined).hears (hears (mem_listed.mp stays).2)
  obtain ⟨own, typed_eq, _, said⟩ := kept.fair c
  rw [rest.client] at said
  obtain ⟨h, thread, here⟩ := rest.handler
  have echoed : m'.server.echoed c = own.filter (· ≠ newline) := by
    have all := kept.accounted c
    rw [pending_of_thread thread, here, rest.up] at all
    exact ((List.append_nil _).symm.trans all.symm).trans said
  have idle : owed m'.server c = [] := by
    rcases rest.sender with point | point <;> rw [owed, point]
  refine ⟨own, earlier, before, later, typed_eq, whole, more, ?_⟩
  rw [rest.down, words, idle, List.append_nil, ← echoed]
  exact merge

theorem one_word_each : ∃ m m' : System, ∃ own earlier before later,
    (m'.clients 0).received = [lit ['A', 'H', 'i']] ∧
    oneWord 0 = own ++ (m'.clients 0).stdin ∧
    lit ['H', 'i', '\n'] = earlier ++ before ++ m.server.stdin ∧
    m.server.stdin = later ++ m'.server.stdin ∧
    Merge (own.filter (· ≠ newline)) ((before ++ later).filter (· ≠ newline))
      (m'.clients 0).received.flatten := by
  let start := init 3 (lit ['H', 'i', '\n']) oneWord
  have joined : (exec step start joining).map (fun m => decide (0 ∈ listed m.server)) =
      some true := by
    decide +kernel
  obtain ⟨m, ran, listed_m⟩ := Option.map_eq_some_iff.mp joined
  have from_start : m = (exec step start joining).get (by decide +kernel) := by
    simp [ran]
  have told : (exec step m talking).map (fun m' => decide (0 ∈ listed m'.server ∧
      m'.server.sender = .fgets ∧
      (m'.server.handlers 0).map Model.Handler.point = some .recv ∧ (m'.clients 0).point = .fgets ∧
      m'.server.received 0 = m'.wire 0 ∧ m'.server.stream 0 = lit ['A', 'H', 'i'] ∧
      (m'.clients 0).received = [lit ['A', 'H', 'i']])) = some true := by
    rw [from_start]
    decide +kernel
  obtain ⟨m', later, same⟩ := Option.map_eq_some_iff.mp told
  obtain ⟨listed_m', sender, handler, client, up, stream, received⟩ := of_decide_eq_true same
  have first : Guarded step Whole start joining := by
    decide +kernel
  have second : Guarded step Whole m talking := by
    rw [from_start]
    decide +kernel
  have rest : Resting m' 0 := by
    refine ⟨.inl sender, ?_, client, up, ?_⟩
    · obtain ⟨h, thread, here⟩ := Option.map_eq_some_iff.mp handler
      exact ⟨h, thread, here⟩
    · rw [stream, received]
      rfl
  obtain ⟨own, earlier, before, after, all⟩ := listed_client_misses_nothing (by decide)
    oneWord_nul_free ⟨joining, first, ran⟩ ⟨talking, second, later⟩
    (of_decide_eq_true listed_m) listed_m' rest
  exact ⟨m, m', own, earlier, before, after, received, all⟩

end Rest

end SocketChat.TestCode.BroadcastChat.Chat
