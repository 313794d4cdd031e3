/- SocketChat/MoreLearning/TcpArbitrary/Pair
   digest: The two chat programs on one connection: what is shown, and that neither ends first. -/

import SocketChat.Lib.Sides
import SocketChat.MoreLearning.TcpArbitrary.Endless

set_option autoImplicit false
set_option relaxedAutoImplicit false

namespace SocketChat.MoreLearning.TcpArbitrary.Pair

open SocketChat.Lib.CString
open SocketChat.Lib.Lines (pieces)
open SocketChat.Lib.Resending
open SocketChat.Lib.Runs
open SocketChat.Lib.Sides
open SocketChat.MoreLearning.TcpArbitrary.Endless
open SocketChat.MoreLearning.TcpArbitrary.Model

def programs : Side → Program
  | .client => client
  | .server => server

structure Member where
  state : State
  gone : Bool

abbrev Both := Duo Member (List Byte)

def init (stack stdin : Side → List Byte) : Both where
  party := fun who => ⟨Model.init (stack who) (stdin who), false⟩
  inbox := fun _ => []

/-- `recv` takes `k` bytes; `recvEnd` is one that returns 0 since the other process is gone. `exit`
is the end of `main`, behind both `pthread_join`, and `killed` is an end from outside, `SIGPIPE`
included. -/
inductive Action
  | test (who : Side)
  | fgets (who : Side)
  | send (who : Side) (beyond : List Byte)
  | recv (who : Side) (k : ℕ) (beyond : List Byte)
  | recvEnd (who : Side)
  | recvFails (who : Side)
  | exit (who : Side)
  | killed (who : Side)
deriving DecidableEq

def turn (s : Both) (who : Side) (a : Model.Action) : Option Both :=
  if (s.party who).gone = false then
    (Model.step (programs who) (s.party who).state a).map fun t => s.setParty who ⟨t, false⟩
  else none

def step (s : Both) : Action → Option Both
  | .test who => turn s who .test
  | .fgets who => turn s who .fgets
  | .send who beyond =>
      (turn s who (.send beyond)).map fun t =>
        t.setInbox who.peer (s.inbox who.peer ++ cstr ((s.party who).state.buffer ++ beyond))
  | .recv who k beyond =>
      if 0 < k ∧ k ≤ (s.inbox who).length then
        (turn s who (.recv ((s.inbox who).take k) beyond)).map fun t =>
          t.setInbox who ((s.inbox who).drop k)
      else none
  | .recvEnd who =>
      if (s.party who.peer).gone = true ∧ s.inbox who = [] then turn s who (.recv [] []) else none
  | .recvFails who => turn s who (.recv [] [])
  | .exit who =>
      if (s.party who).gone = false ∧ (s.party who).state.sender = .returned ∧
          (s.party who).state.receiver = .returned then
        some (s.setParty who { s.party who with gone := true })
      else none
  | .killed who => some (s.setParty who { s.party who with gone := true })

/-- The connection holds, and no process is ended from outside. -/
def Holds (_ : Both) : Action → Prop
  | .recvFails _ => False
  | .killed _ => False
  | _ => True

def Roomy (_ : Both) : Action → Prop
  | .recv _ k _ => k < BUFFER_SIZE
  | _ => True

section Turns

variable {s t : Both} {who : Side} {a : Model.Action}

private theorem turn_eq_some : turn s who a = some t ↔ (s.party who).gone = false ∧
    ∃ after, Model.step (programs who) (s.party who).state a = some after ∧
      t = s.setParty who ⟨after, false⟩ := by
  rw [turn, Option.ite_none_right_eq_some, Option.map_eq_some_iff]
  constructor
  · rintro ⟨runs, after, moved, rfl⟩
    exact ⟨runs, after, moved, rfl⟩
  · rintro ⟨runs, after, moved, rfl⟩
    exact ⟨runs, after, moved, rfl⟩

end Turns

structure Adds (s t : State) (shown sends : List (List Byte)) : Prop where
  shown : t.shown = s.shown ++ shown
  sends : t.sends = s.sends ++ sends

section Threads

variable {program : Program} {s t : State} {beyond got : List Byte}

private theorem adds_test (taken : Model.step program s .test = some t) : Adds s t [] [] := by
  simp only [Model.step, Option.ite_none_right_eq_some, Option.some.injEq] at taken
  obtain ⟨_, rfl⟩ := taken
  exact ⟨(List.append_nil _).symm, (List.append_nil _).symm⟩

private theorem adds_fgets (taken : Model.step program s .fgets = some t) : Adds s t [] [] := by
  simp only [Model.step, Option.ite_none_right_eq_some, Option.some.injEq] at taken
  obtain ⟨_, rfl⟩ := taken
  unfold Model.fgets
  split
  · exact ⟨(List.append_nil _).symm, (List.append_nil _).symm⟩
  · exact ⟨(List.append_nil _).symm, (List.append_nil _).symm⟩

private theorem adds_send (taken : Model.step program s (.send beyond) = some t) :
    Adds s t [] [cstr (s.buffer ++ beyond)] := by
  simp only [Model.step, Option.ite_none_right_eq_some, Option.some.injEq] at taken
  obtain ⟨_, rfl⟩ := taken
  exact ⟨(List.append_nil _).symm, rfl⟩

private theorem adds_end (taken : Model.step program s (.recv [] beyond) = some t) :
    Adds s t [] [] := by
  simp only [Model.step, Option.ite_none_right_eq_some, Option.some.injEq] at taken
  obtain ⟨_, rfl⟩ := taken
  exact ⟨(List.append_nil _).symm, (List.append_nil _).symm⟩

private theorem adds_recv (some_bytes : got ≠ []) (room : got.length < BUFFER_SIZE)
    (nul_free : 0 ∉ got) (taken : Model.step program s (.recv got beyond) = some t) :
    Adds s t [program.heading ++ got] [] := by
  simp only [Model.step, Option.ite_none_right_eq_some, Option.some.injEq] at taken
  obtain ⟨_, rfl⟩ := taken
  rw [Model.recv, if_neg some_bytes]
  refine ⟨?_, (List.append_nil _).symm⟩
  change s.shown ++ [program.heading ++
    cstr (overwrite (List.replicate BUFFER_SIZE 0) got ++ beyond)] = _
  rw [cstr_overwrite_zeros room, cstr_of_nul_free nul_free]

private theorem receiving_step {a : Model.Action} (here : s.receiver = .receiving) (up : Up s a)
    (taken : Model.step program s a = some t) : t.receiver = .receiving := by
  cases a with
  | recv got beyond =>
    simp only [Model.step, Option.ite_none_right_eq_some, Option.some.injEq] at taken
    obtain ⟨_, rfl⟩ := taken
    rw [Model.recv, if_neg up]
    exact here
  | test =>
    simp only [Model.step, Option.ite_none_right_eq_some, Option.some.injEq] at taken
    obtain ⟨_, rfl⟩ := taken
    exact here
  | fgets =>
    simp only [Model.step, Option.ite_none_right_eq_some, Option.some.injEq] at taken
    obtain ⟨_, rfl⟩ := taken
    unfold Model.fgets
    split
    · exact here
    · exact here
  | send beyond =>
    simp only [Model.step, Option.ite_none_right_eq_some, Option.some.injEq] at taken
    obtain ⟨_, rfl⟩ := taken
    exact here

end Threads

structure Busy (m : Member) : Prop where
  runs : m.gone = false
  looping : m.state.running = true ∧ m.state.sender ≠ .returned
  receiving : m.state.receiver = .receiving

section Busy

variable {s t : Both} {who : Side} {a : Model.Action}

private theorem busy_turn (busy : ∀ who, Busy (s.party who)) (up : Up (s.party who).state a)
    (taken : turn s who a = some t) : ∀ x, Busy (t.party x) := by
  obtain ⟨_, after, moved, rfl⟩ := turn_eq_some.mp taken
  intro x
  rw [Duo.party_setParty]
  split
  · exact ⟨rfl, running_step _ _ _ (busy who).looping up moved,
      receiving_step (busy who).receiving up moved⟩
  · exact busy x

/-- For either `recv` to return 0 the other process has to be gone, and for that its own. -/
theorem busy_step (s : Both) (a : Action) (t : Both) (busy : ∀ who, Busy (s.party who))
    (holds : Holds s a) (taken : step s a = some t) : ∀ who, Busy (t.party who) := by
  cases a with
  | test who => exact busy_turn (a := .test) busy trivial taken
  | fgets who => exact busy_turn (a := .fgets) busy trivial taken
  | send who beyond =>
    obtain ⟨next, moved, rfl⟩ := Option.map_eq_some_iff.mp taken
    have later := busy_turn (a := .send beyond) busy trivial moved
    exact later
  | recv who k beyond =>
    simp only [step, Option.ite_none_right_eq_some] at taken
    obtain ⟨⟨some_bytes, there⟩, received⟩ := taken
    obtain ⟨next, moved, rfl⟩ := Option.map_eq_some_iff.mp received
    have up : (s.inbox who).take k ≠ [] := by
      intro nothing
      have length := congrArg List.length nothing
      rw [List.length_take_of_le there, List.length_nil] at length
      exact Nat.ne_of_gt some_bytes length
    have later := busy_turn (a := .recv _ beyond) busy up moved
    exact later
  | recvEnd who =>
    simp only [step, Option.ite_none_right_eq_some] at taken
    obtain ⟨⟨gone, _⟩, _⟩ := taken
    rw [(busy who.peer).runs] at gone
    cases gone
  | recvFails who => exact holds.elim
  | exit who =>
    simp only [step, Option.ite_none_right_eq_some] at taken
    obtain ⟨⟨_, returned, _⟩, _⟩ := taken
    exact absurd returned (busy who).looping.2
  | killed who => exact holds.elim

end Busy

/-- Each program ends when the other one has closed the connection, and closes it when it ends: as
long as none of them is ended from outside both run, whatever has been typed, and each can take
another turn. -/
theorem neither_program_ends_first (stack stdin : Side → List Byte) {s : Both}
    (run : ReachWhere step Holds (init stack stdin) s) (who : Side) :
    Busy (s.party who) ∧ ∃ a, Holds s a ∧ (step s a).isSome = true ∧
      (a = .test who ∨ a = .fgets who ∨ a = .send who []) := by
  have busy := invariant_of_step busy_step (fun who =>
    ⟨rfl, ⟨rfl, Sender.noConfusion⟩, rfl⟩) run
  refine ⟨busy who, ?_⟩
  obtain ⟨runs, ⟨_, looping⟩, _⟩ := busy who
  cases here : (s.party who).state.sender with
  | test =>
    refine ⟨.test who, trivial, ?_, .inl rfl⟩
    simp [step, turn, runs, Model.step, here]
  | fgets =>
    refine ⟨.fgets who, trivial, ?_, .inr (.inl rfl)⟩
    simp [step, turn, runs, Model.step, here]
  | send =>
    refine ⟨.send who [], trivial, ?_, .inr (.inr rfl)⟩
    simp [step, turn, runs, Model.step, here]
  | returned => exact absurd here looping

/-- What is shown to one process and what is on its way to it is what the other one has sent. -/
def Conserved (s : Both) : Prop :=
  ∀ who, ∃ chunks : List (List Byte),
    (s.party who).state.shown = chunks.map (fun got => (programs who).heading ++ got) ∧
      chunks.flatten ++ s.inbox who = (s.party who.peer).state.sends.flatten

def Strings (s : Both) : Prop := ∀ who, 0 ∉ (s.party who).state.sends.flatten

section Conserved

variable {s t : Both} {who : Side} {a : Model.Action}

private theorem conserved_turn {shown sends : List (List Byte)} (conserved : Conserved s)
    (adds : Adds (s.party who).state (t.party who).state shown sends)
    (other : (t.party who.peer).state = (s.party who.peer).state)
    (sent : t.inbox who.peer = s.inbox who.peer ++ sends.flatten)
    (heard : ∃ chunks : List (List Byte),
      shown = chunks.map (fun got => (programs who).heading ++ got) ∧
        chunks.flatten ++ t.inbox who = s.inbox who) : Conserved t := by
  rw [Conserved, Side.forall_iff who]
  constructor
  · obtain ⟨chunks, texts, whole⟩ := conserved who
    obtain ⟨more, texts', whole'⟩ := heard
    refine ⟨chunks ++ more, ?_, ?_⟩
    · rw [adds.shown, texts, texts', List.map_append]
    · rw [other, List.flatten_append, List.append_assoc, whole', whole]
  · obtain ⟨chunks, texts, whole⟩ := conserved who.peer
    refine ⟨chunks, ?_, ?_⟩
    · rw [other]
      exact texts
    · rw [Side.peer_peer] at whole ⊢
      rw [adds.sends, List.flatten_append, ← whole, sent, List.append_assoc]

private theorem conserved_quiet (conserved : Conserved s)
    (adds : Adds (s.party who).state (t.party who).state [] [])
    (other : (t.party who.peer).state = (s.party who.peer).state) (inbox : t.inbox = s.inbox) :
    Conserved t := by
  refine conserved_turn conserved adds other ?_ ⟨[], rfl, ?_⟩
  · rw [inbox]
    exact (List.append_nil _).symm
  · rw [inbox]
    rfl

private theorem strings_turn {shown sends : List (List Byte)} (strings : Strings s)
    (adds : Adds (s.party who).state (t.party who).state shown sends)
    (other : (t.party who.peer).state = (s.party who.peer).state) (nul_free : 0 ∉ sends.flatten) :
    Strings t := by
  rw [Strings, Side.forall_iff who]
  refine ⟨?_, ?_⟩
  · rw [adds.sends, List.flatten_append, List.mem_append, not_or]
    exact ⟨strings who, nul_free⟩
  · rw [other]
    exact strings who.peer

private theorem state_turn (taken : turn s who a = some t) :
    Model.step (programs who) (s.party who).state a = some (t.party who).state ∧
      (t.party who.peer).state = (s.party who.peer).state ∧ t.inbox = s.inbox := by
  obtain ⟨_, after, moved, rfl⟩ := turn_eq_some.mp taken
  rw [Duo.party_setParty_self, Duo.party_setParty_peer]
  exact ⟨moved, rfl, rfl⟩

private theorem conserved_gone (h : Conserved s ∧ Strings s) (who : Side) :
    Conserved (s.setParty who { s.party who with gone := true }) ∧
      Strings (s.setParty who { s.party who with gone := true }) := by
  have same : ∀ x, ((s.setParty who { s.party who with gone := true }).party x).state =
      (s.party x).state := by
    intro x
    rw [Duo.party_setParty]
    split
    · rename_i own
      rw [own]
    · rfl
  constructor
  · intro x
    rw [same, same]
    exact h.1 x
  · intro x
    rw [same]
    exact h.2 x

private theorem conserved_step (s : Both) (a : Action) (t : Both) (h : Conserved s ∧ Strings s)
    (roomy : Roomy s a) (taken : step s a = some t) : Conserved t ∧ Strings t := by
  obtain ⟨conserved, strings⟩ := h
  cases a with
  | test who =>
    obtain ⟨moved, other, inbox⟩ := state_turn taken
    have adds := adds_test moved
    exact ⟨conserved_quiet conserved adds other inbox,
      strings_turn strings adds other List.not_mem_nil⟩
  | fgets who =>
    obtain ⟨moved, other, inbox⟩ := state_turn taken
    have adds := adds_fgets moved
    exact ⟨conserved_quiet conserved adds other inbox,
      strings_turn strings adds other List.not_mem_nil⟩
  | send who beyond =>
    obtain ⟨next, sent, rfl⟩ := Option.map_eq_some_iff.mp taken
    obtain ⟨moved, other, inbox⟩ := state_turn sent
    have adds := adds_send moved
    refine ⟨conserved_turn conserved adds other ?_ ⟨[], rfl, ?_⟩,
      strings_turn strings adds other ?_⟩
    · rw [Duo.inbox_setInbox_self, List.flatten_singleton]
    · rw [Duo.inbox_setInbox_of_peer, inbox]
      rfl
    · rw [List.flatten_singleton]
      exact zero_not_mem_cstr _
  | recv who k beyond =>
    simp only [step, Option.ite_none_right_eq_some] at taken
    obtain ⟨⟨some_bytes, there⟩, received⟩ := taken
    obtain ⟨next, got, rfl⟩ := Option.map_eq_some_iff.mp received
    obtain ⟨moved, other, inbox⟩ := state_turn got
    have length : ((s.inbox who).take k).length = k := List.length_take_of_le there
    have nonempty : (s.inbox who).take k ≠ [] := by
      intro nothing
      rw [nothing, List.length_nil] at length
      exact Nat.ne_of_lt some_bytes length
    have clean : 0 ∉ (s.inbox who).take k := by
      obtain ⟨chunks, _, whole⟩ := conserved who
      intro nul
      refine strings who.peer ?_
      rw [← whole]
      exact List.mem_append_right _ (List.mem_of_mem_take nul)
    have adds := adds_recv nonempty (length.trans_lt roomy) clean moved
    refine ⟨conserved_turn conserved adds other ?_ ⟨[(s.inbox who).take k], rfl, ?_⟩,
      strings_turn strings adds other List.not_mem_nil⟩
    · rw [Duo.inbox_setInbox_peer, inbox]
      exact (List.append_nil _).symm
    · rw [Duo.inbox_setInbox_self, List.flatten_singleton, List.take_append_drop]
  | recvEnd who =>
    simp only [step, Option.ite_none_right_eq_some] at taken
    obtain ⟨_, ended⟩ := taken
    obtain ⟨moved, other, inbox⟩ := state_turn ended
    have adds := adds_end moved
    exact ⟨conserved_quiet conserved adds other inbox,
      strings_turn strings adds other List.not_mem_nil⟩
  | recvFails who =>
    obtain ⟨moved, other, inbox⟩ := state_turn taken
    have adds := adds_end moved
    exact ⟨conserved_quiet conserved adds other inbox,
      strings_turn strings adds other List.not_mem_nil⟩
  | exit who =>
    simp only [step, Option.ite_none_right_eq_some, Option.some.injEq] at taken
    obtain ⟨_, rfl⟩ := taken
    exact conserved_gone ⟨conserved, strings⟩ who
  | killed who =>
    obtain rfl := Option.some.inj taken
    exact conserved_gone ⟨conserved, strings⟩ who

end Conserved

def typingTurn (x : Side) : Action → Option Turn
  | .fgets who => if who = x then some .fgets else none
  | .send who beyond => if who = x then some (.send beyond) else none
  | _ => none

section Typing

variable {s t : Both} {a : Action} {b : Model.Action} {x who : Side}

private theorem thread_turn (own : typingTurn x a = if who = x then Endless.turn b else none)
    (taken : Pair.turn s who b = some t) :
    (typingTurn x a = none ∧ (t.party x).state = (s.party x).state) ∨
      ∃ b, Endless.turn b = typingTurn x a ∧
        Model.step (programs x) (s.party x).state b = some (t.party x).state := by
  obtain ⟨moved, other, _⟩ := state_turn taken
  by_cases same : who = x
  · subst same
    rw [if_pos rfl] at own
    exact .inr ⟨b, own.symm, moved⟩
  · rw [if_neg same] at own
    rw [Side.eq_peer_of_ne (Ne.symm same)] at own ⊢
    exact .inl ⟨own, other⟩

private theorem thread_step (x : Side) (taken : step s a = some t) :
    (typingTurn x a = none ∧ (t.party x).state = (s.party x).state) ∨
      ∃ b, Endless.turn b = typingTurn x a ∧
        Model.step (programs x) (s.party x).state b = some (t.party x).state := by
  have gone : ∀ who, ((s.setParty who { s.party who with gone := true }).party x).state =
      (s.party x).state := by
    intro who
    rw [Duo.party_setParty]
    split
    · rename_i own
      rw [own]
    · rfl
  cases a with
  | test who => exact thread_turn (by split <;> rfl) taken
  | fgets who => exact thread_turn rfl taken
  | send who beyond =>
    obtain ⟨next, sent, rfl⟩ := Option.map_eq_some_iff.mp taken
    have own := thread_turn (x := x) (a := .send who beyond) rfl sent
    exact own
  | recv who k beyond =>
    simp only [step, Option.ite_none_right_eq_some] at taken
    obtain ⟨next, got, rfl⟩ := Option.map_eq_some_iff.mp taken.2
    have own := thread_turn (x := x) (a := .recv who k beyond) (by split <;> rfl) got
    exact own
  | recvEnd who =>
    simp only [step, Option.ite_none_right_eq_some] at taken
    exact thread_turn (by split <;> rfl) taken.2
  | recvFails who => exact thread_turn (by split <;> rfl) taken
  | exit who =>
    simp only [step, Option.ite_none_right_eq_some, Option.some.injEq] at taken
    obtain ⟨_, rfl⟩ := taken
    exact .inl ⟨rfl, gone who⟩
  | killed who =>
    obtain rfl := Option.some.inj taken
    exact .inl ⟨rfl, gone who⟩

private theorem sends_of_run {stack stdin : Side → List Byte} (x : Side) (nul_free : 0 ∉ stdin x)
    (more : stdin x ≠ []) (run : Reach step (init stack stdin) s) :
    (s.party x).state.sends =
      (pieces BUFFER_SIZE (stdin x)).take (s.party x).state.sends.length ++
        List.replicate ((s.party x).state.sends.length - (pieces BUFFER_SIZE (stdin x)).length)
          ((pieces BUFFER_SIZE (stdin x)).getLastD []) := by
  have moves : ∀ (s : Both) a b (t : Both), typingTurn x a = some b → step s a = some t →
      Lib.Resending.step BUFFER_SIZE (typing (s.party x).state) b =
        some (typing (t.party x).state) := by
    intro s a b t own taken
    rcases thread_step x taken with ⟨other, _⟩ | ⟨b', same, moved⟩
    · rw [own] at other
      cases other
    · exact typing_moves _ b' b _ (same.trans own) moved
  have stays : ∀ (s : Both) a (t : Both), typingTurn x a = none → step s a = some t →
      typing (t.party x).state = typing (s.party x).state := by
    intro s a t other taken
    rcases thread_step x taken with ⟨_, same⟩ | ⟨b', same, moved⟩
    · rw [same]
    · exact typing_stays _ b' _ (same.trans other) moved
  exact sent_eq_of_view moves stays (by decide) nul_free more rfl run

end Typing

/-- What either user is shown, chunk by chunk, and what is on its way, is what the other one's
process has sent: in its turns, the pieces of what was typed, one by one, and then the last piece
again and again. -/
theorem shown_is_typed_and_again (stack stdin : Side → List Byte)
    (typed : ∀ who, stdin who ≠ [] ∧ 0 ∉ stdin who) {s : Both}
    (run : ReachWhere step Roomy (init stack stdin) s) (who : Side) :
    (∃ chunks : List (List Byte),
      (s.party who).state.shown = chunks.map (fun got => (programs who).heading ++ got) ∧
        chunks.flatten ++ s.inbox who = (s.party who.peer).state.sends.flatten) ∧
      (s.party who).state.sends =
        (pieces BUFFER_SIZE (stdin who)).take (s.party who).state.sends.length ++
          List.replicate
            ((s.party who).state.sends.length - (pieces BUFFER_SIZE (stdin who)).length)
            ((pieces BUFFER_SIZE (stdin who)).getLastD []) := by
  have start : Conserved (init stack stdin) ∧ Strings (init stack stdin) :=
    ⟨fun who => ⟨[], rfl, rfl⟩, fun who => List.not_mem_nil⟩
  obtain ⟨more, nul_free⟩ := typed who
  exact ⟨(invariant_of_step conserved_step start run).1 who,
    sends_of_run who nul_free more run.reach⟩

def lines : Side → List Byte
  | .client => lit ['h', 'i', '\n']
  | .server => lit ['h', 'o', '\n']

def sendTwice : List Action :=
  [.test .client, .fgets .client, .send .client [], .recv .server 3 [], .test .client,
    .fgets .client, .send .client []]

private theorem sendTwice_run : ∃ s, exec step (init (fun _ => []) lines) sendTwice = some s :=
  Option.isSome_iff_exists.mp (by decide +kernel)

theorem both_run_on : ∃ s, ReachWhere step Holds (init (fun _ => []) lines) s ∧
    ∀ who, Busy (s.party who) := by
  obtain ⟨s, taken⟩ := sendTwice_run
  have holds : Guarded step Holds (init (fun _ => []) lines) sendTwice := by
    apply guarded_of_forall
    simp [sendTwice, Holds]
  have run : ReachWhere step Holds (init (fun _ => []) lines) s := ⟨_, holds, taken⟩
  exact ⟨s, run, fun who => (neither_program_ends_first _ _ run who).1⟩

theorem line_shown_and_again : ∃ s, ReachWhere step Roomy (init (fun _ => []) lines) s ∧
    (∃ chunks : List (List Byte),
      (s.party .server).state.shown =
        chunks.map (fun got => (programs .server).heading ++ got) ∧
      chunks.flatten ++ s.inbox .server = (s.party .client).state.sends.flatten) ∧
    (s.party .client).state.sends = [lines .client, lines .client] := by
  have shown : (exec step (init (fun _ => []) lines) sendTwice).map (fun s =>
      (s.party .client).state.sends.length) = some 2 := by
    decide +kernel
  obtain ⟨s, taken, twice⟩ := Option.map_eq_some_iff.mp shown
  have roomy : Guarded step Roomy (init (fun _ => []) lines) sendTwice := by
    apply guarded_of_forall
    simp [sendTwice, Roomy, BUFFER_SIZE]
  have typed : ∀ who, lines who ≠ [] ∧ 0 ∉ lines who := by
    intro who
    cases who
    · decide
    · decide
  have run : ReachWhere step Roomy (init (fun _ => []) lines) s := ⟨_, roomy, taken⟩
  have server := shown_is_typed_and_again _ lines typed run .server
  have client := shown_is_typed_and_again _ lines typed run .client
  refine ⟨s, run, server.1, ?_⟩
  rw [client.2, twice]
  decide +kernel

def left : Sender → ℕ
  | .fgets => 1
  | .send => 1
  | _ => 0

private theorem left_step {program : Program} {s t : State} {b : Model.Action}
    (off : s.running = false) (taken : Model.step program s b = some t) :
    t.running = false ∧ t.sends.length + left t.sender ≤ s.sends.length + left s.sender := by
  cases b with
  | recv got beyond =>
    simp only [Model.step, Option.ite_none_right_eq_some, Option.some.injEq] at taken
    obtain ⟨_, rfl⟩ := taken
    unfold Model.recv
    split
    · exact ⟨rfl, le_rfl⟩
    · exact ⟨off, le_rfl⟩
  | test =>
    simp only [Model.step, Option.ite_none_right_eq_some, Option.some.injEq] at taken
    obtain ⟨_, rfl⟩ := taken
    refine ⟨off, ?_⟩
    rw [Model.test, off]
    exact Nat.le_add_right _ _
  | fgets =>
    simp only [Model.step, Option.ite_none_right_eq_some, Option.some.injEq] at taken
    obtain ⟨here, rfl⟩ := taken
    rw [here]
    unfold Model.fgets
    split
    · exact ⟨off, le_rfl⟩
    · exact ⟨off, le_rfl⟩
  | send beyond =>
    simp only [Model.step, Option.ite_none_right_eq_some, Option.some.injEq] at taken
    obtain ⟨here, rfl⟩ := taken
    refine ⟨off, ?_⟩
    rw [here]
    change (s.sends ++ [_]).length + 0 ≤ s.sends.length + 1
    rw [List.length_append, List.length_singleton]

/-- Once a process has seen the end of the stream, it sends at most what its user types next, on
every path. -/
theorem one_payload_after_the_end (who : Side) {s t : Both}
    (ended : (s.party who).state.running = false) (run : Reach step s t) :
    (t.party who).state.running = false ∧
      (t.party who).state.sends.length ≤ (s.party who).state.sends.length + 1 := by
  have bound : (t.party who).state.running = false ∧
      (t.party who).state.sends.length + left (t.party who).state.sender ≤
        (s.party who).state.sends.length + left (s.party who).state.sender := by
    refine invariant_of_step_reach (P := fun u => (u.party who).state.running = false ∧
      (u.party who).state.sends.length + left (u.party who).state.sender ≤
        (s.party who).state.sends.length + left (s.party who).state.sender) ?_ ⟨ended, le_rfl⟩ run
    rintro u a v ⟨off, before⟩ taken
    rcases thread_step who taken with ⟨_, same⟩ | ⟨b, _, moved⟩
    · rw [same]
      exact ⟨off, before⟩
    · obtain ⟨off', now⟩ := left_step off moved
      exact ⟨off', now.trans before⟩
  have one : left (s.party who).state.sender ≤ 1 := by
    cases (s.party who).state.sender
    all_goals decide
  exact ⟨bound.1, by omega⟩

/-- The server is gone while the client waits for a line. -/
theorem one_payload_after_a_kill : ∃ s t, Reach step (init (fun _ => []) lines) s ∧
    Reach step s t ∧
    (t.party .client).state.sends.length ≤ (s.party .client).state.sends.length + 1 := by
  have shown : (exec step (init (fun _ => []) lines)
      [.test .client, .killed .server, .recvEnd .client]).map
        (fun s => (s.party .client).state.running) = some false := by
    decide +kernel
  obtain ⟨s, taken, ended⟩ := Option.map_eq_some_iff.mp shown
  have further : ((exec step (init (fun _ => []) lines)
      [.test .client, .killed .server, .recvEnd .client]).bind fun s =>
        exec step s [.fgets .client, .send .client [], .test .client, .exit .client]).isSome =
          true := by
    decide +kernel
  rw [taken] at further
  obtain ⟨t, later⟩ := Option.isSome_iff_exists.mp further
  exact ⟨s, t, ⟨_, taken⟩, ⟨_, later⟩, (one_payload_after_the_end .client ended ⟨_, later⟩).2⟩

end SocketChat.MoreLearning.TcpArbitrary.Pair
