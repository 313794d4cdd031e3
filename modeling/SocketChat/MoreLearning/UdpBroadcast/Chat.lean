/- SocketChat/MoreLearning/UdpBroadcast/Chat
   digest: The server with the clients of this directory on a network that loses and doubles. -/

import Mathlib.Logic.Function.Basic
import SocketChat.MoreLearning.UdpBroadcast.Endless
import SocketChat.MoreLearning.UdpBroadcast.Table

set_option autoImplicit false
set_option relaxedAutoImplicit false

namespace SocketChat.MoreLearning.UdpBroadcast.Chat

open SocketChat.Lib.CString
open SocketChat.Lib.FirstComers
open SocketChat.Lib.Lines (pieces of_mem_pieces)
open SocketChat.Lib.Resending (mem_pieces_of_resent)
open SocketChat.Lib.Runs
open Model
open Model.Client (configured)
open Table

structure Packet where
  source : SockaddrIn
  dest : SockaddrIn
  payload : List Byte

structure Segment where
  server : Server.State
  clients : SockaddrIn → Option Client.State
  flight : List Packet

abbrev Users := SockaddrIn → Option (List Byte × List Byte)

def init (users : Users) : Segment where
  server := Server.init
  clients := fun a => (users a).map fun user => Client.init user.1 user.2
  flight := []

def Segment.act (s : Segment) (a : SockaddrIn) (action : Client.Action) : Option Segment :=
  (s.clients a).bind fun c => (Client.step c action).map fun c' =>
    { s with
      clients := Function.update s.clients a (some c')
      flight := s.flight ++
        (c'.sends.drop c.sends.length).map fun d => ⟨a, d.dest, d.msg⟩ }

/-- The server's `recvfrom` returns a datagram, and the loop body is done with it. -/
def Segment.serve (s : Segment) (p : Packet) (beyond : List Byte) : Segment :=
  let served := Server.serve s.server (.received p.source p.payload) beyond
  { s with
    server := served.1
    flight := s.flight ++ served.2.map fun d => ⟨configured, d.dest, d.msg⟩ }

def Segment.deliver (s : Segment) (p : Packet) (beyond : List Byte) : Option Segment :=
  if p.dest = configured then some (s.serve p beyond)
  else if s.clients p.dest = none then some s
  else s.act p.dest (.recvfrom p.source p.payload beyond)

/-- A call of a client, or the network delivers, loses or doubles a datagram it holds. -/
inductive Action
  | fgets (a : SockaddrIn)
  | sendto (a : SockaddrIn) (beyond : List Byte)
  | recvfromFails (a : SockaddrIn)
  | deliver (i : ℕ) (beyond : List Byte)
  | lose (i : ℕ)
  | duplicate (i : ℕ)
deriving DecidableEq

def step (s : Segment) : Action → Option Segment
  | .fgets a => s.act a .fgets
  | .sendto a beyond => s.act a (.sendto beyond)
  | .recvfromFails a => s.act a .recvfromFails
  | .deliver i beyond => s.flight[i]?.bind fun p =>
      ({ s with flight := s.flight.eraseIdx i } : Segment).deliver p beyond
  | .lose i => s.flight[i]?.map fun _ => { s with flight := s.flight.eraseIdx i }
  | .duplicate i => s.flight[i]?.map fun p => { s with flight := s.flight ++ [p] }

/-- Every user types something, without a NUL, and none sits at the server's address. -/
structure Typists (users : Users) : Prop where
  types : ∀ a user, users a = some user → user.2 ≠ [] ∧ 0 ∉ user.2
  elsewhere : users configured = none

def Typed (users : Users) (a : SockaddrIn) (text : List Byte) : Prop :=
  ∃ user, users a = some user ∧ text ∈ pieces BUFFER_SIZE user.2

def Spoken (clients : SockaddrIn → Option Client.State) (a : SockaddrIn) : Prop :=
  ∃ c, clients a = some c ∧ c.sends ≠ []

/-- A datagram carries a piece that its source has typed to the server, or one that another client
has typed from the server to a client it knows. -/
def Fair (users : Users) (clients : SockaddrIn → Option Client.State) (p : Packet) : Prop :=
  if p.dest = configured then Spoken clients p.source ∧ Typed users p.source p.payload
  else p.source = configured ∧ Spoken clients p.dest ∧
    ∃ b, b ≠ p.dest ∧ Typed users b p.payload

structure Sound (users : Users) (a : SockaddrIn) (c : Client.State) : Prop where
  run : ∃ user, users a = some user ∧ Reach Client.step (Client.init user.1 user.2) c
  server : c.server = configured
  aimed : ∀ d ∈ c.sends, d.dest = configured
  listening : c.receiver ≠ .ended 0
  shown : ∀ text ∈ c.shown, ∃ b, b ≠ a ∧ Typed users b text
  lurking : c.shown ≠ [] → c.sends ≠ []

structure Kept (users : Users) (s : Segment) : Prop where
  clients : ∀ a c, s.clients a = some c → Sound users a c
  table : ∀ a ∈ s.server.table, Spoken s.clients a
  flight : ∀ p ∈ s.flight, Fair users s.clients p

section Typing

variable {users : Users} {a : SockaddrIn} {text : List Byte}

private theorem Typed.whole (h : Typed users a text) (typists : Typists users)
    (beyond : List Byte) :
    text ≠ [] ∧ text.length ≤ BUFFER_SIZE ∧
      cstr (overwrite (List.replicate BUFFER_SIZE 0) (text.take BUFFER_SIZE) ++ beyond) = text := by
  obtain ⟨user, here, typed⟩ := h
  obtain ⟨nonempty, fits, within⟩ := of_mem_pieces (by decide) typed
  have short : text.length < BUFFER_SIZE := Nat.lt_of_le_of_lt fits (by decide)
  have nul_free : 0 ∉ text := fun zero => (typists.types a user here).2 (within.subset zero)
  refine ⟨nonempty, short.le, ?_⟩
  rw [List.take_of_length_le short.le, cstr_overwrite_zeros short, cstr_of_nul_free nul_free]

private theorem Sound.typed {c : Client.State} (h : Sound users a c) (typists : Typists users)
    {d : SendTo} (sent : d ∈ c.sends) : Typed users a d.msg := by
  obtain ⟨user, here, run⟩ := h.run
  obtain ⟨more, nul_free⟩ := typists.types a user here
  have among : d.msg ∈ Endless.payloads c := List.mem_map_of_mem sent
  rw [Endless.sent_again nul_free more run] at among
  exact ⟨user, here, mem_pieces_of_resent (by decide) more among⟩

end Typing

section Client

variable {users : Users} {a : SockaddrIn} {c c' : Client.State}

private theorem Sound.step (h : Sound users a c) {x : Client.Action}
    (taken : Client.step c x = some c') :
    ∃ user, users a = some user ∧ Reach Client.step (Client.init user.1 user.2) c' := by
  obtain ⟨user, here, as, run⟩ := h.run
  exact ⟨user, here, as ++ [x], exec_append_eq_some run (exec_cons_eq_some.mpr ⟨c', taken, rfl⟩)⟩

private theorem sound_fgets (h : Sound users a c) (taken : Client.step c .fgets = some c') :
    Sound users a c' ∧ c'.sends = c.sends := by
  have run := h.step taken
  simp only [Client.step, Option.ite_none_right_eq_some, Option.some.injEq] at taken
  obtain ⟨_, rfl⟩ := taken
  unfold Client.fgets at run ⊢
  split at run
  · exact ⟨{ h with run := run }, rfl⟩
  · exact ⟨{ h with run := run }, rfl⟩

private theorem sound_sendto (h : Sound users a c) {beyond : List Byte}
    (taken : Client.step c (.sendto beyond) = some c') :
    Sound users a c' ∧ ∃ d, c'.sends = c.sends ++ [d] := by
  have run := h.step taken
  simp only [Client.step, Option.ite_none_right_eq_some, Option.some.injEq] at taken
  obtain ⟨_, rfl⟩ := taken
  refine ⟨{ h with run := run, aimed := ?_, lurking := ?_ }, _, rfl⟩
  · intro d sent
    rcases List.mem_append.mp sent with before | last
    · exact h.aimed d before
    · rw [List.mem_singleton.mp last]
      exact h.server
  · intro _
    exact List.append_ne_nil_of_right_ne_nil _ (List.cons_ne_nil _ _)

private theorem sound_recvfromFails (h : Sound users a c)
    (taken : Client.step c .recvfromFails = some c') :
    Sound users a c' ∧ c'.sends = c.sends := by
  have run := h.step taken
  simp only [Client.step, Option.ite_none_right_eq_some, Option.some.injEq] at taken
  obtain ⟨_, rfl⟩ := taken
  refine ⟨{ h with run := run, listening := ?_ }, rfl⟩
  rintro ⟨⟩

private theorem sound_recvfrom (h : Sound users a c) (typists : Typists users) {b : SockaddrIn}
    {payload beyond : List Byte} (other : b ≠ a) (typed : Typed users b payload)
    (spoken : c.sends ≠ [])
    (taken : Client.step c (.recvfrom configured payload beyond) = some c') :
    Sound users a c' ∧ c'.sends = c.sends := by
  have run := h.step taken
  obtain ⟨nonempty, fits, whole⟩ := typed.whole typists beyond
  simp only [Client.step, Option.ite_none_right_eq_some, Option.some.injEq] at taken
  obtain ⟨_, rfl⟩ := taken
  have some_bytes : (payload.take BUFFER_SIZE).length ≠ 0 := by
    rw [List.take_of_length_le fits]
    exact fun none_left => nonempty (List.eq_nil_of_length_eq_zero none_left)
  unfold Client.recvfrom at run ⊢
  rw [if_neg some_bytes] at run ⊢
  refine ⟨{ h with run := run, server := rfl, shown := ?_, lurking := fun _ => spoken }, rfl⟩
  intro text shown
  rcases List.mem_append.mp shown with before | last
  · exact h.shown text before
  · rw [List.mem_singleton.mp last, whole]
    exact ⟨b, other, typed⟩

end Client

section Segment

variable {users : Users} {s t : Segment} {a : SockaddrIn} {c c' : Client.State}

private theorem spoken_update (here : s.clients a = some c) (more : c.sends <+: c'.sends)
    {b : SockaddrIn} (spoken : Spoken s.clients b) :
    Spoken (Function.update s.clients a (some c')) b := by
  obtain ⟨d, there, sent⟩ := spoken
  by_cases same : b = a
  · subst same
    obtain rfl := Option.some.inj (here.symm.trans there)
    refine ⟨c', Function.update_self .., fun nothing => sent ?_⟩
    rw [nothing] at more
    exact List.prefix_nil.mp more
  · exact ⟨d, (Function.update_of_ne same ..).trans there, sent⟩

private theorem fair_mono {clients clients' : SockaddrIn → Option Client.State} {p : Packet}
    (mono : ∀ b, Spoken clients b → Spoken clients' b) (fair : Fair users clients p) :
    Fair users clients' p := by
  unfold Fair at fair ⊢
  split
  · rename_i up
    rw [if_pos up] at fair
    exact ⟨mono _ fair.1, fair.2⟩
  · rename_i down
    rw [if_neg down] at fair
    exact ⟨fair.1, mono _ fair.2.1, fair.2.2⟩

private theorem kept_flight (h : Kept users s) {flight : List Packet} (within : flight ⊆ s.flight) :
    Kept users { s with flight := flight } :=
  ⟨h.clients, h.table, fun p held => h.flight p (within held)⟩

private theorem kept_act (h : Kept users s) (typists : Typists users) (here : s.clients a = some c)
    (sound : Sound users a c') (more : c.sends <+: c'.sends) :
    Kept users { s with
      clients := Function.update s.clients a (some c')
      flight := s.flight ++
        (c'.sends.drop c.sends.length).map fun d => ⟨a, d.dest, d.msg⟩ } := by
  have mono : ∀ b, Spoken s.clients b → Spoken (Function.update s.clients a (some c')) b :=
    fun b => spoken_update here more
  constructor
  · intro b d there
    by_cases same : b = a
    · subst same
      have current : Function.update s.clients b (some c') b = some c' := Function.update_self ..
      obtain rfl := Option.some.inj (current.symm.trans there)
      exact sound
    · exact h.clients b d ((Function.update_of_ne same ..).symm.trans there)
  · exact fun b known => mono b (h.table b known)
  · intro p held
    rcases List.mem_append.mp held with old | new
    · exact fair_mono mono (h.flight p old)
    · obtain ⟨d, sent, rfl⟩ := List.mem_map.mp new
      have among := List.mem_of_mem_drop sent
      rw [Fair, if_pos (sound.aimed d among)]
      exact ⟨⟨c', Function.update_self .., List.ne_nil_of_mem among⟩, sound.typed typists among⟩

private theorem Kept.ne_configured (h : Kept users s) (typists : Typists users)
    (spoken : Spoken s.clients a) : a ≠ configured := by
  rintro rfl
  obtain ⟨c, here, _⟩ := spoken
  obtain ⟨user, there, _⟩ := (h.clients _ c here).run
  rw [typists.elsewhere] at there
  cases there

private theorem kept_serve (h : Kept users s) (typists : Typists users) {p : Packet}
    (fair : Fair users s.clients p) (up : p.dest = configured) (beyond : List Byte) :
    Kept users (s.serve p beyond) := by
  rw [Fair, if_pos up] at fair
  obtain ⟨spoken, typed⟩ := fair
  have entered : ∀ b ∈ (Server.enter s.server p.source).table, Spoken s.clients b := by
    intro b known
    rw [table_enter] at known
    by_cases own : b = p.source
    · exact own ▸ spoken
    · exact h.table b ((mem_register own).mp known)
  refine ⟨h.clients, entered, fun q held => ?_⟩
  rcases List.mem_append.mp held with old | new
  · exact h.flight q old
  · obtain ⟨d, sent, rfl⟩ := List.mem_map.mp new
    rw [Server.serve, broadcast_eq] at sent
    obtain ⟨entry, listed, rfl⟩ := List.mem_map.mp sent
    obtain ⟨known, other⟩ := List.mem_filter.mp listed
    have there := entered entry known
    rw [Fair, if_neg (h.ne_configured typists there)]
    refine ⟨rfl, there, p.source, fun same => of_decide_eq_true other same.symm, ?_⟩
    have whole := (typed.whole typists beyond).2.2
    exact whole.symm ▸ typed

private theorem act_eq_some {x : Client.Action} (taken : s.act a x = some t) :
    ∃ c, s.clients a = some c ∧ ∃ c', Client.step c x = some c' ∧ t = { s with
      clients := Function.update s.clients a (some c')
      flight := s.flight ++
        (c'.sends.drop c.sends.length).map fun d => ⟨a, d.dest, d.msg⟩ } := by
  obtain ⟨c, here, moved⟩ := Option.bind_eq_some_iff.mp taken
  obtain ⟨c', called, rfl⟩ := Option.map_eq_some_iff.mp moved
  exact ⟨c, here, c', called, rfl⟩

private theorem kept_deliver (h : Kept users s) (typists : Typists users) {p : Packet}
    (fair : Fair users s.clients p) {beyond : List Byte}
    (taken : s.deliver p beyond = some t) : Kept users t := by
  unfold Segment.deliver at taken
  split at taken
  · rename_i up
    obtain rfl := Option.some.inj taken
    exact kept_serve h typists fair up beyond
  · rename_i down
    rw [Fair, if_neg down] at fair
    obtain ⟨source, ⟨d, there, sent⟩, b, other, typed⟩ := fair
    split at taken
    · obtain rfl := Option.some.inj taken
      exact h
    · obtain ⟨c, here, c', called, rfl⟩ := act_eq_some taken
      obtain rfl := Option.some.inj (here.symm.trans there)
      rw [source] at called
      obtain ⟨sound, same⟩ :=
        sound_recvfrom (h.clients _ c here) typists other typed sent called
      exact kept_act h typists here sound (same ▸ List.prefix_rfl)

private theorem kept_step (typists : Typists users) (s : Segment) (a : Action) (t : Segment)
    (h : Kept users s) (taken : step s a = some t) : Kept users t := by
  cases a with
  | fgets a =>
    obtain ⟨c, here, c', called, rfl⟩ := act_eq_some taken
    obtain ⟨sound, same⟩ := sound_fgets (h.clients a c here) called
    exact kept_act h typists here sound (same ▸ List.prefix_rfl)
  | sendto a beyond =>
    obtain ⟨c, here, c', called, rfl⟩ := act_eq_some taken
    obtain ⟨sound, d, more⟩ := sound_sendto (h.clients a c here) called
    exact kept_act h typists here sound (more ▸ List.prefix_append ..)
  | recvfromFails a =>
    obtain ⟨c, here, c', called, rfl⟩ := act_eq_some taken
    obtain ⟨sound, same⟩ := sound_recvfromFails (h.clients a c here) called
    exact kept_act h typists here sound (same ▸ List.prefix_rfl)
  | deliver i beyond =>
    obtain ⟨p, held, delivered⟩ := Option.bind_eq_some_iff.mp taken
    have less := kept_flight h (List.eraseIdx_subset (l := s.flight) (k := i))
    exact kept_deliver less typists (h.flight p (List.mem_of_getElem? held)) delivered
  | lose i =>
    obtain ⟨p, held, rfl⟩ := Option.map_eq_some_iff.mp taken
    exact kept_flight h List.eraseIdx_subset
  | duplicate i =>
    obtain ⟨p, held, rfl⟩ := Option.map_eq_some_iff.mp taken
    refine kept_flight h (List.append_subset.mpr ⟨fun q inside => inside, ?_⟩)
    intro q again
    rw [List.mem_singleton.mp again]
    exact List.mem_of_getElem? held

private theorem kept_init (users : Users) : Kept users (init users) where
  clients := by
    intro a c here
    obtain ⟨user, there, rfl⟩ := Option.map_eq_some_iff.mp here
    refine ⟨⟨user, there, [], rfl⟩, rfl, ?_, ?_, ?_, fun shown => absurd rfl shown⟩
    · intro d sent
      cases sent
    · rintro ⟨⟩
    · intro text shown
      cases shown
  table := by
    intro a known
    cases known
  flight := by
    intro p held
    cases held

end Segment

/-- Among these clients alone, on a network that may lose, double and reorder datagrams, nobody
is silenced or redirected: what a client is shown is a piece that another user has typed, and
a client that has sent nothing is shown nothing. -/
theorem everyone_hears_the_others (users : Users) (typists : Typists users) {s : Segment}
    (run : Reach step (init users) s) {a : SockaddrIn} {c : Client.State}
    (here : s.clients a = some c) :
    c.receiver ≠ .ended 0 ∧ (∀ d ∈ c.sends, d.dest = configured ∧ Typed users a d.msg) ∧
      (∀ text ∈ c.shown, ∃ b, b ≠ a ∧ Typed users b text) ∧ (c.shown ≠ [] → c.sends ≠ []) := by
  have kept : Kept users s := invariant_of_step_reach (kept_step typists) (kept_init users) run
  have sound := kept.clients a c here
  exact ⟨sound.listening, fun d sent => ⟨sound.aimed d sent, sound.typed typists sent⟩,
    sound.shown, sound.lurking⟩

def pair (a : SockaddrIn) : Option (List Byte × List Byte) :=
  if a = ⟨1, 1⟩ then some ([], lit ['h', 'i', '\n'])
  else if a = ⟨2, 2⟩ then some ([], lit ['h', 'o', '\n'])
  else none

private theorem typists_pair : Typists pair where
  types := by
    intro a user here
    unfold pair at here
    split at here
    · obtain rfl := Option.some.inj here
      decide
    · split at here
      · obtain rfl := Option.some.inj here
        decide
      · cases here
  elsewhere := by decide

def bothTalk : List Action :=
  [.fgets ⟨1, 1⟩, .sendto ⟨1, 1⟩ [], .deliver 0 [], .fgets ⟨2, 2⟩, .sendto ⟨2, 2⟩ [],
    .deliver 0 [], .deliver 0 []]

theorem line_heard : ∃ s c, Reach step (init pair) s ∧ s.clients ⟨1, 1⟩ = some c ∧
    c.shown = [lit ['h', 'o', '\n']] ∧ c.receiver ≠ .ended 0 ∧
    (∀ d ∈ c.sends, d.dest = configured ∧ Typed pair ⟨1, 1⟩ d.msg) ∧
    (∀ text ∈ c.shown, ∃ b, b ≠ ⟨1, 1⟩ ∧ Typed pair b text) ∧ (c.shown ≠ [] → c.sends ≠ []) := by
  have talked : ((exec step (init pair) bothTalk).bind fun s =>
      (s.clients ⟨1, 1⟩).map (·.shown)) = some [lit ['h', 'o', '\n']] := by decide +kernel
  obtain ⟨s, taken, shown⟩ := Option.bind_eq_some_iff.mp talked
  obtain ⟨c, here, text⟩ := Option.map_eq_some_iff.mp shown
  exact ⟨s, c, ⟨_, taken⟩, here, text,
    everyone_hears_the_others pair typists_pair ⟨_, taken⟩ here⟩

end SocketChat.MoreLearning.UdpBroadcast.Chat
