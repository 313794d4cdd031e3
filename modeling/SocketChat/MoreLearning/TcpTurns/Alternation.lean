/- SocketChat/MoreLearning/TcpTurns/Alternation
   digest: The k-th text shown is the k-th text sent as long as every recv takes a whole text. -/

import SocketChat.Lib.Runs
import SocketChat.MoreLearning.TcpTurns.Model

set_option autoImplicit false
set_option relaxedAutoImplicit false

namespace SocketChat.MoreLearning.TcpTurns.Alternation

open SocketChat.Lib.CString
open SocketChat.Lib.Lines
open SocketChat.Lib.Runs
open SocketChat.Lib.Sides
open Model

/-- The k-th text that a side has shown is the k-th text that the other side sent. -/
def InStep (s : State) : Prop := ∀ x, (s.party x).shown <+: (s.party x.peer).sent

/-- Every `recv` returns all the bytes in flight. -/
def Whole (s : State) : Action → Prop
  | .recv who k _ => k = (s.inbox who).length
  | _ => True

instance decidableWhole (s : State) : (a : Action) → Decidable (Whole s a)
  | .type _ => isTrue trivial
  | .recv who k _ => inferInstanceAs (Decidable (k = (s.inbox who).length))
  | .hangup _ => isTrue trivial

def waiting (s : State) (x : Side) : List (List Byte) :=
  (s.party x.peer).sent.drop (s.party x).shown.length

def turn (s : State) (x : Side) : ℕ := if (s.party x).point = .fgets then 1 else 0

def Inside (s : State) (x : Side) : Prop := (s.party x).point ≠ .closed

def Sendable (m : List Byte) : Prop := 0 ∉ m ∧ m.length < BUFFER_SIZE

/-- While both sides are in their loops, either one of them is to type or one text is on its
way. -/
structure Aligned (s : State) : Prop where
  account : InStep s
  pending : ∀ x, s.inbox x = (waiting s x).flatten
  texts : ∀ x, ∀ m ∈ (s.party x).sent, Sendable m
  single : ∀ x, Inside s x → (waiting s x).length ≤ 1
  floor : ∀ x, Inside s x → Inside s x.peer →
    turn s x + turn s x.peer + ((waiting s x).length + (waiting s x.peer).length) = 1

theorem sendable_typed (stdin : List Byte) : Sendable (cstr (typed stdin).1) := by
  refine ⟨zero_not_mem_cstr _, ?_⟩
  unfold typed
  cases typed_line : Lib.Lines.fgets BUFFER_SIZE stdin with
  | none =>
    have empty : cstr cleared = [] := rfl
    rw [empty]
    exact Nat.succ_pos 255
  | some both =>
    obtain ⟨piece, rest⟩ := both
    have bound : piece.length ≤ BUFFER_SIZE - 1 := fgets_length_le typed_line
    have shorter : (cstr piece).length ≤ piece.length := (List.takeWhile_sublist _).length_le
    simp only [cstr_overwrite]
    unfold BUFFER_SIZE at bound ⊢
    omega

private theorem shown_take {m : List Byte} (sendable : Sendable m) (k : ℕ) (beyond : List Byte) :
    cstr (overwrite cleared (m.take k) ++ beyond) = m.take k := by
  have fits : (m.take k).length < BUFFER_SIZE := by
    have bound := sendable.2
    simp only [List.length_take]
    omega
  rw [cleared, cstr_overwrite_zeros fits]
  exact cstr_of_nul_free fun zero => sendable.1 (List.mem_of_mem_take zero)

section Sides

variable {s : State}

private theorem account_peer (account : InStep s) (who : Side) :
    (s.party who.peer).shown <+: (s.party who).sent := by
  have there := account who.peer
  rwa [Side.peer_peer] at there

private theorem waiting_peer (s : State) (who : Side) :
    waiting s who.peer = (s.party who).sent.drop (s.party who.peer).shown.length := by
  rw [waiting, Side.peer_peer]

private theorem aligned_of_sides (who : Side)
    (account : (s.party who).shown <+: (s.party who.peer).sent)
    (account_there : (s.party who.peer).shown <+: (s.party who).sent)
    (pending : s.inbox who = (waiting s who).flatten)
    (pending_there : s.inbox who.peer = (waiting s who.peer).flatten)
    (texts : ∀ m ∈ (s.party who).sent, Sendable m)
    (texts_there : ∀ m ∈ (s.party who.peer).sent, Sendable m)
    (single : Inside s who → (waiting s who).length ≤ 1)
    (single_there : Inside s who.peer → (waiting s who.peer).length ≤ 1)
    (floor : Inside s who → Inside s who.peer →
      turn s who + turn s who.peer + ((waiting s who).length + (waiting s who.peer).length) = 1) :
    Aligned s where
  account := (Side.forall_iff who).mpr ⟨account, by rwa [Side.peer_peer]⟩
  pending := (Side.forall_iff who).mpr ⟨pending, pending_there⟩
  texts := (Side.forall_iff who).mpr ⟨texts, texts_there⟩
  single := (Side.forall_iff who).mpr ⟨single, single_there⟩
  floor := by
    refine (Side.forall_iff who).mpr ⟨floor, fun there here => ?_⟩
    rw [Side.peer_peer] at here ⊢
    have total := floor here there
    omega

end Sides

section Steps

variable {s t : State}

private theorem shown_append_waiting (account : InStep s) (x : Side) :
    (s.party x).shown ++ waiting s x = (s.party x.peer).sent :=
  List.prefix_iff_eq_append.mp (account x)

private theorem pending_text (here : Aligned s) {x : Side} (inside : Inside s x)
    (some_bytes : 0 < (s.inbox x).length) :
    waiting s x = [s.inbox x] ∧ Sendable (s.inbox x) := by
  have single := here.single x inside
  have pending := here.pending x
  have account := shown_append_waiting here.account x
  cases held : waiting s x with
  | nil =>
    rw [held] at pending
    rw [pending] at some_bytes
    cases some_bytes
  | cons m more =>
    rw [held, List.length_cons] at single
    obtain rfl : more = [] := List.length_eq_zero_iff.mp (by omega)
    rw [held] at pending account
    have text : s.inbox x = m := by simpa using pending
    rw [text]
    refine ⟨rfl, here.texts x.peer m ?_⟩
    rw [← account]
    exact List.mem_append_right _ List.mem_cons_self

private theorem aligned_close (before : Aligned s) (who : Side) {p : Party}
    (closed : p.point = .closed) (shown : p.shown = (s.party who).shown)
    (sent : p.sent = (s.party who).sent) : Aligned (s.setParty who p) := by
  generalize after : s.setParty who p = t
  have mine : t.party who = p := by
    rw [← after, Duo.party_setParty_self]
  have other : t.party who.peer = s.party who.peer := by
    rw [← after, Duo.party_setParty_peer]
  have held : t.inbox = s.inbox := by
    rw [← after, Duo.inbox_setParty]
  have waits : waiting t who = waiting s who := by
    rw [waiting, waiting, mine, other, shown]
  have waits_there : waiting t who.peer = waiting s who.peer := by
    rw [waiting_peer, waiting_peer, mine, other, sent]
  have left : ¬Inside t who := by
    rw [Inside, mine]
    exact not_not.mpr closed
  apply aligned_of_sides who
  · rw [mine, other, shown]
    exact before.account who
  · rw [mine, other, sent]
    exact account_peer before.account who
  · rw [held, waits]
    exact before.pending who
  · rw [held, waits_there]
    exact before.pending who.peer
  · rw [mine, sent]
    exact before.texts who
  · rw [other]
    exact before.texts who.peer
  · intro inside
    exact absurd inside left
  · intro inside_there
    rw [waits_there]
    exact before.single who.peer (by rwa [Inside, other] at inside_there)
  · intro inside
    exact absurd inside left

private theorem aligned_type (before : Aligned s) {who : Side}
    (ready : (s.party who).point = .fgets) : Aligned (type s who) := by
  unfold type
  dsimp only
  split
  · exact aligned_close before who rfl rfl rfl
  · generalize text : cstr (typed (s.party who).stdin).1 = m
    have sendable : Sendable m := text ▸ sendable_typed _
    generalize after : (s.setParty who _).setInbox who.peer (s.inbox who.peer ++ m) = t
    have mine : (t.party who).point = .recv ∧ (t.party who).shown = (s.party who).shown ∧
        (t.party who).sent = (s.party who).sent ++ [m] := by
      rw [← after, Duo.party_setInbox, Duo.party_setParty_self]
      exact ⟨rfl, rfl, rfl⟩
    obtain ⟨point, shown, sent⟩ := mine
    have other : t.party who.peer = s.party who.peer := by
      rw [← after, Duo.party_setInbox, Duo.party_setParty_peer]
    have held : t.inbox who = s.inbox who := by
      rw [← after, Duo.inbox_setInbox_of_peer, Duo.inbox_setParty]
    have held_there : t.inbox who.peer = s.inbox who.peer ++ m := by
      rw [← after, Duo.inbox_setInbox_self]
    have account_there := account_peer before.account who
    have waits : waiting t who = waiting s who := by
      rw [waiting, waiting, other, shown]
    have waits_there : waiting t who.peer = waiting s who.peer ++ [m] := by
      rw [waiting_peer, waiting_peer, other, sent,
        List.drop_append_of_le_length account_there.length_le]
    have floor : Inside t who.peer →
        turn s who.peer + ((waiting s who).length + (waiting s who.peer).length) = 0 := by
      intro inside_there
      have inside : Inside s who := by
        rw [Inside, ready]
        exact Point.noConfusion
      have typing : turn s who = 1 := if_pos ready
      have total := before.floor who inside (by rwa [Inside, other] at inside_there)
      omega
    apply aligned_of_sides who
    · rw [other, shown]
      exact before.account who
    · rw [other, sent]
      exact account_there.trans (List.prefix_append _ _)
    · rw [held, waits]
      exact before.pending who
    · rw [held_there, waits_there, List.flatten_append, ← before.pending who.peer]
      simp
    · intro text' in_sent
      rw [sent] at in_sent
      rcases List.mem_append.mp in_sent with old | new
      · exact before.texts who text' old
      · exact List.mem_singleton.mp new ▸ sendable
    · rw [other]
      exact before.texts who.peer
    · intro _
      rw [waits]
      exact before.single who (by rw [Inside, ready]; exact Point.noConfusion)
    · intro inside_there
      have nothing := floor inside_there
      rw [waits_there, List.length_append, List.length_singleton]
      omega
    · intro _ inside_there
      have nothing := floor inside_there
      have done : turn t who = 0 := if_neg (by rw [point]; exact Point.noConfusion)
      have same : turn t who.peer = turn s who.peer := by
        rw [turn, turn, other]
      rw [done, same, waits, waits_there, List.length_append, List.length_singleton]
      omega

private theorem aligned_recv (before : Aligned s) {who : Side} {k : ℕ} {beyond : List Byte}
    (ready : (s.party who).point = .recv) (pos : 0 < k) (whole : k = (s.inbox who).length) :
    Aligned (recv s who k beyond) := by
  have inside : Inside s who := by
    rw [Inside, ready]
    exact Point.noConfusion
  obtain ⟨waits, sendable⟩ := pending_text before inside (whole ▸ pos)
  have account := shown_append_waiting before.account who
  rw [waits] at account
  unfold recv
  dsimp only
  rw [shown_take sendable, whole, List.take_length, List.drop_length]
  generalize text : s.inbox who = m at *
  generalize after : (s.setParty who _).setInbox who [] = t
  have mine : (t.party who).point = .fgets ∧ (t.party who).shown = (s.party who).shown ++ [m] ∧
      (t.party who).sent = (s.party who).sent := by
    rw [← after, Duo.party_setInbox, Duo.party_setParty_self]
    exact ⟨rfl, rfl, rfl⟩
  obtain ⟨point, shown, sent⟩ := mine
  have other : t.party who.peer = s.party who.peer := by
    rw [← after, Duo.party_setInbox, Duo.party_setParty_peer]
  have held : t.inbox who = [] := by
    rw [← after, Duo.inbox_setInbox_self]
  have held_there : t.inbox who.peer = s.inbox who.peer := by
    rw [← after, Duo.inbox_setInbox_peer, Duo.inbox_setParty]
  have waits_now : waiting t who = [] := by
    rw [waiting, other, shown, account, List.drop_length]
  have waits_there : waiting t who.peer = waiting s who.peer := by
    rw [waiting_peer, waiting_peer, other, sent]
  apply aligned_of_sides who
  · have level : (t.party who).shown = (t.party who.peer).sent := by
      rw [other, shown, account]
    exact level ▸ List.prefix_rfl
  · rw [other, sent]
    exact account_peer before.account who
  · rw [held, waits_now, List.flatten_nil]
  · rw [held_there, waits_there]
    exact before.pending who.peer
  · rw [sent]
    exact before.texts who
  · rw [other]
    exact before.texts who.peer
  · intro _
    rw [waits_now]
    exact Nat.zero_le 1
  · intro inside_there
    rw [waits_there]
    exact before.single who.peer (by rwa [Inside, other] at inside_there)
  · intro _ inside_there
    have total := before.floor who inside (by rwa [Inside, other] at inside_there)
    have silent : turn s who = 0 := if_neg (by rw [ready]; exact Point.noConfusion)
    have typing : turn t who = 1 := if_pos point
    have same : turn t who.peer = turn s who.peer := by
      rw [turn, turn, other]
    rw [waits, List.length_singleton] at total
    rw [typing, same, waits_now, waits_there, List.length_nil]
    omega

private theorem aligned_step (s : State) (a : Action) (t : State) (before : Aligned s)
    (whole : Whole s a) (taken : step s a = some t) : Aligned t := by
  cases a with
  | type who =>
    simp only [step, Option.ite_none_right_eq_some, Option.some.injEq] at taken
    obtain ⟨ready, rfl⟩ := taken
    exact aligned_type before ready
  | recv who k beyond =>
    simp only [step, Option.ite_none_right_eq_some, Option.some.injEq] at taken
    obtain ⟨⟨ready, pos, _, _⟩, rfl⟩ := taken
    exact aligned_recv before ready pos whole
  | hangup who =>
    simp only [step, Option.ite_none_right_eq_some, Option.some.injEq] at taken
    obtain ⟨_, rfl⟩ := taken
    exact aligned_close before who rfl rfl rfl

private theorem whole_of_inStep (s : State) (a : Action) (t : State) (before : Aligned s)
    (taken : step s a = some t) (after : InStep t) : Whole s a := by
  cases a with
  | recv who k beyond =>
    simp only [step, Option.ite_none_right_eq_some, Option.some.injEq] at taken
    obtain ⟨⟨ready, pos, _, bound⟩, rfl⟩ := taken
    have inside : Inside s who := by
      rw [Inside, ready]
      exact Point.noConfusion
    obtain ⟨waits, sendable⟩ := pending_text before inside (by omega)
    have account := shown_append_waiting before.account who
    have shown := after who
    rw [recv, Duo.party_setInbox, Duo.party_setParty_self, Duo.party_setParty_peer,
      shown_take sendable, ← account, waits] at shown
    have same := List.prefix_append_right_inj _ |>.mp shown
    have part : (s.inbox who).take k = s.inbox who := by simpa using same
    have length := congrArg List.length part
    rw [List.length_take] at length
    exact (by omega : k = (s.inbox who).length)
  | type who => trivial
  | hangup who => trivial

private theorem aligned_init (stdin : Side → List Byte) : Aligned (init stdin) := by
  apply aligned_of_sides .server
  · exact List.nil_prefix
  · exact List.nil_prefix
  · rfl
  · rfl
  · intro m none_sent
    cases none_sent
  · intro m none_sent
    cases none_sent
  · intro _
    exact Nat.zero_le 1
  · intro _
    exact Nat.zero_le 1
  · intro _ _
    rfl

end Steps

/-- Along a run the k-th text shown on each side is the k-th text sent by the other, for every
k, exactly when every `recv` returns all of the text that is in flight. -/
theorem in_step_iff_whole (stdin : Side → List Byte) {as : List Action} {t : State}
    (taken : exec step (init stdin) as = some t) :
    Always step InStep (init stdin) as ↔ Guarded step Whole (init stdin) as :=
  always_iff_guarded_of_invariant (fun _ here => here.account) aligned_step whole_of_inStep
    (aligned_init stdin) taken

def greeting : Side → List Byte
  | .server => [104, 105, 10]
  | .client => [111, 107, 10]

theorem in_step_iff_whole_two_turns : ∃ t,
    exec step (init greeting)
        [.type .server, .recv .client 3 [], .type .client, .recv .server 3 []] = some t ∧
      Always step InStep (init greeting)
        [.type .server, .recv .client 3 [], .type .client, .recv .server 3 []] := by
  refine ⟨_, rfl, (in_step_iff_whole greeting rfl).mpr ?_⟩
  decide +kernel

/-- The client's `recv` returns one byte of the greeting, and shows it. -/
theorem first_byte_alone : ∃ t,
    exec step (init greeting) [.type .server, .recv .client 1 []] = some t ∧ ¬InStep t := by
  refine ⟨_, rfl, fun aligned => ?_⟩
  have shown := aligned .client
  exact absurd shown (by decide +kernel)

end SocketChat.MoreLearning.TcpTurns.Alternation
