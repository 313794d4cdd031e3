/- SocketChat/Socket/Deadlock
   digest: Both programs wait in read exactly after a message without a byte. -/

import SocketChat.Lib.Runs
import SocketChat.Socket.Model

set_option autoImplicit false
set_option relaxedAutoImplicit false

namespace SocketChat.Socket.Deadlock

open SocketChat.Lib.CString
open SocketChat.Lib.Runs
open SocketChat.Lib.Sides
open Model

/-- Both programs wait in `read` and nothing is in flight. -/
def BothWait (s : State) : Prop := ∀ who, (s.party who).point = .read ∧ s.inbox who = []

def Free (s : State) : Prop := ¬BothWait s

def Awaited (s : State) (who : Side) : Prop :=
  (s.party who.peer).point = .read ∧ ∀ x, s.inbox x = []

/-- No message without a byte is written to a side that waits for one. -/
def Sounds (s : State) : Action → Prop
  | .write who => cstr (s.party who).buffer = [] → ¬Awaited s who
  | _ => True

instance decidableSounds (s : State) : (a : Action) → Decidable (Sounds s a)
  | .fgets _ => isTrue trivial
  | .write who =>
      have : Decidable (Awaited s who) := decidable_of_iff
        ((s.party who.peer).point = .read ∧ s.inbox who = [] ∧ s.inbox who.peer = [])
        (and_congr_right fun _ => (Side.forall_iff (P := fun x => s.inbox x = []) who).symm)
      inferInstanceAs (Decidable (cstr (s.party who).buffer = [] → ¬Awaited s who))
  | .read _ _ => isTrue trivial
  | .readEnd _ => isTrue trivial
  | .fail _ => isTrue trivial

private theorem free_of_point {s : State} {who : Side} (elsewhere : (s.party who).point ≠ .read) :
    Free s := fun dead => elsewhere (dead who).1

private theorem point_fgets_ne (p : Party) : p.fgets.point ≠ .read := by
  unfold Party.fgets
  split <;> exact Point.noConfusion

/-- A step leads to a deadlock exactly when it writes a message without a byte to a side that
waits for one. -/
theorem free_step (s : State) (a : Action) (t : State) (_ : Free s)
    (taken : step s a = some t) : Free t ↔ Sounds s a := by
  cases a with
  | fgets who =>
    refine iff_of_true ?_ trivial
    simp only [step, Option.ite_none_right_eq_some, Option.some.injEq] at taken
    obtain ⟨_, rfl⟩ := taken
    apply free_of_point
    rw [Duo.party_setParty_self s who]
    exact point_fgets_ne _
  | write who =>
    simp only [step, Option.ite_none_right_eq_some, Option.some.injEq] at taken
    obtain ⟨ready, rfl⟩ := taken
    constructor
    · intro free empty awaited
      refine free ((Side.forall_iff who).mpr ⟨⟨?_, ?_⟩, ?_, ?_⟩)
      · rw [Duo.party_setInbox, Duo.party_setParty_self]
        exact point_write_of_empty empty
      · rw [Duo.inbox_setInbox_of_peer]
        exact awaited.2 who
      · rw [Duo.party_setInbox, Duo.party_setParty_peer]
        exact awaited.1
      · rw [Duo.inbox_setInbox_self, empty, List.append_nil]
        exact awaited.2 who.peer
    · intro sounds dead
      have there := dead who.peer
      have here := (dead who).2
      rw [Duo.party_setInbox, Duo.party_setParty_peer, Duo.inbox_setInbox_self,
        List.append_eq_nil_iff] at there
      rw [Duo.inbox_setInbox_of_peer] at here
      exact sounds there.2.2 ⟨there.1, (Side.forall_iff who).mpr ⟨here, there.2.1⟩⟩
  | read who k =>
    refine iff_of_true ?_ trivial
    simp only [step, Option.ite_none_right_eq_some, Option.some.injEq] at taken
    obtain ⟨_, rfl⟩ := taken
    apply free_of_point
    rw [Duo.party_setInbox, Duo.party_setParty_self s who]
    exact Point.noConfusion
  | readEnd who =>
    refine iff_of_true ?_ trivial
    simp only [step, Option.ite_none_right_eq_some, Option.some.injEq] at taken
    obtain ⟨_, rfl⟩ := taken
    apply free_of_point
    rw [Duo.party_setParty_self s who]
    exact Point.noConfusion
  | fail who =>
    refine iff_of_true ?_ trivial
    simp only [step, Option.ite_none_right_eq_some, Option.some.injEq] at taken
    obtain ⟨_, rfl⟩ := taken
    apply free_of_point
    rw [Duo.party_setParty_self s who]
    exact Point.noConfusion

private theorem free_init (stdin : Side → List Byte) : Free (init stdin) := by
  intro dead
  cases (dead .client).1

/-- Whatever both users type: along a run no state is a deadlock exactly when no message
without a byte is written to a side that waits for one. -/
theorem always_free_iff_sounds (stdin : Side → List Byte) {as : List Action} {t : State}
    (taken : exec step (init stdin) as = some t) :
    Always step Free (init stdin) as ↔ Guarded step Sounds (init stdin) as :=
  always_iff_guarded free_step (free_init stdin) taken

def typed : Side → List Byte
  | .client => [97, 10]
  | .server => [111, 107, 10]

theorem always_free_one_turn : ∃ t,
    exec step (init typed) [.fgets .client, .write .client, .read .server 2, .fgets .server,
        .write .server, .read .client 1] = some t ∧
      Always step Free (init typed) [.fgets .client, .write .client, .read .server 2,
        .fgets .server, .write .server, .read .client 1] := by
  refine ⟨_, rfl, (always_free_iff_sounds typed rfl).mpr ?_⟩
  decide +kernel

/-- The client's input ends at once: it writes nothing, and both programs wait for ever. -/
theorem end_of_input_deadlocks : ∃ t,
    exec step (init fun _ => []) [.fgets .client, .write .client] = some t ∧ ¬Free t := by
  refine ⟨_, rfl, not_not.mpr fun who => ?_⟩
  cases who <;> decide +kernel

end SocketChat.Socket.Deadlock
