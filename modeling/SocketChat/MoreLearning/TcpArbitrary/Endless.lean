/- SocketChat/MoreLearning/TcpArbitrary/Endless
   digest: The send loops of the chats do not end with their input, but send its last piece on. -/

import SocketChat.Lib.Resending
import SocketChat.MoreLearning.TcpArbitrary.Model
import SocketChat.MoreLearning.UdpBroadcast.Endless

set_option autoImplicit false
set_option relaxedAutoImplicit false

namespace SocketChat.MoreLearning.TcpArbitrary.Endless

open SocketChat.Lib.CString
open SocketChat.Lib.Lines (pieces)
open SocketChat.Lib.Resending
open SocketChat.Lib.Runs
open SocketChat.MoreLearning.TcpArbitrary.Model

def Up (_ : State) : Action → Prop
  | .recv got _ => got ≠ []
  | _ => True

def typing (s : State) : Typing := ⟨s.sender = .send, s.buffer, s.stdin, s.sends⟩

def turn : Action → Option Turn
  | .fgets => some .fgets
  | .send beyond => some (.send beyond)
  | _ => none

section Step

variable {program : Program} {s t : State}

theorem typing_moves (s : State) (a : Action) (b : Turn) (t : State) (mine : turn a = some b)
    (taken : Model.step program s a = some t) :
    Lib.Resending.step BUFFER_SIZE (typing s) b = some (typing t) := by
  cases a with
  | recv got beyond => cases mine
  | test => cases mine
  | fgets =>
    obtain rfl := Option.some.inj mine
    rw [Model.step] at taken
    split at taken
    · rename_i here
      obtain rfl := Option.some.inj taken
      cases typed : Lib.Lines.fgets BUFFER_SIZE s.stdin <;>
        simp [typing, Lib.Resending.step, here, Model.fgets, typed]
    · cases taken
  | send beyond =>
    obtain rfl := Option.some.inj mine
    rw [Model.step] at taken
    split at taken
    · rename_i here
      obtain rfl := Option.some.inj taken
      simp [typing, Lib.Resending.step, here, Model.send]
    · cases taken

theorem typing_stays (s : State) (a : Action) (t : State) (other : turn a = none)
    (taken : Model.step program s a = some t) : typing t = typing s := by
  cases a with
  | recv got beyond =>
    rw [Model.step] at taken
    split at taken
    · obtain rfl := Option.some.inj taken
      rw [recv]
      split <;> rfl
    · cases taken
  | test =>
    rw [Model.step] at taken
    split at taken
    · rename_i here
      obtain rfl := Option.some.inj taken
      simp only [typing, test, here]
      split <;> rfl
    · cases taken
  | fgets => cases other
  | send beyond => cases other

theorem running_step (s : State) (a : Action) (t : State)
    (h : s.running = true ∧ s.sender ≠ .returned) (ok : Up s a)
    (taken : Model.step program s a = some t) : t.running = true ∧ t.sender ≠ .returned := by
  obtain ⟨running, looping⟩ := h
  cases a with
  | recv got beyond =>
    rw [Model.step] at taken
    split at taken
    · obtain rfl := Option.some.inj taken
      rw [recv, if_neg ok]
      exact ⟨running, looping⟩
    · cases taken
  | test =>
    rw [Model.step] at taken
    split at taken
    · obtain rfl := Option.some.inj taken
      simp [test, running]
    · cases taken
  | fgets =>
    rw [Model.step] at taken
    split at taken
    · obtain rfl := Option.some.inj taken
      rw [Model.fgets]
      split <;> exact ⟨running, Sender.noConfusion⟩
    · cases taken
  | send beyond =>
    rw [Model.step] at taken
    split at taken
    · obtain rfl := Option.some.inj taken
      exact ⟨running, Sender.noConfusion⟩
    · cases taken

private theorem never_returns {stack stdin : List Byte}
    (run : ReachWhere (Model.step program) Up (init stack stdin) s) : s.sender ≠ .returned := by
  have start : (init stack stdin).running = true ∧ (init stack stdin).sender ≠ .returned :=
    ⟨rfl, Sender.noConfusion⟩
  exact (invariant_of_step running_step start run).2

end Step

private theorem turn_sends (program : Program) (s : State)
    (h : s.running = true ∧ s.sender = .test) :
    ∃ t, ReachWhere (Model.step program) Up s t ∧ (t.running = true ∧ t.sender = .test) ∧
      s.sends.length < t.sends.length := by
  obtain ⟨running, here⟩ := h
  obtain ⟨ready, tested⟩ : (test s).sender = .fgets ∧ (test s).running = true := by
    rw [test, if_pos running]
    exact ⟨rfl, running⟩
  obtain ⟨full, read, same⟩ : (fgets (test s)).sender = .send ∧
      (fgets (test s)).running = true ∧ (fgets (test s)).sends = s.sends := by
    rw [Model.fgets]
    split <;> exact ⟨rfl, tested, rfl⟩
  have first : Model.step program s .test = some (test s) := by rw [Model.step, if_pos here]
  have second : Model.step program (test s) .fgets = some (fgets (test s)) := by
    rw [Model.step, if_pos ready]
  have third : Model.step program (fgets (test s)) (.send []) =
      some (send (fgets (test s)) []) := by
    rw [Model.step, if_pos full]
  refine ⟨send (fgets (test s)) [], ?_, ⟨read, rfl⟩, ?_⟩
  · have last : ReachWhere (Model.step program) Up (fgets (test s)) (send (fgets (test s)) []) :=
      .single (a := .send []) trivial third
    exact .head (a := .test) trivial first (.head (a := .fgets) trivial second last)
  · rw [send, same]
    simp

/-- What either program sends of an input without a NUL: its pieces, and then the last of them
again and again. -/
theorem sent_again (program : Program) {stack stdin : List Byte} (nul_free : 0 ∉ stdin)
    (more : stdin ≠ []) {s : State} (run : Reach (Model.step program) (init stack stdin) s) :
    s.sends = (pieces BUFFER_SIZE stdin).take s.sends.length ++
      List.replicate (s.sends.length - (pieces BUFFER_SIZE stdin).length)
        ((pieces BUFFER_SIZE stdin).getLastD []) := by
  have start : typing (init stack stdin) = ⟨false, stack, stdin, []⟩ := rfl
  exact sent_eq_of_view typing_moves typing_stays (by decide) nul_free more start run

/-- Whatever is typed, none of the three programs sends the pieces and then ends its loop: with
the connection up it goes on for ever and sends more than there was. -/
theorem never_sends_typed (program : Program) (stack stdin : List Byte) :
    (¬SendsTyped (Model.step program) Up (init stack stdin) State.sends
        (pieces BUFFER_SIZE stdin) ∧
      ∀ s, ReachWhere (Model.step program) Up (init stack stdin) s → s.sender ≠ .returned) ∧
    ¬SendsTyped UdpBroadcast.Model.Client.step UdpBroadcast.Endless.Up
      (UdpBroadcast.Model.Client.init stack stdin) UdpBroadcast.Endless.payloads
      (pieces UdpBroadcast.Model.BUFFER_SIZE stdin) := by
  refine ⟨⟨?_, fun s => never_returns⟩, ?_⟩
  · exact not_sendsTyped_of_progress (I := fun s => s.running = true ∧ s.sender = .test)
      ⟨rfl, rfl⟩ (turn_sends program)
  · exact not_sendsTyped_of_progress (I := fun s => s.sender = .fgets) rfl
      UdpBroadcast.Endless.turn_sends

def threeTurns : List Action :=
  (List.replicate 3 [.test, .fgets, .send []]).flatten

theorem last_line_sent_again :
    pieces BUFFER_SIZE [97, 10] = [[97, 10]] ∧
      (exec (Model.step client) (init [] [97, 10]) threeTurns).map State.sends =
        some [[97, 10], [97, 10], [97, 10]] ∧
      (exec (Model.step server) (init [] [97, 10]) threeTurns).map State.sends =
        some [[97, 10], [97, 10], [97, 10]] := by
  refine ⟨?_, ?_, ?_⟩ <;> decide +kernel

end SocketChat.MoreLearning.TcpArbitrary.Endless
