/- SocketChat/MoreLearning/UdpBroadcast/Endless
   digest: The client's send loop does not end with its input, but sends its last piece on. -/

import SocketChat.Lib.Resending
import SocketChat.MoreLearning.UdpBroadcast.Model

set_option autoImplicit false
set_option relaxedAutoImplicit false

namespace SocketChat.MoreLearning.UdpBroadcast.Endless

open SocketChat.Lib.CString
open SocketChat.Lib.Lines (pieces)
open SocketChat.Lib.Resending
open SocketChat.Lib.Runs
open SocketChat.MoreLearning.UdpBroadcast.Model
open SocketChat.MoreLearning.UdpBroadcast.Model.Client (Action)

def Up (_ : Client.State) : Action → Prop
  | .recvfromFails => False
  | _ => True

def payloads (s : Client.State) : List (List Byte) := s.sends.map SendTo.msg

def typing (s : Client.State) : Typing := ⟨s.sender = .sendto, s.buffer, s.stdin, payloads s⟩

def turn : Action → Option Turn
  | .fgets => some .fgets
  | .sendto beyond => some (.send beyond)
  | _ => none

private theorem typing_moves (s : Client.State) (a : Action) (b : Turn) (t : Client.State)
    (mine : turn a = some b) (taken : Client.step s a = some t) :
    Lib.Resending.step BUFFER_SIZE (typing s) b = some (typing t) := by
  cases a with
  | recvfrom source payload beyond => cases mine
  | recvfromFails => cases mine
  | fgets =>
    obtain rfl := Option.some.inj mine
    rw [Client.step] at taken
    split at taken
    · rename_i here
      obtain rfl := Option.some.inj taken
      cases typed : Lib.Lines.fgets BUFFER_SIZE s.stdin <;>
        simp [typing, payloads, Lib.Resending.step, here, Client.fgets, typed]
    · cases taken
  | sendto beyond =>
    obtain rfl := Option.some.inj mine
    rw [Client.step] at taken
    split at taken
    · rename_i here
      obtain rfl := Option.some.inj taken
      simp [typing, payloads, Lib.Resending.step, here, Client.sendto]
    · cases taken

private theorem typing_stays (s : Client.State) (a : Action) (t : Client.State)
    (other : turn a = none) (taken : Client.step s a = some t) : typing t = typing s := by
  cases a with
  | recvfrom source payload beyond =>
    rw [Client.step] at taken
    split at taken
    · obtain rfl := Option.some.inj taken
      rw [Client.recvfrom]
      dsimp only
      split <;> rfl
    · cases taken
  | recvfromFails =>
    rw [Client.step] at taken
    split at taken
    · obtain rfl := Option.some.inj taken
      rfl
    · cases taken
  | fgets => cases other
  | sendto beyond => cases other

theorem turn_sends (s : Client.State) (here : s.sender = .fgets) :
    ∃ t, ReachWhere Client.step Up s t ∧ t.sender = .fgets ∧
      (payloads s).length < (payloads t).length := by
  obtain ⟨full, same⟩ : (Client.fgets s).sender = .sendto ∧ (Client.fgets s).sends = s.sends := by
    rw [Client.fgets]
    split <;> exact ⟨rfl, rfl⟩
  have first : Client.step s .fgets = some (Client.fgets s) := by rw [Client.step, if_pos here]
  have second : Client.step (Client.fgets s) (.sendto []) =
      some (Client.sendto (Client.fgets s) []) := by
    rw [Client.step, if_pos full]
  refine ⟨Client.sendto (Client.fgets s) [], ?_, rfl, ?_⟩
  · have last : ReachWhere Client.step Up (Client.fgets s) (Client.sendto (Client.fgets s) []) :=
      .single (a := .sendto []) trivial second
    exact .head (a := .fgets) trivial first last
  · rw [payloads, payloads, Client.sendto, same]
    simp

theorem sent_again {stack stdin : List Byte} (nul_free : 0 ∉ stdin) (more : stdin ≠ [])
    {s : Client.State} (run : Reach Client.step (Client.init stack stdin) s) :
    payloads s =
      (pieces BUFFER_SIZE stdin).take (payloads s).length ++
        List.replicate
          ((payloads s).length - (pieces BUFFER_SIZE stdin).length)
          ((pieces BUFFER_SIZE stdin).getLastD []) := by
  have start : typing (Client.init stack stdin) = ⟨false, stack, stdin, []⟩ := rfl
  exact sent_eq_of_view typing_moves typing_stays (by decide) nul_free more start run

end SocketChat.MoreLearning.UdpBroadcast.Endless
