/- SocketChat/MoreLearning/UdpBroadcast/Destination
   digest: Where the client sends what its user types, whatever datagrams reach it meanwhile. -/

import SocketChat.Lib.Runs
import SocketChat.MoreLearning.UdpBroadcast.Model

set_option autoImplicit false
set_option relaxedAutoImplicit false

namespace SocketChat.MoreLearning.UdpBroadcast.Destination

open SocketChat.Lib.CString
open SocketChat.Lib.Runs
open Model
open Model.Client

structure Typing where
  sender : Sender
  buffer : List Byte
  stdin : List Byte
  payloads : List (List Byte)

def typing (s : State) : Typing where
  sender := s.sender
  buffer := s.buffer
  stdin := s.stdin
  payloads := s.sends.map SendTo.msg

def ofSender : Action → Bool
  | .fgets => true
  | .sendto _ => true
  | _ => false

/-- `send_messages` without the address it sends to. -/
def Typing.step (v : Typing) : Action → Option Typing
  | .fgets =>
      if v.sender = .fgets then
        match Lib.Lines.fgets BUFFER_SIZE v.stdin with
        | none => some { v with sender := .sendto }
        | some (piece, rest) => some { v with
            sender := .sendto
            buffer := overwrite v.buffer (piece ++ [0])
            stdin := rest }
      else none
  | .sendto beyond =>
      if v.sender = .sendto then
        some { v with sender := .fgets, payloads := v.payloads ++ [cstr (v.buffer ++ beyond)] }
      else none
  | _ => none

/-- The source of the last datagram received, if any, is the server before each `sendto`. -/
def Trusted : Option SockaddrIn → List Action → Prop
  | _, [] => True
  | _, .recvfrom source _ _ :: as => Trusted (some source) as
  | last, .recvfromFails :: as => Trusted last as
  | last, .fgets :: as => Trusted last as
  | last, .sendto _ :: as => (∀ source ∈ last, source = configured) ∧ Trusted last as

private theorem typing_moves (s : State) (a : Action) (t : State) (own : ofSender a = true)
    (taken : step s a = some t) : (typing s).step a = some (typing t) := by
  cases a with
  | recvfrom source payload beyond => cases own
  | recvfromFails => cases own
  | fgets =>
    simp only [step, Option.ite_none_right_eq_some, Option.some.injEq] at taken
    obtain ⟨ready, rfl⟩ := taken
    have before : (typing s).sender = .fgets := ready
    rw [Typing.step, if_pos before]
    unfold fgets typing
    cases Lib.Lines.fgets BUFFER_SIZE s.stdin <;> rfl
  | sendto beyond =>
    simp only [step, Option.ite_none_right_eq_some, Option.some.injEq] at taken
    obtain ⟨ready, rfl⟩ := taken
    have before : (typing s).sender = .sendto := ready
    rw [Typing.step, if_pos before]
    simp only [typing, sendto, List.map_append, List.map_cons, List.map_nil]

private theorem typing_stays (s : State) (a : Action) (t : State) (other : ofSender a = false)
    (taken : step s a = some t) : typing t = typing s := by
  cases a with
  | recvfrom source payload beyond =>
    simp only [step, Option.ite_none_right_eq_some, Option.some.injEq] at taken
    obtain ⟨_, rfl⟩ := taken
    unfold recvfrom
    dsimp only
    split <;> rfl
  | recvfromFails =>
    simp only [step, Option.ite_none_right_eq_some, Option.some.injEq] at taken
    obtain ⟨_, rfl⟩ := taken
    rfl
  | fgets => cases other
  | sendto beyond => cases other

/-- What a run sends depends on the steps of `send_messages` alone; where, on the others. -/
theorem payloads_of_own_actions {s : State} {as bs : List Action} {t u : State}
    (left : exec step s as = some t) (right : exec step s bs = some u)
    (same : bs.filter ofSender = as.filter ofSender) :
    u.sends.map SendTo.msg = t.sends.map SendTo.msg := by
  have first := exec_view typing_moves typing_stays left
  have second := exec_view typing_moves typing_stays right
  rw [same, first] at second
  exact congrArg Typing.payloads (Option.some.inj second).symm

private theorem sends_configured_iff {s t : State} {last : Option SockaddrIn} {as : List Action}
    (shared : s.server = last.getD configured) (taken : exec step s as = some t) :
    (∀ m ∈ t.sends, m.dest = configured) ↔
      (∀ m ∈ s.sends, m.dest = configured) ∧ Trusted last as := by
  induction as generalizing s last with
  | nil =>
    obtain rfl : s = t := Option.some.inj taken
    simp [Trusted]
  | cons a as ih =>
    obtain ⟨m, hm, rest⟩ := exec_cons_eq_some.mp taken
    cases a with
    | recvfrom source payload beyond =>
      simp only [step, Option.ite_none_right_eq_some, Option.some.injEq] at hm
      obtain ⟨_, rfl⟩ := hm
      have stored : (recvfrom s source payload beyond).server = source ∧
          (recvfrom s source payload beyond).sends = s.sends := by
        unfold recvfrom
        dsimp only
        split <;> exact ⟨rfl, rfl⟩
      have next : (recvfrom s source payload beyond).server = (some source).getD configured :=
        stored.1
      rw [ih next rest, stored.2, Trusted]
    | recvfromFails =>
      simp only [step, Option.ite_none_right_eq_some, Option.some.injEq] at hm
      obtain ⟨_, rfl⟩ := hm
      exact ih (s := { s with receiver := .ended (-1) }) shared rest
    | fgets =>
      simp only [step, Option.ite_none_right_eq_some, Option.some.injEq] at hm
      obtain ⟨_, rfl⟩ := hm
      have kept : (fgets s).server = s.server ∧ (fgets s).sends = s.sends := by
        unfold fgets
        split <;> exact ⟨rfl, rfl⟩
      rw [ih (kept.1.trans shared) rest, kept.2, Trusted]
    | sendto beyond =>
      simp only [step, Option.ite_none_right_eq_some, Option.some.injEq] at hm
      obtain ⟨_, rfl⟩ := hm
      have here : s.server = configured ↔ ∀ source ∈ last, source = configured := by
        rw [shared]
        cases last <;> simp
      rw [ih (s := sendto s beyond) shared rest, Trusted, ← here]
      simp only [sendto, List.mem_append, List.mem_singleton]
      constructor
      · rintro ⟨all, later⟩
        exact ⟨fun m hm => all m (Or.inl hm), all _ (Or.inr rfl), later⟩
      · rintro ⟨all, now, later⟩
        refine ⟨fun m hm => ?_, later⟩
        rcases hm with old | rfl
        · exact all m old
        · exact now

/-- Everything is sent to the configured server exactly when the server is the source of the
last datagram before each `sendto`; and two runs with the same steps of `send_messages` send
the same payloads, to the same destinations as far as both keep to that. -/
theorem fixed_destination_iff (stack stdin : List Byte) {as : List Action} {t : State}
    (taken : exec step (init stack stdin) as = some t) :
    ((∀ m ∈ t.sends, m.dest = configured) ↔ Trusted none as) ∧
      ∀ bs u, exec step (init stack stdin) bs = some u →
        bs.filter ofSender = as.filter ofSender →
          u.sends.map SendTo.msg = t.sends.map SendTo.msg ∧
            (Trusted none as → (u.sends = t.sends ↔ Trusted none bs)) := by
  have fixed : ∀ {cs v}, exec step (init stack stdin) cs = some v →
      ((∀ m ∈ v.sends, m.dest = configured) ↔ Trusted none cs) := by
    intro cs v ran
    have start : (init stack stdin).server = (none : Option SockaddrIn).getD configured := rfl
    rw [sends_configured_iff start ran]
    exact and_iff_right fun m none_yet => by cases none_yet
  refine ⟨fixed taken, fun bs u ran same => ?_⟩
  have payloads := payloads_of_own_actions taken ran same
  refine ⟨payloads, fun trusted => ⟨fun equal => ?_, fun also => ?_⟩⟩
  · refine (fixed ran).mp fun m hm => ?_
    exact (fixed taken).mpr trusted m (equal ▸ hm)
  · have to_server : ∀ {sends : List SendTo}, (∀ m ∈ sends, m.dest = configured) →
        sends = (sends.map SendTo.msg).map (SendTo.mk configured) := by
      intro sends all
      rw [List.map_map]
      refine (List.map_id sends).symm.trans (List.map_congr_left fun m hm => ?_)
      exact congrArg (SendTo.mk · m.msg) (all m hm)
    rw [to_server ((fixed ran).mpr also), payloads, ← to_server ((fixed taken).mpr trusted)]

/-- The server answers the first of two lines, or does not. -/
def answered : List Action :=
  [.fgets, .sendto [], .recvfrom configured [33] [], .fgets, .sendto []]

def unanswered : List Action := [.fgets, .sendto [], .fgets, .sendto []]

theorem fixed_destination_iff_answered :
    ∃ t u, exec step (init [] [104, 105, 10, 104, 111, 10]) answered = some t ∧
      exec step (init [] [104, 105, 10, 104, 111, 10]) unanswered = some u ∧
        t.shown = [[33]] ∧ t.sends.length = 2 ∧ (∀ m ∈ t.sends, m.dest = configured) ∧
        u.sends = t.sends := by
  have shown : (exec step (init [] [104, 105, 10, 104, 111, 10]) answered).map
      (fun t => (t.shown, t.sends.length)) = some ([[33]], 2) := by
    decide +kernel
  obtain ⟨t, taken, same⟩ := Option.map_eq_some_iff.mp shown
  obtain ⟨text, twice⟩ := Prod.mk.inj same
  have ran : (exec step (init [] [104, 105, 10, 104, 111, 10]) unanswered).isSome = true := by
    decide +kernel
  obtain ⟨u, alone⟩ := Option.isSome_iff_exists.mp ran
  have trusted : Trusted none answered := by simp [answered, Trusted]
  have trusted' : Trusted none unanswered := by simp [unanswered, Trusted]
  obtain ⟨fixed, others⟩ := fixed_destination_iff [] [104, 105, 10, 104, 111, 10] taken
  exact ⟨t, u, taken, alone, text, twice, fixed.mpr trusted,
    ((others unanswered u alone rfl).2 trusted).mpr trusted'⟩

/-- A datagram from a third party, and the next line typed goes there. -/
theorem third_party_redirects :
    ∃ t, exec step (init [] [104, 105, 10])
        [.recvfrom ⟨7, 0x0200007F⟩ [33] [], .fgets, .sendto []] = some t ∧
      ∃ m ∈ t.sends, m.dest ≠ configured := by
  refine ⟨_, rfl, ⟨⟨7, 0x0200007F⟩, [104, 105, 10]⟩, ?_, ?_⟩
  · decide +kernel
  · decide

end SocketChat.MoreLearning.UdpBroadcast.Destination
