/- SocketChat/MoreLearning/UdpFile/Ending
   digest: Both programs end whatever is lost, but the server where the request is. -/

import SocketChat.MoreLearning.UdpFile.Transfer

set_option autoImplicit false
set_option relaxedAutoImplicit false

namespace SocketChat.MoreLearning.UdpFile.Ending

open SocketChat.Lib.CString
open SocketChat.Lib.LossyFifo
open SocketChat.Lib.Runs
open SocketChat.MoreLearning.UdpFile.Model
open SocketChat.MoreLearning.UdpFile.Invariant
open SocketChat.MoreLearning.UdpFile.Transfer

/-- Before the server's first `recvfrom` returns, the request is all that has been sent. -/
structure Unasked (s : State) : Prop where
  asked : s.up.sent = [⟨none, START⟩]
  untaken : s.up.got = []
  silent : s.down.sent = []
  received : s.client.received = []
  idle : s.client.point = .receive ∨ s.client.point = .left .timeout

structure Started (s : State) : Prop where
  unasked : s.server.point = .request → Unasked s
  opened : s.server.point = .read ∨ s.server.point = .ack → s.server.file.isSome

section Start

variable {s t : State}

private theorem started_init (file : Option (List Byte)) : Started (init file) where
  unasked := fun _ => ⟨rfl, rfl, rfl, rfl, .inl rfl⟩
  opened := by
    rintro (reading | waiting)
    · cases reading
    · cases waiting

private theorem started_past (asked : t.server.point ≠ .request)
    (opened : t.server.point ≠ .finished → t.server.file.isSome) : Started t where
  unasked := fun here => absurd here asked
  opened := by
    rintro (reading | waiting)
    · exact opened (by rw [reading]; exact ServerPoint.noConfusion)
    · exact opened (by rw [waiting]; exact ServerPoint.noConfusion)

private theorem started_still (h : Started s) (server : t.server = s.server)
    (unasked : Unasked s → Unasked t) : Started t where
  unasked := fun here => by
    rw [server] at here
    exact unasked (h.unasked here)
  opened := server ▸ h.opened

private theorem Unasked.not_pulled (h : Unasked s) {d : Datagram} {down : Fifo Datagram}
    (pulled : s.down.pull = some (d, down)) : False := by
  have sent : d ∈ s.down.sent := by
    apply s.down.flight_subset
    rw [(Fifo.pull_spec pulled).1]
    exact List.mem_cons_self
  rw [h.silent] at sent
  cases sent

private theorem started_step (s : State) (a : Action) (t : State) (h : Started s)
    (taken : step s a = some t) : Started t := by
  cases took_of_step taken with
  | refused d up here absent pulled =>
    exact started_past ServerPoint.noConfusion (fun running => absurd rfl running)
  | opened d up rest here present pulled =>
    exact started_past ServerPoint.noConfusion (fun _ => by rw [present]; rfl)
  | chunk rest here present more =>
    exact started_past ServerPoint.noConfusion (fun _ => rfl)
  | ended here present =>
    exact started_past ServerPoint.noConfusion (fun running => absurd rfl running)
  | logged d up here pulled =>
    exact started_past ServerPoint.noConfusion (fun _ => h.opened (.inr here))
  | unanswered here =>
    exact started_past ServerPoint.noConfusion (fun _ => h.opened (.inr here))
  | eof d down here pulled marker =>
    exact started_still h rfl fun unasked => (unasked.not_pulled pulled).elim
  | error d down here pulled marker =>
    exact started_still h rfl fun unasked => (unasked.not_pulled pulled).elim
  | kept d down here pulled plain =>
    exact started_still h rfl fun unasked => (unasked.not_pulled pulled).elim
  | gaveUp here =>
    exact started_still h rfl fun unasked => { unasked with idle := .inr rfl }
  | counted packet here =>
    refine started_still h rfl fun unasked => ?_
    rcases unasked.idle with idle | idle
    · cases here.symm.trans idle
    · cases here.symm.trans idle
  | acked packet here =>
    refine started_still h rfl fun unasked => ?_
    rcases unasked.idle with idle | idle
    · cases here.symm.trans idle
    · cases here.symm.trans idle
  | lostDown i down dropped =>
    obtain ⟨_, sent, _⟩ := Fifo.drop_spec dropped
    exact started_still h rfl fun unasked => { unasked with silent := sent.trans unasked.silent }
  | lostUp i up dropped =>
    obtain ⟨got, sent, _⟩ := Fifo.drop_spec dropped
    exact started_still h rfl fun unasked =>
      { unasked with asked := sent.trans unasked.asked, untaken := got.trans unasked.untaken }

end Start

section Last

variable {s : State}

/-- A client that can do nothing more has left its loop: the timeout ends every wait. -/
theorem left_of_last (last : ∀ a, step s a = none) : ∃ why, s.client.point = .left why := by
  cases here : s.client.point with
  | receive =>
    have waits := last .clientTimeout
    rw [step, clientTimeout, if_pos here] at waits
    cases waits
  | written packet =>
    have writes := last .clientCount
    rw [step, clientCount, here] at writes
    cases writes
  | counted packet =>
    have answers := last .clientAck
    rw [step, clientAck, here] at answers
    cases answers
  | left why => exact ⟨why, rfl⟩

/-- A server that can do nothing more has sent everything, or its only wait without a timeout
is for a request that was lost. -/
theorem asked_of_last (h : Started s) (last : ∀ a, step s a = none) :
    s.server.point = .finished ∨
      s.server.point = .request ∧ Unasked s ∧ s.up.lost = [⟨none, START⟩] := by
  cases here : s.server.point with
  | request =>
    have unasked := h.unasked here
    have nothing : s.up.flight = [] := by
      by_contra more
      exact serverRequest_enabled here more (last .serverRequest)
    have account := s.up.account
    rw [unasked.asked, unasked.untaken, nothing] at account
    exact .inr ⟨rfl, unasked, (List.singleton_perm.mp account).symm⟩
  | read => exact absurd (last .serverRead) (serverRead_enabled here (h.opened (.inl here)))
  | ack =>
    have waits := last .serverTimeout
    rw [step, serverTimeout, if_pos here] at waits
    cases waits
  | finished => exact .inl rfl

end Last

/-- Whatever is lost and whichever timeouts fire, every run of the transfer ends. At its end the
client has left, and the server has sent each chunk of the file once, in order, and the end
marker; only where the request is lost does it wait for ever, and then received.txt is empty. -/
theorem transfer_ends (file : Option (List Byte)) {as : List Action} {s : State}
    (taken : exec step (init file) as = some s) :
    as.length ≤ 8 * (pieces file).length + 9 ∧
      ((∀ a, step s a = none) →
        (s.server.point = .finished ∧ (∃ why, s.client.point = .left why) ∧
          s.down.sent = numbered (pieces file) ++ [trailer file]) ∨
        (s.server.point = .request ∧ s.client.point = .left .timeout ∧
          s.up.lost = [⟨none, START⟩] ∧ s.down.sent = [] ∧ s.client.received = [])) := by
  have inv : Inv file s := inv_reach ⟨as, taken⟩
  have started : Started s := invariant_of_step_reach started_step (started_init file) ⟨as, taken⟩
  constructor
  · have bounded := length_le_of_measure potential_lt taken
    have whole : potential (init file) = 8 * (pieces file).length + 9 := rfl
    omega
  · intro last
    obtain ⟨why, left⟩ := left_of_last last
    rcases asked_of_last started last with finished | ⟨here, unasked, lost⟩
    · refine .inl ⟨finished, ⟨why, left⟩, ?_⟩
      have wire := inv.sending.wire
      rw [inv.sending.all finished, List.take_length, if_pos finished] at wire
      exact wire
    · refine .inr ⟨here, ?_, lost, unasked.silent, unasked.received⟩
      rcases unasked.idle with idle | idle
      · cases left.symm.trans idle
      · exact idle

/-- The request is lost and the client gives up. -/
theorem request_lost : ∃ s, exec step (init (some greeting)) [.loseUp 0, .clientTimeout] = some s ∧
    (∀ a, step s a = none) ∧
    ((s.server.point = .finished ∧ (∃ why, s.client.point = .left why) ∧
        s.down.sent = numbered (pieces (some greeting)) ++ [trailer (some greeting)]) ∨
      (s.server.point = .request ∧ s.client.point = .left .timeout ∧
        s.up.lost = [⟨none, START⟩] ∧ s.down.sent = [] ∧ s.client.received = [])) := by
  have last : ∀ t, exec step (init (some greeting)) [.loseUp 0, .clientTimeout] = some t →
      ∀ a, step t a = none := by
    rintro t taken a
    obtain rfl := Option.some.inj taken
    cases a with
    | serverRequest | serverRead | serverAck | serverTimeout => rfl
    | clientReceive | clientTimeout | clientCount | clientAck => rfl
    | loseDown i | loseUp i => rfl
  obtain ⟨s, taken⟩ : ∃ s, exec step (init (some greeting)) [.loseUp 0, .clientTimeout] = some s :=
    ⟨_, rfl⟩
  exact ⟨s, taken, last s taken, (transfer_ends (some greeting) taken).2 (last s taken)⟩

end SocketChat.MoreLearning.UdpFile.Ending
