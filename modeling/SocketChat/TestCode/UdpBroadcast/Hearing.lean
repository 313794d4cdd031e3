/- SocketChat/TestCode/UdpBroadcast/Hearing
   digest: What every receiver is delivered, and what goes round at the relay. -/

import Mathlib.Data.List.Perm.Basic
import SocketChat.Lib.Runs
import SocketChat.TestCode.UdpBroadcast.Model

set_option autoImplicit false
set_option relaxedAutoImplicit false

namespace SocketChat.TestCode.UdpBroadcast.Hearing

open SocketChat.Lib.CString
open SocketChat.Lib.Runs
open Model

def text (payload : List Byte) : List Byte := cstr (payload.take ECHOMAX ++ [0])

def fromRelay (source : Source) : Bool := !source.isClient

def entry (d : Datagram) : Source × List Byte := (d.source, text d.payload)

def texts (meant : Source → Bool) (entries : List (Source × List Byte)) : List (List Byte) :=
  (entries.filter fun e => meant e.1).map Prod.snd

def waiting (meant : Source → Bool) (sock : Sock) : List (List Byte) :=
  texts meant (sock.queue.map entry)

def printed (meant : Source → Bool) (sock : Sock) : List (List Byte) := texts meant sock.shown

def Known (messages : List (UInt32 × List Byte × Dest)) (sock : Sock) : Prop :=
  (∀ d ∈ sock.queue, ∃ m ∈ messages, text d.payload = text m.2.1) ∧
    ∀ e ∈ sock.shown, ∃ m ∈ messages, e.2 = text m.2.1

section Sockets

variable {messages : List (UInt32 × List Byte × Dest)} {meant : Source → Bool} {sock : Sock}

private theorem text_take (payload : List Byte) : text (payload.take ECHOMAX) = text payload := by
  rw [text, List.take_take, Nat.min_self]
  rfl

private theorem texts_append (entries more : List (Source × List Byte)) :
    texts meant (entries ++ more) = texts meant entries ++ texts meant more := by
  rw [texts, List.filter_append, List.map_append]
  rfl

private theorem texts_meant {d : Datagram} (is : meant d.source = true) :
    texts meant [entry d] = [text d.payload] := by
  have kept : [entry d].filter (fun e => meant e.1) = [entry d] :=
    List.filter_cons_of_pos (p := fun e : Source × List Byte => meant e.1) is
  rw [texts, kept]
  rfl

private theorem texts_not_meant {d : Datagram} (is : meant d.source = false) :
    texts meant [entry d] = [] := by
  have dropped : [entry d].filter (fun e => meant e.1) = [] :=
    List.filter_cons_of_neg (p := fun e : Source × List Byte => meant e.1) (by simp [entry, is])
  rw [texts, dropped]
  rfl

private theorem recvfrom_eq_some {i : ℕ} {source : Source} {buffer : List Byte} {later : Sock} :
    sock.recvfrom i = some (source, buffer, later) ↔
      ∃ d, sock.queue[i]? = some d ∧ source = d.source ∧ buffer = d.payload.take ECHOMAX ∧
        later = ⟨sock.queue.eraseIdx i, sock.shown ++ [entry d]⟩ := by
  rw [Sock.recvfrom, Option.map_eq_some_iff]
  constructor
  · rintro ⟨d, there, same⟩
    obtain ⟨rfl, rfl, rfl⟩ := same
    exact ⟨d, there, rfl, rfl, rfl⟩
  · rintro ⟨d, there, rfl, rfl, rfl⟩
    exact ⟨d, there, rfl⟩

private theorem waiting_taken (meant : Source → Bool) {i : ℕ} {d : Datagram}
    (there : sock.queue[i]? = some d) (shown : List (Source × List Byte)) :
    (waiting meant sock).Perm
      (texts meant [entry d] ++ waiting meant ⟨sock.queue.eraseIdx i, shown⟩) := by
  obtain ⟨inside, rfl⟩ := List.getElem?_eq_some_iff.mp there
  have out := (List.getElem_cons_eraseIdx_perm inside).symm.map entry
  rw [waiting, waiting, ← texts_append]
  exact (out.filter _).map _

private theorem waiting_arrive (d : Datagram) :
    waiting meant (sock.arrive d) = waiting meant sock ++ texts meant [entry d] := by
  rw [waiting, Sock.arrive, List.map_append, texts_append]
  rfl

private theorem known_arrive {d : Datagram} (known : Known messages sock)
    (fair : ∃ m ∈ messages, text d.payload = text m.2.1) : Known messages (sock.arrive d) := by
  refine ⟨fun e there => ?_, known.2⟩
  rcases List.mem_append.mp there with before | now
  · exact known.1 e before
  · exact List.mem_singleton.mp now ▸ fair

private theorem known_taken {i : ℕ} {d : Datagram} (known : Known messages sock)
    (there : sock.queue[i]? = some d) :
    Known messages ⟨sock.queue.eraseIdx i, sock.shown ++ [entry d]⟩ := by
  refine ⟨fun e left => known.1 e (List.mem_of_mem_eraseIdx left), fun e shown => ?_⟩
  rcases List.mem_append.mp shown with before | now
  · exact known.2 e before
  · obtain ⟨m, said, same⟩ := known.1 d (List.mem_of_getElem? there)
    exact List.mem_singleton.mp now ▸ ⟨m, said, same⟩

end Sockets

/-- The clients send what they are given, every socket is sent nothing else, a receiver has been
delivered one text for each turn of the relay, and of each text of a client that the relay has
printed one copy waits at its socket. -/
structure Kept (messages : List (UInt32 × List Byte × Dest)) (s : State) : Prop where
  unsent : ∀ u ∈ s.unsent, u.1.source.isClient = true ∧
    ∃ m ∈ messages, text u.1.payload = text m.2.1
  relay : Known messages s.servSock
  known : ∀ r ∈ s.receivers, Known messages r
  delivered : ∀ r ∈ s.receivers, (waiting fromRelay r ++ printed fromRelay r).Perm
    (s.servSock.shown.map Prod.snd)
  circulating : (waiting fromRelay s.servSock).Perm (printed Source.isClient s.servSock)

section Run

variable {messages : List (UInt32 × List Byte × Dest)} {s t : State}

private theorem kept_init (messages : List (UInt32 × List Byte × Dest)) (receivers : ℕ) :
    Kept messages (init messages receivers) where
  unsent := by
    intro u later
    obtain ⟨m, said, rfl⟩ := List.mem_map.mp later
    exact ⟨rfl, m, said, rfl⟩
  relay := ⟨nofun, nofun⟩
  known := by
    intro r there
    rw [List.eq_of_mem_replicate there]
    exact ⟨nofun, nofun⟩
  delivered := by
    intro r there
    rw [List.eq_of_mem_replicate there]
    exact List.Perm.refl _
  circulating := List.Perm.refl _

private theorem texts_relay_of_client {d : Datagram} (client : d.source.isClient = true) :
    texts fromRelay [entry d] = [] :=
  texts_not_meant (by rw [fromRelay, client]; rfl)

private theorem kept_sendto (k : Kept messages s) {d : Datagram} (client : d.source.isClient = true)
    (fair : ∃ m ∈ messages, text d.payload = text m.2.1) (dest : Dest) :
    Kept messages (s.sendto d dest) := by
  have quiet : ∀ sock : Sock, waiting fromRelay (sock.arrive d) = waiting fromRelay sock := by
    intro sock
    rw [waiting_arrive, texts_relay_of_client client, List.append_nil]
  have circulates : (waiting fromRelay (s.servSock.arrive d)).Perm
      (printed Source.isClient s.servSock) := by
    rw [quiet]
    exact k.circulating
  cases dest with
  | relay => exact ⟨k.unsent, known_arrive k.relay fair, k.known, k.delivered, circulates⟩
  | broadcast =>
    refine ⟨k.unsent, known_arrive k.relay fair, fun r there => ?_, fun r there => ?_, circulates⟩
    · obtain ⟨r, before, rfl⟩ := List.mem_map.mp there
      exact known_arrive (k.known r before) fair
    · obtain ⟨r, before, rfl⟩ := List.mem_map.mp there
      rw [quiet]
      exact k.delivered r before

private theorem kept_client (k : Kept messages s) (taken : step s .client = some t) :
    Kept messages t := by
  cases unsent : s.unsent with
  | nil => simp [step, unsent] at taken
  | cons first rest =>
    simp only [step, unsent, Option.some.injEq] at taken
    obtain rfl := taken
    have here : first ∈ s.unsent := unsent ▸ List.mem_cons_self
    obtain ⟨client, fair⟩ := k.unsent first here
    have before : Kept messages { s with unsent := rest } := by
      refine ⟨fun u later => k.unsent u ?_, k.relay, k.known, k.delivered, k.circulating⟩
      exact unsent ▸ List.mem_cons_of_mem first later
    exact kept_sendto before client fair first.2

private theorem circulating_taken {sock : Sock} {i : ℕ} {d : Datagram}
    (before : (waiting fromRelay sock).Perm (printed Source.isClient sock))
    (there : sock.queue[i]? = some d) (shown : List (Source × List Byte)) :
    (waiting fromRelay ⟨sock.queue.eraseIdx i, shown⟩ ++ [text d.payload]).Perm
      (printed Source.isClient sock ++ texts Source.isClient [entry d]) := by
  have out := (waiting_taken fromRelay there shown).symm.trans before
  cases client : d.source.isClient with
  | true =>
    rw [texts_relay_of_client client, List.nil_append] at out
    rw [texts_meant client]
    exact out.append_right _
  | false =>
    have relayed : fromRelay d.source = true := by
      rw [fromRelay, client]
      rfl
    rw [texts_meant relayed] at out
    rw [texts_not_meant client, List.append_nil]
    exact List.perm_append_comm.trans out

private theorem kept_relay (k : Kept messages s) {i : ℕ} (taken : step s (.relay i) = some t) :
    Kept messages t := by
  obtain ⟨⟨source, buffer, later⟩, received, rfl⟩ := Option.map_eq_some_iff.mp taken
  obtain ⟨d, there, rfl, rfl, rfl⟩ := recvfrom_eq_some.mp received
  have same : text (d.payload.take ECHOMAX) = text d.payload := text_take d.payload
  have fair : ∃ m ∈ messages, text (d.payload.take ECHOMAX) = text m.2.1 := by
    rw [same]
    exact k.relay.1 d (List.mem_of_getElem? there)
  have copy : texts fromRelay [entry ⟨.relay, d.payload.take ECHOMAX⟩] = [text d.payload] :=
    congrArg (fun line => [line]) same
  refine ⟨k.unsent, known_arrive (known_taken k.relay there) fair, fun r inside => ?_,
    fun r inside => ?_, ?_⟩
  · obtain ⟨r, before, rfl⟩ := List.mem_map.mp inside
    exact known_arrive (k.known r before) fair
  · obtain ⟨r, before, rfl⟩ := List.mem_map.mp inside
    have all : (s.servSock.shown ++ [entry d]).map Prod.snd =
        s.servSock.shown.map Prod.snd ++ [text d.payload] := List.map_append
    rw [waiting_arrive, copy]
    change (waiting fromRelay r ++ [text d.payload] ++ printed fromRelay r).Perm
      ((s.servSock.shown ++ [entry d]).map Prod.snd)
    rw [all, List.append_assoc]
    refine (List.perm_append_comm.append_left _).trans ?_
    rw [← List.append_assoc]
    exact (k.delivered r before).append_right _
  · change (waiting fromRelay (Sock.arrive ⟨_, s.servSock.shown ++ [entry d]⟩ _)).Perm
      (texts Source.isClient (s.servSock.shown ++ [entry d]))
    rw [waiting_arrive, copy, texts_append]
    exact circulating_taken k.circulating there _

private theorem kept_receiver (k : Kept messages s) {j i : ℕ}
    (taken : step s (.receiver j i) = some t) :
    Kept messages t := by
  obtain ⟨sock, here, received⟩ := Option.bind_eq_some_iff.mp taken
  obtain ⟨⟨source, buffer, later⟩, took, rfl⟩ := Option.map_eq_some_iff.mp received
  obtain ⟨d, there, rfl, rfl, rfl⟩ := recvfrom_eq_some.mp took
  have inside : sock ∈ s.receivers := List.mem_of_getElem? here
  refine ⟨k.unsent, k.relay, fun r now => ?_, fun r now => ?_, k.circulating⟩
  · rcases List.mem_or_eq_of_mem_set now with before | rfl
    · exact k.known r before
    · exact known_taken (k.known sock inside) there
  · rcases List.mem_or_eq_of_mem_set now with before | rfl
    · exact k.delivered r before
    · have whole := k.delivered sock inside
      have out := waiting_taken fromRelay there (sock.shown ++ [entry d])
      have more : printed fromRelay ⟨sock.queue.eraseIdx i, sock.shown ++ [entry d]⟩ =
          printed fromRelay sock ++ texts fromRelay [entry d] := texts_append _ _
      rw [more, ← List.append_assoc]
      refine List.perm_append_comm.trans ?_
      rw [← List.append_assoc]
      exact (out.symm.append_right _).trans whole

private theorem kept_step (s : State) (a : Action) (t : State) (k : Kept messages s)
    (taken : step s a = some t) : Kept messages t := by
  cases a with
  | client => exact kept_client k taken
  | relay i => exact kept_relay k taken
  | receiver j i => exact kept_receiver k taken

end Run

/-- In every run, whichever datagram each program takes first: every receiver has been delivered
each text that the relay has printed, as often as it has, and prints nothing that no client has
sent; and of each text that the relay has had from a client there is a copy at its own socket, for
good. -/
theorem receivers_hear_everything (messages : List (UInt32 × List Byte × Dest)) (receivers : ℕ)
    {s : State} (run : Reach step (init messages receivers) s) :
    (∀ r ∈ s.receivers,
      (waiting fromRelay r ++ printed fromRelay r).Perm (s.servSock.shown.map Prod.snd) ∧
        ∀ e ∈ r.shown, ∃ m ∈ messages, e.2 = text m.2.1) ∧
      (waiting fromRelay s.servSock).Perm (printed Source.isClient s.servSock) := by
  have k := invariant_of_step_reach kept_step (kept_init messages receivers) run
  exact ⟨fun r there => ⟨k.delivered r there, (k.known r there).2⟩, k.circulating⟩

def goingRound : List Action := [.client, .relay 0, .relay 0, .receiver 0 0]

theorem message_goes_round : ∃ s, Reach step (init [(0x0100007F, lit ['h', 'i'], .relay)] 1) s ∧
    s.servSock.shown.map Prod.snd = [lit ['h', 'i'], lit ['h', 'i']] ∧
    (∀ r ∈ s.receivers,
      (waiting fromRelay r ++ printed fromRelay r).Perm (s.servSock.shown.map Prod.snd) ∧
        ∀ e ∈ r.shown, ∃ m ∈ [((0x0100007F : UInt32), lit ['h', 'i'], Dest.relay)],
          e.2 = text m.2.1) ∧
      (waiting fromRelay s.servSock).Perm (printed Source.isClient s.servSock) := by
  have ends : (exec step (init [(0x0100007F, lit ['h', 'i'], .relay)] 1) goingRound).map
      (fun s => s.servSock.shown.map Prod.snd) = some [lit ['h', 'i'], lit ['h', 'i']] := by
    decide +kernel
  obtain ⟨s, taken, shown⟩ := Option.map_eq_some_iff.mp ends
  have run : Reach step (init [(0x0100007F, lit ['h', 'i'], .relay)] 1) s := ⟨goingRound, taken⟩
  exact ⟨s, run, shown, receivers_hear_everything _ 1 run⟩

end SocketChat.TestCode.UdpBroadcast.Hearing
