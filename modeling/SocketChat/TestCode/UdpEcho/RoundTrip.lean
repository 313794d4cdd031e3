/- SocketChat/TestCode/UdpEcho/RoundTrip
   digest: Which words come back from the UDP echo server, inside of the two buffers. -/

import SocketChat.Lib.Runs
import SocketChat.TestCode.UdpEcho.Model

set_option autoImplicit false
set_option relaxedAutoImplicit false

namespace SocketChat.TestCode.UdpEcho.RoundTrip

open SocketChat.Lib.CString
open SocketChat.Lib.Lines (newline)
open SocketChat.Lib.Runs
open SocketChat.TestCode.UdpEcho.Model

def sentWord (c : Setup) : List Byte := c.echoString.take (echoStringLen c)

def echo (c : Setup) : List Byte := (sentWord c).take ECHOMAX

def reply (echoed : List Byte) : List Byte := lit "Received: ".toList ++ echoed ++ [newline]

def Inside (s : State) : Prop :=
  (∀ i ∈ s.written, i < ECHOMAX) ∧ ∀ i ∈ s.serverWritten, i < ECHOMAX

def Ended (c : Setup) (s : State) : Prop :=
  s.client = .exited ∧ s.printed = reply c.echoString ∨ ∃ message, s.client = .failed message

/-- Every run of the two programs comes to its end, with the word printed or an error message, and
stays inside of the arrays. -/
structure RoundTrips (c : Setup) : Prop where
  finite : ∀ as s, exec (step c) (init c) as = some s → as.length ≤ 4
  ends : ∀ s, Reach (step c) (init c) s → (∀ a, step c s a = none) → Ended c s
  inside : ∀ s, Reach (step c) (init c) s → Inside s

section Lengths

variable (c : Setup)

theorem echoStringLen_eq : echoStringLen c = c.echoString.length % 2 ^ 32 := by
  rw [echoStringLen, strlen, cstr_of_nul_free c.nul_free]

private theorem sentWord_length : (sentWord c).length = echoStringLen c := by
  refine List.length_take_of_le ?_
  rw [echoStringLen_eq]
  exact Nat.mod_le _ _

private theorem echo_length : (echo c).length = min ECHOMAX (echoStringLen c) := by
  rw [echo, List.length_take, sentWord_length]

theorem echo_length_ne : (echo c).length ≠ echoStringLen c ↔ ECHOMAX < echoStringLen c := by
  rw [echo_length]
  omega

private theorem echo_length_le : (echo c).length ≤ echoStringLen c := by
  rw [echo_length]
  exact Nat.min_le_right _ _

theorem take_echo : (echo c).take ECHOMAX = echo c := by
  rw [echo, List.take_take, Nat.min_self]

private theorem cstr_echo : cstr (echo c) = echo c := by
  refine cstr_of_nul_free fun zero => c.nul_free ?_
  exact List.mem_of_mem_take (List.mem_of_mem_take zero)

variable {c}

private theorem echo_of_short (short : c.echoString.length < ECHOMAX) :
    echoStringLen c = c.echoString.length ∧ echo c = c.echoString := by
  have length : echoStringLen c = c.echoString.length := by
    rw [echoStringLen_eq]
    exact Nat.mod_eq_of_lt (short.trans (by decide))
  refine ⟨length, ?_⟩
  rw [echo, sentWord, length, List.take_length]
  exact List.take_of_length_le (Nat.le_of_lt short)

end Lengths

section Sendto

variable {limit : ℕ} {datagram : List Byte}

private theorem sendto_of_le (fits : datagram.length ≤ limit) :
    sendto limit datagram = datagram.length :=
  if_pos fits

private theorem deliver_of_le (fits : datagram.length ≤ limit) (channel : List (List Byte)) :
    deliver limit channel datagram = channel ++ [datagram] := if_pos fits

private theorem sendto_of_lt (long : limit < datagram.length) : sendto limit datagram = -1 :=
  if_neg (Nat.not_le.mpr long)

private theorem deliver_of_lt (long : limit < datagram.length) (channel : List (List Byte)) :
    deliver limit channel datagram = channel := if_neg (Nat.not_le.mpr long)

end Sendto

def refused (c : Setup) : State :=
  { init c with client := .failed "sendto() sent a different number of bytes than expected" }

def sent (c : Setup) : State :=
  { init c with client := .recvfrom, toServer := [sentWord c] }

def received (c : Setup) : State :=
  { init c with
    client := .recvfrom
    server := .sendto (echo c).length
    serverBuffer := overwrite c.serverStack (echo c ++ [0])
    serverWritten := List.range (echo c).length ++ [(echo c).length]
    serverPrinted := lit "Handling client ".toList ++ c.clientIP ++
      lit " | Received: ".toList ++ echo c ++ [newline] }

def echoed (c : Setup) : State :=
  { received c with
    server := .recvfrom
    serverPrinted := (received c).serverPrinted ++ lit "Message echoed back to client\n".toList
    toClient := [echo c] }

def cutShort (c : Setup) : State :=
  { echoed c with
    client := .failed "recvfrom() failed"
    echoBuffer := overwrite c.stack (echo c)
    written := List.range (echo c).length
    toClient := [] }

def answered (c : Setup) : State :=
  { echoed c with
    client := .exited
    echoBuffer := overwrite c.stack (echo c ++ [0])
    written := List.range (echo c).length ++ [(echo c).length]
    printed := reply (echo c)
    toClient := [] }

section Steps

variable {c : Setup}

private theorem sendto_eq : step c (init c) .sendto = some { init c with
    client :=
      if sendto c.limit (sentWord c) ≠ echoStringLen c then
        .failed "sendto() sent a different number of bytes than expected"
      else .recvfrom
    toServer := deliver c.limit [] (sentWord c) } := rfl

private theorem sendto_refused (long : c.limit < echoStringLen c) :
    step c (init c) .sendto = some (refused c) := by
  rw [← sentWord_length] at long
  have less : sendto c.limit (sentWord c) ≠ echoStringLen c := by
    rw [sendto_of_lt long]
    omega
  rw [sendto_eq, if_pos less, deliver_of_lt long]
  rfl

private theorem sendto_sent (fits : echoStringLen c ≤ c.limit) :
    step c (init c) .sendto = some (sent c) := by
  rw [← sentWord_length] at fits
  have whole : sendto c.limit (sentWord c) = echoStringLen c := by
    rw [sendto_of_le fits, sentWord_length]
  rw [sendto_eq, if_neg (not_not_intro whole), deliver_of_le fits]
  rfl

theorem stored_eq (buf : List Byte) :
    storeAt (overwrite buf (echo c)) (echo c).length [0] = overwrite buf (echo c ++ [0]) :=
  storeAt_overwrite buf (echo c) [0]

theorem cstr_stored (buf : List Byte) : cstr (overwrite buf (echo c ++ [0])) = echo c :=
  (cstr_overwrite buf (echo c)).trans (cstr_echo c)

private theorem serverRecvfrom_received : step c (sent c) .serverRecvfrom = some (received c) := by
  let stored := storeAt (overwrite c.serverStack (echo c)) (echo c).length [0]
  calc
    step c (sent c) .serverRecvfrom = some { received c with
        serverBuffer := stored
        serverPrinted := lit "Handling client ".toList ++ c.clientIP ++
          lit " | Received: ".toList ++ cstr stored ++ [newline] } := rfl
    _ = some (received c) := by
      rw [show stored = _ from stored_eq c.serverStack, cstr_stored]
      rfl

private theorem serverSendto_echoed (fits : echoStringLen c ≤ c.limit) :
    step c (received c) .serverSendto = some (echoed c) := by
  have room : (echo c).length ≤ c.limit := (echo_length_le c).trans fits
  have chunk : (received c).serverBuffer.take (echo c).length = echo c := by
    change (echo c ++ [0] ++ _).take (echo c).length = echo c
    rw [List.append_assoc]
    exact List.take_left
  have whole : sendto c.limit (echo c) = (echo c).length := sendto_of_le room
  change (if sendto c.limit ((received c).serverBuffer.take (echo c).length) ≠ _ then _ else _) = _
  rw [chunk, if_neg (not_not_intro whole), deliver_of_le room]
  rfl

private theorem recvfrom_cutShort (long : ECHOMAX < echoStringLen c) :
    step c (echoed c) .recvfrom = some (cutShort c) := by
  change (if ((echo c).take ECHOMAX).length ≠ echoStringLen c then _ else _) = _
  rw [take_echo, if_pos ((echo_length_ne c).mpr long)]
  rfl

private theorem recvfrom_answered (fits : echoStringLen c ≤ ECHOMAX) :
    step c (echoed c) .recvfrom = some (answered c) := by
  have whole : ¬(echo c).length ≠ echoStringLen c :=
    fun other => Nat.not_lt.mpr fits ((echo_length_ne c).mp other)
  let stored := storeAt (overwrite c.stack (echo c)) (echo c).length [0]
  change (if ((echo c).take ECHOMAX).length ≠ echoStringLen c then _ else _) = _
  rw [take_echo, if_neg whole]
  calc
    _ = some { answered c with echoBuffer := stored, printed := reply (cstr stored) } := rfl
    _ = some (answered c) := by
      rw [show stored = _ from stored_eq c.stack, cstr_stored]
      rfl

end Steps

/-- The states that the two programs pass through, by the number of steps that lead there. -/
inductive Visited (c : Setup) : ℕ → State → Prop
  | init : Visited c 0 (init c)
  | refused (long : c.limit < echoStringLen c) : Visited c 1 (refused c)
  | sent (fits : echoStringLen c ≤ c.limit) : Visited c 1 (sent c)
  | received (fits : echoStringLen c ≤ c.limit) : Visited c 2 (received c)
  | echoed (fits : echoStringLen c ≤ c.limit) : Visited c 3 (echoed c)
  | cutShort (fits : echoStringLen c ≤ c.limit) (long : ECHOMAX < echoStringLen c) :
      Visited c 4 (cutShort c)
  | answered (fits : echoStringLen c ≤ c.limit) (room : echoStringLen c ≤ ECHOMAX) :
      Visited c 4 (answered c)

section Visited

variable {c : Setup} {n : ℕ} {s t : State} {a : Action}

private theorem visited_step (here : Visited c n s) (taken : step c s a = some t) :
    Visited c (n + 1) t := by
  cases here with
  | init =>
    cases a with
    | sendto =>
      rcases Nat.lt_or_ge c.limit (echoStringLen c) with long | fits
      · rw [sendto_refused long] at taken
        cases taken
        exact .refused long
      · rw [sendto_sent fits] at taken
        cases taken
        exact .sent fits
    | _ => cases taken
  | refused long => cases a <;> cases taken
  | sent fits =>
    cases a with
    | serverRecvfrom =>
      rw [serverRecvfrom_received] at taken
      cases taken
      exact .received fits
    | _ => cases taken
  | received fits =>
    cases a with
    | serverSendto =>
      rw [serverSendto_echoed fits] at taken
      cases taken
      exact .echoed fits
    | _ => cases taken
  | echoed fits =>
    cases a with
    | recvfrom =>
      rcases Nat.lt_or_ge ECHOMAX (echoStringLen c) with long | room
      · rw [recvfrom_cutShort long] at taken
        cases taken
        exact .cutShort fits long
      · rw [recvfrom_answered room] at taken
        cases taken
        exact .answered fits room
    | _ => cases taken
  | cutShort fits long => cases a <;> cases taken
  | answered fits room => cases a <;> cases taken

private theorem visited_run {as : List Action} (taken : exec (step c) (init c) as = some s) :
    Visited c as.length s := by
  have counted : Visited c (0 + as.length) s :=
    counted_of_step (P := Visited c) (fun _ _ _ _ before moved => visited_step before moved)
      .init taken
  rwa [Nat.zero_add] at counted

private theorem visited_le (here : Visited c n s) : n ≤ 4 := by
  cases here <;> decide

private theorem ended_of_stuck (here : Visited c n s) (stuck : ∀ a, step c s a = none)
    (whole : echo c = c.echoString ∨ c.limit < echoStringLen c) : Ended c s := by
  cases here with
  | init =>
    rcases Nat.lt_or_ge c.limit (echoStringLen c) with long | fits
    · cases (sendto_refused long).symm.trans (stuck .sendto)
    · cases (sendto_sent fits).symm.trans (stuck .sendto)
  | refused long => exact .inr ⟨_, rfl⟩
  | sent fits => cases serverRecvfrom_received.symm.trans (stuck .serverRecvfrom)
  | received fits => cases (serverSendto_echoed fits).symm.trans (stuck .serverSendto)
  | echoed fits =>
    rcases Nat.lt_or_ge ECHOMAX (echoStringLen c) with long | room
    · cases (recvfrom_cutShort long).symm.trans (stuck .recvfrom)
    · cases (recvfrom_answered room).symm.trans (stuck .recvfrom)
  | cutShort fits long => exact .inr ⟨_, rfl⟩
  | answered fits room =>
    rcases whole with same | long
    · exact .inl ⟨rfl, congrArg reply same⟩
    · exact absurd long (Nat.not_lt.mpr fits)

private theorem inside_of_visited (here : Visited c n s)
    (short : (echo c).length < ECHOMAX ∨ c.limit < echoStringLen c) : Inside s := by
  have untouched : ∀ i ∈ ([] : List ℕ), i < ECHOMAX := fun i none_yet =>
    absurd none_yet List.not_mem_nil
  have stored (fits : echoStringLen c ≤ c.limit) :
      ∀ i ∈ List.range (echo c).length ++ [(echo c).length], i < ECHOMAX :=
    range_zero_inside.mpr (short.resolve_right (Nat.not_lt.mpr fits))
  cases here with
  | init => exact ⟨untouched, untouched⟩
  | refused long => exact ⟨untouched, untouched⟩
  | sent fits => exact ⟨untouched, untouched⟩
  | received fits => exact ⟨untouched, stored fits⟩
  | echoed fits => exact ⟨untouched, stored fits⟩
  | cutShort fits long => exact ⟨(List.forall_mem_append.mp (stored fits)).1, stored fits⟩
  | answered fits room => exact ⟨stored fits, stored fits⟩

end Visited

section Reached

variable {c : Setup}

private theorem reach_received (fits : echoStringLen c ≤ c.limit) :
    Reach (step c) (init c) (received c) :=
  ⟨[.sendto, .serverRecvfrom], exec_cons_eq_some.mpr ⟨_, sendto_sent fits,
    exec_cons_eq_some.mpr ⟨_, serverRecvfrom_received, rfl⟩⟩⟩

private theorem reach_answered (fits : echoStringLen c ≤ c.limit)
    (room : echoStringLen c ≤ ECHOMAX) :
    Reach (step c) (init c) (answered c) := by
  obtain ⟨as, taken⟩ := reach_received fits
  refine ⟨as ++ [.serverSendto, .recvfrom], exec_append_eq_some taken ?_⟩
  exact exec_cons_eq_some.mpr ⟨_, serverSendto_echoed fits,
    exec_cons_eq_some.mpr ⟨_, recvfrom_answered room, rfl⟩⟩

private theorem answered_stuck (a : Action) : step c (answered c) a = none := by
  cases a <;> rfl

end Reached

/-- A word of `ECHOMAX` bytes or more does not come back, as long as it can be sent. -/
theorem short_of_roundTrips {c : Setup} (trips : RoundTrips c)
    (fits : echoStringLen c ≤ c.limit) : c.echoString.length < ECHOMAX := by
  have stored : (echo c).length < ECHOMAX :=
    range_zero_inside.mp (trips.inside _ (reach_received fits)).2
  have room : echoStringLen c ≤ ECHOMAX := by
    rw [echo_length] at stored
    omega
  have printed : reply (echo c) = reply c.echoString := by
    rcases trips.ends _ (reach_answered fits room) answered_stuck with ⟨_, word⟩ | ⟨_, failed⟩
    · exact word
    · cases failed
  have same : echo c = c.echoString :=
    List.append_cancel_left (List.append_cancel_right printed)
  rw [← same]
  exact stored

/-- The round trip is as it should be exactly for the words shorter than `ECHOMAX`, and for those
that the channel does not take. -/
theorem round_trips_iff (c : Setup) :
    RoundTrips c ↔
      c.echoString.length < ECHOMAX ∨ c.limit < c.echoString.length % 2 ^ 32 := by
  rw [← echoStringLen_eq]
  constructor
  · intro trips
    rcases Nat.lt_or_ge c.limit (echoStringLen c) with long | fits
    · exact .inr long
    · exact .inl (short_of_roundTrips trips fits)
  · intro short
    have whole : echo c = c.echoString ∨ c.limit < echoStringLen c :=
      short.imp_left fun less => (echo_of_short less).2
    have stored : (echo c).length < ECHOMAX ∨ c.limit < echoStringLen c := by
      refine short.imp_left fun less => ?_
      rw [(echo_of_short less).2]
      exact less
    refine ⟨?_, ?_, ?_⟩
    · intro as s taken
      exact visited_le (visited_run taken)
    · rintro s ⟨as, taken⟩ stuck
      exact ended_of_stuck (visited_run taken) stuck whole
    · rintro s ⟨as, taken⟩
      exact inside_of_visited (visited_run taken) stored

def longest : Setup where
  echoString := List.replicate 255 97
  nul_free := fun zero => absurd (List.eq_of_mem_replicate zero) (by decide)
  stack := []
  serverStack := []
  clientIP := lit "127.0.0.1".toList
  limit := 65507

/-- Its NUL is stored at `echoBuffer[255]` by the server, and then by the client. -/
theorem longest_overruns : ¬ ∀ c, RoundTrips c := by
  intro claim
  have shown : (exec (step longest) (init longest)
      [.sendto, .serverRecvfrom, .serverSendto, .recvfrom]).map
        (fun s => (s.written, s.serverWritten)) =
      some (List.range 255 ++ [255], List.range 255 ++ [255]) := by
    decide +kernel
  obtain ⟨s, taken, stored⟩ := Option.map_eq_some_iff.mp shown
  obtain ⟨written, serverWritten⟩ := Prod.mk.inj stored
  have inside := ((claim longest).inside s ⟨_, taken⟩).2 255 (by
    rw [serverWritten]
    exact List.mem_append_right _ (List.mem_singleton_self _))
  exact absurd inside (by decide)

end SocketChat.TestCode.UdpEcho.RoundTrip
