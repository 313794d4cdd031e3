/- SocketChat/TestCode/Echo/RoundTrip
   digest: The client prints its word, however the stream is cut up on both ways. -/

import SocketChat.Lib.Runs
import SocketChat.TestCode.Echo.Client

set_option autoImplicit false
set_option relaxedAutoImplicit false

namespace SocketChat.TestCode.Echo.RoundTrip

open SocketChat.Lib.CString
open SocketChat.Lib.Lines (newline)
open SocketChat.Lib.Runs
open SocketChat.TestCode.Echo.Model (RCVBUFSIZE Point Call HandleTCPClient Handles handles_of_eq)
open SocketChat.TestCode.Echo.Client

def label : List Byte := lit ['R', 'e', 'c', 'e', 'i', 'v', 'e', 'd', ':', ' ']

def shown (got : List Byte) : ClientPoint → List Byte
  | .send => []
  | .exited => label ++ got ++ [newline]
  | _ => label ++ got

def unsent (s : State) : List Byte :=
  match s.client with
  | .send => s.echoString
  | _ => []

def held (s : State) : List Byte :=
  match s.server with
  | .send echoBuffer => echoBuffer
  | _ => []

def Counts (length n : ℕ) : ClientPoint → Prop
  | .send => n = 0
  | .recv => n < length
  | .close => n = length
  | .exited => n = length
  | .failed _ => False

def Ends (client : ClientPoint) : Point → Prop
  | .close => client = .exited
  | .returned => client = .exited
  | .failed _ => False
  | _ => True

/-- The first `n` bytes of the word have come back, and the others are on their way in order. -/
structure Flows (word : List Byte) (s : State) (n : ℕ) : Prop where
  string : s.echoString = word
  total : s.totalBytesRcvd = n
  bound : n ≤ word.length
  rest : word.drop n = s.toClient ++ held s ++ s.toServer ++ unsent s
  printed : s.printed = shown (word.take n) s.client
  counts : Counts word.length n s.client
  ends : Ends s.client s.server

structure InBounds (s : State) : Prop where
  written : ∀ i ∈ s.written, i < RCVBUFSIZE
  serverWritten : ∀ i ∈ s.serverWritten, i < RCVBUFSIZE
  size : s.echoBuffer.length = RCVBUFSIZE

section Test

/-- Below 2^31 the comparison of the signed count with the unsigned length is that of the
numbers. -/
theorem afterTest_eq {n length : ℕ} (bound : n ≤ length) (small : length < 2 ^ 31) :
    afterTest (n : ℤ) length = if n < length then .recv else .close := by
  have same : (n : ℤ) % 2 ^ 32 = n := Int.emod_eq_of_lt (by omega) (by omega)
  rw [afterTest, same]
  exact if_congr Int.ofNat_lt rfl rfl

private theorem echoStringLen_eq {word : List Byte} {s : State} (string : s.echoString = word)
    (nul_free : 0 ∉ word) (small : word.length < 2 ^ 31) : echoStringLen s = word.length := by
  rw [echoStringLen, string, strlen, cstr_of_nul_free nul_free]
  exact Nat.mod_eq_of_lt (by omega)

private theorem counts_afterTest {n length : ℕ} (bound : n ≤ length) (small : length < 2 ^ 31) :
    Counts length n (afterTest n length) := by
  rw [afterTest_eq bound small]
  split
  · assumption
  · exact Nat.le_antisymm bound (by omega)

private theorem shown_afterTest {n length : ℕ} (bound : n ≤ length) (small : length < 2 ^ 31)
    (got : List Byte) : shown got (afterTest n length) = label ++ got := by
  rw [afterTest_eq bound small]
  split <;> rfl

private theorem afterTest_ne_send (total : ℤ) (length : ℕ) : afterTest total length ≠ .send := by
  rw [afterTest]
  split <;> exact ClientPoint.noConfusion

private theorem unsent_of_ne {s : State} (other : s.client ≠ .send) : unsent s = [] := by
  rw [unsent]
  split
  · contradiction
  · rfl

private theorem ends_of_running {client client' : ClientPoint} {server : Point}
    (ends : Ends client server) (running : client ≠ .exited) : Ends client' server := by
  cases server with
  | recv => trivial
  | send echoBuffer => trivial
  | close => exact absurd ends running
  | returned => exact absurd ends running
  | failed text => exact ends

end Test

inductive Moves (s : State) : Action → State → Prop
  | send (here : s.client = .send) :
      Moves s .send { s with
        client := afterTest 0 (echoStringLen s)
        printed := label
        toServer := s.toServer ++ s.echoString.take (echoStringLen s) }
  | recv {n : ℕ} (here : s.client = .recv) (pos : 0 < n) (room : n ≤ RCVBUFSIZE - 1)
      (available : n ≤ s.toClient.length) :
      Moves s (.recv n) { s with
        client := afterTest (s.totalBytesRcvd + n) (echoStringLen s)
        totalBytesRcvd := s.totalBytesRcvd + n
        echoBuffer := overwrite s.echoBuffer (s.toClient.take n ++ [0])
        printed := s.printed ++ cstr (overwrite s.echoBuffer (s.toClient.take n ++ [0]))
        toClient := s.toClient.drop n
        written := s.written ++ List.range (n + 1) }
  | recvEnd (here : s.client = .recv) (returned : s.server = .returned) :
      Moves s .recvEnd { s with
        client := .failed "recv() failed or connection closed prematurely" }
  | close (here : s.client = .close) :
      Moves s .close { s with client := .exited, printed := s.printed ++ [newline] }
  | serverRecv {n : ℕ} (here : s.server = .recv) (pos : 0 < n) (room : n ≤ RCVBUFSIZE)
      (available : n ≤ s.toServer.length) :
      Moves s (.serverRecv n) { s with
        server := .send (s.toServer.take n)
        toServer := s.toServer.drop n
        serverWritten := s.serverWritten ++ List.range n }
  | serverRecvEnd (here : s.server = .recv) (gone : s.client = .exited) :
      Moves s .serverRecvEnd { s with server := .close }
  | serverSend {echoBuffer : List Byte} (here : s.server = .send echoBuffer) :
      Moves s .serverSend { s with server := .recv, toClient := s.toClient ++ echoBuffer }
  | serverClose (here : s.server = .close) : Moves s .serverClose { s with server := .returned }

private theorem serve_eq {s t : State} {k : Call} (taken : serve s k = some t) :
    ∃ p q out, s.server = p ∧ Handles p k q out ∧
      t = { s with server := q, toClient := s.toClient ++ out } := by
  obtain ⟨⟨q, out⟩, handled, rfl⟩ := Option.map_eq_some_iff.mp taken
  exact ⟨s.server, q, out, rfl, handles_of_eq handled, rfl⟩

private theorem moves_serverRecv {s t : State} {n : ℕ} (taken : serverRecv s n = some t) :
    Moves s (.serverRecv n) t := by
  rw [serverRecv] at taken
  split at taken
  · rename_i fits
    obtain ⟨pos, available⟩ := fits
    have size : (s.toServer.take n).length = n := List.length_take_of_le available
    obtain ⟨p, q, out, here, handled, rfl⟩ := serve_eq taken
    cases handled with
    | ended nothing =>
      rw [nothing, List.length_nil] at size
      omega
    | chunk _ room =>
      dsimp only
      rw [List.append_nil]
      exact .serverRecv here pos (size ▸ room) available
  · cases taken

private theorem moves_of_step {s t : State} {a : Action} (taken : step s a = some t) :
    Moves s a t := by
  cases a with
  | send =>
    simp only [step, send] at taken
    split at taken
    · rename_i here
      cases taken
      exact .send here
    · cases taken
  | recv n =>
    simp only [step, recv] at taken
    split at taken
    · rename_i here
      split at taken
      · rename_i fits
        cases taken
        exact .recv here fits.1 fits.2.1 fits.2.2
      · cases taken
    · cases taken
  | recvEnd =>
    simp only [step, recvEnd] at taken
    split at taken
    · rename_i here
      split at taken
      · rename_i ended
        cases taken
        exact .recvEnd here ended.1
      · cases taken
    · cases taken
  | close =>
    simp only [step, close] at taken
    split at taken
    · rename_i here
      cases taken
      exact .close here
    · cases taken
  | serverRecv n => exact moves_serverRecv taken
  | serverRecvEnd =>
    simp only [step, serverRecvEnd] at taken
    split at taken
    · rename_i ended
      obtain ⟨p, q, out, here, handled, rfl⟩ := serve_eq taken
      cases handled with
      | ended _ =>
        rw [List.append_nil]
        exact .serverRecvEnd here ended.1
      | chunk some_bytes _ => exact absurd rfl some_bytes
    · cases taken
  | serverSend =>
    obtain ⟨p, q, out, here, handled, rfl⟩ := serve_eq taken
    cases handled with
    | send _ => exact .serverSend here
  | serverClose =>
    obtain ⟨p, q, out, here, handled, rfl⟩ := serve_eq taken
    cases handled with
    | close =>
      rw [List.append_nil]
      exact .serverClose here

section Steps

variable {word : List Byte} {s t : State} {n : ℕ}

private theorem flows_send (nul_free : 0 ∉ word) (small : word.length < 2 ^ 31) (f : Flows word s n)
    (moved : Moves s .send t) : Flows word t 0 := by
  cases moved with
  | send here =>
    have none_yet : n = 0 := by
      have counts := f.counts
      rwa [here] at counts
    subst none_yet
    have rest := f.rest
    rw [unsent, here] at rest
    rw [echoStringLen_eq f.string nul_free small]
    refine ⟨f.string, f.total, f.bound, ?_, ?_, counts_afterTest (Nat.zero_le _) small, ?_⟩
    · rw [unsent_of_ne (afterTest_ne_send 0 _), rest, List.append_nil]
      show s.toClient ++ held s ++ s.toServer ++ s.echoString =
        s.toClient ++ held s ++ (s.toServer ++ s.echoString.take word.length)
      rw [f.string, List.take_length, List.append_assoc _ s.toServer]
    · exact (shown_afterTest (Nat.zero_le _) small []).symm
    · exact ends_of_running f.ends (by rw [here]; exact ClientPoint.noConfusion)

private theorem flows_recv {k : ℕ} (nul_free : 0 ∉ word) (small : word.length < 2 ^ 31)
    (f : Flows word s n) (moved : Moves s (.recv k) t) : Flows word t (n + k) := by
  cases moved with
  | recv here pos room available =>
    have rest := f.rest
    rw [unsent_of_ne (by rw [here]; exact ClientPoint.noConfusion), List.append_nil] at rest
    have enough : n + k ≤ word.length := by
      have sizes := congrArg List.length rest
      simp only [List.length_drop, List.length_append] at sizes
      have bound := f.bound
      omega
    have piece : (word.drop n).take k = s.toClient.take k := by
      rw [rest, List.append_assoc, List.take_append_of_le_length available]
    have nul_free_piece : 0 ∉ s.toClient.take k := by
      rw [← piece]
      intro inside
      exact nul_free (List.mem_of_mem_drop (List.mem_of_mem_take inside))
    have total : s.totalBytesRcvd + (k : ℤ) = ((n + k : ℕ) : ℤ) := by
      rw [f.total]
      exact (Int.natCast_add n k).symm
    rw [echoStringLen_eq f.string nul_free small, total]
    refine ⟨f.string, rfl, enough, ?_, ?_, counts_afterTest enough small, ?_⟩
    · rw [unsent_of_ne (afterTest_ne_send _ _), List.append_nil, ← List.drop_drop, rest]
      show (s.toClient ++ held s ++ s.toServer).drop k =
        s.toClient.drop k ++ held s ++ s.toServer
      rw [List.append_assoc, List.append_assoc, List.drop_append_of_le_length available]
    · rw [shown_afterTest enough small, List.take_add, piece, f.printed, here]
      dsimp only
      rw [cstr_overwrite, cstr_of_nul_free nul_free_piece]
      exact List.append_assoc ..
    · exact ends_of_running f.ends (by rw [here]; exact ClientPoint.noConfusion)

private theorem flows_recvEnd (f : Flows word s n) : ¬ Moves s .recvEnd t := by
  intro moved
  cases moved with
  | recvEnd here returned =>
    have ends := f.ends
    rw [here, returned] at ends
    cases ends

private theorem flows_close (f : Flows word s n) (moved : Moves s .close t) : Flows word t n := by
  cases moved with
  | close here =>
    have counts := f.counts
    have rest := f.rest
    have printed := f.printed
    rw [here] at counts printed
    rw [unsent_of_ne (by rw [here]; exact ClientPoint.noConfusion)] at rest
    refine ⟨f.string, f.total, f.bound, rest, ?_, counts, ?_⟩
    · rw [printed]
      rfl
    · exact ends_of_running f.ends (by rw [here]; exact ClientPoint.noConfusion)

private theorem flows_serverRecv {k : ℕ} (f : Flows word s n) (moved : Moves s (.serverRecv k) t) :
    Flows word t n := by
  cases moved with
  | serverRecv here pos room available =>
    have rest := f.rest
    rw [held, here, List.append_nil] at rest
    refine ⟨f.string, f.total, f.bound, ?_, f.printed, f.counts, trivial⟩
    rw [rest]
    show _ = s.toClient ++ s.toServer.take k ++ s.toServer.drop k ++ unsent s
    rw [List.append_assoc s.toClient (s.toServer.take k), List.take_append_drop]

private theorem flows_serverRecvEnd (f : Flows word s n) (moved : Moves s .serverRecvEnd t) :
    Flows word t n := by
  cases moved with
  | serverRecvEnd here gone =>
    have rest := f.rest
    rw [held, here] at rest
    exact ⟨f.string, f.total, f.bound, rest, f.printed, f.counts, gone⟩

private theorem flows_serverSend (f : Flows word s n) (moved : Moves s .serverSend t) :
    Flows word t n := by
  cases moved with
  | serverSend here =>
    rename_i echoBuffer
    have rest := f.rest
    rw [held, here] at rest
    refine ⟨f.string, f.total, f.bound, ?_, f.printed, f.counts, trivial⟩
    rw [rest]
    show _ = s.toClient ++ echoBuffer ++ [] ++ s.toServer ++ unsent s
    rw [List.append_nil]

private theorem flows_serverClose (f : Flows word s n) (moved : Moves s .serverClose t) :
    Flows word t n := by
  cases moved with
  | serverClose here =>
    have rest := f.rest
    have ends := f.ends
    rw [held, here] at rest
    rw [here] at ends
    exact ⟨f.string, f.total, f.bound, rest, f.printed, f.counts, ends⟩

private theorem flows_step {a : Action} (nul_free : 0 ∉ word) (small : word.length < 2 ^ 31)
    (f : Flows word s n) (taken : step s a = some t) : ∃ m, Flows word t m := by
  have moved := moves_of_step taken
  cases a with
  | send => exact ⟨0, flows_send nul_free small f moved⟩
  | recv k => exact ⟨n + k, flows_recv nul_free small f moved⟩
  | recvEnd => exact absurd moved (flows_recvEnd f)
  | close => exact ⟨n, flows_close f moved⟩
  | serverRecv k => exact ⟨n, flows_serverRecv f moved⟩
  | serverRecvEnd => exact ⟨n, flows_serverRecvEnd f moved⟩
  | serverSend => exact ⟨n, flows_serverSend f moved⟩
  | serverClose => exact ⟨n, flows_serverClose f moved⟩

end Steps

private theorem written_append {written : List ℕ} {m : ℕ} (before : ∀ i ∈ written, i < RCVBUFSIZE)
    (room : m ≤ RCVBUFSIZE) : ∀ i ∈ written ++ List.range m, i < RCVBUFSIZE :=
  List.forall_mem_append.mpr ⟨before, range_inside.mpr room⟩

private theorem inBounds_step {s t : State} {a : Action} (b : InBounds s)
    (taken : step s a = some t) :
    InBounds t := by
  cases moves_of_step taken with
  | recv here pos room available =>
    rename_i n
    have capacity : RCVBUFSIZE = 32 := rfl
    have size := b.size
    refine ⟨written_append b.written (by omega), b.serverWritten, ?_⟩
    simp only [overwrite, List.length_append, List.length_take, List.length_drop,
      List.length_singleton]
    omega
  | serverRecv here pos room available =>
    exact ⟨b.written, written_append b.serverWritten room, b.size⟩
  | _ => exact ⟨b.written, b.serverWritten, b.size⟩

/-- How much is left to do: every byte has to leave the client, the server and the client's
stream again. -/
def clientLeft (length : ℕ) : ClientPoint → ℕ
  | .send => 3 + 6 * length
  | .recv => 2
  | .close => 1
  | _ => 0

def serverLeft : Point → ℕ
  | .recv => 2
  | .send echoBuffer => 4 + 3 * echoBuffer.length
  | .close => 1
  | _ => 0

def left (s : State) : ℕ :=
  clientLeft s.echoString.length s.client + serverLeft s.server + 6 * s.toServer.length +
    2 * s.toClient.length

section Measure

variable {s t : State}

private theorem clientLeft_afterTest (total : ℤ) (length size : ℕ) :
    clientLeft size (afterTest total length) ≤ 2 := by
  rw [afterTest]
  split
  · exact Nat.le_refl 2
  · exact Nat.le_succ 1

private theorem left_step {a : Action} (taken : step s a = some t) : left t < left s := by
  cases moves_of_step taken with
  | send here =>
    have after := clientLeft_afterTest 0 (echoStringLen s) s.echoString.length
    have sent := List.length_take_le' (echoStringLen s) s.echoString
    rw [left, left, here, clientLeft]
    simp only [List.length_append]
    omega
  | recv here pos room available =>
    rename_i n
    have after := clientLeft_afterTest (s.totalBytesRcvd + n) (echoStringLen s)
      s.echoString.length
    rw [left, left, here, clientLeft]
    simp only [List.length_drop]
    omega
  | recvEnd here returned =>
    simp only [left, here, clientLeft]
    omega
  | close here =>
    simp only [left, here, clientLeft]
    omega
  | serverRecv here pos room available =>
    simp only [left, here, serverLeft, List.length_take, List.length_drop]
    omega
  | serverRecvEnd here gone =>
    simp only [left, here, serverLeft]
    omega
  | serverSend here =>
    simp only [left, here, serverLeft, List.length_append]
    omega
  | serverClose here =>
    simp only [left, here, serverLeft]
    omega

end Measure

section Progress

variable {word : List Byte} {s : State} {n : ℕ}

private theorem recv_isSome (here : s.client = .recv) (more : s.toClient ≠ []) :
    (step s (.recv 1)).isSome := by
  have pos := List.length_pos_iff.mpr more
  rw [step, recv, here]
  dsimp only
  rw [if_pos ⟨Nat.one_pos, by decide, pos⟩]
  rfl

private theorem serverRecv_isSome (here : s.server = .recv) (more : s.toServer ≠ []) :
    (step s (.serverRecv 1)).isSome := by
  have pos := List.length_pos_iff.mpr more
  have chunk : s.toServer.take 1 ≠ [] := by
    rw [ne_eq, List.take_eq_nil_iff, not_or]
    exact ⟨Nat.one_ne_zero, more⟩
  have short : (s.toServer.take 1).length ≤ RCVBUFSIZE :=
    Nat.le_trans (List.length_take_le ..) (by decide)
  rw [step, serverRecv, if_pos ⟨Nat.one_pos, pos⟩, serve, Option.isSome_map, here,
    HandleTCPClient, if_neg chunk, if_pos short]
  rfl

private theorem moves_of_missing (f : Flows word s n) (here : s.client = .recv) :
    ∃ a, (step s a).isSome := by
  have missing : s.toClient ++ held s ++ s.toServer ≠ [] := by
    have rest := f.rest
    have counts := f.counts
    rw [here] at counts
    rw [unsent_of_ne (by rw [here]; exact ClientPoint.noConfusion), List.append_nil] at rest
    rw [← rest, ne_eq, List.drop_eq_nil_iff]
    exact Nat.not_le.mpr counts
  by_cases arrived : s.toClient = []
  · have ends := f.ends
    rw [here] at ends
    cases server : s.server with
    | recv =>
      refine ⟨.serverRecv 1, serverRecv_isSome server ?_⟩
      rw [arrived, held, server] at missing
      exact missing
    | send echoBuffer =>
      refine ⟨.serverSend, ?_⟩
      rw [step, serve, Option.isSome_map, server]
      rfl
    | close =>
      rw [server] at ends
      cases ends
    | returned =>
      rw [server] at ends
      cases ends
    | failed text =>
      rw [server] at ends
      exact ends.elim
  · exact ⟨.recv 1, recv_isSome here arrived⟩

private theorem exited_of_stuck (f : Flows word s n) (stuck : ∀ a, step s a = none) :
    s.client = .exited := by
  cases here : s.client with
  | send =>
    have waits := stuck .send
    rw [step, send, here] at waits
    cases waits
  | recv =>
    obtain ⟨a, moves⟩ := moves_of_missing f here
    rw [stuck a] at moves
    cases moves
  | close =>
    have waits := stuck .close
    rw [step, close, here] at waits
    cases waits
  | exited => rfl
  | failed text =>
    have counts := f.counts
    rw [here] at counts
    exact counts.elim

end Progress

/-- Every run of client and server is finite and inside the buffers, the count never exceeds the
length, no error is reported, and where nothing more can happen the word has been printed. -/
theorem echo_client_prints_word (word echoBuffer : List Byte) (nul_free : 0 ∉ word)
    (small : word.length < 2 ^ 31) (size : echoBuffer.length = 32) (as : List Action) (s : State)
    (taken : exec step (init word echoBuffer) as = some s) :
    as.length ≤ 6 * word.length + 5 ∧
      (0 ≤ s.totalBytesRcvd ∧ s.totalBytesRcvd ≤ echoStringLen s) ∧
      (∀ i ∈ s.written, i < 32) ∧ (∀ i ∈ s.serverWritten, i < 32) ∧ s.echoBuffer.length = 32 ∧
      (∀ message, s.client ≠ .failed message) ∧
      (s.client = .exited → s.printed = label ++ word ++ [newline] ∧
        s.totalBytesRcvd = echoStringLen s) ∧
      ((∀ a, step s a = none) → s.client = .exited) := by
  have run : Reach step (init word echoBuffer) s := ⟨as, taken⟩
  have start : Flows word (init word echoBuffer) 0 :=
    ⟨rfl, rfl, Nat.zero_le _, rfl, rfl, rfl, trivial⟩
  obtain ⟨n, f⟩ : ∃ n, Flows word s n :=
    invariant_of_step_reach (P := fun s => ∃ n, Flows word s n)
      (fun _ _ _ before moved => flows_step nul_free small before.choose_spec moved)
      ⟨0, start⟩ run
  have b : InBounds s :=
    invariant_of_step_reach (fun _ _ _ before moved => inBounds_step before moved)
      ⟨fun _ inside => absurd inside List.not_mem_nil,
        fun _ inside => absurd inside List.not_mem_nil, size⟩ run
  have length := echoStringLen_eq f.string nul_free small
  refine ⟨?_, ?_, b.written, b.serverWritten, b.size, ?_, ?_, exited_of_stuck f⟩
  · have bounded := length_le_of_measure (fun _ _ _ moved => left_step moved) taken
    have total : left (init word echoBuffer) = 6 * word.length + 5 := by
      simp only [left, init, clientLeft, serverLeft, List.length_nil]
      omega
    omega
  · rw [f.total, length]
    exact ⟨Int.natCast_nonneg n, Int.ofNat_le.mpr f.bound⟩
  · intro message here
    have counts := f.counts
    rw [here] at counts
    exact counts
  · intro here
    have counts := f.counts
    have printed := f.printed
    rw [here] at counts printed
    rw [printed, f.total, length, counts, List.take_length]
    exact ⟨rfl, rfl⟩

/-- The server takes the three bytes in two pieces, and the client in two others. -/
theorem echo_client_prints_three_bytes : ∃ as s,
    exec step (init (lit ['a', 'b', 'c']) (List.replicate 32 0)) as = some s ∧
      s.client = .exited ∧ s.printed = label ++ lit ['a', 'b', 'c'] ++ [newline] ∧
      as.length ≤ 6 * 3 + 5 ∧
      (0 ≤ s.totalBytesRcvd ∧ s.totalBytesRcvd ≤ echoStringLen s) ∧
      (∀ i ∈ s.written, i < 32) ∧ (∀ i ∈ s.serverWritten, i < 32) ∧ s.echoBuffer.length = 32 ∧
      (∀ message, s.client ≠ .failed message) ∧
      (s.client = .exited → s.printed = label ++ lit ['a', 'b', 'c'] ++ [newline] ∧
        s.totalBytesRcvd = echoStringLen s) ∧
      ((∀ a, step s a = none) → s.client = .exited) := by
  let as : List Action := [.send, .serverRecv 1, .serverSend, .serverRecv 2, .serverSend,
    .recv 2, .recv 1, .close, .serverRecvEnd, .serverClose]
  have ends : (exec step (init (lit ['a', 'b', 'c']) (List.replicate 32 0)) as).map
      (fun s => s.client) = some .exited := by decide +kernel
  obtain ⟨s, taken, here⟩ := Option.map_eq_some_iff.mp ends
  have holds := echo_client_prints_word (lit ['a', 'b', 'c']) (List.replicate 32 0) (by decide)
    (by decide) (by decide) as s taken
  exact ⟨as, s, taken, here, (holds.2.2.2.2.2.2.1 here).1, holds⟩

end SocketChat.TestCode.Echo.RoundTrip
