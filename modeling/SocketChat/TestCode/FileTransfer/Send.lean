/- SocketChat/TestCode/FileTransfer/Send
   digest: A SEND is stored exactly when the confirmation is received on its own. -/

import SocketChat.Lib.Download
import SocketChat.TestCode.FileTransfer.Model

set_option autoImplicit false
set_option relaxedAutoImplicit false

namespace SocketChat.TestCode.FileTransfer.Send

open SocketChat.Lib.Blocks
open SocketChat.Lib.CString
open SocketChat.Lib.Directory
open SocketChat.Lib.Download
open SocketChat.Lib.Stream
open SocketChat.TestCode.FileTransfer.Model

def TakesAll (sends : ℕ → ℤ) : Prop := ∀ i, (BUFFER_SIZE : ℤ) ≤ sends i

theorem write_whole {sock : Writer Byte} (whole : TakesAll sock.answers) {buf : List Byte}
    (short : buf.length ≤ BUFFER_SIZE) :
    ∃ sock', sock.write buf = ((buf.length : ℤ), sock') ∧ sock'.wire = sock.wire ++ buf ∧
      TakesAll sock'.answers := by
  have answer := whole 0
  have all : min (sock.answers 0).toNat buf.length = buf.length := by omega
  have size : (0 : ℤ) < BUFFER_SIZE := by decide
  refine ⟨⟨sock.wire ++ buf, fun i => sock.answers (i + 1)⟩, ?_, rfl, fun i => whole (i + 1)⟩
  rw [Writer.write, if_neg (by omega)]
  simp only [all, List.take_length]

theorem sendLoop_whole {sock : Writer Byte} (whole : TakesAll sock.answers)
    {reads : List (List Byte)} (short : ∀ b ∈ reads, b.length ≤ BUFFER_SIZE) :
    ∃ sock', sendLoop sock reads = (.returned, sock') ∧
      sock'.wire = sock.wire ++ reads.flatten := by
  induction reads generalizing sock with
  | nil => exact ⟨sock, rfl, by simp⟩
  | cons buffer reads ih =>
    obtain ⟨sock₁, sent, wire₁, whole₁⟩ := write_whole whole (short buffer List.mem_cons_self)
    obtain ⟨sock₂, done, wire₂⟩ := ih whole₁ fun b hb => short b (List.mem_cons_of_mem _ hb)
    refine ⟨sock₂, ?_, ?_⟩
    · simp only [sendLoop, sent]
      rw [if_neg (by simp), done]
    · rw [wire₂, wire₁]
      simp

theorem recvLoop_eq_download (sock : Reader Byte) (files : Files) (file_fd : List Byte) :
    recvLoop sock files file_fd = download BUFFER_SIZE sock files file_fd := by
  fun_induction recvLoop sock files file_fd with
  | case1 sock files stored ih => rw [download, if_pos stored, ih]
  | case2 sock files ended => rw [download, if_neg ended]

section Request

variable {filePath : List Byte}

private theorem zero_not_mem_constant : (0 : Byte) ∉ lit ['.', '/'] := by decide

theorem basename_nul_free (nul_free : 0 ∉ filePath) : 0 ∉ basename filePath := by
  intro h
  rcases mem_of_mem_basename h with inside | constant
  · exact nul_free inside
  · exact zero_not_mem_constant constant

theorem request_eq {command : List Byte} (nul_free : 0 ∉ filePath)
    (short : (basename filePath).length ≤ 255) (plain : cstr command = command)
    (word : command.length = 4) :
    request command filePath = command ++ 32 :: basename filePath := by
  rw [request, plain, cstr_of_nul_free nul_free]
  apply List.take_of_length_le
  have size : BUFFER_SIZE = 8192 := rfl
  simp only [List.length_append, List.length_cons]
  omega

theorem length_request_le (command filePath : List Byte) :
    (request command filePath).length ≤ BUFFER_SIZE := by
  have bound : (request command filePath).length ≤ BUFFER_SIZE - 1 := List.length_take_le _ _
  omega

theorem scanRequest_request {command : List Byte} (stack : List Byte × List Byte)
    (nul_free : 0 ∉ filePath) (solid : ∀ b ∈ basename filePath, isspace b = false)
    (short : (basename filePath).length ≤ 255) (plain : 0 ∉ command)
    (word : command.length = 4) (solid_command : ∀ b ∈ command, isspace b = false) :
    scanRequest stack (request command filePath ++ [0]) = (command, basename filePath) := by
  have no_nul : 0 ∉ command ++ 32 :: basename filePath := by
    simp [plain, basename_nul_free nul_free]
  have some_command : command ≠ [] := by
    rintro rfl
    cases word
  have first : scanField (command ++ 32 :: basename filePath) =
      (command, 32 :: basename filePath) :=
    scanField_append solid_command (by simp [isspace]) some_command
  have second : scanField (32 :: basename filePath) = (basename filePath, []) := by
    have ends : ∀ b ∈ ([] : List Byte).head?, isspace b = true := by simp
    have whole := scanField_append solid ends (basename_ne_nil filePath)
    rw [scanField_skip (by decide)]
    simpa using whole
  have named : (basename filePath).isEmpty = false := by
    simpa using basename_ne_nil filePath
  have given : command.isEmpty = false := by
    simpa using some_command
  rw [request_eq nul_free short (cstr_of_nul_free plain) word, scanRequest, cstr_snoc_zero,
    cstr_of_nul_free no_nul]
  simp only [first, second, named, given]
  simp

end Request

section Session

variable {filePath content : List Byte}

private theorem read_all {r : Reader Byte} (holds : r.Willing) {want : ℕ} (pos : 0 < want)
    (more : r.pending ≠ []) (room : r.pending.length ≤ want)
    (covers : (r.pending.length : ℤ) ≤ r.answers 0) :
    ∃ r', r.read want = ((r.pending.length : ℤ), r.pending, r') ∧ r'.pending = [] ∧
      r'.atEnd = r.atEnd ∧ r'.answers = fun i => r.answers (i + 1) := by
  obtain ⟨k, r', hread, _, _, _, hk, pending, atEnd, _, answers⟩ :=
    Reader.read_of_willing holds want pos more
  obtain rfl : k = r.pending.length := by omega
  rw [List.take_length] at hread
  rw [List.drop_length] at pending
  exact ⟨r', hread, pending, atEnd, answers⟩

private theorem sendReaction_ok {stdin rest : List Byte} {recvs sends : ℕ → ℤ} {files : Files}
    (yes : prompt stdin = some (121, rest)) (recvs_pos : ∀ i, 0 < recvs i)
    (reply_whole : 3 ≤ recvs 0) (whole : TakesAll sends) (hfile : files filePath = some content) :
    sendReaction filePath stdin recvs sends files OK = OK ++ content := by
  have start : TakesAll (⟨[], sends⟩ : Writer Byte).answers := whole
  obtain ⟨sock₁, sent₁, wire₁, whole₁⟩ := write_whole start (length_request_le SEND filePath)
  obtain ⟨sock₂, sent₂, wire₂, whole₂⟩ := write_whole whole₁ (show OK.length ≤ _ by decide)
  have blocks_short : ∀ b ∈ blocks BUFFER_SIZE content, b.length ≤ BUFFER_SIZE :=
    fun b hb => length_le_of_mem_blocks (by decide) hb
  obtain ⟨sock₃, sent₃, wire₃⟩ := sendLoop_whole whole₂ blocks_short
  have holds : (⟨OK, 0, recvs, Int.le_refl 0⟩ : Reader Byte).Willing := recvs_pos
  obtain ⟨reply, got, _⟩ := read_all holds (show 0 < BUFFER_SIZE - 1 by decide)
    (show OK ≠ [] by decide) (show OK.length ≤ BUFFER_SIZE - 1 by decide) reply_whole
  have is_ok : strEq (OK ++ [0]) OK = true := by decide
  have is_send : strEq SEND SEND = true := by decide
  have taken : accepts 121 = true := by decide
  have run : (clientMain SEND filePath none stdin ⟨OK, 0, recvs, Int.le_refl 0⟩ (fun _ => [])
      ⟨[], sends⟩ files).sock = sock₃ := by
    simp only [clientMain, sent₁, got, is_ok, yes, taken, sent₂, is_send, clientSendFile, hfile,
      sent₃]
    rw [if_neg (by simp), if_neg (by decide)]
    rfl
  rw [sendReaction, run, wire₃, wire₂, wire₁, flatten_blocks (by decide)]
  simp

theorem strEq_confirmation {k : ℕ} (content : List Byte) :
    strEq ((OK ++ content).take k ++ [0]) OK = true ↔
      3 ≤ k ∧ cstr (content.take (k - 3)) = [] := by
  have three : OK.length = 3 := by decide
  have plain : cstr OK = OK := by decide
  have nul_free : (0 : Byte) ∉ OK := by decide
  have no_nul : ∀ b ∈ OK, decide (b ≠ 0) = true :=
    fun b hb => decide_eq_true fun zero => nul_free (zero ▸ hb)
  rw [strEq, beq_iff_eq, cstr_snoc_zero, plain]
  constructor
  · intro h
    have long : 3 ≤ k := by
      have bound : (cstr ((OK ++ content).take k)).length ≤ ((OK ++ content).take k).length :=
        (List.takeWhile_sublist _).length_le
      rw [h, List.length_take, three] at bound
      omega
    refine ⟨long, ?_⟩
    rw [List.take_append, List.take_of_length_le (by omega), three, cstr,
      List.takeWhile_append_of_pos no_nul] at h
    exact List.append_right_eq_self.mp h
  · rintro ⟨long, nothing⟩
    rw [List.take_append, List.take_of_length_le (by omega), three, cstr,
      List.takeWhile_append_of_pos no_nul]
    rw [cstr] at nothing
    rw [nothing, List.append_nil]

end Session

/-- A SEND that both users accept, over a connection that does not fail: the request and
the server's `OK` arrive in one piece each, files open and are written, sends take all. -/
structure SendRun where
  filePath : List Byte
  content : List Byte
  stack : List Byte × List Byte
  serverStdin : List Byte
  serverRest : List Byte
  clientStdin : List Byte
  clientRest : List Byte
  serverRecvs : ℕ → ℤ
  serverSends : ℕ → ℤ
  clientRecvs : ℕ → ℤ
  clientSends : ℕ → ℤ
  serverFiles : Files
  clientFiles : Files
  nul_free : 0 ∉ filePath
  solid : ∀ b ∈ basename filePath, isspace b = false
  short : (basename filePath).length ≤ 255
  server_yes : prompt serverStdin = some (121, serverRest)
  client_yes : prompt clientStdin = some (121, clientRest)
  client_file : clientFiles filePath = some content
  server_recvs : ∀ i, 0 < serverRecvs i
  client_recvs : ∀ i, 0 < clientRecvs i
  server_sends : TakesAll serverSends
  client_sends : TakesAll clientSends
  request_whole : ((request SEND filePath).length : ℤ) ≤ serverRecvs 0
  reply_whole : 3 ≤ clientRecvs 0

namespace SendRun

def outcome (run : SendRun) : Outcome :=
  sendSession run.filePath run.serverStdin run.clientStdin run.stack run.serverRecvs
    run.serverSends run.clientRecvs run.clientSends run.serverFiles run.clientFiles

/-- `ReceiveFile` ran and left the client's bytes under the base name. -/
def Stored (run : SendRun) : Prop :=
  run.outcome.notices = [.finishedReceiving] ∧
    run.outcome.files (basename run.filePath) = some run.content

/-- The handler reaches its second receive with the confirmation and the file before it. -/
theorem outcome_eq (run : SendRun) :
    ∃ (c : Reader Byte) (sock : Writer Byte), c.pending = OK ++ run.content ∧ c.Willing ∧
      (c.answers = fun i => run.serverRecvs (i + 1)) ∧
      run.outcome =
        if strEq ((c.read (BUFFER_SIZE - 1)).2.1 ++ [0]) OK then
          serverReceiveFile (c.read (BUFFER_SIZE - 1)).2.2 sock run.serverFiles
            (basename run.filePath)
        else ⟨.returned, sock, run.serverFiles, []⟩ := by
  have holds : (⟨request SEND run.filePath, 0, run.serverRecvs, Int.le_refl 0⟩ :
      Reader Byte).Willing := run.server_recvs
  have asked : request SEND run.filePath ≠ [] := by
    rw [request_eq run.nul_free run.short (by decide) (by decide)]
    simp
  have room : (request SEND run.filePath).length ≤ BUFFER_SIZE - 1 := List.length_take_le _ _
  obtain ⟨c₁, got₁, pending₁, atEnd₁, answers₁⟩ :=
    read_all holds (by decide) asked room run.request_whole
  have start : TakesAll (⟨[], run.serverSends⟩ : Writer Byte).answers := run.server_sends
  obtain ⟨sock, sent, wire, _⟩ := write_whole start (show OK.length ≤ _ by decide)
  have reaction : sendReaction run.filePath run.clientStdin run.clientRecvs run.clientSends
      run.clientFiles sock.wire = OK ++ run.content := by
    rw [wire]
    exact sendReaction_ok run.client_yes run.client_recvs run.reply_whole run.client_sends
      run.client_file
  let c := c₁.feed (OK ++ run.content)
  have c_pending : c.pending = OK ++ run.content := by
    show c₁.pending ++ (OK ++ run.content) = OK ++ run.content
    rw [pending₁, List.nil_append]
  have c_holds : c.Willing := by
    intro i
    show 0 < c₁.answers i
    rw [answers₁]
    exact run.server_recvs (i + 1)
  refine ⟨c, sock, c_pending, c_holds, answers₁, ?_⟩
  have more : c.pending ≠ [] := by
    rw [c_pending]
    simp [OK, lit]
  obtain ⟨k, c₂, hread, pos, _⟩ :=
    Reader.read_of_willing c_holds (BUFFER_SIZE - 1) (by decide) more
  have decoded := scanRequest_request run.stack run.nul_free run.solid run.short
    (show 0 ∉ SEND by decide) (by decide) (solid_of_all (by decide))
  have taken : accepts 121 = true := by decide
  have is_send : strEq SEND SEND = true := by decide
  have length_pos : ¬ ((request SEND run.filePath).length : ℤ) ≤ 0 := by
    have positive := List.length_pos_iff.mpr asked
    omega
  have k_pos : (0 : ℤ) < k := by omega
  simp only [outcome, sendSession, HandleTCPClient, got₁, decoded, run.server_yes, taken, sent,
    reaction, length_pos, is_send, if_true, if_false]
  have confirmation : (c₁.feed (OK ++ run.content)).read (BUFFER_SIZE - 1) = _ := hread
  simp only [confirmation, hread, k_pos, true_and]

/-- What one receive of up to `k` bytes from the confirmation on makes of the upload: only
`k = 3` both passes the comparison and leaves every byte of the file to be received. -/
theorem stored_iff_three (run : SendRun) :
    ∃ k, k = min (run.serverRecvs 1).toNat
        (min (BUFFER_SIZE - 1) (OK ++ run.content).length) ∧ (run.Stored ↔ k = 3) := by
  obtain ⟨c, sock, pending, holds, answers, outcome⟩ := run.outcome_eq
  have more : c.pending ≠ [] := by
    rw [pending]
    simp [OK, lit]
  obtain ⟨k, c₂, hread, pos, hk, hle, k_eq, pending₂, _, holds₂, _⟩ :=
    Reader.read_of_willing holds (BUFFER_SIZE - 1) (by decide) more
  rw [answers, pending] at k_eq
  refine ⟨k, k_eq, ?_⟩
  rw [hread, pending] at outcome
  rw [pending] at pending₂ hle
  have three : OK.length = 3 := by decide
  by_cases same : strEq ((OK ++ run.content).take k ++ [0]) OK = true
  · obtain ⟨long, _⟩ := (strEq_confirmation run.content).mp same
    have rest : (OK ++ run.content).drop k = run.content.drop (k - 3) := by
      rw [List.drop_append, List.drop_eq_nil_of_le (by omega), three, List.nil_append]
    have stored := download_create (show 0 < BUFFER_SIZE by decide) holds₂ run.serverFiles
      (basename run.filePath)
    rw [if_pos same, serverReceiveFile, recvLoop_eq_download, stored, pending₂, rest] at outcome
    rw [Stored, outcome]
    simp only [Function.update_self, true_and, Option.some.injEq]
    constructor
    · intro h
      have lengths := congrArg List.length h
      rw [List.length_drop] at lengths
      rw [List.length_append, three] at hle
      omega
    · rintro rfl
      rfl
  · rw [if_neg same] at outcome
    rw [Stored, outcome]
    constructor
    · rintro ⟨finished, _⟩
      cases finished
    · rintro rfl
      exact absurd ((strEq_confirmation run.content).mpr ⟨le_refl 3, by simp [cstr]⟩) same

def ofRecvs (serverRecvs : ℕ → ℤ) (positive : ∀ i, 0 < serverRecvs i)
    (request_whole : 6 ≤ serverRecvs 0) : SendRun where
  filePath := lit ['f']
  content := lit ['h', 'i']
  stack := ([], [])
  serverStdin := lit ['y', '\n']
  serverRest := []
  clientStdin := lit ['y', '\n']
  clientRest := []
  serverRecvs := serverRecvs
  serverSends := fun _ => 8192
  clientRecvs := fun _ => 8192
  clientSends := fun _ => 8192
  serverFiles := fun _ => none
  clientFiles := fun _ => some (lit ['h', 'i'])
  nul_free := by decide
  solid := solid_of_all (by decide)
  short := by decide
  server_yes := by decide
  client_yes := by decide
  client_file := rfl
  server_recvs := positive
  client_recvs := fun _ => by decide
  server_sends := fun _ => by simp [BUFFER_SIZE]
  client_sends := fun _ => by simp [BUFFER_SIZE]
  request_whole := by
    have length : (request SEND (lit ['f'])).length = 6 := by decide
    rw [length]
    exact request_whole
  reply_whole := by decide

/-- The upload is stored exactly when the receive of the confirmation returns its three
bytes alone: the segment ends there, or the file is empty and nothing follows it. -/
theorem stored_iff (run : SendRun) :
    run.Stored ↔ run.serverRecvs 1 = 3 ∨ (run.content = [] ∧ 3 ≤ run.serverRecvs 1) := by
  obtain ⟨k, k_eq, exact_k⟩ := run.stored_iff_three
  have three : OK.length = 3 := by decide
  have size : BUFFER_SIZE = 8192 := rfl
  have positive := run.server_recvs 1
  rw [List.length_append, three] at k_eq
  rw [exact_k, ← List.length_eq_zero_iff]
  omega

theorem stored_of_separate_confirmation :
    (ofRecvs (fun i => if i = 1 then 3 else 8192) (fun i => by split <;> decide)
      (by decide)).Stored :=
  (stored_iff _).mpr (Or.inl (by decide))

/-- The confirmation and the file arrive together: the comparison fails and nothing is stored. -/
theorem coalesced_not_stored : ¬ ∀ run : SendRun, run.Stored := by
  intro all
  have stored := (all (ofRecvs (fun _ => 8192) (fun _ => by decide) (by decide))).1
  have skipped : (ofRecvs (fun _ => 8192) (fun _ => by decide) (by decide)).outcome.notices =
      [] := by decide +kernel
  rw [skipped] at stored
  cases stored

end SendRun

end SocketChat.TestCode.FileTransfer.Send
