/- SocketChat/TestCode/FileTransfer/Receive
   digest: A RECV is honest unless an error text, or nothing at all, is stored as the file. -/

import SocketChat.TestCode.FileTransfer.Send

set_option autoImplicit false
set_option relaxedAutoImplicit false

namespace SocketChat.TestCode.FileTransfer.Receive

open SocketChat.Lib.Blocks
open SocketChat.Lib.CString
open SocketChat.Lib.Directory
open SocketChat.Lib.Download
open SocketChat.Lib.Stream
open SocketChat.TestCode.FileTransfer.Model
open SocketChat.TestCode.FileTransfer.Send

/-- A RECV that both users accept, over a connection that does not fail, cut up in any way; the
base name fits into the server's array. -/
structure RecvRun where
  filePath : List Byte
  localPath : Option (List Byte)
  stack : List Byte × List Byte
  serverStdin : List Byte
  serverRest : List Byte
  clientStdin : List Byte
  clientRest : List Byte
  serverRecvs : ℕ → ℤ
  serverSends : ℕ → ℤ
  clientRecvs : ℕ → ℤ
  clientSends : ℕ → ℤ
  serverFiles : Files
  clientFiles : Files
  ahead : Option ℕ
  nul_free : 0 ∉ filePath
  short : (basename filePath).length ≤ 255
  server_yes : prompt serverStdin = some (121, serverRest)
  client_yes : prompt clientStdin = some (121, clientRest)
  server_recvs : ∀ i, 0 < serverRecvs i
  client_recvs : ∀ i, 0 < clientRecvs i
  server_sends : TakesAll serverSends
  client_sends : TakesAll clientSends
  ahead_left : ahead.isSome → serverRecvs 0 < (request RECV filePath).length

namespace RecvRun

variable (run : RecvRun)

def outcome : Outcome :=
  recvSession run.filePath run.localPath run.serverStdin run.clientStdin run.stack run.serverRecvs
    run.serverSends run.clientRecvs run.clientSends run.serverFiles run.clientFiles run.ahead

def requested : List Byte := basename run.filePath

def localFile : List Byte := run.localPath.getD (basename (cstr run.filePath))

/-- What the client reports as finished is the server's file, and where the server cannot open the
file the client's is left as it was and nothing is reported. -/
def Honest : Prop :=
  (.finishedReceiving ∈ run.outcome.notices → ∃ content,
    run.serverFiles run.requested = some content ∧
      run.outcome.files run.localFile = some content) ∧
    (run.serverFiles run.requested = none →
      run.outcome.files run.localFile = run.clientFiles run.localFile ∧
        .finishedReceiving ∉ run.outcome.notices)

/-- What the first `recv` of the server returns of the request, and what it leaves. -/
def first : List Byte := (request RECV run.filePath).take (run.serverRecvs 0).toNat

def rest : List Byte := (request RECV run.filePath).drop (run.serverRecvs 0).toNat

def decoded : List Byte × List Byte := scanRequest run.stack (run.first ++ [0])

/-- What the second one returns when the client writes so much more. -/
def second (more : List Byte) : List Byte :=
  (run.rest ++ more).take (min (run.serverRecvs 1).toNat (BUFFER_SIZE - 1))

def Confirmed (more : List Byte) : Prop :=
  strEq (run.second more ++ [0]) OK = true ∧ strEq run.decoded.1 RECV = true

instance (more : List Byte) : Decidable (run.Confirmed more) :=
  inferInstanceAs (Decidable (_ ∧ _))

/-- What the server then writes behind its `OK`: the file it has decoded, or the error. -/
def served (more : List Byte) : List Byte :=
  if run.Confirmed more then (run.serverFiles run.decoded.2).getD errMsg else []

private theorem asked : request RECV run.filePath ≠ [] := by
  rw [request_eq run.nul_free run.short (by decide) (by decide)]
  simp

private theorem sendFile_wire {sock : Writer Byte} (whole : TakesAll sock.answers) (files : Files)
    (fileName : List Byte) :
    (serverSendFile sock files fileName).sock.wire =
      sock.wire ++ (files fileName).getD errMsg := by
  cases opened : files fileName with
  | none =>
    obtain ⟨sock', sent, wire, _⟩ := write_whole whole (show errMsg.length ≤ _ by decide)
    rw [serverSendFile, opened]
    dsimp only
    rw [sent]
    exact wire
  | some content =>
    have short : ∀ b ∈ blocks BUFFER_SIZE content, b.length ≤ BUFFER_SIZE :=
      fun b hb => length_le_of_mem_blocks (by decide) hb
    obtain ⟨sock', sent, wire⟩ := sendLoop_whole whole short
    rw [serverSendFile, opened]
    dsimp only
    rw [sent, ← flatten_blocks (show 0 < BUFFER_SIZE by decide) content]
    exact wire

private theorem read_second {c : Reader Byte} {more : List Byte} (holds : c.Willing)
    (pending : c.pending = run.rest ++ more) (answer : c.answers 0 = run.serverRecvs 1) :
    ∃ k c', c.read (BUFFER_SIZE - 1) = (k, run.second more, c') ∧
      (strEq (run.second more ++ [0]) OK = true → 0 < k) := by
  by_cases nothing : run.rest ++ more = []
  · have none_left : run.second more = [] := by
      rw [second, nothing, List.take_nil]
    refine ⟨c.atEnd, c.answered, ?_, ?_⟩
    · rw [none_left]
      exact Reader.read_of_nil holds _ (pending.trans nothing)
    · rw [none_left]
      intro same
      exact absurd same (by decide)
  · obtain ⟨k, c', got, pos, _⟩ := Reader.read_take holds (show 0 < BUFFER_SIZE - 1 by decide)
      (by rwa [pending])
    rw [pending, answer] at got
    exact ⟨k, c', got, fun _ => pos⟩

private theorem strEq_send_of_recv {command : List Byte} (is_recv : strEq command RECV = true) :
    ¬strEq command SEND = true := by
  rw [strEq, beq_iff_eq] at is_recv ⊢
  rw [is_recv]
  decide

private theorem serverWrites_eq (more : List Byte) :
    serverWrites run.filePath run.serverStdin run.stack run.serverRecvs run.serverSends
      run.serverFiles more = OK ++ run.served more := by
  have holds : (Reader.closed (request RECV run.filePath) run.serverRecvs).Willing :=
    run.server_recvs
  obtain ⟨k, c₁, got, pos, pending, atEnd, answers⟩ :=
    Reader.read_take holds (show 0 < BUFFER_SIZE - 1 by decide) run.asked
  have short : (request RECV run.filePath).length ≤ BUFFER_SIZE - 1 := List.length_take_le _ _
  have first : (request RECV run.filePath).take
      (min (run.serverRecvs 0).toNat (BUFFER_SIZE - 1)) = run.first :=
    List.take_eq_take_iff.mpr (by omega)
  have rest : (request RECV run.filePath).drop
      (min (run.serverRecvs 0).toNat (BUFFER_SIZE - 1)) = run.rest :=
    List.drop_eq_drop_iff.mpr (by omega)
  have start : TakesAll (⟨[], run.serverSends⟩ : Writer Byte).answers := run.server_sends
  obtain ⟨sock, sent, wire, whole⟩ := write_whole start (show OK.length ≤ _ by decide)
  have taken : accepts 121 = true := by decide
  have got₁ : (Reader.closed (request RECV run.filePath) run.serverRecvs).read (BUFFER_SIZE - 1) =
      (k, run.first, c₁) := by
    rw [got]
    exact congrArg (fun buffer => (k, buffer, c₁)) first
  have pending₁ : c₁.pending = run.rest := pending.trans rest
  have later : (c₁.feed more).Willing := by
    intro i
    show 0 < c₁.answers i
    rw [answers]
    exact run.server_recvs (i + 1)
  obtain ⟨k₂, c₂, got₂, stored⟩ := run.read_second later
    (congrArg (· ++ more) pending₁) (congrFun answers 0)
  have decodes : scanRequest run.stack (run.first ++ [0]) = run.decoded := rfl
  have written : sock.wire = OK := wire
  simp only [serverWrites, HandleTCPClient, got₁, got₂, decodes, run.server_yes, taken, sent,
    if_neg (not_le.mpr pos), if_true]
  by_cases confirmed : strEq (run.second more ++ [0]) OK = true
  · rw [if_pos ⟨stored confirmed, confirmed⟩]
    by_cases is_recv : strEq run.decoded.1 RECV = true
    · have all : run.served more = (run.serverFiles run.decoded.2).getD errMsg :=
        if_pos ⟨confirmed, is_recv⟩
      rw [if_neg (strEq_send_of_recv is_recv), if_pos is_recv, sendFile_wire whole, written, all]
    · have nothing : run.served more = [] := if_neg fun both => is_recv both.2
      rw [if_neg is_recv, nothing, List.append_nil]
      split <;> exact written
  · have nothing : run.served more = [] := if_neg fun both => confirmed both.1
    rw [if_neg fun both => confirmed both.2, nothing, List.append_nil]
    exact written

def confirmation : List Byte := if run.ahead.isSome then [] else OK

def early : ℕ := run.ahead.getD 0

def reply : List Byte :=
  (OK ++ (run.served []).take run.early).take
    (min (run.clientRecvs 0).toNat (BUFFER_SIZE - 1))

def Accepted : Prop := strEq (run.reply ++ [0]) OK = true

/-- How many of the served bytes the client's first `recv` has taken with the `OK`. -/
def lost : ℕ := min (min (run.clientRecvs 0).toNat (BUFFER_SIZE - 1) - 3) run.early

private theorem served_early :
    (run.served []).take run.early = (run.served run.confirmation).take run.early := by
  rw [early, confirmation]
  cases run.ahead with
  | none => rfl
  | some k => rfl

private theorem drop_take_append_drop (items : List Byte) (m e : ℕ) :
    (items.take e).drop m ++ items.drop e = items.drop (min m e) := by
  rcases Nat.le_total m e with within | behind
  · rw [Nat.min_eq_left within, List.drop_take]
    have split := List.take_append_drop (e - m) (items.drop m)
    rwa [List.drop_drop, Nat.add_sub_cancel' within] at split
  · have gone : (items.take e).drop m = [] := by
      rw [List.drop_eq_nil_iff]
      exact Nat.le_trans (List.length_take_le ..) behind
    rw [Nat.min_eq_right behind, gone, List.nil_append]

private theorem still_to_come {k : ℕ} (long : 3 ≤ k) :
    (OK ++ (run.served []).take run.early).drop k ++
        (OK ++ run.served run.confirmation).drop (OK.length + run.early) =
      (run.served run.confirmation).drop (min (k - 3) run.early) := by
  have three : OK.length = 3 := by decide
  have before : OK.drop k = [] := List.drop_eq_nil_of_le (by omega)
  have after : OK.drop (OK.length + run.early) = [] := List.drop_eq_nil_of_le (by omega)
  rw [served_early, List.drop_append, before, List.drop_append, after, List.nil_append,
    List.nil_append, Nat.add_sub_cancel_left, three, drop_take_append_drop]

private theorem reply_pending : (serverWrites run.filePath run.serverStdin run.stack run.serverRecvs
    run.serverSends run.serverFiles []).take (OK.length + run.early) =
      OK ++ (run.served []).take run.early := by
  rw [serverWrites_eq, List.take_append, List.take_of_length_le (Nat.le_add_right _ _),
    Nat.add_sub_cancel_left]

private theorem read_reply : ∃ k r,
    (Reader.closed ((serverWrites run.filePath run.serverStdin run.stack run.serverRecvs
        run.serverSends run.serverFiles []).take (OK.length + run.ahead.getD 0))
      run.clientRecvs).read (BUFFER_SIZE - 1) = (k, run.reply, r) ∧ 0 < k ∧
      r.pending = (OK ++ (run.served []).take run.early).drop
        (min (run.clientRecvs 0).toNat (BUFFER_SIZE - 1)) ∧
      r.atEnd = 0 ∧ r.Willing := by
  have holds : (Reader.closed (OK ++ (run.served []).take run.early) run.clientRecvs).Willing :=
    run.client_recvs
  obtain ⟨k, r, got, pos, pending, atEnd, answers⟩ :=
    Reader.read_take holds (show 0 < BUFFER_SIZE - 1 by decide) (by simp [Reader.closed, OK, lit])
  refine ⟨k, r, ?_, pos, pending, atEnd, ?_⟩
  · have same := run.reply_pending
    rw [early] at same
    rw [same]
    exact got
  · intro i
    rw [answers]
    exact run.client_recvs (i + 1)

private theorem outcome_of_accepted (accepted : run.Accepted) :
    run.outcome.notices = [.finishedReceiving] ∧
      run.outcome.files run.localFile =
        some ((run.served run.confirmation).drop run.lost) := by
  have start : TakesAll (⟨[], run.clientSends⟩ : Writer Byte).answers := run.client_sends
  obtain ⟨sock₁, sent₁, wire₁, whole₁⟩ :=
    write_whole start (length_request_le RECV run.filePath)
  obtain ⟨sock₂, sent₂, wire₂, _⟩ := write_whole whole₁ (show OK.length ≤ _ by decide)
  obtain ⟨k, r, got, pos, pending, atEnd, holds⟩ := run.read_reply
  have is_ok : strEq (run.reply ++ [0]) OK = true := accepted
  have long := (strEq_confirmation _).mp is_ok
  have wire : sock₂.wire.drop (request RECV run.filePath).length = OK := by
    rw [wire₂, wire₁]
    exact List.drop_left ..
  have answer : (if run.ahead.isSome = true then []
      else sock₂.wire.drop (request RECV run.filePath).length) = run.confirmation := by
    rw [wire]
    rfl
  have not_send : ¬strEq RECV SEND = true := by decide
  have is_recv : strEq RECV RECV = true := by decide
  have taken : accepts 121 = true := by decide
  have fed : (r.feed ((OK ++ run.served run.confirmation).drop
      (OK.length + run.early))).pending =
        (run.served run.confirmation).drop run.lost := by
    rw [Reader.feed, pending]
    exact run.still_to_come long.1
  have stored : download BUFFER_SIZE (r.feed ((OK ++ run.served run.confirmation).drop
      (OK.length + run.ahead.getD 0)))
      (run.clientFiles.create (run.localPath.getD (basename (cstr run.filePath))))
      (run.localPath.getD (basename (cstr run.filePath))) =
        (r.atEnd, Function.update run.clientFiles run.localFile
          (some ((run.served run.confirmation).drop run.lost))) := by
    rw [← fed]
    exact download_create (show 0 < BUFFER_SIZE by decide) (show (r.feed _).Willing from holds)
      run.clientFiles run.localFile
  rw [outcome, recvSession]
  simp only [clientMain, sent₁, got, if_neg (not_le.mpr pos)]
  rw [if_neg (not_not.mpr rfl), if_pos is_ok, run.client_yes]
  dsimp only
  rw [if_pos taken, if_neg not_send, if_pos is_recv, sent₂]
  dsimp only
  rw [answer, serverWrites_eq, clientReceiveFile, recvLoop_eq_download, stored, atEnd]
  exact ⟨rfl, Function.update_self ..⟩

private theorem outcome_of_rejected (rejected : ¬run.Accepted) :
    run.outcome.notices = [.rejected] ∧ run.outcome.files = run.clientFiles := by
  have start : TakesAll (⟨[], run.clientSends⟩ : Writer Byte).answers := run.client_sends
  obtain ⟨sock, sent, _⟩ := write_whole start (length_request_le RECV run.filePath)
  obtain ⟨k, r, got, pos, _⟩ := run.read_reply
  rw [outcome, recvSession]
  simp only [clientMain, sent, got, if_neg (not_le.mpr pos)]
  have other : ¬strEq (run.reply ++ [0]) OK = true := rejected
  rw [if_neg (not_not.mpr rfl), if_neg other]
  exact ⟨rfl, rfl⟩

private theorem honest_iff_stored : run.Honest ↔ (run.Accepted →
    run.serverFiles run.requested = some ((run.served run.confirmation).drop run.lost)) := by
  by_cases accepted : run.Accepted
  · obtain ⟨notices, stored⟩ := run.outcome_of_accepted accepted
    rw [Honest, notices, stored]
    constructor
    · rintro ⟨finished, _⟩ _
      obtain ⟨content, there, same⟩ := finished List.mem_cons_self
      rw [there, same]
    · intro there
      refine ⟨fun _ => ⟨_, there accepted, rfl⟩, fun missing => ?_⟩
      rw [there accepted] at missing
      cases missing
  · obtain ⟨notices, files⟩ := run.outcome_of_rejected accepted
    rw [Honest, notices, files]
    refine iff_of_true ⟨?_, ?_⟩ fun is => absurd is accepted
    · intro finished
      exact absurd finished (by simp)
    · intro _
      exact ⟨rfl, by simp⟩

section Solid

variable {run : RecvRun}

private theorem not_newline_rest (solid : ∀ b ∈ run.requested, isspace b = false) :
    10 ∉ run.rest := by
  intro inside
  have there := List.mem_of_mem_drop inside
  rw [request_eq run.nul_free run.short (by decide) (by decide), List.mem_append,
    List.mem_cons] at there
  rcases there with command | space | name
  · exact absurd command (by decide)
  · exact absurd space (by decide)
  · have newline := solid 10 name
    cases newline

/-- What is left of the request cannot pass for the confirmation. -/
theorem second_ne_confirmation (solid : ∀ b ∈ run.requested, isspace b = false) {more : List Byte}
    (known : more = [] ∨ more = OK) (left : run.rest ≠ []) :
    ¬strEq (run.second more ++ [0]) OK = true := by
  intro same
  have ok : OK = [79, 75, 10] := by decide
  have starts : OK <+: run.rest ++ more := by
    rw [strEq, beq_iff_eq, cstr_snoc_zero, cstr_of_nul_free (by decide : 0 ∉ OK)] at same
    rw [← same]
    exact (List.takeWhile_prefix _).trans (List.take_prefix _ _)
  have no_newline := not_newline_rest solid
  rw [ok] at starts
  -- the newline would be among the first three bytes, so it is not one of the confirmation's
  cases bytes : run.rest with
  | nil => exact left bytes
  | cons a bytes' =>
    rw [bytes] at starts no_newline
    cases bytes' with
    | nil => rcases known with rfl | rfl <;> simp [ok] at starts
    | cons b bytes' =>
      cases bytes' with
      | nil => rcases known with rfl | rfl <;> simp [ok] at starts
      | cons c bytes' =>
        simp only [List.cons_append, List.cons_prefix_cons] at starts
        exact no_newline (by simp [starts.2.2.1])

private theorem served_nothing (solid : ∀ b ∈ run.requested, isspace b = false) :
    run.served [] = [] := by
  refine if_neg fun confirmed => ?_
  by_cases left : run.rest = []
  · have nothing : run.second [] = [] := by
      rw [second, left]
      exact List.take_nil
    have same := confirmed.1
    rw [nothing] at same
    exact absurd same (by decide)
  · exact second_ne_confirmation solid (.inl rfl) left confirmed.1

private theorem rest_eq_nil_iff :
    run.rest = [] ↔ ((request RECV run.filePath).length : ℤ) ≤ run.serverRecvs 0 := by
  have positive := run.server_recvs 0
  rw [rest, List.drop_eq_nil_iff]
  omega

def Whole (run : RecvRun) : Prop :=
  (request RECV run.filePath).length ≤ run.serverRecvs 0 ∧ 3 ≤ run.serverRecvs 1

instance : Decidable run.Whole := inferInstanceAs (Decidable (_ ∧ _))

private theorem decoded_whole (solid : ∀ b ∈ run.requested, isspace b = false)
    (none_left : run.rest = []) :
    run.decoded = (RECV, run.requested) := by
  have all : run.first = request RECV run.filePath := by
    have split := List.take_append_drop (run.serverRecvs 0).toNat (request RECV run.filePath)
    rw [rest] at none_left
    rwa [none_left, List.append_nil] at split
  rw [decoded, all]
  exact scanRequest_request run.stack run.nul_free solid run.short (by decide) (by decide)
    (solid_of_all (by decide))

private theorem confirmed_iff_whole (solid : ∀ b ∈ run.requested, isspace b = false) :
    run.Confirmed OK ↔ run.Whole := by
  by_cases left : run.rest = []
  · have whole := rest_eq_nil_iff.mp left
    have positive := run.server_recvs 1
    have size : BUFFER_SIZE = 8192 := rfl
    have taken := strEq_confirmation (k := min (run.serverRecvs 1).toNat (BUFFER_SIZE - 1)) []
    rw [List.append_nil] at taken
    have is_recv : strEq RECV RECV = true := by decide
    rw [Confirmed, Whole, second, left, List.nil_append, taken, decoded_whole solid left,
      and_iff_right whole, and_iff_left is_recv, List.take_nil, and_iff_left (by rfl)]
    omega
  · refine iff_of_false (fun confirmed => ?_) fun whole => left (rest_eq_nil_iff.mpr whole.1)
    exact second_ne_confirmation solid (.inr rfl) left confirmed.1

private theorem received_eq (solid : ∀ b ∈ run.requested, isspace b = false) :
    (run.served run.confirmation).drop run.lost =
      if run.Whole then (run.serverFiles run.requested).getD errMsg else [] := by
  cases place : run.ahead with
  | none =>
    have none_lost : run.lost = 0 := by
      rw [lost, early, place]
      exact Nat.min_zero _
    have answer : run.confirmation = OK := by
      rw [confirmation, place]
      rfl
    rw [none_lost, answer, List.drop_zero, served]
    by_cases whole : run.Whole
    · rw [if_pos whole, if_pos ((confirmed_iff_whole solid).mpr whole),
        decoded_whole solid (rest_eq_nil_iff.mpr whole.1)]
    · rw [if_neg whole, if_neg fun confirmed => whole ((confirmed_iff_whole solid).mp confirmed)]
  | some k =>
    have answer : run.confirmation = [] := by
      rw [confirmation, place]
      rfl
    have cut := run.ahead_left (by rw [place]; rfl)
    have parts : ¬run.Whole := fun whole => absurd whole.1 (not_le.mpr cut)
    rw [answer, served_nothing solid, List.drop_nil, if_neg parts]

private theorem accepted_iff (solid : ∀ b ∈ run.requested, isspace b = false) :
    run.Accepted ↔ 3 ≤ run.clientRecvs 0 := by
  have positive := run.client_recvs 0
  have size : BUFFER_SIZE = 8192 := rfl
  rw [Accepted, reply, strEq_confirmation, served_nothing solid, List.take_nil, List.take_nil,
    and_iff_left (by rfl)]
  omega

end Solid

/-- A RECV is honest exactly when the client does not take the server's reply for its consent, or
the file is there and the client receives it: the server has decoded the request and found
the confirmation and sends a file of the same content, or it sends nothing and the file is
empty. For a name without whitespace this means that the first `recv` of the client returns
less than the `OK`, or that the file is there and is empty or else both the request and the
confirmation arrive whole. -/
theorem received_honest_iff :
    (run.Honest ↔ ¬run.Accepted ∨ ∃ content, run.serverFiles run.requested = some content ∧
      (run.Confirmed run.confirmation ∧
          ((run.serverFiles run.decoded.2).getD errMsg).drop run.lost = content ∨
        ¬run.Confirmed run.confirmation ∧ content = [])) ∧
    ((∀ b ∈ run.requested, isspace b = false) →
      (run.Honest ↔ run.clientRecvs 0 < 3 ∨
        ∃ content, run.serverFiles run.requested = some content ∧
          (content = [] ∨ (request RECV run.filePath).length ≤ run.serverRecvs 0 ∧
            3 ≤ run.serverRecvs 1))) := by
  constructor
  · rw [honest_iff_stored, ← imp_iff_not_or]
    refine imp_congr_right fun _ => ?_
    by_cases confirmed : run.Confirmed run.confirmation
    · rw [served, if_pos confirmed]
      simp [confirmed]
    · rw [served, if_neg confirmed, List.drop_nil]
      simp [confirmed]
  · intro solid
    rw [honest_iff_stored, accepted_iff solid, received_eq solid, ← not_le, ← imp_iff_not_or]
    refine imp_congr_right fun _ => ?_
    cases there : run.serverFiles run.requested with
    | none => simp
    | some content =>
      rw [Option.getD_some]
      by_cases whole : run.Whole
      · rw [if_pos whole]
        exact iff_of_true rfl ⟨content, rfl, .inr whole⟩
      · rw [if_neg whole, Option.some_inj]
        constructor
        · intro empty
          exact ⟨content, rfl, .inl empty⟩
        · rintro ⟨content', same, empty | parts⟩
          · rw [Option.some.inj same, empty]
          · exact absurd parts whole

private theorem takesAll_double : TakesAll fun _ => 16384 := by
  intro _
  have size : BUFFER_SIZE = 8192 := rfl
  dsimp only
  omega

def ofFiles (serverFiles clientFiles : Files) : RecvRun where
  filePath := lit ['g']
  localPath := none
  stack := ([], [])
  serverStdin := lit ['y', 'e', 's', '\n']
  serverRest := []
  clientStdin := lit ['y', 'e', 's', '\n']
  clientRest := []
  serverRecvs := fun _ => 16384
  serverSends := fun _ => 16384
  clientRecvs := fun _ => 16384
  clientSends := fun _ => 16384
  serverFiles := serverFiles
  clientFiles := clientFiles
  ahead := none
  nul_free := by decide
  short := by decide
  server_yes := by decide
  client_yes := by decide
  server_recvs := fun _ => by decide
  client_recvs := fun _ => by decide
  server_sends := takesAll_double
  client_sends := takesAll_double
  ahead_left := by decide

theorem honest_of_whole :
    (ofFiles (fun _ => some (lit ['h', 'i'])) (fun _ => none)).Honest := by
  refine ((received_honest_iff _).2 (solid_of_all (by decide))).mpr
    (.inr ⟨lit ['h', 'i'], rfl, .inr ?_⟩)
  exact ⟨by decide, by decide⟩

/-- The server has no such file: the client stores the error text over its own file and reports
that it has received it. -/
theorem error_text_stored : ¬ ∀ run : RecvRun, run.Honest := by
  intro all
  have honest := all (ofFiles (fun _ => none) (fun _ => some (lit ['h', 'i'])))
  have finished : .finishedReceiving ∈
      (ofFiles (fun _ => none) (fun _ => some (lit ['h', 'i']))).outcome.notices := by
    decide +kernel
  exact (honest.2 rfl).2 finished

end RecvRun

end SocketChat.TestCode.FileTransfer.Receive
