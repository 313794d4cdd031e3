/- SocketChat/TestCode/FileTransfer/Truncation
   digest: What the server reports about an upload that breaks off. -/

import SocketChat.Lib.Download
import SocketChat.TestCode.FileTransfer.Model

set_option autoImplicit false
set_option relaxedAutoImplicit false

namespace SocketChat.TestCode.FileTransfer.Truncation

open SocketChat.Lib.CString
open SocketChat.Lib.Directory
open SocketChat.Lib.Stream
open SocketChat.TestCode.FileTransfer.Model

/-- The loop of the server's `ReceiveFile`: each chunk is written to the file, and `write` has to
take all of it. The result of the last `recv`, 0 or -1, is not looked at. -/
def storeLoop (clntSocket : Reader Byte) (file : Writer Byte) : Ending × Writer Byte :=
  if 0 < (clntSocket.read BUFFER_SIZE).1 then
    if (file.write (clntSocket.read BUFFER_SIZE).2.1).1 ≠ (clntSocket.read BUFFER_SIZE).1 then
      (.died "write() failed to file", (file.write (clntSocket.read BUFFER_SIZE).2.1).2)
    else
      storeLoop (clntSocket.read BUFFER_SIZE).2.2 (file.write (clntSocket.read BUFFER_SIZE).2.1).2
  else (.returned, file)
termination_by clntSocket.pending.length
decreasing_by exact Reader.length_pending_read_lt clntSocket (by decide) (by assumption)

/-- How the server's `ReceiveFile` ends, what the file holds then, and what has been printed. -/
structure Report where
  ending : Ending
  stored : Option (List Byte)
  notices : List Notice

/-- The server's `ReceiveFile`; `file_fd` gives the results of `write` on the file, or nothing
where `open` fails. -/
def ReceiveFile (clntSocket : Reader Byte) (file_fd : Option (ℕ → ℤ)) : Report :=
  match file_fd with
  | none => ⟨.died "open() failed for writing file", none, []⟩
  | some writes =>
      match storeLoop clntSocket ⟨[], writes⟩ with
      | (.returned, file) => ⟨.returned, some file.wire, [.finishedReceiving]⟩
      | (ending, file) => ⟨ending, some file.wire, []⟩

/-- What `recv` stores, call by call, until it returns 0 or -1. -/
def chunks (clntSocket : Reader Byte) : List (List Byte) :=
  if 0 < (clntSocket.read BUFFER_SIZE).1 then
    (clntSocket.read BUFFER_SIZE).2.1 :: chunks (clntSocket.read BUFFER_SIZE).2.2
  else []
termination_by clntSocket.pending.length
decreasing_by exact Reader.length_pending_read_lt clntSocket (by decide) (by assumption)

def WritesAll (writes : ℕ → ℤ) (stored : List (List Byte)) : Prop :=
  ∀ i (_ : i < stored.length), (stored[i].length : ℤ) ≤ writes i

private theorem writesAll_cons {writes : ℕ → ℤ} {chunk : List Byte} {later : List (List Byte)} :
    WritesAll writes (chunk :: later) ↔
      (chunk.length : ℤ) ≤ writes 0 ∧ WritesAll (fun i => writes (i + 1)) later := by
  constructor
  · intro all
    exact ⟨all 0 (Nat.succ_pos _), fun i inside => all (i + 1) (Nat.succ_lt_succ inside)⟩
  · rintro ⟨first, others⟩ i inside
    cases i with
    | zero => exact first
    | succ i => exact others i (Nat.lt_of_succ_lt_succ inside)

section Loop

variable {clntSocket : Reader Byte}

private theorem ne_nil_of_read {size : ℕ} (stored : 0 < (clntSocket.read size).1) :
    (clntSocket.read size).2.1 ≠ [] := by
  have size := Reader.length_read clntSocket size
  intro nothing
  rw [nothing, List.length_nil] at size
  omega

private theorem chunks_front (clntSocket : Reader Byte) :
    (chunks clntSocket).flatten <+: clntSocket.pending := by
  fun_induction chunks clntSocket with
  | case1 sock stored ih =>
    obtain ⟨rest, whole⟩ := ih
    refine ⟨rest, ?_⟩
    rw [List.flatten_cons, List.append_assoc, whole]
    exact Reader.read_append sock BUFFER_SIZE
  | case2 sock ended => exact List.nil_prefix

/-- The loop comes to its end exactly when no `write` fails; then the file holds the chunks, and
before that a front of them. -/
theorem storeLoop_spec (clntSocket : Reader Byte) (file : Writer Byte) :
    ((storeLoop clntSocket file).1 = .returned ↔ WritesAll file.answers (chunks clntSocket)) ∧
      ∃ stored, stored <+: (chunks clntSocket).flatten ∧
        (storeLoop clntSocket file).2.wire = file.wire ++ stored := by
  fun_induction storeLoop clntSocket file with
  | case1 sock file stored failed =>
    have size := Reader.length_read sock BUFFER_SIZE
    have result : ((sock.read BUFFER_SIZE).2.1.length : ℤ) = (sock.read BUFFER_SIZE).1 := by
      omega
    obtain ⟨taken, front, wire⟩ := Writer.exists_prefix_write file (sock.read BUFFER_SIZE).2.1
    rw [chunks, if_pos stored, writesAll_cons]
    refine ⟨iff_of_false Ending.noConfusion ?_, taken, ?_, wire⟩
    · rintro ⟨whole, _⟩
      rw [← Writer.write_all_iff (ne_nil_of_read stored), result] at whole
      exact failed whole
    · rw [List.flatten_cons]
      exact front.trans (List.prefix_append _ _)
  | case2 sock file stored whole ih =>
    have size := Reader.length_read sock BUFFER_SIZE
    have result : ((sock.read BUFFER_SIZE).2.1.length : ℤ) = (sock.read BUFFER_SIZE).1 := by
      omega
    rw [not_not, ← result] at whole
    have some_bytes := ne_nil_of_read stored
    have taken := Writer.wire_append file (sock.read BUFFER_SIZE).2.1
    obtain ⟨ends, later, front, wire⟩ := ih
    rw [chunks, if_pos stored, writesAll_cons]
    refine ⟨?_, (sock.read BUFFER_SIZE).2.1 ++ later, ?_, ?_⟩
    · rw [ends, Writer.answers_write]
      exact (and_iff_right ((Writer.write_all_iff some_bytes).mp whole)).symm
    · rw [List.flatten_cons]
      exact (List.prefix_append_right_inj _).mpr front
    · rw [wire, taken, whole, Int.toNat_natCast, List.take_length, List.append_assoc]
  | case3 sock file ended =>
    rw [chunks, if_neg ended]
    refine ⟨iff_of_true rfl ?_, [], List.prefix_rfl, (List.append_nil _).symm⟩
    intro i inside
    exact absurd inside (Nat.not_lt_zero i)

private theorem storeLoop_whole (clntSocket : Reader Byte) (file : Writer Byte)
    (whole : WritesAll file.answers (chunks clntSocket)) :
    (storeLoop clntSocket file).2.wire = file.wire ++ (chunks clntSocket).flatten := by
  fun_induction storeLoop clntSocket file with
  | case1 sock file stored failed =>
    have size := Reader.length_read sock BUFFER_SIZE
    rw [chunks, if_pos stored, writesAll_cons,
      ← Writer.write_all_iff (ne_nil_of_read stored)] at whole
    exact absurd (whole.1.trans (by omega)) failed
  | case2 sock file stored taken ih =>
    have all := taken
    have size := Reader.length_read sock BUFFER_SIZE
    rw [not_not] at all
    have wire := Writer.wire_append file (sock.read BUFFER_SIZE).2.1
    rw [chunks, if_pos stored, writesAll_cons] at whole
    rw [chunks, if_pos stored, ih (by rw [Writer.answers_write]; exact whole.2), wire, all,
      ← size, List.take_length, List.append_assoc, List.flatten_cons]
  | case3 sock file ended =>
    rw [chunks, if_neg ended]
    exact (List.append_nil _).symm

private theorem recvLoop_files (clntSocket : Reader Byte) {files : Files} {name written : List Byte}
    (hopen : files name = some written) :
    (recvLoop clntSocket files name).2 = files.append name (chunks clntSocket).flatten := by
  fun_induction recvLoop clntSocket files name generalizing written with
  | case1 sock files stored ih =>
    rw [← Reader.length_read, List.take_length] at ih ⊢
    rw [chunks, if_pos stored, ih (append_same hopen _), append_append hopen, List.flatten_cons]
  | case2 sock files ended =>
    rw [chunks, if_neg ended]
    exact (append_nil hopen).symm

end Loop

private theorem serverReceiveFile_eq (clntSocket : Reader Byte) (sock : Writer Byte) (files : Files)
    (fileName : List Byte) {writes : ℕ → ℤ} (whole : WritesAll writes (chunks clntSocket)) :
    (serverReceiveFile clntSocket sock files fileName).notices =
        (ReceiveFile clntSocket (some writes)).notices ∧
      (serverReceiveFile clntSocket sock files fileName).files fileName =
        (ReceiveFile clntSocket (some writes)).stored := by
  have wire := storeLoop_whole clntSocket ⟨[], writes⟩ whole
  have returned := (storeLoop_spec clntSocket ⟨[], writes⟩).1.mpr whole
  have stored := recvLoop_files clntSocket (create_same files fileName)
  unfold ReceiveFile serverReceiveFile
  dsimp only
  rw [stored, append_same (create_same files fileName), ← wire]
  split
  · rename_i file result
    rw [result]
    exact ⟨rfl, rfl⟩
  · rename_i ending file other result
    rw [result] at returned
    exact absurd returned other

/-- The sending client is gone before all bytes are sent: what the server still gets is a front
of the content, up to the end of the stream or to an error. -/
def BrokenOff (content : List Byte) (clntSocket : Reader Byte) : Prop :=
  clntSocket.pending <+: content ∧ clntSocket.pending ≠ content

/-- An upload that breaks off is not reported as finished exactly when the server cannot open
the file or one of its writes does not take what was received; what the file holds is never all
of the content. -/
theorem broken_off_unreported_iff {content : List Byte} {clntSocket : Reader Byte}
    (broken : BrokenOff content clntSocket) (file_fd : Option (ℕ → ℤ)) :
    (.finishedReceiving ∉ (ReceiveFile clntSocket file_fd).notices ↔
        ∀ writes, file_fd = some writes → ¬ WritesAll writes (chunks clntSocket)) ∧
      ∀ stored, (ReceiveFile clntSocket file_fd).stored = some stored →
        stored <+: content ∧ stored ≠ content := by
  obtain ⟨front, differ⟩ := broken
  cases file_fd with
  | none =>
    refine ⟨iff_of_true List.not_mem_nil fun _ opened => ?_, fun _ opened => ?_⟩
    · cases opened
    · cases opened
  | some writes =>
    obtain ⟨ends, taken, within, wire⟩ := storeLoop_spec clntSocket ⟨[], writes⟩
    have partly : taken <+: clntSocket.pending := within.trans (chunks_front clntSocket)
    have lost : taken <+: content ∧ taken ≠ content := by
      refine ⟨partly.trans front, ?_⟩
      rintro rfl
      exact differ (front.eq_of_length (Nat.le_antisymm front.length_le partly.length_le))
    have quantified : (∀ answers, some writes = some answers →
        ¬ WritesAll answers (chunks clntSocket)) ↔ ¬ WritesAll writes (chunks clntSocket) := by
      constructor
      · intro each
        exact each writes rfl
      · rintro fails _ ⟨⟩
        exact fails
    rw [quantified, ← ends]
    unfold ReceiveFile
    dsimp only
    split
    · rename_i file result
      rw [result] at wire ⊢
      refine ⟨iff_of_false (fun unsaid => unsaid List.mem_cons_self) (fun never => never rfl), ?_⟩
      rintro _ ⟨⟩
      rw [wire]
      exact lost
    · rename_i ending file other result
      rw [result] at wire ⊢
      refine ⟨iff_of_true List.not_mem_nil other, ?_⟩
      rintro _ ⟨⟩
      rw [wire]
      exact lost

/-- One byte of two arrives, and then the end of the stream. -/
theorem one_byte_unreported_iff :
    let clntSocket := Reader.closed (lit ['h']) fun _ => 8192
    BrokenOff (lit ['h', 'i']) clntSocket ∧
      (.finishedReceiving ∉ (ReceiveFile clntSocket (some fun _ => 0)).notices ↔
        ∀ writes, (some fun _ => 0) = some writes → ¬ WritesAll writes (chunks clntSocket)) := by
  have broken : BrokenOff (lit ['h', 'i']) (Reader.closed (lit ['h']) fun _ => 8192) :=
    ⟨⟨lit ['i'], rfl⟩, by decide⟩
  exact ⟨broken, (broken_off_unreported_iff broken (some fun _ => 0)).1⟩

theorem half_upload_reported : ¬ ∀ content clntSocket file_fd, BrokenOff content clntSocket →
    .finishedReceiving ∉ (ReceiveFile clntSocket file_fd).notices := by
  intro claim
  let clntSocket := Reader.closed (lit ['h']) fun _ => 8192
  have unsaid := claim (lit ['h', 'i']) clntSocket (some fun _ => 8192)
    ⟨⟨lit ['i'], rfl⟩, by decide⟩
  have first : clntSocket.read BUFFER_SIZE =
      (1, lit ['h'], Reader.closed [] fun _ => 8192) := rfl
  have second : (Reader.closed ([] : List Byte) fun _ => 8192).read BUFFER_SIZE =
      (0, [], Reader.closed [] fun _ => 8192) := rfl
  have one : chunks clntSocket = [lit ['h']] := by
    rw [chunks, first, if_pos (by decide), chunks, second, if_neg (by decide)]
  have whole : WritesAll (fun _ => 8192) (chunks clntSocket) := by
    rw [one, writesAll_cons]
    exact ⟨by decide, fun i inside => absurd inside (Nat.not_lt_zero i)⟩
  rw [← (serverReceiveFile_eq clntSocket ⟨[], fun _ => 0⟩ (fun _ => none) [] whole).1] at unsaid
  exact unsaid List.mem_cons_self

end SocketChat.TestCode.FileTransfer.Truncation
