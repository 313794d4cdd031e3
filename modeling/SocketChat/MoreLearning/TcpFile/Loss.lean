/- SocketChat/MoreLearning/TcpFile/Loss
   digest: The file arrives exactly when every send takes its whole block. -/

import SocketChat.MoreLearning.TcpFile.Model

set_option autoImplicit false
set_option relaxedAutoImplicit false

namespace SocketChat.MoreLearning.TcpFile.Loss

open SocketChat.Lib.Blocks
open SocketChat.Lib.Directory
open SocketChat.Lib.Download
open SocketChat.Lib.Stream
open Model

private theorem clientMain_willing {sockfd : Reader UInt8} (holds : sockfd.Willing)
    (files : Files) :
    clientMain sockfd files = Function.update files RECEIVED_FILE (some sockfd.pending) := by
  rw [clientMain, recvLoop, download_create (by decide) holds]

private theorem transfer_stores {content : List UInt8} {sends recvs : ℕ → ℤ}
    {serverFiles : Files} (clientFiles : Files) (sends_pos : ∀ i, 0 < sends i)
    (recvs_pos : ∀ i, 0 < recvs i) (to_send : serverFiles FILE_TO_SEND = some content) :
    ∃ taken, transfer sends recvs serverFiles clientFiles =
        some (Function.update clientFiles RECEIVED_FILE (some taken)) ∧
      (taken = content ↔ ∀ i (_ : i < (blocks BUFFER content).length),
        ((blocks BUFFER content)[i].length : ℤ) ≤ sends i) := by
  have holds : (⟨[], sends⟩ : Writer UInt8).Willing := sends_pos
  obtain ⟨taken, wire, _, whole⟩ := Writer.wire_pour holds (blocks BUFFER content)
  rw [flatten_blocks (by decide)] at whole
  refine ⟨taken, ?_, whole⟩
  have holds' : (Reader.closed taken recvs).Willing := recvs_pos
  rw [transfer, serverMain, to_send, Option.map_some, Option.map_some, sendLoop]
  simp only [wire, List.nil_append]
  rw [clientMain_willing holds', Reader.closed]

/-- On a connection that does not fail, whatever counts `send` accepts and however `recv` cuts
the stream, both programs exit, and the received file is the file to send exactly when every
send accepts all the bytes of its block. -/
theorem received_iff_whole_blocks (content : List UInt8) (sends recvs : ℕ → ℤ)
    (serverFiles clientFiles : Files) (sends_pos : ∀ i, 0 < sends i)
    (recvs_pos : ∀ i, 0 < recvs i) (to_send : serverFiles FILE_TO_SEND = some content) :
    ∃ files, transfer sends recvs serverFiles clientFiles = some files ∧
      (files RECEIVED_FILE = some content ↔
        ∀ i (_ : i < (blocks BUFFER content).length),
          ((blocks BUFFER content)[i].length : ℤ) ≤ sends i) := by
  obtain ⟨taken, run, whole⟩ := transfer_stores clientFiles sends_pos recvs_pos to_send
  refine ⟨_, run, ?_⟩
  rw [Function.update_self, Option.some_inj]
  exact whole

def hi : Files := Function.update (fun _ => none) FILE_TO_SEND (some [104, 105])

theorem received_iff_whole_blocks_hi : ∃ files,
    transfer (fun _ => 256) (fun _ => 1) hi (fun _ => none) = some files ∧
      files RECEIVED_FILE = some [104, 105] := by
  obtain ⟨files, run, whole⟩ := received_iff_whole_blocks [104, 105] (fun _ => 256) (fun _ => 1)
    hi (fun _ => none) (fun _ => by decide) (fun _ => by decide) (by decide)
  refine ⟨files, run, whole.mpr fun i inside => ?_⟩
  have short := length_le_of_mem_blocks (show 0 < BUFFER by decide) (List.getElem_mem inside)
  exact Int.ofNat_le.mpr short

/-- The only send of `hi` accepts one byte, and the received file is not `hi`. -/
theorem second_byte_lost : ∃ files,
    transfer (fun _ => 1) (fun _ => 1) hi (fun _ => none) = some files ∧
      files RECEIVED_FILE ≠ some [104, 105] := by
  have to_send : hi FILE_TO_SEND = some [104, 105] := by decide
  obtain ⟨taken, run, whole⟩ := transfer_stores (fun _ => none) (fun _ => Int.one_pos)
    (fun _ => Int.one_pos) to_send
  refine ⟨_, run, ?_⟩
  rw [Function.update_self, Ne, Option.some_inj, whole]
  intro each
  have one_block : blocks BUFFER ([104, 105] : List UInt8) = [[104, 105]] := by
    rw [blocks_of_ne_nil (by decide) (by decide)]
    exact congrArg ([104, 105] :: ·) (blocks_nil BUFFER)
  have two_bytes : (2 : ℤ) ≤ 1 := by
    have first := each 0 (by rw [one_block]; decide)
    simp only [one_block] at first
    exact first
  exact absurd two_bytes (by decide)

end SocketChat.MoreLearning.TcpFile.Loss
