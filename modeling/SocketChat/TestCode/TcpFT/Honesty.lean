/- SocketChat/TestCode/TcpFT/Honesty
   digest: A client that succeeds has announced what it sent when ftell told the truth. -/

import SocketChat.TestCode.TcpFT.Parser

set_option autoImplicit false
set_option relaxedAutoImplicit false

namespace SocketChat.TestCode.TcpFT.Honesty

open SocketChat.Lib.BigEndian
open SocketChat.Lib.CString
open SocketChat.Lib.Stream
open SocketChat.TestCode.TcpFT.Model
open SocketChat.TestCode.TcpFT.Parser
open SocketChat.TestCode.TcpFT.Upload

private theorem sendAll_complete {fd : Writer Byte} {buf : List Byte} {len t : ℕ}
    (room : len ≤ buf.length) (ht : t ≤ len) (complete : (sendAll fd buf len t).1 = len) :
    (sendAll fd buf len t).2.wire = fd.wire ++ (buf.take len).drop t := by
  fun_induction sendAll fd buf len t with
  | case1 fd t more s fd' hwrite failed =>
    dsimp only at complete
    omega
  | case2 fd t more s fd' hwrite some_sent ih =>
    have bound := Writer.write_le fd ((buf.drop t).take (len - t))
    have wire := Writer.wire_append fd ((buf.drop t).take (len - t))
    rw [hwrite, List.length_take, List.length_drop] at bound
    rw [hwrite] at wire
    dsimp only at bound wire
    have piece : ((buf.drop t).take (len - t)).take s.toNat =
        ((buf.take len).drop t).take s.toNat := by
      rw [List.drop_take]
    have rest : (buf.take len).drop (t + s.toNat) = ((buf.take len).drop t).drop s.toNat := by
      rw [List.drop_drop]
    rw [ih (by omega) complete, wire, List.append_assoc, piece, rest, List.take_append_drop]
  | case3 fd t done =>
    obtain rfl : t = len := by omega
    rw [List.drop_eq_nil_of_le (List.length_take_le _ _), List.append_nil]

private theorem sendData_complete {sfd sfd' : Writer Byte} {reads : List (List Byte)}
    (exited : sendData sfd reads = (.success, sfd')) :
    sfd'.wire = sfd.wire ++ payload reads := by
  induction reads generalizing sfd with
  | nil =>
    obtain rfl := (Prod.mk.inj exited).2
    exact (List.append_nil _).symm
  | cons buf reads ih =>
    rw [sendData] at exited
    by_cases more : 0 < buf.length
    · rw [if_pos more] at exited
      by_cases all : (sendAll sfd buf buf.length 0).1 = buf.length
      · have complete := sendAll_complete (Nat.le_refl buf.length) (Nat.zero_le _) all
        dsimp only at exited
        rw [if_neg (not_not.mpr all)] at exited
        rw [ih exited, complete, payload_cons, if_pos more, List.take_length, List.drop_zero,
          List.append_assoc]
      · dsimp only at exited
        rw [if_pos all] at exited
        cases exited
    · rw [if_neg more] at exited
      obtain rfl := (Prod.mk.inj exited).2
      rw [payload_cons, if_neg more, List.append_nil]

private theorem wire_of_success {file : List Byte} {f : Stdio} {sfd sfd' : Writer Byte}
    (exited : clientMain file (some f) sfd = (.success, sfd')) :
    sfd'.wire = sfd.wire ++ sent file f := by
  unfold clientMain at exited
  dsimp only at exited
  split at exited
  · cases exited
  rename_i first
  split at exited
  · cases exited
  rename_i second
  split at exited
  · cases exited
  rename_i third
  have wire₁ := sendAll_complete (by simp) (Nat.zero_le 4) (not_not.mp first)
  have fits : strlen file % 2 ^ 32 ≤ file.length := nameLen_le file
  have wire₂ := sendAll_complete fits (Nat.zero_le _) (not_not.mp second)
  have wire₃ := sendAll_complete (by simp) (Nat.zero_le 8) (not_not.mp third)
  have four : ∀ n, (encode 4 n).take 4 = encode 4 n := by
    intro n
    exact List.take_of_length_le (by simp)
  have eight : ∀ n, (encode 8 n).take 8 = encode 8 n := by
    intro n
    exact List.take_of_length_le (by simp)
  rw [sendData_complete exited, wire₃, wire₂, wire₁, four, eight]
  simp [sent, nameLen, declared]

private theorem parts_inj {name name' data data' : List Byte} {size size' : ℕ}
    (short : name.length < 256 ^ 4) (short' : name'.length < 256 ^ 4) (wide : size < 256 ^ 8)
    (wide' : size' < 256 ^ 8)
    (same : encode 4 name.length ++ (name ++ (encode 8 size ++ data)) =
      encode 4 name'.length ++ (name' ++ (encode 8 size' ++ data'))) :
    name.length = name'.length ∧ size = size' ∧ data = data' := by
  obtain ⟨lengths, rest⟩ := List.append_inj same (by rw [length_encode, length_encode])
  have named : name.length = name'.length := by
    rw [← decode_encode_of_lt short, lengths, decode_encode_of_lt short']
  obtain ⟨_, rest⟩ := List.append_inj rest named
  obtain ⟨sizes, rest⟩ := List.append_inj rest (by rw [length_encode, length_encode])
  refine ⟨named, ?_, rest⟩
  rw [← decode_encode_of_lt wide, sizes, decode_encode_of_lt wide']

private theorem declared_lt (f : Stdio) : declared f < 2 ^ 64 := by
  rw [declared]
  omega

private theorem length_take_nameLen (file : List Byte) :
    (file.take (nameLen file)).length = nameLen file := List.length_take_of_le (nameLen_le file)

private theorem header_sent_iff (file : List Byte) (f : Stdio) :
    (∃ name data, Header (sent file f) name data.length data) ↔
      (1 ≤ nameLen file ∧ nameLen file ≤ 4096) ∧ declared f = (payload f.reads).length := by
  have named := length_take_nameLen file
  constructor
  · rintro ⟨name, data, header⟩
    have bound : nameLen file < 256 ^ 4 := Nat.mod_lt _ (by decide)
    have nonempty := header.nonempty
    have short_name := header.short_name
    have parts := header.parts
    rw [sent] at parts
    nth_rewrite 1 [← named] at parts
    obtain ⟨lengths, sizes, rest⟩ := parts_inj (by omega) (by omega) (declared_lt f)
      header.wide parts
    rw [sizes, rest]
    exact ⟨by omega, rfl⟩
  · rintro ⟨⟨nonempty, short_name⟩, truthful⟩
    refine ⟨file.take (nameLen file), payload f.reads, ?_, by omega, by omega, ?_⟩
    · rw [named, ← truthful]
      rfl
    · rw [← truthful]
      exact declared_lt f

/-- Whatever the two readings of the file gave and whatever counts `send` accepted: the stream
of a client that succeeds makes every run of the server succeed, and announces as many bytes as
follow its header, exactly when the name's length is between 1 and 4096 and `ftell` gave the
number of bytes that `fread` gave. -/
theorem honest_iff (file : List Byte) (f : Stdio) (sends : ℕ → ℤ) {sfd : Writer Byte}
    (exited : clientMain file (some f) ⟨[], sends⟩ = (.success, sfd)) :
    (∃ name data, Header sfd.wire name data.length data ∧
        ∀ c : Reader Byte, c.Willing → c.pending = sfd.wire → ∀ files,
          (serverMain c files).1 = .success) ↔
      (1 ≤ nameLen file ∧ nameLen file ≤ 4096) ∧ declared f = (payload f.reads).length := by
  have wire : sfd.wire = sent file f := wire_of_success exited
  rw [← header_sent_iff, wire]
  constructor
  · rintro ⟨name, data, header, _⟩
    exact ⟨name, data, header⟩
  · rintro ⟨name, data, header⟩
    refine ⟨name, data, header, fun c holds carried files => ?_⟩
    rw [serverMain_eq_verdict holds, carried, verdict_of_header header,
      if_neg (Nat.lt_irrefl data.length)]

theorem honest_iff_regular : ∃ sfd,
    clientMain [102] (some (.regular [104, 105])) ⟨[], fun _ => 1⟩ = (.success, sfd) ∧
      ∃ name data, Header sfd.wire name data.length data ∧
        ∀ c : Reader Byte, c.Willing → c.pending = sfd.wire → ∀ files,
          (serverMain c files).1 = .success := by
  have holds : (⟨[], fun _ => 1⟩ : Writer Byte).Willing := fun _ => Int.one_pos
  obtain ⟨sfd, exited, _⟩ := clientMain_willing holds [102] (.regular [104, 105])
  refine ⟨sfd, exited, (honest_iff [102] (.regular [104, 105]) (fun _ => 1) exited).mpr ?_⟩
  refine ⟨by decide, ?_⟩
  rw [Stdio.regular, payload_blocks]
  decide

/-- `ftell` fails: the client succeeds, and the server waits for 2^64 - 1 bytes and dies. -/
theorem failed_ftell_announced : ∃ sfd,
    clientMain [102] (some ⟨-1, [[104, 105]]⟩) ⟨[], fun _ => 1⟩ = (.success, sfd) ∧
      ∀ c : Reader Byte, c.Willing → c.pending = sfd.wire → ∀ files,
        (serverMain c files).1 = .died "recv data" := by
  have holds : (⟨[], fun _ => 1⟩ : Writer Byte).Willing := fun _ => Int.one_pos
  obtain ⟨sfd, exited, wire⟩ := clientMain_willing holds [102] ⟨-1, [[104, 105]]⟩
  refine ⟨sfd, exited, fun c holds' carried files => ?_⟩
  have header : Header sfd.wire [102] (2 ^ 64 - 1) [104, 105] :=
    ⟨by rw [wire]; decide +kernel, by decide, by decide, by decide⟩
  rw [serverMain_eq_verdict holds', carried, verdict_of_header header, if_pos (by decide)]

end SocketChat.TestCode.TcpFT.Honesty
