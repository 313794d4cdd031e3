/- SocketChat/TestCode/TcpFT/Parser
   digest: What the server makes of any stream, however it is cut. -/

import SocketChat.TestCode.TcpFT.Bounds
import SocketChat.TestCode.TcpFT.Upload

set_option autoImplicit false
set_option relaxedAutoImplicit false

namespace SocketChat.TestCode.TcpFT.Parser

open SocketChat.Lib.BigEndian
open SocketChat.Lib.CString
open SocketChat.Lib.Directory
open SocketChat.Lib.Stream
open SocketChat.TestCode.TcpFT.Bounds
open SocketChat.TestCode.TcpFT.Model
open SocketChat.TestCode.TcpFT.Upload

/-- What is to become of a stream, read from its first byte to its last. -/
def verdict (stream : List Byte) (files : Files) : Exit × Files :=
  if stream.length < 4 then (.died "recv", files) else
  let name_len := decode (stream.take 4)
  if name_len = 0 ∨ 4096 < name_len then (.died "bad name len", files) else
  let stream := stream.drop 4
  if stream.length < name_len then (.died "recv name", files) else
  let name := cstr (stream.take name_len)
  let stream := stream.drop name_len
  if stream.length < 8 then (.died "recv size", files) else
  let filesize := decode (stream.take 8)
  let data := stream.drop 8
  if data.length < filesize then
    (.died "recv data",
      Function.update files name (some (data.take (BUF * (data.length / BUF)))))
  else (.success, Function.update files name (some (data.take filesize)))

section Receiving

private theorem recvAll_short {fd : Reader Byte} (holds : fd.Willing) {len t : ℕ} (buf : List Byte)
    (short : fd.pending.length < len - t) : (recvAll fd len t buf).1 = fd.atEnd := by
  induction h : len - t using Nat.strong_induction_on generalizing fd t buf with
  | _ n ih =>
    rw [recvAll, if_pos (by omega)]
    by_cases more : fd.pending = []
    · rw [Reader.read_of_nil holds _ more]
      dsimp only
      rw [if_pos fd.atEnd_nonpos]
    · obtain ⟨k, fd₁, hread, pos, hk, hle, _, pending, atEnd, holds₁, _⟩ :=
        Reader.read_of_willing holds (len - t) (by omega) more
      have short₁ : fd₁.pending.length < len - (t + k) := by
        rw [pending, List.length_drop]
        omega
      rw [hread]
      dsimp only
      rw [if_neg (by omega), Int.toNat_natCast,
        ih (len - (t + k)) (by omega) holds₁ (buf ++ fd.pending.take k) short₁ rfl, atEnd]

private theorem recvAll_long {fd : Reader Byte} (holds : fd.Willing) {len : ℕ}
    (long : len ≤ fd.pending.length) :
    ∃ fd', recvAll fd len 0 [] = ((len : ℤ), fd.pending.take len, fd') ∧
      fd'.pending = fd.pending.drop len ∧ fd'.Willing := by
  obtain ⟨fd', done, pending, holds'⟩ := recvAll_willing holds len [] (Nat.zero_le len) long
  exact ⟨fd', done, pending, holds'⟩

private theorem recvData_short {c : Reader Byte} (holds : c.Willing) {files : Files}
    {f written : List Byte} (hopen : files f = some written) {filesize got : ℕ}
    (short : c.pending.length < filesize - got) :
    recvData c files f filesize got = (.died "recv data",
      files.append f (c.pending.take (BUF * (c.pending.length / BUF)))) := by
  have size : BUF = 10240 := rfl
  induction h : filesize - got using Nat.strong_induction_on
    generalizing c files written got with
  | _ n ih =>
    rw [recvData, if_pos (by omega)]
    obtain ⟨want, asked⟩ : ∃ want, want = min BUF (filesize - got) := ⟨_, rfl⟩
    rw [want_eq_min, ← asked]
    rcases Nat.lt_or_ge c.pending.length want with early | full
    · have ended := recvAll_short holds [] (t := 0) early
      have no_block : c.pending.length / BUF = 0 := Nat.div_eq_of_lt (by omega)
      dsimp only
      rw [if_pos (ended ▸ c.atEnd_nonpos), no_block, Nat.mul_zero, List.take_zero,
        append_nil hopen]
    · obtain rfl : want = BUF := by omega
      obtain ⟨c₁, received, pending, holds₁⟩ := recvAll_long holds full
      have hopen₁ := append_same hopen (c.pending.take BUF)
      have short₁ : c₁.pending.length < filesize - (got + BUF) := by
        rw [pending, List.length_drop]
        omega
      have whole : (c.pending.take BUF).take BUF = c.pending.take BUF := by
        rw [List.take_take, min_self]
      have blocks : BUF * (c.pending.length / BUF) =
          BUF + BUF * ((c.pending.length - BUF) / BUF) := by
        rw [Nat.div_eq_sub_div (by decide) full]
        ring
      simp only [received]
      rw [if_neg (by omega), Int.toNat_natCast, whole,
        ih (filesize - (got + BUF)) (by omega) holds₁ hopen₁ short₁ rfl, append_append hopen,
        pending, List.length_drop, blocks, List.take_add]

end Receiving

/-- The server carries out the verdict, whatever the segmentation and the stream's end. -/
theorem serverMain_eq_verdict {c : Reader Byte} (holds : c.Willing) (files : Files) :
    serverMain c files = verdict c.pending files := by
  unfold serverMain verdict
  by_cases four : c.pending.length < 4
  · have ended : (recvAll c 4 0 []).1 = c.atEnd := recvAll_short holds [] four
    dsimp only
    rw [if_pos (ended ▸ c.atEnd_nonpos), if_pos four]
  obtain ⟨c₁, received₁, pending₁, holds₁⟩ := recvAll_long holds (Nat.le_of_not_lt four)
  simp only [received₁]
  rw [if_neg (by omega), if_neg four, ← pending₁]
  by_cases bad : decode (c.pending.take 4) = 0 ∨ 4096 < decode (c.pending.take 4)
  · rw [if_pos bad, if_pos bad]
  rw [if_neg bad, if_neg bad]
  generalize decode (c.pending.take 4) = name_len at bad ⊢
  by_cases named : c₁.pending.length < name_len
  · have ended : (recvAll c₁ name_len 0 []).1 = c₁.atEnd := recvAll_short holds₁ [] named
    rw [if_pos (ended ▸ c₁.atEnd_nonpos), if_pos named]
  obtain ⟨c₂, received₂, pending₂, holds₂⟩ := recvAll_long holds₁ (Nat.le_of_not_lt named)
  simp only [received₂]
  rw [if_neg (by omega), if_neg named, ← pending₂, cstr_snoc_zero]
  by_cases eight : c₂.pending.length < 8
  · have ended : (recvAll c₂ 8 0 []).1 = c₂.atEnd := recvAll_short holds₂ [] eight
    rw [if_pos (ended ▸ c₂.atEnd_nonpos), if_pos eight]
  obtain ⟨c₃, received₃, pending₃, holds₃⟩ := recvAll_long holds₂ (Nat.le_of_not_lt eight)
  simp only [received₃]
  rw [if_neg (by omega), if_neg eight, ← pending₃]
  have hopen := create_same files (cstr (c₁.pending.take name_len))
  by_cases early : c₃.pending.length < decode (c₂.pending.take 8)
  · rw [if_pos early, recvData_short holds₃ hopen early, append_create]
  · have enough : decode (c₂.pending.take 8) - 0 ≤ c₃.pending.length := Nat.le_of_not_lt early
    rw [if_neg early, recvData_willing holds₃ _ hopen enough, append_create, Nat.sub_zero]

/-- The stream is a complete header, with a name of an accepted length, and data behind it. -/
structure Header (stream name : List Byte) (filesize : ℕ) (data : List Byte) : Prop where
  parts : stream = encode 4 name.length ++ (name ++ (encode 8 filesize ++ data))
  nonempty : 1 ≤ name.length
  short_name : name.length ≤ 4096
  wide : filesize < 2 ^ 64

section Header

variable {stream : List Byte}

theorem verdict_of_header {name data : List Byte} {filesize : ℕ}
    (header : Header stream name filesize data) (files : Files) :
    verdict stream files =
      if data.length < filesize then
        (.died "recv data", Function.update files (cstr name)
          (some (data.take (BUF * (data.length / BUF)))))
      else (.success, Function.update files (cstr name) (some (data.take filesize))) := by
  have nonempty := header.nonempty
  have short_name := header.short_name
  have four : (encode 4 name.length).length = 4 := length_encode 4 name.length
  have eight : (encode 8 filesize).length = 8 := length_encode 8 filesize
  have name_len : decode (stream.take 4) = name.length := by
    rw [header.parts, List.take_left' four, decode_encode_of_lt (by omega)]
  have after : stream.drop 4 = name ++ (encode 8 filesize ++ data) := by
    rw [header.parts, List.drop_left' four]
  have size : decode ((encode 8 filesize ++ data).take 8) = filesize := by
    rw [List.take_left' eight, decode_encode_of_lt header.wide]
  have long : ¬stream.length < 4 := by
    rw [header.parts, List.length_append]
    omega
  have named : ¬(name ++ (encode 8 filesize ++ data)).length < name.length := by
    rw [List.length_append]
    omega
  have sized : ¬(encode 8 filesize ++ data).length < 8 := by
    rw [List.length_append]
    omega
  rw [verdict, if_neg long]
  simp only [name_len, after, List.take_left, List.drop_left, size, List.drop_left' eight]
  rw [if_neg (by omega), if_neg named, if_neg sized]

private theorem verdict_of_no_header
    (none_there : ¬∃ name filesize data, Header stream name filesize data)
    (files : Files) : ∃ message, verdict stream files = (.died message, files) := by
  unfold verdict
  by_cases four : stream.length < 4
  · exact ⟨_, if_pos four⟩
  rw [if_neg four]
  have low : (stream.take 4).length = 4 := List.length_take_of_le (Nat.le_of_not_lt four)
  by_cases bad : decode (stream.take 4) = 0 ∨ 4096 < decode (stream.take 4)
  · exact ⟨_, if_pos bad⟩
  dsimp only
  rw [if_neg bad]
  by_cases named : (stream.drop 4).length < decode (stream.take 4)
  · exact ⟨_, if_pos named⟩
  rw [if_neg named]
  by_cases eight : ((stream.drop 4).drop (decode (stream.take 4))).length < 8
  · exact ⟨_, if_pos eight⟩
  refine absurd ⟨(stream.drop 4).take (decode (stream.take 4)),
    decode (((stream.drop 4).drop (decode (stream.take 4))).take 8),
    ((stream.drop 4).drop (decode (stream.take 4))).drop 8, ?_⟩ none_there
  have name_len : ((stream.drop 4).take (decode (stream.take 4))).length =
      decode (stream.take 4) := List.length_take_of_le (Nat.le_of_not_lt named)
  have sized : (((stream.drop 4).drop (decode (stream.take 4))).take 8).length = 8 :=
    List.length_take_of_le (Nat.le_of_not_lt eight)
  have first := encode_decode (stream.take 4)
  have second := encode_decode (((stream.drop 4).drop (decode (stream.take 4))).take 8)
  rw [low] at first
  rw [sized] at second
  refine ⟨?_, ?_, ?_, decode_lt_two_pow (Nat.le_of_eq sized)⟩
  · rw [name_len, first, second, List.take_append_drop, List.take_append_drop,
      List.take_append_drop]
  · omega
  · omega

end Header

/-- For every finite stream, whatever follows its end, and every segmentation: the server
succeeds exactly on a complete header followed by at least the announced bytes, and then the
file named by the name up to its first NUL holds exactly these; with fewer bytes it dies and
leaves the full blocks of them; without a complete header it dies and opens no file. All its
stores are in bounds, `got` neither passes the size nor overflows, and the segmentation makes no
difference. -/
theorem server_outcome {c : Reader Byte} (holds : c.Willing) (files : Files) :
    ((serverMain c files).1 = .success ↔
        ∃ name filesize data, Header c.pending name filesize data ∧ filesize ≤ data.length) ∧
      (∀ name filesize data, Header c.pending name filesize data →
        (filesize ≤ data.length → (serverMain c files).2 =
          Function.update files (cstr name) (some (data.take filesize))) ∧
        (data.length < filesize → ∃ message, serverMain c files = (.died message,
          Function.update files (cstr name)
            (some (data.take (10240 * (data.length / 10240))))))) ∧
      ((¬∃ name filesize data, Header c.pending name filesize data) →
        ∃ message, serverMain c files = (.died message, files)) ∧
      ((serverMainLogged c files).1 = serverMain c files ∧
        ∀ e ∈ (serverMainLogged c files).2, e.Safe) ∧
      ∀ c' : Reader Byte, c'.Willing → c'.pending = c.pending →
        serverMain c' files = serverMain c files := by
  have outcome := serverMain_eq_verdict holds files
  refine ⟨⟨?_, ?_⟩, ?_, ?_, ⟨serverMainLogged_fst c files, safe_serverMainLogged c files⟩, ?_⟩
  · intro success
    by_cases there : ∃ name filesize data, Header c.pending name filesize data
    · obtain ⟨name, filesize, data, header⟩ := there
      refine ⟨name, filesize, data, header, Nat.le_of_not_lt fun early => ?_⟩
      rw [outcome, verdict_of_header header, if_pos early] at success
      cases success
    · obtain ⟨message, died⟩ := verdict_of_no_header there files
      rw [outcome, died] at success
      cases success
  · rintro ⟨name, filesize, data, header, enough⟩
    rw [outcome, verdict_of_header header, if_neg (Nat.not_lt.mpr enough)]
  · intro name filesize data header
    constructor
    · intro enough
      rw [outcome, verdict_of_header header, if_neg (Nat.not_lt.mpr enough)]
    · intro early
      refine ⟨"recv data", ?_⟩
      rw [outcome, verdict_of_header header, if_pos early]
      rfl
  · intro none_there
    rw [outcome]
    exact verdict_of_no_header none_there files
  · intro c' holds' same
    rw [outcome, serverMain_eq_verdict holds', same]

def hi : Reader Byte where
  pending := [0, 0, 0, 1, 102, 0, 0, 0, 0, 0, 0, 0, 2, 104, 105, 33]
  atEnd := -1
  answers := fun _ => 1
  atEnd_nonpos := by decide

theorem server_outcome_hi : (serverMain hi fun _ => none).1 = .success ∧
    (serverMain hi fun _ => none).2 = Function.update (fun _ => none) [102] (some [104, 105]) := by
  have header : Header hi.pending [102] 2 [104, 105, 33] :=
    ⟨by decide +kernel, by decide, by decide, by decide⟩
  have outcome := server_outcome (c := hi) (fun _ => Int.one_pos) fun _ => none
  exact ⟨outcome.1.mpr ⟨_, _, _, header, by decide⟩, (outcome.2.1 _ _ _ header).1 (by decide)⟩

end SocketChat.TestCode.TcpFT.Parser
