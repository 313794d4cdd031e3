/- SocketChat/TestCode/TcpFT/Upload
   digest: An upload arrives whole for every segmentation on both sides. -/

import SocketChat.TestCode.TcpFT.Model

set_option autoImplicit false
set_option relaxedAutoImplicit false

namespace SocketChat.TestCode.TcpFT.Upload

open SocketChat.Lib.BigEndian
open SocketChat.Lib.Blocks
open SocketChat.Lib.CString
open SocketChat.Lib.Directory
open SocketChat.Lib.Stream
open SocketChat.TestCode.TcpFT.Model

private theorem sendAll_willing {fd : Writer Byte} (holds : fd.Willing) (buf : List Byte)
    {len t : ℕ} (room : len ≤ buf.length) (ht : t ≤ len) :
    ∃ fd', sendAll fd buf len t = ((len : ℤ), fd') ∧
      fd'.wire = fd.wire ++ (buf.take len).drop t ∧ fd'.Willing := by
  induction h : len - t using Nat.strong_induction_on generalizing fd t with
  | _ n ih =>
    rw [sendAll]
    by_cases more : t < len
    · rw [if_pos more]
      have length_rest : ((buf.drop t).take (len - t)).length = len - t := by
        rw [List.length_take, List.length_drop]
        omega
      have nonempty : (buf.drop t).take (len - t) ≠ [] := by
        intro hnil
        rw [hnil, List.length_nil] at length_rest
        omega
      obtain ⟨k, fd₁, hwrite, pos, hk, wire, holds₁⟩ := Writer.write_of_willing holds nonempty
      rw [length_rest] at hk
      simp only [hwrite]
      rw [if_neg (by omega), Int.toNat_natCast]
      obtain ⟨fd₂, done, wire₂, holds₂⟩ :=
        ih (len - (t + k)) (by omega) holds₁ (by omega) rfl
      refine ⟨fd₂, done, ?_, holds₂⟩
      have piece : ((buf.drop t).take (len - t)).take k = ((buf.take len).drop t).take k := by
        rw [List.drop_take]
      have rest : (buf.take len).drop (t + k) = ((buf.take len).drop t).drop k := by
        rw [List.drop_drop]
      rw [wire₂, wire, List.append_assoc, piece, rest, List.take_append_drop]
    · rw [if_neg more]
      obtain rfl : t = len := by omega
      refine ⟨fd, rfl, ?_, holds⟩
      rw [List.drop_eq_nil_of_le (List.length_take_le _ _), List.append_nil]

/-- On a connection that holds and carries enough, `recv_all` stores exactly the next `len`
bytes and takes no byte after them. -/
theorem recvAll_willing {fd : Reader Byte} (holds : fd.Willing) (len : ℕ) {t : ℕ}
    (buf : List Byte) (ht : t ≤ len) (enough : len - t ≤ fd.pending.length) :
    ∃ fd', recvAll fd len t buf = ((len : ℤ), buf ++ fd.pending.take (len - t), fd') ∧
      fd'.pending = fd.pending.drop (len - t) ∧ fd'.Willing := by
  induction h : len - t using Nat.strong_induction_on generalizing fd t buf with
  | _ n ih =>
    rw [recvAll]
    by_cases more : t < len
    · rw [if_pos more]
      have nonempty : fd.pending ≠ [] := by
        intro hnil
        rw [hnil, List.length_nil] at enough
        omega
      obtain ⟨k, fd₁, hread, pos, hk, hle, _, pending, _, holds₁, _⟩ :=
        Reader.read_of_willing holds (len - t) (by omega) nonempty
      simp only [hread]
      rw [if_neg (by omega), Int.toNat_natCast]
      have enough₁ : len - (t + k) ≤ fd₁.pending.length := by
        rw [pending, List.length_drop]
        omega
      obtain ⟨fd₂, done, pending₂, holds₂⟩ :=
        ih (len - (t + k)) (by omega) holds₁ (buf ++ fd.pending.take k) (by omega) enough₁ rfl
      have split : n = k + (len - (t + k)) := by omega
      refine ⟨fd₂, ?_, ?_, holds₂⟩
      · rw [done, pending, split, List.append_assoc, ← List.take_add]
      · rw [pending₂, pending, List.drop_drop, split]
    · rw [if_neg more]
      obtain rfl : t = len := by omega
      obtain rfl : n = 0 := by omega
      exact ⟨fd, by simp, by simp, holds⟩

private theorem recvAll_append {fd : Reader Byte} (holds : fd.Willing) {first rest : List Byte}
    (pending : fd.pending = first ++ rest) :
    ∃ fd', recvAll fd first.length 0 [] = ((first.length : ℤ), first, fd') ∧
      fd'.pending = rest ∧ fd'.Willing := by
  obtain ⟨fd', done, left, holds'⟩ := recvAll_willing holds first.length []
    (Nat.zero_le _) (by simp [pending])
  refine ⟨fd', ?_, ?_, holds'⟩
  · simpa [pending] using done
  · simpa [pending] using left

/-- What the client's data loop is given to send: the results of `fread` before an empty one. -/
def payload (reads : List (List Byte)) : List Byte := (reads.takeWhile (0 < ·.length)).flatten

theorem payload_cons (buf : List Byte) (reads : List (List Byte)) :
    payload (buf :: reads) = if 0 < buf.length then buf ++ payload reads else [] := by
  rw [payload, List.takeWhile_cons]
  by_cases more : 0 < buf.length <;> simp [more, payload]

theorem payload_blocks (content : List Byte) : payload (blocks BUF content) = content := by
  have all : (blocks BUF content).takeWhile (0 < ·.length) = blocks BUF content := by
    refine List.takeWhile_eq_self_iff.mpr fun b hb => decide_eq_true ?_
    exact List.length_pos_iff.mpr (ne_nil_of_mem_blocks (by decide) hb)
  rw [payload, all, flatten_blocks (by decide)]

private theorem sendData_willing {sfd : Writer Byte} (holds : sfd.Willing)
    (reads : List (List Byte)) :
    ∃ sfd', sendData sfd reads = (.success, sfd') ∧ sfd'.wire = sfd.wire ++ payload reads := by
  induction reads generalizing sfd with
  | nil => exact ⟨sfd, rfl, (List.append_nil _).symm⟩
  | cons buf reads ih =>
    by_cases more : 0 < buf.length
    · obtain ⟨sfd₁, sent, wire, holds₁⟩ :=
        sendAll_willing holds buf (le_refl buf.length) (Nat.zero_le _)
      obtain ⟨sfd₂, done, wire₂⟩ := ih holds₁
      refine ⟨sfd₂, ?_, ?_⟩
      · rw [sendData, if_pos more]
        simp only [sent]
        rw [if_neg (by simp), done]
      · rw [wire₂, wire, payload_cons, if_pos more, List.take_length, List.drop_zero,
          List.append_assoc]
    · refine ⟨sfd, by rw [sendData, if_neg more], ?_⟩
      rw [payload_cons, if_neg more, List.append_nil]

def nameLen (file : List Byte) : ℕ := strlen file % 2 ^ 32

/-- `filesize` of the client: what `ftell` gives, as an unsigned number. -/
def declared (f : Stdio) : ℕ := (f.ftell % 2 ^ 64).toNat

def sent (file : List Byte) (f : Stdio) : List Byte :=
  encode 4 (nameLen file) ++
    (file.take (nameLen file) ++ (encode 8 (declared f) ++ payload f.reads))

theorem nameLen_le (file : List Byte) : nameLen file ≤ file.length :=
  (Nat.mod_le _ _).trans (List.takeWhile_sublist _).length_le

theorem clientMain_willing {sfd : Writer Byte} (holds : sfd.Willing) (file : List Byte)
    (f : Stdio) : ∃ sfd', clientMain file (some f) sfd = (.success, sfd') ∧
      sfd'.wire = sfd.wire ++ sent file f := by
  obtain ⟨w₁, sent₁, wire₁, holds₁⟩ := sendAll_willing holds (encode 4 (nameLen file))
    (t := 0) (show 4 ≤ _ by simp) (by simp)
  obtain ⟨w₂, sent₂, wire₂, holds₂⟩ := sendAll_willing holds₁ file (nameLen_le file)
    (Nat.zero_le _)
  obtain ⟨w₃, sent₃, wire₃, holds₃⟩ := sendAll_willing holds₂ (encode 8 (declared f))
    (t := 0) (show 8 ≤ _ by simp) (by simp)
  obtain ⟨w₄, sent₄, wire₄⟩ := sendData_willing holds₃ f.reads
  refine ⟨w₄, ?_, ?_⟩
  · simp only [nameLen, declared] at sent₁ sent₂ sent₃
    simp only [clientMain, sent₁, sent₂, sent₃]
    simpa using sent₄
  · have four : (encode 4 (nameLen file)).take 4 = encode 4 (nameLen file) :=
      List.take_of_length_le (by simp)
    have eight : (encode 8 (declared f)).take 8 = encode 8 (declared f) :=
      List.take_of_length_le (by simp)
    rw [wire₄, wire₃, wire₂, wire₁]
    simp [sent, four, eight]

/-- The bytes of an upload: name length, name, size and content. -/
def upload (name content : List Byte) : List Byte :=
  encode 4 name.length ++ (name ++ (encode 8 content.length ++ content))

private theorem clientMain_regular {name content : List Byte} {sfd : Writer Byte}
    (holds : sfd.Willing) (nul_free : 0 ∉ name) (short_name : name.length < 2 ^ 32)
    (short : content.length < 2 ^ 63) :
    ∃ sfd', clientMain name (some (.regular content)) sfd = (.success, sfd') ∧
      sfd'.wire = sfd.wire ++ upload name content := by
  have hname : nameLen name = name.length := by
    rw [nameLen, strlen, cstr_of_nul_free nul_free, Nat.mod_eq_of_lt short_name]
  have hsize : declared (.regular content) = content.length := by
    show ((content.length : ℤ) % 2 ^ 64).toNat = content.length
    omega
  have meant : sent name (.regular content) = upload name content := by
    have hreads : payload (Stdio.regular content).reads = content := payload_blocks content
    rw [sent, hname, hsize, hreads, List.take_length, upload]
  rw [← meant]
  exact clientMain_willing holds name (.regular content)

theorem recvData_willing {c : Reader Byte} (holds : c.Willing) (files : Files)
    {f written : List Byte} (hopen : files f = some written) {filesize got : ℕ}
    (enough : filesize - got ≤ c.pending.length) :
    recvData c files f filesize got =
      (.success, files.append f (c.pending.take (filesize - got))) := by
  induction h : filesize - got using Nat.strong_induction_on
    generalizing c files written got with
  | _ n ih =>
    rw [recvData]
    by_cases more : got < filesize
    · rw [if_pos more]
      obtain ⟨want, want_eq⟩ : ∃ want, want = min BUF (filesize - got) := ⟨_, rfl⟩
      have size : BUF = 10240 := rfl
      rw [want_eq_min, ← want_eq]
      obtain ⟨c₁, received, pending, holds₁⟩ :=
        recvAll_willing holds want [] (Nat.zero_le _) (by omega)
      simp only [Nat.sub_zero, List.nil_append] at received pending
      simp only [received]
      rw [if_neg (by omega), Int.toNat_natCast]
      have whole : (c.pending.take want).take want = c.pending.take want := by
        rw [List.take_take, min_self]
      have hopen₁ := append_same hopen (c.pending.take want)
      have enough₁ : filesize - (got + want) ≤ c₁.pending.length := by
        rw [pending, List.length_drop]
        omega
      rw [whole, ih (filesize - (got + want)) (by omega) holds₁ _ hopen₁ enough₁ rfl]
      have split : n = want + (filesize - (got + want)) := by omega
      rw [pending, append_append hopen, ← List.take_add, ← split]
    · rw [if_neg more]
      obtain rfl : n = 0 := by omega
      rw [List.take_zero, append_nil hopen]

private theorem serverMain_upload {name content rest : List Byte} {c : Reader Byte}
    (holds : c.Willing)
    (nul_free : 0 ∉ name) (nonempty : 0 < name.length) (short_name : name.length ≤ 4096)
    (short : content.length < 2 ^ 63) (pending : c.pending = upload name content ++ rest)
    (files : Files) :
    serverMain c files = (.success, Function.update files name (some content)) := by
  have p₀ : c.pending = encode 4 name.length ++
      (name ++ (encode 8 content.length ++ (content ++ rest))) := by
    rw [pending]
    simp [upload]
  obtain ⟨c₁, got₁, p₁, holds₁⟩ := recvAll_append holds p₀
  obtain ⟨c₂, got₂, p₂, holds₂⟩ := recvAll_append holds₁ p₁
  obtain ⟨c₃, got₃, p₃, holds₃⟩ := recvAll_append holds₂ p₂
  rw [length_encode] at got₁ got₃
  have hname : decode (encode 4 name.length) = name.length :=
    decode_encode_of_lt (by omega)
  have hsize : decode (encode 8 content.length) = content.length :=
    decode_encode_of_lt (by omega)
  have accepted : ¬(name.length = 0 ∨ 4096 < name.length) := by omega
  have path : cstr (name ++ [0]) = name := cstr_append_zero nul_free []
  have enough : content.length - 0 ≤ c₃.pending.length := by simp [p₃]
  have data := recvData_willing holds₃ (files.create name) (create_same files name) enough
  have stored : (content ++ rest).take content.length = content := by simp
  rw [p₃, Nat.sub_zero, stored, append_create] at data
  simp only [serverMain, got₁, hname, got₂, got₃, hsize, path]
  rw [if_neg (by decide), if_neg accepted, if_neg (by omega), if_neg (by decide)]
  exact data

/-- An upload arrives: over a connection that does not fail, whatever counts `send` accepts
and however `recv` cuts the stream, client and server both succeed and the server's file of
that name is the client's file, every other file being left alone. -/
theorem upload_round_trip (name content : List Byte) (sends recvs : ℕ → ℤ) (files : Files)
    (nul_free : 0 ∉ name) (nonempty : 1 ≤ name.length) (short_name : name.length ≤ 4096)
    (short : content.length < 2 ^ 63) (sends_pos : ∀ i, 0 < sends i)
    (recvs_pos : ∀ i, 0 < recvs i) :
    ∃ sfd, clientMain name (some (.regular content)) ⟨[], sends⟩ = (.success, sfd) ∧
      ∃ files', serverMain ⟨sfd.wire, 0, recvs, Int.le_refl 0⟩ files = (.success, files') ∧
        files' name = some content ∧ ∀ other, other ≠ name → files' other = files other := by
  have holds : (⟨[], sends⟩ : Writer Byte).Willing := sends_pos
  obtain ⟨sfd, done, wire⟩ := clientMain_regular holds nul_free (by omega) short
  refine ⟨sfd, done, Function.update files name (some content), ?_, by simp, ?_⟩
  · have carried : (⟨sfd.wire, 0, recvs, Int.le_refl 0⟩ : Reader Byte).pending =
        upload name content ++ [] := by simpa using wire
    have holds' : (⟨sfd.wire, 0, recvs, Int.le_refl 0⟩ : Reader Byte).Willing := recvs_pos
    exact serverMain_upload holds' nul_free nonempty short_name short carried files
  · intro other different
    exact Function.update_of_ne different _ _

theorem upload_round_trip_single :
    ∃ sfd, clientMain [102] (some (.regular [104, 105])) ⟨[], fun _ => 1⟩ = (.success, sfd) ∧
      ∃ files', serverMain ⟨sfd.wire, 0, fun _ => 1, Int.le_refl 0⟩ (fun _ => none) =
          (.success, files') ∧
        files' [102] = some [104, 105] ∧
        ∀ other, other ≠ [102] → files' other = (fun _ => none) other :=
  upload_round_trip [102] [104, 105] (fun _ => 1) (fun _ => 1) (fun _ => none) (by decide)
    (by decide) (by decide) (by decide) (fun _ => by decide) (fun _ => by decide)

end SocketChat.TestCode.TcpFT.Upload
