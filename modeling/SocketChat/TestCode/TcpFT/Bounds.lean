/- SocketChat/TestCode/TcpFT/Bounds
   digest: What the server stores into its arrays stays inside them, whatever it is sent. -/

import SocketChat.TestCode.TcpFT.Model

set_option autoImplicit false
set_option relaxedAutoImplicit false

namespace SocketChat.TestCode.TcpFT.Bounds

open SocketChat.Lib.BigEndian
open SocketChat.Lib.CString
open SocketChat.Lib.Directory
open SocketChat.Lib.Stream
open SocketChat.TestCode.TcpFT.Model

/-- `count` bytes stored from `offset` on into an array of `size` bytes, or the value of `got`
as the data loop's condition finds it. -/
inductive Event
  | store (size offset count : ℕ)
  | got (value filesize : ℕ)
deriving DecidableEq

def Event.Safe : Event → Prop
  | store size offset count => offset + count ≤ size
  | got value filesize => value ≤ filesize ∧ filesize < 2 ^ 64

/-- `recv_all` into an array of `size` bytes, with the stores it makes. -/
def recvAllLogged (size : ℕ) (fd : Reader Byte) (len t : ℕ) (buf : List Byte) :
    (ℤ × List Byte × Reader Byte) × List Event :=
  if t < len then
    match fd.read (len - t) with
    | (r, bytes, fd) =>
        if r ≤ 0 then ((r, buf, fd), []) else
        let rest := recvAllLogged size fd len (t + r.toNat) (buf ++ bytes)
        (rest.1, .store size t r.toNat :: rest.2)
  else ((t, buf, fd), [])
termination_by len - t
decreasing_by omega

def recvDataLogged (c : Reader Byte) (files : Files) (f : List Byte) (filesize got : ℕ) :
    (Exit × Files) × List Event :=
  if got < filesize then
    let want := if BUF < filesize - got then BUF else filesize - got
    match recvAllLogged BUF c want 0 [] with
    | ((r, buf, c), stores) =>
        if r ≤ 0 then ((.died "recv data", files), .got got filesize :: stores) else
        let rest := recvDataLogged c (files.append f (buf.take r.toNat)) f filesize
          (got + r.toNat)
        (rest.1, .got got filesize :: (stores ++ rest.2))
  else ((.success, files), [.got got filesize])
termination_by filesize - got
decreasing_by omega

def serverMainLogged (c : Reader Byte) (files : Files) : (Exit × Files) × List Event :=
  match recvAllLogged 4 c 4 0 [] with
  | ((r, name_len_be, c), first) =>
  if r ≤ 0 then ((.died "recv", files), first) else
  let name_len := decode name_len_be
  if name_len = 0 ∨ 4096 < name_len then ((.died "bad name len", files), first) else
  match recvAllLogged (name_len + 1) c name_len 0 [] with
  | ((r, name, c), second) =>
  if r ≤ 0 then ((.died "recv name", files), first ++ second) else
  let terminator := Event.store (name_len + 1) name_len 1
  let name := cstr (name ++ [0])
  match recvAllLogged 8 c 8 0 [] with
  | ((r, fs_be, c), third) =>
  if r ≤ 0 then ((.died "recv size", files), first ++ second ++ terminator :: third) else
  let data := recvDataLogged c (files.create name) name (decode fs_be) 0
  (data.1, first ++ second ++ terminator :: third ++ data.2)

section Erasure

private theorem recvAllLogged_fst (size : ℕ) (fd : Reader Byte) (len t : ℕ) (buf : List Byte) :
    (recvAllLogged size fd len t buf).1 = recvAll fd len t buf := by
  fun_induction recvAllLogged size fd len t buf with
  | case1 fd t buf more r bytes fd' hread failed =>
    rw [recvAll, if_pos more, hread]
    exact (if_pos failed).symm
  | case2 fd t buf more r bytes fd' hread stored rest ih =>
    rw [recvAll, if_pos more, hread]
    exact ih.trans (if_neg stored).symm
  | case3 fd t buf done => rw [recvAll, if_neg done]

private theorem recvAll_of_logged {size len t : ℕ} {fd : Reader Byte} {buf : List Byte}
    {out : ℤ × List Byte × Reader Byte} {events : List Event}
    (logged : recvAllLogged size fd len t buf = (out, events)) : recvAll fd len t buf = out := by
  rw [← recvAllLogged_fst size, logged]

private theorem recvDataLogged_fst (c : Reader Byte) (files : Files) (f : List Byte)
    (filesize got : ℕ) :
    (recvDataLogged c files f filesize got).1 = recvData c files f filesize got := by
  fun_induction recvDataLogged c files f filesize got with
  | case1 c files got more want r buf c' stores logged failed =>
    have received : recvAll c (if BUF < filesize - got then BUF else filesize - got) 0 [] =
        (r, buf, c') := recvAll_of_logged logged
    rw [recvData, if_pos more]
    simp only [received]
    exact (if_pos failed).symm
  | case2 c files got more want r buf c' stores logged stored rest ih =>
    have received : recvAll c (if BUF < filesize - got then BUF else filesize - got) 0 [] =
        (r, buf, c') := recvAll_of_logged logged
    rw [recvData, if_pos more]
    simp only [received]
    exact ih.trans (if_neg stored).symm
  | case3 c files got done => rw [recvData, if_neg done]

theorem serverMainLogged_fst (c : Reader Byte) (files : Files) :
    (serverMainLogged c files).1 = serverMain c files := by
  unfold serverMainLogged serverMain
  rcases first : recvAllLogged 4 c 4 0 [] with ⟨⟨r, name_len_be, c₁⟩, stores⟩
  simp only [recvAll_of_logged first]
  split
  · rfl
  · split
    · rfl
    · rcases second : recvAllLogged (decode name_len_be + 1) c₁ (decode name_len_be) 0 [] with
        ⟨⟨r, name, c₂⟩, stores⟩
      simp only [recvAll_of_logged second]
      split
      · rfl
      · rcases third : recvAllLogged 8 c₂ 8 0 [] with ⟨⟨r, fs_be, c₃⟩, stores⟩
        simp only [recvAll_of_logged third]
        split
        · rfl
        · exact recvDataLogged_fst _ _ _ _ _

end Erasure

section Safety

private theorem safe_recvAllLogged {size len : ℕ} (room : len ≤ size) (fd : Reader Byte) (t : ℕ)
    (buf : List Byte) : ∀ e ∈ (recvAllLogged size fd len t buf).2, e.Safe := by
  fun_induction recvAllLogged size fd len t buf with
  | case1 fd t buf more r bytes fd' hread failed => simp
  | case2 fd t buf more r bytes fd' hread stored rest ih =>
    intro e he
    rcases List.mem_cons.mp he with rfl | later
    · have bound := Reader.read_le fd (len - t)
      rw [hread] at bound
      show t + r.toNat ≤ size
      omega
    · exact ih e later
  | case3 fd t buf done => simp

private theorem recvAll_le (fd : Reader Byte) {len t : ℕ} (ht : t ≤ len) (buf : List Byte) :
    (recvAll fd len t buf).1 ≤ len := by
  fun_induction recvAll fd len t buf with
  | case1 fd t buf more r bytes fd' hread failed => exact le_trans failed (Int.natCast_nonneg len)
  | case2 fd t buf more r bytes fd' hread stored ih =>
    have bound := Reader.read_le fd (len - t)
    rw [hread] at bound
    exact ih (by omega)
  | case3 fd t buf done =>
    show (t : ℤ) ≤ len
    omega

private theorem safe_of_logged {want filesize got : ℕ} {c : Reader Byte}
    {out : ℤ × List Byte × Reader Byte} {stores : List Event}
    (asked : want = if BUF < filesize - got then BUF else filesize - got)
    (logged : recvAllLogged BUF c want 0 [] = (out, stores)) : ∀ e ∈ stores, e.Safe := by
  have room : want ≤ BUF := by
    rw [asked, want_eq_min]
    exact Nat.min_le_left BUF _
  have safe := safe_recvAllLogged room c 0 []
  rw [logged] at safe
  exact safe

private theorem safe_recvDataLogged {filesize : ℕ} (wide : filesize < 2 ^ 64) (c : Reader Byte)
    (files : Files) (f : List Byte) {got : ℕ} (within : got ≤ filesize) :
    ∀ e ∈ (recvDataLogged c files f filesize got).2, e.Safe := by
  fun_induction recvDataLogged c files f filesize got with
  | case1 c files got more want r buf c' stores logged failed =>
    intro e he
    rcases List.mem_cons.mp he with rfl | store
    · exact ⟨within, wide⟩
    · exact safe_of_logged rfl logged e store
  | case2 c files got more want r buf c' stores logged stored rest ih =>
    have bound := recvAll_le c (Nat.zero_le want) []
    rw [recvAll_of_logged logged] at bound
    have asked : want = min BUF (filesize - got) := want_eq_min _
    intro e he
    rcases List.mem_cons.mp he with rfl | later
    · exact ⟨within, wide⟩
    · rcases List.mem_append.mp later with store | later
      · exact safe_of_logged rfl logged e store
      · refine ih ?_ e later
        dsimp only at bound
        omega
  | case3 c files got done =>
    intro e he
    rw [List.mem_singleton.mp he]
    exact ⟨within, wide⟩

private theorem length_recvAll_le (fd : Reader Byte) {len t : ℕ} (ht : t ≤ len) {buf : List Byte}
    (stored : buf.length = t) : (recvAll fd len t buf).2.1.length ≤ len := by
  fun_induction recvAll fd len t buf with
  | case1 fd t buf more r bytes fd' hread failed =>
    show buf.length ≤ len
    omega
  | case2 fd t buf more r bytes fd' hread some_read ih =>
    have bound := Reader.read_le fd (len - t)
    have reported := Reader.length_read fd (len - t)
    rw [hread] at bound reported
    refine ih (by omega) ?_
    rw [List.length_append, stored, reported]
  | case3 fd t buf done =>
    show buf.length ≤ len
    omega

theorem decode_lt_two_pow {bytes : List Byte} (eight : bytes.length ≤ 8) :
    decode bytes < 2 ^ 64 := by
  have power : 256 ^ bytes.length ≤ 256 ^ 8 := Nat.pow_le_pow_right (by decide) eight
  exact lt_of_lt_of_le (decode_lt bytes) power

/-- Whatever the server is sent and however it is cut, every store into its arrays is in
bounds, and `got` neither passes the announced size nor overflows. -/
theorem safe_serverMainLogged (c : Reader Byte) (files : Files) :
    ∀ e ∈ (serverMainLogged c files).2, e.Safe := by
  unfold serverMainLogged
  rcases first : recvAllLogged 4 c 4 0 [] with ⟨⟨r, name_len_be, c₁⟩, stores₁⟩
  have safe₁ := safe_recvAllLogged (Nat.le_refl 4) c 0 []
  rw [first] at safe₁
  dsimp only at safe₁ ⊢
  split
  · exact safe₁
  · split
    · exact safe₁
    · rcases second : recvAllLogged (decode name_len_be + 1) c₁ (decode name_len_be) 0 [] with
        ⟨⟨r, name, c₂⟩, stores₂⟩
      have safe₂ := safe_recvAllLogged (Nat.le_succ (decode name_len_be)) c₁ 0 []
      rw [second] at safe₂
      have both : ∀ e ∈ stores₁ ++ stores₂, e.Safe := by
        intro e he
        rcases List.mem_append.mp he with he | he
        · exact safe₁ e he
        · exact safe₂ e he
      dsimp only
      split
      · exact both
      · rcases third : recvAllLogged 8 c₂ 8 0 [] with ⟨⟨r, fs_be, c₃⟩, stores₃⟩
        have safe₃ := safe_recvAllLogged (Nat.le_refl 8) c₂ 0 []
        rw [third] at safe₃
        have eight := length_recvAll_le c₂ (Nat.zero_le 8) List.length_nil
        rw [recvAll_of_logged third] at eight
        have upto : ∀ e ∈ stores₁ ++ stores₂ ++
            Event.store (decode name_len_be + 1) (decode name_len_be) 1 :: stores₃, e.Safe := by
          intro e he
          rcases List.mem_append.mp he with he | he
          · exact both e he
          · rcases List.mem_cons.mp he with rfl | he
            · exact Nat.le_refl (decode name_len_be + 1)
            · exact safe₃ e he
        dsimp only
        split
        · exact upto
        · intro e he
          rcases List.mem_append.mp he with he | he
          · exact upto e he
          · exact safe_recvDataLogged (decode_lt_two_pow eight) _ _ _ (Nat.zero_le _) e he

end Safety

end SocketChat.TestCode.TcpFT.Bounds
