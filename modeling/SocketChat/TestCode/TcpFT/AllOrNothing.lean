/- SocketChat/TestCode/TcpFT/AllOrNothing
   digest: recv_all and send_all move all they are asked for, or return what stopped them. -/

import SocketChat.Lib.Transfer
import SocketChat.TestCode.TcpFT.Model

set_option autoImplicit false
set_option relaxedAutoImplicit false

namespace SocketChat.TestCode.TcpFT.AllOrNothing

open SocketChat.Lib.CString
open SocketChat.Lib.Stream
open SocketChat.Lib.Transfer
open SocketChat.TestCode.TcpFT.Model

/-- An array of the program. Its bytes can be counted in a `ptrdiff_t`, as those of any object. -/
structure Object where
  bytes : List Byte
  small : bytes.length < 2 ^ 63

/-- `recv(fd, (char*)buf + t, len - t, 0)`. -/
def recv : Mover (List Byte × Reader Byte) where
  call s t asked :=
    match s.2.read asked with
    | (r, bytes, fd) => (r, storeAt s.1 t bytes, fd)
  bounded s _ asked := Reader.read_le s.2 asked

/-- `send(fd, (const char*)buf + t, len - t, 0)`. -/
def send (buf : List Byte) : Mover (Writer Byte) where
  call fd t asked := fd.write ((buf.drop t).take asked)
  bounded fd t asked := by
    have taken := Writer.write_le fd ((buf.drop t).take asked)
    have length := List.length_take_le asked (buf.drop t)
    omega

/-- `recv_all(fd, buf, len)` with its counter in a `size_t` and the calls that it makes. -/
def recvAllCalls (fd : Reader Byte) (buf : List Byte) (len : UInt64) :
    (ℤ × List Byte × Reader Byte) × List Call := moveAll recv len 0 (buf, fd)

def sendAllCalls (fd : Writer Byte) (buf : List Byte) (len : UInt64) :
    (ℤ × Writer Byte) × List Call := moveAll (send buf) len 0 fd

section Machine

variable {buf : List Byte} {len : UInt64}

private theorem recv_call (buf front : List Byte) {fd fd' : Reader Byte} {bytes : List Byte}
    {want : ℕ} {r : ℤ} (hread : fd.read want = (r, bytes, fd')) :
    recv.call (overwrite buf front, fd) front.length want =
      (r, overwrite buf (front ++ bytes), fd') := by
  change (match fd.read want with
    | (r, bytes, fd) => (r, storeAt (overwrite buf front) front.length bytes, fd)) = _
  rw [hread]
  exact congrArg (fun stored => (r, stored, fd')) (storeAt_overwrite buf front bytes)

/-- As long as the result fits an `ssize_t`, the counter of the machine makes no difference. -/
theorem moveAll_recv (small : len.toNat < 2 ^ 63) (buf : List Byte) {t : UInt64}
    {s : List Byte × Reader Byte} {front : List Byte} {fd : Reader Byte} (within : t ≤ len)
    (here : s = (overwrite buf front, fd)) (stored : front.length = t.toNat) :
    (moveAll recv len t s).1 = ((recvAll fd len.toNat t.toNat front).1,
      overwrite buf (recvAll fd len.toNat t.toNat front).2.1,
      (recvAll fd len.toNat t.toNat front).2.2) := by
  fun_induction moveAll recv len t s generalizing front fd with
  | case1 t s more r s' =>
    rename_i call stopped
    subst here
    rcases hread : fd.read (len.toNat - t.toNat) with ⟨k, bytes, fd'⟩
    have called := recv_call buf front hread
    rw [stored, ← toNat_left more] at called
    have nothing := Reader.length_read fd (len.toNat - t.toNat)
    rw [hread] at nothing
    have same : r = k := congrArg Prod.fst called
    obtain rfl : bytes = [] := by
      rw [same] at stopped
      exact List.eq_nil_of_length_eq_zero (nothing.trans (Int.toNat_of_nonpos stopped))
    rw [List.append_nil] at called
    rw [recvAll, if_pos (UInt64.lt_iff_toNat_lt.mp more), hread]
    dsimp only
    rw [if_pos (same ▸ stopped)]
    exact called
  | case2 t s more r s' call moving =>
    rename_i rest ih
    subst here
    rcases hread : fd.read (len.toNat - t.toNat) with ⟨k, bytes, fd'⟩
    have called := recv_call buf front hread
    rw [stored, ← toNat_left more] at called
    have length := Reader.length_read fd (len.toNat - t.toNat)
    have bound := Reader.read_le fd (len.toNat - t.toNat)
    rw [hread] at length bound
    have same : r = k := congrArg Prod.fst called
    have next : s' = (overwrite buf (front ++ bytes), fd') := congrArg Prod.snd called
    have moved : (t + UInt64.ofNat r.toNat).toNat = t.toNat + k.toNat := by
      rw [same]
      exact toNat_moved more (by rwa [toNat_left more])
    have further : t + UInt64.ofNat r.toNat ≤ len := by
      have below := UInt64.lt_iff_toNat_lt.mp more
      rw [UInt64.le_iff_toNat_le, moved]
      dsimp only at bound
      omega
    have counted : (front ++ bytes).length = (t + UInt64.ofNat r.toNat).toNat := by
      rw [List.length_append, stored, length, moved]
    rw [recvAll, if_pos (UInt64.lt_iff_toNat_lt.mp more), hread]
    dsimp only
    rw [if_neg (same ▸ moving), ← moved]
    exact ih further next counted
  | case3 t s done =>
    subst here
    obtain rfl : t = len := UInt64.le_antisymm within (UInt64.not_lt.mp done)
    rw [recvAll, if_neg (Nat.lt_irrefl _), toInt_of_small small]

private theorem recvAllCalls_fst (small : len.toNat < 2 ^ 63) (fd : Reader Byte) (buf : List Byte) :
    (recvAllCalls fd buf len).1 = ((recvAll fd len.toNat 0 []).1,
      overwrite buf (recvAll fd len.toNat 0 []).2.1, (recvAll fd len.toNat 0 []).2.2) :=
  moveAll_recv small buf (UInt64.zero_le) rfl rfl

private theorem moveAll_send (small : len.toNat < 2 ^ 63) (buf : List Byte) {t : UInt64}
    {fd : Writer Byte} (within : t ≤ len) :
    (moveAll (send buf) len t fd).1 = sendAll fd buf len.toNat t.toNat := by
  fun_induction moveAll (send buf) len t fd with
  | case1 t fd more r fd' call stopped =>
    have called : (send buf).call fd t.toNat (len - t).toNat =
        fd.write ((buf.drop t.toNat).take (len.toNat - t.toNat)) := by
      rw [← toNat_left more]
      rfl
    rw [sendAll, if_pos (UInt64.lt_iff_toNat_lt.mp more), ← called]
    exact (if_pos stopped).symm
  | case2 t fd more r fd' call moving rest ih =>
    have called : (send buf).call fd t.toNat (len - t).toNat =
        fd.write ((buf.drop t.toNat).take (len.toNat - t.toNat)) := by
      rw [← toNat_left more]
      rfl
    have bound : r ≤ (len - t).toNat := (send buf).bounded fd t.toNat (len - t).toNat
    have moved := toNat_moved more bound
    have further : t + UInt64.ofNat r.toNat ≤ len := by
      have below := UInt64.lt_iff_toNat_lt.mp more
      have left := toNat_left more
      rw [UInt64.le_iff_toNat_le, moved]
      omega
    rw [sendAll, if_pos (UInt64.lt_iff_toNat_lt.mp more), ← called]
    refine (ih further).trans ?_
    rw [moved]
    exact (if_neg moving).symm
  | case3 t fd done =>
    obtain rfl : t = len := UInt64.le_antisymm within (UInt64.not_lt.mp done)
    rw [sendAll, if_neg (Nat.lt_irrefl _), toInt_of_small small]

private theorem sendAllCalls_fst (small : len.toNat < 2 ^ 63) (fd : Writer Byte) (buf : List Byte) :
    (sendAllCalls fd buf len).1 = sendAll fd buf len.toNat 0 :=
  moveAll_send small buf (UInt64.zero_le)

end Machine

section Exact

variable {len : UInt64}

private theorem recvAll_append_pending (fd : Reader Byte) (len t : ℕ) (buf : List Byte) :
    (recvAll fd len t buf).2.1 ++ (recvAll fd len t buf).2.2.pending = buf ++ fd.pending := by
  fun_induction recvAll fd len t buf with
  | case1 fd t buf more r bytes fd' hread stopped =>
    have split := Reader.read_append fd (len - t)
    have nothing := Reader.length_read fd (len - t)
    rw [hread] at split nothing
    obtain rfl : bytes = [] :=
      List.eq_nil_of_length_eq_zero (nothing.trans (Int.toNat_of_nonpos stopped))
    exact congrArg (buf ++ ·) split
  | case2 fd t buf more r bytes fd' hread moving ih =>
    have split := Reader.read_append fd (len - t)
    rw [hread] at split
    rw [ih, List.append_assoc]
    exact congrArg (buf ++ ·) split
  | case3 => rfl

private theorem recv_after {fd : Reader Byte} {t : ℕ} (there : t ≤ fd.pending.length)
    (buf : List Byte) (n want : ℕ) :
    t + (recv.call (overwrite buf (fd.pending.take t), fd.after n t) t want).1.toNat ≤
        fd.pending.length ∧
      (recv.call (overwrite buf (fd.pending.take t), fd.after n t) t want).2 =
        (overwrite buf (fd.pending.take
            (t + (recv.call (overwrite buf (fd.pending.take t), fd.after n t) t want).1.toNat)),
          fd.after (n + 1)
            (t +
              (recv.call (overwrite buf (fd.pending.take t), fd.after n t) t want).1.toNat)) := by
  have front : (fd.pending.take t).length = t := List.length_take_of_le there
  have split := Reader.read_append (fd.after n t) want
  have length := Reader.length_read (fd.after n t) want
  have next := Reader.after_read fd n t want
  rcases hread : (fd.after n t).read want with ⟨r, bytes, fd'⟩
  have called := recv_call buf (fd.pending.take t) hread
  rw [front] at called
  rw [called]
  rw [hread] at split length next
  change bytes ++ fd'.pending = fd.pending.drop t at split
  have taken : bytes = (fd.pending.drop t).take r.toNat := by
    rw [← split, ← length, List.take_left]
  have bound : bytes.length ≤ fd.pending.length - t := by
    rw [← List.length_drop, ← split, List.length_append]
    exact Nat.le_add_right _ _
  constructor
  · dsimp only at length ⊢
    omega
  · rw [List.take_add, ← taken]
    exact congrArg (Prod.mk _) next

private theorem recvAll_exact (small : len.toNat < 2 ^ 63) (fd : Reader Byte) (buf : List Byte) :
    ∃ moved r calls, moved ≤ fd.pending.length ∧
      recvAll fd len.toNat 0 [] = (r, fd.pending.take moved, fd.after calls.length moved) ∧
      recvAllCalls fd buf len =
        ((r, overwrite buf (fd.pending.take moved), fd.after calls.length moved), calls) ∧
      (∀ k c, calls[k]? = some c → c.result = ((fd.after k c.offset).read c.asked).1) ∧
      AllOrNothing len.toNat 0 moved r calls := by
  let I (n t : ℕ) (s : List Byte × Reader Byte) : Prop :=
    t ≤ fd.pending.length ∧ s = (overwrite buf (fd.pending.take t), fd.after n t)
  have keep : ∀ n t s, I n t s → t < len.toNat →
      I (n + 1) (t + (recv.call s t (len.toNat - t)).1.toNat)
        (recv.call s t (len.toNat - t)).2 := by
    rintro n t _ ⟨there, rfl⟩ _
    exact recv_after there buf n (len.toNat - t)
  have start : I 0 0 (buf, fd) := ⟨Nat.zero_le _, rfl⟩
  obtain ⟨moved, ⟨there, last⟩, answers, outcome⟩ :=
    moveAll_spec small keep (t := 0) start UInt64.zero_le
  rw [Nat.zero_add] at last
  have machine := recvAllCalls_fst small fd buf
  have split := recvAll_append_pending fd len.toNat 0 []
  generalize whole : recvAll fd len.toNat 0 [] = out at machine split
  obtain ⟨r, received, fd'⟩ := out
  change (moveAll recv len 0 (buf, fd)).1 = (r, overwrite buf received, fd') at machine
  change (moveAll recv len 0 (buf, fd)).1.2 = _ at last
  rw [machine] at last outcome
  obtain ⟨stored, rfl⟩ := Prod.mk.inj last
  have front : received = fd.pending.take moved := by
    rw [← List.append_left_inj (fd.pending.drop moved), List.take_append_drop]
    exact split
  rw [front] at machine
  refine ⟨moved, r, _, there, by rw [front], Prod.ext machine rfl, ?_, outcome⟩
  intro k c entry
  obtain ⟨_, ⟨_, rfl⟩, result⟩ := answers k c entry
  rw [Nat.zero_add] at result
  exact result

private theorem send_after {buf : List Byte} {t : ℕ} (there : t ≤ buf.length) (fd : Writer Byte)
    (n want : ℕ) :
    t + ((send buf).call (fd.after n (buf.take t)) t want).1.toNat ≤ buf.length ∧
      ((send buf).call (fd.after n (buf.take t)) t want).2 = fd.after (n + 1)
        (buf.take (t + ((send buf).call (fd.after n (buf.take t)) t want).1.toNat)) := by
  have next := Writer.after_write fd n (buf.take t) ((buf.drop t).take want)
  have bound := Writer.write_le (fd.after n (buf.take t)) ((buf.drop t).take want)
  rw [List.length_take, List.length_drop] at bound
  change t + ((fd.after n (buf.take t)).write ((buf.drop t).take want)).1.toNat ≤ _ ∧
    ((fd.after n (buf.take t)).write ((buf.drop t).take want)).2 = fd.after (n + 1) (buf.take
      (t + ((fd.after n (buf.take t)).write ((buf.drop t).take want)).1.toNat))
  refine ⟨by omega, ?_⟩
  rw [next, List.take_take, Nat.min_eq_left (by omega), ← List.take_add]

private theorem sendAll_exact (small : len.toNat < 2 ^ 63) (fd : Writer Byte) (buf : List Byte) :
    ∃ moved r calls,
      sendAll fd buf len.toNat 0 = (r, fd.after calls.length (buf.take moved)) ∧
      sendAllCalls fd buf len = ((r, fd.after calls.length (buf.take moved)), calls) ∧
      (∀ k c, calls[k]? = some c → c.result =
        ((fd.after k (buf.take c.offset)).write ((buf.drop c.offset).take c.asked)).1) ∧
      AllOrNothing len.toNat 0 moved r calls := by
  let I (n t : ℕ) (s : Writer Byte) : Prop := t ≤ buf.length ∧ s = fd.after n (buf.take t)
  have keep : ∀ n t s, I n t s → t < len.toNat →
      I (n + 1) (t + ((send buf).call s t (len.toNat - t)).1.toNat)
        ((send buf).call s t (len.toNat - t)).2 := by
    rintro n t _ ⟨there, rfl⟩ _
    exact send_after there fd n (len.toNat - t)
  have untouched : fd = fd.after 0 [] := by
    rw [Writer.after, List.append_nil]
    rfl
  have start : I 0 0 fd := ⟨Nat.zero_le _, untouched⟩
  obtain ⟨moved, ⟨_, last⟩, answers, outcome⟩ :=
    moveAll_spec small keep (t := 0) start UInt64.zero_le
  rw [Nat.zero_add] at last
  have machine : (moveAll (send buf) len 0 fd).1 =
      ((moveAll (send buf) len 0 fd).1.1, fd.after (moveAll (send buf) len 0 fd).2.length
        (buf.take moved)) := Prod.ext rfl last
  refine ⟨moved, _, _, ?_, Prod.ext machine rfl, ?_, outcome⟩
  · exact (sendAllCalls_fst small fd buf).symm.trans machine
  · intro k c entry
    obtain ⟨_, ⟨_, rfl⟩, result⟩ := answers k c entry
    rw [Nat.zero_add] at result
    exact result

/-- Whatever `recv` and `send` answer, call by call, `recv_all` and `send_all` move all of what is
asked for or return the first answer that is not above zero: the front of the stream to the front of
the array, or the front of the array to the wire, and no more. -/
theorem all_or_nothing (buf : Object) (room : len.toNat ≤ buf.bytes.length) :
    (∀ fd : Reader Byte, ∃ moved r calls, moved ≤ fd.pending.length ∧
      recvAll fd len.toNat 0 [] = (r, fd.pending.take moved, fd.after calls.length moved) ∧
      recvAllCalls fd buf.bytes len =
        ((r, overwrite buf.bytes (fd.pending.take moved), fd.after calls.length moved), calls) ∧
      (∀ k c, calls[k]? = some c → c.result = ((fd.after k c.offset).read c.asked).1) ∧
      AllOrNothing len.toNat 0 moved r calls) ∧
    ∀ fd : Writer Byte, ∃ moved r calls,
      sendAll fd buf.bytes len.toNat 0 = (r, fd.after calls.length (buf.bytes.take moved)) ∧
      sendAllCalls fd buf.bytes len =
        ((r, fd.after calls.length (buf.bytes.take moved)), calls) ∧
      (∀ k c, calls[k]? = some c → c.result =
        ((fd.after k (buf.bytes.take c.offset)).write
          ((buf.bytes.drop c.offset).take c.asked)).1) ∧
      AllOrNothing len.toNat 0 moved r calls := by
  have small : len.toNat < 2 ^ 63 := Nat.lt_of_le_of_lt room buf.small
  constructor
  · intro fd
    exact recvAll_exact small fd buf.bytes
  · intro fd
    exact sendAll_exact small fd buf.bytes

def threeBytes : Object := ⟨lit ['x', 'y', 'z'], by decide⟩

def fourToCome : Reader Byte := .closed (lit ['a', 'b', 'c', 'd']) fun _ => 2

/-- Two bytes are taken, and then the connection is gone. -/
def twoTaken : Writer Byte := ⟨[], fun i => if i = 0 then 2 else -1⟩

theorem three_received_two_sent : (recvAll fourToCome 3 0 []).1 = 3 ∧
    (sendAll twoTaken threeBytes.bytes 3 0).1 = -1 ∧
    (∃ moved r calls, moved ≤ fourToCome.pending.length ∧
      recvAll fourToCome 3 0 [] =
        (r, fourToCome.pending.take moved, fourToCome.after calls.length moved) ∧
      recvAllCalls fourToCome threeBytes.bytes 3 =
        ((r, overwrite threeBytes.bytes (fourToCome.pending.take moved),
          fourToCome.after calls.length moved), calls) ∧
      (∀ k c, calls[k]? = some c → c.result = ((fourToCome.after k c.offset).read c.asked).1) ∧
      AllOrNothing 3 0 moved r calls) ∧
    ∃ moved r calls,
      sendAll twoTaken threeBytes.bytes 3 0 =
        (r, twoTaken.after calls.length (threeBytes.bytes.take moved)) ∧
      sendAllCalls twoTaken threeBytes.bytes 3 =
        ((r, twoTaken.after calls.length (threeBytes.bytes.take moved)), calls) ∧
      (∀ k c, calls[k]? = some c → c.result =
        ((twoTaken.after k (threeBytes.bytes.take c.offset)).write
          ((threeBytes.bytes.drop c.offset).take c.asked)).1) ∧
      AllOrNothing 3 0 moved r calls := by
  obtain ⟨received, sent⟩ := @all_or_nothing 3 threeBytes (by decide)
  exact ⟨by decide +kernel, by decide +kernel, received fourToCome, sent twoTaken⟩

end Exact

end SocketChat.TestCode.TcpFT.AllOrNothing
