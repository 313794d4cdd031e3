/- SocketChat/Lib/Download
   digest: A stream stored in a file, read by read, up to its end. -/

import SocketChat.Lib.Directory
import SocketChat.Lib.Stream
import Mathlib.Algebra.Order.Group.Nat

set_option autoImplicit false
set_option relaxedAutoImplicit false

namespace SocketChat.Lib.Download

open SocketChat.Lib.Directory
open SocketChat.Lib.Stream

/-- Reads of at most `size` bytes, each stored at the end of the open file, until one stores
none: its result, and the files. -/
def download (size : ℕ) (sock : Reader UInt8) (files : Files) (name : List UInt8) : ℤ × Files :=
  if 0 < (sock.read size).1 then
    download size (sock.read size).2.2
      (files.append name ((sock.read size).2.1.take (sock.read size).1.toNat)) name
  else ((sock.read size).1, files)
termination_by sock.pending.length
decreasing_by
  rename_i stored
  exact Reader.length_pending_read_lt sock (Reader.pos_of_read_pos stored) stored

private theorem download_of_willing {size : ℕ} (pos : 0 < size) {sock : Reader UInt8}
    (holds : sock.Willing) {files : Files} {name written : List UInt8}
    (hopen : files name = some written) :
    download size sock files name = (sock.atEnd, files.append name sock.pending) := by
  induction h : sock.pending.length using Nat.strong_induction_on
    generalizing sock files written with
  | _ n ih =>
    rw [download]
    by_cases more : sock.pending = []
    · have last := Reader.read_of_nil holds size more
      rw [last, if_neg (not_lt.mpr sock.atEnd_nonpos), more, append_nil hopen]
    · obtain ⟨k, sock₁, hread, stored, _, hle, _, pending, atEnd, holds₁, _⟩ :=
        Reader.read_of_willing holds size pos more
      have whole : (sock.pending.take k).take k = sock.pending.take k := by
        rw [List.take_take, min_self]
      have hopen₁ := append_same hopen (sock.pending.take k)
      have shorter : sock₁.pending.length < n := by
        rw [pending, List.length_drop]
        omega
      rw [hread]
      dsimp only
      rw [if_pos (by omega), Int.toNat_natCast, whole, ih _ shorter holds₁ hopen₁ rfl, atEnd,
        pending, append_append hopen, List.take_append_drop]

theorem download_create {size : ℕ} (pos : 0 < size) {sock : Reader UInt8}
    (holds : sock.Willing) (files : Files) (name : List UInt8) :
    download size sock (files.create name) name =
      (sock.atEnd, Function.update files name (some sock.pending)) := by
  rw [download_of_willing pos holds (create_same files name), append_create]

end SocketChat.Lib.Download
