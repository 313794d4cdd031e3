/- SocketChat/TestCode/TcpFT/Model
   digest: The upload client and server of tcpFTclient.c and tcpFTserver.c. -/

import SocketChat.Lib.BigEndian
import SocketChat.Lib.Blocks
import SocketChat.Lib.CString
import SocketChat.Lib.Directory
import SocketChat.Lib.Stream

set_option autoImplicit false
set_option relaxedAutoImplicit false

namespace SocketChat.TestCode.TcpFT.Model

open SocketChat.Lib.BigEndian (encode decode)
open SocketChat.Lib.Blocks (blocks)
open SocketChat.Lib.CString
open SocketChat.Lib.Directory
open SocketChat.Lib.Stream

def BUF : ℕ := 1024 * 10

/-- How a program ends: `return 0` of `main`, or `die` with its message. -/
inductive Exit
  | success
  | died (s : String)
  deriving DecidableEq

/-- `send_all(fd, buf, len)`, entered with `t` bytes already sent. -/
def sendAll (fd : Writer Byte) (buf : List Byte) (len t : ℕ) : ℤ × Writer Byte :=
  if t < len then
    match fd.write ((buf.drop t).take (len - t)) with
    | (s, fd) => if s ≤ 0 then (s, fd) else sendAll fd buf len (t + s.toNat)
  else (t, fd)
termination_by len - t
decreasing_by omega

/-- `recv_all(fd, buf, len)`, entered with `t` bytes already in `buf`. -/
def recvAll (fd : Reader Byte) (len t : ℕ) (buf : List Byte) : ℤ × List Byte × Reader Byte :=
  if t < len then
    match fd.read (len - t) with
    | (r, bytes, fd) =>
        if r ≤ 0 then (r, buf, fd) else recvAll fd len (t + r.toNat) (buf ++ bytes)
  else (t, buf, fd)
termination_by len - t
decreasing_by omega

/-- The chosen file as the client sees it: what `ftell` gives after seeking to the end,
and the successive results of `fread` after `rewind`, the first empty one ending them. -/
structure Stdio where
  ftell : ℤ
  reads : List (List Byte)

/-- A regular file that nobody changes meanwhile. -/
def Stdio.regular (content : List Byte) : Stdio := ⟨content.length, blocks BUF content⟩

/-- The client's loop over `fread(buf,1,sizeof(buf),f)`. -/
def sendData (sfd : Writer Byte) : List (List Byte) → Exit × Writer Byte
  | [] => (.success, sfd)
  | buf :: reads =>
      if 0 < buf.length then
        match sendAll sfd buf buf.length 0 with
        | (sent, sfd) =>
            if sent ≠ buf.length then (.died "send data", sfd) else sendData sfd reads
      else (.success, sfd)

/-- `main` of the client from `fopen` on; `file` is the name given on the command line. -/
def clientMain (file : List Byte) (f : Option Stdio) (sfd : Writer Byte) :
    Exit × Writer Byte :=
  match f with
  | none => (.died "fopen", sfd)
  | some f =>
      let filesize := (f.ftell % 2 ^ 64).toNat
      let name_len := strlen file % 2 ^ 32
      match sendAll sfd (encode 4 name_len) 4 0 with
      | (sent, sfd) =>
      if sent ≠ 4 then (.died "send", sfd) else
      match sendAll sfd file name_len 0 with
      | (sent, sfd) =>
      if sent ≠ name_len then (.died "send name", sfd) else
      match sendAll sfd (encode 8 filesize) 8 0 with
      | (sent, sfd) =>
      if sent ≠ 8 then (.died "send size", sfd) else
      sendData sfd f.reads

/-- The server's loop `while(got < filesize)`. -/
def recvData (c : Reader Byte) (files : Files) (f : List Byte) (filesize got : ℕ) :
    Exit × Files :=
  if got < filesize then
    let want := if BUF < filesize - got then BUF else filesize - got
    match recvAll c want 0 [] with
    | (r, buf, c) =>
        if r ≤ 0 then (.died "recv data", files)
        else recvData c (files.append f (buf.take r.toNat)) f filesize (got + r.toNat)
  else (.success, files)
termination_by filesize - got
decreasing_by omega

theorem want_eq_min (rest : ℕ) : (if BUF < rest then BUF else rest) = min BUF rest := by
  split <;> omega

/-- `main` of the server from `accept` on. -/
def serverMain (c : Reader Byte) (files : Files) : Exit × Files :=
  match recvAll c 4 0 [] with
  | (r, name_len_be, c) =>
  if r ≤ 0 then (.died "recv", files) else
  let name_len := decode name_len_be
  if name_len = 0 ∨ 4096 < name_len then (.died "bad name len", files) else
  match recvAll c name_len 0 [] with
  | (r, name, c) =>
  if r ≤ 0 then (.died "recv name", files) else
  let name := cstr (name ++ [0])
  match recvAll c 8 0 [] with
  | (r, fs_be, c) =>
  if r ≤ 0 then (.died "recv size", files) else
  recvData c (files.create name) name (decode fs_be) 0

end SocketChat.TestCode.TcpFT.Model
