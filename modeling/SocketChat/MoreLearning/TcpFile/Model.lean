/- SocketChat/MoreLearning/TcpFile/Model
   digest: The file transfer of TCP_FILE_SERVER.c and TCP_FILE_CLIENT.c. -/

import SocketChat.Lib.Blocks
import SocketChat.Lib.CString
import SocketChat.Lib.Download

set_option autoImplicit false
set_option relaxedAutoImplicit false

namespace SocketChat.MoreLearning.TcpFile.Model

open SocketChat.Lib.Blocks (blocks)
open SocketChat.Lib.CString
open SocketChat.Lib.Directory
open SocketChat.Lib.Download
open SocketChat.Lib.Stream

def BUFFER : ℕ := 256

def FILE_TO_SEND : List Byte := lit
  ['f', 'i', 'l', 'e', '_', 't', 'o', '_', 's', 'e', 'n', 'd', '.', 't', 'x', 't']

def RECEIVED_FILE : List Byte := lit
  ['r', 'e', 'c', 'e', 'i', 'v', 'e', 'd', '_', 'f', 'i', 'l', 'e', '.', 't', 'x', 't']

/-- `while ((n = fread(buffer, 1, sizeof(buffer), fp)) > 0) send(client_fd, buffer, n, 0);` over
the content of the file. Nobody looks at the result of `send`. -/
def sendLoop (client_fd : Writer Byte) (fp : List Byte) : Writer Byte :=
  client_fd.pour (blocks BUFFER fp)

/-- `main` of the server from `fopen` on. The result of `fopen` goes unchecked, and reading from
a null stream is undefined. -/
def serverMain (files : Files) (client_fd : Writer Byte) : Option (Writer Byte) :=
  (files FILE_TO_SEND).map fun fp => sendLoop client_fd fp

/-- `while ((bytes_received = recv(sockfd, buffer, sizeof(buffer), 0)) > 0)` with `fwrite`. -/
def recvLoop (sockfd : Reader Byte) (files : Files) (fp : List Byte) : ℤ × Files :=
  download BUFFER sockfd files fp

/-- `main` of the client from `fopen` on. Whatever ends its loop, it exits with 0. -/
def clientMain (sockfd : Reader Byte) (files : Files) : Files :=
  (recvLoop sockfd (files.create RECEIVED_FILE) RECEIVED_FILE).2

/-- One transfer: the kernel's answers to the server's sends and to the client's receives, and
the files of both. The server closes the connection after its last send. -/
def transfer (sends recvs : ℕ → ℤ) (serverFiles clientFiles : Files) : Option Files :=
  (serverMain serverFiles ⟨[], sends⟩).map fun client_fd =>
    clientMain (.closed client_fd.wire recvs) clientFiles

end SocketChat.MoreLearning.TcpFile.Model
