/- SocketChat/TestCode/FileTransfer/Model
   digest: The request, the prompts and the transfer of tcp_file_transfer_server.c and _client.c. -/

import SocketChat.Lib.Blocks
import SocketChat.Lib.CString
import SocketChat.Lib.Directory
import SocketChat.Lib.Stream

set_option autoImplicit false
set_option relaxedAutoImplicit false

namespace SocketChat.TestCode.FileTransfer.Model

open SocketChat.Lib.Blocks (blocks)
open SocketChat.Lib.CString
open SocketChat.Lib.Directory
open SocketChat.Lib.Stream

def BUFFER_SIZE : ℕ := 8192

def OK : List Byte := lit ['O', 'K', '\n']
def REJECTED : List Byte := lit ['R', 'E', 'J', 'E', 'C', 'T', 'E', 'D', '\n']
def CANCEL : List Byte := lit ['C', 'A', 'N', 'C', 'E', 'L', '\n']
def SEND : List Byte := lit ['S', 'E', 'N', 'D']
def RECV : List Byte := lit ['R', 'E', 'C', 'V']

/-- `while (getchar() != '\n');` At end of input `getchar` gives EOF for ever. -/
def skipLine : List Byte → Option (List Byte)
  | [] => none
  | c :: stdin => if c = 10 then some stdin else skipLine stdin

/-- `char response = getchar(); while (getchar() != '\n');`, or `none` if it never ends. -/
def prompt : List Byte → Option (Byte × List Byte)
  | [] => none
  | c :: stdin => (skipLine stdin).map fun stdin => (c, stdin)

/-- `response == 'y' || response == 'Y'`. -/
def accepts (response : Byte) : Bool := response == 121 || response == 89

/-- How a handler or program ends; a prompt without a further line never does. -/
inductive Ending
  | returned
  | died (errorMessage : String)
  | hung
  deriving DecidableEq

inductive Notice
  | finishedReceiving
  | finishedSending
  | rejected
  | cancelled
  | noResponse
  | openFailed
  deriving DecidableEq

structure Outcome where
  ending : Ending
  sock : Writer Byte
  files : Files
  notices : List Notice

/-- `while ((bytesRcvd = recv(sock, buffer, BUFFER_SIZE, 0)) > 0)` writing to an open file,
and the result that ended it. -/
def recvLoop (sock : Reader Byte) (files : Files) (file_fd : List Byte) : ℤ × Files :=
  if 0 < (sock.read BUFFER_SIZE).1 then
    recvLoop (sock.read BUFFER_SIZE).2.2
      (files.append file_fd
        ((sock.read BUFFER_SIZE).2.1.take (sock.read BUFFER_SIZE).1.toNat)) file_fd
  else ((sock.read BUFFER_SIZE).1, files)
termination_by sock.pending.length
decreasing_by exact Reader.length_pending_read_lt sock (by decide) (by assumption)

/-- `while ((bytesRead = read(file_fd, buffer, BUFFER_SIZE)) > 0)` sending each block. -/
def sendLoop (sock : Writer Byte) : List (List Byte) → Ending × Writer Byte
  | [] => (.returned, sock)
  | buffer :: reads =>
      match sock.write buffer with
      | (sent, sock) =>
          if sent ≠ buffer.length then (.died "send() failed", sock) else sendLoop sock reads

section Server

/-- `sscanf(buffer, "%s %s", command, fileName)`: a field that is not found leaves its
array as it was. -/
def scanRequest (stack : List Byte × List Byte) (buffer : List Byte) : List Byte × List Byte :=
  let (command, rest) := scanField (cstr buffer)
  if command.isEmpty then stack else
  let (fileName, _) := scanField rest
  if fileName.isEmpty then (command, stack.2) else (command, fileName)

def serverReceiveFile (clntSocket : Reader Byte) (sock : Writer Byte) (files : Files)
    (fileName : List Byte) : Outcome :=
  ⟨.returned, sock, (recvLoop clntSocket (files.create fileName) fileName).2,
    [.finishedReceiving]⟩

def errMsg : List Byte := lit
  ['E', 'r', 'r', 'o', 'r', ':', ' ', 'F', 'i', 'l', 'e', ' ', 'n', 'o', 't', ' ',
   'f', 'o', 'u', 'n', 'd', ' ', 'o', 'r', ' ', 'c', 'a', 'n', 'n', 'o', 't', ' ',
   'b', 'e', ' ', 'o', 'p', 'e', 'n', 'e', 'd', '.']

def serverSendFile (sock : Writer Byte) (files : Files) (fileName : List Byte) : Outcome :=
  match files fileName with
  | none => ⟨.returned, (sock.write errMsg).2, files, [.openFailed]⟩
  | some content =>
      match sendLoop sock (blocks BUFFER_SIZE content) with
      | (.returned, sock) => ⟨.returned, sock, files, [.finishedSending]⟩
      | (ending, sock) => ⟨ending, sock, files, []⟩

/-- `HandleTCPClient`. `later` gives what the client goes on to write once it has been sent
so much; `stack` is what the arrays for the two fields held before. -/
def HandleTCPClient (stdin : List Byte) (stack : List Byte × List Byte)
    (clntSocket : Reader Byte) (later : List Byte → List Byte) (sock : Writer Byte)
    (files : Files) : Outcome :=
  match clntSocket.read (BUFFER_SIZE - 1) with
  | (bytesRcvd, buffer, clntSocket) =>
  if bytesRcvd ≤ 0 then ⟨.returned, sock, files, []⟩ else
  let (command, fileName) := scanRequest stack (buffer ++ [0])
  match prompt stdin with
  | none => ⟨.hung, sock, files, []⟩
  | some (response, _) =>
  if accepts response then
    let sock := (sock.write OK).2
    match (clntSocket.feed (later sock.wire)).read (BUFFER_SIZE - 1) with
    | (bytesRcvd, buffer, clntSocket) =>
    if 0 < bytesRcvd ∧ strEq (buffer ++ [0]) OK then
      if strEq command SEND then serverReceiveFile clntSocket sock files fileName
      else if strEq command RECV then serverSendFile sock files fileName
      else ⟨.returned, sock, files, []⟩
    else ⟨.returned, sock, files, []⟩
  else ⟨.returned, (sock.write REJECTED).2, files, []⟩

end Server

section Client

def clientSendFile (sock : Writer Byte) (files : Files) (filePath : List Byte) : Outcome :=
  match files filePath with
  | none => ⟨.died "open() failed for reading file", sock, files, []⟩
  | some content =>
      match sendLoop sock (blocks BUFFER_SIZE content) with
      | (.returned, sock) => ⟨.returned, sock, files, [.finishedSending]⟩
      | (ending, sock) => ⟨ending, sock, files, []⟩

def clientReceiveFile (reply : Reader Byte) (sock : Writer Byte) (files : Files)
    (filePath : List Byte) : Outcome :=
  match recvLoop reply (files.create filePath) filePath with
  | (bytesRcvd, files) =>
      if bytesRcvd < 0 then ⟨.died "recv() failed", sock, files, []⟩
      else ⟨.returned, sock, files, [.finishedReceiving]⟩

/-- `snprintf(buffer, sizeof(buffer), "%s %s", command, basename(filePath))`. -/
def request (command filePath : List Byte) : List Byte :=
  (cstr command ++ 32 :: basename (cstr filePath)).take (BUFFER_SIZE - 1)

/-- `main` of the client after `connect`; `reply` is what the server writes at first and
`later` what it goes on to write once it has been sent so much. -/
def clientMain (command filePath : List Byte) (localPath : Option (List Byte))
    (stdin : List Byte) (reply : Reader Byte) (later : List Byte → List Byte)
    (sock : Writer Byte) (files : Files) : Outcome :=
  match sock.write (request command filePath) with
  | (sent, sock) =>
  if sent ≠ (request command filePath).length then
    ⟨.died "send() command failed", sock, files, []⟩ else
  match reply.read (BUFFER_SIZE - 1) with
  | (bytesRcvd, buffer, reply) =>
  if bytesRcvd ≤ 0 then ⟨.returned, sock, files, [.noResponse]⟩ else
  if strEq (buffer ++ [0]) OK then
    match prompt stdin with
    | none => ⟨.hung, sock, files, []⟩
    | some (response, _) =>
    if accepts response then
      let sock := (sock.write OK).2
      if strEq command SEND then clientSendFile sock files filePath
      else if strEq command RECV then
        clientReceiveFile (reply.feed (later sock.wire)) sock files
          (localPath.getD (basename (cstr filePath)))
      else ⟨.returned, sock, files, []⟩
    else ⟨.returned, (sock.write CANCEL).2, files, [.cancelled]⟩
  else ⟨.returned, sock, files, [.rejected]⟩

end Client

/-- What a client given `SEND` writes after its request, once it has read this reply. -/
def sendReaction (filePath stdin : List Byte) (recvs sends : ℕ → ℤ) (files : Files)
    (reply : List Byte) : List Byte :=
  (clientMain SEND filePath none stdin ⟨reply, 0, recvs, Int.le_refl 0⟩ (fun _ => [])
    ⟨[], sends⟩ files).sock.wire.drop (request SEND filePath).length

/-- One `SEND`: the server's handler in conversation with the client, each with its own
input, kernel answers and files. -/
def sendSession (filePath serverStdin clientStdin : List Byte) (stack : List Byte × List Byte)
    (serverRecvs serverSends clientRecvs clientSends : ℕ → ℤ)
    (serverFiles clientFiles : Files) : Outcome :=
  HandleTCPClient serverStdin stack
    ⟨request SEND filePath, 0, serverRecvs, Int.le_refl 0⟩
    (sendReaction filePath clientStdin clientRecvs clientSends clientFiles)
    ⟨[], serverSends⟩ serverFiles

def serverWrites (filePath stdin : List Byte) (stack : List Byte × List Byte)
    (recvs sends : ℕ → ℤ) (files : Files) (more : List Byte) : List Byte :=
  (HandleTCPClient stdin stack (Reader.closed (request RECV filePath) recvs) (fun _ => more)
    ⟨[], sends⟩ files).sock.wire

/-- One `RECV` that the server's user accepts: the client in conversation with the handler. Where
`ahead` is given, a part of the request is left to the handler's second `recv`, which comes
before the client has answered, and so many of the bytes written then arrive with its `OK`. -/
def recvSession (filePath : List Byte) (localPath : Option (List Byte))
    (serverStdin clientStdin : List Byte) (stack : List Byte × List Byte)
    (serverRecvs serverSends clientRecvs clientSends : ℕ → ℤ)
    (serverFiles clientFiles : Files) (ahead : Option ℕ) : Outcome :=
  let writes := serverWrites filePath serverStdin stack serverRecvs serverSends serverFiles
  let seen := OK.length + ahead.getD 0
  clientMain RECV filePath localPath clientStdin
    (Reader.closed ((writes []).take seen) clientRecvs)
    (fun wire => (writes (if ahead.isSome then []
      else wire.drop (request RECV filePath).length)).drop seen)
    ⟨[], clientSends⟩ clientFiles

end SocketChat.TestCode.FileTransfer.Model
