/- SocketChat/TestCode/FileTransfer/Children
   digest: The children of tcp_file_transfer_server.c call by call, and HandleTCPClient as one. -/

import SocketChat.Lib.Patch
import SocketChat.Lib.Runs
import SocketChat.TestCode.FileTransfer.Model

set_option autoImplicit false
set_option relaxedAutoImplicit false

namespace SocketChat.TestCode.FileTransfer.Children

open SocketChat.Lib.Blocks (blocks blocks_induction blocks_nil blocks_of_ne_nil)
open SocketChat.Lib.CString
open SocketChat.Lib.Directory
open SocketChat.Lib.Patch
open SocketChat.Lib.Runs
open SocketChat.Lib.Stream
open Model

/-- The call that a child makes next: the two `recv` and the prompt of `HandleTCPClient`, the
`open`, `recv` and `write` of `ReceiveFile`, the `open`, `read` and `send` of `SendFile`. -/
inductive Point
  | request
  | prompt
  | confirm
  | create
  | recv
  | write
  | openFile
  | read
  | send
  | ended (ending : Ending) (notices : List Notice)
  deriving DecidableEq

/-- A child with its arrays and the offset of `file_fd`; `wire` is what it has sent, `came` what
`ReceiveFile` has received and `stored` what it has written. -/
structure Child where
  point : Point
  command : List Byte
  fileName : List Byte
  buffer : List Byte
  offset : ℕ
  wire : List Byte
  came : List Byte
  stored : List Byte

/-- A child after `fork`; `stack` is what the arrays for the two fields held before. -/
def forked (stack : List Byte × List Byte) : Child where
  point := .request
  command := stack.1
  fileName := stack.2
  buffer := []
  offset := 0
  wire := []
  came := []
  stored := []

/-- A result of a call: what `recv` returned (nothing at the end or on a failure), the user's
answer, whether `open` succeeds, and how much `write` and `send` take. -/
inductive Call
  | recv (got : List Byte)
  | answer (response : Byte) (taken : ℕ)
  | create (ok : Bool)
  | write (taken : ℕ)
  | openFile (ok : Bool) (taken : ℕ)
  | read
  | send (taken : ℕ)
  deriving DecidableEq

def Child.ends (child : Child) (ending : Ending) (notices : List Notice) : Child :=
  { child with point := .ended ending notices }

/-- `recv` of the request and the `sscanf` of it. -/
def Child.request (child : Child) (got : List Byte) : Child :=
  if got = [] then child.ends .returned []
  else
    let fields := scanRequest (child.command, child.fileName) (got ++ [0])
    { child with point := .prompt, command := fields.1, fileName := fields.2 }

/-- `recv` of the confirmation, and which function is called. -/
def Child.confirm (child : Child) (got : List Byte) : Child :=
  if got ≠ [] ∧ strEq (got ++ [0]) OK then
    if strEq child.command SEND then { child with point := .create }
    else if strEq child.command RECV then { child with point := .openFile }
    else child.ends .returned []
  else child.ends .returned []

def Child.recv (child : Child) (got : List Byte) : Child :=
  if got = [] then child.ends .returned [.finishedReceiving]
  else { child with point := .write, buffer := got, came := child.came ++ got }

/-- The `getchar` of the prompt, and the reply; the result of `send` is not looked at. -/
def Child.answer (child : Child) (response : Byte) (taken : ℕ) : Child :=
  if accepts response then
    { child with point := .confirm, wire := child.wire ++ OK.take taken }
  else { child with wire := child.wire ++ REJECTED.take taken }.ends .returned []

/-- `open` for writing, which empties a file that exists. -/
def Child.create (child : Child) (files : Files) (ok : Bool) : Child × Files :=
  if ok then ({ child with point := .recv, offset := 0 }, files.create child.fileName)
  else (child.ends (.died "open() failed for writing file") [], files)

def Child.write (child : Child) (files : Files) (taken : ℕ) : Child × Files :=
  let bytes := child.buffer.take taken
  let child' := { child with
    offset := child.offset + bytes.length
    stored := child.stored ++ bytes }
  (if bytes.length = child.buffer.length then { child' with point := .recv }
    else child'.ends (.died "write() failed to file") [],
   Function.update files child.fileName
    (some (patch 0 ((files child.fileName).getD []) child.offset bytes)))

def Child.openFile (child : Child) (files : Files) (ok : Bool) (taken : ℕ) : Child :=
  if ok ∧ (files child.fileName).isSome then { child with point := .read, offset := 0 }
  else { child with wire := child.wire ++ errMsg.take taken }.ends .returned [.openFailed]

def Child.read (child : Child) (files : Files) : Child :=
  let buffer := (((files child.fileName).getD []).drop child.offset).take BUFFER_SIZE
  if buffer = [] then child.ends .returned [.finishedSending]
  else { child with point := .send, buffer := buffer, offset := child.offset + buffer.length }

def Child.send (child : Child) (taken : ℕ) : Child :=
  let bytes := child.buffer.take taken
  let child' := { child with wire := child.wire ++ bytes }
  if bytes.length = child.buffer.length then { child' with point := .read }
  else child'.ends (.died "send() failed") []

/-- One call of a child, on files that it shares with the other children. -/
def Child.step (m : Child × Files) : Call → Option (Child × Files)
  | .recv got =>
      match m.1.point with
      | .request => if got.length < BUFFER_SIZE then some (m.1.request got, m.2) else none
      | .confirm => if got.length < BUFFER_SIZE then some (m.1.confirm got, m.2) else none
      | .recv => if got.length ≤ BUFFER_SIZE then some (m.1.recv got, m.2) else none
      | _ => none
  | .answer response taken =>
      if m.1.point = .prompt then some (m.1.answer response taken, m.2) else none
  | .create ok => if m.1.point = .create then some (m.1.create m.2 ok) else none
  | .write taken => if m.1.point = .write then some (m.1.write m.2 taken) else none
  | .openFile ok taken =>
      if m.1.point = .openFile then some (m.1.openFile m.2 ok taken, m.2) else none
  | .read => if m.1.point = .read then some (m.1.read m.2, m.2) else none
  | .send taken => if m.1.point = .send then some (m.1.send taken, m.2) else none

/-- The parent and its children, the files they share, and who has opened which for writing. -/
structure State where
  listening : Bool
  children : ℕ → Option Child
  files : Files
  uploads : List (ℕ × List Byte)

def init (files : Files) : State where
  listening := true
  children := fun _ => none
  files := files
  uploads := []

/-- The parent accepts a connection and forks, or dies of a call that fails; a child makes a
call. -/
inductive Action
  | accept (c : ℕ) (stack : List Byte × List Byte)
  | fails
  | call (c : ℕ) (x : Call)
  deriving DecidableEq

def step (s : State) : Action → Option State
  | .accept c stack =>
      if s.listening ∧ s.children c = none then
        some { s with children := Function.update s.children c (some (forked stack)) }
      else none
  | .fails => if s.listening then some { s with listening := false } else none
  | .call c x => (s.children c).bind fun child =>
      (Child.step (child, s.files) x).map fun m =>
        { s with
          children := Function.update s.children c (some m.1)
          files := m.2
          uploads :=
            if x = .create true then s.uploads ++ [(c, child.fileName)] else s.uploads }

section Alone

variable {child : Child} {files : Files} {sock : Writer Byte}

/-- A run of the child on its own that ends so, and what it sends on the way. -/
def Alone (child : Child) (files : Files) (ending : Ending) (notices : List Notice)
    (wire : List Byte) (files' : Files) : Prop :=
  ∃ as m, exec Child.step (child, files) as = some m ∧ m.1.point = .ended ending notices ∧
    m.1.wire = wire ∧ m.2 = files'

variable {ending : Ending} {notices : List Notice} {wire : List Byte} {files' : Files}

private theorem alone_ended (here : child.point = .ended ending notices)
    (sent : child.wire = wire) :
    Alone child files ending notices wire files :=
  ⟨[], _, rfl, here, sent, rfl⟩

private theorem alone_step {x : Call} {m : Child × Files}
    (taken : Child.step (child, files) x = some m)
    (rest : Alone m.1 m.2 ending notices wire files') :
    Alone child files ending notices wire files' := by
  obtain ⟨as, last, run, ends⟩ := rest
  exact ⟨x :: as, last, exec_cons_eq_some.mpr ⟨m, taken, run⟩, ends⟩

private theorem write_whole (here : child.point = .write)
    (fits : child.offset = ((files child.fileName).getD []).length) :
    Child.step (child, files) (.write child.buffer.length) =
      some ({ child with
        point := .recv
        offset := child.offset + child.buffer.length
        stored := child.stored ++ child.buffer }, files.append child.fileName child.buffer) := by
  rw [Child.step, if_pos here, Child.write]
  dsimp only
  rw [List.take_length, if_pos rfl, fits, patch_end]
  rfl

private theorem alone_recv (clntSocket : Reader Byte) {file_fd : List Byte}
    (here : child.point = .recv)
    (own : child.fileName = file_fd) (fits : child.offset = ((files file_fd).getD []).length) :
    Alone child files .returned [.finishedReceiving] child.wire
      (recvLoop clntSocket files file_fd).2 := by
  fun_induction recvLoop clntSocket files file_fd generalizing child with
  | case1 clntSocket files stored ih =>
    have whole := clntSocket.length_read BUFFER_SIZE
    have short : (clntSocket.read BUFFER_SIZE).2.1.length ≤ BUFFER_SIZE := by
      have most := clntSocket.read_le BUFFER_SIZE
      omega
    have some_bytes : (clntSocket.read BUFFER_SIZE).2.1 ≠ [] :=
      List.ne_nil_of_length_pos (by omega)
    rw [← whole, List.take_length] at ih ⊢
    generalize (clntSocket.read BUFFER_SIZE).2.1 = got at ih short some_bytes ⊢
    have received : Child.step (child, files) (.recv got) = some (child.recv got, files) := by
      rw [Child.step, here]
      exact if_pos short
    rw [Child.recv, if_neg some_bytes] at received
    subst own
    refine alone_step received (alone_step (write_whole rfl fits) (ih rfl rfl ?_))
    rw [Files.append, Function.update_self, Option.getD_some, List.length_append, ← fits]
  | case2 clntSocket files none_left =>
    have got : Child.step (child, files) (.recv []) =
        some (child.ends .returned [.finishedReceiving], files) := by
      rw [Child.step, here]
      rfl
    exact alone_step got (alone_ended rfl rfl)

private theorem read_rest {content rest : List Byte}
    (open_yet : files child.fileName = some content) (left : content.drop child.offset = rest) :
    child.read files =
      if rest.take BUFFER_SIZE = [] then child.ends .returned [.finishedSending]
      else { child with
        point := .send
        buffer := rest.take BUFFER_SIZE
        offset := child.offset + (rest.take BUFFER_SIZE).length } := by
  rw [Child.read, open_yet, Option.getD_some, left]

private theorem alone_send (child : Child) {content : List Byte} (here : child.point = .read)
    (open_yet : files child.fileName = some content) {rest : List Byte}
    (left : content.drop child.offset = rest) {last : Ending} {sock' : Writer Byte}
    (sent : sendLoop sock (blocks BUFFER_SIZE rest) = (last, sock')) :
    ∃ more, sock'.wire = sock.wire ++ more ∧
      Alone child files last (if last = .returned then [.finishedSending] else [])
        (child.wire ++ more) files := by
  induction rest using blocks_induction (show 0 < BUFFER_SIZE by decide)
    generalizing child sock with
  | done =>
    rw [blocks_nil, sendLoop] at sent
    obtain ⟨rfl, rfl⟩ := Prod.mk.inj sent
    have nothing : Child.step (child, files) .read = some (child.read files, files) := if_pos here
    rw [read_rest open_yet left] at nothing
    exact ⟨[], (List.append_nil _).symm,
      alone_step nothing (alone_ended rfl (List.append_nil _).symm)⟩
  | more rest nonempty ih =>
    rw [blocks_of_ne_nil (by decide) nonempty, sendLoop] at sent
    have some_bytes : rest.take BUFFER_SIZE ≠ [] := by
      simp [BUFFER_SIZE, nonempty]
    have next : content.drop (child.offset + (rest.take BUFFER_SIZE).length) =
        rest.drop BUFFER_SIZE := by
      rw [← List.drop_drop, left, List.length_take, List.drop_eq_drop_iff]
      omega
    have reading : Child.step (child, files) .read = some (child.read files, files) := if_pos here
    rw [read_rest open_yet left, if_neg some_bytes] at reading
    have wrote := sock.wire_append (rest.take BUFFER_SIZE)
    have most := sock.write_le (rest.take BUFFER_SIZE)
    have some_length := List.length_pos_iff.mpr some_bytes
    cases written : sock.write (rest.take BUFFER_SIZE) with
    | mk taken sock₁ =>
      rw [written] at sent wrote most
      dsimp only at sent wrote most
      have sending : ∀ child : Child, child.point = .send →
          Child.step (child, files) (.send taken.toNat) = some (child.send taken.toNat, files) :=
        fun child here => if_pos here
      split at sent
      · rename_i short
        obtain ⟨rfl, rfl⟩ := Prod.mk.inj sent
        have cut : ((rest.take BUFFER_SIZE).take taken.toNat).length ≠
            (rest.take BUFFER_SIZE).length := by
          rw [List.length_take (i := taken.toNat)]
          omega
        refine ⟨_, wrote, alone_step reading (alone_step (sending _ rfl) ?_)⟩
        rw [Child.send]
        dsimp only
        rw [if_neg cut]
        exact alone_ended rfl rfl
      · rename_i all
        have whole : taken.toNat = (rest.take BUFFER_SIZE).length := by omega
        rw [whole, List.take_length] at wrote
        rw [whole] at sending
        obtain ⟨more, wire, run⟩ := ih { child with
          point := .read
          buffer := rest.take BUFFER_SIZE
          offset := child.offset + (rest.take BUFFER_SIZE).length
          wire := child.wire ++ rest.take BUFFER_SIZE } rfl open_yet next sent
        refine ⟨rest.take BUFFER_SIZE ++ more, ?_,
          alone_step reading (alone_step (sending _ rfl) ?_)⟩
        · rw [wire, wrote, List.append_assoc]
        · rw [Child.send]
          dsimp only
          rw [List.take_length, if_pos rfl, ← List.append_assoc]
          exact run

private theorem alone_receiveFile (child : Child) (clntSocket : Reader Byte) (sock : Writer Byte)
    (here : child.point = .create) :
    Alone child files .returned [.finishedReceiving] child.wire
      (serverReceiveFile clntSocket sock files child.fileName).files := by
  have opened : Child.step (child, files) (.create true) =
      some ({ child with point := .recv, offset := 0 }, files.create child.fileName) := if_pos here
  refine alone_step opened (alone_recv clntSocket rfl rfl ?_)
  change 0 = ((files.create child.fileName child.fileName).getD []).length
  rw [create_same]
  rfl

private theorem alone_sendFile (child : Child) (sock : Writer Byte) (here : child.point = .openFile)
    {o : Outcome} (outcome : serverSendFile sock files child.fileName = o) :
    ∃ more, o.sock.wire = sock.wire ++ more ∧
      Alone child files o.ending o.notices (child.wire ++ more) o.files := by
  have opened : ∀ taken, Child.step (child, files) (.openFile true taken) =
      some (child.openFile files true taken, files) := fun taken => if_pos here
  unfold serverSendFile at outcome
  cases content : files child.fileName with
  | none =>
    rw [content] at outcome
    subst outcome
    have refused := opened (sock.write errMsg).1.toNat
    rw [Child.openFile, if_neg (by simp [content])] at refused
    exact ⟨_, sock.wire_append errMsg, alone_step refused (alone_ended rfl rfl)⟩
  | some bytes =>
    have reading := opened 0
    rw [Child.openFile, if_pos (by simp [content])] at reading
    rw [content] at outcome
    dsimp only at outcome
    cases sent : sendLoop sock (blocks BUFFER_SIZE bytes) with
    | mk last sock' =>
      obtain ⟨more, wire, run⟩ := alone_send { child with point := .read, offset := 0 }
        rfl content rfl sent
      have all := alone_step reading run
      rw [sent] at outcome
      cases last with
      | returned =>
        subst outcome
        exact ⟨more, wire, all⟩
      | died errorMessage =>
        subst outcome
        exact ⟨more, wire, all⟩
      | hung =>
        subst outcome
        exact ⟨more, wire, all⟩

private theorem alone_confirm (child : Child) {clntSocket left : Reader Byte} {bytesRcvd : ℤ}
    {buffer : List Byte} (sock : Writer Byte) (here : child.point = .confirm)
    (reading : clntSocket.read (BUFFER_SIZE - 1) = (bytesRcvd, buffer, left)) {o : Outcome}
    (outcome : (if 0 < bytesRcvd ∧ strEq (buffer ++ [0]) OK then
        if strEq child.command SEND then serverReceiveFile left sock files child.fileName
        else if strEq child.command RECV then serverSendFile sock files child.fileName
        else ⟨.returned, sock, files, []⟩
      else ⟨.returned, sock, files, []⟩) = o) :
    ∃ more, o.sock.wire = sock.wire ++ more ∧
      Alone child files o.ending o.notices (child.wire ++ more) o.files := by
  have whole := clntSocket.length_read (BUFFER_SIZE - 1)
  have most := clntSocket.read_le (BUFFER_SIZE - 1)
  rw [reading] at whole most
  dsimp only at whole most
  have short : buffer.length < BUFFER_SIZE := by
    have size : BUFFER_SIZE = 8192 := rfl
    omega
  have came : 0 < bytesRcvd ↔ buffer ≠ [] := by
    rw [← List.length_pos_iff]
    omega
  have confirmed : Child.step (child, files) (.recv buffer) =
      some (child.confirm buffer, files) := by
    rw [Child.step, here]
    exact if_pos short
  have stays : ∀ child' : Child, child'.point = .ended .returned [] → child'.wire = child.wire →
      Alone child' files .returned [] (child.wire ++ []) files :=
    fun child' ended same => alone_ended ended (same.trans (List.append_nil _).symm)
  rw [Child.confirm] at confirmed
  split at outcome
  · rename_i ok
    rw [if_pos ⟨came.mp ok.1, ok.2⟩] at confirmed
    split at outcome
    · rename_i is_send
      rw [if_pos is_send] at confirmed
      subst outcome
      refine ⟨[], (List.append_nil _).symm, alone_step confirmed ?_⟩
      rw [List.append_nil]
      exact alone_receiveFile { child with point := .create } left sock rfl
    · rename_i not_send
      rw [if_neg not_send] at confirmed
      split at outcome
      · rename_i is_recv
        rw [if_pos is_recv] at confirmed
        obtain ⟨more, wire, run⟩ :=
          alone_sendFile { child with point := .openFile } sock rfl outcome
        exact ⟨more, wire, alone_step confirmed run⟩
      · rename_i not_recv
        rw [if_neg not_recv] at confirmed
        subst outcome
        exact ⟨[], (List.append_nil _).symm, alone_step confirmed (stays _ rfl rfl)⟩
  · rename_i not_ok
    rw [if_neg fun ok => not_ok ⟨came.mpr ok.1, ok.2⟩] at confirmed
    subst outcome
    exact ⟨[], (List.append_nil _).symm, alone_step confirmed (stays _ rfl rfl)⟩

private theorem alone_prompt (child : Child) (response : Byte) (next : Writer Byte → Reader Byte)
    (sock : Writer Byte) (here : child.point = .prompt) {o : Outcome}
    (outcome : (if accepts response then
        match (next (sock.write OK).2).read (BUFFER_SIZE - 1) with
        | (bytesRcvd, buffer, left) =>
          if 0 < bytesRcvd ∧ strEq (buffer ++ [0]) OK then
            if strEq child.command SEND then
              serverReceiveFile left (sock.write OK).2 files child.fileName
            else if strEq child.command RECV then
              serverSendFile (sock.write OK).2 files child.fileName
            else ⟨.returned, (sock.write OK).2, files, []⟩
          else ⟨.returned, (sock.write OK).2, files, []⟩
      else ⟨.returned, (sock.write REJECTED).2, files, []⟩) = o) :
    ∃ more, o.sock.wire = sock.wire ++ more ∧
      Alone child files o.ending o.notices (child.wire ++ more) o.files := by
  have replied : ∀ taken, Child.step (child, files) (.answer response taken) =
      some (child.answer response taken, files) := fun _ => if_pos here
  split at outcome
  · rename_i yes
    have accepted := replied (sock.write OK).1.toNat
    rw [Child.answer, if_pos yes] at accepted
    have wrote := sock.wire_append OK
    cases reading : (next (sock.write OK).2).read (BUFFER_SIZE - 1) with
    | mk bytesRcvd rest =>
      obtain ⟨buffer, left⟩ := rest
      rw [reading] at outcome
      obtain ⟨more, wire, run⟩ := alone_confirm { child with
        point := .confirm
        wire := child.wire ++ OK.take (sock.write OK).1.toNat }
          (sock.write OK).2 rfl reading outcome
      refine ⟨OK.take (sock.write OK).1.toNat ++ more, ?_, alone_step accepted ?_⟩
      · rw [wire, wrote, List.append_assoc]
      · rw [← List.append_assoc]
        exact run
  · rename_i no
    have rejected := replied (sock.write REJECTED).1.toNat
    rw [Child.answer, if_neg no] at rejected
    subst outcome
    exact ⟨_, sock.wire_append REJECTED, alone_step rejected (alone_ended rfl rfl)⟩

end Alone

/-- `HandleTCPClient` is a run of a child that is the only one: what it makes of its files, sends
and prints is what the child does by one call after the other. -/
theorem handler_is_a_run (stdin : List Byte) (stack : List Byte × List Byte)
    (clntSocket : Reader Byte) (later : List Byte → List Byte) (sock : Writer Byte) (files : Files)
    {o : Outcome} (outcome : HandleTCPClient stdin stack clntSocket later sock files = o)
    (answered : o.ending ≠ .hung) :
    ∃ more, o.sock.wire = sock.wire ++ more ∧
      Alone (forked stack) files o.ending o.notices more o.files := by
  have whole := clntSocket.length_read (BUFFER_SIZE - 1)
  have most := clntSocket.read_le (BUFFER_SIZE - 1)
  have asked : ∀ got : List Byte, got.length < BUFFER_SIZE →
      Child.step (forked stack, files) (.recv got) = some ((forked stack).request got, files) :=
    fun got short => if_pos short
  rw [HandleTCPClient] at outcome
  cases request : clntSocket.read (BUFFER_SIZE - 1) with
  | mk bytesRcvd rest =>
    obtain ⟨buffer, left⟩ := rest
    rw [request] at outcome whole most
    dsimp only at outcome whole most
    split at outcome
    · rename_i none_there
      subst outcome
      exact ⟨[], (List.append_nil _).symm, alone_step (asked [] (by decide)) (alone_ended rfl rfl)⟩
    · rename_i some_there
      have short : buffer.length < BUFFER_SIZE := by
        have size : BUFFER_SIZE = 8192 := rfl
        omega
      have some_bytes : buffer ≠ [] := List.ne_nil_of_length_pos (by omega)
      have parsed := asked buffer short
      rw [Child.request, if_neg some_bytes] at parsed
      have scanned : scanRequest ((forked stack).command, (forked stack).fileName)
          (buffer ++ [0]) = scanRequest stack (buffer ++ [0]) := rfl
      rw [scanned] at parsed
      cases fields : scanRequest stack (buffer ++ [0]) with
      | mk command fileName =>
        rw [fields] at outcome parsed
        dsimp only at outcome parsed
        cases prompted : prompt stdin with
        | none =>
          rw [prompted] at outcome
          subst outcome
          exact absurd rfl answered
        | some both =>
          obtain ⟨response, stdin'⟩ := both
          rw [prompted] at outcome
          dsimp only at outcome
          obtain ⟨more, wire, run⟩ := alone_prompt
            { forked stack with point := .prompt, command := command, fileName := fileName }
            response (fun sock => left.feed (later sock.wire)) sock rfl outcome
          exact ⟨more, wire, alone_step parsed run⟩

end SocketChat.TestCode.FileTransfer.Children
