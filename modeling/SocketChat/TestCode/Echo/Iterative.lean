/- SocketChat/TestCode/Echo/Iterative
   digest: HandleTCPClient of the iterative echo server beside that of the multithread one. -/

import SocketChat.Lib.Lines
import SocketChat.Lib.Transducer
import SocketChat.TestCode.Echo.Model

set_option autoImplicit false
set_option relaxedAutoImplicit false

namespace SocketChat.TestCode.Echo.Iterative

open SocketChat.Lib.CString
open SocketChat.Lib.Lines (newline)
open SocketChat.Lib.Transducer
open SocketChat.TestCode.Echo.Model

inductive Place
  | recv
  | send
  | close
  | returned
  | failed (message : String)
deriving DecidableEq

/-- The local variables of `HandleTCPClient`, with what lies behind `echoBuffer` on the stack, what
it has printed, and the indices of `echoBuffer` that have been written. -/
structure Frame where
  place : Place
  echoBuffer : List Byte
  recvMsgSize : ℕ
  printed : List Byte
  written : List ℕ
deriving DecidableEq

def init (stack : List Byte) : Frame := ⟨.recv, stack, 0, [], []⟩

def Frame.store (f : Frame) (got : List Byte) : Frame :=
  { f with
    place := .send
    echoBuffer := overwrite f.echoBuffer got
    recvMsgSize := got.length
    written := f.written ++ List.range got.length }

/-- The handler, by what it does with a chunk before it sends it back, and what it prints at the
end. -/
def handleWith (received : Frame → Frame) (farewell : String) (f : Frame) (k : Call) :
    Option (Frame × List Byte) :=
  match f.place, k with
  | .recv, .recv got =>
      if got = [] then some ({ f with place := .close, recvMsgSize := 0 }, [])
      else if got.length ≤ RCVBUFSIZE then some (received (f.store got), [])
      else none
  | .recv, .recvFails => some ({ f with place := .failed "recv() failed" }, [])
  | .send, .send => some ({ f with place := .recv }, f.echoBuffer.take f.recvMsgSize)
  | .send, .sendFails taken =>
      if taken < f.recvMsgSize then
        some ({ f with place := .failed "send() failed" },
          (f.echoBuffer.take f.recvMsgSize).take taken)
      else none
  | .close, .close =>
      some ({ f with place := .returned, printed := f.printed ++ lit farewell.toList }, [])
  | _, _ => none

/-- `echoBuffer[recvMsgSize] = '\0'`, and the buffer is printed as a string. -/
def terminate (f : Frame) : Frame :=
  let echoBuffer := storeAt f.echoBuffer f.recvMsgSize [0]
  { f with
    echoBuffer := echoBuffer
    printed :=
      f.printed ++ lit "Received from client: ".toList ++ cstr echoBuffer ++ [newline]
    written := f.written ++ [f.recvMsgSize] }

-- tcp_echo_server_iterative.c
def iterative : Frame → Call → Option (Frame × List Byte) :=
  handleWith terminate "Client disconnected\n"

-- tcp_echo_server_multithread.c
def multithread : Frame → Call → Option (Frame × List Byte) :=
  handleWith id "Thread: Client connection closed\n"

def view (f : Frame) : Point :=
  match f.place with
  | .recv => .recv
  | .send => .send (f.echoBuffer.take f.recvMsgSize)
  | .close => .close
  | .returned => .returned
  | .failed message => .failed message

def Held (f : Frame) : Prop := f.place = .send → f.recvMsgSize ≤ f.echoBuffer.length

/-- Nothing is done with a chunk that changes it. -/
structure Harmless (received : Frame → Frame) : Prop where
  place : ∀ f, (received f).place = f.place
  recvMsgSize : ∀ f, (received f).recvMsgSize = f.recvMsgSize
  chunk : ∀ f, f.recvMsgSize ≤ f.echoBuffer.length →
    f.recvMsgSize ≤ (received f).echoBuffer.length ∧
      (received f).echoBuffer.take f.recvMsgSize = f.echoBuffer.take f.recvMsgSize

private theorem harmless_id : Harmless id where
  place := fun _ => rfl
  recvMsgSize := fun _ => rfl
  chunk := fun _ held => ⟨held, rfl⟩

private theorem harmless_terminate : Harmless terminate where
  place := fun _ => rfl
  recvMsgSize := fun _ => rfl
  chunk := by
    intro f held
    have kept : (terminate f).echoBuffer.take f.recvMsgSize = f.echoBuffer.take f.recvMsgSize :=
      take_storeAt held [0]
    have length := congrArg List.length kept
    rw [List.length_take, List.length_take_of_le held] at length
    exact ⟨by omega, kept⟩

section View

variable {received : Frame → Frame} {farewell : String} {f g : Frame} {k : Call}
  {out : List Byte}

private theorem held_store (f : Frame) (got : List Byte) :
    (f.store got).recvMsgSize ≤ (f.store got).echoBuffer.length ∧
      (f.store got).echoBuffer.take (f.store got).recvMsgSize = got := by
  constructor
  · change got.length ≤ (got ++ f.echoBuffer.drop got.length).length
    rw [List.length_append]
    exact Nat.le_add_right _ _
  · exact List.take_left

private theorem view_received (harmless : Harmless received) (f : Frame) (got : List Byte) :
    view (received (f.store got)) = .send got := by
  obtain ⟨held, chunk⟩ := held_store f got
  have place : (received (f.store got)).place = .send := harmless.place (f.store got)
  rw [view, place, harmless.recvMsgSize, (harmless.chunk (f.store got) held).2, chunk]

private theorem handleWith_view (harmless : Harmless received) (held : Held f) :
    (handleWith received farewell f k).map (fun next => (view next.1, next.2)) =
      HandleTCPClient (view f) k := by
  unfold handleWith view HandleTCPClient
  cases here : f.place with
  | recv =>
    cases k with
    | recv got =>
      dsimp only
      split
      · rfl
      · split
        · exact congrArg (fun point => some (point, [])) (view_received harmless f got)
        · rfl
    | _ => rfl
  | send =>
    have length : (f.echoBuffer.take f.recvMsgSize).length = f.recvMsgSize :=
      List.length_take_of_le (held here)
    cases k with
    | sendFails taken =>
      dsimp only
      rw [length]
      split
      · rfl
      · rfl
    | _ => rfl
  | close => cases k <;> rfl
  | returned => cases k <;> rfl
  | failed message => cases k <;> rfl

private theorem handleWith_cases (taken : handleWith received farewell f k = some (g, out)) :
    (∃ got, k = .recv got ∧ got.length ≤ RCVBUFSIZE ∧ g = received (f.store got)) ∨
      g.place ≠ .send ∧ g.written = f.written ∧ ∀ got, k = .recv got → got = [] := by
  unfold handleWith at taken
  split at taken
  · split at taken
    · rename_i nothing
      cases taken
      refine .inr ⟨Place.noConfusion, rfl, ?_⟩
      rintro _ ⟨rfl⟩
      exact nothing
    · split at taken
      · rename_i room
        cases taken
        exact .inl ⟨_, rfl, room, rfl⟩
      · cases taken
  · cases taken
    exact .inr ⟨Place.noConfusion, rfl, nofun⟩
  · cases taken
    exact .inr ⟨Place.noConfusion, rfl, nofun⟩
  · split at taken
    · cases taken
      exact .inr ⟨Place.noConfusion, rfl, nofun⟩
    · cases taken
  · cases taken
    exact .inr ⟨Place.noConfusion, rfl, nofun⟩
  · cases taken

private theorem held_handleWith (harmless : Harmless received)
    (taken : handleWith received farewell f k = some (g, out)) : Held g := by
  intro sends
  rcases handleWith_cases taken with ⟨got, _, _, rfl⟩ | ⟨other, _, _⟩
  · rw [harmless.recvMsgSize]
    exact (harmless.chunk (f.store got) (held_store f got).1).1
  · exact absurd sends other

private theorem run_handleWith (harmless : Harmless received) (farewell : String)
    (stack : List Byte) (ks : List Call) :
    (run (handleWith received farewell) (init stack) ks).map
        (fun last => (view last.1, last.2)) = run HandleTCPClient .recv ks := by
  have start : Held (init stack) := Place.noConfusion
  exact run_view (fun _ _ held => handleWith_view harmless held)
    (fun _ _ _ _ _ taken => held_handleWith harmless taken) start ks

end View

def Inside (f : Frame) : Prop := ∀ i ∈ f.written, i < RCVBUFSIZE

section Inside

variable {f g : Frame} {k : Call} {ks : List Call} {out : List Byte}

private theorem inside_store {got : List Byte} (room : got.length ≤ RCVBUFSIZE) :
    Inside (f.store got) ↔ Inside f :=
  List.forall_mem_append.trans (and_iff_left (range_inside.mpr room))

private theorem inside_terminate : Inside (terminate f) ↔ Inside f ∧ f.recvMsgSize < RCVBUFSIZE :=
  List.forall_mem_append.trans (and_congr_right fun _ => List.forall_mem_singleton)

private theorem inside_of_written (same : g.written = f.written) : Inside g ↔ Inside f := by
  rw [Inside, same]
  rfl

private theorem inside_multithread (taken : multithread f k = some (g, out)) :
    Inside g ↔ Inside f := by
  rcases handleWith_cases taken with ⟨got, _, room, rfl⟩ | ⟨_, same, _⟩
  · exact inside_store room
  · exact inside_of_written same

private theorem inside_iterative (taken : iterative f k = some (g, out)) :
    Inside g ↔ Inside f ∧ ∀ got, k = .recv got → got.length < RCVBUFSIZE := by
  rcases handleWith_cases taken with ⟨got, rfl, room, rfl⟩ | ⟨_, same, nothing⟩
  · rw [inside_terminate, inside_store room]
    refine and_congr_right fun _ => ⟨?_, fun small => small got rfl⟩
    rintro small _ ⟨rfl⟩
    exact small
  · rw [inside_of_written same]
    refine (and_iff_left ?_).symm
    intro got is
    rw [nothing got is]
    decide

private theorem inside_run_iterative (taken : run iterative f ks = some (g, out)) :
    Inside g ↔ Inside f ∧ ∀ got, .recv got ∈ ks → got.length < RCVBUFSIZE := by
  induction ks generalizing f out with
  | nil =>
    obtain ⟨rfl, _⟩ := Prod.mk.inj (Option.some.inj taken)
    exact (and_iff_left fun got none_there => absurd none_there List.not_mem_nil).symm
  | cons k ks ih =>
    obtain ⟨m, front, rest, first, further, _⟩ := run_cons_eq_some.mp taken
    rw [ih further, inside_iterative first, and_assoc]
    refine and_congr_right fun _ => ?_
    constructor
    · rintro ⟨now, later⟩ got held
      rcases List.mem_cons.mp held with is | held
      · exact now got is.symm
      · exact later got held
    · intro all
      exact ⟨fun got is => all got (is ▸ List.mem_cons_self),
        fun got held => all got (List.mem_cons_of_mem k held)⟩

end Inside

def chunk : Call → List Byte
  | .recv got => got
  | _ => []

def stream (ks : List Call) : List Byte := ks.flatMap chunk

def pending : Point → List Byte
  | .send echoBuffer => echoBuffer
  | _ => []

theorem out_append_pending {p q : Point} {ks : List Call} {out : List Byte}
    (sound : ∀ k ∈ ks, k.fails = false) (taken : run HandleTCPClient p ks = some (q, out)) :
    out ++ pending q = pending p ++ stream ks := by
  induction ks generalizing p out with
  | nil =>
    obtain ⟨rfl, rfl⟩ := Prod.mk.inj (Option.some.inj taken)
    exact (List.append_nil _).symm
  | cons k ks ih =>
    obtain ⟨m, front, rest, first, further, rfl⟩ := run_cons_eq_some.mp taken
    have later := ih (fun l held => sound l (List.mem_cons_of_mem k held)) further
    have now : front ++ pending m = pending p ++ chunk k := by
      have whole := sound k List.mem_cons_self
      cases handles_of_eq first with
      | ended nothing => exact nothing.symm
      | chunk some_bytes room => rfl
      | recvFails => cases whole
      | send echoBuffer => rfl
      | sendFails short => cases whole
      | close => rfl
    rw [stream, List.flatMap_cons, ← List.append_assoc, ← now, List.append_assoc, later,
      List.append_assoc]
    rfl

/-- Given the same results by their calls, the two handlers send the same, the stream that has been
received where no call fails, and neither writes outside of its buffer. -/
def EchoesAlike (stack stack' : List Byte) (ks : List Call) : Prop :=
  ∃ f g out, run iterative (init stack) ks = some (f, out) ∧
    run multithread (init stack') ks = some (g, out) ∧ view f = view g ∧
    ((∀ k ∈ ks, k.fails = false) → out ++ pending (view g) = stream ks) ∧ Inside f ∧ Inside g

private theorem same_echo (stack stack' : List Byte) {ks : List Call} {p : Point} {out : List Byte}
    (taken : run HandleTCPClient .recv ks = some (p, out)) :
    ∃ f g, run iterative (init stack) ks = some (f, out) ∧
      run multithread (init stack') ks = some (g, out) ∧ view f = p ∧ view g = p := by
  have first := run_handleWith harmless_terminate "Client disconnected\n" stack ks
  have second := run_handleWith harmless_id "Thread: Client connection closed\n" stack' ks
  rw [taken] at first second
  obtain ⟨⟨f, _⟩, ran, is⟩ := Option.map_eq_some_iff.mp first
  obtain ⟨rfl, rfl⟩ := Prod.mk.inj is
  obtain ⟨⟨g, _⟩, ran', is'⟩ := Option.map_eq_some_iff.mp second
  obtain ⟨same, rfl⟩ := Prod.mk.inj is'
  exact ⟨f, g, ran, ran', rfl, same⟩

/-- For every stream, cut as it may be, the handlers echo alike exactly when no chunk fills the
buffer. -/
theorem echoes_alike_iff (stack stack' : List Byte) (ks : List Call)
    (taken : (run HandleTCPClient .recv ks).isSome) :
    EchoesAlike stack stack' ks ↔ ∀ got, .recv got ∈ ks → got.length < RCVBUFSIZE := by
  obtain ⟨⟨p, out⟩, ran⟩ := Option.isSome_iff_exists.mp taken
  have untouched : ∀ stack, Inside (init stack) := fun _ i none_yet =>
    absurd none_yet List.not_mem_nil
  constructor
  · rintro ⟨f, g, out', first, _, _, _, inside, _⟩
    exact ((inside_run_iterative first).mp inside).2
  · intro small
    obtain ⟨f, g, first, second, viewed, viewed'⟩ := same_echo stack stack' ran
    refine ⟨f, g, out, first, second, viewed.trans viewed'.symm, ?_, ?_, ?_⟩
    · intro sound
      rw [viewed']
      exact out_append_pending sound ran
    · exact (inside_run_iterative first).mpr ⟨untouched stack, small⟩
    · exact run_invariant (fun _ _ _ _ inside _ here => (inside_multithread here).mpr inside)
        (untouched stack') second

def oneChunk (got : List Byte) : List Call := [.recv got, .send, .recv [], .close]

theorem two_bytes_echoed_alike : EchoesAlike [] [] (oneChunk (lit ['h', 'i'])) := by
  refine (echoes_alike_iff [] [] (oneChunk (lit ['h', 'i'])) (by decide)).mpr ?_
  simp [oneChunk, lit, RCVBUFSIZE]

/-- The NUL behind a chunk of 32 bytes is stored at `echoBuffer[32]`. -/
theorem full_chunk_overruns : ¬ ∀ stack stack' ks, (run HandleTCPClient .recv ks).isSome →
    EchoesAlike stack stack' ks := by
  intro claim
  obtain ⟨f, g, out, ran, _, _, _, inside, _⟩ :=
    claim [] [] (oneChunk (List.replicate 32 104)) (by decide +kernel)
  have shown : (run iterative (init []) (oneChunk (List.replicate 32 104))).map
      (fun last => last.1.written) = some (List.range 32 ++ [32]) := by
    decide +kernel
  rw [ran] at shown
  have written : f.written = List.range 32 ++ [32] := Option.some.inj shown
  have beyond := inside 32 (by
    rw [written]
    exact List.mem_append_right _ (List.mem_singleton_self _))
  exact absurd beyond (by decide)

end SocketChat.TestCode.Echo.Iterative
