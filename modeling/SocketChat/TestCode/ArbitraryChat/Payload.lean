/- SocketChat/TestCode/ArbitraryChat/Payload
   digest: When the messages handed to broadcast and sent are the bytes that were received. -/

import SocketChat.Lib.History
import SocketChat.TestCode.ArbitraryChat.Threads

set_option autoImplicit false
set_option relaxedAutoImplicit false

namespace SocketChat.TestCode.ArbitraryChat.Payload

open SocketChat.Lib.CString
open SocketChat.Lib.Deliveries
open SocketChat.Lib.History
open SocketChat.Lib.Runs
open SocketChat.TestCode.ArbitraryChat.Model
open SocketChat.TestCode.ArbitraryChat.Threads

structure Notes where
  received : List (ConnId × List Byte)
  handed : List (ConnId × List Byte)

def waiting : Point → Option (List Byte)
  | .lockBroadcast message => some message
  | _ => none

def pending (threads : ConnId → Option Thread) (c : ConnId) : Option (List Byte) :=
  (threads c).bind fun th => waiting th.point

def note (s : State) : Action → Notes → Notes
  | .recv c got, notes => { notes with received := notes.received ++ [(c, got)] }
  | .run c, notes =>
      { notes with handed := notes.handed ++ ((pending s.threads c).map (Prod.mk c)).toList }
  | _, notes => notes

abbrev Noted := State × Notes

def start (servSock : ℤ) : Noted := (init servSock, ⟨[], []⟩)

def bytesOf (l : List (ConnId × List Byte)) (c : ConnId) : List Byte :=
  (l.filter fun e => e.1 = c).flatMap Prod.snd

/-- The NUL behind every chunk is within the buffer; what a client's thread has handed to
`broadcast` is what it has received; and every `send` is given its message whole. -/
structure Exact (m : Noted) : Prop where
  inside : ∀ e ∈ m.2.received, e.2.length < BUFFER_SIZE
  streams : ∀ c,
    bytesOf m.2.handed c ++ (pending m.1.threads c).getD [] = bytesOf m.2.received c
  whole : ∀ sent ∈ m.1.sends, (m.2.handed[sent.number]?).map Prod.snd = some sent.call.message

/-- A chunk has no NUL and leaves room for one. -/
def Whole (_ : Noted) : Action → Prop
  | .recv _ got => 0 ∉ got ∧ got.length < BUFFER_SIZE
  | _ => True

structure Carried (m : Noted) : Prop where
  handlers : Handlers m.1
  sized : m.2.handed.length = m.1.said.length
  going : ∀ c th message i, m.1.threads c = some th → th.point = .broadcasting message i →
    (m.2.handed[m.1.said.length - 1]?).map Prod.snd = some message
  exactly : Exact m

theorem bytesOf_append (before after : List (ConnId × List Byte)) (c : ConnId) :
    bytesOf (before ++ after) c = bytesOf before c ++ bytesOf after c := by
  rw [bytesOf, List.filter_append, List.flatMap_append]
  rfl

theorem bytesOf_own (c : ConnId) (bytes : List Byte) : bytesOf [(c, bytes)] c = bytes := by
  simp [bytesOf]

theorem bytesOf_other {c d : ConnId} (other : d ≠ c) (bytes : List Byte) :
    bytesOf [(c, bytes)] d = [] := by
  simp [bytesOf, other.symm]

theorem carried_start (servSock : ℤ) : Carried (start servSock) := by
  refine ⟨handlers_init servSock, rfl, ?_, ?_, ?_, ?_⟩
  · intro c th message i thread
    cases thread
  · intro e he
    cases he
  · intro c
    rfl
  · intro sent hsent
    cases hsent

section Moves

variable {s t : State} {notes : Notes} {c d : ConnId} {th : Thread} {point : Point}

theorem pending_own (thread : s.threads c = some th) :
    pending s.threads c = waiting th.point := by
  rw [pending, thread]
  rfl

private theorem pending_other {new : Option Thread} (other : d ≠ c) :
    pending (Function.update s.threads c new) d = pending s.threads d := by
  rw [pending, Function.update_of_ne other]
  rfl

private theorem goto_own : (s.goto c th point).threads c = some { th with point := point } :=
  Function.update_self ..

private theorem goto_other (other : d ≠ c) : (s.goto c th point).threads d = s.threads d :=
  Function.update_of_ne other ..

private theorem pending_moved : pending (s.goto c th point).threads c = waiting point := by
  rw [pending, goto_own]
  rfl

private theorem pending_still (thread : s.threads c = some th)
    (quiet : waiting point = waiting th.point) :
    pending (s.goto c th point).threads = pending s.threads := by
  funext d
  by_cases same : d = c
  · subst same
    rw [pending_moved, pending_own thread, quiet]
  · exact pending_other same

theorem note_run (thread : s.threads c = some th) (quiet : waiting th.point = none) :
    note s (.run c) notes = notes := by
  rw [note, pending_own thread, quiet]
  simp

private theorem carried_of_still (h : Carried (s, notes)) (handlers : Handlers t)
    (said : t.said = s.said) {more : List (Sent ConnId SendCall)}
    (sends : t.sends = s.sends ++ more) (still : pending t.threads = pending s.threads)
    (going : ∀ d th message i, t.threads d = some th → th.point = .broadcasting message i →
      ∃ th' i', s.threads d = some th' ∧ th'.point = .broadcasting message i')
    (now : ∀ sent ∈ more, sent.number = s.said.length - 1 ∧
      ∃ d th i, s.threads d = some th ∧ th.point = .broadcasting sent.call.message i) :
    Carried (t, notes) := by
  refine ⟨handlers, ?_, ?_, h.exactly.inside, ?_, ?_⟩
  · change notes.handed.length = t.said.length
    rw [said]
    exact h.sized
  · intro d th message i thread here
    change (notes.handed[t.said.length - 1]?).map Prod.snd = some message
    rw [said]
    obtain ⟨th', i', thread', here'⟩ := going d th message i thread here
    exact h.going d th' message i' thread' here'
  · intro d
    change bytesOf notes.handed d ++ (pending t.threads d).getD [] = bytesOf notes.received d
    rw [still]
    exact h.exactly.streams d
  · intro sent hsent
    change sent ∈ t.sends at hsent
    rw [sends] at hsent
    rcases List.mem_append.mp hsent with old | new
    · exact h.exactly.whole sent old
    · obtain ⟨number, d, th, i, thread, here⟩ := now sent new
      rw [number]
      exact h.going d th sent.call.message i thread here

private theorem carried_still (h : Carried (s, notes)) (handlers : Handlers t)
    (thread : s.threads c = some th) (threads : t.threads = (s.goto c th point).threads)
    (said : t.said = s.said) {more : List (Sent ConnId SendCall)}
    (sends : t.sends = s.sends ++ more) (quiet : waiting point = waiting th.point)
    (going : ∀ message i, point = .broadcasting message i →
      ∃ i', th.point = .broadcasting message i')
    (now : ∀ sent ∈ more, sent.number = s.said.length - 1 ∧
      ∃ i, th.point = .broadcasting sent.call.message i) :
    Carried (t, notes) := by
  have still : pending t.threads = pending s.threads := by
    rw [threads]
    exact pending_still thread quiet
  apply carried_of_still h handlers said sends still
  · intro d th' message i thread' here
    rw [threads] at thread'
    by_cases same : d = c
    · subst same
      rw [goto_own] at thread'
      obtain rfl := Option.some.inj thread'
      obtain ⟨i', before⟩ := going message i here
      exact ⟨th, i', thread, before⟩
    · rw [goto_other same] at thread'
      exact ⟨th', i, thread', here⟩
  · intro sent hsent
    obtain ⟨number, i, here⟩ := now sent hsent
    exact ⟨number, c, th, i, thread, here⟩

private theorem carried_quiet (h : Carried (s, notes)) (handlers : Handlers t)
    (thread : s.threads c = some th) (threads : t.threads = (s.goto c th point).threads)
    (said : t.said = s.said) (sends : t.sends = s.sends) (idle : waiting th.point = none)
    (quiet : waiting point = none) (outside : ∀ message i, point ≠ .broadcasting message i) :
    Carried (t, note s (.run c) notes) := by
  rw [note_run thread idle]
  apply carried_still h handlers thread threads said _ (quiet.trans idle.symm)
  · intro message i inside
    exact absurd inside (outside message i)
  · intro sent hsent
    exact absurd hsent List.not_mem_nil
  · rw [sends, List.append_nil]

private theorem carried_accepted (h : Carried (s, notes)) (handlers : Handlers t) (clntSock : ℤ)
    (threads : t.threads = Function.update s.threads s.created (some ⟨clntSock, .lockAdd⟩))
    (said : t.said = s.said) (sends : t.sends = s.sends) : Carried (t, notes) := by
  have unborn : s.threads s.created = none := by
    cases thread : s.threads s.created with
    | none => rfl
    | some th => exact absurd (h.handlers.numbered s.created th thread) (Nat.lt_irrefl _)
  have still : pending t.threads = pending s.threads := by
    rw [threads]
    funext d
    by_cases same : d = s.created
    · subst same
      rw [pending, pending, Function.update_self, unborn]
      rfl
    · exact pending_other same
  apply carried_of_still h handlers said _ still
  · intro d th message i thread here
    rw [threads] at thread
    by_cases same : d = s.created
    · subst same
      rw [Function.update_self] at thread
      obtain rfl := Option.some.inj thread
      cases here
    · rw [Function.update_of_ne same] at thread
      exact ⟨th, i, thread, here⟩
  · intro sent hsent
    exact absurd hsent List.not_mem_nil
  · rw [sends, List.append_nil]

private theorem carried_received (h : Carried (s, notes)) (thread : s.threads c = some th)
    (idle : waiting th.point = none) (handlers : Handlers (s.goto c th point))
    {got : List Byte} (room : got.length < BUFFER_SIZE) (text : (waiting point).getD [] = got)
    (outside : ∀ message i, point ≠ .broadcasting message i) :
    Carried (s.goto c th point, { notes with received := notes.received ++ [(c, got)] }) := by
  refine ⟨handlers, h.sized, ?_, ?_, ?_, h.exactly.whole⟩
  · intro d th' message i thread' here
    change (s.goto c th point).threads d = some th' at thread'
    by_cases same : d = c
    · subst same
      rw [goto_own] at thread'
      obtain rfl := Option.some.inj thread'
      exact absurd here (outside message i)
    · rw [goto_other same] at thread'
      exact h.going d th' message i thread' here
  · intro e he
    rcases List.mem_append.mp he with old | new
    · exact h.exactly.inside e old
    · rw [List.mem_singleton.mp new]
      exact room
  · intro d
    change bytesOf notes.handed d ++ (pending (s.goto c th point).threads d).getD [] =
      bytesOf (notes.received ++ [(c, got)]) d
    have before := h.exactly.streams d
    rw [bytesOf_append, ← before]
    by_cases same : d = c
    · subst same
      change bytesOf notes.handed d ++ _ =
        bytesOf notes.handed d ++ (pending s.threads d).getD [] ++ _
      rw [pending_moved, text, pending_own thread, idle, bytesOf_own, Option.getD_none,
        List.append_nil]
    · change bytesOf notes.handed d ++ (pending (Function.update s.threads c _) d).getD [] =
        bytesOf notes.handed d ++ (pending s.threads d).getD [] ++ _
      rw [pending_other same, bytesOf_other same, List.append_nil]

private theorem carried_said (h : Carried (s, notes)) (thread : s.threads c = some th)
    {message : List Byte} (here : th.point = .lockBroadcast message)
    (free : s.client_mutex = none) (handlers : Handlers
      { (s.goto c th (.broadcasting message 0)).say c with client_mutex := some c }) :
    Carried ({ (s.goto c th (.broadcasting message 0)).say c with client_mutex := some c },
      { notes with handed := notes.handed ++ [(c, message)] }) := by
  have sized : notes.handed.length = s.said.length := h.sized
  refine ⟨handlers, ?_, ?_, h.exactly.inside, ?_, ?_⟩
  · simp only [State.say, State.goto, List.length_append, sized, List.length_singleton]
  · intro d th' message' i thread' here'
    have last : ((s.goto c th (.broadcasting message 0)).say c).said.length - 1 =
        notes.handed.length := by
      simp only [State.say, State.goto, List.length_append, sized, List.length_singleton,
        Nat.add_sub_cancel]
    change ((notes.handed ++ [(c, message)])[((s.goto c th
      (.broadcasting message 0)).say c).said.length - 1]?).map Prod.snd = some message'
    change (s.goto c th (.broadcasting message 0)).threads d = some th' at thread'
    by_cases same : d = c
    · subst same
      rw [goto_own] at thread'
      obtain rfl := Option.some.inj thread'
      obtain ⟨rfl, _⟩ := Point.broadcasting.inj here'
      rw [last, List.getElem?_concat_length]
      rfl
    · rw [goto_other same] at thread'
      have held := (h.handlers.mutex d th' thread').mp (by rw [here']; trivial)
      change s.client_mutex = some d at held
      rw [free] at held
      cases held
  · intro d
    change bytesOf (notes.handed ++ [(c, message)]) d ++
      (pending (s.goto c th (.broadcasting message 0)).threads d).getD [] = bytesOf notes.received d
    rw [bytesOf_append, ← h.exactly.streams d]
    by_cases same : d = c
    · subst same
      change _ = bytesOf notes.handed d ++ (pending s.threads d).getD []
      rw [pending_moved, pending_own thread, here, bytesOf_own]
      exact List.append_nil _
    · change _ ++ (pending (Function.update s.threads c _) d).getD [] =
        bytesOf notes.handed d ++ (pending s.threads d).getD []
      rw [pending_other same, bytesOf_other same, List.append_nil]
  · intro sent hsent
    have before := h.exactly.whole sent hsent
    obtain ⟨e, entry, _⟩ := Option.map_eq_some_iff.mp before
    rw [List.getElem?_append_left (List.getElem?_eq_some_iff.mp entry).1]
    exact before

end Moves

private theorem sendTo_number {s : State} {th : Thread} {message : List Byte} {i : ℕ}
    {sent : Sent ConnId SendCall} (hsent : sent ∈ sendTo s th message i) :
    sent.number = s.said.length - 1 ∧ sent.call.message = message := by
  obtain ⟨fd, _, rfl⟩ := Option.map_eq_some_iff.mp (Option.mem_toList.mp hsent)
  exact ⟨rfl, rfl⟩

private theorem carried_passed {s : State} {notes : Notes} (h : Carried (s, notes)) {a : Action}
    {c : ConnId} {clntSocket : ℤ} {here point : Point}
    (thread : s.threads c = some ⟨clntSocket, here⟩)
    (passes : Passes c a here point) (ok : Whole (s, notes) a)
    (handlers : Handlers (s.goto c ⟨clntSocket, here⟩ point)) :
    Carried (s.goto c ⟨clntSocket, here⟩ point, note s a notes) := by
  cases passes with
  | ended =>
    exact carried_received h thread rfl handlers ok.2 rfl fun _ _ => Point.noConfusion
  | received got something fits =>
    exact carried_received h thread rfl handlers ok.2 (cstr_of_nul_free ok.1) fun _ _ =>
      Point.noConfusion
  | looped message i done =>
    exact carried_quiet h handlers thread rfl rfl rfl rfl rfl fun _ _ => Point.noConfusion

theorem carried_step (m : Noted) (a : Action) (m' : Noted) (h : Carried m) (ok : Whole m a)
    (taken : remember step note m a = some m') : Carried m' := by
  obtain ⟨s, notes⟩ := m
  obtain ⟨t, notes'⟩ := m'
  obtain ⟨moved, noted⟩ := remember_eq_some.mp taken
  have handlers : Handlers t := handlers_step h.handlers moved
  subst noted
  cases (took_of_step moved).2 with
  | acceptFailed clntSock failed =>
    exact ⟨handlers, h.sized, h.going, h.exactly.inside, h.exactly.streams, h.exactly.whole⟩
  | accepted clntSock valid fresh => exact carried_accepted h handlers clntSock rfl rfl rfl
  | departed c =>
    exact ⟨handlers, h.sized, h.going, h.exactly.inside, h.exactly.streams, h.exactly.whole⟩
  | passed _ c th point thread passes => exact carried_passed h thread passes ok handlers
  | locked c th point thread free locks =>
    cases th with
    | mk clntSocket here =>
      cases locks with
      | add =>
        exact carried_quiet h handlers thread rfl rfl rfl rfl rfl fun _ _ => Point.noConfusion
      | remove =>
        exact carried_quiet h handlers thread rfl rfl rfl rfl rfl fun _ _ => Point.noConfusion
  | unlocked c th point thread unlocks =>
    cases th with
    | mk clntSocket here =>
      cases unlocks with
      | add | broadcast | remove =>
        exact carried_quiet h handlers thread rfl rfl rfl rfl rfl fun _ _ => Point.noConfusion
  | said c th message thread here free =>
    have taken_up : note s (.run c) notes =
        { notes with handed := notes.handed ++ [(c, message)] } := by
      rw [note, pending_own thread, here]
      rfl
    rw [taken_up]
    exact carried_said h thread here free handlers
  | sent c th message i thread here more =>
    have idle : waiting th.point = none := by rw [here]; rfl
    rw [note_run thread idle]
    apply carried_still h handlers thread rfl rfl rfl idle.symm
    · intro message' i' inside
      obtain ⟨rfl, _⟩ := Point.broadcasting.inj inside
      exact ⟨i, here⟩
    · intro sent hsent
      obtain ⟨number, text⟩ := sendTo_number hsent
      exact ⟨number, i, text ▸ here⟩
  | added c th thread here =>
    exact carried_quiet h handlers thread rfl rfl rfl (by rw [here]; rfl) rfl
      fun _ _ => Point.noConfusion
  | removed c th thread here =>
    exact carried_quiet h handlers thread rfl rfl rfl (by rw [here]; rfl) rfl
      fun _ _ => Point.noConfusion
  | closed c th thread here =>
    exact carried_quiet h handlers thread rfl rfl rfl (by rw [here]; rfl) rfl
      fun _ _ => Point.noConfusion
  | sendFailed c th message i fd thread here found gone =>
    have still : s.threads = (s.goto c th th.point).threads :=
      (Function.update_eq_self_iff.mpr thread.symm).symm
    apply carried_still h handlers thread still rfl rfl rfl
    · intro message' i' inside
      exact ⟨i', inside⟩
    · intro sent hsent
      obtain ⟨number, text⟩ := sendTo_number hsent
      exact ⟨number, i, text ▸ here⟩

private theorem received_string {s t : State} {c : ConnId} {got : List Byte}
    (taken : step s (.recv c got) = some t) :
    pending s.threads c = none ∧ (pending t.threads c).getD [] = cstr got := by
  generalize moving : Action.recv c got = a at taken
  cases (took_of_step taken).2 with
  | passed _ d th point thread passes =>
    cases th with
    | mk clntSocket here =>
      cases passes with
      | ended =>
        obtain ⟨rfl, rfl⟩ := Action.recv.inj moving
        rw [pending_moved, pending_own thread]
        exact ⟨rfl, rfl⟩
      | received got' something fits =>
        obtain ⟨rfl, rfl⟩ := Action.recv.inj moving
        rw [pending_moved, pending_own thread]
        exact ⟨rfl, rfl⟩
      | looped message i done => cases moving
  | _ => cases moving

private theorem whole_of_exact (m : Noted) (a : Action) (m' : Noted) (h : Carried m)
    (taken : remember step note m a = some m') (after : Exact m') : Whole m a := by
  obtain ⟨s, notes⟩ := m
  obtain ⟨t, notes'⟩ := m'
  obtain ⟨moved, noted⟩ := remember_eq_some.mp taken
  subst noted
  cases a with
  | recv c got =>
    have room : got.length < BUFFER_SIZE :=
      after.inside (c, got) (List.mem_append_right _ List.mem_cons_self)
    refine ⟨?_, room⟩
    have before := h.exactly.streams c
    have now := after.streams c
    change bytesOf notes.handed c ++ (pending t.threads c).getD [] =
      bytesOf (notes.received ++ [(c, got)]) c at now
    rw [bytesOf_append, bytesOf_own, ← before, List.append_assoc] at now
    have text := List.append_cancel_left now
    change (pending t.threads c).getD [] = (pending s.threads c).getD [] ++ got at text
    obtain ⟨idle, string⟩ := received_string moved
    rw [string, idle, Option.getD_none, List.nil_append] at text
    rw [← text]
    exact zero_not_mem_cstr got
  | accept | depart | run | sendFails => trivial

/-- In a run all that is received is stored in the buffer with its NUL and handed on, and sent,
as it came exactly when every chunk has no NUL and leaves room for one in the buffer. -/
theorem handed_whole_iff (servSock : ℤ) (as : List Action) (m : Noted)
    (taken : exec (remember step note) (start servSock) as = some m) :
    Always (remember step note) Exact (start servSock) as ↔
      Guarded (remember step note) Whole (start servSock) as :=
  always_iff_guarded_of_invariant (fun _ h => h.exactly) carried_step whole_of_exact
    (carried_start servSock) taken

def firstSends (got : List Byte) : List Action :=
  [.accept 4, .run 0, .run 0, .run 0, .accept 5, .run 1, .run 1, .run 1, .recv 0 got] ++
    List.replicate 12 (.run 0)

theorem one_byte_handed_whole : ∃ m,
    exec (remember step note) (start 3) (firstSends [104]) = some m ∧
      Always (remember step note) Exact (start 3) (firstSends [104]) := by
  have shown : (exec (remember step note) (start 3) (firstSends [104])).isSome := by
    decide +kernel
  obtain ⟨m, taken⟩ := Option.isSome_iff_exists.mp shown
  refine ⟨m, taken, (handed_whole_iff 3 _ m taken).mpr ?_⟩
  apply guarded_of_forall
  simp [firstSends, Whole, BUFFER_SIZE]

/-- Of a chunk with a NUL only the front is handed on, and the NUL behind one that fills the
buffer is written outside of it. -/
theorem nul_cuts_full_overflows :
    (∃ m, exec (remember step note) (start 3) (firstSends [104, 0, 105]) = some m ∧
      bytesOf m.2.handed 0 = [104] ∧ ¬Exact m) ∧
    ∃ m, exec (remember step note) (start 3) (firstSends (List.replicate 256 104)) = some m ∧
      ¬Exact m := by
  constructor
  · have shown : (exec (remember step note) (start 3) (firstSends [104, 0, 105])).map
        (fun m => (m.2.received, m.2.handed, pending m.1.threads 0)) =
          some ([(0, [104, 0, 105])], [(0, [104])], none) := by
      decide +kernel
    obtain ⟨m, taken, notes⟩ := Option.map_eq_some_iff.mp shown
    obtain ⟨received, rest⟩ := Prod.mk.inj notes
    obtain ⟨handed, idle⟩ := Prod.mk.inj rest
    refine ⟨m, taken, by rw [handed]; rfl, ?_⟩
    intro exactly
    have stream := exactly.streams 0
    rw [handed, idle, received] at stream
    exact absurd stream (by decide)
  · have shown : (exec (remember step note) (start 3)
        (firstSends (List.replicate 256 104))).map (fun m => m.2.received) =
          some [(0, List.replicate 256 104)] := by
      decide +kernel
    obtain ⟨m, taken, received⟩ := Option.map_eq_some_iff.mp shown
    refine ⟨m, taken, ?_⟩
    intro exactly
    have held : (0, List.replicate 256 104) ∈ m.2.received := by
      rw [received]
      exact List.mem_singleton_self _
    have room := exactly.inside _ held
    rw [List.length_replicate] at room
    exact Nat.lt_irrefl _ room

end SocketChat.TestCode.ArbitraryChat.Payload
