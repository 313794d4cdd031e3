/- SocketChat/TestCode/Uppercase/Tcp
   digest: tcp_echo_uppercase_server.c, which answers the first read, and its clients. -/

import SocketChat.TestCode.Uppercase.Udp

set_option autoImplicit false
set_option relaxedAutoImplicit false

namespace SocketChat.TestCode.Uppercase.Tcp

open SocketChat.Lib.CString
open SocketChat.Lib.Runs
open SocketChat.TestCode.Uppercase.Udp (take_uppercase toupper uppercase)

def MAX_BUFFER_SIZE : ℕ := 1024

abbrev ConnId := ℕ

/-- Before `accept`; with a `connectionSocket`, before `read` or before `write` and `close`. -/
inductive ServerPoint
  | accept
  | read (connectionSocket : ConnId)
  | write (connectionSocket : ConnId) (n : ℕ)
deriving DecidableEq

inductive ClientPoint
  | write
  | read
  | returned
  | failed
deriving DecidableEq

structure Client where
  point : ClientPoint
  buffer : List Byte
  printed : List Byte
deriving DecidableEq

/-- Both sides, with what is on its way to the server and to each client. The buffer of the server
is there with what lies behind it, and `written` are the indices at which it has been written. -/
structure State where
  point : ServerPoint
  buffer : List Byte
  written : List ℕ
  accepted : ℕ
  closed : ConnId → Bool
  clients : ConnId → Client
  up : ConnId → List Byte
  down : ConnId → List Byte

/-- Clients whose `connect` has returned; `buffers` are theirs then. -/
def init (stack : List Byte) (buffers : ConnId → List Byte) : State where
  point := .accept
  buffer := stack
  written := []
  accepted := 0
  closed := fun _ => false
  clients := fun c => ⟨.write, buffers c, lit "Connected to server.\n".toList⟩
  up := fun _ => []
  down := fun _ => []

/-- `read` and `write` take so many bytes; a `write` that takes fewer than it is given, or that
fails, is not noticed. A client may be killed at any time. -/
inductive Action
  | accept
  | acceptFails
  | read (k : ℕ)
  | readFails
  | write (taken : ℕ)
  | clientWrite (c : ConnId) (taken : ℕ)
  | clientRead (c : ConnId) (k : ℕ)
  | clientFails (c : ConnId)
deriving DecidableEq

def Gone (s : State) (c : ConnId) : Prop :=
  s.up c = [] ∧ ((s.clients c).point = .returned ∨ (s.clients c).point = .failed)

instance (s : State) (c : ConnId) : Decidable (Gone s c) := inferInstanceAs (Decidable (_ ∧ _))

/-- From `read` to the end of the loop over the buffer. -/
def read (s : State) (k : ℕ) : Option State :=
  match s.point with
  | .read c =>
      if k ≤ MAX_BUFFER_SIZE ∧ k ≤ (s.up c).length ∧ (k = 0 → Gone s c) then
        some { s with
          point := .write c k
          buffer := uppercase (storeAt (overwrite s.buffer ((s.up c).take k)) k [0]) k
          written := s.written ++ List.range k ++ [k]
          up := Function.update s.up c ((s.up c).drop k) }
      else none
  | _ => none

def readFails (s : State) : Option State :=
  match s.point with
  | .read c => some { s with point := .accept, closed := Function.update s.closed c true }
  | _ => none

def write (s : State) (taken : ℕ) : Option State :=
  match s.point with
  | .write c n =>
      if taken ≤ n then
        some { s with
          point := .accept
          closed := Function.update s.closed c true
          down := Function.update s.down c (s.down c ++ (s.buffer.take n).take taken) }
      else none
  | _ => none

def clientWrite (message : ConnId → List Byte) (s : State) (c : ConnId) (taken : ℕ) :
    Option State :=
  let client := s.clients c
  if client.point = .write ∧ taken ≤ (message c).length then
    some { s with
      clients := Function.update s.clients c { client with
        point := .read
        printed := client.printed ++ lit "Message sent: ".toList ++ message c ++ lit ['\n'] }
      up := Function.update s.up c (s.up c ++ (message c).take taken) }
  else none

def clientRead (s : State) (c : ConnId) (k : ℕ) : Option State :=
  let client := s.clients c
  if client.point = .read ∧ k ≤ MAX_BUFFER_SIZE - 1 ∧ k ≤ (s.down c).length ∧
      (k = 0 → s.closed c = true ∧ s.down c = []) then
    let buffer := storeAt (overwrite client.buffer ((s.down c).take k)) k [0]
    some { s with
      clients := Function.update s.clients c {
        point := .returned
        buffer := buffer
        printed := client.printed ++ lit "Reply from server: ".toList ++ cstr buffer ++
          lit ['\n'] }
      down := Function.update s.down c ((s.down c).drop k) }
  else none

/-- `message` is what the client on each connection has to send. -/
def step (message : ConnId → List Byte) (s : State) : Action → Option State
  | .accept =>
      if s.point = .accept then
        some { s with point := .read s.accepted, accepted := s.accepted + 1 }
      else none
  | .acceptFails => if s.point = .accept then some s else none
  | .read k => read s k
  | .readFails => readFails s
  | .write taken => write s taken
  | .clientWrite c taken => clientWrite message s c taken
  | .clientRead c k => clientRead s c k
  | .clientFails c =>
      if (s.clients c).point = .write ∨ (s.clients c).point = .read then
        some { s with
          clients := Function.update s.clients c { s.clients c with point := .failed } }
      else none

section Definitions

variable (message : ConnId → List Byte)

def sent (c : ConnId) : List Byte :=
  lit "Connected to server.\n".toList ++ lit "Message sent: ".toList ++ message c ++ lit ['\n']

def capitals (c : ConnId) : List Byte := (message c).map toupper

/-- What a client has printed, and what is on its way to it, if it has not failed: once it has
returned, a beginning of its own message in capitals. -/
def Client.Served (c : ConnId) (k : Client) (down : List Byte) : Prop :=
  match k.point with
  | .write => k.printed = lit "Connected to server.\n".toList ∧ down <+: capitals message c
  | .read => k.printed = sent message c ∧ down <+: capitals message c
  | .returned => ∃ t, t <+: capitals message c ∧
      k.printed = sent message c ++ lit "Reply from server: ".toList ++ t ++ lit ['\n']
  | .failed => True

def Unread (s : State) (c : ConnId) : Prop := s.accepted ≤ c ∨ s.point = .read c

def Unanswered (s : State) (c : ConnId) : Prop := Unread s c ∨ ∃ n, s.point = .write c n

structure Kept (s : State) : Prop where
  current : ∀ c, s.point = .read c ∨ (∃ n, s.point = .write c n) → c < s.accepted
  unsent : ∀ c, (s.clients c).point = .write → s.up c = []
  unread : ∀ c, Unread s c → s.up c <+: message c
  answer : ∀ c n, s.point = .write c n → s.buffer.take n <+: capitals message c
  unanswered : ∀ c, Unanswered s c → s.down c = []
  served : ∀ c, (s.clients c).Served message c (s.down c)

end Definitions

section Run

variable {message : ConnId → List Byte} {s t : State}

private theorem kept_init (stack : List Byte) (buffers : ConnId → List Byte) :
    Kept message (init stack buffers) where
  current := by
    rintro c (here | ⟨n, here⟩) <;> cases here
  unsent _ _ := rfl
  unread _ _ := List.nil_prefix
  answer := by
    rintro c n here
    cases here
  unanswered _ _ := rfl
  served _ := ⟨rfl, List.nil_prefix⟩

private theorem served_update {c : ConnId} {k : Client} {down : List Byte}
    (before : ∀ c, (s.clients c).Served message c (s.down c)) (served : k.Served message c down)
    (c' : ConnId) :
    (Function.update s.clients c k c').Served message c' (Function.update s.down c down c') := by
  by_cases own : c' = c
  · subst own
    rw [Function.update_self, Function.update_self]
    exact served
  · rw [Function.update_of_ne own, Function.update_of_ne own]
    exact before c'

private theorem served_client {c : ConnId} {k : Client}
    (before : ∀ c, (s.clients c).Served message c (s.down c))
    (served : k.Served message c (s.down c)) (c' : ConnId) :
    (Function.update s.clients c k c').Served message c' (s.down c') := by
  have both := served_update before served c'
  rwa [Function.update_eq_self] at both

private theorem unsent_update {c : ConnId} {k : Client} {up : ConnId → List Byte}
    (before : ∀ c, (s.clients c).point = .write → s.up c = []) (past : k.point ≠ .write)
    (same : ∀ c' ≠ c, up c' = s.up c') (c' : ConnId)
    (waiting : (Function.update s.clients c k c').point = .write) : up c' = [] := by
  by_cases own : c' = c
  · subst own
    rw [Function.update_self] at waiting
    exact absurd waiting past
  · rw [Function.update_of_ne own] at waiting
    rw [same c' own]
    exact before c' waiting

private theorem Client.Served.answered {c : ConnId} {k : Client} {down down' : List Byte}
    (before : k.Served message c down) (answer : down' <+: capitals message c) :
    k.Served message c down' := by
  unfold Client.Served at before ⊢
  cases here : k.point with
  | write =>
    rw [here] at before
    exact ⟨before.1, answer⟩
  | read =>
    rw [here] at before
    exact ⟨before.1, answer⟩
  | returned =>
    rw [here] at before
    exact before
  | failed => trivial

private theorem kept_read (kept : Kept message s) {k : ℕ} (taken : read s k = some t) :
    Kept message t := by
  unfold read at taken
  split at taken
  case h_2 => cases taken
  case h_1 c here =>
    obtain ⟨⟨_, enough, _⟩, same⟩ := Option.ite_none_right_eq_some.mp taken
    obtain rfl := Option.some.inj same
    have short : ((s.up c).take k).length = k := List.length_take_of_le enough
    refine ⟨?_, ?_, ?_, ?_, ?_, kept.served⟩
    · rintro c' (next | ⟨n, next⟩)
      · cases next
      · cases next
        exact kept.current c (.inl here)
    · intro c' waiting
      have nothing : s.up c' = [] := kept.unsent c' waiting
      by_cases own : c' = c
      · subst own
        change Function.update s.up c' _ c' = []
        rw [Function.update_self, nothing, List.drop_nil]
      · exact (Function.update_of_ne own _ _).trans nothing
    · rintro c' (later | next)
      · have other : c' ≠ c := by
          rintro rfl
          exact absurd (kept.current c' (.inl here)) (Nat.not_lt.mpr later)
        change Function.update s.up c _ c' <+: message c'
        rw [Function.update_of_ne other]
        exact kept.unread c' (.inl later)
      · cases next
    · intro c' n next
      cases next
      have reply := take_uppercase s.buffer ((s.up c).take k)
      rw [short] at reply
      change (uppercase _ k).take k <+: capitals message c
      rw [reply]
      exact ((List.take_prefix k (s.up c)).trans (kept.unread c (.inr here))).map toupper
    · rintro c' ((later | next) | ⟨n, next⟩)
      · exact kept.unanswered c' (.inl (.inl later))
      · cases next
      · cases next
        exact kept.unanswered c (.inl (.inr here))

private theorem kept_readFails (kept : Kept message s) (taken : readFails s = some t) :
    Kept message t := by
  unfold readFails at taken
  split at taken
  case h_2 => cases taken
  case h_1 c here =>
    obtain rfl := Option.some.inj taken
    refine ⟨?_, kept.unsent, ?_, ?_, ?_, kept.served⟩
    · rintro c' (next | ⟨_, next⟩) <;> cases next
    · rintro c' (later | next)
      · exact kept.unread c' (.inl later)
      · cases next
    · rintro c' _ next
      cases next
    · rintro c' ((later | next) | ⟨_, next⟩)
      · exact kept.unanswered c' (.inl (.inl later))
      · cases next
      · cases next

private theorem kept_write (kept : Kept message s) {taken' : ℕ} (taken : write s taken' = some t) :
    Kept message t := by
  unfold write at taken
  split at taken
  case h_2 => cases taken
  case h_1 c n here =>
    obtain ⟨_, same⟩ := Option.ite_none_right_eq_some.mp taken
    obtain rfl := Option.some.inj same
    have nothing : s.down c = [] := kept.unanswered c (.inr ⟨n, here⟩)
    have answer : s.down c ++ (s.buffer.take n).take taken' <+: capitals message c := by
      rw [nothing]
      exact (List.take_prefix _ _).trans (kept.answer c n here)
    refine ⟨?_, kept.unsent, ?_, ?_, ?_, ?_⟩
    · rintro c' (next | ⟨_, next⟩) <;> cases next
    · rintro c' (later | next)
      · exact kept.unread c' (.inl later)
      · cases next
    · rintro c' _ next
      cases next
    · rintro c' ((later | next) | ⟨_, next⟩)
      · have other : c' ≠ c := by
          rintro rfl
          exact absurd (kept.current c' (.inr ⟨n, here⟩)) (Nat.not_lt.mpr later)
        change Function.update s.down c _ c' = []
        rw [Function.update_of_ne other]
        exact kept.unanswered c' (.inl (.inl later))
      · cases next
      · cases next
    · intro c'
      have both := served_update kept.served ((kept.served c).answered answer) c'
      rwa [Function.update_eq_self] at both

private theorem kept_clientWrite (kept : Kept message s) {c : ConnId} {taken' : ℕ}
    (taken : clientWrite message s c taken' = some t) : Kept message t := by
  obtain ⟨⟨here, _⟩, same⟩ := Option.ite_none_right_eq_some.mp taken
  obtain rfl := Option.some.inj same
  have nothing : s.up c = [] := kept.unsent c here
  have before := kept.served c
  rw [Client.Served, here] at before
  refine ⟨kept.current, ?_, ?_, kept.answer, kept.unanswered, ?_⟩
  · exact unsent_update kept.unsent nofun fun c' other => Function.update_of_ne other _ _
  · intro c' unread
    change Function.update s.up c _ c' <+: message c'
    by_cases own : c' = c
    · subst own
      rw [Function.update_self, nothing]
      exact List.take_prefix _ _
    · rw [Function.update_of_ne own]
      exact kept.unread c' unread
  · refine served_client kept.served ⟨?_, before.2⟩
    change (s.clients c).printed ++ _ ++ _ ++ _ = sent message c
    rw [before.1]
    rfl

private theorem kept_clientRead (kept : Kept message s) {c : ConnId} {k : ℕ}
    (taken : clientRead s c k = some t) : Kept message t := by
  obtain ⟨⟨here, _, enough, _⟩, same⟩ := Option.ite_none_right_eq_some.mp taken
  obtain rfl := Option.some.inj same
  have before := kept.served c
  rw [Client.Served, here] at before
  have got : (s.down c).take k <+: capitals message c :=
    (List.take_prefix k _).trans before.2
  have got' : cstr ((s.down c).take k) <+: capitals message c :=
    (List.takeWhile_prefix _).trans got
  have shown : cstr (storeAt (overwrite (s.clients c).buffer ((s.down c).take k)) k [0]) =
      cstr ((s.down c).take k) := by
    have stored := storeAt_overwrite (s.clients c).buffer ((s.down c).take k) [0]
    rw [List.length_take_of_le enough] at stored
    rw [stored, cstr_overwrite]
  refine ⟨kept.current, unsent_update kept.unsent nofun fun _ _ => rfl, kept.unread, kept.answer,
    ?_, ?_⟩
  · intro c' unanswered
    change Function.update s.down c _ c' = []
    by_cases own : c' = c
    · subst own
      rw [Function.update_self, kept.unanswered c' unanswered, List.drop_nil]
    · rw [Function.update_of_ne own]
      exact kept.unanswered c' unanswered
  · refine served_update kept.served ⟨cstr ((s.down c).take k), got', ?_⟩
    change (s.clients c).printed ++ _ ++ cstr _ ++ _ = _
    rw [shown, before.1]

private theorem kept_step (s : State) (a : Action) (t : State)
    (kept : Kept message s) (taken : step message s a = some t) : Kept message t := by
  cases a with
  | accept =>
    obtain ⟨here, same⟩ := Option.ite_none_right_eq_some.mp taken
    obtain rfl := Option.some.inj same
    have unread : ∀ c, Unread { s with point := .read s.accepted, accepted := s.accepted + 1 } c →
        s.accepted ≤ c := by
      rintro c (later | now)
      · exact Nat.le_of_succ_le later
      · cases now
        exact Nat.le_refl _
    refine ⟨?_, kept.unsent, ?_, ?_, ?_, kept.served⟩
    · rintro c (now | ⟨n, now⟩)
      · cases now
        exact Nat.lt_succ_self _
      · cases now
    · exact fun c next => kept.unread c (.inl (unread c next))
    · rintro c n now
      cases now
    · rintro c (next | ⟨n, now⟩)
      · exact kept.unanswered c (.inl (.inl (unread c next)))
      · cases now
  | acceptFails =>
    obtain ⟨_, same⟩ := Option.ite_none_right_eq_some.mp taken
    exact Option.some.inj same ▸ kept
  | read k => exact kept_read kept taken
  | readFails => exact kept_readFails kept taken
  | write n => exact kept_write kept taken
  | clientWrite c n => exact kept_clientWrite kept taken
  | clientRead c k => exact kept_clientRead kept taken
  | clientFails c =>
    obtain ⟨_, same⟩ := Option.ite_none_right_eq_some.mp taken
    obtain rfl := Option.some.inj same
    exact ⟨kept.current, unsent_update kept.unsent nofun fun _ _ => rfl, kept.unread, kept.answer,
      kept.unanswered, served_client kept.served trivial⟩

/-- Whatever connections there are, however their bytes are cut and whichever calls fail: a client
that gets to its end has printed a beginning of its own message in capitals, with nothing of what
the one buffer of the server held for another. -/
theorem shown_in_capitals {stack : List Byte} {buffers : ConnId → List Byte}
    (run : Reach (step message) (init stack buffers) t) (c : ConnId)
    (done : (t.clients c).point = .returned) :
    ∃ shown, shown <+: capitals message c ∧
      (t.clients c).printed = sent message c ++ lit "Reply from server: ".toList ++ shown ++
        lit ['\n'] := by
  have kept := invariant_of_step_reach kept_step (kept_init stack buffers) run
  have served := kept.served c
  rw [Client.Served, done] at served
  exact served

/-- Two clients, of which the second is cut short by the server's `write`, and which both find the
same buffer. -/
def twoMessages (c : ConnId) : List Byte := if c = 0 then lit ['h', 'e', 'y'] else lit ['o', 'k']

def bothServed : List Action :=
  [.accept, .clientWrite 0 3, .clientWrite 1 2, .read 3, .write 3, .accept, .read 2, .write 1,
    .clientRead 1 1, .clientRead 0 3]

theorem second_cut_short : ∃ t, Reach (step twoMessages) (init [] fun _ => []) t ∧
    (t.clients 0).printed = lit
      "Connected to server.\nMessage sent: hey\nReply from server: HEY\n".toList ∧
    ∃ shown, shown <+: capitals twoMessages 1 ∧
      (t.clients 1).printed = sent twoMessages 1 ++ lit "Reply from server: ".toList ++ shown ++
        lit ['\n'] := by
  have shown : (exec (step twoMessages) (init [] fun _ => []) bothServed).map
      (fun t => ((t.clients 1).point, (t.clients 0).printed)) =
      some (.returned,
        lit "Connected to server.\nMessage sent: hey\nReply from server: HEY\n".toList) := by
    decide +kernel
  obtain ⟨t, taken, ends⟩ := Option.map_eq_some_iff.mp shown
  obtain ⟨done, first⟩ := Prod.mk.inj ends
  have run : Reach (step twoMessages) (init [] fun _ => []) t := ⟨bothServed, taken⟩
  exact ⟨t, run, first, shown_in_capitals run 1 done⟩

end Run

section Bounds

variable {message : ConnId → List Byte}

def Inside (s : State) : Prop := ∀ i ∈ s.written, i < MAX_BUFFER_SIZE

private theorem inside_step (short : ∀ c, (message c).length < MAX_BUFFER_SIZE) (s : State)
    (a : Action)
    (t : State) (before : Kept message s ∧ Inside s) (taken : step message s a = some t) :
    Kept message t ∧ Inside t := by
  obtain ⟨kept, inside⟩ := before
  refine ⟨kept_step s a t kept taken, ?_⟩
  cases a with
  | read k =>
    change read s k = some t at taken
    unfold read at taken
    split at taken
    case h_2 => cases taken
    case h_1 c here =>
      obtain ⟨⟨_, enough, _⟩, same⟩ := Option.ite_none_right_eq_some.mp taken
      obtain rfl := Option.some.inj same
      have bound : k < MAX_BUFFER_SIZE :=
        (enough.trans (kept.unread c (.inr here)).length_le).trans_lt (short c)
      intro i listed
      change i ∈ s.written ++ List.range k ++ [k] at listed
      rw [List.append_assoc] at listed
      exact (List.mem_append.mp listed).elim (inside i) (range_zero_inside.mpr bound i)
  | readFails =>
    change readFails s = some t at taken
    unfold readFails at taken
    split at taken
    case h_2 => cases taken
    case h_1 c here =>
      obtain rfl := Option.some.inj taken
      exact inside
  | write n =>
    change write s n = some t at taken
    unfold write at taken
    split at taken
    case h_2 => cases taken
    case h_1 c n here =>
      obtain ⟨_, same⟩ := Option.ite_none_right_eq_some.mp taken
      obtain rfl := Option.some.inj same
      exact inside
  | accept | acceptFails | clientWrite | clientRead | clientFails =>
    obtain ⟨_, same⟩ := Option.ite_none_right_eq_some.mp taken
    obtain rfl := Option.some.inj same
    exact inside

private theorem reach_accepted (message : ConnId → List Byte) (stack : List Byte)
    (buffers : ConnId → List Byte) (n : ConnId) :
    ∃ t, Reach (step message) (init stack buffers) t ∧ t.point = .accept ∧ t.accepted = n ∧
      t.clients = (init stack buffers).clients ∧ t.up = (init stack buffers).up := by
  induction n with
  | zero => exact ⟨init stack buffers, ⟨[], rfl⟩, rfl, rfl, rfl, rfl⟩
  | succ n ih =>
    obtain ⟨t, ⟨as, run⟩, here, rfl, clients, up⟩ := ih
    have next : exec (step message) t [.accept, .readFails] = some { t with
        point := .accept
        accepted := t.accepted + 1
        closed := Function.update t.closed t.accepted true } := by
      rw [exec_cons, step, if_pos here]
      rfl
    exact ⟨_, ⟨_, exec_append_eq_some run next⟩, rfl, rfl, clients, up⟩

/-- From there a message that fills the buffer gets its NUL stored behind it. -/
theorem overrun {s : State} (here : s.point = .accept)
    (waiting : (s.clients s.accepted).point = .write) (nothing : s.up s.accepted = [])
    (long : MAX_BUFFER_SIZE ≤ (message s.accepted).length) :
    ∃ t, exec (step message) s [.accept, .clientWrite s.accepted (message s.accepted).length,
      .read MAX_BUFFER_SIZE] = some t ∧ MAX_BUFFER_SIZE ∈ t.written := by
  have first : step message s .accept =
      some { s with point := .read s.accepted, accepted := s.accepted + 1 } := if_pos here
  obtain ⟨t, second, point, up⟩ : ∃ t, step message
      { s with point := .read s.accepted, accepted := s.accepted + 1 }
      (.clientWrite s.accepted (message s.accepted).length) = some t ∧
      t.point = .read s.accepted ∧ t.up s.accepted = message s.accepted := by
    refine ⟨_, if_pos ⟨waiting, Nat.le_refl _⟩, rfl, ?_⟩
    change Function.update s.up s.accepted _ s.accepted = _
    rw [Function.update_self, List.take_length]
    change s.up s.accepted ++ _ = _
    rw [nothing, List.nil_append]
  obtain ⟨u, third, listed⟩ : ∃ u, read t MAX_BUFFER_SIZE = some u ∧
      MAX_BUFFER_SIZE ∈ u.written := by
    have full : MAX_BUFFER_SIZE = 0 → Gone t s.accepted := nofun
    have enough : MAX_BUFFER_SIZE ≤ (t.up s.accepted).length := by
      rw [up]
      exact long
    unfold read
    rw [point]
    exact ⟨_, if_pos ⟨Nat.le_refl _, enough, full⟩, List.mem_append_right _ List.mem_cons_self⟩
  refine ⟨u, ?_, listed⟩
  rw [exec_cons, first, Option.bind_some, exec_cons, second, Option.bind_some]
  exact exec_cons_eq_some.mpr ⟨u, third, rfl⟩

/-- The server stays inside of its buffer in every run exactly when no client has a message that
fills it. -/
theorem inside_iff_messages_short (stack : List Byte) (buffers : ConnId → List Byte) :
    (∀ t, Reach (step message) (init stack buffers) t → Inside t) ↔
      ∀ c, (message c).length < MAX_BUFFER_SIZE := by
  constructor
  · intro always c
    by_contra long
    rw [Nat.not_lt] at long
    obtain ⟨t, ⟨as, run⟩, here, ⟨⟩, clients, up⟩ := reach_accepted message stack buffers c
    obtain ⟨u, last, listed⟩ := overrun here (by rw [clients]; rfl) (by rw [up]; rfl) long
    exact Nat.lt_irrefl _ (always u ⟨_, exec_append_eq_some run last⟩ MAX_BUFFER_SIZE listed)
  · intro short t run
    have start : Kept message (init stack buffers) ∧ Inside (init stack buffers) :=
      ⟨kept_init stack buffers, fun _ nothing => absurd nothing List.not_mem_nil⟩
    exact (invariant_of_step_reach (inside_step short) start run).2

end Bounds

end SocketChat.TestCode.Uppercase.Tcp
