/- SocketChat/TestCode/BroadcastChat/Threads
   digest: What a step can do, who is within the mutex, and whose the descriptors are. -/

import SocketChat.Lib.Mutex
import SocketChat.Lib.Runs
import SocketChat.Lib.SlotTable
import SocketChat.TestCode.BroadcastChat.Model

set_option autoImplicit false
set_option relaxedAutoImplicit false

namespace SocketChat.TestCode.BroadcastChat.Threads

open SocketChat.Lib.CString
open SocketChat.Lib.Mutex
open SocketChat.Lib.Packed
open SocketChat.Lib.SlotTable (update_some_eq_some)
open SocketChat.TestCode.BroadcastChat.Model

inductive Walks (s : State) (fd : ℤ) : HandlerPoint → HandlerPoint → Prop
  | ended : Walks s fd .recv .lockRemove
  | passedOver (i : ℕ) (more : i < s.nclients) (other : s.clients[i]? ≠ some fd) :
      Walks s fd (.searching i) (.searching (i + 1))
  | found (i : ℕ) (more : i < s.nclients) (here : s.clients[i]? = some fd) :
      Walks s fd (.searching i) (.shifting i)
  | notFound (i : ℕ) (done : ¬i < s.nclients) : Walks s fd (.searching i) .unlockRemove

inductive Reads (s : State) : SendPoint → SendPoint → List Byte → Prop
  | inputEnded (nothing : Lib.Lines.fgets RCVBUFSIZE s.stdin = none) :
      Reads s .fgets .returned s.stdin
  | skipped (piece rest : List Byte)
      (read : Lib.Lines.fgets RCVBUFSIZE s.stdin = some (piece, rest))
      (empty : stripped piece = []) : Reads s .fgets .fgets rest
  | read (piece rest : List Byte)
      (read : Lib.Lines.fgets RCVBUFSIZE s.stdin = some (piece, rest))
      (text : stripped piece ≠ []) : Reads s .fgets (.lockBroadcast (stripped piece)) rest
  | looped (buf : List Byte) (i : ℕ) (done : ¬i < s.nclients) :
      Reads s (.broadcasting buf i) .unlockBroadcast s.stdin

/-- The steps of a thread other than those in which it waits for somebody else. -/
def turn : Owner → Action → Bool
  | .main, .main => true
  | .sender, .sender => true
  | .sender, .broadcast _ => true
  | .handler c, .handler d => c = d
  | _, _ => false

inductive Moves (s : State) : Action → State → Prop
  | died (a : Action) (message : String) (failed : ∀ w, turn w a = false) :
      Moves s a { s with died := some message }
  | accepted (fd : ℤ) (here : s.main = .accept) (fresh : s.fds fd = none) :
      Moves s (.accept fd)
        { s with
          main := .lockAdd fd
          fds := Function.update s.fds fd (some s.accepted)
          sock := Function.update s.sock s.accepted fd
          accepted := s.accepted + 1 }
  | addLocked (fd : ℤ) (here : s.main = .lockAdd fd) (free : s.clients_mtx = none) :
      Moves s .main { s with main := .add fd, clients_mtx := some .main }
  | stored (fd : ℤ) (here : s.main = .add fd) (room : s.nclients < MAXCLIENTS) :
      Moves s .main
        { s with
          main := .count fd
          clients := s.clients.set s.nclients fd room
          added := s.added ++ [s.newest] }
  | full (fd : ℤ) (here : s.main = .add fd) (full : ¬s.nclients < MAXCLIENTS) :
      Moves s .main { s with main := .unlockAdd fd }
  | counted (fd : ℤ) (here : s.main = .count fd) :
      Moves s .main { s with main := .unlockAdd fd, nclients := s.nclients + 1 }
  | addUnlocked (fd : ℤ) (here : s.main = .unlockAdd fd) :
      Moves s .main { s with main := .create fd, clients_mtx := none }
  | created (fd : ℤ) (here : s.main = .create fd) :
      Moves s .main
        { s with
          main := .accept
          handlers := Function.update s.handlers s.newest (some ⟨fd, .recv⟩) }
  | walked (a : Action) (c : ConnId) (h : Handler) (point : HandlerPoint)
      (thread : s.handlers c = some h) (walks : Walks s h.clntSock h.point point)
      (own : a = .handler c ∨ a = .recv c [] ∧ h.point = .recv) : Moves s a (s.goto c h point)
  | received (c : ConnId) (h : Handler) (got : List Byte) (thread : s.handlers c = some h)
      (here : h.point = .recv) (fits : got.length ≤ RCVBUFSIZE - 1) :
      Moves s (.recv c got)
        { s.goto c h (.send got) with
          received := Function.update s.received c (s.received c ++ got) }
  | echoed (c : ConnId) (h : Handler) (buf : List Byte) (thread : s.handlers c = some h)
      (here : h.point = .send buf) :
      Moves s (.send c buf.length)
        { s.goto c h .recv with
          echoed := Function.update s.echoed c (s.echoed c ++ buf)
          stream := put s.fds s.stream h.clntSock buf }
  | sendFailed (c : ConnId) (h : Handler) (buf : List Byte) (taken : ℕ)
      (thread : s.handlers c = some h) (here : h.point = .send buf)
      (short : taken < buf.length) :
      Moves s (.send c taken)
        { s with
          died := some "send() failed"
          stream := put s.fds s.stream h.clntSock (buf.take taken) }
  | removeLocked (c : ConnId) (h : Handler) (thread : s.handlers c = some h)
      (here : h.point = .lockRemove) (free : s.clients_mtx = none) :
      Moves s (.handler c)
        { s.goto c h (.searching 0) with
          clients_mtx := some (.handler c)
          removed := s.removed ++ [c] }
  | shifted (c : ConnId) (h : Handler) (j : ℕ) (thread : s.handlers c = some h)
      (here : h.point = .shifting j) (more : j + 1 < s.nclients) :
      Moves s (.handler c) { s.goto c h (.shifting (j + 1)) with clients := pull s.clients j }
  | shrunk (c : ConnId) (h : Handler) (j : ℕ) (thread : s.handlers c = some h)
      (here : h.point = .shifting j) (done : ¬j + 1 < s.nclients) :
      Moves s (.handler c) { s.goto c h .unlockRemove with nclients := s.nclients - 1 }
  | removeUnlocked (c : ConnId) (h : Handler) (thread : s.handlers c = some h)
      (here : h.point = .unlockRemove) :
      Moves s (.handler c) { s.goto c h .close with clients_mtx := none }
  | closed (c : ConnId) (h : Handler) (thread : s.handlers c = some h)
      (here : h.point = .close) :
      Moves s (.handler c)
        { s.goto c h .returned with fds := Function.update s.fds h.clntSock none }
  | reads (point : SendPoint) (rest : List Byte) (reads : Reads s s.sender point rest) :
      Moves s .sender { s with sender := point, stdin := rest }
  | broadcastLocked (buf : List Byte) (here : s.sender = .lockBroadcast buf)
      (free : s.clients_mtx = none) :
      Moves s .sender { s with sender := .broadcasting buf 0, clients_mtx := some .sender }
  | sent (taken : ℕ) (buf : List Byte) (i : ℕ) (fd : ℤ) (here : s.sender = .broadcasting buf i)
      (more : i < s.nclients) (bound : taken ≤ buf.length) (entry : s.clients[i]? = some fd) :
      Moves s (.broadcast taken)
        { s with
          sender := .broadcasting buf (i + 1)
          stream := put s.fds s.stream fd (buf.take taken) }
  | broadcastUnlocked (here : s.sender = .unlockBroadcast) :
      Moves s .sender { s with sender := .fgets, clients_mtx := none }

section Inversion

variable {s t : State}

private theorem moves_accept {clntSock : ℤ} (taken : accept s clntSock = some t) :
    Moves s (.accept clntSock) t := by
  unfold accept at taken
  split at taken
  · rename_i here
    split at taken
    · obtain rfl := Option.some.inj taken
      exact .died _ _ fun w => by cases w <;> rfl
    · split at taken
      · rename_i fresh
        obtain rfl := Option.some.inj taken
        exact .accepted clntSock here fresh.1
      · cases taken
  · cases taken

private theorem moves_main (taken : runMain s = some t) : Moves s .main t := by
  unfold runMain at taken
  split at taken
  · cases taken
  · rename_i fd here
    split at taken
    · rename_i free
      obtain rfl := Option.some.inj taken
      exact .addLocked fd here free
    · cases taken
  · rename_i fd here
    split at taken
    · rename_i room
      obtain rfl := Option.some.inj taken
      exact .stored fd here room
    · rename_i full
      obtain rfl := Option.some.inj taken
      exact .full fd here full
  · rename_i fd here
    obtain rfl := Option.some.inj taken
    exact .counted fd here
  · rename_i fd here
    obtain rfl := Option.some.inj taken
    exact .addUnlocked fd here
  · rename_i fd here
    obtain rfl := Option.some.inj taken
    exact .created fd here

private theorem moves_createFails (taken : createFails s = some t) : Moves s .createFails t := by
  unfold createFails at taken
  split at taken
  · obtain rfl := Option.some.inj taken
    exact .died _ _ fun w => by cases w <;> rfl
  · cases taken

private theorem moves_recv {c : ConnId} {got : List Byte} (taken : recv s c got = some t) :
    Moves s (.recv c got) t := by
  obtain ⟨⟨fd, point⟩, thread, taken⟩ := Option.bind_eq_some_iff.mp taken
  cases point with
  | recv =>
    dsimp only at taken
    split at taken
    · rename_i nothing
      obtain rfl := Option.some.inj taken
      subst nothing
      exact .walked _ c _ _ thread .ended (Or.inr ⟨rfl, rfl⟩)
    · split at taken
      · rename_i fits
        obtain rfl := Option.some.inj taken
        exact .received c _ got thread rfl fits
      · cases taken
  | _ => cases taken

private theorem moves_recvFails {c : ConnId} (taken : recvFails s c = some t) :
    Moves s (.recvFails c) t := by
  obtain ⟨⟨fd, point⟩, thread, taken⟩ := Option.bind_eq_some_iff.mp taken
  cases point with
  | recv =>
    obtain rfl := Option.some.inj taken
    exact .died _ _ fun w => by cases w <;> rfl
  | _ => cases taken

private theorem moves_send {c : ConnId} {k : ℕ} (taken : send s c k = some t) :
    Moves s (.send c k) t := by
  obtain ⟨⟨fd, point⟩, thread, taken⟩ := Option.bind_eq_some_iff.mp taken
  cases point with
  | send buf =>
    dsimp only at taken
    split at taken
    · rename_i whole
      obtain rfl := Option.some.inj taken
      subst whole
      exact .echoed c _ buf thread rfl
    · split at taken
      · rename_i short
        obtain rfl := Option.some.inj taken
        exact .sendFailed c _ buf k thread rfl short
      · cases taken
  | _ => cases taken

private theorem moves_handler {c : ConnId} (taken : runHandler s c = some t) :
    Moves s (.handler c) t := by
  obtain ⟨⟨fd, point⟩, thread, taken⟩ := Option.bind_eq_some_iff.mp taken
  cases point with
  | recv => cases taken
  | send buf => cases taken
  | lockRemove =>
    dsimp only at taken
    split at taken
    · rename_i free
      obtain rfl := Option.some.inj taken
      exact .removeLocked c _ thread rfl free
    · cases taken
  | searching i =>
    dsimp only at taken
    split at taken
    · rename_i more
      split at taken
      · rename_i here
        obtain rfl := Option.some.inj taken
        exact .walked _ c _ _ thread (.found i more here) (Or.inl rfl)
      · rename_i other
        obtain rfl := Option.some.inj taken
        exact .walked _ c _ _ thread (.passedOver i more other) (Or.inl rfl)
    · rename_i done
      obtain rfl := Option.some.inj taken
      exact .walked _ c _ _ thread (.notFound i done) (Or.inl rfl)
  | shifting j =>
    dsimp only at taken
    split at taken
    · rename_i more
      obtain rfl := Option.some.inj taken
      exact .shifted c _ j thread rfl more
    · rename_i done
      obtain rfl := Option.some.inj taken
      exact .shrunk c _ j thread rfl done
  | unlockRemove =>
    obtain rfl := Option.some.inj taken
    exact .removeUnlocked c _ thread rfl
  | close =>
    obtain rfl := Option.some.inj taken
    exact .closed c _ thread rfl
  | returned => cases taken

private theorem moves_sender (taken : runSender s = some t) : Moves s .sender t := by
  unfold runSender at taken
  split at taken
  · rename_i here
    split at taken
    · rename_i nothing
      obtain rfl := Option.some.inj taken
      exact .reads _ s.stdin (here ▸ .inputEnded nothing)
    · rename_i piece rest read
      split at taken
      · rename_i empty
        obtain rfl := Option.some.inj taken
        have moved := Moves.reads (s := s) .fgets rest (here ▸ .skipped piece rest read empty)
        rwa [← here] at moved
      · rename_i text
        obtain rfl := Option.some.inj taken
        exact .reads _ rest (here ▸ .read piece rest read text)
  · rename_i buf here
    split at taken
    · rename_i free
      obtain rfl := Option.some.inj taken
      exact .broadcastLocked buf here free
    · cases taken
  · rename_i buf i here
    split at taken
    · cases taken
    · rename_i done
      obtain rfl := Option.some.inj taken
      exact .reads _ s.stdin (here ▸ .looped buf i done)
  · rename_i here
    obtain rfl := Option.some.inj taken
    exact .broadcastUnlocked here
  · cases taken

private theorem moves_broadcast {k : ℕ} (taken : broadcast s k = some t) :
    Moves s (.broadcast k) t := by
  unfold broadcast at taken
  split at taken
  · rename_i buf i here
    split at taken
    · rename_i bounds
      obtain ⟨fd, entry, rfl⟩ := Option.map_eq_some_iff.mp taken
      exact .sent k buf i fd here bounds.1 bounds.2 entry
    · cases taken
  · cases taken

theorem moves_of_step {a : Action} (taken : step s a = some t) : Moves s a t := by
  unfold step at taken
  split at taken
  · cases a with
    | accept clntSock => exact moves_accept taken
    | main => exact moves_main taken
    | createFails => exact moves_createFails taken
    | recv c got => exact moves_recv taken
    | recvFails c => exact moves_recvFails taken
    | send c k => exact moves_send taken
    | handler c => exact moves_handler taken
    | sender => exact moves_sender taken
    | broadcast k => exact moves_broadcast taken
  · cases taken

end Inversion

def adds : MainPoint → Option ℤ
  | .accept => none
  | .lockAdd fd | .add fd | .count fd | .unlockAdd fd | .create fd => some fd

/-- Every handler has the descriptor of its connection, which is open until it has closed it, and
the connection that `main` is adding has no handler yet. -/
structure Wired (s : State) : Prop where
  known : ∀ c h, s.handlers c = some h → c < s.accepted ∧ h.clntSock = s.sock c
  opened : ∀ c < s.accepted, (∀ h, s.handlers c = some h → h.point ≠ .returned) →
    s.fds (s.sock c) = some c
  adding : ∀ fd, adds s.main = some fd →
    0 < s.accepted ∧ s.handlers s.newest = none ∧ fd = s.sock s.newest

private theorem Walks.running {s : State} {fd : ℤ} {before after : HandlerPoint}
    (walks : Walks s fd before after) : before ≠ .returned := by
  cases walks <;> exact HandlerPoint.noConfusion

theorem sock_ne {s : State} {c d : ConnId} (mine : s.fds (s.sock c) = some c)
    (other : s.fds (s.sock d) = some d) (differ : d ≠ c) : s.sock d ≠ s.sock c := by
  intro same
  rw [same, mine] at other
  exact differ (Option.some.inj other).symm

namespace Wired

variable {s t : State} {c : ConnId} {h : Handler} {point : HandlerPoint}

theorem open_of_running (w : Wired s) (thread : s.handlers c = some h)
    (running : h.point ≠ .returned) : s.fds h.clntSock = some c := by
  obtain ⟨inside, same⟩ := w.known c h thread
  rw [same]
  apply w.opened c inside
  intro h' thread'
  rw [thread] at thread'
  rwa [← Option.some.inj thread']

private theorem goto (w : Wired s) (thread : s.handlers c = some h) (running : h.point ≠ .returned)
    (handlers : t.handlers = Function.update s.handlers c (some { h with point := point }))
    (main : t.main = s.main) (accepted : t.accepted = s.accepted) (sock : t.sock = s.sock)
    (fds : t.fds = s.fds) : Wired t := by
  constructor
  · intro d h' thread'
    rw [handlers] at thread'
    rw [accepted, sock]
    rcases update_some_eq_some.mp thread' with ⟨rfl, rfl⟩ | ⟨_, old⟩
    · exact w.known d h thread
    · exact w.known d h' old
  · intro d inside open_
    rw [accepted] at inside
    rw [handlers] at open_
    rw [sock, fds]
    apply w.opened d inside
    intro h' old
    by_cases same : d = c
    · subst same
      rw [thread] at old
      rwa [← Option.some.inj old]
    · exact open_ h' (update_some_eq_some.mpr (Or.inr ⟨same, old⟩))
  · intro fd adding
    rw [main] at adding
    obtain ⟨pos, unhandled, same⟩ := w.adding fd adding
    have newest : t.newest = s.newest := by
      rw [State.newest, accepted]
      rfl
    rw [accepted, sock, handlers, newest, Function.update_of_ne]
    · exact ⟨pos, unhandled, same⟩
    · rintro rfl
      rw [thread] at unhandled
      cases unhandled

private theorem move_main (w : Wired s) (main : adds t.main = adds s.main)
    (handlers : t.handlers = s.handlers) (accepted : t.accepted = s.accepted)
    (sock : t.sock = s.sock) (fds : t.fds = s.fds) : Wired t := by
  have newest : t.newest = s.newest := by
    rw [State.newest, accepted]
    rfl
  constructor
  · rw [handlers, accepted, sock]
    exact w.known
  · rw [handlers, accepted, sock, fds]
    exact w.opened
  · rw [handlers, accepted, sock, main, newest]
    exact w.adding

private theorem accepted (w : Wired s) {fd : ℤ} (fresh : s.fds fd = none) :
    Wired { s with
      main := .lockAdd fd
      fds := Function.update s.fds fd (some s.accepted)
      sock := Function.update s.sock s.accepted fd
      accepted := s.accepted + 1 } := by
  have older : ∀ d h, s.handlers d = some h → d ≠ s.accepted := by
    intro d h thread
    exact Nat.ne_of_lt (w.known d h thread).1
  constructor
  · intro d h thread
    obtain ⟨inside, same⟩ := w.known d h thread
    refine ⟨Nat.lt_succ_of_lt inside, ?_⟩
    dsimp only
    rw [Function.update_of_ne (older d h thread)]
    exact same
  · intro d inside open_
    dsimp only at inside ⊢
    by_cases same : d = s.accepted
    · subst same
      rw [Function.update_self, Function.update_self]
    · have before := w.opened d (by omega) open_
      rw [Function.update_of_ne same, Function.update_of_ne, before]
      intro taken
      rw [taken, fresh] at before
      cases before
  · intro fd' adding
    cases adding
    refine ⟨Nat.succ_pos _, ?_, ?_⟩
    · cases thread : s.handlers s.accepted with
      | none => exact thread
      | some h => exact absurd rfl (older s.accepted h thread)
    · show fd = Function.update s.sock s.accepted fd s.accepted
      rw [Function.update_self]

private theorem created (w : Wired s) {fd : ℤ} (here : s.main = .create fd) :
    Wired { s with
      main := .accept
      handlers := Function.update s.handlers s.newest (some ⟨fd, .recv⟩) } := by
  obtain ⟨pos, unhandled, same⟩ := w.adding fd (by rw [here]; rfl)
  have inside : s.newest < s.accepted := Nat.sub_lt pos Nat.one_pos
  constructor
  · intro d h thread
    rcases update_some_eq_some.mp thread with ⟨rfl, rfl⟩ | ⟨_, old⟩
    · exact ⟨inside, same⟩
    · exact w.known d h old
  · intro d below open_
    apply w.opened d below
    intro h old
    refine open_ h (update_some_eq_some.mpr (Or.inr ⟨?_, old⟩))
    rintro rfl
    rw [unhandled] at old
    cases old
  · intro fd' adding
    cases adding

private theorem closed (w : Wired s) (thread : s.handlers c = some h)
    (running : h.point ≠ .returned) :
    Wired { s.goto c h .returned with fds := Function.update s.fds h.clntSock none } := by
  have moved : Wired (s.goto c h .returned) := w.goto thread running rfl rfl rfl rfl rfl
  obtain ⟨_, mine⟩ := w.known c h thread
  have behind := w.open_of_running thread running
  refine ⟨moved.known, ?_, moved.adding⟩
  intro d inside open_
  have other : d ≠ c := by
    rintro rfl
    exact open_ _ (Function.update_self ..) rfl
  have before := moved.opened d inside open_
  rw [mine] at behind ⊢
  show Function.update s.fds (s.sock c) none (s.sock d) = some d
  rw [Function.update_of_ne (sock_ne behind before other)]
  exact before

end Wired

theorem wired_init (servSock : ℤ) (stdin : List Byte) : Wired (init servSock stdin) where
  known := by
    intro c h thread
    cases thread
  opened := by
    intro c none_yet
    exact absurd none_yet (Nat.not_lt_zero c)
  adding := by
    intro fd adding
    cases adding

theorem wired_step (s : State) (a : Action) (t : State) (w : Wired s)
    (taken : step s a = some t) : Wired t := by
  cases moves_of_step taken with
  | died a message => exact ⟨w.known, w.opened, w.adding⟩
  | accepted fd here fresh => exact w.accepted fresh
  | addLocked fd here free => exact w.move_main (by rw [here]; rfl) rfl rfl rfl rfl
  | stored fd here room => exact w.move_main (by rw [here]; rfl) rfl rfl rfl rfl
  | full fd here full => exact w.move_main (by rw [here]; rfl) rfl rfl rfl rfl
  | counted fd here => exact w.move_main (by rw [here]; rfl) rfl rfl rfl rfl
  | addUnlocked fd here => exact w.move_main (by rw [here]; rfl) rfl rfl rfl rfl
  | created fd here => exact w.created here
  | walked a c h point thread walks => exact w.goto thread walks.running rfl rfl rfl rfl rfl
  | received c h got thread here fits =>
    exact w.goto thread (here ▸ HandlerPoint.noConfusion) rfl rfl rfl rfl rfl
  | echoed c h buf thread here =>
    exact w.goto thread (here ▸ HandlerPoint.noConfusion) rfl rfl rfl rfl rfl
  | sendFailed c h buf taken thread here short => exact ⟨w.known, w.opened, w.adding⟩
  | removeLocked c h thread here free =>
    exact w.goto thread (here ▸ HandlerPoint.noConfusion) rfl rfl rfl rfl rfl
  | shifted c h j thread here more =>
    exact w.goto thread (here ▸ HandlerPoint.noConfusion) rfl rfl rfl rfl rfl
  | shrunk c h j thread here done =>
    exact w.goto thread (here ▸ HandlerPoint.noConfusion) rfl rfl rfl rfl rfl
  | removeUnlocked c h thread here =>
    exact w.goto thread (here ▸ HandlerPoint.noConfusion) rfl rfl rfl rfl rfl
  | closed c h thread here => exact w.closed thread (here ▸ HandlerPoint.noConfusion)
  | reads point rest reads => exact ⟨w.known, w.opened, w.adding⟩
  | broadcastLocked buf here free => exact ⟨w.known, w.opened, w.adding⟩
  | sent taken buf i fd here more bound entry => exact ⟨w.known, w.opened, w.adding⟩
  | broadcastUnlocked here => exact ⟨w.known, w.opened, w.adding⟩

def MainPoint.critical : MainPoint → Bool
  | .add _ | .count _ | .unlockAdd _ => true
  | _ => false

def SendPoint.critical : SendPoint → Bool
  | .broadcasting _ _ | .unlockBroadcast => true
  | _ => false

def HandlerPoint.critical : HandlerPoint → Bool
  | .searching _ | .shifting _ | .unlockRemove => true
  | _ => false

def critical (s : State) : Owner → Bool
  | .main => MainPoint.critical s.main
  | .sender => SendPoint.critical s.sender
  | .handler c => (s.handlers c).elim false fun h => HandlerPoint.critical h.point

section Mutex

variable {s t : State} {c : ConnId} {h : Handler}

theorem critical_handler (thread : s.handlers c = some h) :
    critical s (.handler c) = HandlerPoint.critical h.point := by
  rw [critical, thread]
  rfl

private theorem critical_of_main (sender : t.sender = s.sender)
    (handlers : t.handlers = s.handlers) :
    critical t = Function.update (critical s) .main (MainPoint.critical t.main) := by
  funext o
  cases o with
  | main =>
    rw [Function.update_self]
    rfl
  | sender =>
    rw [Function.update_of_ne Owner.noConfusion, critical, critical, sender]
  | handler d =>
    rw [Function.update_of_ne Owner.noConfusion, critical, critical, handlers]

private theorem critical_of_sender (main : t.main = s.main) (handlers : t.handlers = s.handlers) :
    critical t = Function.update (critical s) .sender (SendPoint.critical t.sender) := by
  funext o
  cases o with
  | main => rw [Function.update_of_ne Owner.noConfusion, critical, critical, main]
  | sender =>
    rw [Function.update_self]
    rfl
  | handler d =>
    rw [Function.update_of_ne Owner.noConfusion, critical, critical, handlers]

private theorem critical_of_handler (main : t.main = s.main) (sender : t.sender = s.sender)
    (handlers : t.handlers = Function.update s.handlers c (some h)) :
    critical t =
      Function.update (critical s) (.handler c) (HandlerPoint.critical h.point) := by
  funext o
  cases o with
  | main => rw [Function.update_of_ne Owner.noConfusion, critical, critical, main]
  | sender => rw [Function.update_of_ne Owner.noConfusion, critical, critical, sender]
  | handler d =>
    by_cases same : d = c
    · subst same
      rw [Function.update_self, critical, handlers, Function.update_self]
      rfl
    · rw [Function.update_of_ne (fun is => same (Owner.handler.inj is)), critical, critical,
        handlers, Function.update_of_ne same]

private theorem held_of_main {owner : Option Owner}
    (held : Held (Function.update (critical s) .main (MainPoint.critical t.main)) owner)
    (sender : t.sender = s.sender) (handlers : t.handlers = s.handlers) :
    Held (critical t) owner := by
  rw [critical_of_main sender handlers]
  exact held

private theorem held_of_sender {owner : Option Owner}
    (held : Held (Function.update (critical s) .sender (SendPoint.critical t.sender)) owner)
    (main : t.main = s.main) (handlers : t.handlers = s.handlers) : Held (critical t) owner := by
  rw [critical_of_sender main handlers]
  exact held

private theorem held_of_handler {owner : Option Owner}
    (held : Held (Function.update (critical s) (.handler c) (HandlerPoint.critical h.point))
      owner)
    (main : t.main = s.main) (sender : t.sender = s.sender)
    (handlers : t.handlers = Function.update s.handlers c (some h)) : Held (critical t) owner := by
  rw [critical_of_handler main sender handlers]
  exact held

end Mutex

def Owned (s : State) : Prop := Held (critical s) s.clients_mtx

theorem owned_init (servSock : ℤ) (stdin : List Byte) : Owned (init servSock stdin) := by
  have nobody : critical (init servSock stdin) = fun _ => false := by
    funext o
    cases o <;> rfl
  rw [Owned, nobody]
  exact Held.free

private theorem Walks.critical_eq {s : State} {fd : ℤ} {before after : HandlerPoint}
    (walks : Walks s fd before after) :
    HandlerPoint.critical before = HandlerPoint.critical after := by
  cases walks <;> rfl

private theorem Reads.critical_eq {s : State} {before after : SendPoint} {rest : List Byte}
    (reads : Reads s before after rest) :
    SendPoint.critical before = SendPoint.critical after := by
  cases reads <;> rfl

theorem owned_step (s : State) (a : Action) (t : State) (w : Wired s) (owned : Owned s)
    (taken : step s a = some t) : Owned t := by
  unfold Owned at owned ⊢
  have main : ∀ {point b}, s.main = point → MainPoint.critical point = b →
      critical s .main = b := by
    rintro point b rfl same
    exact same
  have handler : ∀ {c h point b}, s.handlers c = some h → h.point = point →
      HandlerPoint.critical point = b → critical s (.handler c) = b := by
    rintro c h point b thread rfl same
    exact (critical_handler thread).trans same
  cases moves_of_step taken with
  | died a message => exact owned
  | accepted fd here fresh =>
    exact held_of_main (owned.stay (main here rfl)) rfl rfl
  | addLocked fd here free =>
    exact held_of_main (owned.lock free) rfl rfl
  | stored fd here room =>
    exact held_of_main (owned.stay (main here rfl)) rfl rfl
  | full fd here full =>
    exact held_of_main (owned.stay (main here rfl)) rfl rfl
  | counted fd here =>
    exact held_of_main (owned.stay (main here rfl)) rfl rfl
  | addUnlocked fd here =>
    exact held_of_main (owned.unlock (main here rfl)) rfl rfl
  | created fd here =>
    have unhandled := (w.adding fd (by rw [here]; rfl)).2.1
    have started : critical s (.handler s.newest) = false := by
      rw [critical, unhandled]
      rfl
    have waits : Held (critical { s with main := .accept }) s.clients_mtx :=
      held_of_main (owned.stay (main here rfl)) rfl rfl
    have both : Held (Function.update (critical { s with main := .accept })
        (.handler s.newest) false) s.clients_mtx := waits.stay started
    exact held_of_handler (s := { s with main := .accept }) both rfl rfl rfl
  | walked a c h point thread walks =>
    exact held_of_handler (owned.stay (handler thread rfl walks.critical_eq)) rfl rfl rfl
  | received c h got thread here fits =>
    exact held_of_handler (owned.stay (handler thread here rfl)) rfl rfl rfl
  | echoed c h buf thread here =>
    exact held_of_handler (owned.stay (handler thread here rfl)) rfl rfl rfl
  | sendFailed c h buf taken thread here short => exact owned
  | removeLocked c h thread here free =>
    exact held_of_handler (s := s) (owned.lock free) rfl rfl rfl
  | shifted c h j thread here more =>
    exact held_of_handler (owned.stay (handler thread here rfl)) rfl rfl rfl
  | shrunk c h j thread here done =>
    exact held_of_handler (owned.stay (handler thread here rfl)) rfl rfl rfl
  | removeUnlocked c h thread here =>
    exact held_of_handler (s := s) (owned.unlock (handler thread here rfl)) rfl rfl rfl
  | closed c h thread here =>
    exact held_of_handler (owned.stay (handler thread here rfl)) rfl rfl rfl
  | reads point rest reads =>
    exact held_of_sender (owned.stay reads.critical_eq) rfl rfl
  | broadcastLocked buf here free =>
    exact held_of_sender (owned.lock free) rfl rfl
  | sent taken buf i fd here more bound entry =>
    exact held_of_sender (owned.stay (by rw [critical, here]; rfl)) rfl rfl
  | broadcastUnlocked here =>
    exact held_of_sender (owned.unlock (by rw [critical, here]; rfl)) rfl rfl

end SocketChat.TestCode.BroadcastChat.Threads
