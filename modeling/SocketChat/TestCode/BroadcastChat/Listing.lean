/- SocketChat/TestCode/BroadcastChat/Listing
   digest: What clients[0..nclients) lists whenever the mutex is free. -/

import SocketChat.TestCode.BroadcastChat.Threads

set_option autoImplicit false
set_option relaxedAutoImplicit false

namespace SocketChat.TestCode.BroadcastChat.Listing

open SocketChat.Lib.Mutex
open SocketChat.Lib.Packed
open SocketChat.Lib.Runs
open SocketChat.Lib.SlotTable (update_some_eq_some)
open SocketChat.TestCode.BroadcastChat.Model
open SocketChat.TestCode.BroadcastChat.Threads

/-- The connections that were added when there was room and have not been removed since. -/
def listed (s : State) : List ConnId := s.added.filter fun c => c ∉ s.removed

def early : MainPoint → Bool
  | .lockAdd _ | .add _ => true
  | _ => false

def gone : HandlerPoint → Bool
  | .searching _ | .shifting _ | .unlockRemove | .close | .returned => true
  | _ => false

structure Booked (s : State) : Prop where
  earlier : ∀ d ∈ s.added, d < s.accepted
  before : early s.main = true → ∀ d ∈ s.added, d < s.newest
  sorted : s.added.Pairwise (· < ·)
  called : ∀ c, c ∈ s.removed ↔ ∃ h, s.handlers c = some h ∧ gone h.point = true

structure Fits (s : State) : Prop where
  bound : s.nclients ≤ MAXCLIENTS
  counting : ∀ fd, s.main = .count fd → s.nclients < MAXCLIENTS
  shifting : ∀ c h j, s.handlers c = some h → h.point = .shifting j → j < s.nclients

section Booked

variable {s t : State} {c : ConnId} {h : Handler} {point : HandlerPoint}

theorem mem_listed : c ∈ listed s ↔ c ∈ s.added ∧ c ∉ s.removed := by
  rw [listed, List.mem_filter, decide_eq_true_eq]

theorem open_of_listed (w : Wired s) (b : Booked s) (inside : c ∈ listed s) :
    s.fds (s.sock c) = some c := by
  obtain ⟨added, kept⟩ := mem_listed.mp inside
  apply w.opened c (b.earlier c added)
  intro h thread returned
  exact kept ((b.called c).mpr ⟨h, thread, by rw [returned]; rfl⟩)

private theorem sock_ne_of_listed (w : Wired s) (b : Booked s) {d : ConnId} (inside : d ∈ listed s)
    (mine : s.fds (s.sock c) = some c) : s.sock d ≠ s.sock c ↔ d ≠ c := by
  refine ⟨fun differ same => differ (by rw [same]), fun differ => ?_⟩
  exact sock_ne mine (open_of_listed w b inside) differ

private theorem Booked.goto (b : Booked s) (thread : s.handlers c = some h)
    (same : gone point = gone h.point)
    (handlers : t.handlers = Function.update s.handlers c (some { h with point := point }))
    (main : t.main = s.main) (accepted : t.accepted = s.accepted) (added : t.added = s.added)
    (removed : t.removed = s.removed) : Booked t := by
  have newest : t.newest = s.newest := by
    rw [State.newest, accepted]
    rfl
  refine ⟨by rw [added, accepted]; exact b.earlier, by rw [main, added, newest]; exact b.before,
    by rw [added]; exact b.sorted, ?_⟩
  intro d
  rw [removed, handlers, b.called d]
  by_cases is : d = c
  · subst is
    rw [Function.update_self, thread]
    simp [same]
  · rw [Function.update_of_ne is]

private theorem Booked.move_main (b : Booked s) (first : early t.main = true → early s.main = true)
    (handlers : t.handlers = s.handlers) (accepted : t.accepted = s.accepted)
    (added : t.added = s.added) (removed : t.removed = s.removed) : Booked t := by
  have newest : t.newest = s.newest := by
    rw [State.newest, accepted]
    rfl
  refine ⟨by rw [added, accepted]; exact b.earlier, ?_, by rw [added]; exact b.sorted,
    by rw [removed, handlers]; exact b.called⟩
  intro is_early
  rw [added, newest]
  exact b.before (first is_early)

private theorem booked_init (servSock : ℤ) (stdin : List UInt8) : Booked (init servSock stdin) where
  earlier := by
    intro d none_yet
    cases none_yet
  before := by
    intro _ d none_yet
    cases none_yet
  sorted := List.Pairwise.nil
  called := by
    intro c
    refine iff_of_false List.not_mem_nil ?_
    rintro ⟨h, thread, _⟩
    cases thread

end Booked

private theorem walks_gone {s : State} {fd : ℤ} {before after : HandlerPoint}
    (walks : Walks s fd before after) : gone after = gone before := by
  cases walks <;> rfl

private theorem booked_step (s : State) (a : Action) (t : State) (w : Wired s) (b : Booked s)
    (taken : step s a = some t) : Booked t := by
  cases moves_of_step taken with
  | died a message => exact ⟨b.earlier, b.before, b.sorted, b.called⟩
  | accepted fd here fresh =>
    refine ⟨?_, ?_, b.sorted, b.called⟩
    · intro d added
      exact Nat.lt_succ_of_lt (b.earlier d added)
    · intro _ d added
      exact b.earlier d added
  | addLocked fd here free =>
    exact b.move_main (fun _ => by rw [here]; rfl) rfl rfl rfl rfl
  | stored fd here room =>
    obtain ⟨pos, unhandled, _⟩ := w.adding fd (by rw [here]; rfl)
    have older := b.before (by rw [here]; rfl)
    refine ⟨?_, Bool.noConfusion, ?_, b.called⟩
    · intro d added
      rcases List.mem_append.mp added with old | new
      · exact b.earlier d old
      · rw [List.mem_singleton.mp new]
        exact Nat.sub_lt pos Nat.one_pos
    · refine List.pairwise_append.mpr ⟨b.sorted, List.pairwise_singleton _ _, ?_⟩
      intro d old e new
      rw [List.mem_singleton.mp new]
      exact older d old
  | full fd here full => exact b.move_main Bool.noConfusion rfl rfl rfl rfl
  | counted fd here => exact b.move_main Bool.noConfusion rfl rfl rfl rfl
  | addUnlocked fd here => exact b.move_main Bool.noConfusion rfl rfl rfl rfl
  | created fd here =>
    obtain ⟨_, unhandled, _⟩ := w.adding fd (by rw [here]; rfl)
    refine ⟨b.earlier, Bool.noConfusion, b.sorted, ?_⟩
    intro d
    rw [b.called d]
    dsimp only
    by_cases is : d = s.newest
    · subst is
      rw [Function.update_self, unhandled]
      simp [gone]
    · rw [Function.update_of_ne is]
  | walked a c h point thread walks =>
    exact b.goto thread (walks_gone walks) rfl rfl rfl rfl rfl
  | received c h got thread here fits =>
    exact b.goto thread (by rw [here]; rfl) rfl rfl rfl rfl rfl
  | echoed c h buf thread here => exact b.goto thread (by rw [here]; rfl) rfl rfl rfl rfl rfl
  | sendFailed c h buf taken thread here short => exact ⟨b.earlier, b.before, b.sorted, b.called⟩
  | removeLocked c h thread here free =>
    refine ⟨b.earlier, b.before, b.sorted, ?_⟩
    intro d
    show d ∈ s.removed ++ [c] ↔ ∃ h', Function.update s.handlers c
      (some { h with point := .searching 0 }) d = some h' ∧ gone h'.point = true
    rw [List.mem_append, b.called d, List.mem_singleton]
    by_cases is : d = c
    · subst is
      rw [Function.update_self]
      simp [gone]
    · rw [Function.update_of_ne is]
      simp [is]
  | shifted c h j thread here more => exact b.goto thread (by rw [here]; rfl) rfl rfl rfl rfl rfl
  | shrunk c h j thread here done => exact b.goto thread (by rw [here]; rfl) rfl rfl rfl rfl rfl
  | removeUnlocked c h thread here =>
    exact b.goto thread (by rw [here]; rfl) rfl rfl rfl rfl rfl
  | closed c h thread here => exact b.goto thread (by rw [here]; rfl) rfl rfl rfl rfl rfl
  | reads point rest reads => exact ⟨b.earlier, b.before, b.sorted, b.called⟩
  | broadcastLocked buf here free => exact ⟨b.earlier, b.before, b.sorted, b.called⟩
  | sent taken buf i fd here more bound entry => exact ⟨b.earlier, b.before, b.sorted, b.called⟩
  | broadcastUnlocked here => exact ⟨b.earlier, b.before, b.sorted, b.called⟩

section Fits

variable {s t : State} {c : ConnId} {h : Handler} {point : HandlerPoint}

private theorem Fits.goto (f : Fits s) (within : ∀ j, point = .shifting j → j < s.nclients)
    (handlers : t.handlers = Function.update s.handlers c (some { h with point := point }))
    (main : t.main = s.main) (nclients : t.nclients = s.nclients) : Fits t := by
  refine ⟨by rw [nclients]; exact f.bound, by rw [main, nclients]; exact f.counting, ?_⟩
  intro d h' j thread here
  rw [handlers] at thread
  rw [nclients]
  rcases update_some_eq_some.mp thread with ⟨rfl, rfl⟩ | ⟨_, old⟩
  · exact within j here
  · exact f.shifting d h' j old here

private theorem Fits.move_main (f : Fits s) (other : ∀ fd, t.main ≠ .count fd)
    (handlers : t.handlers = s.handlers) (nclients : t.nclients = s.nclients) : Fits t := by
  refine ⟨by rw [nclients]; exact f.bound, fun fd here => absurd here (other fd), ?_⟩
  rw [handlers, nclients]
  exact f.shifting

private theorem alone (owned : Owned s) (thread : s.handlers c = some h)
    (inside : HandlerPoint.critical h.point = true) :
    (∀ fd, s.main ≠ .count fd) ∧
      ∀ d h' j, s.handlers d = some h' → h'.point = .shifting j → d = c := by
  have mine : critical s (.handler c) = true := (critical_handler thread).trans inside
  constructor
  · intro fd here
    have main : critical s .main = true := by
      rw [critical, here]
      rfl
    cases Held.unique owned mine main
  · intro d h' j thread' here
    have other : critical s (.handler d) = true := by
      rw [critical_handler thread', here]
      rfl
    exact Owner.handler.inj (Held.unique owned mine other)

end Fits

private theorem fits_init (servSock : ℤ) (stdin : List UInt8) : Fits (init servSock stdin) where
  bound := Nat.zero_le _
  counting := by
    intro fd here
    cases here
  shifting := by
    intro c h j thread
    cases thread

private theorem fits_step (s : State) (a : Action) (t : State) (owned : Owned s) (f : Fits s)
    (taken : step s a = some t) : Fits t := by
  cases moves_of_step taken with
  | died a message => exact ⟨f.bound, f.counting, f.shifting⟩
  | accepted fd here fresh => exact f.move_main (fun _ => MainPoint.noConfusion) rfl rfl
  | addLocked fd here free => exact f.move_main (fun _ => MainPoint.noConfusion) rfl rfl
  | stored fd here room => exact ⟨f.bound, fun _ _ => room, f.shifting⟩
  | full fd here full => exact f.move_main (fun _ => MainPoint.noConfusion) rfl rfl
  | counted fd here =>
    refine ⟨f.counting fd here, fun _ => MainPoint.noConfusion, ?_⟩
    intro c h j thread point
    exact Nat.lt_succ_of_lt (f.shifting c h j thread point)
  | addUnlocked fd here => exact f.move_main (fun _ => MainPoint.noConfusion) rfl rfl
  | created fd here =>
    refine ⟨f.bound, fun _ => MainPoint.noConfusion, ?_⟩
    intro c h j thread point
    rcases update_some_eq_some.mp thread with ⟨_, rfl⟩ | ⟨_, old⟩
    · cases point
    · exact f.shifting c h j old point
  | walked a c h point thread walks =>
    refine f.goto ?_ rfl rfl rfl
    rintro j rfl
    generalize h.point = before at walks
    cases walks with
    | found i more here => exact more
  | received c h got thread here fits =>
    exact f.goto (fun _ => HandlerPoint.noConfusion) rfl rfl rfl
  | echoed c h buf thread here => exact f.goto (fun _ => HandlerPoint.noConfusion) rfl rfl rfl
  | sendFailed c h buf taken thread here short => exact ⟨f.bound, f.counting, f.shifting⟩
  | removeLocked c h thread here free =>
    exact f.goto (fun _ => HandlerPoint.noConfusion) rfl rfl rfl
  | shifted c h j thread here more =>
    refine f.goto ?_ rfl rfl rfl
    intro k same
    rw [← HandlerPoint.shifting.inj same]
    exact more
  | shrunk c h j thread here done =>
    obtain ⟨quiet, single⟩ := alone owned thread (by rw [here]; rfl)
    have size : MAXCLIENTS = 100 := rfl
    have bound := f.bound
    refine ⟨by show s.nclients - 1 ≤ MAXCLIENTS; omega, fun fd here => absurd here (quiet fd), ?_⟩
    intro d h' k thread' here'
    rcases update_some_eq_some.mp thread' with ⟨_, rfl⟩ | ⟨other, old⟩
    · cases here'
    · exact absurd (single d h' k old here') other
  | removeUnlocked c h thread here =>
    exact f.goto (fun _ => HandlerPoint.noConfusion) rfl rfl rfl
  | closed c h thread here => exact f.goto (fun _ => HandlerPoint.noConfusion) rfl rfl rfl
  | reads point rest reads => exact ⟨f.bound, f.counting, f.shifting⟩
  | broadcastLocked buf here free => exact ⟨f.bound, f.counting, f.shifting⟩
  | sent taken buf i fd here more bound entry => exact ⟨f.bound, f.counting, f.shifting⟩
  | broadcastUnlocked here => exact ⟨f.bound, f.counting, f.shifting⟩

/-- `clients[0..nclients)`. -/
def table (s : State) : List ℤ := live s.clients s.nclients

/-- The list once `main` has finished what it has begun with it. -/
def afterAdd (s : State) : MainPoint → List ℤ
  | .count _ => live s.clients (s.nclients + 1)
  | _ => table s

def afterRemove (s : State) (fd : ℤ) : HandlerPoint → List ℤ
  | .searching i => removeFrom s.clients s.nclients fd i
  | .shifting j => live (shiftFrom s.clients s.nclients j) (s.nclients - 1)
  | _ => table s

/-- The list once the given owner of the mutex gives it back. -/
def settledBy (s : State) : Option Owner → List ℤ
  | some .main => afterAdd s s.main
  | some (.handler c) => (s.handlers c).elim (table s) fun h => afterRemove s h.clntSock h.point
  | _ => table s

def settled (s : State) : List ℤ := settledBy s s.clients_mtx

section Settled

variable {s t : State} {c : ConnId} {h : Handler} {point : HandlerPoint}

private theorem settled_of_main (owned : Owned s) (inside : MainPoint.critical s.main = true) :
    settled s = afterAdd s s.main := by
  rw [settled, (owned .main).mp inside]
  rfl

private theorem settled_of_handler (owned : Owned s) (thread : s.handlers c = some h)
    (inside : HandlerPoint.critical h.point = true) :
    settled s = afterRemove s h.clntSock h.point := by
  rw [settled, (owned (.handler c)).mp ((critical_handler thread).trans inside), settledBy, thread]
  rfl

private theorem table_congr (clients : t.clients = s.clients) (nclients : t.nclients = s.nclients) :
    table t = table s := by
  rw [table, clients, nclients]
  rfl

private theorem afterAdd_congr (clients : t.clients = s.clients)
    (nclients : t.nclients = s.nclients)
    (point : MainPoint) : afterAdd t point = afterAdd s point := by
  cases point with
  | count fd => rw [afterAdd, afterAdd, clients, nclients]
  | _ => exact table_congr clients nclients

private theorem afterRemove_congr (clients : t.clients = s.clients)
    (nclients : t.nclients = s.nclients)
    (fd : ℤ) (point : HandlerPoint) : afterRemove t fd point = afterRemove s fd point := by
  cases point with
  | searching i => rw [afterRemove, afterRemove, clients, nclients]
  | shifting j => rw [afterRemove, afterRemove, clients, nclients]
  | _ => exact table_congr clients nclients

private theorem settledBy_goto (owner : Option Owner) (thread : s.handlers c = some h)
    (same : afterRemove s h.clntSock point = afterRemove s h.clntSock h.point)
    (handlers : t.handlers = Function.update s.handlers c (some { h with point := point }))
    (main : t.main = s.main) (clients : t.clients = s.clients)
    (nclients : t.nclients = s.nclients) : settledBy t owner = settledBy s owner := by
  have tables := table_congr clients nclients
  cases owner with
  | none => exact tables
  | some o =>
    cases o with
    | main =>
      rw [settledBy, settledBy, main]
      exact afterAdd_congr clients nclients s.main
    | sender => exact tables
    | handler d =>
      rw [settledBy, settledBy, handlers]
      by_cases is : d = c
      · subst is
        rw [Function.update_self, thread]
        exact (afterRemove_congr clients nclients _ _).trans same
      · rw [Function.update_of_ne is, tables]
        cases s.handlers d with
        | none => rfl
        | some h' => exact afterRemove_congr clients nclients _ _

private theorem settledBy_main (owner : Option Owner) (same : afterAdd t t.main = afterAdd s s.main)
    (handlers : t.handlers = s.handlers) (clients : t.clients = s.clients)
    (nclients : t.nclients = s.nclients) : settledBy t owner = settledBy s owner := by
  have tables := table_congr clients nclients
  cases owner with
  | none => exact tables
  | some o =>
    cases o with
    | main => exact same
    | sender => exact tables
    | handler d =>
      rw [settledBy, settledBy, handlers, tables]
      cases s.handlers d with
      | none => rfl
      | some h' => exact afterRemove_congr clients nclients _ _

private theorem settled_created {fd : ℤ} (here : s.main = .create fd)
    (unhandled : s.handlers s.newest = none) :
    settled { s with
      main := .accept
      handlers := Function.update s.handlers s.newest (some ⟨fd, .recv⟩) } = settled s := by
  have waiting : settledBy { s with main := .accept } s.clients_mtx =
      settledBy s s.clients_mtx := settledBy_main _ (by rw [here]; rfl) rfl rfl rfl
  rw [settled, settled, ← waiting]
  cases s.clients_mtx with
  | none => rfl
  | some o =>
    cases o with
    | main => rfl
    | sender => rfl
    | handler d =>
      show (Function.update s.handlers s.newest (some ⟨fd, .recv⟩) d).elim _ _ =
        (s.handlers d).elim _ _
      by_cases is : d = s.newest
      · rw [is, Function.update_self, unhandled]
        rfl
      · rw [Function.update_of_ne is]
        rfl

private theorem settled_of_goto (owned : Owned s) (thread : s.handlers c = some h)
    (inside : HandlerPoint.critical h.point = true)
    (handlers : t.handlers = Function.update s.handlers c (some { h with point := point }))
    (mutex : t.clients_mtx = s.clients_mtx) : settled t = afterRemove t h.clntSock point := by
  have mine := (owned (.handler c)).mp ((critical_handler thread).trans inside)
  rw [settled, mutex, mine, settledBy, handlers, Function.update_self]
  rfl

private theorem settled_shifted {j : ℕ} (owned : Owned s) (thread : s.handlers c = some h)
    (here : h.point = .shifting j) (more : j + 1 < s.nclients) :
    settled { s.goto c h (.shifting (j + 1)) with clients := pull s.clients j } = settled s := by
  have inside : HandlerPoint.critical h.point = true := by
    rw [here]
    rfl
  rw [settled_of_handler owned thread inside, here]
  refine Eq.trans (settled_of_goto owned thread inside rfl rfl) ?_
  show live (shiftFrom (pull s.clients j) s.nclients (j + 1)) (s.nclients - 1) =
    live (shiftFrom s.clients s.nclients j) (s.nclients - 1)
  conv => rhs; rw [shiftFrom, if_pos more]

private theorem settled_shrunk {j : ℕ} (owned : Owned s) (thread : s.handlers c = some h)
    (here : h.point = .shifting j) (done : ¬j + 1 < s.nclients) :
    settled { s.goto c h .unlockRemove with nclients := s.nclients - 1 } = settled s := by
  have inside : HandlerPoint.critical h.point = true := by
    rw [here]
    rfl
  rw [settled_of_handler owned thread inside, here]
  refine Eq.trans (settled_of_goto owned thread inside rfl rfl) ?_
  show live s.clients (s.nclients - 1) =
    live (shiftFrom s.clients s.nclients j) (s.nclients - 1)
  rw [shiftFrom, if_neg done]

end Settled

def Exact (s : State) : Prop := settled s = (listed s).map s.sock

section Exact

variable {s t : State} {c : ConnId} {h : Handler}

private theorem walks_settled {before after : HandlerPoint} {fd : ℤ}
    (walks : Walks s fd before after) :
    afterRemove s fd after = afterRemove s fd before := by
  cases walks with
  | ended => rfl
  | passedOver i more other =>
    symm
    show removeFrom s.clients s.nclients fd i = removeFrom s.clients s.nclients fd (i + 1)
    rw [removeFrom, if_pos more, if_neg other]
  | found i more here =>
    symm
    show removeFrom s.clients s.nclients fd i = live (shiftFrom s.clients s.nclients i) _
    rw [removeFrom, if_pos more, if_pos here]
  | notFound i done =>
    symm
    show removeFrom s.clients s.nclients fd i = live s.clients s.nclients
    rw [removeFrom, if_neg done]

private theorem exact_of_settled (before : Exact s) (same : settled t = settled s)
    (added : t.added = s.added) (removed : t.removed = s.removed) (sock : t.sock = s.sock) :
    Exact t := by
  have both : listed t = listed s := by
    rw [listed, added, removed]
    rfl
  rw [Exact, same, both, sock]
  exact before

private theorem exact_goto {point : HandlerPoint} (before : Exact s)
    (thread : s.handlers c = some h)
    (same : afterRemove s h.clntSock point = afterRemove s h.clntSock h.point)
    (handlers : t.handlers = Function.update s.handlers c (some { h with point := point }))
    (main : t.main = s.main) (clients : t.clients = s.clients) (nclients : t.nclients = s.nclients)
    (mutex : t.clients_mtx = s.clients_mtx) (added : t.added = s.added)
    (removed : t.removed = s.removed) (sock : t.sock = s.sock) : Exact t := by
  refine exact_of_settled before ?_ added removed sock
  rw [settled, mutex]
  exact settledBy_goto _ thread same handlers main clients nclients

private theorem exact_main (before : Exact s) (same : afterAdd t t.main = afterAdd s s.main)
    (handlers : t.handlers = s.handlers) (clients : t.clients = s.clients)
    (nclients : t.nclients = s.nclients) (mutex : t.clients_mtx = s.clients_mtx)
    (added : t.added = s.added) (removed : t.removed = s.removed) (sock : t.sock = s.sock) :
    Exact t := by
  refine exact_of_settled before ?_ added removed sock
  rw [settled, mutex]
  exact settledBy_main _ same handlers clients nclients

private theorem exact_accepted (b : Booked s) (before : Exact s) (fd : ℤ)
    (here : s.main = .accept) :
    Exact { s with
      main := .lockAdd fd
      fds := Function.update s.fds fd (some s.accepted)
      sock := Function.update s.sock s.accepted fd
      accepted := s.accepted + 1 } := by
  have same : settled { s with
      main := .lockAdd fd
      fds := Function.update s.fds fd (some s.accepted)
      sock := Function.update s.sock s.accepted fd
      accepted := s.accepted + 1 } = settled s :=
    settledBy_main _ (by rw [here]; rfl) rfl rfl rfl
  rw [Exact, same, before]
  refine List.map_congr_left fun d inside => ?_
  have older := b.earlier d (mem_listed.mp inside).1
  exact (Function.update_of_ne (Nat.ne_of_lt older) ..).symm

private theorem exact_stored (w : Wired s) (owned : Owned s) (b : Booked s) (before : Exact s)
    {fd : ℤ} (here : s.main = .add fd) (room : s.nclients < MAXCLIENTS) :
    Exact { s with
      main := .count fd
      clients := s.clients.set s.nclients fd room
      added := s.added ++ [s.newest] } := by
  obtain ⟨_, unhandled, same⟩ := w.adding fd (by rw [here]; rfl)
  have kept : s.newest ∉ s.removed := by
    rw [b.called]
    rintro ⟨h, thread, _⟩
    rw [unhandled] at thread
    cases thread
  have mutex : s.clients_mtx = some .main := by
    refine (owned .main).mp ?_
    rw [critical, here]
    rfl
  have old : table s = (listed s).map s.sock := by
    rw [← before, settled, mutex, settledBy, here]
    rfl
  show settledBy _ s.clients_mtx = _
  rw [mutex]
  show live (s.clients.set s.nclients fd room) (s.nclients + 1) =
    ((s.added ++ [s.newest]).filter fun c => c ∉ s.removed).map s.sock
  have last : ([s.newest].filter fun c => c ∉ s.removed) = [s.newest] := by simp [kept]
  rw [live_succ_set s.clients fd room, List.filter_append, List.map_append, last,
    List.map_singleton, ← same]
  exact congrArg (· ++ [fd]) old

private theorem nodup_listed (b : Booked s) : (listed s).Nodup :=
  (b.sorted.filter _).imp fun below => Nat.ne_of_lt below

theorem nodup_socks (w : Wired s) (b : Booked s) : ((listed s).map s.sock).Nodup := by
  refine List.Nodup.map_on ?_ (nodup_listed b)
  intro d first e second same
  by_contra differ
  exact (sock_ne_of_listed w b first (open_of_listed w b second)).mpr differ same

private theorem filter_removed : (s.added.filter fun d => d ∉ s.removed ++ [c]) =
    (listed s).filter (· ≠ c) := by
  rw [listed, List.filter_filter]
  refine List.filter_congr fun d _ => ?_
  simp [not_or, and_comm]

private theorem map_without (w : Wired s) (b : Booked s) (mine : s.fds (s.sock c) = some c) :
    ((listed s).filter (· ≠ c)).map s.sock =
      ((listed s).map s.sock).filter (· ≠ s.sock c) := by
  rw [List.filter_map]
  congr 1
  refine List.filter_congr fun d inside => ?_
  exact decide_eq_decide.mpr (sock_ne_of_listed w b inside mine).symm

private theorem exact_removeLocked (w : Wired s) (b : Booked s) (f : Fits s) (before : Exact s)
    (thread : s.handlers c = some h) (here : h.point = .lockRemove)
    (free : s.clients_mtx = none) :
    Exact { s.goto c h (.searching 0) with
      clients_mtx := some (.handler c)
      removed := s.removed ++ [c] } := by
  have old : table s = (listed s).map s.sock := by
    rw [← before, settled, free]
    rfl
  have mine := w.open_of_running thread (here ▸ HandlerPoint.noConfusion)
  rw [(w.known c h thread).2] at mine
  have listing : settled { s.goto c h (.searching 0) with
      clients_mtx := some (.handler c)
      removed := s.removed ++ [c] } = removeFrom s.clients s.nclients h.clntSock 0 := by
    rw [settled, settledBy]
    show (Function.update s.handlers c (some { h with point := .searching 0 }) c).elim _ _ = _
    rw [Function.update_self]
    rfl
  rw [Exact, listing, removeFrom_eq_erase _ f.bound _ (by simp), (w.known c h thread).2]
  show (table s).erase (s.sock c) = (s.added.filter fun d => d ∉ s.removed ++ [c]).map s.sock
  rw [filter_removed, map_without w b mine, ← old]
  have distinct : (table s).Nodup := old ▸ nodup_socks w b
  rw [distinct.erase_eq_filter]
  exact List.filter_congr fun fd _ => Bool.eq_iff_iff.mpr (by simp)

end Exact

private theorem exact_init (servSock : ℤ) (stdin : List UInt8) : Exact (init servSock stdin) := rfl

structure Orderly (s : State) : Prop where
  wired : Wired s
  owned : Owned s
  booked : Booked s
  fits : Fits s
  exact : Exact s

private theorem exact_step (s : State) (a : Action) (t : State) (before : Orderly s)
    (taken : step s a = some t) : Exact t := by
  obtain ⟨w, owned, b, f, e⟩ := before
  cases moves_of_step taken with
  | died a message => exact e
  | accepted fd here fresh => exact exact_accepted b e fd here
  | addLocked fd here free =>
    refine exact_of_settled e ?_ rfl rfl rfl
    rw [settled, settled, free]
    rfl
  | stored fd here room => exact exact_stored w owned b e here room
  | full fd here full => exact exact_main e (by rw [here]; rfl) rfl rfl rfl rfl rfl rfl rfl
  | counted fd here =>
    refine exact_of_settled e ?_ rfl rfl rfl
    have inside : MainPoint.critical s.main = true := by
      rw [here]
      rfl
    rw [settled_of_main owned inside, here, settled, (owned .main).mp inside]
    rfl
  | addUnlocked fd here =>
    refine exact_of_settled e ?_ rfl rfl rfl
    rw [settled_of_main owned (by rw [here]; rfl), here]
    rfl
  | created fd here =>
    obtain ⟨_, unhandled, _⟩ := w.adding fd (by rw [here]; rfl)
    exact exact_of_settled e (settled_created here unhandled) rfl rfl rfl
  | walked a c h point thread walks =>
    exact exact_goto e thread (walks_settled walks) rfl rfl rfl rfl rfl rfl rfl rfl
  | received c h got thread here fits =>
    exact exact_goto e thread (by rw [here]; rfl) rfl rfl rfl rfl rfl rfl rfl rfl
  | echoed c h buf thread here =>
    exact exact_goto e thread (by rw [here]; rfl) rfl rfl rfl rfl rfl rfl rfl rfl
  | sendFailed c h buf taken thread here short => exact e
  | removeLocked c h thread here free => exact exact_removeLocked w b f e thread here free
  | shifted c h j thread here more =>
    exact exact_of_settled e (settled_shifted owned thread here more) rfl rfl rfl
  | shrunk c h j thread here done =>
    exact exact_of_settled e (settled_shrunk owned thread here done) rfl rfl rfl
  | removeUnlocked c h thread here =>
    refine exact_of_settled e ?_ rfl rfl rfl
    rw [settled_of_handler owned thread (by rw [here]; rfl), here]
    rfl
  | closed c h thread here =>
    exact exact_goto e thread (by rw [here]; rfl) rfl rfl rfl rfl rfl rfl rfl rfl
  | reads point rest reads => exact e
  | broadcastLocked buf here free =>
    refine exact_of_settled e ?_ rfl rfl rfl
    rw [settled, settled, free]
    rfl
  | sent taken buf i fd here more bound entry => exact e
  | broadcastUnlocked here =>
    refine exact_of_settled e ?_ rfl rfl rfl
    have inside : critical s .sender = true := by
      rw [critical, here]
      rfl
    rw [settled, settled, (owned .sender).mp inside]
    rfl

theorem orderly_init (servSock : ℤ) (stdin : List UInt8) : Orderly (init servSock stdin) :=
  ⟨wired_init servSock stdin, owned_init servSock stdin, booked_init servSock stdin,
    fits_init servSock stdin, exact_init servSock stdin⟩

theorem orderly_step (s : State) (a : Action) (t : State) (before : Orderly s)
    (taken : step s a = some t) : Orderly t where
  wired := wired_step s a t before.wired taken
  owned := owned_step s a t before.wired before.owned taken
  booked := booked_step s a t before.wired before.booked taken
  fits := fits_step s a t before.owned before.fits taken
  exact := exact_step s a t before taken

theorem orderly_of_reach {servSock : ℤ} {stdin : List UInt8} {s : State}
    (run : Reach step (init servSock stdin) s) : Orderly s :=
  invariant_of_step_reach orderly_step (orderly_init servSock stdin) run

structure Continues (s t : State) : Prop where
  added : s.added <+: t.added
  removed : s.removed <+: t.removed
  accepted : s.accepted ≤ t.accepted
  sock : ∀ c < s.accepted, t.sock c = s.sock c

namespace Continues

variable {s t u : State}

private theorem still (added : t.added = s.added) (removed : t.removed = s.removed)
    (accepted : t.accepted = s.accepted) (sock : t.sock = s.sock) : Continues s t where
  added := ⟨[], by rw [added, List.append_nil]⟩
  removed := ⟨[], by rw [removed, List.append_nil]⟩
  accepted := Nat.le_of_eq accepted.symm
  sock := by
    intro c _
    rw [sock]

private theorem trans (first : Continues s t) (second : Continues t u) : Continues s u where
  added := first.added.trans second.added
  removed := first.removed.trans second.removed
  accepted := first.accepted.trans second.accepted
  sock := by
    intro c inside
    rw [second.sock c (Nat.lt_of_lt_of_le inside first.accepted), first.sock c inside]

theorem of_step {a : Action} (taken : step s a = some t) : Continues s t := by
  cases moves_of_step taken with
  | accepted fd here fresh =>
    refine ⟨List.prefix_rfl, List.prefix_rfl, Nat.le_succ _, ?_⟩
    intro c inside
    exact Function.update_of_ne (Nat.ne_of_lt inside) ..
  | stored fd here room =>
    exact ⟨List.prefix_append _ _, List.prefix_rfl, Nat.le_refl _, fun _ _ => rfl⟩
  | removeLocked c h thread here free =>
    exact ⟨List.prefix_rfl, List.prefix_append _ _, Nat.le_refl _, fun _ _ => rfl⟩
  | _ => exact still rfl rfl rfl rfl

theorem of_reach (run : Reach step s t) : Continues s t :=
  invariant_of_step_reach (fun _ _ _ before taken => before.trans (of_step taken))
    (still rfl rfl rfl rfl) run

/-- Who stays in the list keeps the order, and who is new comes behind. -/
theorem listed_eq (later : Continues s t) :
    ∃ newer, listed t = ((listed s).filter fun c => c ∉ t.removed) ++ newer := by
  obtain ⟨newer, added⟩ := later.added
  refine ⟨newer.filter fun c => c ∉ t.removed, ?_⟩
  rw [listed, ← added, List.filter_append, listed, List.filter_filter]
  refine congrArg (· ++ _) (List.filter_congr fun c _ => ?_)
  have kept : c ∈ s.removed → c ∈ t.removed := fun gone => later.removed.subset gone
  simpa using fun stays gone => stays (kept gone)

end Continues

section Free

variable {s t : State}

theorem table_eq_listed (o : Orderly s) (free : s.clients_mtx = none) :
    table s = (listed s).map s.sock := by
  rw [← o.exact, settled, free]
  rfl

theorem table_of_sender (o : Orderly s) (inside : SendPoint.critical s.sender = true) :
    table s = (listed s).map s.sock := by
  have mine : critical s .sender = true := inside
  rw [← o.exact, settled, (o.owned .sender).mp mine]
  rfl

private theorem table_continues (o : Orderly s) (o' : Orderly t) (later : Continues s t)
    (free : t.clients_mtx = none) :
    ∃ newer, table t = ((listed s).filter fun c => c ∉ t.removed).map s.sock ++ newer := by
  obtain ⟨newer, both⟩ := later.listed_eq
  refine ⟨newer.map t.sock, ?_⟩
  rw [table_eq_listed o' free, both, List.map_append]
  refine congrArg (· ++ _) (List.map_congr_left fun c inside => ?_)
  have mem := (mem_listed.mp (List.mem_filter.mp inside).1).1
  exact later.sock c (o.booked.earlier c mem)

end Free

/-- Whenever the mutex is free, `clients[0..nclients)` are the open descriptors of the clients
that were added when there was room and have not been removed since, in order of acceptance and
without repetition, and from then on whoever is not removed keeps the order. -/
theorem clients_list_exact (servSock : ℤ) (stdin : List UInt8) (s : State)
    (run : Reach step (init servSock stdin) s) (free : s.clients_mtx = none) :
    s.nclients ≤ 100 ∧ table s = (listed s).map s.sock ∧ (listed s).Pairwise (· < ·) ∧
      (table s).Nodup ∧ (∀ c ∈ listed s, s.fds (s.sock c) = some c) ∧
      ∀ t, Reach step s t → t.clients_mtx = none →
        ∃ newer, table t = ((listed s).filter fun c => c ∉ t.removed).map s.sock ++ newer := by
  have o := orderly_of_reach run
  have list := table_eq_listed o free
  refine ⟨o.fits.bound, list, o.booked.sorted.filter _, ?_, ?_, ?_⟩
  · rw [list]
    exact nodup_socks o.wired o.booked
  · intro c inside
    exact open_of_listed o.wired o.booked inside
  · intro t later free'
    exact table_continues o (invariant_of_step_reach orderly_step o later)
      (.of_reach later) free'

/-- Two clients are added, and the first one leaves. -/
theorem clients_list_exact_leaving : ∃ s : State, s.clients_mtx = none ∧ table s = [5] ∧
    s.nclients ≤ 100 ∧ table s = (listed s).map s.sock ∧ (listed s).Pairwise (· < ·) ∧
    (table s).Nodup ∧ (∀ c ∈ listed s, s.fds (s.sock c) = some c) ∧
    ∀ t, Reach step s t → t.clients_mtx = none →
      ∃ newer, table t = ((listed s).filter fun c => c ∉ t.removed).map s.sock ++ newer := by
  let acts : List Action := [.accept 4, .main, .main, .main, .main, .main,
    .accept 5, .main, .main, .main, .main, .main, .recv 0 [],
    .handler 0, .handler 0, .handler 0, .handler 0, .handler 0, .handler 0]
  have ends : (exec step (init 3 []) acts).map (fun s => (s.clients_mtx, table s)) =
      some (none, [5]) := by decide +kernel
  obtain ⟨s, ran, same⟩ := Option.map_eq_some_iff.mp ends
  obtain ⟨free, list⟩ := Prod.mk.inj same
  exact ⟨s, free, list, clients_list_exact 3 [] s ⟨acts, ran⟩ free⟩

end SocketChat.TestCode.BroadcastChat.Listing
