/- SocketChat/MoreLearning/SelectChat/Payload
   digest: When the bytes forwarded are the bytes received, chunk by chunk and as streams. -/

import SocketChat.Lib.Forwarding
import SocketChat.Lib.History
import SocketChat.MoreLearning.SelectChat.Table

set_option autoImplicit false
set_option relaxedAutoImplicit false

namespace SocketChat.MoreLearning.SelectChat.Payload

open SocketChat.Lib
open SocketChat.Lib.CString
open SocketChat.Lib.Deliveries
open SocketChat.Lib.Forwarding
open SocketChat.Lib.History
open SocketChat.Lib.Runs
open SocketChat.Lib.SlotTable
open SocketChat.MoreLearning.SelectChat.Model
open SocketChat.MoreLearning.SelectChat.Table

def note (_ : State) : Action → List (List Byte) → List (List Byte)
  | .recv got _, chunks => if got = [] then chunks else chunks ++ [got]
  | _, chunks => chunks

abbrev Noted := State × List (List Byte)

def start (server_sock : ℤ) : Noted := (init server_sock, [])

/-- Every `send` is given the chunk it forwards, whose `strlen` ends within the buffer, and
each client is sent what was received from each other one while both were in the table. -/
structure Exact (m : Noted) : Prop where
  whole : ∀ sent ∈ m.1.sends,
    m.2[sent.number]? = some sent.call.msg ∧ sent.call.msg.length < BUFFER_SIZE
  streams : ∀ c d, d ≠ c →
    forwarded SendCall.msg m.1.said m.1.sends c d = spoken m.1.said m.2 c d

def Company (s : State) : Prop :=
  ∃ readfds i sd, s.point = .scan readfds i ∧ s.clients[i]? = some sd ∧
    ∃ fd ∈ s.clients, fd ≠ 0 ∧ fd ≠ sd

/-- A chunk that there is somebody to forward to has no NUL and leaves room for one. -/
def Whole (m : Noted) : Action → Prop
  | .recv got _ => got ≠ [] → Company m.1 → 0 ∉ got ∧ got.length < BUFFER_SIZE
  | _ => True

/-- The descriptors in the table that `select` and `recv` are called with. -/
def positives (table : List ℤ) : List ℤ := table.filter (0 < ·)

section Positives

variable {table : List ℤ} {x : ℤ}

private theorem positives_cons (positive : 0 < x) : positives (x :: table) = x :: positives table :=
  List.filter_cons_of_pos (decide_eq_true positive)

private theorem positives_cons_of_le (other : x ≤ 0) : positives (x :: table) = positives table :=
  List.filter_cons_of_neg (by simpa using other)

private theorem positives_fill (room : 0 ∈ table) (used : x ≠ 0) :
    (positives (table.replace 0 x)).Perm (positives (x :: table)) :=
  filter_fill (by decide) room used

private theorem positives_set {i : ℕ} (held : table[i]? = some x) (positive : 0 < x) :
    (positives table).Perm (x :: positives (table.set i 0)) := by
  rw [← positives_cons positive]
  exact filter_set (by decide) held (Int.ne_of_gt positive)

end Positives

/-- What holds of the table and the descriptors whatever `accept` returns. -/
structure Spread (s : State) : Prop where
  distinct : (positives s.clients).Nodup
  connected : ∀ fd ∈ positives s.clients, (s.fds fd).isSome
  descriptors : Descriptors s.fds s.accepted
  valid : ∀ fd c, s.fds fd = some c → 0 ≤ fd

private theorem spread_init (server_sock : ℤ) : Spread (init server_sock) := by
  have none_held : positives (init server_sock).clients = [] :=
    (by decide : positives (List.replicate MAX_CLIENTS 0) = [])
  constructor
  · rw [none_held]
    exact List.nodup_nil
  · rw [none_held]
    intro fd hfd
    cases hfd
  · exact descriptors_none
  · intro fd c opened
    cases opened

private theorem spread_refused {s : State} (h : Spread s) {new_sock : ℤ} (failed : new_sock < 0)
    (point : Point) :
    Spread { s with point := point, clients := s.clients.replace 0 new_sock } := by
  by_cases room : 0 ∈ s.clients
  · have perm : (positives (s.clients.replace 0 new_sock)).Perm (positives s.clients) := by
      have filled := positives_fill room (Int.ne_of_lt failed)
      rwa [positives_cons_of_le (Int.le_of_lt failed)] at filled
    refine ⟨perm.nodup_iff.mpr h.distinct, ?_, h.descriptors, h.valid⟩
    intro fd hfd
    exact h.connected fd (perm.mem_iff.mp hfd)
  · rw [List.replace_of_not_mem room]
    exact ⟨h.distinct, h.connected, h.descriptors, h.valid⟩

private theorem positives_opened (table : List ℤ) {new_sock : ℤ} (valid : 0 ≤ new_sock) :
    (positives (table.replace 0 new_sock)).Perm (new_sock :: positives table) ∨
      table.replace 0 new_sock = table := by
  rcases Int.lt_or_eq_of_le valid with positive | zero
  · by_cases room : 0 ∈ table
    · left
      rw [← positives_cons positive]
      exact positives_fill room (Int.ne_of_gt positive)
    · exact Or.inr (List.replace_of_not_mem room)
  · right
    apply replace_of_idle
    rintro ⟨_, differ⟩
    exact differ zero.symm

private theorem spread_opened {s : State} (h : Spread s) {new_sock : ℤ} (valid : 0 ≤ new_sock)
    (fresh : s.fds new_sock = none) (point : Point) (history : List (Room.Event ConnId ℕ)) :
    Spread { s with
      point := point
      clients := s.clients.replace 0 new_sock
      fds := Function.update s.fds new_sock (some s.accepted)
      accepted := s.accepted + 1
      history := history } := by
  have absent : new_sock ∉ positives s.clients := by
    intro held
    have before := h.connected new_sock held
    rw [fresh] at before
    cases before
  constructor
  · rcases positives_opened s.clients valid with perm | same
    · exact perm.nodup_iff.mpr (List.nodup_cons.mpr ⟨absent, h.distinct⟩)
    · rw [same]
      exact h.distinct
  · intro fd hfd
    apply isSome_update_some.mpr
    rcases positives_opened s.clients valid with perm | same
    · rcases List.mem_cons.mp (perm.mem_iff.mp hfd) with new | old
      · exact Or.inl new
      · exact Or.inr (h.connected fd old)
    · rw [same] at hfd
      exact Or.inr (h.connected fd hfd)
  · exact h.descriptors.opened fresh
  · intro fd c now
    rcases (fds_opened fresh).mp now with ⟨rfl, _⟩ | old
    · exact valid
    · exact h.valid fd c old

private theorem spread_closed {s : State} (h : Spread s) {i : ℕ} {sd : ℤ}
    (held : s.clients[i]? = some sd) (positive : 0 < sd) (point : Point)
    (history : List (Room.Event ConnId ℕ)) :
    Spread { s with
      point := point
      clients := s.clients.set i 0
      fds := Function.update s.fds sd none
      history := history } := by
  have perm := positives_set held positive
  obtain ⟨gone, distinct⟩ := List.nodup_cons.mp (perm.nodup_iff.mp h.distinct)
  constructor
  · exact distinct
  · intro fd hfd
    have before := h.connected fd (perm.mem_iff.mpr (List.mem_cons_of_mem sd hfd))
    refine isSome_update_none.mpr ⟨?_, before⟩
    rintro rfl
    exact gone hfd
  · exact h.descriptors.closed sd
  · intro fd c opened
    exact h.valid fd c (update_none_eq_some.mp opened).2

private theorem spread_step {s : State} {a : Action} {t : State} (h : Spread s)
    (taken : step s a = some t) : Spread t := by
  cases took_of_step taken with
  | selected readfds here within =>
    exact ⟨h.distinct, h.connected, h.descriptors, h.valid⟩
  | refused readfds new_sock here failed => exact spread_refused h failed _
  | opened readfds new_sock here valid fresh => exact spread_opened h valid fresh _ _
  | skipped readfds i here => exact ⟨h.distinct, h.connected, h.descriptors, h.valid⟩
  | closed readfds i sd beyond here held used ready => exact spread_closed h held used _ _
  | forwarded readfds i sd conn got beyond msg here held used ready behind some_bytes fits text =>
    exact ⟨h.distinct, h.connected, h.descriptors, h.valid⟩

section Broadcast

variable {s : State} {sd : ℤ} {conn d : ConnId} {msg : List Byte} {sent : Sent ConnId SendCall}

private theorem broadcast_eq_map (s : State) (sd : ℤ) (msg : List Byte) :
    broadcast s sd msg =
      (recipients 0 sd s.clients).map fun fd => ⟨s.said.length, s.fds fd, ⟨fd, msg⟩⟩ := rfl

private theorem broadcast_number (hsent : sent ∈ broadcast s sd msg) :
    sent.number = s.said.length ∧ sent.call.msg = msg := by
  obtain ⟨fd, _, rfl⟩ := List.mem_map.mp hsent
  exact ⟨rfl, rfl⟩

private theorem countP_broadcast (h : Spread s) (behind : s.fds sd = some conn) (apart : d ≠ conn) :
    (broadcast s sd msg).countP (fun sent => sent.reached = some d) =
      if d ∈ (occupants 0 s.clients).filterMap s.fds then 1 else 0 := by
  rw [broadcast_eq_map, List.countP_map, List.countP_eq_length_filter]
  change ((recipients 0 sd s.clients).filter fun fd => s.fds fd = some d).length = _
  have own : ∀ fd fd', s.fds fd = some d → s.fds fd' = some d → fd = fd' :=
    fun fd fd' => h.descriptors.injective fd fd' d
  by_cases there : d ∈ (occupants 0 s.clients).filterMap s.fds
  · obtain ⟨fd, held, opened⟩ := List.mem_filterMap.mp there
    have other : fd ≠ sd := by
      rintro rfl
      rw [behind] at opened
      exact apart (Option.some.inj opened).symm
    have once : ((recipients 0 sd s.clients).filter fun fd => s.fds fd = some d).Nodup := by
      rw [recipients, List.filter_filter]
      apply nodup_filter_of_imp _ h.distinct
      intro y _ kept
      obtain ⟨mine, used⟩ := Bool.and_eq_true_iff.mp kept
      have valid := h.valid y d (of_decide_eq_true mine)
      have nonzero := (of_decide_eq_true used).1
      exact decide_eq_true (by omega)
    rw [if_pos there]
    apply List.length_eq_one_iff.mpr
    refine ⟨fd, eq_singleton_of_nodup once ?_ ?_⟩
    · exact List.mem_filter.mpr ⟨mem_recipients.mpr ⟨held, other⟩, decide_eq_true opened⟩
    · intro y hy
      exact own y fd (of_decide_eq_true (List.mem_filter.mp hy).2) opened
  · rw [if_neg there]
    apply List.length_eq_zero_iff.mpr
    apply filter_recipients_nil
    intro fd held opened
    exact absurd (List.mem_filterMap.mpr ⟨fd, held, opened⟩) there

private theorem cstr_chunk_iff {got beyond : List Byte} :
    (cstr (got ++ List.replicate (BUFFER_SIZE - got.length) 0 ++ beyond) = got ∧
        got.length < BUFFER_SIZE) ↔ 0 ∉ got ∧ got.length < BUFFER_SIZE := by
  apply and_congr_left
  intro room
  constructor
  · intro whole
    rw [← whole]
    exact zero_not_mem_cstr _
  · intro nul_free
    obtain ⟨more, size⟩ : ∃ more, BUFFER_SIZE - got.length = more + 1 :=
      ⟨BUFFER_SIZE - got.length - 1, by omega⟩
    rw [size, List.replicate_succ, List.append_assoc]
    exact cstr_append_zero nul_free _

end Broadcast

/-- The invariant of the runs that forward every chunk whole. -/
structure Carried (m : Noted) : Prop where
  spread : Spread m.1
  sized : m.2.length = m.1.said.length
  before : ∀ sent ∈ m.1.sends, sent.number < m.1.said.length
  exactly : Exact m

theorem carried_start (server_sock : ℤ) : Carried (start server_sock) := by
  refine ⟨spread_init server_sock, rfl, ?_, ?_, ?_⟩
  · intro sent hsent
    cases hsent
  · intro sent hsent
    cases hsent
  · intro c d _
    rfl

private theorem carried_forwarded {m : Noted} (h : Carried m) {sd : ℤ} {conn : ConnId}
    {got msg : List Byte} (behind : m.1.fds sd = some conn)
    (whole : ∀ sent ∈ broadcast m.1 sd msg, msg = got ∧ got.length < BUFFER_SIZE) (point : Point)
    (history : List (Room.Event ConnId ℕ)) (spread : Spread { m.1 with
      point := point
      said := m.1.said ++ [⟨conn, (occupants 0 m.1.clients).filterMap m.1.fds⟩]
      sends := m.1.sends ++ broadcast m.1 sd msg
      history := history }) :
    Carried ({ m.1 with
      point := point
      said := m.1.said ++ [⟨conn, (occupants 0 m.1.clients).filterMap m.1.fds⟩]
      sends := m.1.sends ++ broadcast m.1 sd msg
      history := history }, m.2 ++ [got]) := by
  have size : ∀ e : Said ConnId, (m.1.said ++ [e]).length = m.1.said.length + 1 :=
    fun e => List.length_append
  refine ⟨spread, ?_, ?_, ?_, ?_⟩
  · rw [List.length_append, h.sized]
    exact (size _).symm
  · intro sent hsent
    change sent.number < (m.1.said ++ [_]).length
    rw [size]
    rcases List.mem_append.mp hsent with old | new
    · exact Nat.lt_succ_of_lt (h.before sent old)
    · rw [(broadcast_number new).1]
      exact Nat.lt_succ_self _
  · intro sent hsent
    rcases List.mem_append.mp hsent with old | new
    · have earlier : sent.number < m.2.length := by
        rw [h.sized]
        exact h.before sent old
      rw [List.getElem?_append_left earlier]
      exact h.exactly.whole sent old
    · obtain ⟨number, text⟩ := broadcast_number new
      obtain ⟨same, short⟩ := whole sent new
      rw [number, ← h.sized, List.getElem?_concat_length, text, same]
      exact ⟨rfl, short⟩
  · intro c d apart
    apply streams_say h.sized h.before (fun sent new => (broadcast_number new).1) _ _
      h.exactly.streams apart
    · intro sent new
      rw [(broadcast_number new).2, (whole sent new).1]
    · intro e other
      exact countP_broadcast h.spread behind other

/-- Some slot is sent to exactly when there is company. -/
theorem company_of_broadcast {s : State} {readfds : List ℤ} {i : ℕ} {sd : ℤ} {msg : List Byte}
    {sent : Sent ConnId SendCall} (here : s.point = .scan readfds i)
    (held : s.clients[i]? = some sd) (hsent : sent ∈ broadcast s sd msg) : Company s := by
  obtain ⟨fd, chosen, _⟩ := List.mem_map.mp hsent
  obtain ⟨slot, used⟩ := List.mem_filter.mp chosen
  exact ⟨readfds, i, sd, here, held, fd, slot, of_decide_eq_true used⟩

private theorem broadcast_of_company {s : State} {readfds : List ℤ} {i : ℕ} {sd : ℤ}
    (msg : List Byte)
    (here : s.point = .scan readfds i) (held : s.clients[i]? = some sd) (company : Company s) :
    ∃ sent, sent ∈ broadcast s sd msg := by
  obtain ⟨readfds', i', sd', here', held', fd, slot, used⟩ := company
  obtain ⟨rfl, rfl⟩ := Point.scan.inj (here.symm.trans here')
  obtain rfl := Option.some.inj (held.symm.trans held')
  exact ⟨_, List.mem_map.mpr ⟨fd, List.mem_filter.mpr ⟨slot, decide_eq_true used⟩, rfl⟩⟩

theorem carried_step (m : Noted) (a : Action) (m' : Noted) (h : Carried m) (ok : Whole m a)
    (taken : remember step note m a = some m') : Carried m' := by
  obtain ⟨s, chunks⟩ := m
  obtain ⟨t, chunks'⟩ := m'
  obtain ⟨moved, noted⟩ := remember_eq_some.mp taken
  have spread : Spread t := spread_step h.spread moved
  subst noted
  cases took_of_step moved with
  | selected readfds here within =>
    exact ⟨spread, h.sized, h.before, h.exactly.whole, h.exactly.streams⟩
  | refused readfds new_sock here failed =>
    exact ⟨spread, h.sized, h.before, h.exactly.whole, h.exactly.streams⟩
  | opened readfds new_sock here valid fresh =>
    exact ⟨spread, h.sized, h.before, h.exactly.whole, h.exactly.streams⟩
  | skipped readfds i here =>
    exact ⟨spread, h.sized, h.before, h.exactly.whole, h.exactly.streams⟩
  | closed readfds i sd beyond here held used ready =>
    exact ⟨spread, h.sized, h.before, h.exactly.whole, h.exactly.streams⟩
  | forwarded readfds i sd conn got beyond msg here held used ready behind some_bytes fits text =>
    simp only [note, if_neg some_bytes]
    apply carried_forwarded h behind _ _ _ spread
    intro sent hsent
    have bounds := ok some_bytes (company_of_broadcast here held hsent)
    rw [text]
    exact cstr_chunk_iff.mpr bounds

private theorem whole_of_exact (m : Noted) (a : Action) (m' : Noted) (h : Carried m)
    (taken : remember step note m a = some m') (after : Exact m') : Whole m a := by
  obtain ⟨s, chunks⟩ := m
  obtain ⟨t, chunks'⟩ := m'
  obtain ⟨moved, noted⟩ := remember_eq_some.mp taken
  subst noted
  cases took_of_step moved with
  | selected | refused | opened | skipped => trivial
  | closed => exact fun some_bytes => absurd rfl some_bytes
  | forwarded readfds i sd conn got beyond msg here held used ready behind some_bytes fits text =>
    intro _ company
    obtain ⟨sent, hsent⟩ := broadcast_of_company msg here held company
    obtain ⟨number, carries⟩ := broadcast_number hsent
    have whole := after.whole sent (List.mem_append_right _ hsent)
    have sized : chunks.length = s.said.length := h.sized
    simp only [note, if_neg some_bytes] at whole
    rw [number, ← sized, List.getElem?_concat_length, carries] at whole
    obtain ⟨same, short⟩ := whole
    obtain rfl := Option.some.inj same
    exact cstr_chunk_iff.mp ⟨text.symm, short⟩

/-- In a run every chunk is forwarded whole, by sends that read the buffer only, exactly when
every chunk received in company has no NUL and leaves room for one in the buffer. -/
theorem forwarded_whole_iff (server_sock : ℤ) (as : List Action) (m : Noted)
    (taken : exec (remember step note) (start server_sock) as = some m) :
    Always (remember step note) Exact (start server_sock) as ↔
      Guarded (remember step note) Whole (start server_sock) as :=
  always_iff_guarded_of_invariant (fun _ h => h.exactly) carried_step whole_of_exact
    (carried_start server_sock) taken

/-- Two clients join, one in each round, and in the next the first one sends a chunk. -/
def firstSends (got : List Byte) : List Action :=
  [.select [3], .accept 4] ++ List.replicate 10 .skip ++ [.select [3], .accept 5] ++
    List.replicate 10 .skip ++ [.select [4], .recv got []]

theorem one_byte_forwarded_whole : ∃ m,
    exec (remember step note) (start 3) (firstSends [104]) = some m ∧
      Always (remember step note) Exact (start 3) (firstSends [104]) := by
  have shown : (exec (remember step note) (start 3) (firstSends [104])).isSome := by
    decide +kernel
  obtain ⟨m, taken⟩ := Option.isSome_iff_exists.mp shown
  refine ⟨m, taken, (forwarded_whole_iff 3 _ m taken).mpr ?_⟩
  apply guarded_of_forall
  simp [firstSends, Whole, BUFFER_SIZE]

/-- Of a chunk with a NUL only the front is sent, and of one that fills the buffer the
length is found outside of it. -/
theorem nul_cuts_full_overruns :
    (∃ m, exec (remember step note) (start 3) (firstSends [104, 0, 105]) = some m ∧
      m.1.sends.map (fun sent => sent.call.msg) = [[104]] ∧ ¬Exact m) ∧
    ∃ m, exec (remember step note) (start 3) (firstSends (List.replicate 256 104)) = some m ∧
      ¬Exact m := by
  constructor
  · have shown : (exec (remember step note) (start 3) (firstSends [104, 0, 105])).map
        (fun m => (m.2, m.1.sends.map fun sent => (sent.number, sent.call.msg))) =
          some ([[104, 0, 105]], [(0, [104])]) := by
      decide +kernel
    obtain ⟨m, taken, sent⟩ := Option.map_eq_some_iff.mp shown
    obtain ⟨chunks, sends⟩ := Prod.mk.inj sent
    obtain ⟨call, only, shape⟩ := List.map_eq_singleton_iff.mp sends
    obtain ⟨number, msg⟩ := Prod.mk.inj shape
    refine ⟨m, taken, by simp [only, msg], ?_⟩
    intro exactly
    have whole := (exactly.whole call (by simp [only])).1
    rw [chunks, number, msg] at whole
    exact absurd whole (by decide)
  · have shown : (exec (remember step note) (start 3) (firstSends (List.replicate 256 104))).map
        (fun m => m.1.sends.map fun sent => sent.call.msg.length) = some [256] := by
      decide +kernel
    obtain ⟨m, taken, sent⟩ := Option.map_eq_some_iff.mp shown
    obtain ⟨call, only, size⟩ := List.map_eq_singleton_iff.mp sent
    refine ⟨m, taken, ?_⟩
    intro exactly
    have short := (exactly.whole call (by simp [only])).2
    rw [size] at short
    exact Nat.lt_irrefl _ short

end SocketChat.MoreLearning.SelectChat.Payload
