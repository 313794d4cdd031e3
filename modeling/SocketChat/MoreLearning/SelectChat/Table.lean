/- SocketChat/MoreLearning/SelectChat/Table
   digest: When the table of clients and the open connections agree along a run. -/

import SocketChat.MoreLearning.SelectChat.Model

set_option autoImplicit false
set_option relaxedAutoImplicit false

namespace SocketChat.MoreLearning.SelectChat.Table

open SocketChat.Lib.CString
open SocketChat.Lib.Room (Event)
open SocketChat.Lib.Runs
open SocketChat.Lib.SlotTable
open SocketChat.MoreLearning.SelectChat.Model

inductive Took (s : State) : Action → State → Prop
  | selected (readfds : List ℤ) (here : s.point = .select)
      (within : ∀ fd ∈ readfds, fd = s.server_sock ∨ (0 < fd ∧ fd ∈ s.clients)) :
      Took s (.select readfds)
        { s with point := if s.server_sock ∈ readfds then .accept readfds else .scan readfds 0 }
  | refused (readfds : List ℤ) (new_sock : ℤ) (here : s.point = .accept readfds)
      (failed : new_sock < 0) :
      Took s (.accept new_sock)
        { s with point := .scan readfds 0, clients := s.clients.replace 0 new_sock }
  | opened (readfds : List ℤ) (new_sock : ℤ) (here : s.point = .accept readfds)
      (valid : 0 ≤ new_sock) (fresh : s.fds new_sock = none) :
      Took s (.accept new_sock)
        { s with
          point := .scan readfds 0
          clients := s.clients.replace 0 new_sock
          fds := Function.update s.fds new_sock (some s.accepted)
          accepted := s.accepted + 1
          history :=
            if 0 ∈ s.clients ∧ new_sock ≠ 0 then s.history ++ [.join s.accepted]
            else s.history }
  | skipped (readfds : List ℤ) (i : ℕ) (here : s.point = .scan readfds i) :
      Took s .skip { s with point := next readfds i }
  | closed (readfds : List ℤ) (i : ℕ) (sd : ℤ) (beyond : List Byte)
      (here : s.point = .scan readfds i) (held : s.clients[i]? = some sd) (used : 0 < sd)
      (ready : sd ∈ readfds) :
      Took s (.recv [] beyond)
        { s with
          point := next readfds i
          clients := s.clients.set i 0
          fds := Function.update s.fds sd none
          history := s.history ++ ((s.fds sd).map Event.leave).toList }
  | forwarded (readfds : List ℤ) (i : ℕ) (sd : ℤ) (conn : ConnId) (got beyond msg : List Byte)
      (here : s.point = .scan readfds i) (held : s.clients[i]? = some sd) (used : 0 < sd)
      (ready : sd ∈ readfds) (behind : s.fds sd = some conn) (some_bytes : got ≠ [])
      (fits : got.length ≤ BUFFER_SIZE)
      (text : msg = cstr (got ++ List.replicate (BUFFER_SIZE - got.length) 0 ++ beyond)) :
      Took s (.recv got beyond)
        { s with
          point := next readfds i
          said := s.said ++ [⟨conn, (occupants 0 s.clients).filterMap s.fds⟩]
          sends := s.sends ++ broadcast s sd msg
          history := s.history ++ [.say conn s.said.length] }

private theorem took_select {s t : State} {readfds : List ℤ} (taken : select s readfds = some t) :
    Took s (.select readfds) t := by
  unfold select at taken
  split at taken
  · rename_i here
    split at taken
    · rename_i within
      obtain rfl := Option.some.inj taken
      exact .selected readfds here within
    · cases taken
  · cases taken

private theorem took_accept {s t : State} {new_sock : ℤ} (taken : accept s new_sock = some t) :
    Took s (.accept new_sock) t := by
  unfold accept at taken
  split at taken
  · rename_i readfds here
    split at taken
    · rename_i failed
      obtain rfl := Option.some.inj taken
      exact .refused readfds new_sock here failed
    · rename_i valid
      split at taken
      · rename_i fresh
        obtain rfl := Option.some.inj taken
        exact .opened readfds new_sock here (Int.not_lt.mp valid) fresh.1
      · cases taken
  · cases taken

private theorem took_skip {s t : State} (taken : skip s = some t) : Took s .skip t := by
  unfold skip at taken
  split at taken
  · rename_i readfds i here
    obtain ⟨sd, _, visit⟩ := Option.bind_eq_some_iff.mp taken
    split at visit
    · cases visit
    · obtain rfl := Option.some.inj visit
      exact .skipped readfds i here
  · cases taken

theorem took_recv {s t : State} {got beyond : List Byte} (taken : recv s got beyond = some t) :
    Took s (.recv got beyond) t := by
  unfold recv at taken
  split at taken
  · rename_i readfds i here
    obtain ⟨sd, held, visit⟩ := Option.bind_eq_some_iff.mp taken
    split at visit
    · rename_i reported
      split at visit
      · rename_i nothing
        subst nothing
        obtain rfl := Option.some.inj visit
        exact .closed readfds i sd beyond here held reported.1 reported.2
      · rename_i some_bytes
        split at visit
        · rename_i fits
          obtain ⟨conn, behind, result⟩ := Option.map_eq_some_iff.mp visit
          subst result
          exact .forwarded readfds i sd conn got beyond _ here held reported.1 reported.2 behind
            some_bytes fits rfl
        · cases visit
    · cases visit
  · cases taken

theorem took_of_step {s t : State} {a : Action} (taken : step s a = some t) : Took s a t := by
  cases a with
  | select readfds => exact took_select taken
  | accept new_sock => exact took_accept taken
  | skip => exact took_skip taken
  | recv got beyond => exact took_recv taken

/-- The slots in use hold distinct descriptors of open connections, and every open
connection is in a slot. -/
structure Agree (s : State) : Prop where
  distinct : (occupants 0 s.clients).Nodup
  connected : ∀ fd ∈ occupants 0 s.clients, 0 < fd ∧ (s.fds fd).isSome
  listed : ∀ fd, (s.fds fd).isSome → fd ∈ occupants 0 s.clients

/-- `accept` gives a positive descriptor and there is a free slot for it, or it fails and
there is none. -/
def Sound (s : State) : Action → Prop
  | .accept new_sock => (0 < new_sock ∧ 0 ∈ s.clients) ∨ (new_sock < 0 ∧ 0 ∉ s.clients)
  | _ => True

private theorem agree_init (server_sock : ℤ) : Agree (init server_sock) := by
  constructor
  · show (occupants 0 (List.replicate MAX_CLIENTS (0 : ℤ))).Nodup
    rw [occupants_replicate]
    exact List.nodup_nil
  · intro fd hfd
    change fd ∈ occupants 0 (List.replicate MAX_CLIENTS (0 : ℤ)) at hfd
    rw [occupants_replicate] at hfd
    cases hfd
  · intro fd opened
    cases opened

private theorem agree_refused {s : State} (agree : Agree s) {new_sock : ℤ} (failed : new_sock < 0)
    (point : Point) :
    Agree { s with point := point, clients := s.clients.replace 0 new_sock } ↔ 0 ∉ s.clients := by
  constructor
  · intro after room
    have used : new_sock ≠ 0 := by omega
    have stored : new_sock ∈ occupants 0 (s.clients.replace 0 new_sock) :=
      (occupants_fill room used).mem_iff.mpr List.mem_cons_self
    have positive := (after.connected new_sock stored).1
    omega
  · intro full
    rw [List.replace_of_not_mem full]
    exact ⟨agree.distinct, agree.connected, agree.listed⟩

theorem mem_occupants_fill {table : List ℤ} {new_sock fd : ℤ} (room : 0 ∈ table)
    (used : new_sock ≠ 0) :
    fd ∈ occupants 0 (table.replace 0 new_sock) ↔ fd = new_sock ∨ fd ∈ occupants 0 table := by
  rw [(occupants_fill room used).mem_iff, List.mem_cons]

theorem isSome_update_some {fds : ℤ → Option ConnId} {new_sock fd : ℤ} {conn : ConnId} :
    (Function.update fds new_sock (some conn) fd).isSome ↔ fd = new_sock ∨ (fds fd).isSome := by
  by_cases same : fd = new_sock
  · subst same
    simp
  · simp [same]

theorem isSome_update_none {fds : ℤ → Option ConnId} {sd fd : ℤ} :
    (Function.update fds sd none fd).isSome ↔ fd ≠ sd ∧ (fds fd).isSome := by
  by_cases same : fd = sd
  · subst same
    simp
  · simp [same]

structure Descriptors (fds : ℤ → Option ConnId) (accepted : ℕ) : Prop where
  injective : ∀ fd fd' c, fds fd = some c → fds fd' = some c → fd = fd'
  numbered : ∀ fd c, fds fd = some c → c < accepted

theorem descriptors_none : Descriptors (fun _ => none) 0 := by
  constructor
  · intro fd fd' c opened
    cases opened
  · intro fd c opened
    cases opened

theorem fds_opened {fds : ℤ → Option ConnId} {new_sock fd : ℤ} {new c : ConnId}
    (fresh : fds new_sock = none) :
    Function.update fds new_sock (some new) fd = some c ↔
      (fd = new_sock ∧ c = new) ∨ fds fd = some c := by
  rw [update_some_eq_some]
  constructor
  · rintro (⟨rfl, rfl⟩ | ⟨_, old⟩)
    · exact Or.inl ⟨rfl, rfl⟩
    · exact Or.inr old
  · rintro (⟨rfl, rfl⟩ | old)
    · exact Or.inl ⟨rfl, rfl⟩
    · refine Or.inr ⟨?_, old⟩
      rintro rfl
      rw [fresh] at old
      cases old

theorem Descriptors.opened {fds : ℤ → Option ConnId} {accepted : ℕ} (h : Descriptors fds accepted)
    {new_sock : ℤ} (fresh : fds new_sock = none) :
    Descriptors (Function.update fds new_sock (some accepted)) (accepted + 1) := by
  constructor
  · intro fd fd' c left right
    rcases (fds_opened fresh).mp left with ⟨rfl, new⟩ | left_old
    · rcases (fds_opened fresh).mp right with ⟨rfl, _⟩ | right_old
      · rfl
      · exact absurd (h.numbered fd' c right_old) (new ▸ Nat.lt_irrefl _)
    · rcases (fds_opened fresh).mp right with ⟨_, new⟩ | right_old
      · exact absurd (h.numbered fd c left_old) (new ▸ Nat.lt_irrefl _)
      · exact h.injective fd fd' c left_old right_old
  · intro fd c opened
    rcases (fds_opened fresh).mp opened with ⟨_, new⟩ | old
    · exact new ▸ Nat.lt_succ_self _
    · exact Nat.lt_succ_of_lt (h.numbered fd c old)

theorem Descriptors.closed {fds : ℤ → Option ConnId} {accepted : ℕ} (h : Descriptors fds accepted)
    (sd : ℤ) : Descriptors (Function.update fds sd none) accepted := by
  constructor
  · intro fd fd' c left right
    exact h.injective fd fd' c (update_none_eq_some.mp left).2 (update_none_eq_some.mp right).2
  · intro fd c opened
    exact h.numbered fd c (update_none_eq_some.mp opened).2

private theorem agree_opened {s : State} (agree : Agree s) {new_sock : ℤ} (valid : 0 ≤ new_sock)
    (fresh : s.fds new_sock = none) (point : Point) (history : List (Event ConnId ℕ)) :
    Agree { s with
      point := point
      clients := s.clients.replace 0 new_sock
      fds := Function.update s.fds new_sock (some s.accepted)
      accepted := s.accepted + 1
      history := history } ↔ 0 < new_sock ∧ 0 ∈ s.clients := by
  have absent : new_sock ∉ occupants 0 s.clients := by
    intro held
    have opened := (agree.connected new_sock held).2
    rw [fresh] at opened
    cases opened
  constructor
  · intro after
    have stored := after.listed new_sock (isSome_update_some.mpr (Or.inl rfl))
    refine ⟨(after.connected new_sock stored).1, ?_⟩
    by_contra full
    change new_sock ∈ occupants 0 (s.clients.replace 0 new_sock) at stored
    rw [List.replace_of_not_mem full] at stored
    exact absent stored
  · rintro ⟨positive, room⟩
    have used : new_sock ≠ 0 := by omega
    constructor
    · apply (occupants_fill room used).nodup_iff.mpr
      exact List.nodup_cons.mpr ⟨absent, agree.distinct⟩
    · intro fd hfd
      rcases (mem_occupants_fill room used).mp hfd with rfl | old
      · exact ⟨positive, isSome_update_some.mpr (Or.inl rfl)⟩
      · obtain ⟨above, opened⟩ := agree.connected fd old
        exact ⟨above, isSome_update_some.mpr (Or.inr opened)⟩
    · intro fd opened
      apply (mem_occupants_fill room used).mpr
      rcases isSome_update_some.mp opened with rfl | old
      · exact Or.inl rfl
      · exact Or.inr (agree.listed fd old)

private theorem agree_closed {s : State} (agree : Agree s) {i : ℕ} {sd : ℤ}
    (held : s.clients[i]? = some sd) (used : 0 < sd) (point : Point)
    (history : List (Event ConnId ℕ)) :
    Agree { s with
      point := point
      clients := s.clients.set i 0
      fds := Function.update s.fds sd none
      history := history } := by
  have perm := occupants_set held (Int.ne_of_gt used)
  obtain ⟨gone, distinct⟩ := List.nodup_cons.mp (perm.nodup_iff.mp agree.distinct)
  constructor
  · exact distinct
  · intro fd hfd
    have before : fd ∈ occupants 0 s.clients := perm.mem_iff.mpr (List.mem_cons_of_mem sd hfd)
    obtain ⟨above, opened⟩ := agree.connected fd before
    refine ⟨above, isSome_update_none.mpr ⟨?_, opened⟩⟩
    rintro rfl
    exact gone hfd
  · intro fd opened
    obtain ⟨other, before⟩ := isSome_update_none.mp opened
    have among := perm.mem_iff.mp (agree.listed fd before)
    exact (List.mem_cons.mp among).resolve_left other

private theorem agree_step (s : State) (a : Action) (t : State) (agree : Agree s)
    (taken : step s a = some t) : Agree t ↔ Sound s a := by
  cases took_of_step taken with
  | selected readfds here within =>
    exact ⟨fun _ => trivial, fun _ => ⟨agree.distinct, agree.connected, agree.listed⟩⟩
  | refused readfds new_sock here failed =>
    rw [agree_refused agree failed, Sound]
    constructor
    · intro full
      exact Or.inr ⟨failed, full⟩
    · rintro (⟨positive, _⟩ | ⟨_, full⟩)
      · omega
      · exact full
  | opened readfds new_sock here valid fresh =>
    rw [agree_opened agree valid fresh, Sound]
    constructor
    · intro ok
      exact Or.inl ok
    · rintro (ok | ⟨negative, _⟩)
      · exact ok
      · omega
  | skipped readfds i here =>
    exact ⟨fun _ => trivial, fun _ => ⟨agree.distinct, agree.connected, agree.listed⟩⟩
  | closed readfds i sd beyond here held used ready =>
    exact ⟨fun _ => trivial, fun _ => agree_closed agree held used _ _⟩
  | forwarded readfds i sd conn got beyond msg here held used ready behind some_bytes fits text =>
    exact ⟨fun _ => trivial, fun _ => ⟨agree.distinct, agree.connected, agree.listed⟩⟩

/-- The table and the connections agree in every state of a run exactly when every `accept`
of the run is sound. -/
theorem agree_iff (server_sock : ℤ) (as : List Action) (s : State)
    (taken : exec step (init server_sock) as = some s) :
    Always step Agree (init server_sock) as ↔ Guarded step Sound (init server_sock) as :=
  always_iff_guarded agree_step (agree_init server_sock) taken

/-- A single client is accepted into the empty table. -/
theorem agree_one_client : ∃ s,
    exec step (init 3) [.select [3], .accept 4] = some s ∧
      Always step Agree (init 3) [.select [3], .accept 4] := by
  have shown : (exec step (init 3) [.select [3], .accept 4]).isSome := by decide
  obtain ⟨s, taken⟩ := Option.isSome_iff_exists.mp shown
  refine ⟨s, taken, (agree_iff 3 _ s taken).mpr ⟨trivial, ?_⟩⟩
  intro t ht
  refine ⟨Or.inl ⟨by decide, ?_⟩, fun _ _ => trivial⟩
  cases took_of_step ht with
  | selected readfds here within => exact (by decide : (0 : ℤ) ∈ (init 3).clients)

/-- The result of a failed `accept` is stored like a client. -/
theorem failed_accept_stored : ∃ s, Reach step (init 3) s ∧ ¬Agree s := by
  have shown : ((exec step (init 3) [.select [3], .accept (-1)]).map fun s => s.clients) =
      some [-1, 0, 0, 0, 0, 0, 0, 0, 0, 0] := by decide
  obtain ⟨s, taken, clients⟩ := Option.map_eq_some_iff.mp shown
  refine ⟨s, ⟨_, taken⟩, ?_⟩
  intro agree
  have stored : (-1 : ℤ) ∈ occupants 0 s.clients := by
    rw [clients]
    decide
  have positive := (agree.connected (-1) stored).1
  omega

end SocketChat.MoreLearning.SelectChat.Table
