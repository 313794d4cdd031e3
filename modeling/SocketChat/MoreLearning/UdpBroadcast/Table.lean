/- SocketChat/MoreLearning/UdpBroadcast/Table
   digest: The server's table is the first ten senders, and whom each datagram goes to. -/

import SocketChat.Lib.FirstComers
import SocketChat.MoreLearning.UdpBroadcast.Model

set_option autoImplicit false
set_option relaxedAutoImplicit false

namespace SocketChat.MoreLearning.UdpBroadcast.Table

open SocketChat.Lib.CString
open SocketChat.Lib.FirstComers
open Model
open Model.Server

private theorem same_address {a b : SockaddrIn} :
    a.sin_port = b.sin_port ∧ a.s_addr = b.s_addr ↔ a = b := by
  cases a
  cases b
  simp

theorem found_iff (client : SockaddrIn) (entries : List SockaddrIn) :
    found client entries = true ↔ client ∈ entries := by
  induction entries with
  | nil => simp [found]
  | cons entry entries ih =>
    rw [found]
    by_cases same : entry = client
    · rw [if_pos (same_address.mpr same), same]
      simp
    · rw [if_neg fun both => same (same_address.mp both), ih, List.mem_cons]
      constructor
      · exact Or.inr
      · intro either
        exact either.resolve_left fun h => same h.symm

theorem broadcast_eq (sender : SockaddrIn) (msg : List Byte) (entries : List SockaddrIn) :
    broadcast sender msg entries =
      (entries.filter (· ≠ sender)).map fun entry => ⟨entry, msg⟩ := by
  induction entries with
  | nil => rfl
  | cons entry entries ih =>
    rw [broadcast]
    by_cases same : entry = sender
    · have equal := same_address.mpr same
      rw [if_neg (by simp [equal.1, equal.2]), ih, List.filter_cons_of_neg (by simp [same])]
    · have differ : entry.sin_port ≠ sender.sin_port ∨ entry.s_addr ≠ sender.s_addr := by
        by_contra equal
        simp only [not_or, ne_eq, not_not] at equal
        exact same (same_address.mp equal)
      rw [if_pos differ, ih, List.filter_cons_of_pos (by simp [same]), List.map_cons]

def Counted (s : State) : Prop := s.client_count ≤ MAX_CLIENTS

private theorem length_table {s : State} (counted : Counted s) :
    s.table.length = s.client_count := by
  simp only [State.table, List.length_take, Vector.length_toList]
  unfold Counted at counted
  omega

private theorem counted_enter {s : State} (counted : Counted s) (client : SockaddrIn) :
    Counted (enter s client) := by
  unfold enter
  split
  · rename_i room
    exact room.2
  · exact counted

private theorem length_table_lt (s : State) :
    s.table.length < MAX_CLIENTS ↔ s.client_count < MAX_CLIENTS := by
  simp only [State.table, List.length_take, Vector.length_toList]
  omega

theorem table_enter (s : State) (client : SockaddrIn) :
    (enter s client).table = register MAX_CLIENTS s.table client := by
  unfold enter register
  by_cases room : found client s.table = false ∧ s.client_count < MAX_CLIENTS
  · have fresh : client ∉ s.table := by
      rw [← found_iff, room.1]
      exact Bool.false_ne_true
    rw [dif_pos room, if_pos ⟨fresh, (length_table_lt s).mpr room.2⟩]
    simp only [State.table, Vector.toList_set]
    rw [List.take_add_one, List.take_set_of_le (Nat.le_refl _),
      List.getElem?_set_self (by simpa using room.2)]
    rfl
  · rw [dif_neg room, if_neg]
    rintro ⟨fresh, less⟩
    refine room ⟨?_, (length_table_lt s).mp less⟩
    rwa [← found_iff, Bool.not_eq_true] at fresh

structure Arrival where
  client : SockaddrIn
  payload : List Byte
  beyond : List Byte

def serveArrival (s : State) (a : Arrival) : State × List SendTo :=
  serve s (.received a.client a.payload) a.beyond

def afterAll (arrivals : List Arrival) : State :=
  arrivals.foldl (fun s a => (serveArrival s a).1) init

private theorem afterAll_concat (arrivals : List Arrival) (last : Arrival) :
    afterAll (arrivals ++ [last]) = (serveArrival (afterAll arrivals) last).1 := by
  rw [afterAll, List.foldl_append]
  rfl

private theorem counted_afterAll (arrivals : List Arrival) : Counted (afterAll arrivals) := by
  induction arrivals using List.reverseRecOn with
  | nil => exact Nat.zero_le _
  | append_singleton arrivals last ih =>
    rw [afterAll_concat]
    exact counted_enter ih last.client

/-- The array and its counter implement the register of first comers. -/
theorem table_afterAll (arrivals : List Arrival) :
    (afterAll arrivals).table = firstComers MAX_CLIENTS (arrivals.map Arrival.client) := by
  induction arrivals using List.reverseRecOn with
  | nil => rfl
  | append_singleton arrivals last ih =>
    have entered : (afterAll (arrivals ++ [last])).table =
        register MAX_CLIENTS (afterAll arrivals).table last.client := by
      rw [afterAll_concat]
      exact table_enter (afterAll arrivals) last.client
    rw [entered, ih, List.map_append, List.map_cons, List.map_nil, firstComers_concat]

private theorem countP_broadcast {entries : List SockaddrIn} (distinct : entries.Nodup)
    (sender dest : SockaddrIn) (msg : List Byte) :
    (broadcast sender msg entries).countP (·.dest = dest) =
      if dest ∈ entries ∧ dest ≠ sender then 1 else 0 := by
  have others : (entries.filter (· ≠ sender)).count dest =
      if dest ∈ entries ∧ dest ≠ sender then 1 else 0 := by
    rw [(distinct.filter _).count]
    simp
  rw [broadcast_eq, List.countP_map, ← others]
  rfl

/-- After any datagrams the table holds their first ten distinct senders in the order they
appeared, and the next datagram goes once to each of the entries it leaves in the table but
its own sender, and nowhere else. -/
theorem first_ten_senders (arrivals : List Arrival) :
    (afterAll arrivals).table = firstComers MAX_CLIENTS (arrivals.map Arrival.client) ∧
      (afterAll arrivals).table.Nodup ∧
      (afterAll arrivals).table.length = (afterAll arrivals).client_count ∧
      (afterAll arrivals).client_count ≤ MAX_CLIENTS ∧
      ∀ next dest, (serveArrival (afterAll arrivals) next).2.countP (·.dest = dest) =
        if dest ∈ (afterAll (arrivals ++ [next])).table ∧ dest ≠ next.client then 1 else 0 := by
  have counted := counted_afterAll arrivals
  have distinct : ∀ arrivals, (afterAll arrivals).table.Nodup := by
    intro arrivals
    rw [table_afterAll]
    exact nodup_firstComers _ _
  refine ⟨table_afterAll arrivals, distinct arrivals, length_table counted, counted, ?_⟩
  intro next dest
  have later := distinct (arrivals ++ [next])
  rw [afterAll_concat] at later ⊢
  exact countP_broadcast later next.client dest _

end SocketChat.MoreLearning.UdpBroadcast.Table
