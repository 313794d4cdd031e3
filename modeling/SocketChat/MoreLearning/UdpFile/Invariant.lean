/- SocketChat/MoreLearning/UdpFile/Invariant
   digest: What the server has sent and what the client has kept, in every state of every run. -/

import SocketChat.MoreLearning.UdpFile.Model

set_option autoImplicit false
set_option relaxedAutoImplicit false

namespace SocketChat.MoreLearning.UdpFile.Invariant

open SocketChat.Lib.Blocks
open SocketChat.Lib.CString
open SocketChat.Lib.LossyFifo
open SocketChat.Lib.Runs
open SocketChat.MoreLearning.UdpFile.Model

inductive Took (s : State) : Action → State → Prop
  | refused (d : Datagram) (up : Fifo Datagram) (here : s.server.point = .request)
      (absent : s.server.file = none) (pulled : s.up.pull = some (d, up)) :
      Took s .serverRequest
        { s with
          up := up
          down := s.down.push ⟨none, ERROR⟩
          server := { s.server with point := .finished } }
  | opened (d : Datagram) (up : Fifo Datagram) (rest : List Byte)
      (here : s.server.point = .request) (present : s.server.file = some rest)
      (pulled : s.up.pull = some (d, up)) :
      Took s .serverRequest { s with up := up, server := { s.server with point := .read } }
  | chunk (rest : List Byte) (here : s.server.point = .read)
      (present : s.server.file = some rest) (more : rest ≠ []) :
      Took s .serverRead
        { s with
          down := s.down.push ⟨some (s.server.packets + 1), rest.take BUFFER_SIZE⟩
          server := { s.server with
            point := .ack
            file := some (rest.drop BUFFER_SIZE)
            n := (rest.take BUFFER_SIZE).length
            packet_count := s.server.packet_count + 1
            packets := s.server.packets + 1 } }
  | ended (here : s.server.point = .read) (present : s.server.file = some []) :
      Took s .serverRead
        { s with
          down := s.down.push ⟨none, EOF⟩
          server := { s.server with point := .finished } }
  | logged (d : Datagram) (up : Fifo Datagram) (here : s.server.point = .ack)
      (pulled : s.up.pull = some (d, up)) :
      Took s .serverAck
        { s with
          up := up
          server := { s.server with
            point := .read
            log := s.server.log ++ [⟨s.server.packet_count, s.server.n, s.server.packets⟩] } }
  | unanswered (here : s.server.point = .ack) :
      Took s .serverTimeout { s with server := { s.server with point := .read } }
  | eof (d : Datagram) (down : Fifo Datagram) (here : s.client.point = .receive)
      (pulled : s.down.pull = some (d, down)) (marker : d.payload.take BUFFER_SIZE = EOF) :
      Took s .clientReceive
        { s with down := down, client := { s.client with point := .left .eof } }
  | error (d : Datagram) (down : Fifo Datagram) (here : s.client.point = .receive)
      (pulled : s.down.pull = some (d, down)) (marker : d.payload.take BUFFER_SIZE = ERROR) :
      Took s .clientReceive
        { s with down := down, client := { s.client with point := .left .error } }
  | kept (d : Datagram) (down : Fifo Datagram) (here : s.client.point = .receive)
      (pulled : s.down.pull = some (d, down)) (plain : ¬IsMarker (d.payload.take BUFFER_SIZE)) :
      Took s .clientReceive
        { s with
          down := down
          client := { s.client with
            point := .written d.packet
            received := s.client.received ++ d.payload.take BUFFER_SIZE
            kept := s.client.kept ++ [d] } }
  | gaveUp (here : s.client.point = .receive) :
      Took s .clientTimeout { s with client := { s.client with point := .left .timeout } }
  | counted (packet : Option ℕ) (here : s.client.point = .written packet) :
      Took s .clientCount
        { s with
          client := { s.client with
            point := .counted packet
            packet_count := s.client.packet_count + 1 } }
  | acked (packet : Option ℕ) (here : s.client.point = .counted packet) :
      Took s .clientAck
        { s with
          client := { s.client with point := .receive }
          up := s.up.push ⟨packet, ACK⟩ }
  | lostDown (i : ℕ) (down : Fifo Datagram) (dropped : s.down.drop i = some down) :
      Took s (.loseDown i) { s with down := down }
  | lostUp (i : ℕ) (up : Fifo Datagram) (dropped : s.up.drop i = some up) :
      Took s (.loseUp i) { s with up := up }

private theorem took_serverRequest {s t : State} (taken : serverRequest s = some t) :
    Took s .serverRequest t := by
  unfold serverRequest at taken
  split at taken
  · rename_i here
    obtain ⟨⟨d, up⟩, pulled, result⟩ := Option.map_eq_some_iff.mp taken
    cases file : s.server.file with
    | none =>
      rw [file] at result
      subst result
      exact .refused d up here file pulled
    | some rest =>
      rw [file] at result
      subst result
      exact .opened d up rest here file pulled
  · cases taken

private theorem took_serverRead {s t : State} (taken : serverRead s = some t) :
    Took s .serverRead t := by
  unfold serverRead at taken
  split at taken
  · rename_i here
    obtain ⟨rest, present, result⟩ := Option.map_eq_some_iff.mp taken
    dsimp only at result
    split at result
    · rename_i some_bytes
      subst result
      refine .chunk rest here present ?_
      rintro rfl
      simp at some_bytes
    · rename_i no_bytes
      subst result
      have nothing : rest = [] := by
        cases rest with
        | nil => rfl
        | cons b rest => simp [BUFFER_SIZE] at no_bytes
      exact .ended here (nothing ▸ present)
  · cases taken

private theorem took_serverAck {s t : State} (taken : serverAck s = some t) :
    Took s .serverAck t := by
  unfold serverAck at taken
  split at taken
  · rename_i here
    obtain ⟨⟨d, up⟩, pulled, result⟩ := Option.map_eq_some_iff.mp taken
    subst result
    exact .logged d up here pulled
  · cases taken

private theorem took_serverTimeout {s t : State} (taken : serverTimeout s = some t) :
    Took s .serverTimeout t := by
  unfold serverTimeout at taken
  split at taken
  · rename_i here
    obtain rfl := Option.some.inj taken
    exact .unanswered here
  · cases taken

private theorem took_clientReceive {s t : State} (taken : clientReceive s = some t) :
    Took s .clientReceive t := by
  unfold clientReceive at taken
  split at taken
  · rename_i here
    obtain ⟨⟨d, down⟩, pulled, result⟩ := Option.map_eq_some_iff.mp taken
    dsimp only at result
    split at result
    · rename_i marker
      subst result
      exact .eof d down here pulled marker
    · rename_i not_eof
      split at result
      · rename_i marker
        subst result
        exact .error d down here pulled marker
      · rename_i not_error
        subst result
        exact .kept d down here pulled (not_or.mpr ⟨not_eof, not_error⟩)
  · cases taken

private theorem took_clientTimeout {s t : State} (taken : clientTimeout s = some t) :
    Took s .clientTimeout t := by
  unfold clientTimeout at taken
  split at taken
  · rename_i here
    obtain rfl := Option.some.inj taken
    exact .gaveUp here
  · cases taken

private theorem took_clientCount {s t : State} (taken : clientCount s = some t) :
    Took s .clientCount t := by
  unfold clientCount at taken
  split at taken
  · rename_i packet here
    obtain rfl := Option.some.inj taken
    exact .counted packet here
  · cases taken

private theorem took_clientAck {s t : State} (taken : clientAck s = some t) :
    Took s .clientAck t := by
  unfold clientAck at taken
  split at taken
  · rename_i packet here
    obtain rfl := Option.some.inj taken
    exact .acked packet here
  · cases taken

theorem took_of_step {s t : State} {a : Action} (taken : step s a = some t) : Took s a t := by
  cases a with
  | serverRequest => exact took_serverRequest taken
  | serverRead => exact took_serverRead taken
  | serverAck => exact took_serverAck taken
  | serverTimeout => exact took_serverTimeout taken
  | clientReceive => exact took_clientReceive taken
  | clientTimeout => exact took_clientTimeout taken
  | clientCount => exact took_clientCount taken
  | clientAck => exact took_clientAck taken
  | loseDown i =>
    obtain ⟨down, dropped, result⟩ := Option.map_eq_some_iff.mp taken
    subst result
    exact .lostDown i down dropped
  | loseUp i =>
    obtain ⟨up, dropped, result⟩ := Option.map_eq_some_iff.mp taken
    subst result
    exact .lostUp i up dropped

def numbered (pieces : List (List Byte)) : List Datagram :=
  pieces.zipIdx.map fun (piece, i) => ⟨some (i + 1), piece⟩

private theorem numbered_concat (pieces : List (List Byte)) (piece : List Byte) :
    numbered (pieces ++ [piece]) = numbered pieces ++ [⟨some (pieces.length + 1), piece⟩] := by
  simp [numbered, List.zipIdx_append]

@[simp] theorem map_payload_numbered (pieces : List (List Byte)) :
    (numbered pieces).map Datagram.payload = pieces := by
  rw [numbered, List.map_map]
  exact List.zipIdx_map_fst 0 pieces

private theorem map_packet_numbered (pieces : List (List Byte)) :
    (numbered pieces).map Datagram.packet =
      (List.range pieces.length).map fun i => some (i + 1) := by
  rw [numbered, List.map_map, List.range_eq_range', ← List.zipIdx_map_snd 0 pieces,
    List.map_map]
  rfl

theorem payload_mem_of_mem_numbered {pieces : List (List Byte)} {d : Datagram}
    (hd : d ∈ numbered pieces) : d.payload ∈ pieces := by
  rw [← map_payload_numbered pieces]
  exact List.mem_map_of_mem hd

theorem packet_ne_none_of_mem_numbered {pieces : List (List Byte)} {d : Datagram}
    (hd : d ∈ numbered pieces) : d.packet ≠ none := by
  have tagged : d.packet ∈ (numbered pieces).map Datagram.packet := List.mem_map_of_mem hd
  rw [map_packet_numbered] at tagged
  obtain ⟨i, _, same⟩ := List.mem_map.mp tagged
  rw [← same]
  exact Option.some_ne_none (i + 1)

theorem nodup_numbered (pieces : List (List Byte)) : (numbered pieces).Nodup := by
  apply List.Nodup.of_map Datagram.packet
  rw [map_packet_numbered]
  apply List.Nodup.map
  · intro i j same
    have := Option.some.inj same
    omega
  · exact List.nodup_range

theorem numbered_take_sublist (ps : List (List Byte)) (k : ℕ) :
    (numbered (ps.take k)).Sublist (numbered ps) := by
  have whole : numbered ps = numbered (ps.take k) ++
      ((ps.drop k).zipIdx (0 + (ps.take k).length)).map fun (piece, i) =>
        (⟨some (i + 1), piece⟩ : Datagram) := by
    rw [numbered, numbered, ← List.map_append, ← List.zipIdx_append, List.take_append_drop]
  rw [whole]
  exact List.sublist_append_left _ _

def pieces (file : Option (List Byte)) : List (List Byte) := chunks (file.getD [])

def trailer (file : Option (List Byte)) : Datagram := ⟨none, if file.isSome then EOF else ERROR⟩

theorem isMarker_trailer (file : Option (List Byte)) : IsMarker (trailer file).payload := by
  cases file with
  | none => exact Or.inr rfl
  | some content => exact Or.inl rfl

private theorem pieces_none : pieces none = [] := blocks_nil BUFFER_SIZE

theorem pieces_some_nil : pieces (some []) = [] := blocks_nil BUFFER_SIZE

theorem pieces_some_cons {rest : List Byte} (more : rest ≠ []) :
    pieces (some rest) = rest.take BUFFER_SIZE :: pieces (some (rest.drop BUFFER_SIZE)) :=
  blocks_of_ne_nil (by decide) more

theorem flatten_pieces (content : List Byte) : (pieces (some content)).flatten = content :=
  flatten_blocks (by decide) content

theorem ne_nil_of_mem_pieces {file : Option (List Byte)} {piece : List Byte}
    (hp : piece ∈ pieces file) : piece ≠ [] :=
  ne_nil_of_mem_blocks (by decide) hp

structure Sending (file : Option (List Byte)) (server : Server) (sent : List Datagram) : Prop where
  opened : server.file.isSome = file.isSome
  rest : pieces server.file = (pieces file).drop server.packets
  packets_le : server.packets ≤ (pieces file).length
  all : server.point = .finished → server.packets = (pieces file).length
  wire : sent = numbered ((pieces file).take server.packets) ++
    if server.point = .finished then [trailer file] else []

structure Keeping (client : Client) (got : List Datagram) : Prop where
  read : match client.point with
    | .left .eof => ∃ d, got = client.kept ++ [d] ∧ d.payload = EOF
    | .left .error => ∃ d, got = client.kept ++ [d] ∧ d.payload = ERROR
    | _ => got = client.kept
  received : client.received = (client.kept.map Datagram.payload).flatten
  plain : ∀ d ∈ client.kept, ¬IsMarker d.payload
  count : match client.point with
    | .written _ => client.packet_count + 1 = BitVec.ofNat 32 client.kept.length
    | _ => client.packet_count = BitVec.ofNat 32 client.kept.length

/-- The joint invariant of the two programs and the wire between them. -/
structure Inv (file : Option (List Byte)) (s : State) : Prop where
  sending : Sending file s.server s.down.sent
  keeping : Keeping s.client s.down.got

private theorem Sending.packets_of_none {server : Server} {sent : List Datagram}
    (h : Sending none server sent) : server.packets = (pieces none).length := by
  apply Nat.le_antisymm h.packets_le
  rw [pieces_none]
  exact Nat.zero_le _

private theorem Sending.next {file : Option (List Byte)} {server : Server} {sent : List Datagram}
    (h : Sending file server sent) {rest : List Byte} (present : server.file = some rest)
    (more : rest ≠ []) :
    server.packets < (pieces file).length ∧
      (pieces file).take (server.packets + 1) =
        (pieces file).take server.packets ++ [rest.take BUFFER_SIZE] ∧
      pieces (some (rest.drop BUFFER_SIZE)) = (pieces file).drop (server.packets + 1) := by
  have left := h.rest
  rw [present, pieces_some_cons more] at left
  have inside : server.packets < (pieces file).length := by
    by_contra past
    rw [List.drop_eq_nil_of_le (Nat.le_of_not_lt past)] at left
    cases left
  rw [List.drop_eq_getElem_cons inside] at left
  obtain ⟨head, tail⟩ := List.cons.inj left
  refine ⟨inside, ?_, tail⟩
  rw [head]
  exact List.take_succ_eq_append_getElem inside

private theorem Sending.short {file : Option (List Byte)} {server : Server} {sent : List Datagram}
    (h : Sending file server sent) {d : Datagram} (hd : d ∈ sent) :
    d.payload.take BUFFER_SIZE = d.payload := by
  apply List.take_of_length_le
  rw [h.wire, List.mem_append] at hd
  rcases hd with data | control
  · have piece := payload_mem_of_mem_numbered data
    exact length_le_of_mem_blocks (by decide) (List.mem_of_mem_take piece)
  · split at control
    · rw [List.mem_singleton] at control
      subst control
      cases file with
      | none => decide
      | some content => exact (by decide : EOF.length ≤ BUFFER_SIZE)
    · cases control

private theorem inv_init (file : Option (List Byte)) : Inv file (init file) := by
  constructor
  · constructor
    · rfl
    · rfl
    · exact Nat.zero_le _
    · intro finished
      cases finished
    · rfl
  · constructor
    · rfl
    · rfl
    · intro d hd
      cases hd
    · rfl

private theorem Sending.finish {file : Option (List Byte)} {server : Server} {sent : List Datagram}
    (h : Sending file server sent) (running : server.point ≠ .finished)
    (all : server.packets = (pieces file).length) :
    Sending file { server with point := .finished } (sent ++ [trailer file]) := by
  have wire := h.wire
  rw [if_neg running, List.append_nil] at wire
  exact ⟨h.opened, h.rest, h.packets_le, fun _ => all, by rw [wire, if_pos rfl]⟩

private theorem Sending.move {file : Option (List Byte)} {server moved : Server}
    {sent : List Datagram} (h : Sending file server sent) (running : server.point ≠ .finished)
    (still : moved.point ≠ .finished) (same : moved.file = server.file)
    (count : moved.packets = server.packets) : Sending file moved sent := by
  have wire := h.wire
  rw [if_neg running] at wire
  constructor
  · rw [same]
    exact h.opened
  · rw [same, count]
    exact h.rest
  · rw [count]
    exact h.packets_le
  · intro finished
    exact absurd finished still
  · rw [if_neg still, count]
    exact wire

private theorem Sending.send {file : Option (List Byte)} {server moved : Server}
    {sent : List Datagram} (h : Sending file server sent) (running : server.point ≠ .finished)
    (still : moved.point ≠ .finished) {rest : List Byte} (present : server.file = some rest)
    (more : rest ≠ []) (read : moved.file = some (rest.drop BUFFER_SIZE))
    (count : moved.packets = server.packets + 1) :
    Sending file moved
      (sent ++ [⟨some (server.packets + 1), rest.take BUFFER_SIZE⟩]) := by
  obtain ⟨inside, piece, left⟩ := h.next present more
  have wire := h.wire
  rw [if_neg running, List.append_nil] at wire
  constructor
  · rw [read, ← h.opened, present]
    rfl
  · rw [read, count]
    exact left
  · rw [count]
    exact inside
  · intro finished
    exact absurd finished still
  · rw [if_neg still, List.append_nil, count, piece, numbered_concat, wire,
      List.length_take, Nat.min_eq_left h.packets_le]

private theorem inv_step {file : Option (List Byte)} {s : State} {a : Action} {t : State}
    (inv : Inv file s) (taken : step s a = some t) : Inv file t := by
  obtain ⟨sending, keeping⟩ := inv
  cases took_of_step taken with
  | refused d up here absent pulled =>
    have running : s.server.point ≠ .finished := by simp [here]
    obtain rfl : file = none := by
      have opened := sending.opened
      rw [absent] at opened
      exact Option.isNone_iff_eq_none.mp (Option.isSome_eq_false_iff.mp opened.symm)
    exact ⟨sending.finish running sending.packets_of_none, keeping⟩
  | opened d up rest here present pulled =>
    have running : s.server.point ≠ .finished := by simp [here]
    exact ⟨sending.move running (by simp) rfl rfl, keeping⟩
  | chunk rest here present more =>
    have running : s.server.point ≠ .finished := by simp [here]
    exact ⟨sending.send running (by simp) present more rfl rfl, keeping⟩
  | ended here present =>
    have running : s.server.point ≠ .finished := by simp [here]
    have all : s.server.packets = (pieces file).length := by
      have left := sending.rest
      rw [present, pieces_some_nil] at left
      exact Nat.le_antisymm sending.packets_le (List.drop_eq_nil_iff.mp left.symm)
    have name : trailer file = ⟨none, EOF⟩ := by
      have opened := sending.opened
      rw [present] at opened
      rw [trailer, ← opened]
      rfl
    have finished := sending.finish running all
    rw [name] at finished
    exact ⟨finished, keeping⟩
  | logged d up here pulled =>
    have running : s.server.point ≠ .finished := by simp [here]
    exact ⟨sending.move running (by simp) rfl rfl, keeping⟩
  | unanswered here =>
    have running : s.server.point ≠ .finished := by simp [here]
    exact ⟨sending.move running (by simp) rfl rfl, keeping⟩
  | eof d down here pulled marker =>
    obtain ⟨flight, got, sent, _⟩ := Fifo.pull_spec pulled
    have whole := sending.short (s.down.flight_subset (flight ▸ List.mem_cons_self))
    have read := keeping.read
    have count := keeping.count
    rw [here] at read count
    refine ⟨sent ▸ sending, ⟨⟨d, ?_, whole ▸ marker⟩, keeping.received, keeping.plain, count⟩⟩
    rw [got, read]
  | error d down here pulled marker =>
    obtain ⟨flight, got, sent, _⟩ := Fifo.pull_spec pulled
    have whole := sending.short (s.down.flight_subset (flight ▸ List.mem_cons_self))
    have read := keeping.read
    have count := keeping.count
    rw [here] at read count
    refine ⟨sent ▸ sending, ⟨⟨d, ?_, whole ▸ marker⟩, keeping.received, keeping.plain, count⟩⟩
    rw [got, read]
  | kept d down here pulled plain =>
    obtain ⟨flight, got, sent, _⟩ := Fifo.pull_spec pulled
    have whole := sending.short (s.down.flight_subset (flight ▸ List.mem_cons_self))
    have read := keeping.read
    have count := keeping.count
    rw [here] at read count
    rw [whole] at plain
    refine ⟨sent ▸ sending, ⟨?_, ?_, ?_, ?_⟩⟩
    · show down.got = s.client.kept ++ [d]
      rw [got, read]
    · simp [keeping.received, whole]
    · intro e he
      rcases List.mem_append.mp he with old | new
      · exact keeping.plain e old
      · rw [List.mem_singleton.mp new]
        exact plain
    · simp [count, BitVec.ofNat_add]
  | gaveUp here =>
    have read := keeping.read
    have count := keeping.count
    rw [here] at read count
    exact ⟨sending, ⟨read, keeping.received, keeping.plain, count⟩⟩
  | counted packet here =>
    have read := keeping.read
    have count := keeping.count
    rw [here] at read count
    exact ⟨sending, ⟨read, keeping.received, keeping.plain, count⟩⟩
  | acked packet here =>
    have read := keeping.read
    have count := keeping.count
    rw [here] at read count
    exact ⟨sending, ⟨read, keeping.received, keeping.plain, count⟩⟩
  | lostDown i down dropped =>
    obtain ⟨got, sent, _⟩ := Fifo.drop_spec dropped
    exact ⟨sent ▸ sending, got ▸ keeping⟩
  | lostUp i up dropped => exact ⟨sending, keeping⟩

theorem inv_reach {file : Option (List Byte)} {s : State} (run : Reach step (init file) s) :
    Inv file s :=
  invariant_of_step_reach (fun _ _ _ => inv_step) (inv_init file) run

end SocketChat.MoreLearning.UdpFile.Invariant
