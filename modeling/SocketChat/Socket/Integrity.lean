/- SocketChat/Socket/Integrity
   digest: What each side is shown is what the other side has typed, and a farewell comes last. -/

import SocketChat.Socket.Farewell

set_option autoImplicit false
set_option relaxedAutoImplicit false

namespace SocketChat.Socket.Integrity

open SocketChat.Lib.CString
open SocketChat.Lib.Lines (fgets_append)
open SocketChat.Lib.Runs
open SocketChat.Lib.Sides
open SocketChat.Socket.Farewell
open Model

/-- What one side has been shown and what is on its way to it is what the other side has said. -/
def Conserved (s : State) : Prop :=
  ∀ who, (s.party who).shown.flatten ++ s.inbox who = bytesSaid s who.peer

def unwritten (p : Party) : List Byte := if p.point = .write then cstr p.buffer else []

/-- What a party has said, what it is about to say and what it has not read is its input, but for a
message that was lost when it died. -/
def Typed (stdin : List Byte) (p : Party) : Prop :=
  ∃ lost, p.said.flatten ++ lost ++ unwritten p ++ p.stdin = stdin ∧ (p.point ≠ .died → lost = [])

/-- A party leaves with a farewell, and not without one. -/
def Parting (p : Party) : Prop :=
  if p.point = .left then
    ∃ before farewell, p.said = before ++ [farewell] ∧ isBye farewell = true ∧
      ∀ text ∈ before, isBye text = false
  else ∀ text ∈ p.said, isBye text = false

section Said

private theorem isBye_cstr (buffer : List Byte) : isBye (cstr buffer) = isBye buffer := by
  rw [isBye, isBye, cstr_cstr]

private theorem nul_free_step {s t : State} {a : Action} (who : Side)
    (nul_free : 0 ∉ bytesSaid s who) (taken : step s a = some t) : 0 ∉ bytesSaid t who := by
  by_cases mine : a.who = who
  · subst mine
    have moves := (moves_of_step taken).1
    unfold bytesSaid at nul_free ⊢
    generalize t.party a.who = p at moves
    cases moves with
    | fgets who ready =>
      unfold Party.fgets
      split
      · exact nul_free
      · exact nul_free
    | write who ready =>
      change 0 ∉ ((s.party who).said ++ [cstr (s.party who).buffer]).flatten
      rw [List.flatten_append, List.flatten_singleton, List.mem_append, not_or]
      exact ⟨nul_free, zero_not_mem_cstr _⟩
    | read who k ready => exact nul_free
    | readEnd who ready => exact nul_free
    | fail who ready => exact nul_free
  · rw [bytesSaid, party_of_other mine taken]
    exact nul_free

end Said

section Conserved

variable {s : State} {who : Side}

private theorem shown_read {chunk : List Byte} (nul_free : 0 ∉ chunk)
    (room : chunk.length < BUFFER_SIZE)
    (p : Party) : (p.read chunk).shown.flatten = p.shown.flatten ++ chunk := by
  have text : cstr (overwrite cleared chunk) = chunk := by
    rw [← List.append_nil (overwrite _ _), cleared, cstr_overwrite_zeros room,
      cstr_of_nul_free nul_free]
  change (p.shown ++ [cstr (overwrite cleared chunk)]).flatten = _
  rw [List.flatten_append, List.flatten_singleton, text]

private theorem conserved_step (s : State) (a : Action) (t : State)
    (h : Conserved s ∧ ∀ who, 0 ∉ bytesSaid s who) (taken : step s a = some t) :
    Conserved t ∧ ∀ who, 0 ∉ bytesSaid t who := by
  obtain ⟨conserved, nul_free⟩ := h
  refine ⟨?_, fun who => nul_free_step who (nul_free who) taken⟩
  cases a with
  | fgets who =>
    simp only [step, Option.ite_none_right_eq_some, Option.some.injEq] at taken
    obtain ⟨_, rfl⟩ := taken
    have same : ∀ x, (((s.setParty who (s.party who).fgets).party x).shown =
        (s.party x).shown) ∧ bytesSaid (s.setParty who (s.party who).fgets) x = bytesSaid s x := by
      intro x
      rw [bytesSaid, Duo.party_setParty]
      split
      · rename_i own
        subst own
        unfold Party.fgets
        split
        · exact ⟨rfl, rfl⟩
        · exact ⟨rfl, rfl⟩
      · exact ⟨rfl, rfl⟩
    intro x
    rw [(same x).1, (same x.peer).2]
    exact conserved x
  | write who =>
    simp only [step, Option.ite_none_right_eq_some, Option.some.injEq] at taken
    obtain ⟨_, rfl⟩ := taken
    rw [Conserved, Side.forall_iff who]
    constructor
    · rw [Duo.party_setInbox, Duo.party_setParty_self, Duo.inbox_setInbox_of_peer, bytesSaid,
        Duo.party_setInbox, Duo.party_setParty_peer]
      exact conserved who
    · rw [Duo.party_setInbox, Duo.party_setParty_peer, Duo.inbox_setInbox_self, bytesSaid,
        Duo.party_setInbox, Side.peer_peer, Duo.party_setParty_self, ← List.append_assoc]
      have before := conserved who.peer
      rw [Side.peer_peer] at before
      rw [before]
      change _ = ((s.party who).said ++ [cstr (s.party who).buffer]).flatten
      rw [List.flatten_append, List.flatten_singleton]
      rfl
  | read who k =>
    simp only [step, Option.ite_none_right_eq_some, Option.some.injEq] at taken
    obtain ⟨⟨_, _, room, _⟩, rfl⟩ := taken
    have before := conserved who
    have clean : 0 ∉ (s.inbox who).take k := by
      intro nul
      refine nul_free who.peer ?_
      rw [← before]
      exact List.mem_append_right _ (List.mem_of_mem_take nul)
    have short : ((s.inbox who).take k).length < BUFFER_SIZE := by
      have less : k < BUFFER_SIZE := Nat.lt_of_le_of_lt room (by decide)
      rw [List.length_take]
      exact Nat.lt_of_le_of_lt (Nat.min_le_left _ _) less
    rw [Conserved, Side.forall_iff who]
    constructor
    · rw [Duo.party_setInbox, Duo.party_setParty_self, Duo.inbox_setInbox_self, bytesSaid,
        Duo.party_setInbox, Duo.party_setParty_peer, shown_read clean short, List.append_assoc,
        List.take_append_drop]
      exact before
    · rw [Duo.party_setInbox, Duo.party_setParty_peer, Duo.inbox_setInbox_peer, bytesSaid,
        Duo.party_setInbox, Side.peer_peer, Duo.party_setParty_self]
      have other := conserved who.peer
      rw [Side.peer_peer] at other
      exact other
  | readEnd who =>
    simp only [step, Option.ite_none_right_eq_some, Option.some.injEq] at taken
    obtain ⟨_, rfl⟩ := taken
    rw [Conserved, Side.forall_iff who]
    constructor
    · rw [Duo.party_setParty_self, bytesSaid, Duo.party_setParty_peer,
        shown_read List.not_mem_nil (by decide), List.append_nil]
      exact conserved who
    · rw [Duo.party_setParty_peer, bytesSaid, Side.peer_peer, Duo.party_setParty_self]
      have other := conserved who.peer
      rw [Side.peer_peer] at other
      exact other
  | fail who =>
    simp only [step, Option.ite_none_right_eq_some, Option.some.injEq] at taken
    obtain ⟨_, rfl⟩ := taken
    rw [Conserved, Side.forall_iff who]
    constructor
    · rw [Duo.party_setParty_self, bytesSaid, Duo.party_setParty_peer]
      exact conserved who
    · rw [Duo.party_setParty_peer, bytesSaid, Side.peer_peer, Duo.party_setParty_self]
      have other := conserved who.peer
      rw [Side.peer_peer] at other
      exact other

end Conserved

section Typed

variable {stdin : List Byte} {p : Party}

private theorem point_ne {here other : Point} (ready : p.point = here) (differ : here ≠ other) :
    p.point ≠ other := by
  rw [ready]
  exact differ

private theorem typed_fgets (nul_free : 0 ∉ stdin) (typed : Typed stdin p)
    (ready : p.point = .fgets) :
    Typed stdin p.fgets := by
  obtain ⟨lost, whole, none_lost⟩ := typed
  rw [none_lost (point_ne ready Point.noConfusion), unwritten,
    if_neg (point_ne ready Point.noConfusion), List.append_nil, List.append_nil] at whole
  refine ⟨[], ?_, fun _ => rfl⟩
  unfold Party.fgets
  split
  · change p.said.flatten ++ [] ++ cstr cleared ++ p.stdin = stdin
    rw [show cstr cleared = [] from rfl, List.append_nil, List.append_nil]
    exact whole
  · rename_i piece rest typed
    have line := fgets_append typed
    have clean : 0 ∉ piece := by
      intro nul
      refine nul_free ?_
      rw [← whole, ← line]
      exact List.mem_append_right _ (List.mem_append_left _ nul)
    change p.said.flatten ++ [] ++ cstr (overwrite cleared (piece ++ [0])) ++ rest = stdin
    rw [cstr_overwrite, cstr_of_nul_free clean, List.append_nil, List.append_assoc, line]
    exact whole

private theorem typed_write (typed : Typed stdin p) (ready : p.point = .write) :
    Typed stdin p.write := by
  obtain ⟨lost, whole, none_lost⟩ := typed
  rw [none_lost (point_ne ready Point.noConfusion), unwritten, if_pos ready,
    List.append_nil] at whole
  have elsewhere : p.write.point ≠ .write := by
    rw [Party.write]
    split
    · exact Point.noConfusion
    · exact Point.noConfusion
  refine ⟨[], ?_, fun _ => rfl⟩
  rw [unwritten, if_neg elsewhere, List.append_nil, List.append_nil]
  change (p.said ++ [cstr p.buffer]).flatten ++ p.stdin = stdin
  rw [List.flatten_append, List.flatten_singleton]
  exact whole

private theorem typed_read (typed : Typed stdin p) (ready : p.point = .read) (chunk : List Byte) :
    Typed stdin (p.read chunk) := by
  obtain ⟨lost, whole, none_lost⟩ := typed
  rw [unwritten, if_neg (point_ne ready Point.noConfusion)] at whole
  exact ⟨lost, whole, fun _ => none_lost (point_ne ready Point.noConfusion)⟩

private theorem typed_died (typed : Typed stdin p) : Typed stdin { p with point := .died } := by
  obtain ⟨lost, whole, _⟩ := typed
  refine ⟨lost ++ unwritten p, ?_, fun alive => absurd rfl alive⟩
  change p.said.flatten ++ (lost ++ unwritten p) ++ [] ++ p.stdin = stdin
  rw [List.append_nil, ← List.append_assoc]
  exact whole

end Typed

section Parting

variable {p : Party}

private theorem parting_of_said {q : Party} (parting : Parting p) (inside : p.point ≠ .left)
    (still : q.point ≠ .left) (said : q.said = p.said) : Parting q := by
  rw [Parting, if_neg inside] at parting
  rw [Parting, if_neg still, said]
  exact parting

private theorem parting_write (parting : Parting p) (ready : p.point = .write) :
    Parting p.write := by
  rw [Parting, if_neg (point_ne ready Point.noConfusion)] at parting
  have last := isBye_cstr p.buffer
  by_cases bye : isBye p.buffer = true
  · have left : p.write.point = .left := if_pos bye
    rw [Parting, if_pos left]
    exact ⟨p.said, cstr p.buffer, rfl, last.trans bye, parting⟩
  · have stays : p.write.point = .read := if_neg bye
    rw [Parting, if_neg (by rw [stays]; exact Point.noConfusion)]
    intro text inside
    rcases List.mem_append.mp inside with before | now
    · exact parting text before
    · rw [List.mem_singleton.mp now, last]
      exact Bool.eq_false_iff.mpr bye

end Parting

private theorem party_step {stdin : Side → List Byte} (nul_free : ∀ who, 0 ∉ stdin who) (s : State)
    (a : Action) (t : State)
    (h : ∀ who, Typed (stdin who) (s.party who) ∧ Parting (s.party who))
    (taken : step s a = some t) (who : Side) :
    Typed (stdin who) (t.party who) ∧ Parting (t.party who) := by
  by_cases mine : a.who = who
  · subst mine
    obtain ⟨typed, parting⟩ := h a.who
    have moves := (moves_of_step taken).1
    generalize t.party a.who = p at moves
    cases moves with
    | fgets who ready =>
      refine ⟨typed_fgets (nul_free who) typed ready, ?_⟩
      have inside : (s.party who).point ≠ .left := point_ne ready Point.noConfusion
      unfold Party.fgets
      split
      · exact parting_of_said parting inside Point.noConfusion rfl
      · exact parting_of_said parting inside Point.noConfusion rfl
    | write who ready => exact ⟨typed_write typed ready, parting_write parting ready⟩
    | read who k ready =>
      exact ⟨typed_read typed ready _,
        parting_of_said parting (point_ne ready Point.noConfusion) Point.noConfusion rfl⟩
    | readEnd who ready =>
      exact ⟨typed_read typed ready _,
        parting_of_said parting (point_ne ready Point.noConfusion) Point.noConfusion rfl⟩
    | fail who ready =>
      refine ⟨typed_died typed, parting_of_said parting ?_ Point.noConfusion rfl⟩
      rcases ready with ready | ready
      · exact point_ne ready Point.noConfusion
      · exact point_ne ready Point.noConfusion
  · rw [party_of_other mine taken]
    exact h who

/-- In every run of the two programs, with any cuts of the streams and any failures: what a side has
been shown is a beginning of what the other side's user has typed, in order, with what is on its way
all that was said, and all that was typed up to there unless the other side has died; and a side
leaves the chat with the first line that is a farewell, its last one. -/
theorem shown_is_typed (stdin : Side → List Byte) (nul_free : ∀ who, 0 ∉ stdin who) {s : State}
    (run : Reach step (init stdin) s) (who : Side) :
    (s.party who).shown.flatten ++ s.inbox who = (s.party who.peer).said.flatten ∧
    (s.party who).shown.flatten <+: stdin who.peer ∧
    ((s.party who.peer).point ≠ .died → (s.party who).shown.flatten ++ s.inbox who ++
      unwritten (s.party who.peer) ++ (s.party who.peer).stdin = stdin who.peer) ∧
    Parting (s.party who) := by
  have start : Conserved (init stdin) ∧ ∀ who, 0 ∉ bytesSaid (init stdin) who :=
    ⟨fun who => rfl, fun who => List.not_mem_nil⟩
  have conserved := (invariant_of_step_reach conserved_step start run).1 who
  have parties : ∀ who, Typed (stdin who) (s.party who) ∧ Parting (s.party who) := by
    refine invariant_of_step_reach (party_step nul_free) (fun who => ?_) run
    cases who with
    | client => exact ⟨⟨[], rfl, fun _ => rfl⟩, fun text none_said => by cases none_said⟩
    | server => exact ⟨⟨[], rfl, fun _ => rfl⟩, fun text none_said => by cases none_said⟩
  obtain ⟨lost, whole, none_lost⟩ := (parties who.peer).1
  change _ = (s.party who.peer).said.flatten at conserved
  refine ⟨conserved, ?_, ?_, (parties who).2⟩
  · rw [← whole, ← conserved, List.append_assoc, List.append_assoc, List.append_assoc]
    exact List.prefix_append _ _
  · intro alive
    rw [none_lost alive, List.append_nil] at whole
    rw [conserved]
    exact whole

def goodbye : Side → List Byte
  | .client => lit ['h', 'i', '\n', 'B', 'y', 'e', '\n']
  | .server => lit ['h', 'o', '\n']

private theorem goodbye_nul_free (who : Side) : 0 ∉ goodbye who := by
  cases who
  · decide
  · decide

theorem goodbye_is_shown : ∃ s, Reach step (init goodbye) s ∧
    (s.party .client).point = .left ∧ (s.party .server).shown.flatten <+: goodbye .client ∧
    Parting (s.party .client) := by
  have shown : (exec step (init goodbye) [.fgets .client, .write .client, .read .server 2,
      .fgets .server, .write .server, .read .client 3, .fgets .client, .write .client]).map
        (fun s => (s.party .client).point) = some .left := by
    decide +kernel
  obtain ⟨s, taken, left⟩ := Option.map_eq_some_iff.mp shown
  have run : Reach step (init goodbye) s := ⟨_, taken⟩
  exact ⟨s, run, left, (shown_is_typed goodbye goodbye_nul_free run .server).2.1,
    (shown_is_typed goodbye goodbye_nul_free run .client).2.2.2⟩

end SocketChat.Socket.Integrity
