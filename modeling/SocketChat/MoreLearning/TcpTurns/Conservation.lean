/- SocketChat/MoreLearning/TcpTurns/Conservation
   digest: Out of step or not, every byte typed is shown once and in order while no recv fills. -/

import SocketChat.MoreLearning.TcpTurns.Alternation

set_option autoImplicit false
set_option relaxedAutoImplicit false

namespace SocketChat.MoreLearning.TcpTurns.Conservation

open SocketChat.Lib.CString
open SocketChat.Lib.Lines
open SocketChat.Lib.Runs
open SocketChat.Lib.Sides
open SocketChat.MoreLearning.TcpTurns.Alternation (sendable_typed)
open Model

/-- What a side says for an input: the texts of its pieces up to a piece that is `exit`. -/
def said (stdin : List Byte) : List Byte :=
  (((pieces BUFFER_SIZE stdin).map cstr).takeWhile fun line =>
    line ≠ lit ['e', 'x', 'i', 't', '\n']).flatten

/-- What a side has shown and what is on its way to it is all that the other one has sent, which is
a beginning of what that one has to say. -/
def Conserved (stdin : Side → List Byte) (s : State) : Prop :=
  ∀ x, (s.party x).shown.flatten ++ s.inbox x = (s.party x.peer).sent.flatten ∧
    (s.party x.peer).sent.flatten <+: said (stdin x.peer)

/-- A `recv` that fills the buffer is followed by a NUL in the memory beyond. -/
def Room (_ : State) : Action → Prop
  | .recv _ k beyond => k = BUFFER_SIZE → cstr beyond = []
  | _ => True

instance decidableRoom (s : State) : (a : Action) → Decidable (Room s a)
  | .type _ => isTrue trivial
  | .recv _ k beyond => inferInstanceAs (Decidable (k = BUFFER_SIZE → cstr beyond = []))
  | .hangup _ => isTrue trivial

def Fair (stdin : List Byte) (p : Party) : Prop :=
  0 ∉ p.sent.flatten ∧ ∃ left, p.sent.flatten ++ left = said stdin ∧
    (p.point ≠ .closed → left = said p.stdin)

section Words

variable {stdin piece rest chunk : List Byte}

private theorem said_of_fgets (typed : fgets BUFFER_SIZE stdin = some (piece, rest)) :
    said stdin =
      if cstr piece = lit ['e', 'x', 'i', 't', '\n'] then [] else cstr piece ++ said rest := by
  rw [said, pieces_of_fgets (by decide) typed, List.map_cons]
  split
  · rename_i leaves
    rw [List.takeWhile_cons_of_neg (by simpa using leaves)]
    rfl
  · rename_i stays
    rw [List.takeWhile_cons_of_pos (by simpa using stays)]
    rfl

/-- What is shown of a chunk runs into the memory beyond only from a full buffer. -/
theorem cstr_received (nul_free : 0 ∉ chunk) (fits : chunk.length ≤ BUFFER_SIZE)
    (beyond : List Byte) : cstr (overwrite cleared chunk ++ beyond) =
      chunk ++ if chunk.length = BUFFER_SIZE then cstr beyond else [] := by
  split
  · rename_i full
    have whole : overwrite cleared chunk = chunk := by
      rw [overwrite, cleared, full, List.drop_replicate, Nat.sub_self]
      exact List.append_nil chunk
    have held : ∀ b ∈ chunk, decide (b ≠ 0) = true := fun b inside =>
      decide_eq_true fun zero => nul_free (zero ▸ inside)
    rw [whole, cstr, cstr, List.takeWhile_append_of_pos held]
  · rename_i short
    rw [cleared, cstr_overwrite_zeros (Nat.lt_of_le_of_ne fits short), List.append_nil,
      cstr_of_nul_free nul_free]

end Words

section Party

variable {stdin : List Byte} {p : Party}

private theorem fair_close (fair : Fair stdin p) (left : List Byte) :
    Fair stdin { p with point := .closed, stdin := left } := by
  obtain ⟨nul_free, rest, whole, _⟩ := fair
  exact ⟨nul_free, rest, whole, fun inside => absurd rfl inside⟩

private theorem fair_type (fair : Fair stdin p) (here : p.point = .fgets)
    (stays : isExit (typed p.stdin).1 = false) :
    Fair stdin { p with
      point := .recv, stdin := (typed p.stdin).2, sent := p.sent ++ [cstr (typed p.stdin).1] } := by
  obtain ⟨nul_free, left, whole, follows⟩ := fair
  have sendable := sendable_typed p.stdin
  have next : said p.stdin = cstr (typed p.stdin).1 ++ said (typed p.stdin).2 := by
    unfold typed at stays ⊢
    cases line : fgets BUFFER_SIZE p.stdin with
    | none => rfl
    | some both =>
      obtain ⟨piece, rest⟩ := both
      rw [line] at stays
      dsimp only at stays ⊢
      rw [cstr_overwrite, said_of_fgets line, if_neg]
      intro leaves
      rw [isExit, strEq, cstr_overwrite, leaves] at stays
      exact absurd stays (by decide)
  have all := follows (by rw [here]; exact Point.noConfusion)
  refine ⟨?_, said (typed p.stdin).2, ?_, fun _ => rfl⟩
  · rw [List.flatten_append, List.flatten_singleton]
    intro nul
    exact (List.mem_append.mp nul).elim nul_free sendable.1
  · rw [List.flatten_append, List.flatten_singleton, List.append_assoc, ← next, ← all, whole]

private theorem fair_shown (fair : Fair stdin p) (point : Point) (shown : List (List Byte))
    (inside : p.point ≠ .closed) : Fair stdin { p with point := point, shown := shown } := by
  obtain ⟨nul_free, left, whole, follows⟩ := fair
  exact ⟨nul_free, left, whole, fun _ => follows inside⟩

end Party

structure Kept (stdin : Side → List Byte) (s : State) : Prop where
  fair : ∀ x, Fair (stdin x) (s.party x)
  level : ∀ x, (s.party x).shown.flatten ++ s.inbox x = (s.party x.peer).sent.flatten

section Run

variable {stdin : Side → List Byte} {s t : State}

private theorem kept_init (stdin : Side → List Byte) : Kept stdin (init stdin) where
  fair _ := ⟨List.not_mem_nil, _, rfl, fun _ => rfl⟩
  level _ := rfl

private theorem conserved_of_kept (k : Kept stdin s) : Conserved stdin s := by
  intro x
  obtain ⟨_, left, whole, _⟩ := k.fair x.peer
  exact ⟨k.level x, left, whole⟩

private theorem kept_of_sides (k : Kept stdin s) (who : Side)
    (other : t.party who.peer = s.party who.peer) (fair : Fair (stdin who) (t.party who))
    (here : (t.party who).shown.flatten ++ t.inbox who = (s.party who.peer).sent.flatten)
    (there : (s.party who.peer).shown.flatten ++ t.inbox who.peer =
      (t.party who).sent.flatten) : Kept stdin t := by
  constructor
  · rw [Side.forall_iff who, other]
    exact ⟨fair, k.fair who.peer⟩
  · rw [Side.forall_iff who, other, Side.peer_peer]
    exact ⟨here, there⟩

private theorem level_peer (k : Kept stdin s) (who : Side) :
    (s.party who.peer).shown.flatten ++ s.inbox who.peer = (s.party who).sent.flatten := by
  have level := k.level who.peer
  rwa [Side.peer_peer] at level

private theorem nul_free_inbox (k : Kept stdin s) (who : Side) : 0 ∉ s.inbox who := by
  intro nul
  refine (k.fair who.peer).1 ?_
  rw [← k.level who]
  exact List.mem_append_right _ nul

private theorem kept_type (k : Kept stdin s) {who : Side} (here : (s.party who).point = .fgets) :
    Kept stdin (type s who) := by
  unfold type
  dsimp only
  split
  · refine kept_of_sides k who (by simp) ?_ ?_ ?_
    · simpa using fair_close (k.fair who) _
    · simpa using k.level who
    · simpa using level_peer k who
  · rename_i stays
    refine kept_of_sides k who (by simp) ?_ ?_ ?_
    · simpa using fair_type (k.fair who) here (by simpa using stays)
    · simpa using k.level who
    · simp [← level_peer k who]

private theorem level_recv (k : Kept stdin s) {who : Side} {n : ℕ} (fits : n ≤ BUFFER_SIZE)
    (there : n ≤ (s.inbox who).length) (beyond : List Byte) :
    ((recv s who n beyond).party who).shown.flatten ++ (recv s who n beyond).inbox who =
        (s.party who.peer).sent.flatten ↔
      (n = BUFFER_SIZE → cstr beyond = []) := by
  have taken : ((s.inbox who).take n).length = n := List.length_take_of_le there
  have fresh : 0 ∉ (s.inbox who).take n := fun nul =>
    nul_free_inbox k who (List.mem_of_mem_take nul)
  have printed := cstr_received fresh (taken.symm ▸ fits) beyond
  rw [taken] at printed
  have shown : ((recv s who n beyond).party who).shown.flatten ++
      (recv s who n beyond).inbox who = (s.party who).shown.flatten ++
        ((s.inbox who).take n ++ ((if n = BUFFER_SIZE then cstr beyond else []) ++
          (s.inbox who).drop n)) := by
    simp [recv, printed]
  have sent : (s.party who.peer).sent.flatten = (s.party who).shown.flatten ++
      ((s.inbox who).take n ++ (s.inbox who).drop n) := by
    rw [List.take_append_drop, k.level who]
  rw [shown, sent, List.append_right_inj, List.append_right_inj, List.append_left_eq_self]
  split
  · rename_i full
    exact ⟨fun nothing _ => nothing, fun room => room full⟩
  · rename_i short
    exact ⟨fun _ full => absurd full short, fun _ => rfl⟩

private theorem kept_step (s : State) (a : Action) (t : State) (k : Kept stdin s) (room : Room s a)
    (taken : step s a = some t) : Kept stdin t := by
  cases a with
  | type who =>
    obtain ⟨here, same⟩ := Option.ite_none_right_eq_some.mp taken
    exact Option.some.inj same ▸ kept_type k here
  | recv who n beyond =>
    obtain ⟨⟨here, _, fits, there⟩, same⟩ := Option.ite_none_right_eq_some.mp taken
    obtain rfl := Option.some.inj same
    have level := (level_recv k fits there beyond).mpr room
    refine kept_of_sides k who (by simp [recv]) ?_ ?_ ?_
    · have fair := fair_shown (k.fair who) .fgets ((recv s who n beyond).party who).shown
        (by rw [here]; exact Point.noConfusion)
      simpa [recv] using fair
    · exact level
    · simpa [recv] using level_peer k who
  | hangup who =>
    obtain ⟨_, same⟩ := Option.ite_none_right_eq_some.mp taken
    obtain rfl := Option.some.inj same
    refine kept_of_sides k who (by simp) ?_ ?_ ?_
    · simpa using fair_close (k.fair who) _
    · simpa using k.level who
    · simpa using level_peer k who

private theorem room_of_conserved (s : State) (a : Action) (t : State) (k : Kept stdin s)
    (taken : step s a = some t) (after : Conserved stdin t) : Room s a := by
  cases a with
  | type who => trivial
  | recv who n beyond =>
    obtain ⟨⟨_, _, fits, there⟩, same⟩ := Option.ite_none_right_eq_some.mp taken
    obtain rfl := Option.some.inj same
    have level := (after who).1
    have other : ((recv s who n beyond).party who.peer).sent = (s.party who.peer).sent := by
      simp [recv]
    rw [other] at level
    exact (level_recv k fits there beyond).mp level
  | hangup who => trivial

end Run

/-- Wherever TCP cuts the streams, and though the turns may have shifted for good: each side shows
what the other one types up to `exit`, every byte once and in order but for those on their way, in
every state of a run exactly when no `recv` that fills the buffer finds something behind it. -/
theorem conserved_iff_room (stdin : Side → List Byte) {as : List Action} {t : State}
    (taken : exec step (init stdin) as = some t) :
    Always step (Conserved stdin) (init stdin) as ↔ Guarded step Room (init stdin) as :=
  always_iff_guarded_of_invariant (fun _ => conserved_of_kept) kept_step room_of_conserved
    (kept_init stdin) taken

/-- The client's `recv` takes the server's first text in two parts, and the turns shift. -/
def outOfStep : List Action :=
  [.type .server, .recv .client 1 [], .type .client, .recv .server 3 [], .type .server,
    .recv .client 2 []]

theorem shown_though_out_of_step : ∃ t,
    exec step (init Alternation.greeting) outOfStep = some t ∧
      (t.party .client).shown = [lit ['h'], lit ['i', '\n']] ∧
      Always step (Conserved Alternation.greeting) (init Alternation.greeting) outOfStep := by
  have shown : (exec step (init Alternation.greeting) outOfStep).map
      (fun t => (t.party .client).shown) = some [lit ['h'], lit ['i', '\n']] := by
    decide +kernel
  obtain ⟨t, taken, parts⟩ := Option.map_eq_some_iff.mp shown
  have room : Guarded step Room (init Alternation.greeting) outOfStep := by
    decide +kernel
  exact ⟨t, taken, parts, (conserved_iff_room Alternation.greeting taken).mpr room⟩

end SocketChat.MoreLearning.TcpTurns.Conservation
