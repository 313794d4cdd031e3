/- SocketChat/TestCode/TcpTurns/Integrity
   digest: What each side of the turn-taking chat is shown, in both modes, and that a chat ends. -/

import Mathlib.Algebra.Order.Group.Nat
import SocketChat.Lib.Runs
import SocketChat.TestCode.TcpTurns.Model

set_option autoImplicit false
set_option relaxedAutoImplicit false

namespace SocketChat.TestCode.TcpTurns.Integrity

open SocketChat.Lib.CString
open SocketChat.Lib.Lines
open SocketChat.Lib.Runs
open SocketChat.Lib.Sides
open SocketChat.TestCode.TcpTurns.Model

def Quits (loop : Loop) (line : List Byte) : Prop :=
  loop.quits = true ∧ line = lit ['q', 'u', 'i', 't']

instance (loop : Loop) (line : List Byte) : Decidable (Quits loop line) :=
  inferInstanceAs (Decidable (_ ∧ _))

/-- What a loop says for an input: the texts of its pieces, up to one that ends the loop. -/
def words (loop : Loop) (stdin : List Byte) : List Byte :=
  (((pieces B stdin).map text).takeWhile fun line => ¬Quits loop line).flatten

def unsent : Point → List Byte
  | .send rest => rest
  | _ => []

/-- What a party is going to say if its connection holds; the one that echoes only what it has
received. -/
def coming (loop : Loop) (p : Party) : List Byte :=
  unsent p.point ++ if loop.echoes then [] else words loop p.stdin

/-- What a party has to say: what it has been shown, where it echoes, and otherwise what its user
types. -/
def source (loop : Loop) (stdin : List Byte) (p : Party) : List Byte :=
  if loop.echoes then p.shown.flatten else words loop stdin

/-- What one party has been shown and what is on its way to it is a beginning of what the other one
has to say, and the rest is still to come unless that one is gone. -/
def Flows (loop : Loop) (stdin : List Byte) (speaker listener : Party) (inbox : List Byte) : Prop :=
  ∃ left, listener.shown.flatten ++ inbox ++ left = source loop stdin speaker ∧
    (speaker.point ≠ .closed → left = coming loop speaker)

section Words

variable {loop : Loop} {stdin piece rest : List Byte}

private theorem words_of_fgets (typed : fgets B stdin = some (piece, rest)) :
    words loop stdin = if Quits loop (text piece) then [] else text piece ++ words loop rest := by
  rw [words, pieces_of_fgets (by decide) typed, List.map_cons]
  split
  · rename_i quits
    rw [List.takeWhile_cons_of_neg (by simpa using quits)]
    rfl
  · rename_i goes_on
    rw [List.takeWhile_cons_of_pos (by simpa using goes_on)]
    rfl

private theorem text_sublist (piece : List Byte) : (text piece).Sublist piece :=
  (List.takeWhile_sublist _).trans (List.takeWhile_sublist _)

private theorem nul_free_words (loop : Loop) (stdin : List Byte) : 0 ∉ words loop stdin := by
  intro nul
  obtain ⟨line, said, inside⟩ := List.mem_flatten.mp nul
  obtain ⟨piece, _, rfl⟩ := List.mem_map.mp ((List.takeWhile_sublist _).subset said)
  exact zero_not_mem_cstr piece ((List.takeWhile_sublist _).subset inside)

end Words

section Flows

variable {loop other : Loop} {stdin inbox : List Byte} {speaker listener : Party}

private theorem flows_fgets (flows : Flows loop stdin speaker listener inbox)
    (types : loop.echoes = false) (quiet : unsent loop.skip = []) (here : speaker.point = .fgets) :
    Flows loop stdin (loop.fgets speaker) listener inbox := by
  obtain ⟨left, whole, follows⟩ := flows
  have all := follows (by rw [here]; exact Point.noConfusion)
  rw [coming, here, types] at all
  change left = words loop speaker.stdin at all
  unfold Loop.fgets
  cases typed : fgets B speaker.stdin with
  | none => exact ⟨left, whole, fun inside => absurd rfl inside⟩
  | some both =>
    obtain ⟨piece, rest⟩ := both
    refine ⟨left, ?_, fun inside => ?_⟩
    · rw [whole, source, source, types]
    rw [all, words_of_fgets typed, coming, types]
    dsimp only at inside ⊢
    by_cases empty : text piece = []
    · have goes_on : ¬Quits loop (text piece) := fun quits => by
        rw [empty] at quits
        cases quits.2
      rw [if_neg goes_on, if_pos empty, empty, quiet]
      rfl
    · rw [if_neg empty] at inside ⊢
      by_cases quits : Quits loop (text piece)
      · exact absurd (if_pos quits) inside
      · have point : (if Quits loop (text piece) then Point.closed else .send (text piece)) =
            .send (text piece) := if_neg quits
        rw [if_neg quits]
        exact (congrArg (unsent · ++ words loop rest) point).symm

private theorem flows_send (flows : Flows loop stdin speaker listener inbox) {rest : List Byte}
    {k : ℕ} (here : speaker.point = .send rest) :
    Flows loop stdin
      { speaker with point := if rest.drop k = [] then .recv else .send (rest.drop k) } listener
      (inbox ++ rest.take k) := by
  obtain ⟨left, whole, follows⟩ := flows
  have all := follows (by rw [here]; exact Point.noConfusion)
  rw [coming, here] at all
  change left = rest ++ _ at all
  have later : unsent (if rest.drop k = [] then .recv else .send (rest.drop k)) =
      rest.drop k := by
    split
    · rename_i done
      exact done.symm
    · rfl
  refine ⟨rest.drop k ++ if loop.echoes then [] else words loop speaker.stdin, ?_, fun _ => ?_⟩
  · refine Eq.trans ?_ whole
    rw [all]
    conv_rhs => rw [← List.take_append_drop k rest]
    simp only [List.append_assoc]
  · rw [coming, later]

private theorem flows_heard (flows : Flows loop stdin speaker listener inbox) (nul_free : 0 ∉ inbox)
    (k : ℕ) : Flows loop stdin speaker (other.recv listener (inbox.take k)) (inbox.drop k) := by
  obtain ⟨left, whole, follows⟩ := flows
  refine ⟨left, ?_, follows⟩
  rw [← whole]
  change (listener.shown ++ [cstr (inbox.take k)]).flatten ++ inbox.drop k ++ left = _
  rw [cstr_of_nul_free fun nul => nul_free (List.mem_of_mem_take nul), List.flatten_append,
    List.flatten_singleton, List.append_assoc listener.shown.flatten, List.take_append_drop]

private theorem flows_told (flows : Flows loop stdin speaker listener inbox) {chunk : List Byte}
    (nul_free : 0 ∉ chunk) (here : speaker.point = .recv) :
    Flows loop stdin (loop.recv speaker chunk) listener inbox := by
  obtain ⟨left, whole, follows⟩ := flows
  have all := follows (by rw [here]; exact Point.noConfusion)
  rw [coming, here] at all
  cases echoes : loop.echoes with
  | true =>
    rw [echoes] at all
    change left = [] at all
    refine ⟨chunk, ?_, fun _ => ?_⟩
    · rw [source, echoes] at whole ⊢
      change _ = (speaker.shown ++ [cstr chunk]).flatten
      rw [all, List.append_nil] at whole
      rw [whole, cstr_of_nul_free nul_free, List.flatten_append, List.flatten_singleton]
      rfl
    · rw [coming, Loop.recv, echoes]
      exact (List.append_nil chunk).symm
  | false =>
    rw [echoes] at all
    refine ⟨left, ?_, fun _ => ?_⟩
    · rw [whole, source, source, echoes]
      rfl
    · rw [all, coming, Loop.recv, echoes]
      rfl

private theorem flows_closed (flows : Flows loop stdin speaker listener inbox) :
    Flows loop stdin { speaker with point := .closed } listener inbox := by
  obtain ⟨left, whole, _⟩ := flows
  exact ⟨left, whole, fun inside => absurd rfl inside⟩

private theorem flows_listener {later : Party} (flows : Flows loop stdin speaker listener inbox)
    (shown : later.shown = listener.shown) : Flows loop stdin speaker later inbox := by
  obtain ⟨left, whole, follows⟩ := flows
  exact ⟨left, by rw [shown, whole], follows⟩

end Flows

structure Kept (mode : Mode) (stdin : Side → List Byte) (s : State) : Prop where
  flows : ∀ x, Flows (mode.loop x) (stdin x) (s.party x) (s.party x.peer) (s.inbox x.peer)
  listens : ∀ x, (mode.loop x).echoes = true → (s.party x).point ≠ .fgets
  busy : ∀ x, (s.party x).point ≠ .send []

section Kept

variable {mode : Mode} {stdin : Side → List Byte} {s : State}

private theorem quiet_skip (mode : Mode) (x : Side) : unsent (mode.loop x).skip = [] := by
  cases mode <;> cases x <;> rfl

/-- At most one of the two echoes, and no loop that does skips lines. -/
theorem types_of_peer_echoes (mode : Mode) (x : Side) (echoes : (mode.loop x).echoes = true) :
    (mode.loop x.peer).echoes = false := by
  cases mode <;> cases x <;> first | rfl | cases echoes

private theorem kept_init (mode : Mode) (stdin : Side → List Byte) :
    Kept mode stdin (init mode stdin) := by
  constructor
  · intro x
    refine ⟨_, rfl, fun _ => ?_⟩
    cases mode <;> cases x <;> rfl
  · intro x echoes
    cases mode <;> cases x <;> first | exact Point.noConfusion | cases echoes
  · intro x
    cases mode <;> cases x <;> exact Point.noConfusion

private theorem source_of_types {loop : Loop} (types : loop.echoes = false) (input : List Byte)
    (p : Party) : source loop input p = words loop input := by
  rw [source, types]
  rfl

private theorem shown_front (k : Kept mode stdin s) (x : Side) :
    (s.party x.peer).shown.flatten ++ s.inbox x.peer <+:
      source (mode.loop x) (stdin x) (s.party x) := by
  obtain ⟨left, whole, _⟩ := k.flows x
  rw [← whole]
  exact List.prefix_append ..

private theorem nul_free_source (k : Kept mode stdin s) (x : Side) :
    0 ∉ source (mode.loop x) (stdin x) (s.party x) := by
  cases echoes : (mode.loop x).echoes with
  | false =>
    rw [source_of_types echoes]
    exact nul_free_words _ _
  | true =>
    have told := shown_front k x.peer
    rw [source_of_types (types_of_peer_echoes mode x echoes), Side.peer_peer] at told
    rw [source, echoes]
    intro nul
    exact nul_free_words _ _ (told.subset (List.mem_append_left _ nul))

private theorem nul_free_inbox (k : Kept mode stdin s) (x : Side) : 0 ∉ s.inbox x := by
  intro nul
  have begun := shown_front k x.peer
  rw [Side.peer_peer] at begun
  exact nul_free_source k x.peer (begun.subset (List.mem_append_right _ nul))

private theorem kept_of_sides (k : Kept mode stdin s) (who : Side) {t : State}
    (other : t.party who.peer = s.party who.peer)
    (from_it : Flows (mode.loop who) (stdin who) (t.party who) (s.party who.peer)
      (t.inbox who.peer))
    (to_it : Flows (mode.loop who.peer) (stdin who.peer) (s.party who.peer) (t.party who)
      (t.inbox who))
    (listens : (mode.loop who).echoes = true → (t.party who).point ≠ .fgets)
    (busy : (t.party who).point ≠ .send []) : Kept mode stdin t := by
  constructor
  · rw [Side.forall_iff who, other, Side.peer_peer]
    exact ⟨from_it, to_it⟩
  · rw [Side.forall_iff who, other]
    exact ⟨listens, k.listens who.peer⟩
  · rw [Side.forall_iff who, other]
    exact ⟨busy, k.busy who.peer⟩

private theorem flows_to (k : Kept mode stdin s) (who : Side) :
    Flows (mode.loop who.peer) (stdin who.peer) (s.party who.peer) (s.party who) (s.inbox who) := by
  have flows := k.flows who.peer
  rw [Side.peer_peer] at flows
  exact flows

private theorem skip_busy (mode : Mode) (x : Side) : (mode.loop x).skip ≠ .send [] := by
  cases mode <;> cases x <;> exact Point.noConfusion

private theorem busy_fgets {loop : Loop} (skip : loop.skip ≠ .send []) (p : Party) :
    (loop.fgets p).point ≠ .send [] := by
  unfold Loop.fgets
  split
  · exact Point.noConfusion
  · rename_i piece rest typed
    dsimp only
    split
    · exact skip
    · rename_i some_text
      split
      · exact Point.noConfusion
      · exact fun same => some_text (Point.send.inj same)

private theorem kept_step (s : State) (a : Action) (t : State) (k : Kept mode stdin s)
    (taken : step mode s a = some t) : Kept mode stdin t := by
  cases a with
  | fgets who =>
    simp only [step, Option.ite_none_right_eq_some, Option.some.injEq] at taken
    obtain ⟨here, rfl⟩ := taken
    have types : (mode.loop who).echoes = false :=
      Bool.eq_false_iff.mpr fun echoes => k.listens who echoes here
    refine kept_of_sides k who (Duo.party_setParty_peer ..) ?_ ?_ (fun echoes => ?_) ?_
    · rw [Duo.party_setParty_self]
      exact flows_fgets (k.flows who) types (quiet_skip mode who) here
    · rw [Duo.party_setParty_self]
      refine flows_listener (flows_to k who) ?_
      unfold Loop.fgets
      split <;> rfl
    · rw [types] at echoes
      cases echoes
    · rw [Duo.party_setParty_self]
      exact busy_fgets (skip_busy mode who) _
  | send who n =>
    simp only [step] at taken
    split at taken
    · rename_i rest here
      simp only [Option.ite_none_right_eq_some, Option.some.injEq] at taken
      obtain ⟨_, rfl⟩ := taken
      refine kept_of_sides k who (by simp [setPoint]) ?_ ?_ (fun _ => ?_) ?_
      · simpa [setPoint] using flows_send (k := n) (k.flows who) here
      · rw [setPoint, Duo.party_setInbox, Duo.party_setParty_self, Duo.inbox_setInbox_of_peer]
        exact flows_listener (flows_to k who) rfl
      · simp only [setPoint, Duo.party_setInbox, Duo.party_setParty_self]
        split
        · exact Point.noConfusion
        · exact Point.noConfusion
      · simp only [setPoint, Duo.party_setInbox, Duo.party_setParty_self]
        split
        · exact Point.noConfusion
        · rename_i more
          exact fun same => more (Point.send.inj same)
    · cases taken
  | recv who n =>
    simp only [step, Option.ite_none_right_eq_some, Option.some.injEq] at taken
    obtain ⟨⟨here, some_bytes, _, there⟩, rfl⟩ := taken
    have nul_free := nul_free_inbox k who
    refine kept_of_sides k who (by simp) ?_ ?_ (fun echoes => ?_) ?_
    · have told := flows_told (k.flows who)
        (fun nul => nul_free (List.mem_of_mem_take (i := n) nul)) here
      simpa using told
    · simpa using flows_heard (flows_to k who) nul_free n
    · rw [Duo.party_setInbox, Duo.party_setParty_self, Loop.recv, echoes]
      exact Point.noConfusion
    · simp only [Duo.party_setInbox, Duo.party_setParty_self, Loop.recv]
      split
      · intro same
        have nothing := congrArg List.length (Point.send.inj same)
        rw [List.length_take_of_le there, List.length_nil] at nothing
        omega
      · exact Point.noConfusion
  | hangup who =>
    have closed : Kept mode stdin (setPoint s who .closed) := by
      refine kept_of_sides k who (by simp [setPoint]) ?_ ?_ (fun _ => ?_) ?_
      · simpa [setPoint] using flows_closed (k.flows who)
      · rw [setPoint, Duo.party_setParty_self]
        exact flows_listener (flows_to k who) rfl
      · rw [setPoint, Duo.party_setParty_self]
        exact Point.noConfusion
      · rw [setPoint, Duo.party_setParty_self]
        exact Point.noConfusion
    simp only [step] at taken
    split at taken
    · cases taken
      exact closed
    · cases taken
      exact closed
    · cases taken

end Kept

/-- In both modes and every run, with any cuts of the streams and any failures: what one user is
shown is a beginning of what the other one types up to `quit`, without newlines and empty lines; of
the server that echoes it is a beginning of what the server was sent, and so of the user's own
words; and of a party that is not gone nothing is lost. -/
theorem shown_is_said (mode : Mode) (stdin : Side → List Byte) {s : State}
    (run : Reach (step mode) (init mode stdin) s) (who : Side) :
    (if (mode.loop who.peer).echoes then
      (s.party who).shown.flatten <+: (s.party who.peer).shown.flatten ∧
        (s.party who.peer).shown.flatten <+: words (mode.loop who) (stdin who)
      else (s.party who).shown.flatten <+: words (mode.loop who.peer) (stdin who.peer)) ∧
    ((s.party who.peer).point ≠ .closed →
      (s.party who).shown.flatten ++ s.inbox who ++
          coming (mode.loop who.peer) (s.party who.peer) =
        source (mode.loop who.peer) (stdin who.peer) (s.party who.peer)) := by
  have k := invariant_of_step_reach kept_step (kept_init mode stdin) run
  have begun := (List.prefix_append ..).trans (shown_front k who.peer)
  rw [Side.peer_peer] at begun
  constructor
  · split
    · rename_i echoes
      have types := types_of_peer_echoes mode who.peer echoes
      rw [Side.peer_peer] at types
      rw [source, if_pos echoes] at begun
      refine ⟨begun, ?_⟩
      have told := (List.prefix_append ..).trans (shown_front k who)
      rw [source_of_types types] at told
      exact told
    · rename_i types
      rw [source_of_types (Bool.eq_false_iff.mpr types)] at begun
      exact begun
  · intro inside
    obtain ⟨left, whole, follows⟩ := flows_to k who
    rw [← follows inside]
    exact whole

def oneLine : Side → List Byte
  | .client => lit ['h', 'i', '\n']
  | .server => []

def echoed : List Action :=
  [.fgets .client, .send .client 1, .recv .server 1, .send .server 1, .send .client 1,
    .recv .client 1, .recv .server 1]

theorem one_line_echoed : ∃ s, Reach (step .clientFirst) (init .clientFirst oneLine) s ∧
    (s.party .server).shown = [lit ['h'], lit ['i']] ∧
    (s.party .client).shown.flatten <+: (s.party .server).shown.flatten ∧
    (s.party .server).shown.flatten <+: words ClientFirst.client (oneLine .client) := by
  have shown : (exec (step .clientFirst) (init .clientFirst oneLine) echoed).map
      (fun s => (s.party .server).shown) = some [lit ['h'], lit ['i']] := by
    decide +kernel
  obtain ⟨s, taken, parts⟩ := Option.map_eq_some_iff.mp shown
  have run : Reach (step .clientFirst) (init .clientFirst oneLine) s := ⟨echoed, taken⟩
  exact ⟨s, run, parts, (shown_is_said .clientFirst oneLine run .client).1⟩

def onItsWay (loop : Loop) : ℕ := if loop.echoes then 3 else 1

def weight (loop other : Loop) (p : Party) (inbox : List Byte) : ℕ :=
  (if p.point = .closed then 0 else 1) + (onItsWay other + 2) * p.stdin.length +
    (onItsWay other + 1) * (unsent p.point).length + onItsWay loop * inbox.length

def toDo (mode : Mode) (s : State) : ℕ :=
  weight (mode.loop .client) (mode.loop .server) (s.party .client) (s.inbox .client) +
    weight (mode.loop .server) (mode.loop .client) (s.party .server) (s.inbox .server)

section Measure

variable {loop other : Loop} {p : Party} {inbox : List Byte}

private theorem toDo_eq (mode : Mode) (s : State) (who : Side) : toDo mode s =
    weight (mode.loop who) (mode.loop who.peer) (s.party who) (s.inbox who) +
      weight (mode.loop who.peer) (mode.loop who) (s.party who.peer) (s.inbox who.peer) := by
  cases who with
  | client => rfl
  | server => exact Nat.add_comm ..

private theorem onItsWay_cases (loop : Loop) : onItsWay loop = 1 ∨ onItsWay loop = 3 := by
  unfold onItsWay
  split
  · exact .inr rfl
  · exact .inl rfl

/-- What is left to do is at most what the bytes make for and one step to leave. -/
theorem weight_le (loop other : Loop) (p : Party) (inbox : List Byte) {n : ℕ}
    (short : (unsent p.point).length ≤ n) :
    weight loop other p inbox ≤ 1 + (onItsWay other + 2) * p.stdin.length +
      (onItsWay other + 1) * n + onItsWay loop * inbox.length := by
  have alive : (if p.point = .closed then 0 else 1) ≤ 1 := by
    split
    · exact Nat.zero_le 1
    · exact Nat.le_refl 1
  exact Nat.add_le_add_right (Nat.add_le_add (Nat.add_le_add_right alive _)
    (Nat.mul_le_mul_left _ short)) _

private theorem weight_of_inside (loop other : Loop) (p : Party) (inbox : List Byte)
    (inside : p.point ≠ .closed) :
    weight loop other p inbox = 1 + (onItsWay other + 2) * p.stdin.length +
      (onItsWay other + 1) * (unsent p.point).length + onItsWay loop * inbox.length := by
  rw [weight, if_neg inside]

private theorem weight_fgets (quiet : unsent loop.skip = []) (here : p.point = .fgets) :
    weight loop other (loop.fgets p) inbox < weight loop other p inbox := by
  rw [weight_of_inside loop other p inbox (by rw [here]; exact Point.noConfusion), here]
  unfold Loop.fgets
  cases typed : fgets B p.stdin with
  | none =>
    change 0 + (onItsWay other + 2) * p.stdin.length + (onItsWay other + 1) * 0 +
      onItsWay loop * inbox.length < 1 + (onItsWay other + 2) * p.stdin.length +
        (onItsWay other + 1) * 0 + onItsWay loop * inbox.length
    omega
  | some both =>
    obtain ⟨piece, rest⟩ := both
    have input : p.stdin.length = piece.length + rest.length := by
      rw [← fgets_append typed, List.length_append]
    have some_bytes : 0 < piece.length := List.length_pos_iff.mpr (fgets_ne_nil (by decide) typed)
    have line : (unsent (if text piece = [] then loop.skip
        else if loop.quits ∧ text piece = lit ['q', 'u', 'i', 't'] then .closed
        else .send (text piece))).length ≤ piece.length := by
      split
      · rw [quiet]
        exact Nat.zero_le _
      · split
        · exact Nat.zero_le _
        · exact (text_sublist piece).length_le
    refine Nat.lt_of_le_of_lt (weight_le loop other _ inbox line) ?_
    dsimp only
    rw [input, show (unsent .fgets).length = 0 from rfl]
    rcases onItsWay_cases other with one | three
    · rw [one]
      omega
    · rw [three]
      omega

private theorem weight_send (loop other : Loop) (inbox : List Byte) {rest : List Byte} {k : ℕ}
    (here : p.point = .send rest) (some_bytes : 0 < k) (there : k ≤ rest.length) :
    weight loop other { p with point := if rest.drop k = [] then .recv else .send (rest.drop k) }
      inbox + onItsWay other * k < weight loop other p inbox := by
  rw [weight_of_inside loop other p inbox (by rw [here]; exact Point.noConfusion), here]
  have later : (unsent (if rest.drop k = [] then .recv else .send (rest.drop k))).length ≤
      rest.length - k := by
    rw [← List.length_drop]
    split
    · exact Nat.zero_le _
    · exact Nat.le_refl _
  refine Nat.lt_of_le_of_lt (Nat.add_le_add_right (weight_le loop other _ inbox later) _) ?_
  rw [show (unsent (.send rest)).length = rest.length from rfl]
  dsimp only
  rcases onItsWay_cases other with one | three
  · rw [one]
    omega
  · rw [three]
    omega

private theorem weight_recv (types : loop.echoes = true → other.echoes = false) {k : ℕ}
    (here : p.point = .recv) (some_bytes : 0 < k) (there : k ≤ inbox.length) :
    weight loop other (loop.recv p (inbox.take k)) (inbox.drop k) <
      weight loop other p inbox := by
  rw [weight_of_inside loop other p inbox (by rw [here]; exact Point.noConfusion), here]
  have chunk : (inbox.take k).length = k := List.length_take_of_le there
  have later :
      (unsent (loop.recv p (inbox.take k)).point).length ≤ if loop.echoes then k else 0 := by
    unfold Loop.recv
    dsimp only
    split
    · exact Nat.le_of_eq chunk
    · exact Nat.le_refl 0
  refine Nat.lt_of_le_of_lt (weight_le loop other _ _ later) ?_
  rw [List.length_drop, show (unsent .recv).length = 0 from rfl]
  change 1 + (onItsWay other + 2) * p.stdin.length + _ + _ < _
  cases echoes : loop.echoes with
  | true =>
    rw [onItsWay, onItsWay, types echoes, echoes]
    simp only [if_true, Bool.false_eq_true, if_false]
    omega
  | false =>
    rw [onItsWay, onItsWay, echoes]
    simp only [Bool.false_eq_true, if_false]
    omega

private theorem weight_closed (inside : p.point ≠ .closed) :
    weight loop other { p with point := .closed } inbox < weight loop other p inbox := by
  rw [weight_of_inside loop other p inbox inside]
  change 0 + (onItsWay other + 2) * p.stdin.length + (onItsWay other + 1) * 0 +
    onItsWay loop * inbox.length < _
  rw [Nat.mul_zero]
  omega

private theorem weight_more (loop other : Loop) (p : Party) (inbox more : List Byte) :
    weight loop other p (inbox ++ more) =
      weight loop other p inbox + onItsWay loop * more.length := by
  rw [weight, weight, List.length_append, Nat.mul_add, ← Nat.add_assoc]

end Measure

private theorem toDo_step (mode : Mode) (s : State) (a : Action) (t : State)
    (taken : step mode s a = some t) : toDo mode t < toDo mode s := by
  cases a with
  | fgets who =>
    simp only [step, Option.ite_none_right_eq_some, Option.some.injEq] at taken
    obtain ⟨here, rfl⟩ := taken
    rw [toDo_eq mode _ who, toDo_eq mode s who, Duo.party_setParty_self, Duo.party_setParty_peer,
      Duo.inbox_setParty]
    exact Nat.add_lt_add_right (weight_fgets (quiet_skip mode who) here) _
  | send who n =>
    simp only [step] at taken
    split at taken
    · rename_i rest here
      simp only [Option.ite_none_right_eq_some, Option.some.injEq] at taken
      obtain ⟨⟨some_bytes, there⟩, rfl⟩ := taken
      have less := weight_send (mode.loop who) (mode.loop who.peer) (s.inbox who) here some_bytes
        there
      rw [toDo_eq mode _ who, toDo_eq mode s who, Duo.party_setInbox, Duo.inbox_setInbox_self,
        Duo.inbox_setInbox_of_peer, setPoint, Duo.party_setParty_self, Duo.party_setParty_peer,
        Duo.inbox_setParty, weight_more, List.length_take_of_le there]
      refine lt_of_eq_of_lt ?_ (Nat.add_lt_add_right less _)
      exact ((Nat.add_right_comm ..).trans (Nat.add_assoc ..)).symm
    · cases taken
  | recv who n =>
    simp only [step, Option.ite_none_right_eq_some, Option.some.injEq] at taken
    obtain ⟨⟨here, some_bytes, _, there⟩, rfl⟩ := taken
    rw [toDo_eq mode _ who, toDo_eq mode s who, Duo.party_setInbox, Duo.inbox_setInbox_self,
      Duo.inbox_setInbox_peer, Duo.party_setParty_self, Duo.party_setParty_peer,
      Duo.inbox_setParty]
    exact Nat.add_lt_add_right
      (weight_recv (types_of_peer_echoes mode who) here some_bytes there) _
  | hangup who =>
    have less : ∀ {point}, (s.party who).point = point → point ≠ .closed →
        toDo mode (setPoint s who .closed) < toDo mode s := by
      intro point here inside
      rw [toDo_eq mode _ who, toDo_eq mode s who, setPoint, Duo.party_setParty_self,
        Duo.party_setParty_peer, Duo.inbox_setParty]
      exact Nat.add_lt_add_right (weight_closed (by rw [here]; exact inside)) _
    simp only [step] at taken
    split at taken
    · rename_i rest here
      cases taken
      exact less here Point.noConfusion
    · rename_i here
      cases taken
      exact less here Point.noConfusion
    · cases taken

def Holds (_ : State) : Action → Prop
  | .hangup _ => False
  | _ => True

private theorem waits_of_stuck {mode : Mode} {stdin : Side → List Byte} {s : State}
    (k : Kept mode stdin s) (stuck : ∀ a, Holds s a → step mode s a = none) (who : Side) :
    (s.party who).point = .closed ∨ (s.party who).point = .recv ∧ s.inbox who = [] := by
  cases here : (s.party who).point with
  | fgets =>
    have none_left := stuck (.fgets who) trivial
    rw [step, if_pos here] at none_left
    cases none_left
  | send rest =>
    have none_left := stuck (.send who 1) trivial
    have some_bytes : rest ≠ [] := fun nothing => k.busy who (by rw [here, nothing])
    simp only [step, here] at none_left
    rw [if_pos ⟨Nat.one_pos, List.length_pos_iff.mpr some_bytes⟩] at none_left
    cases none_left
  | recv =>
    refine .inr ⟨rfl, ?_⟩
    by_contra some_bytes
    have none_left := stuck (.recv who 1) trivial
    have there : 1 ≤ (s.inbox who).length := List.length_pos_iff.mpr some_bytes
    rw [step, if_pos ⟨here, Nat.one_pos, by decide, there⟩] at none_left
    cases none_left
  | closed => exact .inl rfl

/-- Every chat ends: no run has more than five steps for each byte that there is to type and one
for each side to leave, and from every state of it, if the connection holds, it comes to where each
side is gone or waits with nothing on its way. -/
theorem chat_ends (mode : Mode) (stdin : Side → List Byte) {as : List Action} {t : State}
    (taken : exec (step mode) (init mode stdin) as = some t) :
    as.length ≤ 5 * ((stdin .client).length + (stdin .server).length) + 2 ∧
    ∃ u, ReachWhere (step mode) Holds t u ∧
      ∀ who, (u.party who).point = .closed ∨ (u.party who).point = .recv ∧ u.inbox who = [] := by
  constructor
  · have bound := length_le_of_measure (toDo_step mode) taken
    have at_start : toDo mode (init mode stdin) ≤
        5 * ((stdin .client).length + (stdin .server).length) + 2 := by
      cases mode with
      | serverFirst =>
        change 1 + 3 * (stdin .client).length + 2 * 0 + 1 * 0 +
          (1 + 3 * (stdin .server).length + 2 * 0 + 1 * 0) ≤ _
        omega
      | clientFirst =>
        change 1 + 5 * (stdin .client).length + 4 * 0 + 1 * 0 +
          (1 + 3 * (stdin .server).length + 2 * 0 + 3 * 0) ≤ _
        omega
    omega
  · obtain ⟨u, further, stuck⟩ : ∃ u, ReachWhere (step mode) Holds t u ∧
        ∀ a, Holds u a → step mode u a = none := exists_stuck_of_measure (toDo_step mode) t
    have k : Kept mode stdin t :=
      invariant_of_step_reach kept_step (kept_init mode stdin) ⟨as, taken⟩
    exact ⟨u, further, waits_of_stuck (invariant_of_step_reach kept_step k further.reach) stuck⟩

theorem echo_ends : ∃ t, exec (step .clientFirst) (init .clientFirst oneLine) echoed = some t ∧
    echoed.length ≤ 17 ∧ ∃ u, ReachWhere (step .clientFirst) Holds t u ∧
      ∀ who, (u.party who).point = .closed ∨ (u.party who).point = .recv ∧ u.inbox who = [] := by
  have shown : (exec (step .clientFirst) (init .clientFirst oneLine) echoed).isSome := by
    decide +kernel
  obtain ⟨t, taken⟩ := Option.isSome_iff_exists.mp shown
  exact ⟨t, taken, chat_ends .clientFirst oneLine taken⟩

end SocketChat.TestCode.TcpTurns.Integrity
