/- SocketChat/UdpTurns/Farewell
   digest: Who is told `exit` leaves the chat of Test_Code, unless it is told so at once. -/

import SocketChat.Lib.Runs
import SocketChat.UdpTurns.Model

set_option autoImplicit false
set_option relaxedAutoImplicit false

namespace SocketChat.UdpTurns.Farewell

open SocketChat.Lib.CString
open SocketChat.Lib.Lines
open SocketChat.Lib.Runs
open SocketChat.Lib.Sides
open Model
open TestCode (programs run_client run_server)

/-- The network hands over every datagram once, in the order they were sent. -/
def InOrder (_ : State) : Action → Prop
  | .recvfrom _ i => i = 0
  | .lose _ _ => False
  | .duplicate _ _ => False
  | _ => True

/-- A party that has received a message beginning with `exit` has left its loop. -/
def Heeded (s : Party) : Prop := ∀ text ∈ s.received, isExit text = true → s.point = .closed

def Agreement (s : State) : Prop := ∀ who, Heeded (s.party who)

/-- The client's first line, or what its buffer holds when there is none. -/
def firstText (stack stdin : List Byte) : List Byte :=
  match fgets run_client.bufferSize stdin with
  | none => stack
  | some (piece, _) => piece

private theorem isExit_congr {text other : List Byte} (same : cstr text = cstr other) :
    isExit text = isExit other := by
  rw [isExit, isExit, same]

private theorem isExit_store (who : Side) (buffer text : List Byte) :
    isExit ((programs who).store buffer text) = isExit text := by
  have stored : (programs who).store buffer text =
      overwrite buffer (text.take 1024 ++ [0]) := by
    cases who <;> rfl
  rw [stored, isExit, isExit, cstr_overwrite, cstr_take, Bool.eq_iff_iff,
    List.isPrefixOf_iff_prefix, List.isPrefixOf_iff_prefix, List.prefix_take_iff]
  exact and_iff_left (by decide)

private theorem isExit_fgets (who : Side) (s : Party) :
    isExit ((programs who).fgets s).buffer = isExit (firstText s.buffer s.stdin) := by
  have size : (programs who).bufferSize = run_client.bufferSize := by
    cases who <;> rfl
  unfold Program.fgets firstText
  rw [size]
  cases fgets run_client.bufferSize s.stdin with
  | none => rfl
  | some both => exact isExit_congr (cstr_overwrite s.buffer both.1)

section Parties

variable {who : Side} {s : Party}

private theorem not_exit_of_open (before : Heeded s) (inside : s.point ≠ .closed) {text : List Byte}
    (heard : text ∈ s.received) : ¬isExit text = true := by
  intro told
  exact inside (before text heard told)

private theorem heeded_fgets (before : Heeded s) (ready : s.point = .fgets) :
    Heeded ((programs who).fgets s) := by
  have inside : s.point ≠ .closed := by simp [ready]
  have same : ((programs who).fgets s).received = s.received := by
    unfold Program.fgets
    split <;> rfl
  intro text heard told
  rw [same] at heard
  exact absurd told (not_exit_of_open before inside heard)

private theorem heeded_sendto {typed : Bool} (before : Heeded s) (ready : s.point = .sendto typed) :
    Heeded ((programs who).sendto s) := by
  have inside : s.point ≠ .closed := by simp [ready]
  intro text heard told
  exact absurd told (not_exit_of_open before inside heard)

private theorem closed_recvfrom (s : Party) (payload : List Byte) :
    ((programs who).recvfrom s payload).point =
      if s.point ≠ .first ∧ isExit payload = true then .closed else .fgets := by
  have exits : (programs who).exits = true := by
    cases who <;> rfl
  simp only [Program.recvfrom, exits, isExit_store, true_and]

/-- A receive is heeded unless it is the server's first one and brings `exit`. -/
theorem heeded_recvfrom (before : Heeded s) (ready : s.point.receiving = true)
    {payload : List Byte} (tested : s.point = .first → isExit payload = false) :
    Heeded ((programs who).recvfrom s payload) := by
  have inside : s.point ≠ .closed := by
    intro closed
    rw [closed] at ready
    cases ready
  intro text heard told
  rcases List.mem_append.mp heard with old | new
  · exact absurd told (not_exit_of_open before inside old)
  · obtain rfl := List.mem_singleton.mp new
    rw [closed_recvfrom, if_pos]
    refine ⟨fun first => ?_, told⟩
    rw [tested first] at told
    cases told

end Parties

structure Begins (stack stdin : List Byte) (s : Party) : Prop where
  started : s.point ≠ .first
  begun : s.sent = [] →
    s.point = .fgets ∧ s.buffer = stack ∧ s.stdin = stdin ∨
      (∃ typed, s.point = .sendto typed) ∧ isExit s.buffer = isExit (firstText stack stdin)
  headed : ∀ text ∈ s.sent.head?, isExit text = isExit (firstText stack stdin)

section Client

variable {stack stdin : List Byte} {s : Party}

private theorem begins_start : Begins stack stdin (run_client.start stack stdin) where
  started := Point.noConfusion
  begun := fun _ => Or.inl ⟨rfl, rfl, rfl⟩
  headed := fun text none_yet => by cases none_yet

private theorem begins_fgets (before : Begins stack stdin s) (ready : s.point = .fgets) :
    Begins stack stdin (run_client.fgets s) := by
  obtain ⟨typed, point⟩ := point_fgets run_client s
  constructor
  · rw [point]
    exact Point.noConfusion
  · intro none_sent
    rw [sent_fgets] at none_sent
    refine Or.inr ⟨⟨typed, point⟩, ?_⟩
    rcases before.begun none_sent with ⟨_, rfl, rfl⟩ | ⟨⟨_, later⟩, _⟩
    · exact isExit_fgets .client s
    · rw [ready] at later
      cases later
  · rw [sent_fgets]
    exact before.headed

private theorem begins_sendto (before : Begins stack stdin s) {typed : Bool}
    (ready : s.point = .sendto typed) : Begins stack stdin (run_client.sendto s) := by
  have added : (run_client.sendto s).sent = s.sent ++ [cstr s.buffer] := rfl
  constructor
  · rcases point_sendto run_client s with point | point <;> rw [point] <;>
      exact Point.noConfusion
  · intro none_sent
    rw [added] at none_sent
    simp at none_sent
  · intro text first
    rw [added] at first
    cases sent : s.sent with
    | nil =>
      rw [sent] at first
      obtain rfl := Option.some.inj first
      rcases before.begun sent with ⟨early, _⟩ | ⟨_, text⟩
      · rw [ready] at early
        cases early
      · exact (isExit_congr (cstr_cstr s.buffer)).trans text
    | cons head rest =>
      rw [sent] at first
      exact before.headed text (by rw [sent]; exact first)

private theorem begins_recvfrom (before : Begins stack stdin s) (ready : s.point.receiving = true)
    (payload : List Byte) : Begins stack stdin (run_client.recvfrom s payload) := by
  constructor
  · rcases point_recvfrom run_client s payload with point | point <;> rw [point] <;>
      exact Point.noConfusion
  · intro none_sent
    rcases before.begun none_sent with ⟨early, _⟩ | ⟨⟨_, early⟩, _⟩
    · rw [early] at ready
      cases ready
    · rw [early] at ready
      cases ready
  · exact before.headed

end Client

def Unheard (s : State) : Prop :=
  (s.party .server).point = .first → s.inbox .server = (s.party .client).sent

private theorem point_ne_first_of_moves {s : State} {a : Action} {who : Side} {after : Party}
    (moves : Moves programs s a who after) (acts : a.party = some who) : after.point ≠ .first := by
  cases moves with
  | idle rests => exact absurd acts rests
  | fgets acts ready =>
    obtain ⟨typed, point⟩ := point_fgets (programs who) (s.party who)
    rw [point]
    exact Point.noConfusion
  | sendto typed acts ready =>
    rcases point_sendto (programs who) (s.party who) with point | point <;> rw [point] <;>
      exact Point.noConfusion
  | recvfrom i payload acts ready held =>
    rcases point_recvfrom (programs who) (s.party who) payload with point | point <;>
      rw [point] <;> exact Point.noConfusion

private theorem unheard_step {s t : State} {a : Action} (before : Unheard s) (ordered : InOrder s a)
    (taken : step programs s a = some t) : Unheard t := by
  intro first
  have rests : a.party ≠ some .server := by
    intro acts
    exact point_ne_first_of_moves (moves_of_step taken .server) acts first
  have still : t.party .server = s.party .server := by
    have moves := moves_of_step taken .server
    generalize t.party .server = after at moves
    cases moves with
    | idle _ => rfl
    | fgets acts ready => exact absurd (acts ▸ rfl) rests
    | sendto typed acts ready => exact absurd (acts ▸ rfl) rests
    | recvfrom i payload acts ready held => exact absurd (acts ▸ rfl) rests
  have here := before (still ▸ first)
  cases a with
  | fgets who =>
    simp only [step, Option.ite_none_right_eq_some, Option.some.injEq] at taken
    obtain ⟨ready, rfl⟩ := taken
    rw [Duo.inbox_setParty, here, Duo.party_setParty]
    split
    · rename_i same
      rw [same, sent_fgets]
    · rfl
  | sendto who =>
    cases who with
    | server => exact absurd rfl rests
    | client =>
      rw [step] at taken
      split at taken
      · obtain rfl := Option.some.inj taken
        have added : s.inbox Side.client.peer = (s.party .client).sent := here
        rw [Duo.inbox_setInbox, if_pos (show Side.server = Side.client.peer from rfl),
          Duo.party_setInbox, Duo.party_setParty, if_pos rfl, added]
        rfl
      · cases taken
  | recvfrom who i =>
    cases who with
    | server => exact absurd rfl rests
    | client =>
      simp only [step, Option.ite_none_right_eq_some, Option.map_eq_some_iff] at taken
      obtain ⟨ready, payload, held, rfl⟩ := taken
      rw [Duo.inbox_setInbox, if_neg (by decide), Duo.party_setInbox, Duo.party_setParty,
        if_pos rfl]
      exact here
  | lose who i => exact ordered.elim
  | duplicate who i => exact ordered.elim

structure Opening (stack stdin : List Byte) (s : State) : Prop where
  begins : Begins stack stdin (s.party .client)
  unheard : Unheard s
  heeded : Agreement s

private theorem isExit_first_received {stack stdin : List Byte} {s : State}
    (here : Opening stack stdin s) (first : (s.party .server).point = .first)
    {payload : List Byte} (held : (s.inbox .server)[0]? = some payload) :
    isExit payload = isExit (firstText stack stdin) := by
  rw [here.unheard first, ← List.head?_eq_getElem?] at held
  exact here.begins.headed payload held

private theorem opening_step {stack stdin : List Byte}
    (quiet : isExit (firstText stack stdin) = false)
    (s : State) (a : Action) (t : State) (before : Opening stack stdin s) (ordered : InOrder s a)
    (taken : step programs s a = some t) : Opening stack stdin t := by
  refine ⟨?_, unheard_step before.unheard ordered taken, fun who => ?_⟩
  · have moves := moves_of_step taken .client
    generalize t.party .client = after at moves
    cases moves with
    | idle rests => exact before.begins
    | fgets acts ready => exact begins_fgets before.begins ready
    | sendto typed acts ready => exact begins_sendto before.begins ready
    | recvfrom i payload acts ready held => exact begins_recvfrom before.begins ready payload
  · have moves := moves_of_step taken who
    generalize t.party who = after at moves
    cases moves with
    | idle rests => exact before.heeded who
    | fgets acts ready => exact heeded_fgets (before.heeded who) ready
    | sendto typed acts ready => exact heeded_sendto (before.heeded who) ready
    | recvfrom i payload acts ready held =>
      refine heeded_recvfrom (before.heeded who) ready fun first => ?_
      cases who with
      | client => exact absurd first before.begins.started
      | server =>
        subst acts
        obtain rfl : i = 0 := ordered
        rw [isExit_first_received before first held, quiet]

private theorem opening_init (stack stdin : Side → List Byte) :
    Opening (stack .client) (stdin .client) (init programs stack stdin) where
  begins := begins_start
  unheard := fun _ => rfl
  heeded := fun who text heard => by cases who <;> cases heard

private theorem opening_exit_unheeded (stack stdin : Side → List Byte)
    (opens : isExit (firstText (stack .client) (stdin .client)) = true) :
    ∃ t, ReachWhere (step programs) InOrder (init programs stack stdin) t ∧ ¬Agreement t := by
  let s₀ := init programs stack stdin
  let typing := run_client.fgets (s₀.party .client)
  let sent := run_client.sendto typing
  let s₁ := s₀.setParty .client typing
  let s₂ := (s₁.setParty .client sent).setInbox .server [cstr typing.buffer]
  let heard := run_server.recvfrom (s₀.party .server) (cstr typing.buffer)
  let s₃ := (s₂.setParty .server heard).setInbox .server []
  have first : step programs s₀ (.fgets .client) = some s₁ := rfl
  have second : step programs s₁ (.sendto .client) = some s₂ := by
    obtain ⟨typed, point⟩ := point_fgets run_client (s₀.party .client)
    have ready : (s₁.party .client).point = .sendto typed := point
    rw [step, ready]
    rfl
  have third : step programs s₂ (.recvfrom .server 0) = some s₃ := rfl
  have ordered : InOrder s₂ (.recvfrom .server 0) := rfl
  refine ⟨s₃, ((ReachWhere.single trivial first).tail trivial second).tail ordered third, ?_⟩
  intro agree
  have told : isExit (cstr typing.buffer) = true := by
    rw [isExit_congr (cstr_cstr _)]
    exact (isExit_fgets .client (s₀.party .client)).trans opens
  have left : heard.point = .closed :=
    agree .server (cstr typing.buffer) (List.mem_singleton.mpr rfl) told
  have inside : heard.point = .fgets := rfl
  rw [inside] at left
  cases left

/-- On a lossless in-order channel a party that receives `exit` stops there, in every run,
exactly when the client's first text does not begin with `exit`. -/
theorem agreement_iff (stack stdin : Side → List Byte) :
    (∀ t, ReachWhere (step programs) InOrder (init programs stack stdin) t → Agreement t) ↔
      isExit (firstText (stack .client) (stdin .client)) = false := by
  constructor
  · intro agree
    by_contra opens
    obtain ⟨t, run, broken⟩ :=
      opening_exit_unheeded stack stdin (Bool.not_eq_false _ ▸ opens)
    exact broken (agree t run)
  · intro quiet t run
    exact (invariant_of_step (opening_step quiet) (opening_init stack stdin) run).heeded

/-- The client's only line is `exit`. -/
theorem exit_at_once_unheeded :
    ∃ t, ReachWhere (step programs) InOrder
        (init programs (fun _ => []) fun _ => [101, 120, 105, 116, 10]) t ∧ ¬Agreement t :=
  opening_exit_unheeded _ _ (by decide +kernel)

end SocketChat.UdpTurns.Farewell
