/- SocketChat/Lib/Responder
   digest: A server that answers datagrams one by one, on a network that does anything but forge. -/

import Mathlib.Logic.Function.Basic
import SocketChat.Lib.Runs

set_option autoImplicit false
set_option relaxedAutoImplicit false

namespace SocketChat.Lib.Responder

open SocketChat.Lib.Runs

universe u v w x

variable {α : Type u} {β : Type v} {σ : Type w} {κ : Type x}

/-- What the server makes of a datagram from an address, with its answer if it sends one, and of a
`recvfrom` that fails; what a client asks, if anything, and what it makes of an answer and of such a
failure. -/
structure Protocol (α : Type u) (β : Type v) (σ : Type w) (κ : Type x) where
  serve : σ → α → β → Option (σ × Option β)
  serveFails : σ → Option σ
  ask : κ → Option (κ × Option β)
  get : κ → β → Option κ
  getFails : κ → Option κ

/-- The parties, and all datagrams that have been sent to the server, each with its source, and
sent back, each with its destination. -/
structure Net (α : Type u) (β : Type v) (σ : Type w) (κ : Type x) where
  server : σ
  clients : α → Option κ
  asked : List (α × β)
  answered : List (α × β)

/-- A client or the server goes on, by any datagram that was ever sent to it, once, again or never;
somebody at an address that is no client's sends anything. -/
inductive Action (α : Type u) (β : Type v)
  | ask (a : α)
  | stranger (a : α) (d : β)
  | serve (i : ℕ)
  | serveFails
  | get (i : ℕ)
  | getFails (a : α)

variable [DecidableEq α]

def Net.put (m : Net α β σ κ) (a : α) (k : κ) : Net α β σ κ :=
  { m with clients := Function.update m.clients a (some k) }

def step (P : Protocol α β σ κ) (m : Net α β σ κ) : Action α β → Option (Net α β σ κ)
  | .ask a => (m.clients a).bind fun k => (P.ask k).map fun out =>
      { m.put a out.1 with asked := m.asked ++ (out.2.map (Prod.mk a)).toList }
  | .stranger a d =>
      if (m.clients a).isNone then some { m with asked := m.asked ++ [(a, d)] } else none
  | .serve i => m.asked[i]?.bind fun e => (P.serve m.server e.1 e.2).map fun out =>
      { m with
        server := out.1
        answered := m.answered ++ (out.2.map (Prod.mk e.1)).toList }
  | .serveFails => (P.serveFails m.server).map fun server => { m with server := server }
  | .get i => m.answered[i]?.bind fun e => (m.clients e.1).bind fun k =>
      (P.get k e.2).map (m.put e.1)
  | .getFails a => (m.clients a).bind fun k => (P.getFails k).map (m.put a)

structure Keeps (P : Protocol α β σ κ) (answer : β → β) (I : α → κ → Prop) (Q : α → β → Prop) :
    Prop where
  answers : ∀ s a d s' r, P.serve s a d = some (s', some r) → r = answer d
  asks : ∀ a k k' d, I a k → P.ask k = some (k', d) → I a k' ∧ ∀ q ∈ d, Q a q
  gets : ∀ a k k' d, I a k → Q a d → P.get k (answer d) = some k' → I a k'
  fails : ∀ a k k', I a k → P.getFails k = some k' → I a k'

/-- Every client keeps `I`, what it has asked keeps `Q`, and what the server has sent is an answer
to something asked from there. -/
structure Kept (answer : β → β) (I : α → κ → Prop) (Q : α → β → Prop) (m : Net α β σ κ) : Prop where
  clients : ∀ a k, m.clients a = some k → I a k
  asked : ∀ e ∈ m.asked, (m.clients e.1).isSome = true → Q e.1 e.2
  answered : ∀ e ∈ m.answered, ∃ d, (e.1, d) ∈ m.asked ∧ e.2 = answer d

section Steps

variable {P : Protocol α β σ κ} {answer : β → β} {I : α → κ → Prop} {Q : α → β → Prop}
  {m : Net α β σ κ}

private theorem kept_put (k : Kept answer I Q m) {a : α} {client client' : κ}
    (there : m.clients a = some client) (keeps : I a client') :
    Kept answer I Q (m.put a client') := by
  refine ⟨?_, ?_, k.answered⟩
  · intro b other here
    change Function.update m.clients a (some client') b = some other at here
    by_cases own : b = a
    · subst own
      rw [Function.update_self] at here
      exact Option.some.inj here ▸ keeps
    · rw [Function.update_of_ne own] at here
      exact k.clients b other here
  · intro e inside known
    refine k.asked e inside ?_
    change (Function.update m.clients a (some client') e.1).isSome = true at known
    by_cases own : e.1 = a
    · rw [own, there]
      rfl
    · rw [Function.update_of_ne own] at known
      exact known

omit [DecidableEq α] in
private theorem kept_asked (k : Kept answer I Q m) {a : α} {d : Option β}
    (keeps : (m.clients a).isSome = true → ∀ q ∈ d, Q a q) :
    Kept answer I Q { m with asked := m.asked ++ (d.map (Prod.mk a)).toList } := by
  refine ⟨k.clients, ?_, ?_⟩
  · intro e inside known
    rcases List.mem_append.mp inside with before | now
    · exact k.asked e before known
    · obtain ⟨q, sent, rfl⟩ := Option.map_eq_some_iff.mp (Option.mem_toList.mp now)
      exact keeps known q sent
  · intro e inside
    obtain ⟨d', there, same⟩ := k.answered e inside
    exact ⟨d', List.mem_append_left _ there, same⟩

private theorem kept_step (keeps : Keeps P answer I Q) (m : Net α β σ κ) (a : Action α β)
    (m' : Net α β σ κ) (k : Kept answer I Q m) (taken : step P m a = some m') :
    Kept answer I Q m' := by
  cases a with
  | ask a =>
    obtain ⟨client, there, asking⟩ := Option.bind_eq_some_iff.mp taken
    obtain ⟨⟨client', d⟩, asks, rfl⟩ := Option.map_eq_some_iff.mp asking
    obtain ⟨still, fair⟩ := keeps.asks a client client' d (k.clients a client there) asks
    exact kept_asked (kept_put k there still) fun _ => fair
  | stranger a d =>
    simp only [step, Option.ite_none_right_eq_some, Option.some.injEq] at taken
    obtain ⟨strange, rfl⟩ := taken
    refine kept_asked (d := some d) k fun known => ?_
    rw [Option.isNone_iff_eq_none.mp strange] at known
    cases known
  | serve i =>
    obtain ⟨e, there, serving⟩ := Option.bind_eq_some_iff.mp taken
    obtain ⟨⟨server, out⟩, served, rfl⟩ := Option.map_eq_some_iff.mp serving
    refine ⟨k.clients, k.asked, fun e' inside => ?_⟩
    rcases List.mem_append.mp inside with before | now
    · exact k.answered e' before
    · obtain ⟨r, sent, rfl⟩ := Option.map_eq_some_iff.mp (Option.mem_toList.mp now)
      subst sent
      exact ⟨e.2, List.mem_of_getElem? there, keeps.answers _ _ _ _ _ served⟩
  | serveFails =>
    obtain ⟨server, _, rfl⟩ := Option.map_eq_some_iff.mp taken
    exact ⟨k.clients, k.asked, k.answered⟩
  | get i =>
    obtain ⟨e, there, getting⟩ := Option.bind_eq_some_iff.mp taken
    obtain ⟨client, known, got⟩ := Option.bind_eq_some_iff.mp getting
    obtain ⟨client', gets, rfl⟩ := Option.map_eq_some_iff.mp got
    obtain ⟨d, asked, same⟩ := k.answered e (List.mem_of_getElem? there)
    have fair := k.asked _ asked (by rw [known]; rfl)
    rw [same] at gets
    exact kept_put k known (keeps.gets _ _ _ d (k.clients _ _ known) fair gets)
  | getFails a =>
    obtain ⟨client, known, failing⟩ := Option.bind_eq_some_iff.mp taken
    obtain ⟨client', fails, rfl⟩ := Option.map_eq_some_iff.mp failing
    exact kept_put k known (keeps.fails _ _ _ (k.clients _ _ known) fails)

theorem kept_run (keeps : Keeps P answer I Q) {server : σ} {clients : α → Option κ}
    (start : ∀ a k, clients a = some k → I a k)
    (run : Reach (step P) ⟨server, clients, [], []⟩ m) : Kept answer I Q m :=
  invariant_of_step_reach (kept_step keeps)
    ⟨start, fun _ nothing => absurd nothing List.not_mem_nil,
      fun _ nothing => absurd nothing List.not_mem_nil⟩ run

end Steps

end SocketChat.Lib.Responder
