/- SocketChat/TestCode/Echo/Serial
   digest: What a process keeps of the clients it handles, and main of the iterative server. -/

import SocketChat.TestCode.Echo.Agreement

set_option autoImplicit false
set_option relaxedAutoImplicit false

namespace SocketChat.TestCode.Echo.Serial

open SocketChat.Lib.CString
open SocketChat.Lib.Transducer
open SocketChat.TestCode.Echo.Agreement
open SocketChat.TestCode.Echo.Model

/-- The connections accepted so far, where `HandleTCPClient` stands with each, and what each client
has been sent. -/
structure Clients where
  accepted : ℕ
  handlers : ConnId → Option Point
  echoed : ConnId → List Byte

namespace Clients

def none : Clients := ⟨0, fun _ => .none, fun _ => []⟩

/-- `HandleTCPClient` is called with what `AcceptTCPConnection` returns. -/
def accept (cl : Clients) : Clients :=
  { cl with
    accepted := cl.accepted + 1
    handlers := Function.update cl.handlers cl.accepted (some .recv) }

def call (cl : Clients) (c : ConnId) (k : Call) : Option (Point × Clients) :=
  (cl.handlers c).bind fun point =>
    (HandleTCPClient point k).map fun next =>
      (next.1, { cl with
        handlers := Function.update cl.handlers c (some next.1)
        echoed := Function.update cl.echoed c (cl.echoed c ++ next.2) })

def Numbered (cl : Clients) : Prop := ∀ c, (cl.handlers c).isSome = true ↔ c < cl.accepted

def Attends (c : ConnId) (es : List Event) (cl cl' : Clients) : Prop :=
  ∃ out, run HandleTCPClient (place cl.handlers c) (calls c es) =
      some (place cl'.handlers c, out) ∧ cl'.echoed c = cl.echoed c ++ out

section Steps

variable {cl cl' : Clients} {c d : ConnId} {k : Call} {q : Point}

theorem call_eq_some : cl.call d k = some (q, cl') ↔ ∃ p out, cl.handlers d = some p ∧
    HandleTCPClient p k = some (q, out) ∧
    cl' = { cl with
      handlers := Function.update cl.handlers d (some q)
      echoed := Function.update cl.echoed d (cl.echoed d ++ out) } := by
  rw [call, Option.bind_eq_some_iff]
  constructor
  · rintro ⟨p, handler, taken⟩
    obtain ⟨⟨q', out⟩, handled, same⟩ := Option.map_eq_some_iff.mp taken
    obtain ⟨rfl, rfl⟩ := Prod.mk.inj same
    exact ⟨p, out, handler, handled, rfl⟩
  · rintro ⟨p, out, handler, handled, rfl⟩
    exact ⟨p, handler, Option.map_eq_some_iff.mpr ⟨(q, out), handled, rfl⟩⟩

theorem numbered_none : Numbered none := fun c =>
  iff_of_false Bool.false_ne_true (Nat.not_lt_zero c)

theorem numbered_accept (n : Numbered cl) : Numbered cl.accept := by
  intro c
  change (Function.update cl.handlers cl.accepted (some .recv) c).isSome = true ↔
    c < cl.accepted + 1
  by_cases newest : c = cl.accepted
  · rw [newest, Function.update_self]
    exact iff_of_true rfl (Nat.lt_succ_self _)
  · rw [Function.update_of_ne newest, n c]
    exact ⟨Nat.lt_succ_of_lt,
      fun inside => Nat.lt_of_le_of_ne (Nat.le_of_lt_succ inside) newest⟩

theorem numbered_call (n : Numbered cl) (taken : cl.call d k = some (q, cl')) :
    Numbered cl' := by
  obtain ⟨p, out, handler, _, rfl⟩ := call_eq_some.mp taken
  intro c
  change (Function.update cl.handlers d (some q) c).isSome = true ↔ c < cl.accepted
  by_cases own : c = d
  · rw [own, Function.update_self]
    exact iff_of_true rfl ((n d).mp (by rw [handler]; rfl))
  · rw [Function.update_of_ne own]
    exact n c

theorem Numbered.newest (n : Numbered cl) : cl.handlers cl.accepted = .none :=
  Option.not_isSome_iff_eq_none.mp fun held => Nat.lt_irrefl _ ((n cl.accepted).mp held)

theorem attends_accept (n : Numbered cl) (c : ConnId) : Attends c [.accept] cl cl.accept :=
  served_still (place_started n.newest) rfl

theorem attends_call (taken : cl.call d k = some (q, cl')) (c : ConnId) :
    Attends c [.call d k] cl cl' := by
  obtain ⟨p, out, handler, handled, rfl⟩ := call_eq_some.mp taken
  exact served_call handler handled

theorem attends_still (c : ConnId) : Attends c [] cl cl := served_still rfl rfl

def DoneBut (cl : Clients) (current : Option ConnId) : Prop :=
  ∀ c < cl.accepted, current ≠ some c → cl.handlers c = some .returned

private theorem doneBut_none :
    DoneBut none .none := fun c before => absurd before (Nat.not_lt_zero c)

private theorem doneBut_accept (done : DoneBut cl .none) :
    DoneBut cl.accept (some cl.accepted) := by
  intro c before other
  have older : c ≠ cl.accepted := fun newest => other (congrArg some newest.symm)
  change Function.update cl.handlers cl.accepted (some .recv) c = some .returned
  rw [Function.update_of_ne older]
  exact done c (Nat.lt_of_le_of_ne (Nat.le_of_lt_succ before) older) (Option.some_ne_none c).symm

private theorem doneBut_call (done : DoneBut cl (some d)) (taken : cl.call d k = some (q, cl')) :
    DoneBut cl' (if q = .returned then .none else some d) := by
  obtain ⟨p, out, handler, _, rfl⟩ := call_eq_some.mp taken
  intro c before other
  change Function.update cl.handlers d (some q) c = some .returned
  by_cases own : c = d
  · rw [own, Function.update_self]
    by_cases gone : q = .returned
    · rw [gone]
    · rw [if_neg gone, own] at other
      exact absurd rfl other
  · rw [Function.update_of_ne own]
    exact done c before fun same => own (Option.some.inj same).symm

end Steps

/-- The clients are handled one after the other. -/
structure InTurn (cl : Clients) (current : Option ConnId) : Prop where
  numbered : cl.Numbered
  done : cl.DoneBut current

theorem inTurn_none : InTurn none .none := ⟨numbered_none, doneBut_none⟩

theorem InTurn.accept {cl : Clients} (h : InTurn cl .none) :
    InTurn cl.accept (some cl.accepted) := ⟨numbered_accept h.numbered, doneBut_accept h.done⟩

theorem InTurn.call {cl cl' : Clients} {c : ConnId} {k : Call} {q : Point}
    (h : InTurn cl (some c)) (taken : cl.call c k = some (q, cl')) :
    InTurn cl' (if q = .returned then .none else some c) :=
  ⟨numbered_call h.numbered taken, doneBut_call h.done taken⟩

end Clients

inductive Place
  | accept
  | handle (c : ConnId)
deriving DecidableEq

structure State where
  place : Place
  died : Option String
  clients : Clients

def init : State := ⟨.accept, none, .none⟩

inductive Action
  | event (e : Event)
  | acceptFails
deriving DecidableEq

def event? : Action → Option Event
  | .event e => some e
  | .acceptFails => none

def Place.current : Place → Option ConnId
  | .accept => none
  | .handle c => some c

-- tcp_echo_server_iterative.c
def step (s : State) (a : Action) : Option State :=
  if s.died = none then
    match s.place, a with
    | .accept, .event .accept =>
        some { s with place := .handle s.clients.accepted, clients := s.clients.accept }
    | .accept, .acceptFails => some { s with died := some "accept() failed" }
    | .handle c, .event (.call d k) =>
        if c = d then
          (s.clients.call c k).map fun next =>
            { s with
              place := if next.1 = .returned then .accept else .handle c
              died := Multithread.message next.1
              clients := next.2 }
        else none
    | _, _ => none
  else none

inductive Took (s : State) : Action → State → Prop
  | accepted (here : s.place = .accept) :
      Took s (.event .accept)
        { s with place := .handle s.clients.accepted, clients := s.clients.accept }
  | acceptFailed (here : s.place = .accept) :
      Took s .acceptFails { s with died := some "accept() failed" }
  | called (c : ConnId) (k : Call) (q : Point) (cl : Clients) (here : s.place = .handle c)
      (handled : s.clients.call c k = some (q, cl)) :
      Took s (.event (.call c k)) { s with
        place := if q = .returned then .accept else .handle c
        died := Multithread.message q
        clients := cl }

private theorem took_of_step {s t : State} {a : Action} (taken : step s a = some t) :
    Took s a t := by
  unfold step at taken
  split at taken
  · split at taken
    · rename_i here
      cases taken
      exact .accepted here
    · rename_i here
      cases taken
      exact .acceptFailed here
    · rename_i c d k here
      split at taken
      · rename_i own
        subst own
        obtain ⟨⟨q, cl⟩, handled, rfl⟩ := Option.map_eq_some_iff.mp taken
        exact .called c k q cl here handled
      · cases taken
    · cases taken
  · cases taken

section Turns

variable {s t : State} {a : Action}

theorem inTurn_step (h : s.clients.InTurn s.place.current) (taken : step s a = some t) :
    t.clients.InTurn t.place.current := by
  cases took_of_step taken with
  | accepted here =>
    rw [here] at h
    exact h.accept
  | acceptFailed here => exact h
  | called c k q cl here handled =>
    rw [here] at h
    have after := h.call handled
    by_cases gone : q = .returned
    · rw [if_pos gone] at after ⊢
      exact after
    · rw [if_neg gone] at after ⊢
      exact after

theorem attends_step (c : ConnId) (h : s.clients.InTurn s.place.current)
    (taken : step s a = some t) : Clients.Attends c (event? a).toList s.clients t.clients := by
  cases took_of_step taken with
  | accepted here => exact Clients.attends_accept h.numbered c
  | called d k q cl here handled => exact Clients.attends_call handled c
  | acceptFailed here => exact Clients.attends_still c

end Turns

end SocketChat.TestCode.Echo.Serial
