/- SocketChat/Lib/Sides
   digest: The two ends of a conversation, and what is on its way to each. -/

import Mathlib.Logic.Function.Basic

set_option autoImplicit false
set_option relaxedAutoImplicit false

namespace SocketChat.Lib.Sides

universe u v

inductive Side
  | client
  | server
deriving DecidableEq

namespace Side

def peer : Side → Side
  | client => server
  | server => client

@[simp] theorem peer_peer (who : Side) : who.peer.peer = who := by
  cases who <;> rfl

@[simp] theorem peer_ne (who : Side) : who.peer ≠ who := by
  cases who <;> decide

@[simp] theorem ne_peer (who : Side) : who ≠ who.peer := (peer_ne who).symm

theorem eq_peer_of_ne {who other : Side} (differ : other ≠ who) : other = who.peer := by
  cases who <;> cases other <;> first | rfl | exact absurd rfl differ

theorem forall_iff (who : Side) {P : Side → Prop} : (∀ x, P x) ↔ P who ∧ P who.peer := by
  constructor
  · intro all
    exact ⟨all who, all who.peer⟩
  · intro both x
    by_cases same : x = who
    · exact same ▸ both.1
    · exact eq_peer_of_ne same ▸ both.2

end Side

/-- Both parties, and what the network holds for each. -/
structure Duo (P : Type u) (Q : Type v) where
  party : Side → P
  inbox : Side → Q

namespace Duo

variable {P : Type u} {Q : Type v}

def setParty (s : Duo P Q) (who : Side) (p : P) : Duo P Q :=
  { s with party := Function.update s.party who p }

def setInbox (s : Duo P Q) (who : Side) (q : Q) : Duo P Q :=
  { s with inbox := Function.update s.inbox who q }

section Frame

variable (s : Duo P Q) (who : Side) (p : P) (q : Q)

theorem party_setParty (x : Side) :
    (s.setParty who p).party x = if x = who then p else s.party x :=
  Function.update_apply s.party who p x

theorem inbox_setInbox (x : Side) :
    (s.setInbox who q).inbox x = if x = who then q else s.inbox x :=
  Function.update_apply s.inbox who q x

@[simp] theorem party_setParty_self : (s.setParty who p).party who = p := by
  rw [party_setParty, if_pos rfl]

@[simp] theorem party_setParty_peer : (s.setParty who p).party who.peer = s.party who.peer := by
  rw [party_setParty, if_neg (Side.peer_ne who)]

@[simp] theorem inbox_setParty : (s.setParty who p).inbox = s.inbox := rfl

@[simp] theorem inbox_setInbox_self : (s.setInbox who q).inbox who = q := by
  rw [inbox_setInbox, if_pos rfl]

@[simp] theorem inbox_setInbox_peer : (s.setInbox who q).inbox who.peer = s.inbox who.peer := by
  rw [inbox_setInbox, if_neg (Side.peer_ne who)]

@[simp] theorem inbox_setInbox_of_peer : (s.setInbox who.peer q).inbox who = s.inbox who := by
  rw [inbox_setInbox, if_neg (Side.ne_peer who)]

@[simp] theorem party_setInbox : (s.setInbox who q).party = s.party := rfl

end Frame

end Duo

end SocketChat.Lib.Sides
