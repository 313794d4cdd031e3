/- SocketChat/TestCode/UdpBroadcast/Feedback
   digest: The relay receives its own broadcasts and relays each message for ever. -/

import SocketChat.Lib.Runs
import SocketChat.TestCode.UdpBroadcast.Model
import Mathlib.Data.List.Perm.Basic

set_option autoImplicit false
set_option relaxedAutoImplicit false

namespace SocketChat.TestCode.UdpBroadcast.Feedback

open SocketChat.Lib.Runs
open Model

/-- One broadcast for each client datagram received. -/
def OnePerMessage (s : State) : Prop := s.broadcasts = s.heard

/-- The relay takes no copy of a broadcast of its own. -/
def FromClient (s : State) : Action → Prop
  | .relay i => ∀ d ∈ s.servSock.queue[i]?, d.source.isClient = true
  | _ => True

instance decidableFromClient (s : State) : (a : Action) → Decidable (FromClient s a)
  | .client => isTrue trivial
  | .relay i =>
      inferInstanceAs (Decidable (∀ d ∈ s.servSock.queue[i]?, d.source.isClient = true))
  | .receiver _ _ => isTrue trivial

def copies (s : State) : ℕ := s.servSock.queue.countP fun d => !d.source.isClient

private theorem relay_cases {s t : State} {i : ℕ} (taken : step s (.relay i) = some t) :
    ∃ d, s.servSock.queue[i]? = some d ∧ t.broadcasts = s.broadcasts + 1 ∧
      t.heard = (if d.source.isClient then s.heard + 1 else s.heard) ∧
      t.servSock.queue = s.servSock.queue.eraseIdx i ++ [⟨.relay, d.payload.take ECHOMAX⟩] := by
  rw [step, Sock.recvfrom, Option.map_map, Option.map_eq_some_iff] at taken
  obtain ⟨d, here, rfl⟩ := taken
  exact ⟨d, here, rfl, rfl, rfl⟩

private theorem numbers_of_other {s t : State} {a : Action} (other : ∀ i, a ≠ .relay i)
    (taken : step s a = some t) : t.broadcasts = s.broadcasts ∧ t.heard = s.heard := by
  cases a with
  | client =>
    cases unsent : s.unsent with
    | nil => simp [step, unsent] at taken
    | cons first rest =>
      obtain ⟨d, dest⟩ := first
      simp only [step, unsent, Option.some.injEq] at taken
      subst taken
      cases dest <;> exact ⟨rfl, rfl⟩
  | relay i => exact absurd rfl (other i)
  | receiver j i =>
    simp only [step, Option.bind_eq_some_iff, Option.map_eq_some_iff] at taken
    obtain ⟨_, _, _, _, rfl⟩ := taken
    exact ⟨rfl, rfl⟩

private theorem onePerMessage_step (s : State) (a : Action) (t : State) (before : OnePerMessage s)
    (taken : step s a = some t) : OnePerMessage t ↔ FromClient s a := by
  unfold OnePerMessage at before ⊢
  cases a with
  | client =>
    obtain ⟨broadcasts, heard⟩ := numbers_of_other (fun _ => Model.Action.noConfusion) taken
    exact iff_of_true (by rw [broadcasts, heard, before]) trivial
  | relay i =>
    obtain ⟨d, here, broadcasts, heard, _⟩ := relay_cases taken
    have source : FromClient s (.relay i) ↔ d.source.isClient = true := by
      simp [FromClient, here]
    rw [source, broadcasts, heard, before]
    split
    · rename_i client
      exact iff_of_true rfl client
    · rename_i own
      exact iff_of_false (by omega) own
  | receiver j i =>
    obtain ⟨broadcasts, heard⟩ := numbers_of_other (fun _ => Model.Action.noConfusion) taken
    exact iff_of_true (by rw [broadcasts, heard, before]) trivial

structure Circulating (s : State) : Prop where
  as_heard : copies s = s.heard
  to_come : ∀ m ∈ s.unsent, m.1.source.isClient = true

private theorem circulating_init (messages : List (UInt32 × List UInt8 × Dest)) (receivers : ℕ) :
    Circulating (init messages receivers) where
  as_heard := rfl
  to_come := by
    intro m later
    obtain ⟨message, _, rfl⟩ := List.mem_map.mp later
    rfl

private theorem copies_relay {s t : State} {i : ℕ} (taken : step s (.relay i) = some t) :
    ∃ d, s.servSock.queue[i]? = some d ∧
      copies t = (if d.source.isClient then copies s + 1 else copies s) := by
  obtain ⟨d, here, _, _, queue⟩ := relay_cases taken
  refine ⟨d, here, ?_⟩
  obtain ⟨inside, rfl⟩ := List.getElem?_eq_some_iff.mp here
  have out := (List.getElem_cons_eraseIdx_perm inside).countP_eq fun d => !d.source.isClient
  rw [List.countP_cons] at out
  rw [copies, queue, List.countP_append, copies, ← out]
  cases s.servSock.queue[i].source.isClient <;> rfl

private theorem circulating_step (s : State) (a : Action) (t : State) (before : Circulating s)
    (taken : step s a = some t) : Circulating t := by
  cases a with
  | client =>
    cases unsent : s.unsent with
    | nil => simp [step, unsent] at taken
    | cons first rest =>
      obtain ⟨d, dest⟩ := first
      simp only [step, unsent, Option.some.injEq] at taken
      subst taken
      have client : d.source.isClient = true := by
        refine before.to_come (d, dest) ?_
        rw [unsent]
        exact List.mem_cons_self
      have later : ∀ m ∈ rest, m.1.source.isClient = true := by
        intro m hm
        refine before.to_come m ?_
        rw [unsent]
        exact List.mem_cons_of_mem _ hm
      have same : (s.servSock.queue ++ [d]).countP (fun d => !d.source.isClient) = s.heard := by
        rw [List.countP_append, ← before.as_heard, copies]
        simp [client]
      cases dest <;> exact ⟨same, later⟩
  | relay i =>
    obtain ⟨d, here, copied⟩ := copies_relay taken
    obtain ⟨d', here', _, heard, _⟩ := relay_cases taken
    obtain rfl := Option.some.inj (here.symm.trans here')
    refine ⟨by rw [copied, heard, before.as_heard], ?_⟩
    rw [step, Option.map_eq_some_iff] at taken
    obtain ⟨_, _, rfl⟩ := taken
    exact before.to_come
  | receiver j i =>
    simp only [step, Option.bind_eq_some_iff, Option.map_eq_some_iff] at taken
    obtain ⟨_, _, _, _, rfl⟩ := taken
    exact ⟨before.as_heard, before.to_come⟩

private theorem relays_copy {s : State} (copy : 0 < copies s) : ∃ i t,
    step s (.relay i) = some t ∧ t.broadcasts = s.broadcasts + 1 ∧ t.heard = s.heard ∧
      copies t = copies s := by
  obtain ⟨d, inside, own⟩ := List.countP_pos_iff.mp copy
  obtain ⟨i, here⟩ := List.mem_iff_getElem?.mp inside
  obtain ⟨t, taken⟩ : ∃ t, step s (.relay i) = some t := by
    rw [step, Sock.recvfrom, here]
    exact ⟨_, rfl⟩
  obtain ⟨d', here', broadcasts, heard, _⟩ := relay_cases taken
  obtain ⟨d'', here'', copied⟩ := copies_relay taken
  obtain rfl := Option.some.inj (here.symm.trans here')
  obtain rfl := Option.some.inj (here.symm.trans here'')
  rw [if_neg (by simpa using own)] at heard copied
  exact ⟨i, t, taken, broadcasts, heard, copied⟩

/-- With a copy waiting the relay alone goes on to make as many broadcasts as one likes. -/
theorem relays_for_ever {s : State} (copy : 0 < copies s) (n : ℕ) : ∃ as t,
    (∀ a ∈ as, ∃ i, a = .relay i) ∧ exec step s as = some t ∧
      t.broadcasts = s.broadcasts + n ∧ t.heard = s.heard := by
  induction n generalizing s with
  | zero => exact ⟨[], s, by simp, rfl, rfl, rfl⟩
  | succ n ih =>
    obtain ⟨i, m, taken, broadcasts, heard, copied⟩ := relays_copy copy
    obtain ⟨as, t, own, rest, later, heard'⟩ := ih (copied ▸ copy)
    refine ⟨.relay i :: as, t, ?_, exec_cons_eq_some.mpr ⟨m, taken, rest⟩, ?_, ?_⟩
    · intro a ha
      rcases List.mem_cons.mp ha with rfl | ha
      · exact ⟨i, rfl⟩
      · exact own a ha
    · rw [later, broadcasts]
      omega
    · rw [heard', heard]

/-- For all client datagrams and every order of deliveries: along a run there has been one
broadcast for each client datagram received in every state exactly when the relay takes no copy
of a broadcast of its own; and from the first client datagram it receives, a copy always waits,
and the relay alone can make any number of broadcasts more. -/
theorem one_per_message_iff (messages : List (UInt32 × List UInt8 × Dest)) (receivers : ℕ)
    {as : List Action} {t : State} (taken : exec step (init messages receivers) as = some t) :
    (Always step OnePerMessage (init messages receivers) as ↔
        Guarded step FromClient (init messages receivers) as) ∧
      (0 < t.heard → ∀ n, ∃ bs u, (∀ b ∈ bs, ∃ i, b = .relay i) ∧ exec step t bs = some u ∧
        u.broadcasts = t.broadcasts + n ∧ u.heard = t.heard) := by
  refine ⟨always_iff_guarded onePerMessage_step rfl taken, fun received n => ?_⟩
  have circulating : Circulating t :=
    invariant_of_step_reach circulating_step (circulating_init messages receivers) ⟨as, taken⟩
  exact relays_for_ever (circulating.as_heard ▸ received) n

def one : List (UInt32 × List UInt8 × Dest) := [(0x0100007F, [97], .relay)]

theorem one_per_message_iff_one : ∃ t, exec step (init one 1) [.client, .relay 0] = some t ∧
    Always step OnePerMessage (init one 1) [.client, .relay 0] ∧
      ∃ bs u, (∀ b ∈ bs, ∃ i, b = .relay i) ∧ exec step t bs = some u ∧
        u.broadcasts = t.broadcasts + 1000 ∧ u.heard = t.heard := by
  obtain ⟨t, taken⟩ : ∃ t, exec step (init one 1) [.client, .relay 0] = some t := ⟨_, rfl⟩
  obtain ⟨law, more⟩ := one_per_message_iff one 1 taken
  refine ⟨t, taken, law.mpr (by decide +kernel), more ?_ 1000⟩
  obtain rfl := Option.some.inj taken
  decide +kernel

/-- The relay takes the copy of its broadcast and broadcasts it again. -/
theorem copy_relayed : ∃ t, exec step (init one 1) [.client, .relay 0, .relay 0] = some t ∧
    t.heard = 1 ∧ t.broadcasts = 2 := ⟨_, rfl, by decide +kernel⟩

end SocketChat.TestCode.UdpBroadcast.Feedback
