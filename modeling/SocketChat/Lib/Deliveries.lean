/- SocketChat/Lib/Deliveries
   digest: An account of numbered messages, to whom each was sent and who is still owed it. -/

import SocketChat.Lib.Room

set_option autoImplicit false
set_option relaxedAutoImplicit false

namespace SocketChat.Lib.Deliveries

open SocketChat.Lib.Room (Event heard present)

universe u v

/-- One send: the number of the message, whom it reached, if anybody, and the call. -/
structure Sent (ι : Type u) (β : Type v) where
  number : ℕ
  reached : Option ι
  call : β

/-- One message: who said it and who was in the room. -/
structure Said (ι : Type u) where
  sender : ι
  members : List ι
  deriving DecidableEq

variable {ι : Type u} {β : Type v} [DecidableEq ι]

def inbox (sends : List (Sent ι β)) (c : ι) : List ℕ :=
  (sends.filter fun sent => sent.reached = some c).map Sent.number

def sendsTo (sends : List (Sent ι β)) (number : ℕ) (c : ι) : ℕ :=
  sends.countP fun sent => sent.number = number ∧ sent.reached = some c

theorem sendsTo_eq_count (sends : List (Sent ι β)) (k : ℕ) (c : ι) :
    sendsTo sends k c = (inbox sends c).count k := by
  rw [sendsTo, inbox, List.count, List.countP_map, List.countP_filter]
  apply List.countP_congr
  intro sent _
  simp

private theorem inbox_append (before after : List (Sent ι β)) (c : ι) :
    inbox (before ++ after) c = inbox before c ++ inbox after c := by
  rw [inbox, List.filter_append, List.map_append]
  rfl

/-- The account: every message is sent, or still owed, once to each member but its sender;
what anybody is sent and owed is what it hears in the room, where each says its own. -/
structure Account (said : List (Said ι)) (sends : List (Sent ι β)) (history : List (Event ι ℕ))
    (owed : ι → List ℕ) : Prop where
  served : ∀ sent ∈ sends, sent.reached.isSome ∧ sent.number < said.length
  owing : ∀ c, ∀ k ∈ owed c, k < said.length
  once : ∀ k e, said[k]? = some e → ∀ c,
    sendsTo sends k c + (owed c).count k = if c ∈ e.members ∧ c ≠ e.sender then 1 else 0
  order : ∀ c, inbox sends c ++ owed c = heard c history
  numbered : Room.said history = List.range said.length
  own : ∀ c k, Event.say c k ∈ history → (said[k]?).map Said.sender = some c

variable {said : List (Said ι)} {sends : List (Sent ι β)} {history : List (Event ι ℕ)}
  {owed : ι → List ℕ}

theorem account_nil : Account ([] : List (Said ι)) ([] : List (Sent ι β)) [] fun _ => [] := by
  constructor
  · intro sent hsent
    cases hsent
  · intro c k hk
    cases hk
  · intro k e entry
    cases entry
  · intro c
    rfl
  · rfl
  · intro c k saying
    cases saying

private theorem Account.inbox_lt (h : Account said sends history owed) {k : ℕ} {c : ι}
    (hk : k ∈ inbox sends c) : k < said.length := by
  obtain ⟨sent, kept, rfl⟩ := List.mem_map.mp hk
  exact (h.served sent (List.mem_filter.mp kept).1).2

private theorem Account.silent (h : Account said sends history owed) {e : Event ι ℕ}
    (unheard : ∀ d, heard d (history ++ [e]) = heard d history) (unsaid : ∀ d k, e ≠ .say d k) :
    Account said sends (history ++ [e]) owed := by
  refine ⟨h.served, h.owing, h.once, ?_, ?_, ?_⟩
  · intro d
    rw [unheard]
    exact h.order d
  · have nothing : Room.said [e] = [] := by
      cases e with
      | join c => rfl
      | leave c => rfl
      | say c k => exact absurd rfl (unsaid c k)
    rw [Room.said_append, h.numbered, nothing, List.append_nil]
  · intro d k saying
    rcases List.mem_append.mp saying with old | new
    · exact h.own d k old
    · exact absurd (List.mem_singleton.mp new).symm (unsaid d k)

private theorem Account.join (h : Account said sends history owed) (c : ι) :
    Account said sends (history ++ [.join c]) owed :=
  h.silent (fun d => Room.heard_join d c history) fun _ _ => nofun

theorem Account.join_if (h : Account said sends history owed) (p : Prop) [Decidable p] (c : ι) :
    Account said sends (if p then history ++ [.join c] else history) owed := by
  by_cases hp : p
  · rw [if_pos hp]
    exact h.join c
  · rw [if_neg hp]
    exact h

theorem Account.leave (h : Account said sends history owed) (c : ι) :
    Account said sends (history ++ [.leave c]) owed :=
  h.silent (fun d => Room.heard_leave d c history) fun _ _ => nofun

theorem Account.say (h : Account said sends history fun _ => []) {sender : ι} {members : List ι}
    (all : ∀ c, c ∈ members ↔ present c history = true) :
    Account (said ++ [⟨sender, members⟩]) sends (history ++ [.say sender said.length])
      fun c => if present c history && sender ≠ c then [said.length] else [] := by
  have size : (said ++ [(⟨sender, members⟩ : Said ι)]).length = said.length + 1 := by
    rw [List.length_append, List.length_singleton]
  constructor
  · intro sent hsent
    obtain ⟨reached, before⟩ := h.served sent hsent
    rw [size]
    exact ⟨reached, by omega⟩
  · intro c k hk
    rw [size]
    split at hk
    · rw [List.mem_singleton.mp hk]
      omega
    · cases hk
  · intro k e entry c
    rcases Nat.lt_or_ge k said.length with earlier | later
    · rw [List.getElem?_append_left earlier] at entry
      have other : said.length ≠ k := by omega
      have nothing : List.count k
          (if present c history && decide (sender ≠ c) then [said.length] else []) = 0 := by
        split
        · exact List.count_singleton.trans (by simp [other])
        · rfl
      have before := h.once k e entry c
      rw [nothing]
      exact before
    · have last : k = said.length := by
        have bound := (List.getElem?_eq_some_iff.mp entry).1
        rw [size] at bound
        omega
      subst last
      rw [List.getElem?_concat_length] at entry
      obtain rfl := Option.some.inj entry
      have unsent : sendsTo sends said.length c = 0 := by
        rw [sendsTo_eq_count]
        apply List.count_eq_zero.mpr
        intro already
        exact Nat.lt_irrefl _ (h.inbox_lt already)
      rw [unsent, Nat.zero_add]
      by_cases inside : present c history = true
      · have listed := (all c).mpr inside
        by_cases same : sender = c
        · simp [inside, same]
        · have apart : c ≠ sender := fun h => same h.symm
          simp [inside, listed, same, apart]
      · have unlisted : c ∉ members := fun held => inside ((all c).mp held)
        simp [inside, unlisted]
  · intro c
    rw [Room.heard_say, ← h.order c, List.append_nil]
  · rw [Room.said_append, h.numbered, size, List.range_succ]
    rfl
  · intro c k saying
    rcases List.mem_append.mp saying with old | new
    · have earlier := h.own c k old
      obtain ⟨e, entry, mine⟩ := Option.map_eq_some_iff.mp earlier
      have inside := (List.getElem?_eq_some_iff.mp entry).1
      rw [List.getElem?_append_left inside]
      exact earlier
    · obtain ⟨rfl, rfl⟩ := Event.say.inj (List.mem_singleton.mp new)
      rw [List.getElem?_concat_length]
      rfl

theorem Account.serve (h : Account said sends history owed) {new : List (Sent ι β)}
    {left : ι → List ℕ} (reached : ∀ sent ∈ new, sent.reached.isSome ∧ sent.number < said.length)
    (paid : ∀ c, inbox new c ++ left c = owed c) :
    Account said (sends ++ new) history left := by
  constructor
  · intro sent hsent
    rcases List.mem_append.mp hsent with old | fresh
    · exact h.served sent old
    · exact reached sent fresh
  · intro c k hk
    apply h.owing c
    rw [← paid c]
    exact List.mem_append_right _ hk
  · intro k e entry c
    have before := h.once k e entry c
    rw [← paid c, List.count_append, sendsTo_eq_count] at before
    rw [sendsTo_eq_count, inbox_append, List.count_append]
    omega
  · intro c
    rw [inbox_append, List.append_assoc, paid c]
    exact h.order c
  · exact h.numbered
  · exact h.own

theorem Account.inbox_sublist (h : Account said sends history owed) (c : ι) :
    (inbox sends c).Sublist (List.range said.length) := by
  rw [← h.numbered]
  apply List.Sublist.trans _ (Room.hears_sublist_said c false history)
  change (inbox sends c).Sublist (heard c history)
  rw [← h.order c]
  exact List.sublist_append_left _ _

theorem Account.same_order (h : Account said sends history owed) (c d : ι) :
    (inbox sends c).filter (· ∈ inbox sends d) = (inbox sends d).filter (· ∈ inbox sends c) :=
  Room.same_order List.nodup_range (h.inbox_sublist c) (h.inbox_sublist d)

end SocketChat.Lib.Deliveries
