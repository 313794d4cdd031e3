/- SocketChat/Lib/Conversation
   digest: One sequence of all messages, each one's part in it, and what the others hear of it. -/

import Mathlib.Data.List.Induction
import SocketChat.Lib.Deliveries

set_option autoImplicit false
set_option relaxedAutoImplicit false

namespace SocketChat.Lib.Conversation

open SocketChat.Lib
open SocketChat.Lib.Deliveries
open SocketChat.Lib.Room (Event)

universe u v w

variable {ι : Type u} {β : Type v} {γ : Type w} [DecidableEq ι]

def partOf (talk : List (ι × List γ)) (c : ι) : List γ :=
  (talk.filter fun e => e.1 = c).flatMap Prod.snd

def text (talk : List (ι × List γ)) (k : ℕ) : List γ := (talk[k]?.map Prod.snd).getD []

def sentTo (payload : β → List γ) (sends : List (Sent ι β)) (d : ι) : List γ :=
  (sends.filter fun sent => sent.reached = some d).flatMap fun sent => payload sent.call

/-- The bytes are those of a part, in which nothing is `d`'s own, of the one sequence of all
messages. -/
def Hears (talk : List (ι × List γ)) (d : ι) (bytes : List γ) : Prop :=
  ∃ heard : List (ι × List γ),
    heard.Sublist talk ∧ (∀ e ∈ heard, e.1 ≠ d) ∧ bytes = heard.flatMap Prod.snd

section Parts

variable {talk : List (ι × List γ)} {c d : ι} {bytes : List γ}

theorem partOf_append (before after : List (ι × List γ)) (c : ι) :
    partOf (before ++ after) c = partOf before c ++ partOf after c := by
  rw [partOf, List.filter_append, List.flatMap_append]
  rfl

theorem partOf_own (c : ι) (bytes : List γ) : partOf [(c, bytes)] c = bytes := by
  simp [partOf]

theorem partOf_other (other : d ≠ c) (bytes : List γ) : partOf [(c, bytes)] d = [] := by
  simp [partOf, other.symm]

theorem Hears.mem (hears : Hears talk d bytes) {b : γ} (inside : b ∈ bytes) :
    ∃ c, b ∈ partOf talk c := by
  obtain ⟨heard, part, _, rfl⟩ := hears
  obtain ⟨e, there, among⟩ := List.mem_flatMap.mp inside
  refine ⟨e.1, List.mem_flatMap.mpr ⟨e, List.mem_filter.mpr ⟨part.subset there, ?_⟩, among⟩⟩
  exact decide_eq_true rfl

theorem sentTo_append (payload : β → List γ) (before after : List (Sent ι β)) (d : ι) :
    sentTo payload (before ++ after) d = sentTo payload before d ++ sentTo payload after d := by
  rw [sentTo, List.filter_append, List.flatMap_append]
  rfl

end Parts

section Messages

omit [DecidableEq ι]

private theorem range_getElem? (talk : List (ι × List γ)) :
    (List.range talk.length).filterMap (fun k => talk[k]?) = talk := by
  induction talk using List.reverseRecOn with
  | nil => rfl
  | append_singleton talk e ih =>
    have earlier : (List.range talk.length).filterMap (fun k => (talk ++ [e])[k]?) =
        (List.range talk.length).filterMap (fun k => talk[k]?) := by
      apply List.filterMap_congr
      intro k inside
      exact List.getElem?_append_left (List.mem_range.mp inside)
    rw [List.length_append, List.length_singleton, List.range_succ, List.filterMap_append,
      earlier, ih]
    exact congrArg (talk ++ ·) (List.filterMap_cons_some List.getElem?_concat_length)

private theorem flatMap_text (talk : List (ι × List γ)) (numbers : List ℕ) :
    numbers.flatMap (text talk) = (numbers.filterMap fun k => talk[k]?).flatMap Prod.snd := by
  induction numbers with
  | nil => rfl
  | cons k numbers ih =>
    rw [List.flatMap_cons, ih, text]
    cases here : talk[k]? with
    | none =>
      rw [List.filterMap_cons_none here]
      rfl
    | some e =>
      rw [List.filterMap_cons_some here, List.flatMap_cons]
      rfl

end Messages

section Account

variable {payload : β → List γ} {talk : List (ι × List γ)} {said : List (Said ι)}
  {sends : List (Sent ι β)} {history : List (Event ι ℕ)} {owed : ι → List ℕ}

private theorem sentTo_eq
    (whole : ∀ sent ∈ sends, talk[sent.number]?.map Prod.snd = some (payload sent.call)) (d : ι) :
    sentTo payload sends d = (inbox sends d).flatMap (text talk) := by
  rw [sentTo, inbox, List.flatMap_map]
  apply List.flatMap_congr
  intro sent inside
  rw [text, whole sent (List.mem_filter.mp inside).1]
  rfl

theorem hears_of_account (account : Account said sends history owed)
    (senders : talk.map Prod.fst = said.map Said.sender)
    (whole : ∀ sent ∈ sends, talk[sent.number]?.map Prod.snd = some (payload sent.call)) (d : ι) :
    Hears talk d (sentTo payload sends d) := by
  have sized : talk.length = said.length := by
    have both := congrArg List.length senders
    rwa [List.length_map, List.length_map] at both
  refine ⟨(inbox sends d).filterMap fun k => talk[k]?, ?_, ?_, ?_⟩
  · have part := (account.inbox_sublist d).filterMap fun k => talk[k]?
    rw [← sized, range_getElem?] at part
    exact part
  · intro e inside own
    obtain ⟨k, received, here⟩ := List.mem_filterMap.mp inside
    have sender : said[k]?.map Said.sender = some d := by
      rw [← List.getElem?_map, ← senders, List.getElem?_map, here, Option.map_some, own]
    obtain ⟨entry, there, same⟩ := Option.map_eq_some_iff.mp sender
    have count := account.once k entry there d
    rw [if_neg fun both => both.2 same.symm, sendsTo_eq_count] at count
    have none_sent := (Nat.add_eq_zero_iff.mp count).1
    exact List.count_eq_zero.mp none_sent received
  · rw [sentTo_eq whole, flatMap_text]

/-- One to whom nothing is owed has been sent all that the others have said since it joined, until
it left. -/
theorem sentTo_since_join (account : Account said sends history owed)
    (whole : ∀ sent ∈ sends, talk[sent.number]?.map Prod.snd = some (payload sent.call))
    (room : Relation.ReflTransGen Room.Step [] history) {d : ι} (nothing_owed : owed d = [])
    {before after : List (Event ι ℕ)} (split : history = before ++ .join d :: after) :
    sentTo payload sends d =
      (Room.others d (after.takeWhile (Room.remains d))).flatMap (text talk) := by
  have order := account.order d
  rw [split] at room order
  obtain ⟨first, last⟩ := Room.join_once room
  rw [nothing_owed, List.append_nil, Room.heard_of_joined first last] at order
  rw [sentTo_eq whole, order]

end Account

end SocketChat.Lib.Conversation
