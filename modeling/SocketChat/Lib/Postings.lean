/- SocketChat/Lib/Postings
   digest: Messages as they were handed out, and the calls that carry them to their readers. -/

import SocketChat.Lib.Deliveries
import SocketChat.Lib.SlotTable

set_option autoImplicit false
set_option relaxedAutoImplicit false

namespace SocketChat.Lib.Postings

open SocketChat.Lib.Deliveries
open SocketChat.Lib.Room (Event)
open SocketChat.Lib.SlotTable (occupants)

universe u v w

/-- A message when it is handed out: the entry of the table that it is from, the table, what the
entries stand for at that time, and the text. -/
structure Posting (α : Type u) (ι : Type v) (μ : Type w) where
  sender : α
  table : List α
  behind : α → Option ι
  text : μ

variable {α : Type u} {ι : Type v} {μ : Type w} {β : Type u}

/-- A call with a message is given its text, and an entry of its table that stands for somebody and
is not the one the message is from. -/
structure Posting.Carries (free : α) (p : Posting α ι μ) (entry : α) (text : μ) : Prop where
  listed : entry ∈ p.table
  used : entry ≠ free
  other : entry ≠ p.sender
  reaches : (p.behind entry).isSome
  same : text = p.text

variable [DecidableEq α]

def Posting.members (free : α) (p : Posting α ι μ) : List ι :=
  (occupants free p.table).filterMap p.behind

variable [DecidableEq ι]

def callsTo (entry : β → α) (sends : List (Sent ι β)) (k : ℕ) (p : Posting α ι μ) (c : ι) : ℕ :=
  sends.countP fun sent => sent.number = k ∧ p.behind (entry sent.call) = some c

/-- The messages of an account are those that were handed out, and each send of it is a call that
carries the message of its number to whom it says. -/
structure Ledger (free : α) (entry : β → α) (text : β → μ) (postings : List (Posting α ι μ))
    (said : List (Said ι)) (sends : List (Sent ι β)) : Prop where
  entries : said.map some =
    postings.map fun p => (p.behind p.sender).map fun b => ⟨b, p.members free⟩
  carried : ∀ sent ∈ sends, ∃ p, postings[sent.number]? = some p ∧
    p.Carries free (entry sent.call) (text sent.call) ∧ sent.reached = p.behind (entry sent.call)

section Ledger

variable {free : α} {entry : β → α} {text : β → μ} {postings : List (Posting α ι μ)}
  {said : List (Said ι)} {sends : List (Sent ι β)} {p : Posting α ι μ} {b : ι} {k : ℕ}

omit [DecidableEq ι] in
theorem ledger_nil : Ledger free entry text ([] : List (Posting α ι μ)) [] [] where
  entries := rfl
  carried := by
    intro sent none_there
    cases none_there

omit [DecidableEq ι] in
theorem Ledger.post (h : Ledger free entry text postings said sends)
    (mine : p.behind p.sender = some b) :
    Ledger free entry text (postings ++ [p]) (said ++ [⟨b, p.members free⟩]) sends where
  entries := by
    rw [List.map_append, List.map_append, h.entries, List.map_singleton, List.map_singleton, mine]
    rfl
  carried := by
    intro sent hsent
    obtain ⟨q, posted, carries, reached⟩ := h.carried sent hsent
    have inside := (List.getElem?_eq_some_iff.mp posted).1
    exact ⟨q, (List.getElem?_append_left inside).trans posted, carries, reached⟩

omit [DecidableEq ι] in
theorem Ledger.serve (h : Ledger free entry text postings said sends) {new : List (Sent ι β)}
    (served : ∀ sent ∈ new, ∃ p, postings[sent.number]? = some p ∧
      p.Carries free (entry sent.call) (text sent.call) ∧
        sent.reached = p.behind (entry sent.call)) :
    Ledger free entry text postings said (sends ++ new) where
  entries := h.entries
  carried := by
    intro sent hsent
    rcases List.mem_append.mp hsent with old | fresh
    · exact h.carried sent old
    · exact served sent fresh

omit [DecidableEq ι] in
theorem Ledger.length_eq (h : Ledger free entry text postings said sends) :
    said.length = postings.length := by
  have sizes := congrArg List.length h.entries
  rwa [List.length_map, List.length_map] at sizes

omit [DecidableEq ι] in
theorem Ledger.entry_of_posted (h : Ledger free entry text postings said sends)
    (posted : postings[k]? = some p) :
    ∃ b, p.behind p.sender = some b ∧ said[k]? = some ⟨b, p.members free⟩ := by
  have place := congrArg (fun entries => entries[k]?) h.entries
  rw [List.getElem?_map, List.getElem?_map, posted] at place
  obtain ⟨e, here, same⟩ := Option.map_eq_some_iff.mp place
  obtain ⟨b, mine, rfl⟩ := Option.map_eq_some_iff.mp same.symm
  exact ⟨b, mine, here⟩

omit [DecidableEq ι] in
theorem Ledger.posted_of_entry (h : Ledger free entry text postings said sends) {e : Said ι}
    (here : said[k]? = some e) :
    ∃ p, postings[k]? = some p ∧ p.behind p.sender = some e.sender := by
  have place := congrArg (fun entries => entries[k]?) h.entries
  rw [List.getElem?_map, List.getElem?_map, here] at place
  obtain ⟨p, posted, same⟩ := Option.map_eq_some_iff.mp place.symm
  obtain ⟨b, mine, rfl⟩ := Option.map_eq_some_iff.mp same
  exact ⟨p, posted, mine⟩

/-- The sends to `c` are the calls on what stood for `c` when the message was handed out. -/
theorem Ledger.callsTo_eq (h : Ledger free entry text postings said sends)
    (posted : postings[k]? = some p) (c : ι) :
    callsTo entry sends k p c = sendsTo sends k c := by
  apply List.countP_congr
  intro sent hsent
  obtain ⟨q, there, _, reached⟩ := h.carried sent hsent
  rw [decide_eq_true_iff, decide_eq_true_iff]
  apply and_congr_right
  rintro rfl
  obtain rfl := Option.some.inj (posted.symm.trans there)
  rw [reached]

theorem Ledger.once (h : Ledger free entry text postings said sends)
    {history : List (Event ι ℕ)} {owed : ι → List ℕ} (account : Account said sends history owed)
    (posted : postings[k]? = some p) (c : ι) :
    callsTo entry sends k p c + (owed c).count k =
      if c ∈ p.members free ∧ p.behind p.sender ≠ some c then 1 else 0 := by
  obtain ⟨b, mine, here⟩ := h.entry_of_posted posted
  rw [h.callsTo_eq posted, account.once k _ here c, mine]
  apply if_congr _ rfl rfl
  apply and_congr_right
  intro _
  constructor
  · intro other same
    exact other (Option.some.inj same).symm
  · intro other same
    exact other (congrArg some same.symm)

end Ledger

end SocketChat.Lib.Postings
