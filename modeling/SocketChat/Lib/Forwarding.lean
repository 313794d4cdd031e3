/- SocketChat/Lib/Forwarding
   digest: The bytes sent to one on behalf of another, against the chunks that were received. -/

import SocketChat.Lib.Deliveries

set_option autoImplicit false
set_option relaxedAutoImplicit false

namespace SocketChat.Lib.Forwarding

open SocketChat.Lib.Deliveries

universe u v w

variable {ι : Type u} {β : Type v} {γ : Type w} [DecidableEq ι]

def senderOf (said : List (Said ι)) (number : ℕ) : Option ι := said[number]?.map Said.sender

/-- All that was sent to `d` of the messages of `c`. -/
def forwarded (text : β → List γ) (said : List (Said ι)) (sends : List (Sent ι β)) (c d : ι) :
    List γ :=
  (sends.filter fun sent => sent.reached = some d ∧ senderOf said sent.number = some c).flatMap
    fun sent => text sent.call

/-- All that was received from `c` while `d` was there. -/
def spoken (said : List (Said ι)) (chunks : List (List γ)) (c d : ι) : List γ :=
  ((said.zip chunks).filter fun e => e.1.sender = c ∧ d ∈ e.1.members).flatMap Prod.snd

variable {text : β → List γ} {said : List (Said ι)} {chunks : List (List γ)}
  {sends new : List (Sent ι β)} {e : Said ι} {chunk : List γ} {c d : ι}

omit [DecidableEq ι] in
private theorem senderOf_append {k : ℕ} (earlier : k < said.length) :
    senderOf (said ++ [e]) k = senderOf said k := by
  rw [senderOf, List.getElem?_append_left earlier]
  rfl

omit [DecidableEq ι] in
private theorem senderOf_last : senderOf (said ++ [e]) said.length = some e.sender := by
  rw [senderOf, List.getElem?_concat_length]
  rfl

private theorem forwarded_say (before : ∀ sent ∈ sends, sent.number < said.length)
    (last : ∀ sent ∈ new, sent.number = said.length) :
    forwarded text (said ++ [e]) (sends ++ new) c d = forwarded text said sends c d ++
      if e.sender = c then
        (new.filter fun sent => sent.reached = some d).flatMap fun sent => text sent.call
      else [] := by
  have old : (sends.filter fun sent =>
      sent.reached = some d ∧ senderOf (said ++ [e]) sent.number = some c) =
        sends.filter fun sent => sent.reached = some d ∧ senderOf said sent.number = some c := by
    apply List.filter_congr
    intro sent hsent
    rw [senderOf_append (before sent hsent)]
  rw [forwarded, forwarded, List.filter_append, List.flatMap_append, old]
  congr 1
  by_cases mine : e.sender = c
  · rw [if_pos mine]
    congr 1
    apply List.filter_congr
    intro sent hsent
    rw [last sent hsent, senderOf_last, mine]
    simp
  · rw [if_neg mine, List.flatMap_eq_nil_iff]
    intro sent hsent
    obtain ⟨among, kept⟩ := List.mem_filter.mp hsent
    rw [last sent among, senderOf_last] at kept
    simp [mine] at kept

private theorem spoken_say (sized : chunks.length = said.length) :
    spoken (said ++ [e]) (chunks ++ [chunk]) c d = spoken said chunks c d ++
      if e.sender = c ∧ d ∈ e.members then chunk else [] := by
  rw [spoken, List.zip_append sized.symm, List.filter_append, List.flatMap_append, spoken]
  congr 1
  by_cases mine : e.sender = c ∧ d ∈ e.members
  · simp [mine]
  · rw [if_neg mine]
    simp [mine]

theorem streams_say (sized : chunks.length = said.length)
    (before : ∀ sent ∈ sends, sent.number < said.length)
    (last : ∀ sent ∈ new, sent.number = said.length) (whole : ∀ sent ∈ new, text sent.call = chunk)
    (once : ∀ d, d ≠ e.sender →
      new.countP (fun sent => sent.reached = some d) = if d ∈ e.members then 1 else 0)
    (streams : ∀ c d, d ≠ c → forwarded text said sends c d = spoken said chunks c d)
    (apart : d ≠ c) :
    forwarded text (said ++ [e]) (sends ++ new) c d =
      spoken (said ++ [e]) (chunks ++ [chunk]) c d := by
  rw [forwarded_say before last, spoken_say sized, streams c d apart]
  congr 1
  by_cases mine : e.sender = c
  · subst mine
    have count := once d apart
    rw [List.countP_eq_length_filter] at count
    rw [if_pos rfl]
    by_cases there : d ∈ e.members
    · rw [if_pos there, List.length_eq_one_iff] at count
      obtain ⟨sent, only⟩ := count
      have among : sent ∈ new := by
        have held : sent ∈ new.filter fun sent => sent.reached = some d := by
          rw [only]
          exact List.mem_singleton_self sent
        exact (List.mem_filter.mp held).1
      rw [only, if_pos ⟨rfl, there⟩, List.flatMap_singleton, whole sent among]
    · rw [if_neg there, List.length_eq_zero_iff] at count
      rw [count, if_neg fun both => there both.2]
      rfl
  · rw [if_neg mine, if_neg fun both => mine both.1]

end SocketChat.Lib.Forwarding
