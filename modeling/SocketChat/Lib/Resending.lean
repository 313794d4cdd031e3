/- SocketChat/Lib/Resending
   digest: A loop that sends what its buffer holds, whether `fgets` has read a piece or not. -/

import SocketChat.Lib.Lines
import SocketChat.Lib.Runs

set_option autoImplicit false
set_option relaxedAutoImplicit false

namespace SocketChat.Lib.Resending

open SocketChat.Lib.CString
open SocketChat.Lib.Lines
open SocketChat.Lib.Runs

universe u v

/-- What so many turns of the loop send, where the buffer holds this string at first. -/
def resends (size : ℕ) : ℕ → List Byte → List Byte → List (List Byte)
  | 0, _, _ => []
  | turns + 1, held, input =>
      match fgets size input with
      | none => held :: resends size turns held input
      | some (piece, rest) => piece :: resends size turns piece rest

section Resends

variable {size turns : ℕ} {held input piece rest : List Byte}

private theorem resends_nil (turns : ℕ) :
    resends size turns held [] = List.replicate turns held := by
  induction turns with
  | zero => rfl
  | succ turns ih =>
    rw [resends, List.replicate_succ, ← ih]
    rfl

private theorem resends_of_fgets (typed : fgets size input = some (piece, rest)) :
    resends size (turns + 1) held input = piece :: resends size turns piece rest := by
  rw [resends, typed]

private theorem take_resends (more : ℕ) :
    (resends size (turns + more) held input).take turns = resends size turns held input := by
  induction turns generalizing held input with
  | zero => rfl
  | succ turns ih =>
    rw [Nat.succ_add, resends, resends]
    split <;> rw [List.take_succ_cons, ih]

private theorem resends_eq (two : 2 ≤ size) : resends size turns held input =
    (pieces size input).take turns ++
      List.replicate (turns - (pieces size input).length)
        ((pieces size input).getLastD held) := by
  induction turns generalizing held input with
  | zero => simp [resends]
  | succ turns ih =>
    cases typed : fgets size input with
    | none =>
      obtain rfl := fgets_eq_none.mp typed
      rw [resends_nil, pieces_nil]
      rfl
    | some both =>
      obtain ⟨piece, rest⟩ := both
      rw [resends_of_fgets typed, ih, pieces_of_fgets two typed, List.take_succ_cons,
        List.length_cons, Nat.add_sub_add_right, List.cons_append, List.getLastD_cons]

theorem mem_pieces_of_resent (two : 2 ≤ size) (more : input ≠ []) {calls again : ℕ}
    (sent : piece ∈ (pieces size input).take calls ++
      List.replicate again ((pieces size input).getLastD [])) : piece ∈ pieces size input := by
  rcases List.mem_append.mp sent with first | last
  · exact List.mem_of_mem_take first
  · obtain ⟨_, rfl⟩ := List.mem_replicate.mp last
    obtain ⟨⟨head, rest⟩, typed⟩ := Option.ne_none_iff_exists'.mp (mt fgets_eq_none.mp more)
    rw [pieces_of_fgets two typed, List.getLastD_cons]
    exact List.getLastD_mem_cons

end Resends

structure Typing where
  sending : Bool
  buffer : List Byte
  stdin : List Byte
  sent : List (List Byte)

inductive Turn
  | fgets
  | send (beyond : List Byte)

/-- One call of the loop; the result of `fgets` is not looked at. -/
def step (size : ℕ) (t : Typing) : Turn → Option Typing
  | .fgets =>
      if t.sending then none
      else
        match fgets size t.stdin with
        | none => some { t with sending := true }
        | some (piece, rest) => some
            { t with sending := true, buffer := overwrite t.buffer (piece ++ [0]), stdin := rest }
  | .send beyond =>
      if t.sending then
        some { t with sending := false, sent := t.sent ++ [cstr (t.buffer ++ beyond)] }
      else none

/-- What the buffer holds is or will be the string that the loop sends next. -/
structure Follows (size : ℕ) (input : List Byte) (t : Typing) (held : List Byte) : Prop where
  text : t.sending = true ∨ t.stdin = [] → ∀ beyond, cstr (t.buffer ++ beyond) = held
  nul_free : 0 ∉ t.stdin
  coming : ∀ turns,
    t.sent ++ (if t.sending then [held] else []) ++ resends size turns held t.stdin =
      resends size (t.sent.length + (if t.sending then 1 else 0) + turns) [] input

section Run

variable {size : ℕ} {input held : List Byte} {t u : Typing} {a : Turn}

private theorem follows_start (nul_free : 0 ∉ input) (more : input ≠ []) (stack : List Byte) :
    Follows size input ⟨false, stack, input, []⟩ [] := by
  refine ⟨?_, nul_free, ?_⟩
  · rintro (sending | ended)
    · cases sending
    · exact absurd ended more
  · intro turns
    simp

private theorem follows_fgets (h : Follows size input t held)
    (taken : step size t .fgets = some u) :
    ∃ held', Follows size input u held' := by
  rw [step] at taken
  split at taken
  · cases taken
  · rename_i before
    have waiting : t.sending = false := Bool.eq_false_iff.mpr before
    have coming := fun turns => h.coming (turns + 1)
    simp only [waiting, Bool.false_eq_true, if_false, List.append_nil, Nat.add_zero] at coming
    split at taken
    · rename_i ended
      obtain rfl := Option.some.inj taken
      have none_left : t.stdin = [] := fgets_eq_none.mp ended
      refine ⟨held, fun _ => h.text (Or.inr none_left), h.nul_free, ?_⟩
      intro turns
      have next := coming turns
      rw [none_left, resends_nil, List.replicate_succ] at next
      simp only [if_true, none_left, resends_nil, List.append_assoc, List.singleton_append]
      rw [next]
      congr 1
      omega
    · rename_i piece rest typed
      obtain rfl := Option.some.inj taken
      have whole := fgets_append typed
      have clean : 0 ∉ piece ∧ 0 ∉ rest := by
        have nul_free := h.nul_free
        rw [← whole, List.mem_append, not_or] at nul_free
        exact nul_free
      refine ⟨piece, ?_, clean.2, ?_⟩
      · intro _ beyond
        rw [overwrite, List.append_assoc, List.append_assoc]
        exact cstr_append_zero clean.1 _
      · intro turns
        have next := coming turns
        rw [resends_of_fgets typed] at next
        simp only [if_true, List.append_assoc, List.singleton_append]
        rw [next]
        congr 1
        omega

private theorem follows_send (h : Follows size input t held) {beyond : List Byte}
    (taken : step size t (.send beyond) = some u) : Follows size input u held := by
  rw [step] at taken
  split at taken
  · rename_i sending
    obtain rfl := Option.some.inj taken
    have text := h.text (Or.inl sending)
    refine ⟨fun _ => text, h.nul_free, ?_⟩
    intro turns
    have now := h.coming turns
    simp only [sending, if_true] at now
    simp only [text, Bool.false_eq_true, if_false, List.append_nil, List.length_append,
      List.length_singleton, Nat.add_zero]
    exact now
  · cases taken

private theorem follows_run {as : List Turn} (h : Follows size input t held)
    (taken : exec (step size) t as = some u) : ∃ held', Follows size input u held' := by
  refine invariant_of_step_reach (P := fun t => ∃ held, Follows size input t held) ?_ ⟨held, h⟩
    ⟨as, taken⟩
  rintro s a t ⟨held, here⟩ moved
  cases a with
  | fgets => exact follows_fgets here moved
  | send beyond => exact ⟨held, follows_send here moved⟩

private theorem sent_eq (two : 2 ≤ size) (nul_free : 0 ∉ input) (more : input ≠ [])
    {stack : List Byte} {as : List Turn}
    (taken : exec (step size) ⟨false, stack, input, []⟩ as = some t) :
    t.sent = (pieces size input).take t.sent.length ++
      List.replicate (t.sent.length - (pieces size input).length)
        ((pieces size input).getLastD []) := by
  obtain ⟨held, follows⟩ := follows_run (follows_start nul_free more stack) taken
  have all := congrArg (List.take t.sent.length) (follows.coming 0)
  rw [List.append_assoc, List.take_left, Nat.add_assoc, take_resends] at all
  rw [← resends_eq two]
  exact all

theorem sent_eq_of_view {σ : Type u} {α : Type v} {step' : σ → α → Option σ} {view : σ → Typing}
    {own : α → Option Turn}
    (moves : ∀ s a b t, own a = some b → step' s a = some t → step size (view s) b = some (view t))
    (stays : ∀ s a t, own a = none → step' s a = some t → view t = view s)
    (two : 2 ≤ size) (nul_free : 0 ∉ input) (more : input ≠ []) {stack : List Byte} {s t : σ}
    (start : view s = ⟨false, stack, input, []⟩) (run : Reach step' s t) :
    (view t).sent = (pieces size input).take (view t).sent.length ++
      List.replicate ((view t).sent.length - (pieces size input).length)
        ((pieces size input).getLastD []) := by
  obtain ⟨as, taken⟩ := run
  have alone := exec_viewMap moves stays taken
  rw [start] at alone
  exact sent_eq two nul_free more alone

end Run

section Wish

variable {σ : Type u} {α : Type v} {step : σ → α → Option σ} {up : σ → α → Prop} {s₀ : σ}
  {sent : σ → List (List Byte)} {pieces : List (List Byte)}

/-- What is wished of such a loop in the runs that meet the guard: it sends the pieces in
order and each once, it gets to the last one, and then it is over. -/
structure SendsTyped (step : σ → α → Option σ) (up : σ → α → Prop) (s₀ : σ)
    (sent : σ → List (List Byte)) (pieces : List (List Byte)) : Prop where
  front : ∀ s, ReachWhere step up s₀ s → sent s <+: pieces
  ends : ∀ s, ReachWhere step up s₀ s → ∃ t, ReachWhere step up s t ∧ sent t = pieces ∧
    ∀ u, ReachWhere step up t u → sent u = sent t

theorem not_sendsTyped_of_progress {I : σ → Prop} (start : I s₀)
    (progress : ∀ s, I s → ∃ t, ReachWhere step up s t ∧ I t ∧
      (sent s).length < (sent t).length) : ¬SendsTyped step up s₀ sent pieces := by
  intro wish
  obtain ⟨t, run, _, far⟩ := exists_far_of_progress progress start (pieces.length + 1)
  have short := (wish.front t run).length_le
  omega

end Wish

end SocketChat.Lib.Resending
