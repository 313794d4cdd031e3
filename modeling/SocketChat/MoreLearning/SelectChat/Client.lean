/- SocketChat/MoreLearning/SelectChat/Client
   digest: The select loop of TCP_CHAT/Brodcast/Client.c, with the buffer `fgets` reads from. -/

import SocketChat.Lib.Buffered
import SocketChat.Lib.History
import SocketChat.Lib.Runs

set_option autoImplicit false
set_option relaxedAutoImplicit false

namespace SocketChat.MoreLearning.SelectChat.Client

open SocketChat.Lib.Buffered
open SocketChat.Lib.CString
open SocketChat.Lib.History
open SocketChat.Lib.Lines (pieces newline pieces_of_fgets fgets_append)
open SocketChat.Lib.Runs

def BUFFER_SIZE : ℕ := 256

/-- Before `select`; before `recv`, with what `select` has said of the keyboard; in `fgets`, with
the part of the line that it has; before `send`; or out of the loop. -/
inductive Point
  | select
  | recv (keyboard : Bool)
  | fgets (line : List Byte)
  | send (buffer : List Byte)
  | left
deriving DecidableEq

/-- `kernel` is what has been typed and not been read by the process, `stdio` what `stdin` holds of
what was read; `ended` tells whether the user has closed the input. -/
structure State where
  point : Point
  kernel : List Byte
  ended : Bool
  stdio : List Byte
  shown : List (List Byte)
  sends : List (List Byte)
deriving DecidableEq

def init : State := ⟨.select, [], false, [], [], []⟩

def next (keyboard : Bool) : Point := if keyboard then .fgets [] else .select

/-- `refill` is the `read` of `fgets` when `stdin` holds nothing, and `endOfFile` one that returns
0. A `select` that fails leaves both descriptors set. -/
inductive Action
  | type (bytes : List Byte)
  | close
  | select (sock keyboard : Bool)
  | selectFails
  | recv (got beyond : List Byte)
  | fgets
  | refill (k : ℕ)
  | endOfFile
  | send
  | sendFails (taken : ℕ)
deriving DecidableEq

/-- `recv` returns nothing, or fails, and the loop ends, or a chunk, printed as a string. -/
def recv (s : State) (keyboard : Bool) (got beyond : List Byte) : Option State :=
  if got = [] then some { s with point := .left }
  else if got.length ≤ BUFFER_SIZE then
    let buffer := overwrite (List.replicate BUFFER_SIZE 0) got
    some { s with
      point := next keyboard
      shown := s.shown ++ [lit "Msg: ".toList ++ cstr (buffer ++ beyond)] }
  else none

/-- `fgets` looks through what `stdin` holds, up to a newline or as far as there is room. -/
def fgets (s : State) (line : List Byte) : Option State :=
  if s.stdio = [] then none
  else
    let now := advance (BUFFER_SIZE - 1) line s.stdio
    some { s with
      point := if Full (BUFFER_SIZE - 1) now.1 then .send now.1 else .fgets now.1
      stdio := now.2 }

def step (s : State) : Action → Option State
  | .type bytes =>
      if s.ended = false then some { s with kernel := s.kernel ++ bytes } else none
  | .close => some { s with ended := true }
  | .select sock keyboard =>
      if s.point = .select ∧ (sock = true ∨ keyboard = true) ∧
          (keyboard = true → s.kernel ≠ [] ∨ s.ended = true) then
        some { s with point := if sock then .recv keyboard else next keyboard }
      else none
  | .selectFails => if s.point = .select then some { s with point := .recv true } else none
  | .recv got beyond =>
      match s.point with
      | .recv keyboard => recv s keyboard got beyond
      | _ => none
  | .fgets =>
      match s.point with
      | .fgets line => fgets s line
      | _ => none
  | .refill k =>
      match s.point with
      | .fgets _ =>
          if s.stdio = [] ∧ 0 < k ∧ k ≤ s.kernel.length then
            some { s with stdio := s.kernel.take k, kernel := s.kernel.drop k }
          else none
      | _ => none
  | .endOfFile =>
      match s.point with
      | .fgets line =>
          if s.stdio = [] ∧ s.kernel = [] ∧ s.ended = true then some { s with point := .send line }
          else none
      | _ => none
  | .send =>
      match s.point with
      | .send buffer => some { s with point := .select, sends := s.sends ++ [cstr buffer] }
      | _ => none
  | .sendFails taken =>
      match s.point with
      | .send buffer =>
          if taken ≤ (cstr buffer).length then
            some { s with point := .select, sends := s.sends ++ [(cstr buffer).take taken] }
          else none
      | _ => none

inductive Took (s : State) : Action → State → Prop
  | typed (bytes : List Byte) (going : s.ended = false) :
      Took s (.type bytes) { s with kernel := s.kernel ++ bytes }
  | closed : Took s .close { s with ended := true }
  | selected (sock keyboard : Bool) (here : s.point = .select)
      (ready : keyboard = true → s.kernel ≠ [] ∨ s.ended = true) :
      Took s (.select sock keyboard)
        { s with point := if sock then .recv keyboard else next keyboard }
  | selectFailed (here : s.point = .select) : Took s .selectFails { s with point := .recv true }
  | leaves (keyboard : Bool) (beyond : List Byte) (here : s.point = .recv keyboard) :
      Took s (.recv [] beyond) { s with point := .left }
  | received (keyboard : Bool) (got beyond : List Byte) (here : s.point = .recv keyboard)
      (some_bytes : got ≠ []) (room : got.length ≤ BUFFER_SIZE) :
      Took s (.recv got beyond) { s with
        point := next keyboard
        shown := s.shown ++ [lit "Msg: ".toList ++
          cstr (overwrite (List.replicate BUFFER_SIZE 0) got ++ beyond)] }
  | filled (line : List Byte) (here : s.point = .fgets line) (more : s.stdio ≠ [])
      (full : Full (BUFFER_SIZE - 1) (advance (BUFFER_SIZE - 1) line s.stdio).1) :
      Took s .fgets { s with
        point := .send (advance (BUFFER_SIZE - 1) line s.stdio).1
        stdio := (advance (BUFFER_SIZE - 1) line s.stdio).2 }
  | scanned (line : List Byte) (here : s.point = .fgets line) (more : s.stdio ≠ [])
      (not_full : ¬Full (BUFFER_SIZE - 1) (advance (BUFFER_SIZE - 1) line s.stdio).1) :
      Took s .fgets { s with
        point := .fgets (advance (BUFFER_SIZE - 1) line s.stdio).1
        stdio := (advance (BUFFER_SIZE - 1) line s.stdio).2 }
  | refilled (line : List Byte) (k : ℕ) (here : s.point = .fgets line) (empty : s.stdio = [])
      (some_bytes : 0 < k) (there : k ≤ s.kernel.length) :
      Took s (.refill k) { s with stdio := s.kernel.take k, kernel := s.kernel.drop k }
  | endOfFile (line : List Byte) (here : s.point = .fgets line) (empty : s.stdio = [])
      (none_left : s.kernel = []) (at_end : s.ended = true) :
      Took s .endOfFile { s with point := .send line }
  | sent (buffer : List Byte) (here : s.point = .send buffer) :
      Took s .send { s with point := .select, sends := s.sends ++ [cstr buffer] }
  | sendFailed (buffer : List Byte) (taken : ℕ) (here : s.point = .send buffer) :
      Took s (.sendFails taken)
        { s with point := .select, sends := s.sends ++ [(cstr buffer).take taken] }

theorem took_of_step {s t : State} {a : Action} (taken : step s a = some t) : Took s a t := by
  cases a with
  | type bytes =>
    simp only [step, Option.ite_none_right_eq_some, Option.some.injEq] at taken
    obtain ⟨going, rfl⟩ := taken
    exact .typed bytes going
  | close =>
    obtain rfl := Option.some.inj taken
    exact .closed
  | select sock keyboard =>
    simp only [step, Option.ite_none_right_eq_some, Option.some.injEq] at taken
    obtain ⟨⟨here, _, ready⟩, rfl⟩ := taken
    exact .selected sock keyboard here ready
  | selectFails =>
    simp only [step, Option.ite_none_right_eq_some, Option.some.injEq] at taken
    obtain ⟨here, rfl⟩ := taken
    exact .selectFailed here
  | recv got beyond =>
    simp only [step] at taken
    split at taken
    · rename_i keyboard here
      unfold recv at taken
      split at taken
      · rename_i nothing
        cases taken
        subst nothing
        exact .leaves keyboard beyond here
      · rename_i some_bytes
        split at taken
        · rename_i room
          cases taken
          exact .received keyboard got beyond here some_bytes room
        · cases taken
    · cases taken
  | fgets =>
    simp only [step] at taken
    split at taken
    · rename_i line here
      unfold fgets at taken
      split at taken
      · cases taken
      · rename_i more
        cases taken
        by_cases full : Full (BUFFER_SIZE - 1) (advance (BUFFER_SIZE - 1) line s.stdio).1
        · rw [if_pos full]
          exact .filled line here more full
        · rw [if_neg full]
          exact .scanned line here more full
    · cases taken
  | refill k =>
    simp only [step] at taken
    split at taken
    · rename_i line here
      split at taken
      · rename_i room
        cases taken
        exact .refilled line k here room.1 room.2.1 room.2.2
      · cases taken
    · cases taken
  | endOfFile =>
    simp only [step] at taken
    split at taken
    · rename_i line here
      split at taken
      · rename_i at_end
        cases taken
        exact .endOfFile line here at_end.1 at_end.2.1 at_end.2.2
      · cases taken
    · cases taken
  | send =>
    simp only [step] at taken
    split at taken
    · rename_i buffer here
      cases taken
      exact .sent buffer here
    · cases taken
  | sendFails k =>
    simp only [step] at taken
    split at taken
    · rename_i buffer here
      split at taken
      · cases taken
        exact .sendFailed buffer k here
      · cases taken
    · cases taken

def note (_ : State) : Action → List Byte → List Byte
  | .type bytes, typed => typed ++ bytes
  | _, typed => typed

abbrev Noted := State × List Byte

def start : Noted := (init, [])

def begun : Point → List Byte
  | .fgets line => line
  | _ => []

def sending : Point → List (List Byte)
  | .send buffer => [buffer].filter fun piece => piece ≠ []
  | _ => []

def sent (s : State) : List (List Byte) := s.sends.filter fun piece => piece ≠ []

def unread (s : State) : List Byte := begun s.point ++ s.stdio ++ s.kernel

/-- No NUL is typed and no `send` fails. -/
def Sound (_ : Noted) : Action → Prop
  | .type bytes => 0 ∉ bytes
  | .sendFails _ => False
  | _ => True

/-- What is sent is what has been typed, cut as `fgets` would cut it if it were there at once. -/
structure Cut (m : Noted) : Prop where
  whole : (sent m.1 ++ sending m.1.point).flatten ++ unread m.1 = m.2
  cut : sent m.1 ++ sending m.1.point ++ pieces BUFFER_SIZE (unread m.1) = pieces BUFFER_SIZE m.2
  settled : m.1.ended = false →
    ∀ piece ∈ sent m.1 ++ sending m.1.point, Settled BUFFER_SIZE piece
  open_yet : Open (BUFFER_SIZE - 1) (begun m.1.point)
  nul_free : 0 ∉ m.2

theorem cut_start : Cut start where
  whole := rfl
  cut := rfl
  settled := fun _ piece none_there => absurd none_there List.not_mem_nil
  open_yet := open_nil (by decide)
  nul_free := List.not_mem_nil

section Steps

variable {s t : State} {typed : List Byte} {a : Action}

private theorem cut_kept (h : Cut (s, typed)) (sends : t.sends = s.sends)
    (sending_same : sending t.point = sending s.point) (left : unread t = unread s)
    (open_yet : Open (BUFFER_SIZE - 1) (begun t.point))
    (at_end : t.ended = false → s.ended = false) : Cut (t, typed) := by
  have out : sent t ++ sending t.point = sent s ++ sending s.point := by
    rw [sent, sends, sending_same]
    rfl
  refine ⟨?_, ?_, ?_, open_yet, h.nul_free⟩
  · rw [out, left]
    exact h.whole
  · rw [out, left]
    exact h.cut
  · intro going
    rw [out]
    exact h.settled (at_end going)

private theorem cut_still (h : Cut (s, typed)) (sends : t.sends = s.sends)
    (sending_same : sending t.point = sending s.point) (begun_same : begun t.point = begun s.point)
    (bytes : t.stdio ++ t.kernel = s.stdio ++ s.kernel)
    (at_end : t.ended = false → s.ended = false) : Cut (t, typed) := by
  refine cut_kept h sends sending_same ?_ ?_ at_end
  · rw [unread, unread, begun_same, List.append_assoc, bytes, List.append_assoc]
  · rw [begun_same]
    exact h.open_yet

private theorem next_quiet (keyboard : Bool) :
    sending (next keyboard) = [] ∧ begun (next keyboard) = [] := by
  cases keyboard
  · exact ⟨rfl, rfl⟩
  · exact ⟨rfl, rfl⟩

private theorem cut_typed (h : Cut (s, typed)) {bytes : List Byte} (nul_free : 0 ∉ bytes)
    (going : s.ended = false) : Cut ({ s with kernel := s.kernel ++ bytes }, typed ++ bytes) := by
  have more : unread { s with kernel := s.kernel ++ bytes } = unread s ++ bytes :=
    (List.append_assoc ..).symm
  have whole : (sent s ++ sending s.point).flatten ++ (unread s ++ bytes) = typed ++ bytes := by
    rw [← List.append_assoc]
    exact congrArg (· ++ bytes) h.whole
  refine ⟨?_, ?_, h.settled, h.open_yet, ?_⟩
  · rw [more]
    exact whole
  · rw [more, ← whole]
    exact (pieces_of_settled (by decide) (h.settled going) _).symm
  · rw [List.mem_append, not_or]
    exact ⟨h.nul_free, nul_free⟩

private theorem cut_taken (h : Cut (s, typed)) (quiet : sending s.point = [])
    {piece rest : List Byte} (some_bytes : piece ≠ [])
    (typed_next : Lib.Lines.fgets BUFFER_SIZE (unread s) = some (piece, rest))
    (sends : t.sends = s.sends) (here : t.point = .send piece) (left : unread t = rest)
    (settled : t.ended = false → s.ended = false ∧ Settled BUFFER_SIZE piece) :
    Cut (t, typed) := by
  have out : sent t ++ sending t.point = sent s ++ sending s.point ++ [piece] := by
    rw [quiet, List.append_nil, sent, sends, here, sending,
      List.filter_cons_of_pos (by simpa using some_bytes), List.filter_nil]
    rfl
  refine ⟨?_, ?_, ?_, ?_, h.nul_free⟩
  · rw [out, left, List.flatten_append, List.flatten_singleton, List.append_assoc,
      fgets_append typed_next]
    exact h.whole
  · rw [out, left, List.append_assoc, List.singleton_append,
      ← pieces_of_fgets (by decide) typed_next]
    exact h.cut
  · intro going
    obtain ⟨before, now⟩ := settled going
    rw [out]
    intro p inside
    rcases List.mem_append.mp inside with earlier | last
    · exact h.settled before p earlier
    · rw [List.mem_singleton.mp last]
      exact now
  · rw [here]
    exact open_nil (by decide)

private theorem cut_sent (h : Cut (s, typed)) {buffer : List Byte} (here : s.point = .send buffer) :
    Cut ({ s with point := .select, sends := s.sends ++ [cstr buffer] }, typed) := by
  have clean : cstr buffer = buffer := by
    apply cstr_of_nul_free
    intro nul
    refine h.nul_free ?_
    have there : buffer ∈ sent s ++ sending s.point := by
      rw [here, sending]
      refine List.mem_append_right _ (List.mem_filter.mpr ⟨List.mem_singleton_self _, ?_⟩)
      exact decide_eq_true (List.ne_nil_of_mem nul)
    rw [← h.whole]
    exact List.mem_append_left _ (List.mem_flatten.mpr ⟨buffer, there, nul⟩)
  have out : sent { s with point := .select, sends := s.sends ++ [cstr buffer] } ++ [] =
      sent s ++ sending s.point := by
    rw [List.append_nil, here, sent, sending, clean, List.filter_append]
    rfl
  have left : unread { s with point := .select, sends := s.sends ++ [cstr buffer] } = unread s := by
    rw [unread, unread, here]
    rfl
  refine ⟨?_, ?_, ?_, open_nil (by decide), h.nul_free⟩
  · rw [left]
    exact (congrArg (fun l => l.flatten ++ unread s) out).trans h.whole
  · rw [left]
    exact (congrArg (· ++ pieces BUFFER_SIZE (unread s)) out).trans h.cut
  · intro going p inside
    exact h.settled going p (out ▸ inside)

private theorem cut_filled (h : Cut (s, typed)) {line : List Byte} (here : s.point = .fgets line)
    (full : Full (BUFFER_SIZE - 1) (advance (BUFFER_SIZE - 1) line s.stdio).1) :
    Cut ({ s with
      point := .send (advance (BUFFER_SIZE - 1) line s.stdio).1
      stdio := (advance (BUFFER_SIZE - 1) line s.stdio).2 }, typed) := by
  have open_yet := h.open_yet
  rw [here] at open_yet
  have settled := fgets_of_full open_yet full
  have split : unread s = (advance (BUFFER_SIZE - 1) line s.stdio).1 ++
      ((advance (BUFFER_SIZE - 1) line s.stdio).2 ++ s.kernel) := by
    rw [← List.append_assoc, advance_append, unread, here]
    rfl
  have some_bytes : (advance (BUFFER_SIZE - 1) line s.stdio).1 ≠ [] := by
    intro nothing
    rw [nothing] at full
    rcases full with last | long
    · cases last
    · cases long
  have first : Lib.Lines.fgets BUFFER_SIZE (unread s) =
      some ((advance (BUFFER_SIZE - 1) line s.stdio).1,
        (advance (BUFFER_SIZE - 1) line s.stdio).2 ++ s.kernel) := by
    rw [split]
    exact settled _
  exact cut_taken h (by rw [here]; rfl) some_bytes first rfl rfl rfl fun going => ⟨going, settled⟩

private theorem cut_scanned (h : Cut (s, typed)) {line : List Byte} (here : s.point = .fgets line)
    (not_full : ¬Full (BUFFER_SIZE - 1) (advance (BUFFER_SIZE - 1) line s.stdio).1) :
    Cut ({ s with
      point := .fgets (advance (BUFFER_SIZE - 1) line s.stdio).1
      stdio := (advance (BUFFER_SIZE - 1) line s.stdio).2 }, typed) := by
  have open_yet := h.open_yet
  rw [here] at open_yet
  obtain ⟨whole, further⟩ := advance_open open_yet not_full
  rw [show begun (.fgets line) = line from rfl] at whole further
  rw [whole]
  refine cut_kept h rfl (by rw [here]; rfl) ?_ further id
  rw [unread, unread, here]
  change line ++ s.stdio ++ [] ++ s.kernel = line ++ s.stdio ++ s.kernel
  rw [List.append_nil]

private theorem cut_ended (h : Cut (s, typed)) {line : List Byte} (here : s.point = .fgets line)
    (empty : s.stdio = []) (none_left : s.kernel = []) (at_end : s.ended = true) :
    Cut ({ s with point := .send line }, typed) := by
  have open_yet := h.open_yet
  rw [here] at open_yet
  have left : unread s = line := by
    rw [unread, here, empty, none_left, List.append_nil, List.append_nil]
    rfl
  have gone : unread { s with point := .send line } = [] := by
    rw [unread, empty, none_left]
    rfl
  by_cases nothing : line = []
  · refine cut_still h rfl ?_ ?_ rfl id
    · rw [here, nothing]
      rfl
    · rw [here, nothing]
      rfl
  · refine cut_taken h (by rw [here]; rfl) nothing ?_ rfl rfl gone fun going => ?_
    · rw [left]
      exact fgets_of_open open_yet nothing
    · change s.ended = false at going
      rw [at_end] at going
      cases going

theorem cut_step (m : Noted) (a : Action) (m' : Noted) (h : Cut m) (sound : Sound m a)
    (taken : remember step note m a = some m') : Cut m' := by
  obtain ⟨s, typed⟩ := m
  obtain ⟨t, typed'⟩ := m'
  obtain ⟨moved, noted⟩ := remember_eq_some.mp taken
  obtain rfl : note s a typed = typed' := noted
  cases took_of_step moved with
  | typed bytes going => exact cut_typed h sound going
  | closed => exact cut_still h rfl rfl rfl rfl fun going => by cases going
  | selected sock keyboard here ready =>
    obtain ⟨quiet, fresh⟩ := next_quiet keyboard
    cases sock with
    | true =>
      exact cut_still h rfl (by rw [here]; rfl) (by rw [here]; rfl) rfl id
    | false =>
      exact cut_still h rfl (quiet.trans (by rw [here]; rfl)) (fresh.trans (by rw [here]; rfl))
        rfl id
  | selectFailed here =>
    exact cut_still h rfl (by rw [here]; rfl) (by rw [here]; rfl) rfl id
  | leaves keyboard beyond here =>
    exact cut_still h rfl (by rw [here]; rfl) (by rw [here]; rfl) rfl id
  | received keyboard got beyond here some_bytes room =>
    obtain ⟨quiet, fresh⟩ := next_quiet keyboard
    exact cut_still h rfl (quiet.trans (by rw [here]; rfl)) (fresh.trans (by rw [here]; rfl))
      rfl id
  | filled line here _ full => exact cut_filled h here full
  | scanned line here more not_full =>
    exact cut_scanned h here not_full
  | refilled line k here empty some_bytes there =>
    refine cut_still h rfl rfl rfl ?_ id
    rw [empty]
    exact List.take_append_drop k s.kernel
  | endOfFile line here empty none_left at_end => exact cut_ended h here empty none_left at_end
  | sent buffer here => exact cut_sent h here
  | sendFailed buffer taken here => exact sound.elim

end Steps

/-- However what is typed comes to the process, and whatever `select` and the server have in
between: the payloads, but for empty ones, are the pieces that `fgets` would cut the whole input
into, each once, and what is not sent yet is all there. -/
theorem sends_pieces_of_typed {m : Noted} (run : ReachWhere (remember step note) Sound start m) :
    sent m.1 <+: pieces BUFFER_SIZE m.2 ∧
      (sent m.1 ++ sending m.1.point).flatten ++ unread m.1 = m.2 := by
  have h := invariant_of_step cut_step cut_start run
  refine ⟨?_, h.whole⟩
  rw [← h.cut, List.append_assoc]
  exact List.prefix_append _ _

/-- The process waits, with nothing of its input left where `select` would find it. -/
structure Unaware (s : State) : Prop where
  waiting : s.point = .select ∨ s.point = .recv false ∨ s.point = .left
  kernel : s.kernel = []
  going : s.ended = false

/-- The user does nothing, and no `select` fails. -/
def Still (_ : State) : Action → Prop
  | .type _ => False
  | .close => False
  | .selectFails => False
  | _ => True

private theorem unaware_step {s t : State} {a : Action} (h : Unaware s) (still : Still s a)
    (taken : step s a = some t) : Unaware t ∧ t.sends = s.sends ∧ t.stdio = s.stdio := by
  obtain ⟨waiting, kernel, going⟩ := h
  have elsewhere : ∀ point, s.point = point → point = .select ∨ point = .recv false ∨
      point = .left := by
    rintro point rfl
    exact waiting
  cases took_of_step taken with
  | typed bytes _ => exact still.elim
  | closed => exact still.elim
  | selectFailed here => exact still.elim
  | selected sock keyboard here ready =>
    cases keyboard with
    | true =>
      rcases ready rfl with more | at_end
      · exact absurd kernel more
      · rw [going] at at_end
        cases at_end
    | false =>
      cases sock with
      | true => exact ⟨⟨.inr (.inl rfl), kernel, going⟩, rfl, rfl⟩
      | false => exact ⟨⟨.inl rfl, kernel, going⟩, rfl, rfl⟩
  | leaves keyboard beyond here => exact ⟨⟨.inr (.inr rfl), kernel, going⟩, rfl, rfl⟩
  | received keyboard got beyond here some_bytes room =>
    rcases elsewhere _ here with other | same | other
    · cases other
    · cases same
      exact ⟨⟨.inl rfl, kernel, going⟩, rfl, rfl⟩
    · cases other
  | filled line here more full => rcases elsewhere _ here with other | other | other <;> cases other
  | scanned line here more open_yet =>
    rcases elsewhere _ here with other | other | other <;> cases other
  | refilled line k here empty some_bytes there =>
    rcases elsewhere _ here with other | other | other <;> cases other
  | endOfFile line here empty none_left at_end =>
    rcases elsewhere _ here with other | other | other <;> cases other
  | sent buffer here => rcases elsewhere _ here with other | other | other <;> cases other
  | sendFailed buffer taken here =>
    rcases elsewhere _ here with other | other | other <;> cases other

/-- Lines that were read together with an earlier one are held back: `select` is not aware of what
`stdin` holds, and nothing of it is sent, whatever the server does, until the user types again. -/
theorem held_back_until_typed {s t : State} (h : Unaware s) (run : ReachWhere step Still s t) :
    Unaware t ∧ t.sends = s.sends ∧ t.stdio = s.stdio := by
  refine invariant_of_step (P := fun u => Unaware u ∧ u.sends = s.sends ∧ u.stdio = s.stdio) ?_
    ⟨h, rfl, rfl⟩ run
  rintro u a v ⟨unaware, sends, stdio⟩ still taken
  obtain ⟨later, sends', stdio'⟩ := unaware_step unaware still taken
  exact ⟨later, sends'.trans sends, stdio'.trans stdio⟩

def Done (s : State) : Prop := s.point = .select ∧ s.stdio = [] ∧ s.kernel = []

def weight : Point → ℕ
  | .select => 2
  | .recv _ => 4
  | .fgets _ => 1
  | .send _ => 3
  | .left => 0

def toDo (s : State) : ℕ := 10 * s.kernel.length + 5 * s.stdio.length + weight s.point

section Progress

variable {s t : State} {typed : List Byte} {a : Action}

private theorem reach_of_step (sound : Sound (s, typed) a) (quiet : note s a typed = typed)
    (taken : step s a = some t) : ReachWhere (remember step note) Sound (s, typed) (t, typed) :=
  .single sound (remember_eq_some.mpr ⟨taken, quiet⟩)

private theorem next_inside (keyboard : Bool) :
    next keyboard ≠ .left ∧ weight (next keyboard) ≤ 2 := by
  cases keyboard
  · exact ⟨Point.noConfusion, by decide⟩
  · exact ⟨Point.noConfusion, by decide⟩

private theorem progress_fgets (h : Cut (s, typed)) (at_end : s.ended = true) {line : List Byte}
    (here : s.point = .fgets line) :
    ∃ t, ReachWhere (remember step note) Sound (s, typed) (t, typed) ∧
      t.ended = true ∧ t.point ≠ .left ∧ (toDo t < toDo s ∨ Done t) := by
  have open_yet := h.open_yet
  rw [here] at open_yet
  by_cases held : s.stdio = []
  · by_cases behind : s.kernel = []
    · have first : step s .endOfFile = some { s with point := .send line } := by
        simp only [step, here, held, behind, at_end, true_and, if_true]
      have second : step { s with point := .send line } .send =
          some { s with point := .select, sends := s.sends ++ [cstr line] } := rfl
      exact ⟨_, (reach_of_step (a := .endOfFile) trivial rfl first).trans
        (reach_of_step (a := .send) trivial rfl second), at_end, Point.noConfusion,
        .inr ⟨rfl, held, behind⟩⟩
    · have pos : 0 < s.kernel.length := List.length_pos_iff.mpr behind
      have taken : step s (.refill 1) =
          some { s with stdio := s.kernel.take 1, kernel := s.kernel.drop 1 } := by
        simp only [step, here]
        exact if_pos ⟨held, Nat.one_pos, pos⟩
      refine ⟨_, reach_of_step (a := .refill 1) trivial rfl taken, at_end, ?_, .inl ?_⟩
      · change s.point ≠ .left
        rw [here]
        exact Point.noConfusion
      · change 10 * (s.kernel.drop 1).length + 5 * (s.kernel.take 1).length + weight s.point < _
        rw [toDo, held, List.length_drop, List.length_take, List.length_nil]
        omega
  · have shorter := advance_shorter open_yet held
    have taken : step s .fgets = fgets s line := by
      simp only [step, here]
    rw [fgets, if_neg held] at taken
    refine ⟨_, reach_of_step (a := .fgets) trivial rfl taken, at_end, ?_, .inl ?_⟩
    · dsimp only
      split
      · exact Point.noConfusion
      · exact Point.noConfusion
    · have light : weight (if Full (BUFFER_SIZE - 1) (advance (BUFFER_SIZE - 1) line s.stdio).1 then
          .send (advance (BUFFER_SIZE - 1) line s.stdio).1
          else .fgets (advance (BUFFER_SIZE - 1) line s.stdio).1) ≤ 3 := by
        split
        · exact Nat.le_refl 3
        · exact Nat.le_of_ble_eq_true rfl
      change (advance (BUFFER_SIZE - 1) line s.stdio).2.length < s.stdio.length at shorter
      dsimp only [toDo]
      rw [here, show weight (.fgets line) = 1 from rfl]
      omega

private theorem progress (h : Cut (s, typed)) (at_end : s.ended = true) (inside : s.point ≠ .left) :
    Done s ∨ ∃ t, ReachWhere (remember step note) Sound (s, typed) (t, typed) ∧
      t.ended = true ∧ t.point ≠ .left ∧ (toDo t < toDo s ∨ Done t) := by
  cases here : s.point with
  | select =>
    refine .inr ⟨_, reach_of_step (a := .select false true) trivial rfl
      (if_pos ⟨here, .inr rfl, fun _ => .inr at_end⟩), at_end, Point.noConfusion, .inl ?_⟩
    change 10 * s.kernel.length + 5 * s.stdio.length + 1 < _
    rw [toDo, here]
    exact Nat.lt_succ_self _
  | recv keyboard =>
    obtain ⟨stays, light⟩ := next_inside keyboard
    have taken : step s (.recv [65] []) = recv s keyboard [65] [] := by
      simp only [step, here]
    rw [recv, if_neg (List.cons_ne_nil _ _), if_pos (by decide)] at taken
    refine .inr ⟨_, reach_of_step (a := .recv [65] []) trivial rfl taken, at_end, stays, .inl ?_⟩
    change 10 * s.kernel.length + 5 * s.stdio.length + weight (next keyboard) < _
    rw [toDo, here]
    change _ < 10 * s.kernel.length + 5 * s.stdio.length + 4
    omega
  | fgets line => exact .inr (progress_fgets h at_end here)
  | send buffer =>
    have taken : step s .send =
        some { s with point := .select, sends := s.sends ++ [cstr buffer] } := by
      simp only [step, here]
    refine .inr
      ⟨_, reach_of_step (a := .send) trivial rfl taken, at_end, Point.noConfusion, .inl ?_⟩
    change 10 * s.kernel.length + 5 * s.stdio.length + 2 < _
    rw [toDo, here]
    exact Nat.lt_succ_self _
  | left => exact absurd here inside

private theorem reach_done (h : Cut (s, typed)) (at_end : s.ended = true)
    (inside : s.point ≠ .left) :
    ∃ t, ReachWhere (remember step note) Sound (s, typed) (t, typed) ∧ Done t := by
  induction more : toDo s using Nat.strong_induction_on generalizing s with
  | _ n ih =>
    rcases progress h at_end inside with done | ⟨t, run, at_end', inside', less | done⟩
    · exact ⟨s, .refl _, done⟩
    · have later : Cut (t, typed) := invariant_of_step cut_step h run
      obtain ⟨u, further, done⟩ := ih (toDo t) (more ▸ less) later at_end' inside' rfl
      exact ⟨u, run.trans further, done⟩
    · exact ⟨t, run, done⟩

end Progress

/-- Once the user has closed the input, the process can send what is left of it, to the last
piece, from any state that it can be in within the loop. -/
theorem everything_can_be_sent_after_the_end {m : Noted}
    (run : ReachWhere (remember step note) Sound start m) (at_end : m.1.ended = true)
    (inside : m.1.point ≠ .left) :
    ∃ m' : Noted, ReachWhere (remember step note) Sound m m' ∧ m'.2 = m.2 ∧
      sent m'.1 = pieces BUFFER_SIZE m.2 := by
  have h := invariant_of_step cut_step cut_start run
  obtain ⟨t, further, here, empty, none_left⟩ := reach_done h at_end inside
  refine ⟨(t, m.2), further, rfl, ?_⟩
  have whole := (invariant_of_step cut_step h further).cut
  have left : unread t = [] := by
    rw [unread, here, empty, none_left]
    rfl
  change sent t ++ sending t.point ++ pieces BUFFER_SIZE (unread t) =
    pieces BUFFER_SIZE m.2 at whole
  rw [left, here] at whole
  change sent t ++ [] ++ [] = pieces BUFFER_SIZE m.2 at whole
  rw [List.append_nil, List.append_nil] at whole
  exact whole

def twoLines : List Action :=
  [.type (lit ['a', '\n', 'b', '\n']), .select false true, .refill 4, .fgets, .send]

private theorem twoLines_run : ∃ m, ReachWhere (remember step note) Sound start m ∧ m.1 =
    ⟨.select, [], false, lit ['b', '\n'], [], [lit ['a', '\n']]⟩ := by
  have shown : (exec (remember step note) start twoLines).map Prod.fst =
      some ⟨.select, [], false, lit ['b', '\n'], [], [lit ['a', '\n']]⟩ := by
    decide +kernel
  obtain ⟨m, taken, same⟩ := Option.map_eq_some_iff.mp shown
  have sound : Guarded (remember step note) Sound start twoLines := by
    apply guarded_of_forall
    simp [twoLines, Sound, lit]
  exact ⟨m, ⟨twoLines, sound, taken⟩, same⟩

theorem first_line_sent : ∃ m, ReachWhere (remember step note) Sound start m ∧
    sent m.1 <+: pieces BUFFER_SIZE m.2 := by
  obtain ⟨m, run, _⟩ := twoLines_run
  exact ⟨m, run, (sends_pieces_of_typed run).1⟩

/-- The second line stays in `stdin`, also when the server sends something. -/
theorem second_line_held_back : ∃ m t, ReachWhere (remember step note) Sound start m ∧
    m.1.stdio = lit ['b', '\n'] ∧ ReachWhere step Still m.1 t ∧ t.sends = m.1.sends ∧
      t.stdio = lit ['b', '\n'] := by
  obtain ⟨m, run, same⟩ := twoLines_run
  have unaware : Unaware m.1 := by
    rw [same]
    exact ⟨.inl rfl, rfl, rfl⟩
  have further : exec step m.1 [.select true false, .recv (lit ['x']) []] = some
      ⟨.select, [], false, lit ['b', '\n'], [lit "Msg: x".toList], [lit ['a', '\n']]⟩ := by
    rw [same]
    decide +kernel
  have still : Guarded step Still m.1 [.select true false, .recv (lit ['x']) []] := by
    apply guarded_of_forall
    simp [Still]
  have later : ReachWhere step Still m.1 _ := ⟨_, still, further⟩
  refine ⟨m, _, run, by rw [same], later, (held_back_until_typed unaware later).2.1, rfl⟩

theorem second_line_sent_after_the_end : ∃ m m' : Noted,
    ReachWhere (remember step note) Sound m m' ∧ sent m'.1 = pieces BUFFER_SIZE m.2 := by
  obtain ⟨m, run, same⟩ := twoLines_run
  have closed : ReachWhere (remember step note) Sound m ({ m.1 with ended := true }, m.2) :=
    .single (a := .close) trivial rfl
  have inside : m.1.point ≠ .left := by
    rw [same]
    exact Point.noConfusion
  obtain ⟨m', further, _, whole⟩ :=
    everything_can_be_sent_after_the_end (run.trans closed) rfl inside
  exact ⟨_, m', further, whole⟩

end SocketChat.MoreLearning.SelectChat.Client
