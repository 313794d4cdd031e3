/- SocketChat/TestCode/BroadcastChat/Client
   digest: At which line tcp_chat_broadcast_client.c closes its connection, and what it has sent. -/

import SocketChat.Lib.LineBlocks
import SocketChat.TestCode.BroadcastChat.Model

set_option autoImplicit false
set_option relaxedAutoImplicit false

namespace SocketChat.TestCode.BroadcastChat.Client

open SocketChat.Lib.Blocks
open SocketChat.Lib.CString
open SocketChat.Lib.LineBlocks
open SocketChat.Lib.Lines
open SocketChat.TestCode.BroadcastChat.Model (stripped stripped_eq_filter)

def RCVBUFSIZE : ℕ := 32

private theorem room_pos : 0 < RCVBUFSIZE - 1 := by decide

/-- How the loop of `main` ends: with `close`, because `fgets` returns NULL, or with
`DieWithError("send() failed")`. -/
inductive Ending
  | closed
  | endOfInput
  | died
deriving DecidableEq

/-- What `fgets` has read when the loop ends, and the bytes that `send` has taken. -/
structure Outcome where
  ending : Ending
  read : List Byte
  wire : List Byte
deriving DecidableEq

/-- `len == 0 || strcmp(buf, "quit") == 0 || strcmp(buf, "exit") == 0`. -/
def Command (buf : List Byte) : Prop :=
  buf = [] ∨ buf = lit ['q', 'u', 'i', 't'] ∨ buf = lit ['e', 'x', 'i', 't']

instance (buf : List Byte) : Decidable (Command buf) :=
  inferInstanceAs (Decidable (_ ∨ _ ∨ _))

/-- The loop over the pieces that `fgets` returns; `answers` are the results of `send`. -/
def sendLoop : List (List Byte) → (ℕ → ℤ) → Outcome
  | [], _ => ⟨.endOfInput, [], []⟩
  | piece :: pieces, answers =>
      let buf := stripped piece
      if Command buf then ⟨.closed, piece, []⟩
      else if answers 0 = buf.length then
        let later := sendLoop pieces fun k => answers (k + 1)
        { later with read := piece ++ later.read, wire := buf ++ later.wire }
      else ⟨.died, piece, buf.take (answers 0).toNat⟩

def main (stdin : List Byte) (answers : ℕ → ℤ) : Outcome :=
  sendLoop (pieces RCVBUFSIZE stdin) answers

/-- The connection is closed at a line that is a command as a whole, all lines before it were
sent without their newlines, and at the end of the input all lines were; where a `send` fails,
a front of them was. -/
def Proper (stdin : List Byte) (o : Outcome) : Prop :=
  match o.ending with
  | .closed => ∃ before line after, linesOf stdin = before ++ line :: after ∧
      Command (stripped line) ∧ o.read = (before ++ [line]).flatten ∧
        o.wire = (before.map stripped).flatten
  | .endOfInput => o.wire = ((linesOf stdin).map stripped).flatten
  | .died => o.wire <+: ((linesOf stdin).map stripped).flatten

/-- In front of the first line that is a command as a whole, no line is cut so that what is
left of it behind its full blocks is one. -/
def Uncut (stdin : List Byte) : Prop :=
  ∀ line ∈ (linesOf stdin).takeWhile fun line => ¬Command (stripped line),
    ¬Command (stripped (lastBlock (RCVBUFSIZE - 1) line))

instance (stdin : List Byte) : Decidable (Uncut stdin) :=
  inferInstanceAs (Decidable (∀ line ∈ _, _))

section Loop

variable {front : List (List Byte)}

private theorem sendLoop_append (quiet : ∀ piece ∈ front, ¬Command (stripped piece))
    (later : List (List Byte)) (answers : ℕ → ℤ) :
    (sendLoop (front ++ later) answers).ending = .died ∨
      ∃ rest : Outcome, (∃ answers', rest = sendLoop later answers') ∧
        sendLoop (front ++ later) answers =
          ⟨rest.ending, front.flatten ++ rest.read, (front.map stripped).flatten ++ rest.wire⟩ := by
  induction front generalizing answers with
  | nil => exact Or.inr ⟨_, ⟨answers, rfl⟩, rfl⟩
  | cons piece front ih =>
    rw [List.cons_append, sendLoop]
    dsimp only
    rw [if_neg (quiet piece List.mem_cons_self)]
    split
    · rcases ih (fun p hp => quiet p (List.mem_cons_of_mem piece hp)) fun k => answers (k + 1) with
        died | ⟨rest, served, same⟩
      · exact Or.inl died
      · refine Or.inr ⟨rest, served, ?_⟩
        rw [same]
        simp
    · exact Or.inl rfl

private theorem exists_answers (pieces : List (List Byte)) :
    ∃ answers, (sendLoop pieces answers).ending ≠ .died := by
  induction pieces with
  | nil => exact ⟨fun _ => 0, Ending.noConfusion⟩
  | cons piece pieces ih =>
    obtain ⟨answers, alive⟩ := ih
    refine ⟨fun k => if k = 0 then (stripped piece).length else answers (k - 1), ?_⟩
    rw [sendLoop]
    dsimp only
    split
    · exact Ending.noConfusion
    · rw [if_pos (if_pos rfl)]
      exact alive

private theorem wire_front (pieces : List (List Byte)) (answers : ℕ → ℤ) :
    (sendLoop pieces answers).wire <+: (pieces.map stripped).flatten := by
  induction pieces generalizing answers with
  | nil => exact List.nil_prefix
  | cons piece pieces ih =>
    rw [sendLoop, List.map_cons, List.flatten_cons]
    dsimp only
    split
    · exact List.nil_prefix
    · split
      · exact (List.prefix_append_right_inj _).mpr (ih _)
      · exact (List.take_prefix _ _).trans (List.prefix_append _ _)

end Loop

section Text

variable {line : List Byte} {texts : List (List Byte)}

private theorem flatten_stripped (all : ∀ text ∈ texts, 0 ∉ text ∧ IsLine text) :
    (texts.map stripped).flatten = texts.flatten.filter (· ≠ newline) := by
  rw [List.filter_flatten]
  congr 1
  apply List.map_congr_left
  intro text held
  obtain ⟨nul_free, isLine⟩ := all text held
  exact stripped_eq_filter nul_free isLine.single

private theorem length_le_of_command {buf : List Byte} (command : Command buf) :
    buf.length ≤ 4 := by
  rcases command with rfl | rfl | rfl <;> decide

private theorem not_command_of_full {block : List Byte} (nul_free : 0 ∉ block)
    (full : block.length = RCVBUFSIZE - 1) (without : newline ∉ block) :
    ¬Command (stripped block) := by
  have whole : stripped block = block := by
    rw [stripped, cstr_of_nul_free nul_free, if_neg]
    intro last
    exact without (List.mem_of_getLast? last)
  intro command
  have short := length_le_of_command command
  rw [whole, full] at short
  exact absurd short (by decide)

private theorem length_le_stripped (nul_free : 0 ∉ line) :
    line.length ≤ (stripped line).length + 1 := by
  rw [stripped, cstr_of_nul_free nul_free]
  split
  · rw [List.length_dropLast]
    omega
  · exact Nat.le_succ _

private theorem blocks_of_command (nul_free : 0 ∉ line) (isLine : IsLine line)
    (command : Command (stripped line)) : blocks (RCVBUFSIZE - 1) line = [line] := by
  have short := length_le_of_command command
  have longer := length_le_stripped nul_free
  have fits : line.length ≤ RCVBUFSIZE - 1 := by
    unfold RCVBUFSIZE
    omega
  rw [blocks_of_ne_nil (by decide) isLine.nonempty, List.take_of_length_le fits,
    List.drop_eq_nil_of_le fits, blocks_nil]

end Text

section Input

variable {stdin : List Byte} {lines before after : List (List Byte)} {line : List Byte}

def Plain (lines : List (List Byte)) : Prop := ∀ line ∈ lines, 0 ∉ line ∧ IsLine line

private theorem plain_linesOf (nul_free : 0 ∉ stdin) : Plain (linesOf stdin) := by
  intro line held
  refine ⟨?_, isLine_of_mem held⟩
  intro zero
  rw [← flatten_linesOf stdin] at nul_free
  exact nul_free (List.mem_flatten_of_mem held zero)

private theorem plain_blocks (plain : Plain lines) :
    Plain (lines.flatMap (blocks (RCVBUFSIZE - 1))) := by
  intro block held
  obtain ⟨line, among, part⟩ := List.mem_flatMap.mp held
  obtain ⟨nul_free, isLine⟩ := plain line among
  refine ⟨?_, isLine_of_mem_blocks (by decide) isLine part⟩
  intro zero
  rw [← flatten_blocks room_pos line] at nul_free
  exact nul_free (List.mem_flatten_of_mem part zero)

private theorem flatten_lineBlocks (lines : List (List Byte)) :
    (lines.flatMap (blocks (RCVBUFSIZE - 1))).flatten = lines.flatten := by
  induction lines with
  | nil => rfl
  | cons line lines ih =>
    rw [List.flatMap_cons, List.flatten_append, flatten_blocks (by decide), ih, List.flatten_cons]

private theorem texts_blocks (plain : Plain lines) :
    ((lines.flatMap (blocks (RCVBUFSIZE - 1))).map stripped).flatten =
      (lines.map stripped).flatten := by
  rw [flatten_stripped (plain_blocks plain), flatten_stripped plain, flatten_lineBlocks]

private theorem quiet_blocks (nul_free : 0 ∉ line) (isLine : IsLine line)
    (ok : ¬Command (stripped (lastBlock (RCVBUFSIZE - 1) line))) :
    ∀ block ∈ blocks (RCVBUFSIZE - 1) line, ¬Command (stripped block) := by
  obtain ⟨full, split, all⟩ := blocks_line room_pos isLine
  intro block held
  have clean : 0 ∉ block := by
    rw [← flatten_blocks room_pos line] at nul_free
    exact fun zero => nul_free (List.mem_flatten_of_mem held zero)
  rw [split] at held
  rcases List.mem_append.mp held with front | last
  · obtain ⟨size, without⟩ := all block front
    exact not_command_of_full clean size without
  · rw [List.mem_singleton.mp last]
    exact ok

private theorem main_eq (cut : linesOf stdin = before ++ after) (answers : ℕ → ℤ) :
    main stdin answers = sendLoop (before.flatMap (blocks (RCVBUFSIZE - 1)) ++
      after.flatMap (blocks (RCVBUFSIZE - 1))) answers := by
  rw [main, pieces_eq_blocks (by decide), cut, List.flatMap_append]

private theorem exists_first_command (lines : List (List Byte)) :
    ∃ front back, lines = front ++ back ∧
      lines.takeWhile (fun line => ¬Command (stripped line)) = front ∧
      ∀ line after, back = line :: after → Command (stripped line) := by
  refine ⟨_, _, (List.takeWhile_append_dropWhile ..).symm, rfl, ?_⟩
  intro line after first
  have head := List.head?_dropWhile_not (fun line => decide ¬Command (stripped line)) lines
  rw [first] at head
  simpa using head

private theorem proper_of_uncut (nul_free : 0 ∉ stdin) (uncut : Uncut stdin) (answers : ℕ → ℤ) :
    Proper stdin (main stdin answers) := by
  have plain := plain_linesOf nul_free
  obtain ⟨front, back, cut, first, command⟩ := exists_first_command (linesOf stdin)
  have plain_front : Plain front := by
    intro line held
    apply plain
    rw [cut]
    exact List.mem_append_left back held
  have quiet : ∀ block ∈ front.flatMap (blocks (RCVBUFSIZE - 1)), ¬Command (stripped block) := by
    intro block held
    obtain ⟨line, among, part⟩ := List.mem_flatMap.mp held
    obtain ⟨clean, isLine⟩ := plain_front line among
    refine quiet_blocks clean isLine (uncut line ?_) block part
    rw [first]
    exact among
  rw [main_eq cut]
  rcases sendLoop_append quiet (back.flatMap (blocks (RCVBUFSIZE - 1))) answers with
    died | ⟨rest, ⟨answers', served⟩, same⟩
  · rw [Proper, died]
    have taken := wire_front (front.flatMap (blocks (RCVBUFSIZE - 1)) ++
      back.flatMap (blocks (RCVBUFSIZE - 1))) answers
    rw [← List.flatMap_append, ← cut, texts_blocks plain, cut, List.flatMap_append] at taken
    change _ <+: ((linesOf stdin).map stripped).flatten
    rw [cut]
    exact taken
  · rw [same, texts_blocks plain_front, flatten_lineBlocks]
    cases back with
    | nil =>
      rw [served]
      change (front.map stripped).flatten ++ [] = ((linesOf stdin).map stripped).flatten
      rw [cut, List.append_nil, List.append_nil]
    | cons line after =>
      have held : line ∈ linesOf stdin := by
        rw [cut]
        exact List.mem_append_right front List.mem_cons_self
      have is := command line after rfl
      rw [List.flatMap_cons, blocks_of_command (plain line held).1 (plain line held).2 is,
        List.singleton_append, sendLoop] at served
      dsimp only at served
      rw [if_pos is] at served
      rw [served]
      refine ⟨front, line, after, cut, is, ?_, ?_⟩
      · rw [List.flatten_append, List.flatten_singleton]
      · exact List.append_nil _

private theorem front_unique {other others : List (List Byte)}
    (first : linesOf stdin = before ++ after)
    (second : linesOf stdin = other ++ others) (same : before.flatten = other.flatten) :
    before = other := by
  rw [← linesOf_front first, same, linesOf_front second]

/-- A line that is cut before a command closes the connection within itself. -/
theorem not_proper_of_cut (nul_free : 0 ∉ stdin) (cut : linesOf stdin = before ++ line :: after)
    (uncut : ∀ earlier ∈ before, ¬Command (stripped (lastBlock (RCVBUFSIZE - 1) earlier)))
    (false_command : Command (stripped (lastBlock (RCVBUFSIZE - 1) line)))
    (no_command : ¬Command (stripped line)) :
    ∃ answers, ¬Proper stdin (main stdin answers) := by
  have plain := plain_linesOf nul_free
  have held : line ∈ linesOf stdin := by
    rw [cut]
    exact List.mem_append_right before List.mem_cons_self
  obtain ⟨clean, isLine⟩ := plain line held
  obtain ⟨full, split, all⟩ := blocks_line room_pos isLine
  have bytes := flatten_blocks room_pos line
  rw [split, List.flatten_append, List.flatten_singleton] at bytes
  have quiet : ∀ block ∈ before.flatMap (blocks (RCVBUFSIZE - 1)) ++ full,
      ¬Command (stripped block) := by
    intro block among
    rcases List.mem_append.mp among with earlier | within
    · obtain ⟨other, listed, part⟩ := List.mem_flatMap.mp earlier
      obtain ⟨other_clean, other_isLine⟩ := plain other (cut ▸ List.mem_append_left _ listed)
      exact quiet_blocks other_clean other_isLine (uncut other listed) block part
    · obtain ⟨size, without⟩ := all block within
      refine not_command_of_full ?_ size without
      intro zero
      rw [← bytes] at clean
      exact clean (List.mem_append_left _ (List.mem_flatten_of_mem within zero))
  obtain ⟨answers, alive⟩ := exists_answers (pieces RCVBUFSIZE stdin)
  refine ⟨answers, ?_⟩
  have shape : main stdin answers = sendLoop ((before.flatMap (blocks (RCVBUFSIZE - 1)) ++ full) ++
      lastBlock (RCVBUFSIZE - 1) line :: after.flatMap (blocks (RCVBUFSIZE - 1))) answers := by
    rw [main_eq cut, List.flatMap_cons, split]
    simp only [List.append_assoc, List.singleton_append]
  rcases sendLoop_append quiet _ answers with died | ⟨rest, ⟨answers', served⟩, same⟩
  · rw [← shape] at died
    exact absurd died alive
  · rw [sendLoop] at served
    dsimp only at served
    rw [if_pos false_command] at served
    rw [shape, same, served]
    rintro ⟨earlier, last, others, again, command, read, _⟩
    have read_again : (earlier ++ [last]).flatten = (before ++ [line]).flatten := by
      rw [← read, List.flatten_append, List.flatten_append, flatten_lineBlocks,
        List.flatten_singleton, List.append_assoc, bytes]
    have equal : earlier ++ [last] = before ++ [line] := by
      have here : linesOf stdin = (before ++ [line]) ++ after := by
        rw [cut, List.append_assoc]
        rfl
      have there : linesOf stdin = (earlier ++ [last]) ++ others := by
        rw [again, List.append_assoc]
        rfl
      exact front_unique there here read_again
    have closing := (List.append_inj' equal rfl).2
    obtain rfl : last = line := List.head_eq_of_cons_eq closing
    exact no_command command

/-- Whatever `send` answers, the connection is closed only at a line that is a command as a
whole, with every line before it sent in full, exactly when no line before the first such line
is cut so that what is left of it looks like a command. -/
theorem closes_at_command_iff (stdin : List Byte) (nul_free : 0 ∉ stdin) :
    (∀ answers, Proper stdin (main stdin answers)) ↔ Uncut stdin := by
  refine ⟨?_, proper_of_uncut nul_free⟩
  intro proper line listed false_command
  obtain ⟨front, back, cut, first, _⟩ := exists_first_command (linesOf stdin)
  have no_command : ∀ line ∈ front, ¬Command (stripped line) := by
    intro line held
    rw [← first] at held
    have passed := List.mem_takeWhile_imp held
    exact of_decide_eq_true passed
  rw [first] at listed
  have found : (front.find? fun line =>
      Command (stripped (lastBlock (RCVBUFSIZE - 1) line))).isSome := by
    rw [List.find?_isSome]
    exact ⟨line, listed, decide_eq_true false_command⟩
  -- The first line that is cut so; those in front of it are sent in full.
  obtain ⟨bad, is⟩ := Option.isSome_iff_exists.mp found
  obtain ⟨looks, before, after, split, others⟩ := List.find?_eq_some_iff_append.mp is
  have bad_held : bad ∈ front := by
    rw [split]
    exact List.mem_append_right before List.mem_cons_self
  rw [split, List.append_assoc, List.cons_append] at cut
  obtain ⟨answers, improper⟩ := not_proper_of_cut nul_free cut
    (fun earlier held => by simpa using others earlier held) (of_decide_eq_true looks)
    (no_command bad bad_held)
  exact improper (proper answers)

/-- The lines hi and quit: the second one closes the connection. -/
theorem closes_at_quit :
    Proper [104, 105, 10, 113, 117, 105, 116, 10]
      (main [104, 105, 10, 113, 117, 105, 116, 10] fun _ => 2) :=
  (closes_at_command_iff _ (by decide)).mpr (by decide +kernel) fun _ => 2

/-- A line of 31 bytes closes the connection behind them: what is left of it is its newline. -/
theorem full_line_closes : ∃ answers,
    main (List.replicate 31 97 ++ [10]) answers =
        ⟨.closed, List.replicate 31 97 ++ [10], List.replicate 31 97⟩ ∧
      ¬Proper (List.replicate 31 97 ++ [10]) (main (List.replicate 31 97 ++ [10]) answers) := by
  have outcome : main (List.replicate 31 97 ++ [10]) (fun _ => 31) =
      ⟨.closed, List.replicate 31 97 ++ [10], List.replicate 31 97⟩ := by
    decide +kernel
  refine ⟨fun _ => 31, outcome, ?_⟩
  rw [outcome]
  rintro ⟨before, line, after, cut, command, _⟩
  have only : linesOf (List.replicate 31 97 ++ [10]) = [List.replicate 31 97 ++ [10]] := by
    decide +kernel
  rw [only] at cut
  have held : line ∈ [List.replicate 31 97 ++ [10]] := by
    rw [cut]
    exact List.mem_append_right before List.mem_cons_self
  rw [List.mem_singleton.mp held] at command
  exact absurd command (by decide +kernel)

end Input

end SocketChat.TestCode.BroadcastChat.Client
