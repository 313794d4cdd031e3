/- SocketChat/Lib/Buffered
   digest: A line that `fgets` collects from a buffer which is filled up bit by bit. -/

import SocketChat.Lib.Lines

set_option autoImplicit false
set_option relaxedAutoImplicit false

namespace SocketChat.Lib.Buffered

open SocketChat.Lib.CString
open SocketChat.Lib.Lines

/-- `fgets` goes no further: the line has its newline, or there is no room for more. -/
def Full (room : ℕ) (line : List Byte) : Prop :=
  line.getLast? = some newline ∨ line.length = room

instance (room : ℕ) (line : List Byte) : Decidable (Full room line) :=
  inferInstanceAs (Decidable (_ ∨ _))

structure Open (room : ℕ) (line : List Byte) : Prop where
  newline_free : newline ∉ line
  short : line.length < room

section Cut

variable {room : ℕ} {line input : List Byte}

theorem open_nil (pos : 0 < room) : Open room [] := ⟨List.not_mem_nil, pos⟩

private theorem cutLine_append_open (newline_free : newline ∉ line) (short : line.length ≤ room)
    (input : List Byte) : cutLine room (line ++ input) =
      (line ++ (cutLine (room - line.length) input).1, (cutLine (room - line.length) input).2) := by
  induction line generalizing room with
  | nil => rfl
  | cons b line ih =>
    rw [List.length_cons] at short ⊢
    obtain ⟨less, rfl⟩ : ∃ less, room = less + 1 := ⟨room - 1, by omega⟩
    rw [List.mem_cons, not_or] at newline_free
    rw [List.cons_append, cutLine, if_neg (Ne.symm newline_free.1),
      ih newline_free.2 (Nat.le_of_succ_le_succ short), Nat.add_sub_add_right]
    rfl

private theorem cutLine_full (full : Full room (cutLine room input).1) (rest : List Byte) :
    cutLine room ((cutLine room input).1 ++ rest) = ((cutLine room input).1, rest) := by
  induction room generalizing input with
  | zero => rfl
  | succ room ih =>
    cases input with
    | nil => rcases full with last | long
             · cases last
             · cases long
    | cons b input =>
      rw [cutLine] at full ⊢
      split at full
      · rename_i is
        rw [if_pos is, List.cons_append, cutLine, if_pos is]
        rfl
      · rename_i other
        rw [if_neg other, List.cons_append, cutLine, if_neg other]
        have shorter : Full room (cutLine room input).1 := by
          rcases full with last | long
          · refine .inl ?_
            cases later : (cutLine room input).1 with
            | nil =>
              rw [later] at last
              exact absurd (Option.some.inj last) other
            | cons x xs =>
              rw [later, List.getLast?_cons_cons] at last
              exact last
          · exact .inr (Nat.succ.inj long)
        rw [ih shorter]

private theorem cutLine_not_full (open_yet : ¬Full room (cutLine room input).1) :
    cutLine room input = (input, []) ∧ Open room input := by
  induction room generalizing input with
  | zero => exact absurd (.inr rfl) open_yet
  | succ room ih =>
    cases input with
    | nil => exact ⟨rfl, open_nil (Nat.succ_pos room)⟩
    | cons b input =>
      rw [cutLine] at open_yet ⊢
      split at open_yet
      · rename_i is
        rw [is] at open_yet
        exact absurd (.inl rfl) open_yet
      · rename_i other
        have later : ¬Full room (cutLine room input).1 := by
          rintro (last | long)
          · refine open_yet (.inl ?_)
            have more : (cutLine room input).1 ≠ [] := by
              intro nothing
              rw [nothing] at last
              cases last
            rw [List.getLast?_cons_of_ne_nil more]
            exact last
          · exact open_yet (.inr (congrArg Nat.succ long))
        obtain ⟨whole, newline_free, short⟩ := ih later
        rw [if_neg other, whole]
        refine ⟨rfl, ?_, Nat.succ_lt_succ short⟩
        rw [List.mem_cons, not_or]
        exact ⟨Ne.symm other, newline_free⟩

end Cut

/-- What one look into the buffer makes of a line that was begun: the line, and what is left. -/
def advance (room : ℕ) (line buffer : List Byte) : List Byte × List Byte :=
  let cut := cutLine (room - line.length) buffer
  (line ++ cut.1, cut.2)

section Advance

variable {size : ℕ} {line buffer : List Byte}

theorem advance_append (room : ℕ) (line buffer : List Byte) :
    (advance room line buffer).1 ++ (advance room line buffer).2 = line ++ buffer := by
  change line ++ (cutLine (room - line.length) buffer).1 ++ _ = _
  rw [List.append_assoc]
  exact congrArg (line ++ ·) (cutLine_append _ buffer)

theorem advance_shorter {room : ℕ} (open_yet : Open room line) (more : buffer ≠ []) :
    (advance room line buffer).2.length < buffer.length := by
  have taken := cutLine_ne_nil (Nat.sub_pos_of_lt open_yet.short) more
  have whole := congrArg List.length (cutLine_append (room - line.length) buffer)
  have some_bytes := List.length_pos_iff.mpr taken
  rw [List.length_append] at whole
  change (cutLine (room - line.length) buffer).2.length < buffer.length
  omega

theorem fgets_of_full (open_yet : Open (size - 1) line)
    (full : Full (size - 1) (advance (size - 1) line buffer).1) (rest : List Byte) :
    fgets size ((advance (size - 1) line buffer).1 ++ rest) =
      some ((advance (size - 1) line buffer).1, rest) := by
  have same : (advance (size - 1) line buffer).1 = (cutLine (size - 1) (line ++ buffer)).1 := by
    rw [cutLine_append_open open_yet.newline_free open_yet.short.le]
    rfl
  rw [same] at full ⊢
  have whole := cutLine_full full rest
  rw [fgets, if_neg, whole]
  intro nothing
  rw [List.append_eq_nil_iff] at nothing
  rw [nothing.1] at full
  rcases full with last | long
  · cases last
  · have short := open_yet.short
    rw [← long] at short
    exact Nat.not_lt_zero _ short

theorem advance_open (open_yet : Open (size - 1) line)
    (not_full : ¬Full (size - 1) (advance (size - 1) line buffer).1) :
    advance (size - 1) line buffer = (line ++ buffer, []) ∧ Open (size - 1) (line ++ buffer) := by
  have same := cutLine_append_open open_yet.newline_free open_yet.short.le buffer
  have later : ¬Full (size - 1) (cutLine (size - 1) (line ++ buffer)).1 := by
    rw [same]
    exact not_full
  obtain ⟨whole, further⟩ := cutLine_not_full later
  rw [same] at whole
  exact ⟨whole, further⟩

theorem fgets_of_open (open_yet : Open (size - 1) line) (more : line ≠ []) :
    fgets size line = some (line, []) := by
  have whole := cutLine_append_open open_yet.newline_free open_yet.short.le []
  rw [List.append_nil] at whole
  have nothing : cutLine (size - 1 - line.length) [] = ([], []) := by
    cases size - 1 - line.length with
    | zero => rfl
    | succ room => rfl
  rw [nothing, List.append_nil] at whole
  rw [fgets, if_neg more, whole]

end Advance

/-- A piece that stays one whatever is typed behind it. -/
def Settled (size : ℕ) (piece : List Byte) : Prop :=
  ∀ rest, fgets size (piece ++ rest) = some (piece, rest)

theorem pieces_of_settled {size : ℕ} (two : 2 ≤ size) {out : List (List Byte)}
    (settled : ∀ piece ∈ out, Settled size piece) (rest : List Byte) :
    pieces size (out.flatten ++ rest) = out ++ pieces size rest := by
  induction out with
  | nil => rfl
  | cons piece out ih =>
    have first := settled piece List.mem_cons_self (out.flatten ++ rest)
    rw [List.flatten_cons, List.append_assoc, pieces_of_fgets two first,
      ih fun later inside => settled later (List.mem_cons_of_mem piece inside)]
    rfl

end SocketChat.Lib.Buffered
