/- SocketChat/TestCode/FileTransfer/Prompt
   digest: The yes/no prompts, one getchar at a time, and when they take one line. -/

import Mathlib.Logic.Function.Iterate
import SocketChat.TestCode.FileTransfer.Model

set_option autoImplicit false
set_option relaxedAutoImplicit false

namespace SocketChat.TestCode.FileTransfer.Prompt

open SocketChat.Lib
open SocketChat.Lib.CString
open SocketChat.Lib.Stream
open SocketChat.TestCode.FileTransfer.Model

/-- At the end of the input `getchar` returns EOF, and goes on to. -/
def getchar : List Byte → ℤ × List Byte
  | [] => (-1, [])
  | c :: stdin => (c.toNat, stdin)

/-- `char response = getchar(); while (getchar() != '\n');` stands before the first `getchar`
or in the loop, or it has got through. -/
inductive Point
  | response
  | drain (response : Byte)
  | answered (response : Byte)
deriving DecidableEq

def turn : Point × List Byte → Point × List Byte
  | (.response, stdin) => (.drain (UInt8.ofInt (getchar stdin).1), (getchar stdin).2)
  | (.drain response, stdin) =>
      if (getchar stdin).1 ≠ 10 then (.drain response, (getchar stdin).2)
      else (.answered response, (getchar stdin).2)
  | (.answered response, stdin) => (.answered response, stdin)

def Ends (start : Point × List Byte) (response : Byte) (rest : List Byte) : Prop :=
  ∃ n, turn^[n] start = (.answered response, rest)

section Ends

variable {point : Point} {stdin rest : List Byte} {response : Byte}

private theorem ends_turn (going : ∀ r, point ≠ .answered r) :
    Ends (point, stdin) response rest ↔ Ends (turn (point, stdin)) response rest := by
  constructor
  · rintro ⟨n, ended⟩
    cases n with
    | zero => exact absurd (Prod.mk.inj ended).1 (going response)
    | succ n => exact ⟨n, ended⟩
  · rintro ⟨n, ended⟩
    exact ⟨n + 1, ended⟩

private theorem ends_answered {r : Byte} :
    Ends (.answered r, stdin) response rest ↔ r = response ∧ stdin = rest := by
  have stays : ∀ n, turn^[n] (.answered r, stdin) = (.answered r, stdin) :=
    Function.iterate_fixed rfl
  constructor
  · rintro ⟨n, ended⟩
    rw [stays n, Prod.mk.injEq] at ended
    exact ⟨Point.answered.inj ended.1, ended.2⟩
  · rintro ⟨rfl, rfl⟩
    exact ⟨0, rfl⟩

private theorem ofInt_toNat (c : Byte) : UInt8.ofInt (c.toNat : ℤ) = c := by
  have small : c.toNat < 2 ^ 8 := c.toNat_lt
  have same : (c.toNat : ℤ) % 2 ^ 8 = c.toNat :=
    Int.emod_eq_of_lt (Int.natCast_nonneg _) (by omega)
  rw [UInt8.ofInt, same]
  exact UInt8.ofNat_toNat

private theorem toNat_eq_ten {c : Byte} : ((c.toNat : ℕ) : ℤ) = 10 ↔ c = 10 := by
  rw [← UInt8.toNat_inj]
  exact Int.ofNat_inj

private theorem not_ends_nil {r : Byte} : ¬ Ends (.drain r, []) response rest := by
  rintro ⟨n, ended⟩
  have stays : turn^[n] (.drain r, []) = (.drain r, []) := Function.iterate_fixed rfl n
  rw [stays] at ended
  cases ended

private theorem ends_drain {r : Byte} :
    Ends (.drain r, stdin) response rest ↔ r = response ∧ skipLine stdin = some rest := by
  induction stdin with
  | nil =>
    refine iff_of_false not_ends_nil ?_
    rintro ⟨_, never⟩
    cases never
  | cons c stdin ih =>
    rw [ends_turn fun _ => Point.noConfusion, skipLine]
    by_cases newline : c = 10
    · have taken : turn (.drain r, c :: stdin) = (.answered r, stdin) :=
        if_neg (not_not.mpr (toNat_eq_ten.mpr newline))
      rw [taken, ends_answered, if_pos newline, Option.some.injEq]
    · have taken : turn (.drain r, c :: stdin) = (.drain r, stdin) :=
        if_pos fun same => newline (toNat_eq_ten.mp same)
      rw [taken, ih, if_neg newline]

end Ends

/-- The prompt in one go is what the calls of `getchar` come to. -/
theorem prompt_eq_some_iff {stdin rest : List Byte} {response : Byte} :
    prompt stdin = some (response, rest) ↔ Ends (.response, stdin) response rest := by
  rw [ends_turn fun _ => Point.noConfusion]
  cases stdin with
  | nil =>
    refine iff_of_false ?_ not_ends_nil
    intro answered
    cases answered
  | cons c stdin =>
    have taken : turn (.response, c :: stdin) = (.drain c, stdin) := by
      rw [turn, getchar, ofInt_toNat]
    rw [taken, ends_drain, prompt, Option.map_eq_some_iff]
    constructor
    · rintro ⟨left, skipped, same⟩
      obtain ⟨rfl, rfl⟩ := Prod.mk.inj same
      exact ⟨rfl, skipped⟩
    · rintro ⟨rfl, skipped⟩
      exact ⟨rest, skipped, rfl⟩

def line (stdin : List Byte) : List Byte :=
  stdin.takeWhile (· ≠ 10) ++ (stdin.dropWhile (· ≠ 10)).take 1

def afterLine (stdin : List Byte) : List Byte := (stdin.dropWhile (· ≠ 10)).drop 1

private theorem line_append (stdin : List Byte) : line stdin ++ afterLine stdin = stdin := by
  rw [line, afterLine, List.append_assoc, List.take_append_drop, List.takeWhile_append_dropWhile]

private theorem afterLine_cons {c : Byte} (other : c ≠ 10) (stdin : List Byte) :
    afterLine (c :: stdin) = afterLine stdin := by
  rw [afterLine, afterLine, List.dropWhile_cons_of_pos (by simpa using other)]

private theorem head?_line (stdin : List Byte) : (line stdin).head? = stdin.head? := by
  cases stdin with
  | nil => rfl
  | cons c stdin =>
    by_cases newline : c = 10
    · rw [newline]
      rfl
    · rw [line, List.takeWhile_cons_of_pos (by simpa using newline)]
      rfl

private theorem skipLine_eq (stdin : List Byte) :
    skipLine stdin = if 10 ∈ stdin then some (afterLine stdin) else none := by
  induction stdin with
  | nil => rfl
  | cons c stdin ih =>
    rw [skipLine]
    by_cases newline : c = 10
    · subst newline
      rw [if_pos rfl, if_pos List.mem_cons_self]
      rfl
    · rw [if_neg newline, ih, afterLine_cons newline]
      refine if_congr ?_ rfl rfl
      rw [List.mem_cons]
      exact ⟨.inr, fun either => either.resolve_left fun same => newline same.symm⟩

/-- The prompt ends, has consumed the first line and no more, and accepts when that begins
with a `y` or a `Y`. -/
def TakesLine (stdin : List Byte) : Prop :=
  ∃ response rest, Ends (.response, stdin) response rest ∧ line stdin ++ rest = stdin ∧
    (accepts response = true ↔ (line stdin).head? = some 121 ∨ (line stdin).head? = some 89)

/-- A prompt takes one line exactly when that line ends with a newline and has something in
front of it. -/
theorem takesLine_iff (stdin : List Byte) :
    TakesLine stdin ↔ stdin.head? ≠ some 10 ∧ 10 ∈ stdin := by
  have consumed : ∀ rest, line stdin ++ rest = stdin ↔ rest = afterLine stdin := by
    intro rest
    constructor
    · intro whole
      exact List.append_cancel_left (whole.trans (line_append stdin).symm)
    · rintro rfl
      exact line_append stdin
  unfold TakesLine
  simp only [← prompt_eq_some_iff, head?_line, consumed]
  cases stdin with
  | nil =>
    refine iff_of_false ?_ fun both => List.not_mem_nil both.2
    rintro ⟨_, _, ended, _⟩
    cases ended
  | cons c stdin =>
    simp only [prompt, skipLine_eq stdin, List.head?_cons, Option.some.injEq, ne_eq]
    constructor
    · rintro ⟨response, rest, ended, one, _⟩
      obtain ⟨left, skipped, same⟩ := Option.map_eq_some_iff.mp ended
      obtain ⟨rfl, rfl⟩ := Prod.mk.inj same
      split at skipped
      · rename_i later
        refine ⟨?_, List.mem_cons_of_mem _ later⟩
        rintro rfl
        -- the empty line is the response, and the next line is drained
        have whole := congrArg List.length (line_append stdin)
        have next : line stdin ≠ [] := by
          intro nothing
          have head := head?_line stdin
          rw [nothing] at head
          cases stdin with
          | nil => cases later
          | cons d stdin => cases head
        have pos := List.length_pos_iff.mpr next
        rw [← Option.some.inj skipped] at one
        have longer : (afterLine stdin).length = stdin.length := congrArg List.length one
        rw [List.length_append] at whole
        omega
      · cases skipped
    · rintro ⟨other, inside⟩
      have later : 10 ∈ stdin := (List.mem_cons.mp inside).resolve_left fun same => other same.symm
      refine ⟨c, afterLine stdin, ?_, (afterLine_cons other stdin).symm, ?_⟩
      · rw [if_pos later]
        rfl
      · simp [accepts]

/-- An empty line is the response, and the line behind it is taken as well. -/
theorem empty_line_takes_two : ¬ ∀ stdin, TakesLine stdin := by
  intro claim
  obtain ⟨response, rest, ended, one, _⟩ := claim (lit ['\n', 'y', '\n'])
  have both : prompt (lit ['\n', 'y', '\n']) = some (10, []) := by decide +kernel
  rw [← prompt_eq_some_iff, both] at ended
  obtain ⟨_, rfl⟩ := Prod.mk.inj (Option.some.inj ended)
  exact absurd one (by decide +kernel)

section Programs

def Hangs (stdin : List Byte) : Prop := ∀ response rest, ¬ Ends (.response, stdin) response rest

private theorem prompt_eq_none_iff {stdin : List Byte} : prompt stdin = none ↔ Hangs stdin := by
  rw [Option.eq_none_iff_forall_ne_some, Hangs]
  simp only [← prompt_eq_some_iff, Prod.forall, ne_eq]

private theorem sendLoop_ne_hung (sock : Writer Byte) (reads : List (List Byte)) :
    (sendLoop sock reads).1 ≠ .hung := by
  induction reads generalizing sock with
  | nil => exact Ending.noConfusion
  | cons buffer reads ih =>
    rw [sendLoop]
    dsimp only
    split
    · exact Ending.noConfusion
    · exact ih _

private theorem sent_ne_hung (sock : Writer Byte) (reads : List (List Byte))
    (files : Directory.Files) : (match sendLoop sock reads with
      | (.returned, sock) => (⟨.returned, sock, files, [.finishedSending]⟩ : Outcome)
      | (ending, sock) => ⟨ending, sock, files, []⟩).ending ≠ .hung := by
  have ends := sendLoop_ne_hung sock reads
  split
  · exact Ending.noConfusion
  · rename_i ending _ other
    rwa [other] at ends

private theorem serverSendFile_ne_hung (sock : Writer Byte) (files : Directory.Files)
    (fileName : List Byte) : (serverSendFile sock files fileName).ending ≠ .hung := by
  unfold serverSendFile
  split
  · exact Ending.noConfusion
  · exact sent_ne_hung sock _ files

private theorem clientSendFile_ne_hung (sock : Writer Byte) (files : Directory.Files)
    (filePath : List Byte) : (clientSendFile sock files filePath).ending ≠ .hung := by
  unfold clientSendFile
  split
  · exact Ending.noConfusion
  · exact sent_ne_hung sock _ files

private theorem clientReceiveFile_ne_hung (reply : Reader Byte) (sock : Writer Byte)
    (files : Directory.Files) (filePath : List Byte) :
    (clientReceiveFile reply sock files filePath).ending ≠ .hung := by
  unfold clientReceiveFile
  dsimp only
  split
  · exact Ending.noConfusion
  · exact Ending.noConfusion

/-- The server's child hangs in its prompt and nowhere else. -/
theorem server_hangs_iff (stdin : List Byte) (stack : List Byte × List Byte)
    (clntSocket : Reader Byte) (later : List Byte → List Byte) (sock : Writer Byte)
    (files : Directory.Files) :
    (HandleTCPClient stdin stack clntSocket later sock files).ending = .hung ↔
      0 < (clntSocket.read (BUFFER_SIZE - 1)).1 ∧ Hangs stdin := by
  rw [← prompt_eq_none_iff]
  unfold HandleTCPClient
  dsimp only
  by_cases requested : (clntSocket.read (BUFFER_SIZE - 1)).1 ≤ 0
  · rw [if_pos requested]
    exact iff_of_false Ending.noConfusion fun both => absurd both.1 (not_lt.mpr requested)
  · rw [if_neg requested]
    cases answer : prompt stdin with
    | none => exact iff_of_true rfl ⟨not_le.mp requested, rfl⟩
    | some answered =>
      refine iff_of_false ?_ fun both => Option.some_ne_none answered both.2
      dsimp only
      split
      · split
        · split
          · exact Ending.noConfusion
          · split
            · exact serverSendFile_ne_hung _ _ _
            · exact Ending.noConfusion
        · exact Ending.noConfusion
      · exact Ending.noConfusion

/-- So does the client, once the server has accepted. -/
theorem client_hangs_iff (command filePath : List Byte) (localPath : Option (List Byte))
    (stdin : List Byte) (reply : Reader Byte) (later : List Byte → List Byte)
    (sock : Writer Byte) (files : Directory.Files) :
    (clientMain command filePath localPath stdin reply later sock files).ending = .hung ↔
      (sock.write (request command filePath)).1 = (request command filePath).length ∧
        0 < (reply.read (BUFFER_SIZE - 1)).1 ∧
        strEq ((reply.read (BUFFER_SIZE - 1)).2.1 ++ [0]) OK = true ∧ Hangs stdin := by
  rw [← prompt_eq_none_iff]
  unfold clientMain
  dsimp only
  by_cases sent : (sock.write (request command filePath)).1 = (request command filePath).length
  · rw [if_neg (not_not.mpr sent)]
    by_cases requested : (reply.read (BUFFER_SIZE - 1)).1 ≤ 0
    · rw [if_pos requested]
      exact iff_of_false Ending.noConfusion fun all => absurd all.2.1 (not_lt.mpr requested)
    · rw [if_neg requested]
      by_cases accepted : strEq ((reply.read (BUFFER_SIZE - 1)).2.1 ++ [0]) OK = true
      · rw [if_pos accepted]
        cases answer : prompt stdin with
        | none => exact iff_of_true rfl ⟨sent, not_le.mp requested, accepted, rfl⟩
        | some answered =>
          refine iff_of_false ?_ fun all => Option.some_ne_none answered all.2.2.2
          dsimp only
          split
          · split
            · exact clientSendFile_ne_hung _ _ _
            · split
              · exact clientReceiveFile_ne_hung _ _ _ _
              · exact Ending.noConfusion
          · exact Ending.noConfusion
      · rw [if_neg accepted]
        exact iff_of_false Ending.noConfusion fun all => accepted all.2.2.1
  · rw [if_pos sent]
    exact iff_of_false Ending.noConfusion fun all => sent all.1

end Programs

end SocketChat.TestCode.FileTransfer.Prompt
