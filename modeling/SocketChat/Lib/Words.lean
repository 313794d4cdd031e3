/- SocketChat/Lib/Words
   digest: The words of a text, and the fields that a scan takes from it one after the other. -/

import SocketChat.Lib.CString

set_option autoImplicit false
set_option relaxedAutoImplicit false

namespace SocketChat.Lib.Words

open SocketChat.Lib.CString

/-- The words of a text are what lies between its whitespace. -/
def words (text : List Byte) : List (List Byte) := (text.splitOnP isspace).filter (· ≠ [])

private theorem words_nil : words [] = [] := rfl

theorem words_append_space {b : Byte} (space : isspace b = true) (before after : List Byte) :
    words (before ++ b :: after) = words before ++ words after := by
  rw [words, List.splitOnP_append_cons before after space, List.filter_append]
  rfl

private theorem words_cons_space {b : Byte} (space : isspace b = true) (text : List Byte) :
    words (b :: text) = words text := words_append_space space [] text

theorem words_of_solid {text : List Byte} (solid : ∀ b ∈ text, isspace b = false)
    (nonempty : text ≠ []) : words text = [text] := by
  rw [words, List.splitOnP_eq_singleton solid]
  exact List.filter_cons_of_pos (decide_eq_true nonempty)

private theorem words_dropWhile (text : List Byte) :
    words (text.dropWhile isspace) = words text := by
  induction text with
  | nil => rfl
  | cons b text ih =>
    cases space : isspace b with
    | true => rw [List.dropWhile_cons_of_pos space, ih, words_cons_space space]
    | false => rw [List.dropWhile_cons_of_neg (by simp [space])]

private theorem words_word_append {word rest : List Byte} (solid : ∀ b ∈ word, isspace b = false)
    (nonempty : word ≠ []) (stops : ∀ b ∈ rest.head?, isspace b = true) :
    words (word ++ rest) = word :: words rest := by
  cases rest with
  | nil => rw [List.append_nil, words_of_solid solid nonempty, words_nil]
  | cons b rest =>
    have space : isspace b = true := stops b rfl
    rw [words_append_space space, words_of_solid solid nonempty, words_cons_space space]
    rfl

theorem words_eq_scanField (text : List Byte) :
    words text =
      if (scanField text).1 = [] then [] else (scanField text).1 :: words (scanField text).2 := by
  rw [← words_dropWhile]
  unfold scanField
  dsimp only
  generalize start : text.dropWhile isspace = rest
  have whole : rest.takeWhile (!isspace ·) ++ rest.dropWhile (!isspace ·) = rest :=
    List.takeWhile_append_dropWhile
  by_cases nothing : rest.takeWhile (!isspace ·) = []
  · rw [if_pos nothing]
    cases rest with
    | nil => rfl
    | cons b rest =>
      have first : isspace b = false := by
        have head := List.head?_dropWhile_not isspace text
        rw [start] at head
        simpa using head
      rw [List.takeWhile_cons_of_pos (by simp [first])] at nothing
      cases nothing
  · rw [if_neg nothing]
    have solid : ∀ b ∈ rest.takeWhile (!isspace ·), isspace b = false := by
      intro b inside
      simpa using List.mem_takeWhile_imp inside
    have stops : ∀ b ∈ (rest.dropWhile (!isspace ·)).head?, isspace b = true := by
      intro b head
      have not_solid := List.head?_dropWhile_not (!isspace ·) rest
      rw [Option.mem_def.mp head] at not_solid
      simpa using not_solid
    rw [← words_word_append solid nothing stops, whole]

theorem getElem?_words_eq_self {text : List Byte} :
    (words text)[0]? = some text ↔ text ≠ [] ∧ ∀ b ∈ text, isspace b = false := by
  constructor
  · intro first
    rw [words_eq_scanField] at first
    split at first
    · cases first
    · rename_i something
      have same : (scanField text).1 = text := Option.some.inj first
      rw [same] at something
      refine ⟨something, fun b inside => ?_⟩
      rw [← same] at inside
      simpa using List.mem_takeWhile_imp inside
  · rintro ⟨nonempty, solid⟩
    rw [words_of_solid solid nonempty]
    rfl

end SocketChat.Lib.Words
