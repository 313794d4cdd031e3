/- SocketChat/Lib/Patch
   digest: Writes at an offset of a file that other writers may empty meanwhile. -/

import Mathlib.Data.List.Basic

set_option autoImplicit false
set_option relaxedAutoImplicit false

namespace SocketChat.Lib.Patch

universe u

variable {α : Type u}

/-- A file once so much has been written from an offset on; what lies between its end and the
offset is filled up. -/
def patch (fill : α) (content : List α) (offset : ℕ) (items : List α) : List α :=
  if items = [] then content
  else content.take offset ++ List.replicate (offset - content.length) fill ++ items ++
    content.drop (offset + items.length)

/-- Every item of the content is a filler, or stands at its place in one of these streams. -/
def Traced (fill : α) (content : List α) (streams : List α → Prop) : Prop :=
  ∀ (i : ℕ) (x : α), content[i]? = some x →
    x = fill ∨ ∃ stream : List α, streams stream ∧ stream[i]? = some x

section Patch

variable {fill x : α} {content items : List α} {offset i : ℕ} {streams : List α → Prop}

theorem patch_end (fill : α) (content items : List α) :
    patch fill content content.length items = content ++ items := by
  unfold patch
  split
  · rename_i nothing
    rw [nothing, List.append_nil]
  · rw [List.take_length, Nat.sub_self, List.replicate_zero, List.append_nil,
      List.drop_eq_nil_of_le (Nat.le_add_right _ _), List.append_nil]

private theorem length_front (fill : α) (content : List α) (offset : ℕ) :
    (content.take offset ++ List.replicate (offset - content.length) fill).length = offset := by
  rw [List.length_append, List.length_take, List.length_replicate]
  omega

private theorem getElem?_patch (inside : (patch fill content offset items)[i]? = some x) :
    content[i]? = some x ∨ x = fill ∨ (offset ≤ i ∧ items[i - offset]? = some x) := by
  unfold patch at inside
  split at inside
  · exact .inl inside
  · have front := length_front fill content offset
    by_cases before : i < offset
    · rw [List.append_assoc, List.getElem?_append_left (front.symm ▸ before)] at inside
      rcases List.mem_append.mp (List.mem_of_getElem? inside) with old | filled
      · by_cases within : i < (content.take offset).length
        · rw [List.getElem?_append_left within] at inside
          exact .inl (List.getElem?_take_of_lt before ▸ inside)
        · rw [List.getElem?_append_right (Nat.le_of_not_lt within)] at inside
          exact .inr (.inl (List.eq_of_mem_replicate (List.mem_of_getElem? inside)))
      · exact .inr (.inl (List.eq_of_mem_replicate filled))
    · have past := Nat.le_of_not_lt before
      rw [List.append_assoc, List.getElem?_append_right (front.symm ▸ past), front] at inside
      by_cases within : i - offset < items.length
      · rw [List.getElem?_append_left within] at inside
        exact .inr (.inr ⟨past, inside⟩)
      · have behind := Nat.le_of_not_lt within
        rw [List.getElem?_append_right behind, List.getElem?_drop] at inside
        have place : offset + items.length + (i - offset - items.length) = i := by omega
        exact .inl (place ▸ inside)

theorem traced_nil (fill : α) (streams : List α → Prop) : Traced fill [] streams := by
  intro i x inside
  cases inside

theorem Traced.mono {more : List α → Prop} (h : Traced fill content streams)
    (grown : ∀ stream, streams stream → ∃ tail, more (stream ++ tail)) :
    Traced fill content more := by
  intro i x inside
  rcases h i x inside with filled | ⟨stream, mine, there⟩
  · exact .inl filled
  · obtain ⟨tail, longer⟩ := grown stream mine
    refine .inr ⟨_, longer, ?_⟩
    rw [List.getElem?_append_left (List.getElem?_eq_some_iff.mp there).1, there]

theorem Traced.patch {stream : List α} (h : Traced fill content streams)
    (mine : streams (stream ++ items)) :
    Traced fill (patch fill content stream.length items) streams := by
  intro i x inside
  rcases getElem?_patch inside with old | filled | ⟨past, written⟩
  · exact h i x old
  · exact .inl filled
  · refine .inr ⟨_, mine, ?_⟩
    rw [List.getElem?_append_right past, written]

end Patch

end SocketChat.Lib.Patch
