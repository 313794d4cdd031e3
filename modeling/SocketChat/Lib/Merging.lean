/- SocketChat/Lib/Merging
   digest: Two sequences merged into one, each in its own order and complete. -/

import Mathlib.Data.List.Basic

set_option autoImplicit false
set_option relaxedAutoImplicit false

namespace SocketChat.Lib.Merging

universe u

variable {α : Type u}

/-- The third list is made of all items of the first two, those of each in order. -/
inductive Merge : List α → List α → List α → Prop
  | nil : Merge [] [] []
  | left {xs ys zs : List α} (x : α) (rest : Merge xs ys zs) : Merge (x :: xs) ys (x :: zs)
  | right {xs ys zs : List α} (y : α) (rest : Merge xs ys zs) : Merge xs (y :: ys) (y :: zs)

namespace Merge

theorem only_left (xs : List α) : Merge xs [] xs := by
  induction xs with
  | nil => exact .nil
  | cons x xs ih => exact .left x ih

theorem only_right (ys : List α) : Merge [] ys ys := by
  induction ys with
  | nil => exact .nil
  | cons y ys ih => exact .right y ih

theorem append {xs ys zs xs' ys' zs' : List α} (first : Merge xs ys zs)
    (second : Merge xs' ys' zs') : Merge (xs ++ xs') (ys ++ ys') (zs ++ zs') := by
  induction first with
  | nil => exact second
  | left x _ ih => exact .left x ih
  | right y _ ih => exact .right y ih

theorem mem_or_mem {xs ys zs : List α} (merge : Merge xs ys zs) {z : α} (inside : z ∈ zs) :
    z ∈ xs ∨ z ∈ ys := by
  induction merge with
  | nil => cases inside
  | left x _ ih =>
    rcases List.mem_cons.mp inside with rfl | later
    · exact Or.inl List.mem_cons_self
    · exact (ih later).imp_left (List.mem_cons_of_mem x)
  | right y _ ih =>
    rcases List.mem_cons.mp inside with rfl | later
    · exact Or.inr List.mem_cons_self
    · exact (ih later).imp_right (List.mem_cons_of_mem y)

end Merge

end SocketChat.Lib.Merging
