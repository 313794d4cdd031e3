/- SocketChat/Lib/Mutex
   digest: One lock, and who is between taking it and giving it back. -/

import Mathlib.Logic.Function.Basic

set_option autoImplicit false
set_option relaxedAutoImplicit false

namespace SocketChat.Lib.Mutex

universe u

variable {ι : Type u} [DecidableEq ι]

/-- The owner of the lock, and nobody else, is in a critical section. -/
def Held (inside : ι → Bool) (owner : Option ι) : Prop := ∀ o, inside o = true ↔ owner = some o

namespace Held

variable {inside : ι → Bool} {owner : Option ι} {o : ι}

omit [DecidableEq ι] in
theorem free : Held (fun _ : ι => false) none := by
  intro o
  exact iff_of_false Bool.false_ne_true (Option.some_ne_none o).symm

theorem stay (held : Held inside owner) {b : Bool} (same : inside o = b) :
    Held (Function.update inside o b) owner := by
  rw [← same, Function.update_eq_self]
  exact held

theorem lock (held : Held inside owner) (unowned : owner = none) :
    Held (Function.update inside o true) (some o) := by
  intro x
  by_cases same : x = o
  · subst same
    rw [Function.update_self]
    exact iff_of_true rfl rfl
  · rw [Function.update_of_ne same, held x, unowned, Option.some_inj]
    exact iff_of_false (Option.some_ne_none x).symm fun is => same is.symm

theorem unlock (held : Held inside owner) (owns : inside o = true) :
    Held (Function.update inside o false) none := by
  intro x
  by_cases same : x = o
  · subst same
    rw [Function.update_self]
    exact iff_of_false Bool.false_ne_true (Option.some_ne_none x).symm
  · rw [Function.update_of_ne same, held x, (held o).mp owns, Option.some_inj]
    exact iff_of_false (fun is => same is.symm) (Option.some_ne_none x).symm

omit [DecidableEq ι] in
theorem unique (held : Held inside owner) {x : ι} (first : inside o = true)
    (second : inside x = true) : x = o := by
  rw [held o] at first
  rw [held x, first, Option.some_inj] at second
  exact second.symm

omit [DecidableEq ι] in
theorem outside (held : Held inside owner) {x : ι} (within : inside o = true) (other : x ≠ o) :
    inside x = false := by
  cases both : inside x with
  | false => rfl
  | true => exact absurd (held.unique within both) other

end Held

end SocketChat.Lib.Mutex
