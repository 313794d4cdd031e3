/- SocketChat/Lib/Seating
   digest: A slot table whose entries stand for exactly those present in a room. -/

import SocketChat.Lib.Room
import SocketChat.Lib.SlotTable

set_option autoImplicit false
set_option relaxedAutoImplicit false

namespace SocketChat.Lib.Seating

open SocketChat.Lib.Room (Event present)
open SocketChat.Lib.SlotTable

universe u v

variable {α ι : Type u} {μ : Type v} [DecidableEq α] [DecidableEq ι]

/-- What the occupants of the table stand for are those present. -/
def Roster (free : α) (table : List α) (f : α → Option ι) (events : List (Event ι μ)) : Prop :=
  ∀ c, present c events = true ↔ ∃ y ∈ occupants free table, f y = some c

variable {free x : α} {table rest : List α} {f g : α → Option ι} {events : List (Event ι μ)}
  {b : ι}

theorem roster_nil (empty : occupants free table = []) :
    Roster free table f ([] : List (Event ι μ)) := by
  intro c
  rw [empty]
  constructor
  · intro inside
    cases inside
  · rintro ⟨y, held, _⟩
    cases held

namespace Roster

private theorem congr (h : Roster free table f events)
    (same : ∀ y ∈ occupants free table, g y = f y) : Roster free table g events := by
  intro c
  rw [h c]
  constructor
  · rintro ⟨y, held, behind⟩
    exact ⟨y, held, (same y held).trans behind⟩
  · rintro ⟨y, held, behind⟩
    exact ⟨y, held, (same y held).symm.trans behind⟩

theorem update (h : Roster free table f events) (absent : x ∉ occupants free table)
    (behind : Option ι) : Roster free table (Function.update f x behind) events := by
  apply h.congr
  intro y held
  apply Function.update_of_ne
  rintro rfl
  exact absent held

theorem join (h : Roster free table f events) (room : free ∈ table) (used : x ≠ free)
    (behind : f x = some b) : Roster free (table.replace free x) f (events ++ [.join b]) := by
  have fill := occupants_fill room used
  intro c
  rw [Room.present_join, Bool.or_eq_true, h c, decide_eq_true_iff]
  constructor
  · rintro (⟨y, held, old⟩ | rfl)
    · exact ⟨y, fill.mem_iff.mpr (List.mem_cons_of_mem x held), old⟩
    · exact ⟨x, fill.mem_iff.mpr List.mem_cons_self, behind⟩
  · rintro ⟨y, held, stands⟩
    rcases List.mem_cons.mp (fill.mem_iff.mp held) with rfl | old
    · rw [behind] at stands
      exact Or.inr (Option.some.inj stands)
    · exact Or.inl ⟨y, old, stands⟩

theorem leave (h : Roster free table f events)
    (taken : (occupants free table).Perm (x :: occupants free rest))
    (gone : x ∉ occupants free rest) (own : ∀ y, f y = some b → y = x)
    (behind : f x = some b) : Roster free rest f (events ++ [.leave b]) := by
  intro c
  rw [Room.present_leave, Bool.and_eq_true, h c, decide_eq_true_iff]
  constructor
  · rintro ⟨⟨y, held, stands⟩, other⟩
    have apart : y ≠ x := by
      rintro rfl
      rw [behind] at stands
      exact other (Option.some.inj stands)
    exact ⟨y, (List.mem_cons.mp (taken.mem_iff.mp held)).resolve_left apart, stands⟩
  · rintro ⟨y, held, stands⟩
    refine ⟨⟨y, taken.mem_iff.mpr (List.mem_cons_of_mem x held), stands⟩, ?_⟩
    rintro rfl
    rw [own y stands] at held
    exact gone held

theorem say (h : Roster free table f events) (what : μ) :
    Roster free table f (events ++ [.say b what]) := by
  intro c
  rw [Room.present_say]
  exact h c

theorem mem_filterMap (h : Roster free table f events) (c : ι) :
    c ∈ (occupants free table).filterMap f ↔ present c events = true := by
  rw [List.mem_filterMap, h c]

end Roster

end SocketChat.Lib.Seating
