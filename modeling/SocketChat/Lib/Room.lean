/- SocketChat/Lib/Room
   digest: A room whose members hear, in one order, what the others say while they are in it. -/

import Mathlib.Data.List.Nodup
import Mathlib.Data.List.Perm.Subperm
import Mathlib.Logic.Relation

set_option autoImplicit false
set_option relaxedAutoImplicit false

namespace SocketChat.Lib.Room

universe u v

inductive Event (ι : Type u) (μ : Type v)
  | join (who : ι)
  | leave (who : ι)
  | say (who : ι) (what : μ)
deriving DecidableEq

variable {ι : Type u} {μ : Type v} [DecidableEq ι]

def stays (c : ι) : Bool → List (Event ι μ) → Bool
  | inside, [] => inside
  | inside, .join d :: events => stays c (inside || d = c) events
  | inside, .leave d :: events => stays c (inside && d ≠ c) events
  | inside, .say _ _ :: events => stays c inside events

/-- What `c` hears during the events: what others say while it is in the room. -/
def hears (c : ι) : Bool → List (Event ι μ) → List μ
  | _, [] => []
  | inside, .join d :: events => hears c (inside || d = c) events
  | inside, .leave d :: events => hears c (inside && d ≠ c) events
  | inside, .say d what :: events =>
      (if inside && d ≠ c then [what] else []) ++ hears c inside events

def present (c : ι) (events : List (Event ι μ)) : Bool := stays c false events

def heard (c : ι) (events : List (Event ι μ)) : List μ := hears c false events

def said : List (Event ι μ) → List μ
  | [] => []
  | .say _ what :: events => what :: said events
  | _ :: events => said events

def others (c : ι) : List (Event ι μ) → List μ
  | [] => []
  | .say d what :: events => (if d ≠ c then [what] else []) ++ others c events
  | _ :: events => others c events

/-- What may happen next: a first join, a leave of a member, or anything said. -/
inductive Step : List (Event ι μ) → List (Event ι μ) → Prop
  | join {events : List (Event ι μ)} (c : ι) (new : Event.join c ∉ events) :
      Step events (events ++ [.join c])
  | leave {events : List (Event ι μ)} (c : ι) (inside : present c events = true) :
      Step events (events ++ [.leave c])
  | say {events : List (Event ι μ)} (c : ι) (what : μ) : Step events (events ++ [.say c what])

section Append

variable (c d : ι) (what : μ) (events : List (Event ι μ))

private theorem stays_append (inside : Bool) (before after : List (Event ι μ)) :
    stays c inside (before ++ after) = stays c (stays c inside before) after := by
  induction before generalizing inside with
  | nil => rfl
  | cons event before ih =>
    cases event with
    | join d => exact ih _
    | leave d => exact ih _
    | say d what => exact ih _

private theorem hears_append (inside : Bool) (before after : List (Event ι μ)) :
    hears c inside (before ++ after) =
      hears c inside before ++ hears c (stays c inside before) after := by
  induction before generalizing inside with
  | nil => rfl
  | cons event before ih =>
    cases event with
    | join d => exact ih _
    | leave d => exact ih _
    | say d what =>
      rw [List.cons_append, hears, ih, hears, List.append_assoc]
      rfl

theorem present_join : present c (events ++ [.join d]) = (present c events || d = c) :=
  stays_append c false events _

theorem present_leave : present c (events ++ [.leave d]) = (present c events && d ≠ c) :=
  stays_append c false events _

theorem present_say : present c (events ++ [.say d what]) = present c events :=
  stays_append c false events _

theorem heard_join : heard c (events ++ [.join d]) = heard c events := by
  rw [heard, hears_append]
  exact List.append_nil _

theorem heard_leave : heard c (events ++ [.leave d]) = heard c events := by
  rw [heard, hears_append]
  exact List.append_nil _

theorem heard_say : heard c (events ++ [.say d what]) =
    heard c events ++ if present c events && d ≠ c then [what] else [] := by
  rw [heard, hears_append]
  congr 1
  exact List.append_nil _

omit [DecidableEq ι] in
theorem said_append (before after : List (Event ι μ)) :
    said (before ++ after) = said before ++ said after := by
  induction before with
  | nil => rfl
  | cons event before ih =>
    cases event with
    | join d => exact ih
    | leave d => exact ih
    | say d what => exact congrArg (what :: ·) ih

end Append

section Interval

variable {c : ι} {events before after : List (Event ι μ)}

def remains (c : ι) : Event ι μ → Bool
  | .leave d => d ≠ c
  | _ => true

/-- Who is out of the room and never joins stays out of it and hears nothing. -/
theorem out_of_room (never : Event.join c ∉ events) :
    stays c false events = false ∧ hears c false events = [] := by
  induction events with
  | nil => exact ⟨rfl, rfl⟩
  | cons event events ih =>
    have later : Event.join c ∉ events := fun h => never (List.mem_cons_of_mem _ h)
    cases event with
    | join d =>
      have other : d ≠ c := by
        rintro rfl
        exact never List.mem_cons_self
      simpa [stays, hears, other] using ih later
    | leave d => exact ih later
    | say d what => exact ih later

private theorem stays_false (never : Event.join c ∉ events) : stays c false events = false :=
  (out_of_room never).1

private theorem hears_false (never : Event.join c ∉ events) : hears c false events = [] :=
  (out_of_room never).2

private theorem hears_true (never : Event.join c ∉ events) :
    hears c true events = others c (events.takeWhile (remains c)) := by
  induction events with
  | nil => rfl
  | cons event events ih =>
    have later : Event.join c ∉ events := fun h => never (List.mem_cons_of_mem _ h)
    cases event with
    | join d => exact ih later
    | leave d =>
      by_cases same : d = c
      · subst same
        have gone : hears d false events = [] := hears_false later
        rw [List.takeWhile_cons_of_neg (by simp [remains])]
        simpa [hears, others] using gone
      · rw [List.takeWhile_cons_of_pos (by simp [remains, same])]
        simpa [hears, others, same] using ih later
    | say d what =>
      rw [List.takeWhile_cons_of_pos rfl, hears, others, ih later, Bool.true_and]
      simp only [decide_eq_true_eq]

theorem heard_of_not_joined (never : Event.join c ∉ events) : heard c events = [] :=
  hears_false never

/-- A member hears all the others from its only join to its leave, or to the end. -/
theorem heard_of_joined (first : Event.join c ∉ before) (last : Event.join c ∉ after) :
    heard c (before ++ .join c :: after) = others c (after.takeWhile (remains c)) := by
  rw [heard, hears_append, hears_false first, stays_false first, List.nil_append, hears]
  simpa using hears_true last

def joins : List (Event ι μ) → List ι
  | [] => []
  | .join d :: events => d :: joins events
  | _ :: events => joins events

omit [DecidableEq ι] in
private theorem mem_joins : c ∈ joins events ↔ Event.join c ∈ events := by
  induction events with
  | nil => simp [joins]
  | cons event events ih =>
    cases event with
    | join d => simp [joins, ih]
    | leave d => simp [joins, ih]
    | say d what => simp [joins, ih]

omit [DecidableEq ι] in
private theorem joins_append (before after : List (Event ι μ)) :
    joins (before ++ after) = joins before ++ joins after := by
  induction before with
  | nil => rfl
  | cons event before ih =>
    cases event with
    | join d => exact congrArg (d :: ·) ih
    | leave d => exact ih
    | say d what => exact ih

private theorem joins_nodup (run : Relation.ReflTransGen Step [] events) :
    (joins events).Nodup := by
  induction run with
  | refl => exact List.nodup_nil
  | tail _ step ih =>
    cases step with
    | join d new =>
      rw [joins_append]
      apply List.nodup_append.mpr
      refine ⟨ih, List.nodup_singleton d, ?_⟩
      intro b earlier e last same
      rw [List.mem_singleton.mp last] at same
      rw [same] at earlier
      exact new (mem_joins.mp earlier)
    | leave d inside =>
      rw [joins_append]
      exact (List.append_nil _).symm ▸ ih
    | say d what =>
      rw [joins_append]
      exact (List.append_nil _).symm ▸ ih

theorem join_once (run : Relation.ReflTransGen Step [] (before ++ .join c :: after)) :
    Event.join c ∉ before ∧ Event.join c ∉ after := by
  have once := joins_nodup run
  rw [joins_append, joins] at once
  obtain ⟨_, later, apart⟩ := List.nodup_append.mp once
  constructor
  · intro earlier
    exact apart c (mem_joins.mpr earlier) c List.mem_cons_self rfl
  · intro again
    exact (List.nodup_cons.mp later).1 (mem_joins.mpr again)

end Interval

section Order

theorem hears_sublist_said (c : ι) (inside : Bool) (events : List (Event ι μ)) :
    (hears c inside events).Sublist (said events) := by
  induction events generalizing inside with
  | nil => exact List.Sublist.refl _
  | cons event events ih =>
    cases event with
    | join d => exact ih _
    | leave d => exact ih _
    | say d what =>
      rw [hears, said]
      split
      · exact (ih inside).cons_cons what
      · exact (ih inside).cons what

private theorem filter_mem_eq_of_sublist {xs zs : List μ} [DecidableEq μ] (once : zs.Nodup)
    (sub : xs.Sublist zs) : zs.filter (· ∈ xs) = xs := by
  have kept : (zs.filter (· ∈ xs)).Nodup := once.filter _
  have back : xs.Sublist (zs.filter (· ∈ xs)) := by
    have filtered := sub.filter (fun x => decide (x ∈ xs))
    rwa [List.filter_eq_self.mpr fun x hx => decide_eq_true hx] at filtered
  have within : zs.filter (· ∈ xs) ⊆ xs := by
    intro x hx
    simpa using (List.mem_filter.mp hx).2
  have short : (zs.filter (· ∈ xs)).length ≤ xs.length :=
    (List.subperm_of_subset kept within).length_le
  exact (back.eq_of_length_le short).symm

theorem same_order [DecidableEq μ] {xs ys zs : List μ} (once : zs.Nodup)
    (left : xs.Sublist zs) (right : ys.Sublist zs) :
    xs.filter (· ∈ ys) = ys.filter (· ∈ xs) := by
  have first := filter_mem_eq_of_sublist once left
  have second := filter_mem_eq_of_sublist once right
  calc xs.filter (· ∈ ys)
      = (zs.filter (· ∈ xs)).filter (· ∈ ys) := congrArg _ first.symm
    _ = (zs.filter (· ∈ ys)).filter (· ∈ xs) := List.filter_comm _ _ _
    _ = ys.filter (· ∈ xs) := congrArg _ second

end Order

end SocketChat.Lib.Room
