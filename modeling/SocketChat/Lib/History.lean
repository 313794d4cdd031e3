/- SocketChat/Lib/History
   digest: History variables beside a partial step function, which neither help nor hinder it. -/

import SocketChat.Lib.Runs

set_option autoImplicit false
set_option relaxedAutoImplicit false

namespace SocketChat.Lib.History

open SocketChat.Lib.Runs

universe u v w

variable {σ : Type u} {α : Type v} {η : Type w}

/-- The step, and beside it a history in which each action that is performed is noted. -/
def remember (step : σ → α → Option σ) (note : σ → α → η → η) (m : σ × η) (a : α) :
    Option (σ × η) :=
  (step m.1 a).map fun t => (t, note m.1 a m.2)

section Remember

variable {step : σ → α → Option σ} {note : σ → α → η → η} {m m' : σ × η} {a : α}

theorem remember_eq_some : remember step note m a = some m' ↔
    step m.1 a = some m'.1 ∧ note m.1 a m.2 = m'.2 := by
  rw [remember, Option.map_eq_some_iff]
  constructor
  · rintro ⟨t, taken, rfl⟩
    exact ⟨taken, rfl⟩
  · rintro ⟨taken, noted⟩
    exact ⟨m'.1, taken, Prod.ext rfl noted⟩

theorem exists_exec_remember {s t : σ} {as : List α} (taken : exec step s as = some t) (h : η) :
    ∃ h', exec (remember step note) (s, h) as = some (t, h') := by
  induction as generalizing s h with
  | nil =>
    obtain rfl : s = t := Option.some.inj taken
    exact ⟨h, rfl⟩
  | cons a as ih =>
    obtain ⟨next, first, rest⟩ := exec_cons_eq_some.mp taken
    obtain ⟨h', later⟩ := ih rest (note s a h)
    exact ⟨h', exec_cons_eq_some.mpr ⟨(next, note s a h), remember_eq_some.mpr ⟨first, rfl⟩, later⟩⟩

private theorem guarded_remember {guard : σ → α → Prop} {s : σ} {as : List α}
    (ok : Guarded step guard s as) (h : η) :
    Guarded (remember step note) (fun m => guard m.1) (s, h) as := by
  induction as generalizing s h with
  | nil => trivial
  | cons a as ih =>
    refine ⟨ok.1, ?_⟩
    rintro ⟨next, h'⟩ taken
    exact ih (ok.2 next (remember_eq_some.mp taken).1) h'

variable (note) in
theorem exists_reach_remember {guard : σ → α → Prop} {s t : σ} (run : ReachWhere step guard s t)
    (h : η) :
    ∃ h', ReachWhere (remember step note) (fun m => guard m.1) (s, h) (t, h') := by
  obtain ⟨as, ok, taken⟩ := run
  obtain ⟨h', later⟩ := exists_exec_remember taken h
  exact ⟨h', as, guarded_remember ok h, later⟩

theorem reach_of_remember {guard : σ → α → Prop}
    (run : ReachWhere (remember step note) (fun m => guard m.1) m m') :
    ReachWhere step guard m.1 m'.1 := by
  refine invariant_of_step (P := fun n => ReachWhere step guard m.1 n.1) ?_ (.refl m.1) run
  intro n a n' before ok taken
  exact before.tail ok (remember_eq_some.mp taken).1

theorem prefix_of_reach {β : Type w} {note : σ → α → List β → List β}
    {guard : σ × List β → α → Prop} {m m' : σ × List β} (grows : ∀ s a h, h <+: note s a h)
    (run : ReachWhere (remember step note) guard m m') : m.2 <+: m'.2 := by
  refine invariant_of_step (P := fun n => m.2 <+: n.2) ?_ List.prefix_rfl run
  intro n a n' before _ taken
  rw [← (remember_eq_some.mp taken).2]
  exact before.trans (grows n.1 a n.2)

end Remember

end SocketChat.Lib.History
