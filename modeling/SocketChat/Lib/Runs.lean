/- SocketChat/Lib/Runs
   digest: Runs of a partial step function, guards along a run, invariants and simulations. -/

import Mathlib.Data.Nat.Init
import Mathlib.Logic.Relation
import Mathlib.Tactic.Push

set_option autoImplicit false
set_option relaxedAutoImplicit false

namespace SocketChat.Lib.Runs

universe u v w x

variable {σ : Type u} {α : Type v} {τ : Type w}

/-- Perform the actions in order; one refused action refuses the whole run. -/
def exec (step : σ → α → Option σ) : σ → List α → Option σ
  | s, [] => some s
  | s, a :: as => (step s a).bind fun t => exec step t as

def Guarded (step : σ → α → Option σ) (guard : σ → α → Prop) : σ → List α → Prop
  | _, [] => True
  | s, a :: as => guard s a ∧ ∀ t, step s a = some t → Guarded step guard t as

/-- Every action of the list meets a guard that also sees the actions after it. -/
def GuardedAhead (step : σ → α → Option σ) (guard : σ → α → List α → Prop) :
    σ → List α → Prop
  | _, [] => True
  | s, a :: as => guard s a as ∧ ∀ t, step s a = some t → GuardedAhead step guard t as

/-- The property holds in every state the run visits, both ends included. -/
def Always (step : σ → α → Option σ) (P : σ → Prop) : σ → List α → Prop
  | s, [] => P s
  | s, a :: as => P s ∧ ∀ t, step s a = some t → Always step P t as

def ReachWhere (step : σ → α → Option σ) (guard : σ → α → Prop) (s t : σ) : Prop :=
  ∃ as, Guarded step guard s as ∧ exec step s as = some t

def Reach (step : σ → α → Option σ) (s t : σ) : Prop := ∃ as, exec step s as = some t

section Basic

variable {step : σ → α → Option σ} {guard : σ → α → Prop} {P : σ → Prop}

theorem exec_cons (s : σ) (a : α) (as : List α) :
    exec step s (a :: as) = (step s a).bind fun t => exec step t as := rfl

theorem exec_cons_eq_some {s u : σ} {a : α} {as : List α} :
    exec step s (a :: as) = some u ↔ ∃ t, step s a = some t ∧ exec step t as = some u := by
  rw [exec_cons, Option.bind_eq_some_iff]

private theorem exec_append (s : σ) (as bs : List α) :
    exec step s (as ++ bs) = (exec step s as).bind fun t => exec step t bs := by
  induction as generalizing s with
  | nil => rfl
  | cons a as ih =>
    rw [List.cons_append, exec_cons, exec_cons]
    cases step s a with
    | none => rfl
    | some t => exact ih t

theorem exec_append_eq_some {s t u : σ} {as bs : List α}
    (left : exec step s as = some t) (right : exec step t bs = some u) :
    exec step s (as ++ bs) = some u := by
  rw [exec_append, left]
  exact right

theorem exists_exec (never : ∀ s a, ∃ t, step s a = some t) (s : σ) (as : List α) :
    ∃ t, exec step s as = some t := by
  induction as generalizing s with
  | nil => exact ⟨s, rfl⟩
  | cons a as ih =>
    obtain ⟨m, first⟩ := never s a
    obtain ⟨t, rest⟩ := ih m
    exact ⟨t, exec_cons_eq_some.mpr ⟨m, first, rest⟩⟩

private theorem guarded_append {s : σ} {as bs : List α} (left : Guarded step guard s as)
    (right : ∀ t, exec step s as = some t → Guarded step guard t bs) :
    Guarded step guard s (as ++ bs) := by
  induction as generalizing s with
  | nil => exact right s rfl
  | cons a as ih =>
    refine ⟨left.1, fun t ht => ih (left.2 t ht) ?_⟩
    intro u hu
    exact right u (exec_cons_eq_some.mpr ⟨t, ht, hu⟩)

theorem ReachWhere.refl (s : σ) : ReachWhere step guard s s := ⟨[], trivial, rfl⟩

theorem ReachWhere.trans {s t u : σ} (first : ReachWhere step guard s t)
    (second : ReachWhere step guard t u) : ReachWhere step guard s u := by
  obtain ⟨as, has, hst⟩ := first
  obtain ⟨bs, hbs, htu⟩ := second
  refine ⟨as ++ bs, guarded_append has ?_, exec_append_eq_some hst htu⟩
  intro t' ht'
  obtain rfl : t' = t := Option.some.inj (ht'.symm.trans hst)
  exact hbs

theorem ReachWhere.single {s t : σ} {a : α} (ok : guard s a) (taken : step s a = some t) :
    ReachWhere step guard s t :=
  ⟨[a], ⟨ok, fun _ _ => trivial⟩, exec_cons_eq_some.mpr ⟨t, taken, rfl⟩⟩

theorem ReachWhere.tail {s t u : σ} {a : α} (first : ReachWhere step guard s t)
    (ok : guard t a) (taken : step t a = some u) : ReachWhere step guard s u :=
  first.trans (.single ok taken)

theorem ReachWhere.head {s t u : σ} {a : α} (ok : guard s a) (taken : step s a = some t)
    (rest : ReachWhere step guard t u) : ReachWhere step guard s u :=
  (ReachWhere.single ok taken).trans rest

theorem ReachWhere.reach {s t : σ} (run : ReachWhere step guard s t) : Reach step s t :=
  ⟨run.choose, run.choose_spec.2⟩

theorem guarded_of_forall {as : List α} (all : ∀ a ∈ as, ∀ s, guard s a) (s : σ) :
    Guarded step guard s as := by
  induction as generalizing s with
  | nil => trivial
  | cons a as ih =>
    refine ⟨all a List.mem_cons_self s, fun t _ => ih ?_ t⟩
    intro b hb
    exact all b (List.mem_cons_of_mem a hb)

private theorem guardedAhead_iff_guarded {s : σ} {as : List α} :
    GuardedAhead step (fun s a _ => guard s a) s as ↔ Guarded step guard s as := by
  induction as generalizing s with
  | nil => exact Iff.rfl
  | cons a as ih => exact and_congr_right fun _ => forall₂_congr fun _ _ => ih

theorem Always.head {s : σ} {as : List α} (always : Always step P s as) : P s := by
  cases as with
  | nil => exact always
  | cons a as => exact always.1

instance decidableGuarded [∀ s a, Decidable (guard s a)] :
    ∀ (s : σ) (as : List α), Decidable (Guarded step guard s as)
  | _, [] => isTrue trivial
  | s, a :: as =>
      match taken : step s a with
      | none => decidable_of_iff (guard s a)
          ⟨fun ok => ⟨ok, fun t ht => by rw [taken] at ht; cases ht⟩, fun ok => ok.1⟩
      | some m =>
          have : Decidable (Guarded step guard m as) := decidableGuarded m as
          decidable_of_iff (guard s a ∧ Guarded step guard m as)
            ⟨fun ok => ⟨ok.1, fun t ht => Option.some.inj (taken.symm.trans ht) ▸ ok.2⟩,
              fun ok => ⟨ok.1, ok.2 m taken⟩⟩

instance decidableGuardedAhead {guard : σ → α → List α → Prop}
    [∀ s a later, Decidable (guard s a later)] :
    ∀ (s : σ) (as : List α), Decidable (GuardedAhead step guard s as)
  | _, [] => isTrue trivial
  | s, a :: as =>
      match taken : step s a with
      | none => decidable_of_iff (guard s a as)
          ⟨fun ok => ⟨ok, fun t ht => by rw [taken] at ht; cases ht⟩, fun ok => ok.1⟩
      | some m =>
          have : Decidable (GuardedAhead step guard m as) := decidableGuardedAhead m as
          decidable_of_iff (guard s a as ∧ GuardedAhead step guard m as)
            ⟨fun ok => ⟨ok.1, fun t ht => Option.some.inj (taken.symm.trans ht) ▸ ok.2⟩,
              fun ok => ⟨ok.1, ok.2 m taken⟩⟩

private theorem Reach.where {s t : σ} (run : Reach step s t) (all : ∀ s a, guard s a) :
    ReachWhere step guard s t :=
  ⟨run.choose, guarded_of_forall (fun a _ s => all s a) s, run.choose_spec⟩

/-- A view that some of the actions move, by actions of its own, and the others leave alone is
moved along a run by the former alone. -/
theorem exec_viewMap {β : Type x} {view : σ → τ} {step' : τ → β → Option τ} {own : α → Option β}
    (moves : ∀ s a b t, own a = some b → step s a = some t → step' (view s) b = some (view t))
    (stays : ∀ s a t, own a = none → step s a = some t → view t = view s)
    {s t : σ} {as : List α} (taken : exec step s as = some t) :
    exec step' (view s) (as.filterMap own) = some (view t) := by
  induction as generalizing s with
  | nil =>
    obtain rfl : s = t := Option.some.inj taken
    rfl
  | cons a as ih =>
    obtain ⟨m, hm, rest⟩ := exec_cons_eq_some.mp taken
    cases mine : own a with
    | none =>
      rw [List.filterMap_cons_none mine, ← stays s a m mine hm]
      exact ih rest
    | some b =>
      rw [List.filterMap_cons_some mine]
      exact exec_cons_eq_some.mpr ⟨view m, moves s a b m mine hm, ih rest⟩

theorem exec_view {view : σ → τ} {step' : τ → α → Option τ} {own : α → Bool}
    (moves : ∀ s a t, own a = true → step s a = some t → step' (view s) a = some (view t))
    (stays : ∀ s a t, own a = false → step s a = some t → view t = view s)
    {s t : σ} {as : List α} (taken : exec step s as = some t) :
    exec step' (view s) (as.filter own) = some (view t) := by
  have chosen : ∀ s a b t, Option.guard own a = some b → step s a = some t →
      step' (view s) b = some (view t) := by
    intro s a b t mine moved
    obtain ⟨rfl, is⟩ := Option.guard_eq_some_iff.mp mine
    exact moves s a t is moved
  have others : ∀ s a t, Option.guard own a = none → step s a = some t → view t = view s := by
    intro s a t other moved
    exact stays s a t (Option.guard_eq_none_iff.mp other) moved
  rw [← List.filterMap_eq_filter]
  exact exec_viewMap chosen others taken

end Basic

section Invariants

variable {step : σ → α → Option σ} {guard : σ → α → Prop} {P : σ → Prop}

theorem invariant_of_step
    (keep : ∀ s a t, P s → guard s a → step s a = some t → P t)
    {s t : σ} (start : P s) (run : ReachWhere step guard s t) : P t := by
  obtain ⟨as, ok, taken⟩ := run
  induction as generalizing s with
  | nil =>
    obtain rfl : s = t := Option.some.inj taken
    exact start
  | cons a as ih =>
    obtain ⟨m, hm, rest⟩ := exec_cons_eq_some.mp taken
    exact ih (keep s a m start ok.1 hm) (ok.2 m hm) rest

theorem invariant_of_step_reach
    (keep : ∀ s a t, P s → step s a = some t → P t)
    {s t : σ} (start : P s) (run : Reach step s t) : P t := by
  have free : ReachWhere step (fun _ _ => True) s t := run.where fun _ _ => trivial
  exact invariant_of_step (fun s a t hs _ => keep s a t hs) start free

theorem counted_of_step {P : ℕ → σ → Prop}
    (keep : ∀ n s a t, P n s → step s a = some t → P (n + 1) t)
    {n : ℕ} {s t : σ} {as : List α} (start : P n s) (taken : exec step s as = some t) :
    P (n + as.length) t := by
  induction as generalizing n s with
  | nil =>
    obtain rfl : s = t := Option.some.inj taken
    exact start
  | cons a as ih =>
    obtain ⟨m, hm, rest⟩ := exec_cons_eq_some.mp taken
    rw [List.length_cons, Nat.add_comm as.length, ← Nat.add_assoc]
    exact ih (keep n s a m start hm) rest

/-- Where steps that meet the guard keep an invariant that gives the property, and from the
invariant only they lead to the property, a run has the property in every state it visits
exactly when every one of its actions meets the guard; both may count on what is to come. -/
theorem always_iff_guardedAhead {I : σ → List α → Prop} {ahead : σ → α → List α → Prop}
    (sound : ∀ s as, I s as → P s)
    (keep : ∀ s a as t, I s (a :: as) → ahead s a as → step s a = some t → I t as)
    (only : ∀ s a as t u, I s (a :: as) → step s a = some t → exec step t as = some u →
      Always step P t as → ahead s a as)
    {s t : σ} {as : List α} (start : I s as) (taken : exec step s as = some t) :
    Always step P s as ↔ GuardedAhead step ahead s as := by
  induction as generalizing s with
  | nil => exact ⟨fun _ => trivial, fun _ => sound s [] start⟩
  | cons a as ih =>
    obtain ⟨m, hm, rest⟩ := exec_cons_eq_some.mp taken
    have unique : ∀ m', step s a = some m' → m' = m := by
      intro m' hm'
      exact Option.some.inj (hm'.symm.trans hm)
    constructor
    · rintro ⟨_, later⟩
      have always : Always step P m as := later m hm
      have ok : ahead s a as := only s a as m t start hm rest always
      refine ⟨ok, fun m' hm' => ?_⟩
      rw [unique m' hm']
      exact (ih (keep s a as m start ok hm) rest).mp always
    · rintro ⟨ok, later⟩
      refine ⟨sound s (a :: as) start, fun m' hm' => ?_⟩
      rw [unique m' hm']
      exact (ih (keep s a as m start ok hm) rest).mpr (later m hm)

/-- The same where neither the guard nor the invariant counts on what is to come. -/
theorem always_iff_guarded_of_invariant {I : σ → Prop} (sound : ∀ s, I s → P s)
    (keep : ∀ s a t, I s → guard s a → step s a = some t → I t)
    (only : ∀ s a t, I s → step s a = some t → P t → guard s a)
    {s t : σ} {as : List α} (start : I s) (taken : exec step s as = some t) :
    Always step P s as ↔ Guarded step guard s as := by
  rw [← guardedAhead_iff_guarded]
  exact always_iff_guardedAhead (I := fun s _ => I s) (fun s _ => sound s)
    (fun s a _ t => keep s a t)
    (fun s a _ t _ here moved _ always => only s a t here moved always.head) start taken

/-- Where a step keeps the property exactly when its guard holds, a run keeps it in every
state it visits exactly when every one of its actions meets the guard. -/
theorem always_iff_guarded
    (exact_step : ∀ s a t, P s → step s a = some t → (P t ↔ guard s a))
    {s t : σ} {as : List α} (start : P s) (taken : exec step s as = some t) :
    Always step P s as ↔ Guarded step guard s as :=
  always_iff_guarded_of_invariant (fun _ h => h)
    (fun s a t here ok moved => (exact_step s a t here moved).mpr ok)
    (fun s a t here moved after => (exact_step s a t here moved).mp after) start taken

theorem length_le_of_measure {μ : σ → ℕ} (lower : ∀ s a t, step s a = some t → μ t < μ s)
    {s t : σ} {as : List α} (taken : exec step s as = some t) : as.length + μ t ≤ μ s := by
  induction as generalizing s with
  | nil =>
    obtain rfl : s = t := Option.some.inj taken
    simp
  | cons a as ih =>
    obtain ⟨m, hm, rest⟩ := exec_cons_eq_some.mp taken
    have first := lower s a m hm
    have others := ih rest
    simp only [List.length_cons]
    omega

/-- Where a measure counts the turns that are due until `Q`, own turns lower it and the others do
not raise it, `Q` is met in every run that has so many own turns, whatever comes between them. -/
theorem met_of_turns {own : α → Bool} {I Q : σ → Prop} {μ : σ → ℕ}
    (due : ∀ s, I s → Q s ∨ 0 < μ s)
    (next : ∀ s a t, I s → step s a = some t → Q t ∨ I t ∧ μ t + (if own a then 1 else 0) ≤ μ s)
    {s t : σ} {as : List α} (start : I s) (taken : exec step s as = some t)
    (turns : μ s ≤ as.countP own) :
    ∃ before after m, as = before ++ after ∧ exec step s before = some m ∧ Q m := by
  induction as generalizing s with
  | nil =>
    have none_due : μ s = 0 := Nat.le_zero.mp turns
    rcases due s start with met | more
    · exact ⟨[], [], s, rfl, rfl, met⟩
    · omega
  | cons a as ih =>
    obtain ⟨m, hm, rest⟩ := exec_cons_eq_some.mp taken
    rw [List.countP_cons] at turns
    rcases next s a m start hm with met | ⟨later, less⟩
    · exact ⟨[a], as, m, rfl, exec_cons_eq_some.mpr ⟨m, hm, rfl⟩, met⟩
    · obtain ⟨before, after, u, rfl, run, met⟩ := ih later rest (by omega)
      exact ⟨a :: before, after, u, rfl, exec_cons_eq_some.mpr ⟨m, hm, run⟩, met⟩

/-- Where every state of an invariant leads to another one with more, there is no end to it. -/
theorem exists_far_of_progress {I : σ → Prop} {μ : σ → ℕ}
    (progress : ∀ s, I s → ∃ t, ReachWhere step guard s t ∧ I t ∧ μ s < μ t) {s : σ}
    (here : I s) (n : ℕ) : ∃ t, ReachWhere step guard s t ∧ I t ∧ μ s + n ≤ μ t := by
  induction n with
  | zero => exact ⟨s, .refl s, here, Nat.le_refl _⟩
  | succ n ih =>
    obtain ⟨m, first, there, far⟩ := ih
    obtain ⟨t, second, further, more⟩ := progress m there
    exact ⟨t, first.trans second, further, by omega⟩

theorem exists_stuck_of_measure {μ : σ → ℕ} (lower : ∀ s a t, step s a = some t → μ t < μ s)
    (s : σ) : ∃ t, ReachWhere step guard s t ∧ ∀ a, guard t a → step t a = none := by
  induction h : μ s using Nat.strong_induction_on generalizing s with
  | _ n ih =>
    by_cases stuck : ∀ a, guard s a → step s a = none
    · exact ⟨s, .refl s, stuck⟩
    · push Not at stuck
      obtain ⟨a, ok, more⟩ := stuck
      obtain ⟨m, hm⟩ := Option.ne_none_iff_exists'.mp more
      obtain ⟨t, run, last⟩ := ih (μ m) (h ▸ lower s a m hm) m rfl
      exact ⟨t, run.head ok hm, last⟩

end Invariants

section Simulation

variable {step : σ → α → Option σ} {guard : σ → α → Prop} {astep : τ → τ → Prop}
  {R : σ → τ → Prop}

/-- Every guarded concrete step is matched by finitely many abstract steps. -/
def Simulates (step : σ → α → Option σ) (guard : σ → α → Prop) (astep : τ → τ → Prop)
    (R : σ → τ → Prop) : Prop :=
  ∀ s a s' t, R s t → guard s a → step s a = some s' →
    ∃ t', Relation.ReflTransGen astep t t' ∧ R s' t'

/-- A guarded concrete run is matched by an abstract run between related states. -/
theorem Simulates.run (sim : Simulates step guard astep R) {s s' : σ} {t : τ}
    (start : R s t) (run : ReachWhere step guard s s') :
    ∃ t', Relation.ReflTransGen astep t t' ∧ R s' t' := by
  refine invariant_of_step (P := fun s => ∃ t', Relation.ReflTransGen astep t t' ∧ R s t')
    ?_ ⟨t, .refl, start⟩ run
  rintro s a s' ⟨m, before, related⟩ ok taken
  obtain ⟨t', after, related'⟩ := sim s a s' m related ok taken
  exact ⟨t', before.trans after, related'⟩

end Simulation

end SocketChat.Lib.Runs
