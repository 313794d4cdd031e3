/- SocketChat/TestCode/Echo/Children
   digest: The multiprocess echo server counts the children that it has not waited for. -/

import Mathlib.Data.List.Nodup
import Mathlib.Data.List.Perm.Subperm
import SocketChat.Lib.History
import SocketChat.TestCode.Echo.Agreement

set_option autoImplicit false
set_option relaxedAutoImplicit false

namespace SocketChat.TestCode.Echo.Children

open SocketChat.Lib.History
open SocketChat.Lib.Runs
open SocketChat.TestCode.Echo.Agreement
open SocketChat.TestCode.Echo.Model
open SocketChat.TestCode.Echo.Model.Multiprocess

/-- What `fork` returns in the parent is a `pid_t`, a positive `int`, that none of the children
has which are still to be waited for. -/
def Identified (pid : ConnId → ℕ) (s : State) : Action → Prop
  | .main => s.parent = .fork → 0 < pid (s.accepted - 1) ∧ pid (s.accepted - 1) < 2 ^ 31 ∧
      ∀ c ∈ unreaped s, pid c ≠ pid (s.accepted - 1)
  | _ => True

def gone (s : State) : List ConnId :=
  (List.range s.accepted).filter fun c => (s.children c).any exited

def note (s : State) : Action → Option (List ConnId) → Option (List ConnId)
  | .main, last =>
      match s.parent with
      | .count => none
      | .waitpid => some (gone s)
      | _ => last
  | .reap _, _ => some (gone s)
  | _, last => last

abbrev Noted := State × Option (List ConnId)

def start : Noted := (init, none)

/-- The count is the number of the children to be waited for, but for the places between a `fork`
and its increment and between a `waitpid` and its decrement; `waitpid` is called for a child. -/
def Balanced : ParentPoint → ℕ → ℕ → Prop
  | .count, childProcCount, n => n = childProcCount + 1
  | .decrement, childProcCount, n => childProcCount = n + 1
  | .waitpid, childProcCount, n => childProcCount = n ∧ 0 < n
  | _, childProcCount, n => childProcCount = n

section Unreaped

variable {s t : State} {c : ConnId}

def awaited (s : State) (c : ConnId) : Bool := (s.children c).isSome && c ∉ s.reaped

private theorem unreaped_eq (s : State) :
    unreaped s = (List.range s.accepted).filter (awaited s) := rfl

private theorem awaited_eq_true :
    awaited s c = true ↔ (s.children c).isSome = true ∧ c ∉ s.reaped := by
  simp [awaited]

private theorem mem_unreaped : c ∈ unreaped s ↔ c < s.accepted ∧ awaited s c = true := by
  rw [unreaped_eq, List.mem_filter, List.mem_range]

private theorem mem_zombies :
    c ∈ zombies s ↔ c ∈ unreaped s ∧ (s.children c).any exited = true := List.mem_filter

private theorem nodup_unreaped (s : State) : (unreaped s).Nodup := List.nodup_range.filter _

private theorem unreaped_congr (accepted : t.accepted = s.accepted)
    (same : ∀ c < s.accepted, awaited t c = awaited s c) : unreaped t = unreaped s := by
  rw [unreaped_eq, unreaped_eq, accepted]
  exact List.filter_congr fun c inside => same c (List.mem_range.mp inside)

private theorem unreaped_accepted (accepted : t.accepted = s.accepted + 1)
    (same : awaited t = awaited s) (none_yet : s.children s.accepted = none) :
    unreaped t = unreaped s := by
  have no_child : awaited s s.accepted = false := by
    rw [awaited, none_yet]
    rfl
  rw [unreaped_eq, unreaped_eq, accepted, same, List.range_succ, List.filter_append,
    List.filter_cons_of_neg (Bool.not_eq_true _ ▸ no_child), List.filter_nil, List.append_nil]

private theorem unreaped_forked {n : ℕ} (newest : s.accepted = n + 1)
    (accepted : t.accepted = n + 1)
    (children : t.children = Function.update s.children n (some .recv))
    (reaped : t.reaped = s.reaped) (none_yet : s.children n = none) (never : n ∉ s.reaped) :
    unreaped t = unreaped s ++ [n] := by
  have others : (List.range n).filter (awaited t) = (List.range n).filter (awaited s) := by
    refine List.filter_congr fun c inside => ?_
    rw [awaited, awaited, children, reaped,
      Function.update_of_ne (Nat.ne_of_lt (List.mem_range.mp inside))]
  have before : ¬awaited s n = true := by
    rw [awaited, none_yet]
    exact Bool.false_ne_true
  have after : awaited t n = true := by
    rw [awaited_eq_true, children, reaped, Function.update_self]
    exact ⟨rfl, never⟩
  rw [unreaped_eq, unreaped_eq, newest, accepted, List.range_succ, List.filter_append,
    List.filter_append, others, List.filter_cons_of_pos after, List.filter_cons_of_neg before,
    List.filter_nil, List.filter_nil, List.append_nil]

private theorem unreaped_reaped (accepted : t.accepted = s.accepted)
    (children : t.children = s.children)
    (reaped : t.reaped = s.reaped ++ [c]) : unreaped t = (unreaped s).erase c := by
  have fewer : ∀ d, awaited t d = (d != c && awaited s d) := by
    intro d
    rw [awaited, awaited, children, reaped]
    by_cases same : d = c
    · simp [same]
    · simp [same]
  rw [(nodup_unreaped s).erase_eq_filter, unreaped_eq, unreaped_eq, accepted, List.filter_filter]
  exact List.filter_congr fun d _ => fewer d

end Unreaped

/-- The count is balanced, and `waitpid` has not failed, as long as the children to be waited for
have process ids of their own. -/
structure Counted (pid : ConnId → ℕ) (s : State) : Prop where
  unstarted : Unstarted s.children s.accepted (s.parent = .fork)
  waited : ∀ c ∈ s.reaped, (s.children c).isSome = true
  distinct : ((unreaped s).map pid).Nodup
  identified : ∀ c ∈ unreaped s, pid c < 2 ^ 31
  balanced : Balanced s.parent s.childProcCount (unreaped s).length
  alive : s.died ≠ some "waitpid() failed"

namespace Counted

variable {pid : ConnId → ℕ} {s t : State}

private theorem few (h : Counted pid s) : (unreaped s).length ≤ 2 ^ 31 := by
  have within : (unreaped s).map pid ⊆ List.range (2 ^ 31) := by
    intro id inside
    obtain ⟨c, held, rfl⟩ := List.mem_map.mp inside
    exact List.mem_range.mpr (h.identified c held)
  have fewer := (List.subperm_of_subset h.distinct within).length_le
  rwa [List.length_map, List.length_range] at fewer

private theorem init (pid : ConnId → ℕ) : Counted pid init where
  unstarted := ⟨fun _ _ => rfl, ParentPoint.noConfusion⟩
  waited := fun _ none_yet => absurd none_yet List.not_mem_nil
  distinct := List.nodup_nil
  identified := fun _ none_yet => absurd none_yet List.not_mem_nil
  balanced := rfl
  alive := nofun

private theorem keep (h : Counted pid s)
    (unstarted : Unstarted t.children t.accepted (t.parent = .fork))
    (waited : ∀ c ∈ t.reaped, (t.children c).isSome = true) (same : unreaped t = unreaped s)
    (balanced : Balanced t.parent t.childProcCount (unreaped s).length)
    (alive : t.died ≠ some "waitpid() failed") : Counted pid t := by
  refine ⟨unstarted, waited, ?_, ?_, ?_, alive⟩
  · rw [same]
    exact h.distinct
  · rw [same]
    exact h.identified
  · rw [same]
    exact balanced

private theorem forked (h : Counted pid s) (here : s.parent = .fork)
    (identified : Identified pid s .main)
    (unstarted : Unstarted (Function.update s.children (s.accepted - 1) (some .recv)) s.accepted
      (ParentPoint.count = .fork)) :
    Counted pid { s with
      parent := .count
      children := Function.update s.children (s.accepted - 1) (some .recv) } := by
  obtain ⟨some_accepted, none_yet⟩ := h.unstarted.newest here
  obtain ⟨_, small, fresh⟩ := identified here
  obtain ⟨n, newest⟩ := Nat.exists_eq_add_of_le' some_accepted
  have index : s.accepted - 1 = n := by omega
  rw [index] at none_yet small fresh unstarted ⊢
  have never : n ∉ s.reaped := by
    intro inside
    have child := h.waited n inside
    rw [none_yet] at child
    cases child
  have more : unreaped { s with
      parent := .count, children := Function.update s.children n (some .recv) } =
        unreaped s ++ [n] :=
    unreaped_forked newest newest rfl rfl none_yet never
  refine ⟨unstarted, ?_, ?_, ?_, ?_, h.alive⟩
  · intro c inside
    have other : c ≠ n := fun is => never (is ▸ inside)
    dsimp only
    rw [Function.update_of_ne other]
    exact h.waited c inside
  · rw [more, List.map_append, List.nodup_append]
    refine ⟨h.distinct, List.nodup_singleton _, ?_⟩
    intro id old id' new
    obtain ⟨c, held, rfl⟩ := List.mem_map.mp old
    rw [List.mem_singleton.mp new]
    exact fresh c held
  · rw [more]
    intro c held
    rcases List.mem_append.mp held with old | new
    · exact h.identified c old
    · rw [List.mem_singleton.mp new]
      exact small
  · have balanced := h.balanced
    rw [here] at balanced
    rw [more, List.length_append]
    change (unreaped s).length + 1 = s.childProcCount + 1
    exact congrArg (· + 1) balanced.symm

private theorem reaped (h : Counted pid s) {c : ConnId} (here : s.parent = .waitpid)
    (zombie : c ∈ zombies s) :
    Counted pid { s with parent := .decrement, reaped := s.reaped ++ [c] } := by
  have fewer : unreaped { s with parent := .decrement, reaped := s.reaped ++ [c] } =
      (unreaped s).erase c := unreaped_reaped rfl rfl rfl
  have held := (mem_zombies.mp zombie).1
  have child := (awaited_eq_true.mp (mem_unreaped.mp held).2).1
  refine ⟨h.unstarted.weaken ParentPoint.noConfusion, ?_, ?_, ?_, ?_, h.alive⟩
  · intro d inside
    rcases List.mem_append.mp inside with old | new
    · exact h.waited d old
    · rw [List.mem_singleton.mp new]
      exact child
  · rw [fewer]
    exact h.distinct.sublist (List.erase_sublist.map pid)
  · rw [fewer]
    intro d still
    exact h.identified d (List.mem_of_mem_erase still)
  · have balanced := h.balanced
    rw [here] at balanced
    rw [fewer, List.length_erase_of_mem held]
    change s.childProcCount = (unreaped s).length - 1 + 1
    obtain ⟨count, some_child⟩ := balanced
    omega

end Counted

private theorem counted_step (pid : ConnId → ℕ) (s : State) (a : Action) (t : State)
    (h : Counted pid s) (ok : Identified pid s a) (taken : step s a = some t) : Counted pid t := by
  have unstarted := (multiprocess_step 0 s a t h.unstarted taken).1
  have few := h.few
  have balanced := h.balanced
  cases took_of_step taken with
  | accepted here =>
    rw [here] at balanced
    exact h.keep unstarted h.waited
      (unreaped_accepted rfl rfl (h.unstarted.later _ (Nat.le_refl _))) balanced h.alive
  | called c k p q out child handled =>
    have same : ∀ d, (Function.update s.children c (some q) d).isSome = (s.children d).isSome := by
      intro d
      by_cases is : d = c
      · rw [is, Function.update_self, child]
        rfl
      · rw [Function.update_of_ne is]
    refine h.keep unstarted ?_ (unreaped_congr rfl fun d _ => ?_) balanced h.alive
    · intro d inside
      exact (same d).trans (h.waited d inside)
    · rw [awaited, awaited, same d]
  | forked here => exact h.forked here ok unstarted
  | counted here =>
    rw [here] at balanced
    refine h.keep unstarted h.waited rfl ?_ h.alive
    change (s.childProcCount + 1) % 2 ^ 32 = (unreaped s).length
    change (unreaped s).length = s.childProcCount + 1 at balanced
    omega
  | cleaned here zero =>
    rw [here] at balanced
    exact h.keep unstarted h.waited rfl balanced h.alive
  | goesOn here more =>
    rw [here] at balanced
    change s.childProcCount = (unreaped s).length at balanced
    exact h.keep unstarted h.waited rfl ⟨balanced, by omega⟩ h.alive
  | waitFailed here nobody =>
    rw [here] at balanced
    rw [nobody] at balanced
    exact absurd balanced.2 (Nat.lt_irrefl 0)
  | noZombie here some_child nobody =>
    rw [here] at balanced
    exact h.keep unstarted h.waited rfl balanced.1 h.alive
  | decremented here =>
    rw [here] at balanced
    refine h.keep unstarted h.waited rfl ?_ h.alive
    change (s.childProcCount + (2 ^ 32 - 1)) % 2 ^ 32 = (unreaped s).length
    change s.childProcCount = (unreaped s).length + 1 at balanced
    omega
  | acceptFailed here => exact h.keep unstarted h.waited rfl balanced (by simp)
  | forkFailed here => exact h.keep unstarted h.waited rfl balanced (by simp)
  | reaped c here zombie => exact h.reaped here zombie

section Cleanup

variable {s t : State} {c : ConnId}

private theorem mem_gone : c ∈ gone s ↔ c < s.accepted ∧ (s.children c).any exited = true := by
  rw [gone, List.mem_filter, List.mem_range]

private theorem forked_of_gone (held : c ∈ gone s) : (s.children c).isSome = true := by
  have exits := (mem_gone.mp held).2
  cases child : s.children c with
  | none =>
    rw [child] at exits
    cases exits
  | some point => rfl

private theorem isSome_update {children : ConnId → Option Point} (d : ConnId) (point : Point)
    (child : (children c).isSome = true) :
    (Function.update children d (some point) c).isSome = true := by
  by_cases is : c = d
  · subst is
    rw [Function.update_self]
    rfl
  · rw [Function.update_of_ne is]
    exact child

private theorem isSome_step {a : Action} (taken : step s a = some t)
    (child : (s.children c).isSome = true) : (t.children c).isSome = true := by
  cases took_of_step taken with
  | called d k p q out _ handled => exact isSome_update d q child
  | forked here => exact isSome_update (s.accepted - 1) .recv child
  | _ => exact child

private theorem forked_of_note {a : Action} {last : Option (List ConnId)} {called : List ConnId}
    (before : ∀ called, last = some called → ∀ c ∈ called, (s.children c).isSome = true)
    (noted : note s a last = some called) (held : c ∈ called) : (s.children c).isSome = true := by
  unfold note at noted
  split at noted
  · split at noted
    · cases noted
    · obtain rfl := Option.some.inj noted
      exact forked_of_gone held
    · exact before called noted c held
  · obtain rfl := Option.some.inj noted
    exact forked_of_gone held
  · exact before called noted c held

end Cleanup

/-- The parent is in the loop that cleans up zombies. -/
def Cleaning (s : State) : Prop :=
  s.parent = .test ∨ s.parent = .waitpid ∨ s.parent = .decrement

def ofParent : Action → Bool
  | .event (.call _ _) => false
  | _ => true

private theorem not_cleaning {s : State}
    (outside : s.parent = .accept ∨ s.parent = .fork ∨ s.parent = .count) : ¬Cleaning s := by
  rintro (inside | inside | inside)
  all_goals
    rw [inside] at outside
    rcases outside with other | other | other
    all_goals cases other

private theorem running_of_step {s t : State} {a : Action} (own : ofParent a = true)
    (taken : step s a = some t) : s.died = none := by
  by_contra dead
  cases a with
  | event e =>
    cases e with
    | accept =>
      rw [step, if_neg dead] at taken
      cases taken
    | call c k => cases own
  | main | fails | reap =>
    rw [step, if_neg dead] at taken
    cases taken

structure Cleans (pid : ConnId → ℕ) (m : Noted) : Prop where
  counted : Counted pid m.1
  forked : ∀ called, m.2 = some called → ∀ c ∈ called, (m.1.children c).isSome = true
  first : m.1.parent = .test → m.2 = none → 0 < m.1.childProcCount
  later : m.1.parent = .decrement → m.2 ≠ none
  running : Cleaning m.1 → m.1.died = none

private theorem cleans_start (pid : ConnId → ℕ) : Cleans pid start where
  counted := .init pid
  forked := nofun
  first := nofun
  later := nofun
  running := fun _ => rfl

private theorem cleans_step (pid : ConnId → ℕ) (m : Noted) (a : Action) (m' : Noted)
    (h : Cleans pid m) (ok : Identified pid m.1 a) (taken : remember step note m a = some m') :
    Cleans pid m' := by
  obtain ⟨s, last⟩ := m
  obtain ⟨t, last'⟩ := m'
  obtain ⟨moved, noted⟩ := remember_eq_some.mp taken
  subst noted
  have counted := counted_step pid s a t h.counted ok moved
  have forked : ∀ called, note s a last = some called →
      ∀ c ∈ called, (t.children c).isSome = true := by
    intro called noted c held
    exact isSome_step moved (forked_of_note h.forked noted held)
  have balanced := h.counted.balanced
  have few : (unreaped s).length ≤ 2 ^ 31 := h.counted.few
  have running : ofParent a = true → s.died = none := fun own => running_of_step own moved
  cases took_of_step moved with
  | counted here =>
    rw [here] at balanced
    refine ⟨counted, forked, fun _ _ => ?_, nofun, fun _ => running rfl⟩
    change (unreaped s).length = s.childProcCount + 1 at balanced
    change 0 < (s.childProcCount + 1) % 2 ^ 32
    omega
  | decremented here =>
    have same : note s .main last = last := by
      rw [note, here]
    refine ⟨counted, forked, fun _ nothing => ?_, nofun, fun _ => running rfl⟩
    exact absurd (same.symm.trans nothing) (h.later here)
  | reaped c here zombie =>
    exact ⟨counted, forked, nofun, fun _ => nofun, fun _ => running rfl⟩
  | called c k p q out child handled =>
    exact ⟨counted, forked, h.first, h.later, h.running⟩
  | waitFailed here nobody => exact absurd rfl counted.alive
  | acceptFailed here =>
    exact ⟨counted, forked, h.first, h.later,
      fun inside => absurd inside (not_cleaning (.inl here))⟩
  | forkFailed here =>
    exact ⟨counted, forked, h.first, h.later,
      fun inside => absurd inside (not_cleaning (.inr (.inl here)))⟩
  | _ => exact ⟨counted, forked, nofun, nofun, fun _ => running rfl⟩

private theorem cleans_run (pid : ConnId → ℕ) (m : Noted)
    (run : ReachWhere (remember step note) (fun m a => Identified pid m.1 a) start m) :
    Cleans pid m :=
  invariant_of_step (cleans_step pid) (cleans_start pid) run

/-- The loop ends when all the children are waited for that had exited before it called `waitpid`
for the last time. -/
theorem reaped_of_cleaned {pid : ConnId → ℕ} {m m' : Noted} {a : Action} (h : Cleans pid m)
    (taken : remember step note m a = some m')
    (within : m.1.parent = .test ∨ m.1.parent = .waitpid) (ends : m'.1.parent = .accept) :
    ∃ called, m'.2 = some called ∧ ∀ c ∈ called, c ∈ m'.1.reaped := by
  obtain ⟨s, last⟩ := m
  obtain ⟨t, last'⟩ := m'
  obtain ⟨moved, noted⟩ := remember_eq_some.mp taken
  subst noted
  have balanced := h.counted.balanced
  have leaves : t.parent ≠ s.parent := by
    intro same
    rcases within with here | here
    · cases here.symm.trans (same.symm.trans ends)
    · cases here.symm.trans (same.symm.trans ends)
  cases took_of_step moved with
  | cleaned here zero =>
    have same : note s .main last = last := by
      rw [note, here]
    rw [here] at balanced
    have nobody : unreaped s = [] := by
      change s.childProcCount = (unreaped s).length at balanced
      exact List.eq_nil_of_length_eq_zero (balanced.symm.trans zero)
    cases last with
    | none => exact absurd zero (Nat.ne_of_gt (h.first here rfl))
    | some called =>
      refine ⟨called, same, fun c held => ?_⟩
      have child := h.forked called rfl c held
      by_contra still
      have inside : c < s.accepted := by
        by_contra behind
        rw [h.counted.unstarted.later c (Nat.le_of_not_lt behind)] at child
        cases child
      have waits : c ∈ unreaped s :=
        mem_unreaped.mpr ⟨inside, awaited_eq_true.mpr ⟨child, still⟩⟩
      rw [nobody] at waits
      cases waits
  | noZombie here some_child nobody =>
    have called : note s .main last = some (gone s) := by
      rw [note, here]
    refine ⟨gone s, called, fun c held => ?_⟩
    obtain ⟨inside, exits⟩ := mem_gone.mp held
    by_contra still
    have zombie : c ∈ zombies s :=
      mem_zombies.mpr ⟨mem_unreaped.mpr ⟨inside,
        awaited_eq_true.mpr ⟨forked_of_gone held, still⟩⟩, exits⟩
    rw [nobody] at zombie
    cases zombie
  | called c k p q out child handled => exact absurd rfl leaves
  | waitFailed here nobody => exact absurd rfl leaves
  | acceptFailed here => exact absurd rfl leaves
  | forkFailed here => exact absurd rfl leaves
  | _ => cases ends

def rounds (s : State) : ℕ :=
  3 * s.childProcCount +
    match s.parent with
    | .test => 2
    | .waitpid => 1
    | _ => 0

private theorem rounds_le (s : State) : rounds s ≤ 3 * s.childProcCount + 2 := by
  rw [rounds]
  split
  · exact Nat.le_refl _
  · omega
  · omega

private theorem rounds_step {pid : ConnId → ℕ} {s t : State} {a : Action} (h : Counted pid s)
    (before : Cleaning s) (after : Cleaning t) (taken : step s a = some t) :
    [a].countP ofParent + rounds t ≤ rounds s := by
  have balanced := h.balanced
  have few := h.few
  have left : t.parent ≠ .accept := by
    rcases after with here | here | here
    all_goals
      rw [here]
      exact ParentPoint.noConfusion
  cases took_of_step taken with
  | called c k p q out child handled => exact Nat.le_of_eq (Nat.zero_add _)
  | goesOn here more =>
    simp only [rounds, here, ofParent, List.countP_singleton, if_true]
    omega
  | reaped c here zombie =>
    simp only [rounds, here, ofParent, List.countP_singleton, if_true]
    omega
  | decremented here =>
    rw [here] at balanced
    change s.childProcCount = (unreaped s).length + 1 at balanced
    simp only [rounds, here, ofParent, List.countP_singleton, if_true]
    omega
  | waitFailed here nobody =>
    rw [here, nobody] at balanced
    exact absurd balanced.2 (Nat.lt_irrefl 0)
  | cleaned here zero => exact absurd rfl left
  | noZombie here some_child nobody => exact absurd rfl left
  | accepted here | acceptFailed here => exact absurd before (not_cleaning (.inl here))
  | forked here | forkFailed here => exact absurd before (not_cleaning (.inr (.inl here)))
  | counted here => exact absurd before (not_cleaning (.inr (.inr here)))

/-- However the exits of the children fall, the loop ends: the parent makes at most three steps in
it for each child that it has counted, and two more. -/
theorem cleanup_ends {pid : ConnId → ℕ} {s t : State} {as : List Action} (h : Counted pid s)
    (within : Always step Cleaning s as) (taken : exec step s as = some t) :
    as.countP ofParent + rounds t ≤ rounds s := by
  induction as generalizing s with
  | nil =>
    obtain rfl : s = t := Option.some.inj taken
    exact Nat.le_of_eq (Nat.zero_add _)
  | cons a as ih =>
    obtain ⟨m, first, rest⟩ := exec_cons_eq_some.mp taken
    obtain ⟨here, later⟩ := within
    have inside := later m first
    have no_fork : Identified pid s a := by
      cases a with
      | main =>
        intro forks
        exact absurd here (not_cleaning (.inr (.inl forks)))
      | _ => trivial
    have one := rounds_step h here inside.head first
    have others := ih (counted_step pid s a m h no_fork first) inside rest
    have split : (a :: as).countP ofParent = [a].countP ofParent + as.countP ofParent := by
      rw [← List.singleton_append, List.countP_append]
    omega

private theorem moves_of_cleaning {s : State} (within : Cleaning s) (running : s.died = none) :
    ∃ a, ofParent a = true ∧ (step s a).isSome = true := by
  have main : step s .main = runParent s := if_pos running
  rcases within with here | here | here
  · refine ⟨.main, rfl, ?_⟩
    rw [main, runParent, here]
    dsimp only
    split
    · rfl
    · rfl
  · by_cases waits : zombies s = []
    · refine ⟨.main, rfl, ?_⟩
      rw [main, runParent, here]
      dsimp only
      rw [if_pos waits]
      split
      · rfl
      · rfl
    · obtain ⟨c, zombie⟩ := List.exists_mem_of_ne_nil _ waits
      refine ⟨.reap c, rfl, ?_⟩
      rw [step, if_pos running, reap, here]
      dsimp only
      rw [if_pos zombie]
      rfl
  · refine ⟨.main, rfl, ?_⟩
    rw [main, runParent, here]
    rfl

private theorem decremented_once {pid : ConnId → ℕ} {s t : State} {a : Action} (h : Counted pid s)
    (taken : step s a = some t) (before : s.parent = .decrement) (after : t.parent = .test) :
    t.childProcCount + 1 = s.childProcCount := by
  have balanced := h.balanced
  have few := h.few
  rw [before] at balanced
  change s.childProcCount = (unreaped s).length + 1 at balanced
  cases took_of_step taken with
  | decremented here =>
    dsimp only
    omega
  | called c k p q out child handled => cases before.symm.trans after
  | acceptFailed here => cases before.symm.trans here
  | forkFailed here => cases before.symm.trans here
  | waitFailed here nobody => cases before.symm.trans here
  | goesOn here more => cases before.symm.trans here
  | counted here => cases before.symm.trans here
  | _ => cases after

/-- In every run the count is the number of the children that were forked and not waited for,
whenever the parent is not just between a call and its arithmetic; the decrement does not wrap,
`waitpid` never fails, and the loop that cleans up ends, with all the children waited for that had
exited before its last call of `waitpid`. -/
theorem children_accounted (pid : ConnId → ℕ) (m : Noted)
    (run : ReachWhere (remember step note) (fun m a => Identified pid m.1 a) start m) :
    (m.1.parent ≠ .count → m.1.parent ≠ .decrement →
        m.1.childProcCount = (unreaped m.1).length) ∧
      m.1.died ≠ some "waitpid() failed" ∧
      (∀ a m', remember step note m a = some m' →
        (m.1.parent = .decrement → m'.1.parent = .test →
          m'.1.childProcCount + 1 = m.1.childProcCount) ∧
        (m.1.parent = .test ∨ m.1.parent = .waitpid → m'.1.parent = .accept →
          ∃ called, m'.2 = some called ∧ ∀ c ∈ called, c ∈ m'.1.reaped)) ∧
      (Cleaning m.1 → ∃ a, ofParent a = true ∧ (step m.1 a).isSome = true) ∧
      ∀ as s, Always step Cleaning m.1 as → exec step m.1 as = some s →
        as.countP ofParent ≤ 3 * m.1.childProcCount + 2 := by
  have cleans := cleans_run pid m run
  have balanced := cleans.counted.balanced
  refine ⟨?_, cleans.counted.alive, ?_, fun within => ?_, ?_⟩
  · intro not_count not_decrement
    cases here : m.1.parent with
    | count => exact absurd here not_count
    | decrement => exact absurd here not_decrement
    | waitpid =>
      rw [here] at balanced
      exact balanced.1
    | _ =>
      rw [here] at balanced
      exact balanced
  · intro a m' taken
    have moved := (remember_eq_some.mp taken).1
    exact ⟨decremented_once cleans.counted moved, reaped_of_cleaned cleans taken⟩
  · exact moves_of_cleaning within (cleans.running within)
  · intro as s within taken
    have ends := cleanup_ends cleans.counted within taken
    have most := rounds_le m.1
    omega

instance decidableIdentified (pid : ConnId → ℕ) (s : State) :
    ∀ a, Decidable (Identified pid s a)
  | .main => inferInstanceAs (Decidable (_ → _))
  | .event _ | .fails | .reap _ => isTrue trivial

def oneExits : List Action :=
  [.event .accept, .main, .main, .main, .main, .event (.call 0 .recvFails), .event .accept,
    .main, .main, .main, .reap 0, .main, .main]

theorem one_exit_accounted : ∃ m,
    ReachWhere (remember step note) (fun m a => Identified (· + 2) m.1 a) start m ∧
      m.1.parent = .waitpid ∧ m.1.reaped = [0] ∧
      (m.1.parent ≠ .count → m.1.parent ≠ .decrement →
        m.1.childProcCount = (unreaped m.1).length) ∧
      m.1.died ≠ some "waitpid() failed" ∧
      (∀ a m', remember step note m a = some m' →
        (m.1.parent = .decrement → m'.1.parent = .test →
          m'.1.childProcCount + 1 = m.1.childProcCount) ∧
        (m.1.parent = .test ∨ m.1.parent = .waitpid → m'.1.parent = .accept →
          ∃ called, m'.2 = some called ∧ ∀ c ∈ called, c ∈ m'.1.reaped)) ∧
      (Cleaning m.1 → ∃ a, ofParent a = true ∧ (step m.1 a).isSome = true) ∧
      ∀ as s, Always step Cleaning m.1 as → exec step m.1 as = some s →
        as.countP ofParent ≤ 3 * m.1.childProcCount + 2 := by
  have shown : (exec (remember step note) start oneExits).map
      (fun m => (m.1.parent, m.1.reaped)) = some (.waitpid, [0]) := by decide +kernel
  obtain ⟨m, taken, ends⟩ := Option.map_eq_some_iff.mp shown
  obtain ⟨here, reaped⟩ := Prod.mk.inj ends
  have run : ReachWhere (remember step note) (fun m a => Identified (· + 2) m.1 a) start m :=
    ⟨oneExits, by decide +kernel, taken⟩
  exact ⟨m, run, here, reaped, children_accounted (· + 2) m run⟩

end SocketChat.TestCode.Echo.Children
