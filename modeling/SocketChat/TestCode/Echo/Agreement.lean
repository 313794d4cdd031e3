/- SocketChat/TestCode/Echo/Agreement
   digest: What a client is sent by the two echo servers when another client's connection fails. -/

import SocketChat.Lib.Runs
import SocketChat.Lib.Transducer
import SocketChat.TestCode.Echo.Model

set_option autoImplicit false
set_option relaxedAutoImplicit false

namespace SocketChat.TestCode.Echo.Agreement

open SocketChat.Lib.CString
open SocketChat.Lib.Runs
open SocketChat.Lib.Transducer
open SocketChat.TestCode.Echo.Model

def call? (c : ConnId) : Event → Option Call
  | .accept => none
  | .call d k => if d = c then some k else none

def calls (c : ConnId) (es : List Event) : List Call := es.filterMap (call? c)

def erring : Event → Bool
  | .accept => false
  | .call _ k => k.fails

def Sound (c : ConnId) (es : List Event) : Prop := ∀ k ∈ calls c es, k.fails = false

/-- Nothing is left to send to the client once a connection has had an error. -/
def silentAfterError (c : ConnId) : List Event → Bool
  | [] => true
  | e :: es => if erring e then .send ∉ calls c es else silentAfterError c es

section Handler

variable {p q : Point} {k : Call} {out : List Byte}

theorem message_isSome (taken : HandleTCPClient p k = some (q, out)) :
    (Multithread.message q).isSome = k.fails := by
  cases handles_of_eq taken
  all_goals rfl

def Holding : Point → Prop
  | .send echoBuffer => echoBuffer ≠ []
  | _ => True

private theorem holding_of_handle (taken : HandleTCPClient p k = some (q, out)) : Holding q := by
  cases handles_of_eq taken with
  | chunk some_bytes _ => exact some_bytes
  | _ => trivial

private theorem out_eq_nil_iff (before : Holding p) (sound : k.fails = false)
    (taken : HandleTCPClient p k = some (q, out)) : out = [] ↔ k ≠ .send := by
  cases handles_of_eq taken with
  | ended _ => exact iff_of_true rfl Call.noConfusion
  | chunk _ _ => exact iff_of_true rfl Call.noConfusion
  | send echoBuffer => exact iff_of_false before fun differ => differ rfl
  | close => exact iff_of_true rfl Call.noConfusion
  | recvFails => cases sound
  | sendFails _ => cases sound

private theorem run_out_eq_nil_iff {ks : List Call} (before : Holding p)
    (sound : ∀ k ∈ ks, k.fails = false) (taken : run HandleTCPClient p ks = some (q, out)) :
    out = [] ↔ .send ∉ ks := by
  induction ks generalizing p out with
  | nil =>
    obtain ⟨_, rfl⟩ := Prod.mk.inj (Option.some.inj taken)
    exact iff_of_true rfl List.not_mem_nil
  | cons k ks ih =>
    obtain ⟨m, first, rest, here, further, rfl⟩ := run_cons_eq_some.mp taken
    have one := out_eq_nil_iff before (sound k List.mem_cons_self) here
    have others := ih (holding_of_handle here)
      (fun l inside => sound l (List.mem_cons_of_mem k inside)) further
    rw [List.append_eq_nil_iff, one, others, List.mem_cons, not_or, ne_comm]

end Handler

section Served

variable {c d : ConnId} {p q : Point} {k : Call} {out : List Byte}
  {handlers : ConnId → Option Point} {echoed : ConnId → List Byte}

/-- A handler that has not been started yet is going to start in `recv`. -/
def place (handlers : ConnId → Option Point) (c : ConnId) : Point := (handlers c).getD .recv

private theorem calls_append (es fs : List Event) : calls c (es ++ fs) = calls c es ++ calls c fs :=
  List.filterMap_append

private theorem calls_events (as : List Action) :
    calls c (events as) = as.flatMap fun a => calls c (events [a]) := by
  induction as with
  | nil => rfl
  | cons a as ih =>
    rw [List.flatMap_cons, ← ih, ← calls_append]
    exact congrArg (calls c) (List.filterMap_append (l := [a]))

theorem served_call (thread : handlers d = some p) (taken : HandleTCPClient p k = some (q, out)) :
    ∃ more, run HandleTCPClient (place handlers c) (calls c [.call d k]) =
        some (place (Function.update handlers d (some q)) c, more) ∧
      Function.update echoed d (echoed d ++ out) c = echoed c ++ more := by
  by_cases same : d = c
  · subst same
    have own : calls d [.call d k] = [k] := List.filterMap_cons_some (if_pos rfl)
    refine ⟨out, ?_, Function.update_self ..⟩
    rw [own, place, place, thread, Function.update_self]
    exact run_singleton taken
  · have other : calls c [.call d k] = [] := List.filterMap_cons_none (if_neg same)
    refine ⟨[], ?_, ?_⟩
    · rw [other, place, place, Function.update_of_ne (Ne.symm same)]
      rfl
    · rw [Function.update_of_ne (Ne.symm same), List.append_nil]

theorem served_still {handlers' : ConnId → Option Point} {echoed' : ConnId → List Byte}
    (same : place handlers' c = place handlers c) (quiet : echoed' c = echoed c) :
    ∃ more, run HandleTCPClient (place handlers c) [] = some (place handlers' c, more) ∧
      echoed' c = echoed c ++ more := by
  refine ⟨[], ?_, ?_⟩
  · rw [same]
    rfl
  · rw [quiet, List.append_nil]

theorem place_started (unstarted : handlers d = none) :
    place (Function.update handlers d (some .recv)) c = place handlers c := by
  by_cases same : c = d
  · subst same
    rw [place, place, Function.update_self, unstarted]
    rfl
  · rw [place, place, Function.update_of_ne same]

end Served

structure Unstarted (handlers : ConnId → Option Point) (accepted : ℕ) (starting : Prop) :
    Prop where
  later : ∀ d, accepted ≤ d → handlers d = none
  newest : starting → 0 < accepted ∧ handlers (accepted - 1) = none

namespace Unstarted

variable {handlers : ConnId → Option Point} {accepted : ℕ} {starting starting' : Prop}

theorem weaken (u : Unstarted handlers accepted starting) (fewer : starting' → starting) :
    Unstarted handlers accepted starting' := ⟨u.later, fun is => u.newest (fewer is)⟩

private theorem accept (u : Unstarted handlers accepted starting) :
    Unstarted handlers (accepted + 1) starting' where
  later := by
    intro d behind
    exact u.later d (Nat.le_of_succ_le behind)
  newest := by
    intro _
    exact ⟨Nat.succ_pos _, u.later accepted (Nat.le_refl _)⟩

private theorem call (u : Unstarted handlers accepted starting) {d : ConnId} {p q : Point}
    (thread : handlers d = some p) :
    Unstarted (Function.update handlers d (some q)) accepted starting := by
  have kept : ∀ e, handlers e = none → Function.update handlers d (some q) e = none := by
    intro e unhandled
    rw [Function.update_of_ne, unhandled]
    rintro rfl
    rw [unhandled] at thread
    cases thread
  constructor
  · intro e behind
    exact kept e (u.later e behind)
  · intro is
    exact ⟨(u.newest is).1, kept _ (u.newest is).2⟩

private theorem start (u : Unstarted handlers accepted starting) (is : starting)
    (past : starting' → False) :
    Unstarted (Function.update handlers (accepted - 1) (some .recv)) accepted starting' where
  later := by
    intro d behind
    have pos := (u.newest is).1
    have other : d ≠ accepted - 1 := by omega
    rw [Function.update_of_ne other]
    exact u.later d behind
  newest := by
    intro still
    exact (past still).elim

end Unstarted

def Serves (c : ConnId) (a : Action) (handlers handlers' : ConnId → Option Point)
    (echoed echoed' : ConnId → List Byte) : Prop :=
  ∃ out, run HandleTCPClient (place handlers c) (calls c (events [a])) =
      some (place handlers' c, out) ∧ echoed' c = echoed c ++ out

theorem multithread_step (c : ConnId) (s : Multithread.State) (a : Action)
    (t : Multithread.State) (u : Unstarted s.threads s.accepted (s.main ≠ .accept))
    (taken : Multithread.step s a = some t) :
    Unstarted t.threads t.accepted (t.main ≠ .accept) ∧
      Serves c a s.threads t.threads s.echoed t.echoed := by
  unfold Multithread.step at taken
  split at taken
  · cases a with
    | event e =>
      cases e with
      | accept =>
        simp only [Multithread.accept] at taken
        split at taken
        · cases taken
          exact ⟨u.accept, served_still rfl rfl⟩
        · cases taken
      | call d k =>
        obtain ⟨p, thread, taken⟩ := Option.bind_eq_some_iff.mp taken
        obtain ⟨⟨q, out⟩, handled, rfl⟩ := Option.map_eq_some_iff.mp taken
        exact ⟨u.call thread, served_call thread handled⟩
    | main =>
      simp only [Multithread.runMain] at taken
      split at taken
      · cases taken
      · rename_i here
        cases taken
        exact ⟨u.weaken fun _ => by rw [here]; exact Multithread.MainPoint.noConfusion,
          served_still rfl rfl⟩
      · rename_i here
        cases taken
        have starting : s.main ≠ .accept := by
          rw [here]
          exact Multithread.MainPoint.noConfusion
        exact ⟨u.start starting fun still => still rfl,
          served_still (place_started (u.newest starting).2) rfl⟩
    | fails =>
      simp only [Multithread.mainFails] at taken
      cases taken
      split
      all_goals exact ⟨u, served_still rfl rfl⟩
    | reap d => cases taken
  · cases taken

private theorem calls_quiet {c : ConnId} {a : Action} (quiet : event? a = none) :
    calls c (events [a]) = [] :=
  congrArg (calls c) (List.filterMap_cons_none quiet)

private theorem quiet_step {s t : Multiprocess.State} {a : Action} (quiet : event? a = none)
    (taken : Multiprocess.step s a = some t) :
    t.accepted = s.accepted ∧ t.echoed = s.echoed ∧
      (s.parent = .fork ∧ t.parent = .count ∧
          t.children = Function.update s.children (s.accepted - 1) (some .recv) ∨
        t.children = s.children ∧ (t.parent = .fork → s.parent = .fork)) := by
  cases Multiprocess.took_of_step taken with
  | accepted here => cases quiet
  | called c k p q out child handled => cases quiet
  | forked here => exact ⟨rfl, rfl, .inl ⟨here, rfl, rfl⟩⟩
  | waitFailed here nobody => exact ⟨rfl, rfl, .inr ⟨rfl, id⟩⟩
  | acceptFailed here => exact ⟨rfl, rfl, .inr ⟨rfl, id⟩⟩
  | forkFailed here => exact ⟨rfl, rfl, .inr ⟨rfl, id⟩⟩
  | _ => exact ⟨rfl, rfl, .inr ⟨rfl, Multiprocess.ParentPoint.noConfusion⟩⟩

private theorem multiprocess_quiet (c : ConnId) {s t : Multiprocess.State} {a : Action}
    (u : Unstarted s.children s.accepted (s.parent = .fork)) (quiet : event? a = none)
    (taken : Multiprocess.step s a = some t) :
    Unstarted t.children t.accepted (t.parent = .fork) ∧
      Serves c a s.children t.children s.echoed t.echoed := by
  rw [Serves, calls_quiet quiet]
  obtain ⟨accepted, echoed, ⟨here, next, started⟩ | ⟨same, still_forks⟩⟩ :=
    quiet_step quiet taken
  · rw [accepted, echoed, next, started]
    exact ⟨u.start here Multiprocess.ParentPoint.noConfusion,
      served_still (place_started (u.newest here).2) rfl⟩
  · rw [accepted, echoed, same]
    exact ⟨u.weaken still_forks, served_still rfl rfl⟩

theorem multiprocess_step (c : ConnId) (s : Multiprocess.State) (a : Action)
    (t : Multiprocess.State) (u : Unstarted s.children s.accepted (s.parent = .fork))
    (taken : Multiprocess.step s a = some t) :
    Unstarted t.children t.accepted (t.parent = .fork) ∧
      Serves c a s.children t.children s.echoed t.echoed := by
  cases Multiprocess.took_of_step taken with
  | accepted here => exact ⟨u.accept, served_still rfl rfl⟩
  | called d k p q out child handled => exact ⟨u.call child, served_call child handled⟩
  | _ => exact multiprocess_quiet c u rfl taken

/-- What the handler of a connection, taken alone, sends in answer to its calls. -/
def alone (c : ConnId) (es : List Event) : Option (List Byte) :=
  (run HandleTCPClient .recv (calls c es)).map Prod.snd

section Runs

private theorem multithread_run {bs : List Action} {s : Multithread.State} (c : ConnId)
    (taken : exec Multithread.step Multithread.init bs = some s) :
    ∃ p, run HandleTCPClient .recv (calls c (events bs)) = some (p, s.echoed c) := by
  have start : Unstarted Multithread.init.threads Multithread.init.accepted
      (Multithread.init.main ≠ .accept) := ⟨fun _ _ => rfl, fun other => absurd rfl other⟩
  obtain ⟨out, served, all⟩ := run_of_steps (fun s : Multithread.State => place s.threads c)
    (fun s => s.echoed c) (fun a => calls c (events [a])) (multithread_step c) start taken
  rw [← calls_events] at served
  refine ⟨place s.threads c, served.trans ?_⟩
  rw [all]
  rfl

private theorem multiprocess_run {as : List Action} {t : Multiprocess.State} (c : ConnId)
    (taken : exec Multiprocess.step Multiprocess.init as = some t) :
    ∃ p, run HandleTCPClient .recv (calls c (events as)) = some (p, t.echoed c) := by
  have start : Unstarted Multiprocess.init.children Multiprocess.init.accepted
      (Multiprocess.init.parent = .fork) :=
    ⟨fun _ _ => rfl, Multiprocess.ParentPoint.noConfusion⟩
  obtain ⟨out, served, all⟩ := run_of_steps (fun s : Multiprocess.State => place s.children c)
    (fun s => s.echoed c) (fun a => calls c (events [a])) (multiprocess_step c) start taken
  rw [← calls_events] at served
  refine ⟨place t.children c, served.trans ?_⟩
  rw [all]
  rfl

private theorem holding_of_run {p q : Point} {ks : List Call} {out : List Byte} (before : Holding p)
    (taken : run HandleTCPClient p ks = some (q, out)) : Holding q :=
  run_invariant (fun _ _ _ _ _ _ here => holding_of_handle here) before taken

end Runs

section Death

/-- The process of the threads ends with the first error of any connection, unless a call of
`main` itself fails. -/
theorem died_of_step {s t : Multithread.State} {a : Action} (own : a ≠ .fails)
    (taken : Multithread.step s a = some t) :
    t.died.isSome = (events [a]).any erring := by
  unfold Multithread.step at taken
  split at taken
  · rename_i alive
    cases a with
    | event e =>
      cases e with
      | accept =>
        simp only [Multithread.accept] at taken
        split at taken
        · cases taken
          rw [alive]
          rfl
        · cases taken
      | call d k =>
        obtain ⟨p, thread, taken⟩ := Option.bind_eq_some_iff.mp taken
        obtain ⟨⟨q, out⟩, handled, rfl⟩ := Option.map_eq_some_iff.mp taken
        refine (message_isSome handled).trans ?_
        exact (Bool.or_false _).symm
    | main =>
      simp only [Multithread.runMain] at taken
      split at taken
      · cases taken
      all_goals
        cases taken
        rw [alive]
        rfl
    | fails => exact absurd rfl own
    | reap d => cases taken
  · cases taken

private theorem nil_of_died {s t : Multithread.State} {as : List Action} (died : s.died.isSome)
    (taken : exec Multithread.step s as = some t) : as = [] := by
  cases as with
  | nil => rfl
  | cons a as =>
    obtain ⟨m, first, _⟩ := exec_cons_eq_some.mp taken
    unfold Multithread.step at first
    rw [if_neg (Option.isSome_iff_ne_none.mp died)] at first
    cases first

private theorem error_is_last {s t : Multithread.State} {bs : List Action} (alive : s.died = none)
    (own : .fails ∉ bs) (taken : exec Multithread.step s bs = some t) :
    (t.died = none ∧ (events bs).any erring = false) ∨
      ∃ before e, events bs = before ++ [e] ∧ before.any erring = false ∧ erring e = true := by
  induction bs generalizing s with
  | nil =>
    obtain rfl : s = t := Option.some.inj taken
    exact .inl ⟨alive, rfl⟩
  | cons a bs ih =>
    obtain ⟨m, first, rest⟩ := exec_cons_eq_some.mp taken
    have other : a ≠ .fails := fun is => own (is ▸ List.mem_cons_self)
    have died := died_of_step other first
    have split : events (a :: bs) = events [a] ++ events bs :=
      List.filterMap_append (l := [a])
    cases erred : (events [a]).any erring with
    | false =>
      rw [erred, Option.isSome_eq_false_iff, Option.isNone_iff_eq_none] at died
      rcases ih died (fun inside => own (List.mem_cons_of_mem a inside)) rest with
        ⟨still, none_later⟩ | ⟨before, e, later, none_before, first_error⟩
      · refine .inl ⟨still, ?_⟩
        rw [split, List.any_append, erred, none_later]
        rfl
      · refine .inr ⟨events [a] ++ before, e, ?_, ?_, first_error⟩
        · rw [split, later, List.append_assoc]
        · rw [List.any_append, erred, none_before]
          rfl
    | true =>
      rw [erred] at died
      obtain rfl := nil_of_died died rest
      cases a with
      | event e => exact .inr ⟨[], e, rfl, rfl, (Bool.or_false _).symm.trans erred⟩
      | _ => cases erred

end Death

section Silence

variable {c : ConnId} {before after : List Event} {e : Event}

private theorem silent_of_no_error {es : List Event} (sound : es.any erring = false) :
    silentAfterError c es = true := by
  induction es with
  | nil => rfl
  | cons e es ih =>
    rw [List.any_cons, Bool.or_eq_false_iff] at sound
    rw [silentAfterError, sound.1]
    exact ih sound.2

private theorem silent_of_split (sound : before.any erring = false) (first : erring e = true) :
    silentAfterError c (before ++ e :: after) = decide (.send ∉ calls c after) := by
  induction before with
  | nil =>
    rw [List.nil_append, silentAfterError, first]
    rfl
  | cons x before ih =>
    rw [List.any_cons, Bool.or_eq_false_iff] at sound
    rw [List.cons_append, silentAfterError, sound.1]
    exact ih sound.2

end Silence

/-- The threads are where the processes are, and `main` is ready for the next connection. -/
structure Follows (t : Multiprocess.State) (s : Multithread.State) : Prop where
  alive : s.died = none
  ready : s.main = .accept
  accepted : s.accepted = t.accepted
  threads : ∀ c < t.accepted, s.threads c = some (place t.children c)

namespace Follows

variable {s : Multithread.State} {t t' : Multiprocess.State}

private theorem still (f : Follows t s) (accepted : t'.accepted = t.accepted)
    (children : ∀ c, place t'.children c = place t.children c) : Follows t' s := by
  refine ⟨f.alive, f.ready, f.accepted.trans accepted.symm, ?_⟩
  intro c inside
  rw [children]
  exact f.threads c (accepted ▸ inside)

private theorem accept (f : Follows t s) (u : Unstarted t.children t.accepted (t.parent = .fork)) :
    ∃ s', exec Multithread.step s [.event .accept, .main, .main] = some s' ∧
      Follows { t with parent := .fork, accepted := t.accepted + 1 } s' := by
  obtain ⟨alive, ready, same, threads⟩ := f
  refine ⟨{ s with accepted := s.accepted + 1, threads :=
    Function.update s.threads s.accepted (some .recv) }, ?_, ?_⟩
  · obtain ⟨main, died, accepted, threads, echoed⟩ := s
    subst ready alive
    rfl
  · refine ⟨alive, ready, by rw [← same], ?_⟩
    intro c inside
    dsimp only at inside ⊢
    rw [same]
    by_cases last : c = t.accepted
    · subst last
      rw [Function.update_self, place, u.later _ (Nat.le_refl _)]
      rfl
    · rw [Function.update_of_ne last]
      exact threads c (by omega)

private theorem call (f : Follows t s) {d : ConnId} {p q : Point} {k : Call} {out : List Byte}
    (thread : s.threads d = some p) (handled : HandleTCPClient p k = some (q, out)) :
    ∃ s', Multithread.step s (.event (.call d k)) = some s' ∧
      s'.died = Multithread.message q ∧
      (Multithread.message q = none → t'.accepted = t.accepted →
        t'.children = Function.update t.children d (some q) → Follows t' s') := by
  refine ⟨{ s with
    died := Multithread.message q
    threads := Function.update s.threads d (some q)
    echoed := Function.update s.echoed d (s.echoed d ++ out) }, ?_, rfl, ?_⟩
  · unfold Multithread.step
    rw [if_pos f.alive]
    exact Option.bind_eq_some_iff.mpr ⟨p, thread, by rw [handled]; rfl⟩
  · intro goes_on accepted children
    refine ⟨goes_on, f.ready, f.accepted.trans accepted.symm, ?_⟩
    intro c inside
    rw [accepted] at inside
    dsimp only
    rw [children, place]
    by_cases is : c = d
    · subst is
      rw [Function.update_self, Function.update_self]
      rfl
    · rw [Function.update_of_ne is, Function.update_of_ne is]
      exact f.threads c inside

end Follows

private theorem Follows.quiet {s : Multithread.State} {t t' : Multiprocess.State} {a : Action}
    (f : Follows t s) (u : Unstarted t.children t.accepted (t.parent = .fork))
    (quiet : event? a = none) (taken : Multiprocess.step t a = some t') : Follows t' s := by
  refine f.still (quiet_step quiet taken).1 fun c => ?_
  obtain ⟨out, served, _⟩ := (multiprocess_quiet c u quiet taken).2
  rw [calls_quiet quiet] at served
  exact (Prod.mk.inj (Option.some.inj served)).1.symm

private theorem Follows.thread {s : Multithread.State} {t : Multiprocess.State} {d : ConnId}
    {p : Point} (f : Follows t s) (u : Unstarted t.children t.accepted (t.parent = .fork))
    (child : t.children d = some p) : s.threads d = some p := by
  have inside : d < t.accepted := by
    by_contra behind
    rw [u.later d (Nat.le_of_not_lt behind)] at child
    cases child
  rw [f.threads d inside, place, child]
  rfl

/-- One step of the processes, and what the threads do at the same event; they are where the
processes are as long as they live. -/
theorem follow_step {s : Multithread.State} {t t' : Multiprocess.State} {a : Action}
    (u : Unstarted t.children t.accepted (t.parent = .fork)) (f : Follows t s)
    (taken : Multiprocess.step t a = some t') :
    ∃ bs s', exec Multithread.step s bs = some s' ∧ .fails ∉ bs ∧ events bs = events [a] ∧
      (s'.died = none → Follows t' s') := by
  cases Multiprocess.took_of_step taken with
  | accepted here =>
    obtain ⟨s', moved, f'⟩ := f.accept u
    exact ⟨_, s', moved, by decide, rfl, fun _ => f'⟩
  | called d k p q out child handled =>
    obtain ⟨s', moved, died, goes_on⟩ := f.call (f.thread u child) handled
    refine ⟨[.event (.call d k)], s', exec_cons_eq_some.mpr ⟨s', moved, rfl⟩, by simp, rfl, ?_⟩
    intro alive
    exact goes_on (died.symm.trans alive) rfl rfl
  | _ => exact ⟨[], s, rfl, List.not_mem_nil, rfl, fun _ => f.quiet u rfl taken⟩

private theorem follow_run {s : Multithread.State} {t u : Multiprocess.State} {as : List Action}
    (unstarted : Unstarted t.children t.accepted (t.parent = .fork)) (f : Follows t s)
    (taken : exec Multiprocess.step t as = some u) :
    ∃ bs s', exec Multithread.step s bs = some s' ∧ .fails ∉ bs ∧ events bs <+: events as ∧
      (s'.died = none → events bs = events as) := by
  induction as generalizing s t with
  | nil => exact ⟨[], s, rfl, List.not_mem_nil, List.prefix_rfl, fun _ => rfl⟩
  | cons a as ih =>
    obtain ⟨m, first, rest⟩ := exec_cons_eq_some.mp taken
    have split : events (a :: as) = events [a] ++ events as := List.filterMap_append (l := [a])
    obtain ⟨bs, s', moved, own, same, follows⟩ := follow_step unstarted f first
    rw [split, ← same]
    by_cases alive : s'.died = none
    · have further := (multiprocess_step 0 t a m unstarted first).1
      obtain ⟨later, s'', run, own', short, all⟩ := ih further (follows alive) rest
      have both : events (bs ++ later) = events bs ++ events later := List.filterMap_append
      refine ⟨bs ++ later, s'', exec_append_eq_some moved run, ?_, ?_, ?_⟩
      · intro inside
        exact (List.mem_append.mp inside).elim own own'
      · rw [both]
        exact (List.prefix_append_right_inj _).mpr short
      · intro still
        rw [both, all still]
    · exact ⟨bs, s', moved, own, List.prefix_append .., fun still => absurd still alive⟩

/-- So for every run of the processes there is a run of the threads to compare it with. -/
theorem threads_follow_processes (as : List Action) (t : Multiprocess.State)
    (processes : exec Multiprocess.step Multiprocess.init as = some t) :
    ∃ bs s, exec Multithread.step Multithread.init bs = some s ∧ .fails ∉ bs ∧
      events bs <+: events as ∧ (s.died = none → events bs = events as) := by
  have start : Unstarted Multiprocess.init.children Multiprocess.init.accepted
      (Multiprocess.init.parent = .fork) :=
    ⟨fun _ _ => rfl, Multiprocess.ParentPoint.noConfusion⟩
  refine follow_run start ⟨rfl, rfl, rfl, ?_⟩ processes
  intro c none_yet
  exact absurd none_yet (Nat.not_lt_zero c)

/-- The threads and the processes take the same events, the threads until their process ends. A
client whose own connection has no error is sent the same by both, and what it would be sent
if it were alone, exactly when nothing is left to send to it once another connection has had an
error; the processes always send it that. -/
theorem echo_servers_agree_iff (bs as : List Action) (s : Multithread.State)
    (t : Multiprocess.State) (c : ConnId)
    (threads : exec Multithread.step Multithread.init bs = some s)
    (processes : exec Multiprocess.step Multiprocess.init as = some t)
    (same : events bs <+: events as) (all : s.died = none → events bs = events as)
    (own : .fails ∉ bs) (sound : Sound c (events as)) :
    (s.echoed c = t.echoed c ∧ alone c (events as) = some (s.echoed c) ∧
        alone c (events as) = some (t.echoed c) ↔ silentAfterError c (events as) = true) ∧
      alone c (events as) = some (t.echoed c) := by
  obtain ⟨p, threaded⟩ := multithread_run c threads
  obtain ⟨q, forked⟩ := multiprocess_run c processes
  have single : alone c (events as) = some (t.echoed c) := by
    rw [alone, forked]
    rfl
  have agree : s.echoed c = t.echoed c ↔ silentAfterError c (events as) = true := by
    rcases error_is_last rfl own threads with ⟨alive, no_error⟩ |
      ⟨before, e, ends, no_error, first_error⟩
    · rw [all alive] at threaded no_error
      rw [threaded] at forked
      refine iff_of_true ?_ (silent_of_no_error no_error)
      exact (Prod.mk.inj (Option.some.inj forked)).2
    · obtain ⟨after, whole⟩ := same
      rw [← whole, calls_append] at forked
      obtain ⟨m, sent, rest, first, further, whole_sent⟩ := run_split forked
      rw [threaded] at first
      obtain ⟨rfl, rfl⟩ := Prod.mk.inj (Option.some.inj first)
      have quiet := run_out_eq_nil_iff (holding_of_run (p := .recv) trivial threaded)
        (fun k inside => sound k (by
          rw [← whole, calls_append]
          exact List.mem_append_right _ inside)) further
      rw [← whole_sent, List.self_eq_append_right, quiet, ← whole, ends, List.append_assoc,
        List.singleton_append, silent_of_split no_error first_error, decide_eq_true_eq]
  refine ⟨⟨fun holds => agree.mp holds.1, fun silent => ?_⟩, single⟩
  refine ⟨agree.mpr silent, ?_, single⟩
  rw [agree.mpr silent]
  exact single

/-- The error of the first client comes when the second one has been sent its echo. -/
theorem echo_servers_agree_before_error : ∃ bs as s t,
    exec Multithread.step Multithread.init bs = some s ∧
      exec Multiprocess.step Multiprocess.init as = some t ∧
      .call 0 .recvFails ∈ events as ∧ t.echoed 1 = lit ['A'] ∧
      (s.echoed 1 = t.echoed 1 ∧ alone 1 (events as) = some (s.echoed 1) ∧
          alone 1 (events as) = some (t.echoed 1) ↔ silentAfterError 1 (events as) = true) ∧
        alone 1 (events as) = some (t.echoed 1) := by
  let talk : List Action := [.event (.call 1 (.recv (lit ['A']))), .event (.call 1 .send),
    .event (.call 0 .recvFails)]
  let bs : List Action := [.event .accept, .main, .main, .event .accept, .main, .main] ++ talk
  let as : List Action := [.event .accept, .main, .main, .main, .main,
    .event .accept, .main, .main] ++ talk
  obtain ⟨s, threads⟩ : ∃ s, exec Multithread.step Multithread.init bs = some s := ⟨_, rfl⟩
  have ends : (exec Multiprocess.step Multiprocess.init as).map (fun t => t.echoed 1) =
      some (lit ['A']) := by decide +kernel
  obtain ⟨t, processes, sent⟩ := Option.map_eq_some_iff.mp ends
  have same : events bs = events as := rfl
  exact ⟨bs, as, s, t, threads, processes, by decide, sent,
    echo_servers_agree_iff bs as s t 1 threads processes (same ▸ List.prefix_rfl) (fun _ => same)
      (by decide) (by unfold Sound; decide)⟩

/-- The error of the first client comes while the second one's bytes are on their way back. -/
theorem error_of_another_loses_echo : ¬ ∀ bs as s t c,
    exec Multithread.step Multithread.init bs = some s →
      exec Multiprocess.step Multiprocess.init as = some t → events bs <+: events as →
      (s.died = none → events bs = events as) → .fails ∉ bs → Sound c (events as) →
      s.echoed c = t.echoed c ∧ alone c (events as) = some (s.echoed c) ∧
        alone c (events as) = some (t.echoed c) := by
  intro claim
  let bs : List Action := [.event .accept, .main, .main, .event .accept, .main, .main,
    .event (.call 1 (.recv (lit ['A']))), .event (.call 0 .recvFails)]
  let as : List Action := [.event .accept, .main, .main, .main, .main,
    .event .accept, .main, .main, .event (.call 1 (.recv (lit ['A']))),
    .event (.call 0 .recvFails), .event (.call 1 .send)]
  have threads : (exec Multithread.step Multithread.init bs).map
      (fun s => (s.died, s.echoed 1)) = some (some "recv() failed", []) := by decide +kernel
  have processes : (exec Multiprocess.step Multiprocess.init as).map (fun t => t.echoed 1) =
      some (lit ['A']) := by decide +kernel
  obtain ⟨s, ran, ended⟩ := Option.map_eq_some_iff.mp threads
  obtain ⟨died, nothing⟩ := Prod.mk.inj ended
  obtain ⟨t, ran', sent⟩ := Option.map_eq_some_iff.mp processes
  have same := (claim bs as s t 1 ran ran' ⟨[.call 1 .send], rfl⟩
    (fun alive => by rw [died] at alive; cases alive) (by decide) (by unfold Sound; decide)).1
  rw [nothing, sent] at same
  exact absurd same (by decide)

end SocketChat.TestCode.Echo.Agreement
