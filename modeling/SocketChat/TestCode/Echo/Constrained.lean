/- SocketChat/TestCode/Echo/Constrained
   digest: The constrained echo server: so many processes, each with one client at a time. -/

import Mathlib.Data.Finset.Card
import Mathlib.Data.List.Nodup
import Mathlib.Data.List.Perm.Subperm
import SocketChat.Lib.Runs
import SocketChat.TestCode.Echo.Serial

set_option autoImplicit false
set_option relaxedAutoImplicit false

namespace SocketChat.TestCode.Echo.Constrained

open SocketChat.Lib.Runs
open SocketChat.TestCode.Echo.Agreement
open SocketChat.TestCode.Echo.Model
open SocketChat.TestCode.Echo.Serial (Clients)

abbrev ProcId := ℕ

/-- Where the parent stands: in the loop that forks, in the loop that waits, or behind it. -/
inductive ParentPoint
  | fork
  | wait
  | close
  | exited
deriving DecidableEq

/-- Where `ProcessMain` stands; a child dies in `DieWithError`, with the connection that it was
handling. -/
inductive Child
  | accept
  | handle (c : ConnId)
  | died (handling : Option ConnId) (message : String)
deriving DecidableEq

/-- The connection that a process has, or that it died with. -/
def Child.current : Child → Option ConnId
  | .accept => none
  | .handle c => some c
  | .died handling _ => handling

def Child.dead : Child → Bool
  | .died _ _ => true
  | _ => false

structure State where
  parent : ParentPoint
  processCt : ℕ
  died : Option String
  children : List Child
  reaped : List ProcId
  clients : Clients

def init : State := ⟨.fork, 0, none, [], [], .none⟩

inductive Action
  | fork
  | forkFails
  | main
  | wait (p : ProcId)
  | accept (p : ProcId)
  | acceptFails (p : ProcId)
  | call (p : ProcId) (c : ConnId) (k : Call)
deriving DecidableEq

def event? : Action → Option Event
  | .accept _ => some .accept
  | .call _ c k => some (.call c k)
  | _ => none

def unreaped (s : State) : List ProcId :=
  (List.range s.children.length).filter fun p => p ∉ s.reaped

/-- What the parent does without a call, or with a `wait` that has no child to wait for: the result
of it is not looked at. -/
def runParent (processLimit : ℕ) (s : State) : Option State :=
  match s.parent with
  | .fork =>
      if s.processCt < processLimit then none
      else some { s with parent := .wait, processCt := 0 }
  | .wait =>
      if s.processCt < processLimit then
        if unreaped s = [] then some { s with processCt := s.processCt + 1 } else none
      else some { s with parent := .close }
  | .close => some { s with parent := .exited }
  | .exited => none

def fork (processLimit : ℕ) (s : State) : Option State :=
  if s.parent = .fork ∧ s.processCt < processLimit then
    some { s with processCt := s.processCt + 1, children := s.children ++ [.accept] }
  else none

def forkFails (processLimit : ℕ) (s : State) : Option State :=
  if s.parent = .fork ∧ s.processCt < processLimit then some { s with died := some "fork() failed" }
  else none

def wait (processLimit : ℕ) (s : State) (p : ProcId) : Option State :=
  if s.parent = .wait ∧ s.processCt < processLimit ∧ p ∈ unreaped s ∧
      s.children[p]?.any Child.dead = true then
    some { s with processCt := s.processCt + 1, reaped := s.reaped ++ [p] }
  else none

def after (c : ConnId) : Point → Child
  | .returned => .accept
  | .failed message => .died (some c) message
  | _ => .handle c

/-- A child takes what it accepts from the socket that all of them share. -/
def accept (s : State) (p : ProcId) : Option State :=
  if s.children[p]? = some .accept then
    some { s with
      children := s.children.set p (.handle s.clients.accepted)
      clients := s.clients.accept }
  else none

def acceptFails (s : State) (p : ProcId) : Option State :=
  if s.children[p]? = some .accept then
    some { s with children := s.children.set p (.died none "accept() failed") }
  else none

def call (s : State) (p : ProcId) (c : ConnId) (k : Call) : Option State :=
  if s.children[p]? = some (.handle c) then
    (s.clients.call c k).map fun next =>
      { s with children := s.children.set p (after c next.1), clients := next.2 }
  else none

-- tcp_echo_server_constrained_multiprocess.c
def step (processLimit : ℕ) (s : State) : Action → Option State
  | .fork => if s.died = none then fork processLimit s else none
  | .forkFails => if s.died = none then forkFails processLimit s else none
  | .main => if s.died = none then runParent processLimit s else none
  | .wait p => if s.died = none then wait processLimit s p else none
  | .accept p => accept s p
  | .acceptFails p => acceptFails s p
  | .call p c k => call s p c k

inductive Took (processLimit : ℕ) (s : State) : Action → State → Prop
  | forked (here : s.parent = .fork) (more : s.processCt < processLimit) :
      Took processLimit s .fork
        { s with processCt := s.processCt + 1, children := s.children ++ [.accept] }
  | forkFailed (here : s.parent = .fork) :
      Took processLimit s .forkFails { s with died := some "fork() failed" }
  | waits (here : s.parent = .fork) (enough : ¬ s.processCt < processLimit) :
      Took processLimit s .main { s with parent := .wait, processCt := 0 }
  | nobody (here : s.parent = .wait) (more : s.processCt < processLimit)
      (none_left : unreaped s = []) :
      Took processLimit s .main { s with processCt := s.processCt + 1 }
  | waited (here : s.parent = .wait) (enough : ¬ s.processCt < processLimit) :
      Took processLimit s .main { s with parent := .close }
  | closes (here : s.parent = .close) : Took processLimit s .main { s with parent := .exited }
  | reaped (p : ProcId) (handling : Option ConnId) (message : String) (here : s.parent = .wait)
      (more : s.processCt < processLimit) (left : p ∉ s.reaped)
      (dead : s.children[p]? = some (.died handling message)) :
      Took processLimit s (.wait p)
        { s with processCt := s.processCt + 1, reaped := s.reaped ++ [p] }
  | accepted (p : ProcId) (child : s.children[p]? = some .accept) :
      Took processLimit s (.accept p) { s with
        children := s.children.set p (.handle s.clients.accepted)
        clients := s.clients.accept }
  | acceptFailed (p : ProcId) (child : s.children[p]? = some .accept) :
      Took processLimit s (.acceptFails p)
        { s with children := s.children.set p (.died none "accept() failed") }
  | called (p : ProcId) (c : ConnId) (k : Call) (q : Point) (cl : Clients)
      (child : s.children[p]? = some (.handle c)) (handled : s.clients.call c k = some (q, cl)) :
      Took processLimit s (.call p c k)
        { s with children := s.children.set p (after c q), clients := cl }

section Steps

variable {processLimit : ℕ} {s t : State} {a : Action} {p : ProcId}

private theorem died_of_dead (dead : s.children[p]?.any Child.dead = true) :
    ∃ handling message, s.children[p]? = some (.died handling message) := by
  cases here : s.children[p]? with
  | none =>
    rw [here] at dead
    cases dead
  | some child =>
    rw [here] at dead
    cases child with
    | died handling message => exact ⟨handling, message, rfl⟩
    | accept => cases dead
    | handle c => cases dead

private theorem took_of_step (taken : step processLimit s a = some t) :
    Took processLimit s a t := by
  cases a with
  | fork =>
    simp only [step, fork, Option.ite_none_right_eq_some, Option.some.injEq] at taken
    obtain ⟨_, ⟨here, more⟩, rfl⟩ := taken
    exact .forked here more
  | forkFails =>
    simp only [step, forkFails, Option.ite_none_right_eq_some, Option.some.injEq] at taken
    obtain ⟨_, ⟨here, _⟩, rfl⟩ := taken
    exact .forkFailed here
  | main =>
    simp only [step, runParent] at taken
    split at taken
    · split at taken
      · rename_i here
        split at taken
        · cases taken
        · rename_i enough
          cases taken
          exact .waits here enough
      · rename_i here
        split at taken
        · rename_i more
          split at taken
          · rename_i none_left
            cases taken
            exact .nobody here more none_left
          · cases taken
        · rename_i enough
          cases taken
          exact .waited here enough
      · rename_i here
        cases taken
        exact .closes here
      · cases taken
    · cases taken
  | wait p =>
    simp only [step, wait, Option.ite_none_right_eq_some, Option.some.injEq] at taken
    obtain ⟨_, ⟨here, more, left, dead⟩, rfl⟩ := taken
    obtain ⟨handling, message, died⟩ := died_of_dead dead
    exact .reaped p handling message here more (by simpa using (List.mem_filter.mp left).2) died
  | accept p =>
    simp only [step, accept, Option.ite_none_right_eq_some, Option.some.injEq] at taken
    obtain ⟨here, rfl⟩ := taken
    exact .accepted p here
  | acceptFails p =>
    simp only [step, acceptFails, Option.ite_none_right_eq_some, Option.some.injEq] at taken
    obtain ⟨here, rfl⟩ := taken
    exact .acceptFailed p here
  | call p c k =>
    simp only [step, call, Option.ite_none_right_eq_some] at taken
    obtain ⟨here, called⟩ := taken
    obtain ⟨⟨q, cl⟩, handled, rfl⟩ := Option.map_eq_some_iff.mp called
    exact .called p c k q cl here handled

end Steps

def holds (children : List Child) (p : ProcId) : Option ConnId := children[p]?.bind Child.current

/-- Every connection that has not been closed is with one process. -/
structure Exclusive (holds : ProcId → Option ConnId) (handlers : ConnId → Option Point) : Prop where
  held : ∀ c, (∃ q, handlers c = some q ∧ q ≠ .returned) ↔ ∃ p, holds p = some c
  one : ∀ p p' c, holds p = some c → holds p' = some c → p = p'

section Holds

variable {children : List Child} {p : ProcId} {child : Child}

private theorem holds_set (inside : p < children.length) (child : Child) :
    holds (children.set p child) = Function.update (holds children) p child.current := by
  funext p'
  by_cases same : p' = p
  · rw [same, Function.update_self, holds, List.getElem?_set_self inside]
    rfl
  · rw [Function.update_of_ne same, holds, holds, List.getElem?_set_ne (Ne.symm same)]

private theorem holds_fork (children : List Child) :
    holds (children ++ [.accept]) = holds children := by
  funext p
  rw [holds, holds, List.getElem?_append]
  split
  · rfl
  · rename_i behind
    rw [List.getElem?_eq_none (Nat.le_of_not_lt behind)]
    cases p - children.length with
    | zero => rfl
    | succ n => rfl

private theorem holds_of_child (here : children[p]? = some child) :
    holds children p = child.current := by
  rw [holds, here]
  rfl

end Holds

namespace Exclusive

variable {holds : ProcId → Option ConnId} {handlers : ConnId → Option Point} {p : ProcId}
  {c : ConnId} {q : Point}

private theorem accept (e : Exclusive holds handlers) (free : holds p = none)
    (new : handlers c = none) :
    Exclusive (Function.update holds p (some c)) (Function.update handlers c (some .recv)) := by
  have nobody : ∀ p', holds p' ≠ some c := by
    intro p' held
    obtain ⟨q, handler, _⟩ := (e.held c).mpr ⟨p', held⟩
    rw [new] at handler
    cases handler
  constructor
  · intro d
    by_cases same : d = c
    · subst same
      rw [Function.update_self]
      exact iff_of_true ⟨.recv, rfl, Point.noConfusion⟩ ⟨p, Function.update_self ..⟩
    · rw [Function.update_of_ne same, e.held d]
      refine exists_congr fun p' => ?_
      by_cases own : p' = p
      · rw [own, Function.update_self, free]
        exact iff_of_false (Option.some_ne_none d).symm fun is =>
          same (Option.some.inj is).symm
      · rw [Function.update_of_ne own]
  · intro p' p'' d first second
    by_cases same : d = c
    · subst same
      have own : ∀ p', Function.update holds p (some d) p' = some d → p' = p := by
        intro p' held
        by_contra other
        rw [Function.update_of_ne other] at held
        exact nobody p' held
      rw [own p' first, own p'' second]
    · have other : ∀ p', Function.update holds p (some c) p' = some d → holds p' = some d := by
        intro p' held
        by_cases own : p' = p
        · rw [own, Function.update_self] at held
          exact absurd (Option.some.inj held).symm same
        · rw [Function.update_of_ne own] at held
          exact held
      exact e.one p' p'' d (other p' first) (other p'' second)

private theorem call (e : Exclusive holds handlers) (here : holds p = some c)
    (goes_on : q ≠ .returned) :
    Exclusive (Function.update holds p (some c)) (Function.update handlers c (some q)) := by
  rw [← here, Function.update_eq_self]
  refine ⟨fun d => ?_, e.one⟩
  by_cases same : d = c
  · subst same
    rw [Function.update_self]
    exact iff_of_true ⟨q, rfl, goes_on⟩ ⟨p, here⟩
  · rw [Function.update_of_ne same]
    exact e.held d

private theorem returned (e : Exclusive holds handlers) (here : holds p = some c) :
    Exclusive (Function.update holds p none) (Function.update handlers c (some .returned)) := by
  have kept : ∀ p' d, Function.update holds p none p' = some d ↔ holds p' = some d ∧ d ≠ c := by
    intro p' d
    by_cases own : p' = p
    · rw [own, Function.update_self, here]
      refine iff_of_false (Option.some_ne_none d).symm ?_
      rintro ⟨same, other⟩
      exact other (Option.some.inj same).symm
    · rw [Function.update_of_ne own]
      refine (and_iff_left_of_imp fun held same => ?_).symm
      exact own (e.one p' p c (same ▸ held) here)
  constructor
  · intro d
    by_cases same : d = c
    · subst same
      rw [Function.update_self]
      refine iff_of_false ?_ ?_
      · rintro ⟨q, is, other⟩
        exact other (Option.some.inj is).symm
      · rintro ⟨p', held⟩
        exact ((kept p' d).mp held).2 rfl
    · rw [Function.update_of_ne same, e.held d]
      exact exists_congr fun p' => ((kept p' d).trans (and_iff_left same)).symm
  · intro p' p'' d first second
    exact e.one p' p'' d ((kept p' d).mp first).1 ((kept p'' d).mp second).1

end Exclusive

def Fits (handlers : ConnId → Option Point) : Child → Prop
  | .accept => True
  | .handle c => ∃ q, handlers c = some q ∧ Multithread.message q = none
  | .died (some c) message => handlers c = some (.failed message)
  | .died none message => message = "accept() failed"

section Fits

variable {handlers : ConnId → Option Point} {child : Child} {c : ConnId} {q : Point}

private theorem fits_other (fits : Fits handlers child) (other : child.current ≠ some c) :
    Fits (Function.update handlers c (some q)) child := by
  have elsewhere : ∀ d, child.current = some d → Function.update handlers c (some q) d =
      handlers d := by
    rintro d current
    refine Function.update_of_ne ?_ _ _
    rintro rfl
    exact other current
  cases child with
  | accept => trivial
  | handle d =>
    obtain ⟨q', handler, alive⟩ := fits
    exact ⟨q', (elsewhere d rfl).trans handler, alive⟩
  | died handling message =>
    cases handling with
    | none => exact fits
    | some d => exact (elsewhere d rfl).trans fits

private theorem fits_after (c : ConnId) (q : Point) :
    Fits (Function.update handlers c (some q)) (after c q) := by
  have now : Function.update handlers c (some q) c = some q := Function.update_self ..
  cases q with
  | returned => trivial
  | failed message => exact now
  | recv => exact ⟨_, now, rfl⟩
  | send echoBuffer => exact ⟨_, now, rfl⟩
  | close => exact ⟨_, now, rfl⟩

private theorem after_current (c : ConnId) (q : Point) :
    (after c q).current = if q = .returned then none else some c := by
  cases q with
  | returned => rfl
  | _ => rfl

end Fits

def Looping (processLimit : ℕ) (s : State) : Prop :=
  match s.parent with
  | .fork => s.processCt = s.children.length ∧ s.processCt ≤ processLimit ∧ s.reaped = []
  | .wait => s.children.length = processLimit ∧ s.processCt = s.reaped.length ∧
      s.processCt ≤ processLimit
  | _ => s.children.length = processLimit ∧ s.reaped.length = processLimit

structure Kept (processLimit : ℕ) (s : State) : Prop where
  numbered : s.clients.Numbered
  exclusive : Exclusive (holds s.children) s.clients.handlers
  fits : ∀ (p : ProcId) child, s.children[p]? = some child → Fits s.clients.handlers child
  looping : Looping processLimit s
  once : s.reaped.Nodup
  dead : ∀ p ∈ s.reaped, ∃ handling message, s.children[p]? = some (.died handling message)

theorem kept_init (processLimit : ℕ) : Kept processLimit init where
  numbered := Clients.numbered_none
  exclusive := by
    refine ⟨fun c => iff_of_false ?_ ?_, fun p p' c held => by cases held⟩
    · rintro ⟨q, handler, _⟩
      cases handler
    · rintro ⟨p, held⟩
      cases held
  fits := fun p child here => by cases here
  looping := ⟨rfl, Nat.zero_le _, rfl⟩
  once := List.nodup_nil
  dead := fun p inside => absurd inside List.not_mem_nil

section Kept

variable {processLimit : ℕ} {s t : State} {a : Action} {p : ProcId}

private theorem lt_of_child {child : Child} (here : s.children[p]? = some child) :
    p < s.children.length := by
  obtain ⟨inside, _⟩ := List.getElem?_eq_some_iff.mp here
  exact inside

private theorem dead_set {child child' : Child} (k : Kept processLimit s)
    (here : s.children[p]? = some child) (alive : child.dead = false) :
    ∀ p' ∈ s.reaped, ∃ handling message,
      (s.children.set p child')[p']? = some (.died handling message) := by
  intro p' inside
  obtain ⟨handling, message, died⟩ := k.dead p' inside
  refine ⟨handling, message, ?_⟩
  rw [List.getElem?_set_ne, died]
  rintro rfl
  rw [here] at died
  rw [Option.some.inj died] at alive
  cases alive

private theorem looping_set {child : Child} {cl : Clients} (looping : Looping processLimit s) :
    Looping processLimit { s with children := s.children.set p child, clients := cl } := by
  unfold Looping at looping ⊢
  rw [show ({ s with children := s.children.set p child, clients := cl } : State).children.length =
    s.children.length from List.length_set ..]
  exact looping

private theorem fits_set {handlers : ConnId → Option Point} {c : ConnId} {q : Point} {child : Child}
    {children : List Child}
    (fits : ∀ (p : ProcId) child, children[p]? = some child → Fits handlers child)
    (only : ∀ p', holds children p' = some c → p' = p)
    (own : Fits (Function.update handlers c (some q)) child) :
    ∀ (p' : ProcId) child', (children.set p child)[p']? = some child' →
      Fits (Function.update handlers c (some q)) child' := by
  intro p' child' here
  by_cases same : p = p'
  · subst same
    rw [List.getElem?_set_self'] at here
    obtain ⟨_, _, rfl⟩ := Option.map_eq_some_iff.mp here
    exact own
  · rw [List.getElem?_set_ne same] at here
    refine fits_other (fits p' child' here) fun current => same ?_
    exact (only p' ((holds_of_child here).trans current)).symm

private theorem kept_accepted (k : Kept processLimit s) (here : s.children[p]? = some .accept) :
    Kept processLimit { s with
      children := s.children.set p (.handle s.clients.accepted)
      clients := s.clients.accept } where
  numbered := Clients.numbered_accept k.numbered
  exclusive := by
    change Exclusive (holds (s.children.set p _)) (Function.update _ _ _)
    rw [holds_set (lt_of_child here)]
    exact k.exclusive.accept (holds_of_child here) k.numbered.newest
  fits := by
    refine fits_set k.fits (fun p' held => ?_) ⟨.recv, Function.update_self .., rfl⟩
    obtain ⟨q, handler, _⟩ := (k.exclusive.held _).mpr ⟨p', held⟩
    rw [k.numbered.newest] at handler
    cases handler
  looping := looping_set k.looping
  once := k.once
  dead := dead_set k here rfl

private theorem kept_called {c : ConnId} {l : Call} {q : Point} {cl : Clients}
    (k : Kept processLimit s)
    (here : s.children[p]? = some (.handle c)) (handled : s.clients.call c l = some (q, cl)) :
    Kept processLimit { s with children := s.children.set p (after c q), clients := cl } where
  numbered := Clients.numbered_call k.numbered handled
  exclusive := by
    obtain ⟨_, _, _, _, rfl⟩ := Clients.call_eq_some.mp handled
    change Exclusive (holds (s.children.set p (after c q))) (Function.update _ _ _)
    rw [holds_set (lt_of_child here), after_current]
    split
    · rename_i gone
      rw [gone]
      exact k.exclusive.returned (holds_of_child here)
    · rename_i goes_on
      exact k.exclusive.call (holds_of_child here) goes_on
  fits := by
    obtain ⟨_, _, _, _, rfl⟩ := Clients.call_eq_some.mp handled
    exact fits_set k.fits (fun p' held => k.exclusive.one p' p c held (holds_of_child here))
      (fits_after c q)
  looping := looping_set k.looping
  once := k.once
  dead := dead_set k here rfl

private theorem unreaped_ne_nil (k : Kept processLimit s) (here : s.parent = .wait)
    (more : s.processCt < processLimit) : unreaped s ≠ [] := by
  have looping := k.looping
  rw [Looping, here] at looping
  obtain ⟨all, counted, _⟩ := looping
  intro none_left
  have every : List.range s.children.length ⊆ s.reaped := by
    intro p inside
    by_contra left
    have unwaited : p ∈ unreaped s := List.mem_filter.mpr ⟨inside, by simpa using left⟩
    rw [none_left] at unwaited
    cases unwaited
  have few := List.nodup_range.length_le_of_subset every
  rw [List.length_range] at few
  omega

theorem kept_step (s : State) (a : Action) (t : State) (k : Kept processLimit s)
    (taken : step processLimit s a = some t) : Kept processLimit t := by
  have looping := k.looping
  cases took_of_step taken with
  | forked here more =>
    rw [Looping, here] at looping
    obtain ⟨all, _, nobody⟩ := looping
    refine ⟨k.numbered, ?_, ?_, ?_, k.once, ?_⟩
    · rw [holds_fork]
      exact k.exclusive
    · intro p child here
      rw [List.getElem?_append] at here
      split at here
      · exact k.fits p child here
      · rw [List.getElem?_singleton] at here
        split at here
        · cases here
          trivial
        · cases here
    · rw [Looping, here]
      exact ⟨by rw [List.length_append, all]; rfl, more, nobody⟩
    · intro p inside
      rw [nobody] at inside
      cases inside
  | forkFailed here => exact ⟨k.numbered, k.exclusive, k.fits, k.looping, k.once, k.dead⟩
  | waits here enough =>
    rw [Looping, here] at looping
    obtain ⟨all, most, nobody⟩ := looping
    refine ⟨k.numbered, k.exclusive, k.fits, ⟨?_, ?_, Nat.zero_le _⟩, k.once, k.dead⟩
    · exact all.symm.trans (Nat.le_antisymm most (Nat.le_of_not_lt enough))
    · rw [nobody]
      rfl
  | nobody here more none_left => exact absurd none_left (unreaped_ne_nil k here more)
  | waited here enough =>
    rw [Looping, here] at looping
    obtain ⟨all, counted, most⟩ := looping
    exact ⟨k.numbered, k.exclusive, k.fits,
      ⟨all, counted.symm.trans (Nat.le_antisymm most (Nat.le_of_not_lt enough))⟩, k.once, k.dead⟩
  | closes here =>
    rw [Looping, here] at looping
    exact ⟨k.numbered, k.exclusive, k.fits, looping, k.once, k.dead⟩
  | reaped p handling message here more left dead =>
    rw [Looping, here] at looping
    obtain ⟨all, counted, _⟩ := looping
    have once : (s.reaped ++ [p]).Nodup :=
      List.concat_eq_append ▸ (List.nodup_concat s.reaped p).mpr ⟨left, k.once⟩
    refine ⟨k.numbered, k.exclusive, k.fits, ?_, once, ?_⟩
    · rw [Looping, here]
      exact ⟨all, by rw [List.length_append, ← counted]; rfl, more⟩
    · intro p' inside
      rcases List.mem_append.mp inside with before | now
      · exact k.dead p' before
      · rw [List.mem_singleton.mp now]
        exact ⟨handling, message, dead⟩
  | accepted p here => exact kept_accepted k here
  | acceptFailed p here =>
    refine ⟨k.numbered, ?_, ?_, looping_set looping, k.once, dead_set k here rfl⟩
    · change Exclusive (holds (s.children.set p _)) _
      rw [holds_set (lt_of_child here), show Child.current (.died none "accept() failed") =
        holds s.children p from (holds_of_child here).symm, Function.update_eq_self]
      exact k.exclusive
    · intro p' child' found
      by_cases same : p = p'
      · subst same
        rw [List.getElem?_set_self (lt_of_child here)] at found
        cases found
        rfl
      · rw [List.getElem?_set_ne same] at found
        exact k.fits p' child' found
  | called p c l q cl here handled => exact kept_called k here handled

end Kept

theorem attends_step {processLimit : ℕ} {s t : State} {a : Action} (c : ConnId)
    (numbered : s.clients.Numbered) (taken : step processLimit s a = some t) :
    Clients.Attends c (event? a).toList s.clients t.clients := by
  cases took_of_step taken with
  | accepted p here => exact Clients.attends_accept numbered c
  | called p d k q cl here handled => exact Clients.attends_call handled c
  | _ => exact Clients.attends_still c

/-- The connections that have not been closed, those included whose process has died. -/
def unfinished (cl : Clients) : Finset ConnId :=
  (Finset.range cl.accepted).filter fun c => cl.handlers c ≠ some .returned

section Limit

variable {processLimit : ℕ} {s : State}

private theorem children_le (k : Kept processLimit s) : s.children.length ≤ processLimit := by
  have looping := k.looping
  unfold Looping at looping
  split at looping
  · exact looping.1.symm.trans_le looping.2.1
  · exact looping.1.le
  · exact looping.1.le

private theorem handler_of_unfinished (k : Kept processLimit s) {c : ConnId}
    (open_yet : c ∈ unfinished s.clients) : ∃ q, s.clients.handlers c = some q ∧ q ≠ .returned := by
  obtain ⟨before, other⟩ := Finset.mem_filter.mp open_yet
  obtain ⟨q, handler⟩ :=
    Option.isSome_iff_exists.mp ((k.numbered c).mpr (Finset.mem_range.mp before))
  refine ⟨q, handler, ?_⟩
  rintro rfl
  exact other handler

private theorem unfinished_le (k : Kept processLimit s) :
    (unfinished s.clients).card ≤ s.children.length := by
  have onto : Set.SurjOn (fun p => (holds s.children p).getD 0)
      (Finset.range s.children.length) (unfinished s.clients) := by
    intro c open_yet
    obtain ⟨p, held⟩ := (k.exclusive.held c).mp (handler_of_unfinished k open_yet)
    obtain ⟨child, here, _⟩ := Option.bind_eq_some_iff.mp held
    refine ⟨p, Finset.mem_coe.mpr (Finset.mem_range.mpr (lt_of_child here)), ?_⟩
    exact congrArg (fun c => Option.getD c 0) held
  exact (Finset.card_le_card_of_surjOn _ onto).trans (Finset.card_range _).le

private theorem all_dead (k : Kept processLimit s) (here : s.parent = .exited) {child : Child}
    (inside : child ∈ s.children) : ∃ handling message, child = .died handling message := by
  have looping := k.looping
  rw [Looping, here] at looping
  obtain ⟨all, waited⟩ := looping
  have known : s.reaped ⊆ List.range s.children.length := by
    intro p reaped
    obtain ⟨handling, message, died⟩ := k.dead p reaped
    exact List.mem_range.mpr (lt_of_child died)
  have every := (List.subperm_of_subset k.once known).perm_of_length_le (by
    rw [List.length_range, all, waited])
  obtain ⟨p, within, rfl⟩ := List.getElem_of_mem inside
  obtain ⟨handling, message, died⟩ :=
    k.dead p (every.mem_iff.mpr (List.mem_range.mpr within))
  rw [List.getElem?_eq_getElem within] at died
  exact ⟨handling, message, Option.some.inj died⟩

end Limit

/-- However the processes take turns: a connection that has not been closed is with one process,
which lives exactly as long as its handler has not failed. So there are never more connections
open or lost than processes, and the parent is not gone before every process has died of an error
of its own: there are no children then that carry on. -/
theorem processes_share_connections (processLimit : ℕ) {s : State}
    (run : Reach (step processLimit) init s) :
    (∀ c q, s.clients.handlers c = some q → q ≠ .returned →
      ∃! p : ProcId, ∃ child, s.children[p]? = some child ∧ child.current = some c ∧
        (child.dead = true ↔ (Multithread.message q).isSome = true)) ∧
    (unfinished s.clients).card ≤ s.children.length ∧ s.children.length ≤ processLimit ∧
    (s.parent = .exited → s.children.length = processLimit ∧
      ∀ child ∈ s.children, ∃ handling message, child = .died handling message) := by
  have k : Kept processLimit s := invariant_of_step_reach kept_step (kept_init processLimit) run
  refine ⟨?_, unfinished_le k, children_le k, ?_⟩
  · intro c q handler goes_on
    obtain ⟨p, held⟩ := (k.exclusive.held c).mp ⟨q, handler, goes_on⟩
    obtain ⟨child, here, current⟩ := Option.bind_eq_some_iff.mp held
    refine ⟨p, ⟨child, here, current, ?_⟩, ?_⟩
    · have fits := k.fits p child here
      cases child with
      | accept => cases current
      | handle d =>
        obtain rfl : d = c := Option.some.inj current
        obtain ⟨q', same, alive⟩ := fits
        rw [handler] at same
        rw [Option.some.inj same, alive]
        exact iff_of_false Bool.false_ne_true Bool.false_ne_true
      | died handling message =>
        obtain rfl : handling = some c := current
        rw [Fits, handler] at fits
        rw [Option.some.inj fits]
        exact iff_of_true rfl rfl
    · rintro p' ⟨child', here', current', _⟩
      exact k.exclusive.one p' p c ((holds_of_child here').trans current') held
  · intro gone
    have looping := k.looping
    rw [Looping, gone] at looping
    exact ⟨looping.1, fun child inside => all_dead k gone inside⟩

def untilNoneIsLeft : List Action :=
  [.fork, .accept 0, .fork, .main, .call 0 0 .recvFails, .wait 0, .acceptFails 1, .wait 1, .main,
    .main]

theorem no_process_carries_on : ∃ s, Reach (step 2) init s ∧ s.parent = .exited ∧
    s.children.length = 2 ∧
    ∀ child ∈ s.children, ∃ handling message, child = .died handling message := by
  obtain ⟨s, taken⟩ : ∃ s, exec (step 2) init untilNoneIsLeft = some s := ⟨_, rfl⟩
  have ends : (exec (step 2) init untilNoneIsLeft).map State.parent = some .exited := by
    decide +kernel
  rw [taken] at ends
  have gone : s.parent = .exited := Option.some.inj ends
  obtain ⟨both, none_left⟩ := (processes_share_connections 2 ⟨_, taken⟩).2.2.2 gone
  exact ⟨s, ⟨_, taken⟩, gone, both, none_left⟩

end SocketChat.TestCode.Echo.Constrained
