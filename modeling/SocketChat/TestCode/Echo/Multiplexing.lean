/- SocketChat/TestCode/Echo/Multiplexing
   digest: The multiplexing echo server: select on its ports and stdin, one client at a time. -/

import Mathlib.Data.List.Nodup
import SocketChat.Lib.History
import SocketChat.TestCode.Echo.Serial

set_option autoImplicit false
set_option relaxedAutoImplicit false

namespace SocketChat.TestCode.Echo.Multiplexing

open SocketChat.Lib.CString
open SocketChat.Lib.History
open SocketChat.Lib.Runs
open SocketChat.TestCode.Echo.Model
open SocketChat.TestCode.Echo.Serial (Clients)

def STDIN_FILENO : ℤ := 0

/-- What `CreateTCPServerSocket` has returned for the ports of the command line, of which there is
one at least: descriptors that were not open before, while that of the keyboard was. -/
structure Ports where
  servSock : List ℤ
  nonempty : servSock ≠ []
  positive : ∀ fd ∈ servSock, STDIN_FILENO < fd
  nodup : servSock.Nodup

/-- What the loop that creates the sockets does with the next of them. -/
def larger (maxDescriptor fd : ℤ) : ℤ := if fd > maxDescriptor then fd else maxDescriptor

def maxDescriptor (servSock : List ℤ) : ℤ := servSock.foldl larger (-1)

/-- Where `main` stands: at `while (running)`, at `select`, behind it, at `getchar`, in the loop
over the ports, with one of these at `accept` or in `HandleTCPClient`, or in the loop that closes
the sockets. -/
inductive Place
  | test
  | select
  | keyboard
  | getchar
  | port (i : ℕ)
  | accept (i : ℕ)
  | handle (i : ℕ) (c : ConnId)
  | close (i : ℕ)
  | exited
deriving DecidableEq

/-- `sockSet` lists what is set in it; `closed` are the server sockets that have been closed. -/
structure State where
  place : Place
  running : Bool
  sockSet : List ℤ
  closed : List ℤ
  died : Option String
  clients : Clients

def init : State := ⟨.test, true, [], [], none, .none⟩

def asked (ports : Ports) : List ℤ := STDIN_FILENO :: ports.servSock

section Descriptors

private theorem le_larger (m fd : ℤ) : m ≤ larger m fd ∧ fd ≤ larger m fd := by
  unfold larger
  split
  · omega
  · omega

private theorem le_foldl_larger (m : ℤ) (fds : List ℤ) :
    m ≤ fds.foldl larger m ∧ ∀ fd ∈ fds, fd ≤ fds.foldl larger m := by
  induction fds generalizing m with
  | nil => exact ⟨le_rfl, fun fd none_there => absurd none_there List.not_mem_nil⟩
  | cons first fds ih =>
    obtain ⟨grows, covers⟩ := ih (larger m first)
    obtain ⟨old, new⟩ := le_larger m first
    refine ⟨old.trans grows, ?_⟩
    intro fd inside
    rcases List.mem_cons.mp inside with rfl | later
    · exact new.trans grows
    · exact covers fd later

private theorem asked_within (ports : Ports) :
    ∀ fd ∈ asked ports, fd < maxDescriptor ports.servSock + 1 := by
  obtain ⟨_, covers⟩ := le_foldl_larger (-1) ports.servSock
  intro fd inside
  rcases List.mem_cons.mp inside with rfl | port
  · obtain ⟨first, port⟩ := List.exists_mem_of_ne_nil ports.servSock ports.nonempty
    exact Int.lt_add_one_of_le ((ports.positive first port).le.trans (covers first port))
  · exact Int.lt_add_one_of_le (covers fd port)

end Descriptors

/-- The calls with their results; `select` returns at least one descriptor among those below its
first argument, or 0, or fails, and leaves the set as it was then. -/
inductive Action
  | main
  | select (ready : List ℤ)
  | timeout
  | selectFails
  | getchar
  | accept
  | acceptFails
  | call (c : ConnId) (k : Call)
deriving DecidableEq

def event? : Action → Option Event
  | .accept => some .accept
  | .call c k => some (.call c k)
  | _ => none

/-- What `main` does between the calls that wait for something. -/
def runMain (ports : Ports) (s : State) : Option State :=
  match s.place with
  | .test =>
      if s.running then some { s with place := .select, sockSet := asked ports }
      else some { s with place := .close 0 }
  | .keyboard =>
      if STDIN_FILENO ∈ s.sockSet then some { s with place := .getchar }
      else some { s with place := .port 0 }
  | .port i =>
      match ports.servSock[i]? with
      | some fd =>
          if fd ∈ s.sockSet then some { s with place := .accept i }
          else some { s with place := .port (i + 1) }
      | none => some { s with place := .test }
  | .close i =>
      match ports.servSock[i]? with
      | some fd => some { s with place := .close (i + 1), closed := s.closed ++ [fd] }
      | none => some { s with place := .exited }
  | _ => none

def select (ports : Ports) (s : State) (ready : List ℤ) : Option State :=
  if s.place = .select ∧ ready ≠ [] ∧
      ∀ fd ∈ ready, fd ∈ s.sockSet ∧ fd < maxDescriptor ports.servSock + 1 then
    some { s with place := .keyboard, sockSet := ready }
  else none

def step (ports : Ports) (s : State) (a : Action) : Option State :=
  if s.died = none then
    match s.place, a with
    | _, .main => runMain ports s
    | _, .select ready => select ports s ready
    | .select, .timeout => some { s with place := .test, sockSet := [] }
    | .select, .selectFails => some { s with place := .keyboard }
    | .getchar, .getchar => some { s with place := .port 0, running := false }
    | .accept i, .accept =>
        some { s with place := .handle i s.clients.accepted, clients := s.clients.accept }
    | .accept _, .acceptFails => some { s with died := some "accept() failed" }
    | .handle i c, .call d k =>
        if c = d then
          (s.clients.call c k).map fun next =>
            { s with
              place := if next.1 = .returned then .port (i + 1) else .handle i c
              died := Multithread.message next.1
              clients := next.2 }
        else none
    | _, _ => none
  else none

inductive Took (ports : Ports) (s : State) : Action → State → Prop
  | goesOn (here : s.place = .test) (on : s.running = true) :
      Took ports s .main { s with place := .select, sockSet := asked ports }
  | stops (here : s.place = .test) (off : s.running = false) :
      Took ports s .main { s with place := .close 0 }
  | reported (ready : List ℤ) (here : s.place = .select) (some_ready : ready ≠ [])
      (within : ∀ fd ∈ ready, fd ∈ s.sockSet) :
      Took ports s (.select ready) { s with place := .keyboard, sockSet := ready }
  | timeout (here : s.place = .select) :
      Took ports s .timeout { s with place := .test, sockSet := [] }
  | selectFailed (here : s.place = .select) :
      Took ports s .selectFails { s with place := .keyboard }
  | key (here : s.place = .keyboard) (pressed : STDIN_FILENO ∈ s.sockSet) :
      Took ports s .main { s with place := .getchar }
  | noKey (here : s.place = .keyboard) (quiet : STDIN_FILENO ∉ s.sockSet) :
      Took ports s .main { s with place := .port 0 }
  | consumed (here : s.place = .getchar) :
      Took ports s .getchar { s with place := .port 0, running := false }
  | request (i : ℕ) (fd : ℤ) (here : s.place = .port i) (port : ports.servSock[i]? = some fd)
      (ready : fd ∈ s.sockSet) : Took ports s .main { s with place := .accept i }
  | noRequest (i : ℕ) (fd : ℤ) (here : s.place = .port i) (port : ports.servSock[i]? = some fd)
      (quiet : fd ∉ s.sockSet) : Took ports s .main { s with place := .port (i + 1) }
  | roundDone (i : ℕ) (here : s.place = .port i) (past : ports.servSock[i]? = none) :
      Took ports s .main { s with place := .test }
  | accepted (i : ℕ) (here : s.place = .accept i) :
      Took ports s .accept
        { s with place := .handle i s.clients.accepted, clients := s.clients.accept }
  | acceptFailed (i : ℕ) (here : s.place = .accept i) :
      Took ports s .acceptFails { s with died := some "accept() failed" }
  | called (i : ℕ) (c : ConnId) (k : Call) (q : Point) (cl : Clients)
      (here : s.place = .handle i c) (handled : s.clients.call c k = some (q, cl)) :
      Took ports s (.call c k) { s with
        place := if q = .returned then .port (i + 1) else .handle i c
        died := Multithread.message q
        clients := cl }
  | closes (i : ℕ) (fd : ℤ) (here : s.place = .close i) (port : ports.servSock[i]? = some fd) :
      Took ports s .main { s with place := .close (i + 1), closed := s.closed ++ [fd] }
  | exits (i : ℕ) (here : s.place = .close i) (past : ports.servSock[i]? = none) :
      Took ports s .main { s with place := .exited }

section Steps

variable {ports : Ports} {s t : State} {a : Action}

private theorem took_main (taken : runMain ports s = some t) : Took ports s .main t := by
  unfold runMain at taken
  split at taken
  · rename_i here
    split at taken
    · rename_i on
      cases taken
      exact .goesOn here on
    · rename_i off
      cases taken
      exact .stops here (Bool.eq_false_iff.mpr off)
  · rename_i here
    split at taken
    · rename_i pressed
      cases taken
      exact .key here pressed
    · rename_i quiet
      cases taken
      exact .noKey here quiet
  · rename_i i here
    split at taken
    · rename_i fd port
      split at taken
      · rename_i ready
        cases taken
        exact .request i fd here port ready
      · rename_i quiet
        cases taken
        exact .noRequest i fd here port quiet
    · rename_i past
      cases taken
      exact .roundDone i here past
  · rename_i i here
    split at taken
    · rename_i fd port
      cases taken
      exact .closes i fd here port
    · rename_i past
      cases taken
      exact .exits i here past
  · cases taken

private theorem took_of_step (taken : step ports s a = some t) : Took ports s a t := by
  unfold step at taken
  split at taken
  · split at taken
    · exact took_main taken
    · simp only [select, Option.ite_none_right_eq_some, Option.some.injEq] at taken
      obtain ⟨⟨here, some_ready, within⟩, rfl⟩ := taken
      exact .reported _ here some_ready fun fd inside => (within fd inside).1
    · rename_i here
      cases taken
      exact .timeout here
    · rename_i here
      cases taken
      exact .selectFailed here
    · rename_i here
      cases taken
      exact .consumed here
    · rename_i i here
      cases taken
      exact .accepted i here
    · rename_i i here
      cases taken
      exact .acceptFailed i here
    · rename_i i c d k here
      split at taken
      · rename_i own
        subst own
        obtain ⟨⟨q, cl⟩, handled, rfl⟩ := Option.map_eq_some_iff.mp taken
        exact .called i c k q cl here handled
      · cases taken
    · cases taken
  · cases taken

end Steps

structure Account where
  served : List ℤ
  roused : Bool

def note (ports : Ports) (s : State) : Action → Account → Account
  | .select ready, account => ⟨[], account.roused || decide (STDIN_FILENO ∈ ready)⟩
  | .timeout, account => ⟨[], account.roused⟩
  | .selectFails, _ => ⟨[], true⟩
  | .accept, account =>
      match s.place with
      | .accept i => { account with served := account.served ++ ports.servSock[i]?.toList }
      | _ => account
  | _, account => account

def rouses : Action → Bool
  | .select ready => decide (STDIN_FILENO ∈ ready)
  | .selectFails => true
  | _ => false

def selects : Action → Bool
  | .select _ => true
  | .timeout => true
  | .selectFails => true
  | _ => false

/-- What the last `select` has left in the set: all that it was asked for when it failed. -/
def left (ports : Ports) : Option Action → List ℤ
  | some (.select ready) => ready
  | some .selectFails => asked ports
  | _ => []

private theorem note_roused (ports : Ports) (s : State) (a : Action) (account : Account) :
    (note ports s a account).roused = (account.roused || rouses a) := by
  cases a with
  | select ready => rfl
  | selectFails => exact (Bool.or_true _).symm
  | accept =>
    change (match s.place with
      | .accept i => { account with served := account.served ++ ports.servSock[i]?.toList }
      | _ => account).roused = _
    split
    · exact (Bool.or_false _).symm
    · exact (Bool.or_false _).symm
  | _ => exact (Bool.or_false _).symm

abbrev Noted := State × Account

def start : Noted := (init, ⟨[], false⟩)

def requests (ports : Ports) (s : State) (i : ℕ) : List ℤ :=
  (ports.servSock.take i).filter fun fd => fd ∈ s.sockSet

/-- In a round the ports are served that `select` has left in the set, and no others. -/
def Served (ports : Ports) (m : Noted) : Prop :=
  match m.1.place with
  | .select => m.1.sockSet = asked ports
  | .keyboard | .getchar => m.2.served = []
  | .port i => m.2.served = requests ports m.1 i
  | .accept i => m.2.served = requests ports m.1 i ∧
      ∃ fd, ports.servSock[i]? = some fd ∧ fd ∈ m.1.sockSet
  | .handle i _ => m.2.served = requests ports m.1 (i + 1)
  | _ => m.2.served = requests ports m.1 ports.servSock.length

/-- `running` is cleared in the round whose `select` has failed or reported the keyboard. -/
def Roused (m : Noted) : Prop :=
  match m.1.place with
  | .keyboard => m.1.running = true ∧ (m.2.roused = true ↔ STDIN_FILENO ∈ m.1.sockSet)
  | .getchar => m.1.running = true ∧ m.2.roused = true
  | .select => m.2.roused = false ∧ m.1.running = true
  | .close _ | .exited => m.2.roused = true ∧ m.1.running = false
  | _ => m.1.running = !m.2.roused

def Closing (ports : Ports) (s : State) : Prop :=
  match s.place with
  | .close i => s.closed = ports.servSock.take i
  | .exited => s.closed = ports.servSock
  | _ => s.closed = []

section Rounds

variable {ports : Ports} {s t : State} {a : Action} {account : Account}

private theorem requests_ready {i : ℕ} {fd : ℤ} (port : ports.servSock[i]? = some fd)
    (ready : fd ∈ s.sockSet) : requests ports s (i + 1) = requests ports s i ++ [fd] := by
  rw [requests, List.take_add_one, port, List.filter_append, Option.toList_some,
    List.filter_cons_of_pos (by simpa using ready), List.filter_nil]
  rfl

private theorem requests_quiet {i : ℕ} {fd : ℤ} (port : ports.servSock[i]? = some fd)
    (quiet : fd ∉ s.sockSet) : requests ports s (i + 1) = requests ports s i := by
  rw [requests, List.take_add_one, port, List.filter_append, Option.toList_some,
    List.filter_cons_of_neg (by simpa using quiet), List.filter_nil, List.append_nil]
  rfl

private theorem requests_past {i : ℕ} (past : ports.servSock[i]? = none) :
    requests ports s i = requests ports s ports.servSock.length := by
  rw [requests, requests, List.take_of_length_le (List.getElem?_eq_none_iff.mp past),
    List.take_length]

private theorem served_step (h : Served ports (s, account)) (taken : step ports s a = some t) :
    Served ports (t, note ports s a account) := by
  cases took_of_step taken with
  | goesOn here on => rfl
  | stops here off =>
    rw [Served, here] at h
    exact h
  | reported ready here some_ready within => rfl
  | timeout here =>
    change [] = List.filter _ _
    exact (List.filter_eq_nil_iff.mpr fun fd _ => by simp).symm
  | selectFailed here => rfl
  | key here pressed =>
    rw [Served, here] at h
    exact h
  | noKey here quiet =>
    rw [Served, here] at h
    exact h
  | consumed here =>
    rw [Served, here] at h
    exact h
  | request i fd here port ready =>
    rw [Served, here] at h
    exact ⟨h, fd, port, ready⟩
  | noRequest i fd here port quiet =>
    rw [Served, here] at h
    exact h.trans (requests_quiet port quiet).symm
  | roundDone i here past =>
    rw [Served, here] at h
    exact h.trans (requests_past past)
  | accepted i here =>
    rw [Served, here] at h
    obtain ⟨before, fd, port, ready⟩ := h
    rw [note, here]
    change account.served ++ ports.servSock[i]?.toList = requests ports s (i + 1)
    rw [requests_ready port ready, port]
    exact congrArg (· ++ [fd]) before
  | acceptFailed i here => exact h
  | called i c k q cl here handled =>
    rw [Served, here] at h
    by_cases gone : q = .returned
    · rw [if_pos gone]
      exact h
    · rw [if_neg gone]
      exact h
  | closes i fd here port =>
    rw [Served, here] at h
    exact h
  | exits i here past =>
    rw [Served, here] at h
    exact h

private theorem roused_step (before : Served ports (s, account)) (h : Roused (s, account))
    (taken : step ports s a = some t) : Roused (t, note ports s a account) := by
  cases took_of_step taken with
  | goesOn here on =>
    rw [Roused, here] at h
    change s.running = !account.roused at h
    rw [on] at h
    have quiet : account.roused = false := by simpa using h
    exact ⟨quiet, on⟩
  | stops here off =>
    rw [Roused, here] at h
    change s.running = !account.roused at h
    rw [off] at h
    have roused : account.roused = true := by simpa using h
    exact ⟨roused, off⟩
  | reported ready here some_ready within =>
    rw [Roused, here] at h
    obtain ⟨quiet, on⟩ := h
    refine ⟨on, ?_⟩
    change (account.roused || decide (STDIN_FILENO ∈ ready)) = true ↔ STDIN_FILENO ∈ ready
    rw [show account.roused = false from quiet, Bool.false_or, decide_eq_true_iff]
  | timeout here =>
    rw [Roused, here] at h
    obtain ⟨quiet, on⟩ := h
    change s.running = !account.roused
    rw [show account.roused = false from quiet]
    exact on
  | selectFailed here =>
    rw [Roused, here] at h
    rw [Served, here] at before
    refine ⟨h.2, iff_of_true rfl ?_⟩
    change STDIN_FILENO ∈ s.sockSet
    rw [show s.sockSet = asked ports from before]
    exact List.mem_cons_self
  | key here pressed =>
    rw [Roused, here] at h
    exact ⟨h.1, h.2.mpr pressed⟩
  | noKey here quiet =>
    rw [Roused, here] at h
    change s.running = !account.roused
    rw [Bool.eq_false_iff.mpr fun roused => quiet (h.2.mp roused)]
    exact h.1
  | consumed here =>
    rw [Roused, here] at h
    change false = !account.roused
    rw [show account.roused = true from h.2]
    rfl
  | called i c k q cl here handled =>
    rw [Roused, here] at h
    by_cases gone : q = .returned
    · rw [if_pos gone]
      exact h
    · rw [if_neg gone]
      exact h
  | accepted i here =>
    rw [Roused, here] at h
    rw [note, here]
    exact h
  | acceptFailed i here => exact h
  | request i fd here _ _ | noRequest i fd here _ _ | roundDone i here _ | closes i fd here _
  | exits i here _ =>
    rw [Roused, here] at h
    exact h

private theorem closing_step (h : Closing ports s) (taken : step ports s a = some t) :
    Closing ports t := by
  cases took_of_step taken with
  | closes i fd here port =>
    rw [Closing, here] at h
    change s.closed ++ [fd] = ports.servSock.take (i + 1)
    rw [List.take_add_one, port, h]
    rfl
  | exits i here past =>
    rw [Closing, here] at h
    exact h.trans (List.take_of_length_le (List.getElem?_eq_none_iff.mp past))
  | called i c k q cl here handled =>
    rw [Closing, here] at h
    by_cases gone : q = .returned
    · rw [if_pos gone]
      exact h
    · rw [if_neg gone]
      exact h
  | acceptFailed i here => exact h
  | goesOn here _ | stops here _ | reported _ here _ _ | timeout here | selectFailed here
  | key here _ | noKey here _ | consumed here | request _ _ here _ _ | noRequest _ _ here _ _
  | roundDone _ here _ | accepted _ here =>
    rw [Closing, here] at h
    exact h

end Rounds

def Place.current : Place → Option ConnId
  | .handle _ c => some c
  | _ => none

theorem inTurn_step {ports : Ports} {s t : State} {a : Action}
    (h : s.clients.InTurn s.place.current) (taken : step ports s a = some t) :
    t.clients.InTurn t.place.current := by
  cases took_of_step taken with
  | accepted i here =>
    rw [here] at h
    exact h.accept
  | called i c k q cl here handled =>
    rw [here] at h
    have after := h.call handled
    by_cases gone : q = .returned
    · rw [if_pos gone] at after ⊢
      exact after
    · rw [if_neg gone] at after ⊢
      exact after
  | acceptFailed i here => exact h
  | goesOn here _ | stops here _ | reported _ here _ _ | timeout here | selectFailed here
  | key here _ | noKey here _ | consumed here | request _ _ here _ _ | noRequest _ _ here _ _
  | roundDone _ here _ | closes _ _ here _ | exits _ here _ =>
    rw [here] at h
    exact h

theorem attends_step {ports : Ports} {s t : State} {a : Action} (c : ConnId)
    (h : s.clients.InTurn s.place.current) (taken : step ports s a = some t) :
    Clients.Attends c (event? a).toList s.clients t.clients := by
  cases took_of_step taken with
  | accepted i here => exact Clients.attends_accept h.numbered c
  | called i d k q cl here handled => exact Clients.attends_call handled c
  | _ => exact Clients.attends_still c

structure Kept (ports : Ports) (m : Noted) : Prop where
  served : Served ports m
  roused : Roused m
  closing : Closing ports m.1
  inTurn : m.1.clients.InTurn m.1.place.current

private theorem kept_start (ports : Ports) : Kept ports start where
  served := (List.filter_eq_nil_iff.mpr fun fd _ => by simp [init, start]).symm
  roused := rfl
  closing := rfl
  inTurn := Clients.inTurn_none

private theorem kept_step (ports : Ports) (m : Noted) (a : Action) (m' : Noted) (h : Kept ports m)
    (taken : remember (step ports) (note ports) m a = some m') : Kept ports m' := by
  obtain ⟨moved, noted⟩ := remember_eq_some.mp taken
  obtain ⟨t, account⟩ := m'
  obtain rfl : note ports m.1 a m.2 = account := noted
  exact ⟨served_step h.served moved, roused_step h.served h.roused moved,
    closing_step h.closing moved, inTurn_step h.inTurn moved⟩

private theorem roused_run {ports : Ports} {m m' : Noted} {as : List Action}
    (taken : exec (remember (step ports) (note ports)) m as = some m') :
    m'.2.roused = (m.2.roused || as.any rouses) := by
  induction as generalizing m with
  | nil =>
    obtain rfl : m = m' := Option.some.inj taken
    exact (Bool.or_false _).symm
  | cons a as ih =>
    obtain ⟨next, first, rest⟩ := exec_cons_eq_some.mp taken
    obtain ⟨_, noted⟩ := remember_eq_some.mp first
    rw [ih rest, ← noted, note_roused, List.any_cons, Bool.or_assoc]

private theorem left_step {ports : Ports} {s t : State} {a : Action} {last : Option Action}
    (asks : s.place = .select → s.sockSet = asked ports)
    (before : s.place = .select ∨ s.sockSet = left ports last) (taken : step ports s a = some t) :
    t.place = .select ∨ t.sockSet = left ports (if selects a then some a else last) := by
  have behind : ∀ place, s.place = place → place ≠ .select → s.sockSet = left ports last := by
    rintro place rfl other
    exact before.resolve_left other
  cases took_of_step taken with
  | goesOn here on => exact Or.inl rfl
  | reported ready here some_ready within => exact Or.inr rfl
  | timeout here => exact Or.inr rfl
  | selectFailed here => exact Or.inr (asks here)
  | acceptFailed i here => exact Or.inr (behind _ here Place.noConfusion)
  | stops here _ | key here _ | noKey here _ | consumed here | request _ _ here _ _
  | noRequest _ _ here _ _ | roundDone _ here _ | accepted _ here | called _ _ _ _ _ here _
  | closes _ _ here _ | exits _ here _ => exact Or.inr (behind _ here Place.noConfusion)

private theorem asked_of_kept {ports : Ports} {m : Noted} (kept : Kept ports m)
    (here : m.1.place = .select) :
    m.1.sockSet = asked ports := by
  have served := kept.served
  rw [Served, here] at served
  exact served

private theorem left_run {ports : Ports} {m m' : Noted} {as : List Action} {last : Option Action}
    (kept : Kept ports m) (before : m.1.place = .select ∨ m.1.sockSet = left ports last)
    (taken : exec (remember (step ports) (note ports)) m as = some m') :
    m'.1.place = .select ∨
      m'.1.sockSet = left ports ((as.filter selects).getLast?.or last) := by
  induction as generalizing m last with
  | nil =>
    obtain rfl : m = m' := Option.some.inj taken
    exact before
  | cons a as ih =>
    obtain ⟨next, first, rest⟩ := exec_cons_eq_some.mp taken
    have moved := (remember_eq_some.mp first).1
    have now := left_step (asked_of_kept kept) before moved
    have later := ih (kept_step ports m a next kept first) now rest
    cases own : selects a with
    | true =>
      rw [own, if_pos rfl] at later
      rw [List.filter_cons_of_pos own, List.getLast?_cons, Option.some_or]
      cases ends : (as.filter selects).getLast? with
      | none =>
        rw [ends] at later
        exact later
      | some b =>
        rw [ends] at later
        exact later
    | false =>
      rw [own, if_neg Bool.false_ne_true] at later
      rw [List.filter_cons_of_neg (by simpa using own)]
      exact later

private theorem not_served_yet {ports : Ports} {s : State} {i : ℕ} {fd : ℤ}
    (port : ports.servSock[i]? = some fd) : fd ∉ requests ports s i := by
  have once : (ports.servSock.take (i + 1)).Nodup := ports.nodup.sublist (List.take_sublist _ _)
  rw [List.take_add_one, port, Option.toList_some] at once
  intro served
  exact List.disjoint_of_nodup_append once (List.mem_filter.mp served).1 List.mem_cons_self

private theorem select_covers {ports : Ports} {s : State} {ready : List ℤ}
    (here : s.place = .select)
    (set : s.sockSet = asked ports) (alive : s.died = none) (some_ready : ready ≠ [])
    (within : ∀ fd ∈ ready, fd ∈ asked ports) :
    step ports s (.select ready) = some { s with place := .keyboard, sockSet := ready } := by
  rw [step, if_pos alive]
  refine if_pos ⟨here, some_ready, fun fd inside => ?_⟩
  rw [set]
  exact ⟨within fd inside, asked_within ports fd (within fd inside)⟩

/-- Whatever its clients do: `select` is asked for exactly the keyboard and the ports and can report
all of it, in a round every port that it reports is served once, in the order of the command line,
all of them when it fails, and the server closes its sockets behind the round in which `select` has
failed or reported the keyboard, with all its clients gone. -/
theorem rounds_serve_what_select_reports (ports : Ports) {as : List Action} {s : State}
    {account : Account}
    (taken : exec (remember (step ports) (note ports)) start as = some (s, account)) :
    (s.place = .select → s.sockSet = asked ports) ∧
    (s.place = .select → s.died = none → ∀ ready ≠ [], (∀ fd ∈ ready, fd ∈ asked ports) →
      step ports s (.select ready) = some { s with place := .keyboard, sockSet := ready }) ∧
    (∀ i, s.place = .accept i →
      ∃ fd, ports.servSock[i]? = some fd ∧ fd ∈ s.sockSet ∧ fd ∉ account.served) ∧
    (s.place = .test → account.served = ports.servSock.filter (fun fd => fd ∈ s.sockSet) ∧
      s.running = !as.any rouses) ∧
    (s.place = .test → account.served =
      ports.servSock.filter (fun fd => fd ∈ left ports (as.filter selects).getLast?)) ∧
    (s.place = .test → (as.filter selects).getLast? = some .selectFails →
      account.served = ports.servSock) ∧
    (s.place = .exited → s.closed = ports.servSock ∧ as.any rouses = true ∧
      ∀ c < s.clients.accepted, s.clients.handlers c = some .returned) := by
  have kept : Kept ports (s, account) :=
    invariant_of_step_reach (kept_step ports) (kept_start ports) ⟨as, taken⟩
  have so_far : account.roused = as.any rouses := roused_run taken
  have begins : start.1.place = .select ∨ start.1.sockSet = left ports none := Or.inr rfl
  have behind := left_run (kept_start ports) begins taken
  rw [Option.or_none] at behind
  have ⟨served, roused, closing, inTurn⟩ := kept
  have in_round : s.place = .test →
      account.served = ports.servSock.filter (fun fd => fd ∈ s.sockSet) := by
    intro here
    rw [Served, here] at served
    rw [show account.served = requests ports s ports.servSock.length from served, requests,
      List.take_length]
  have reported : s.place = .test → account.served =
      ports.servSock.filter (fun fd => fd ∈ left ports (as.filter selects).getLast?) := by
    intro here
    rw [← behind.resolve_left fun other => Place.noConfusion (here.symm.trans other)]
    exact in_round here
  refine ⟨asked_of_kept kept, ?_, ?_, ?_, reported, ?_, ?_⟩
  · intro here alive ready some_ready within
    exact select_covers here (asked_of_kept kept here) alive some_ready within
  · intro i here
    rw [Served, here] at served
    obtain ⟨before, fd, port, ready⟩ := served
    refine ⟨fd, port, ready, ?_⟩
    rw [show account.served = requests ports s i from before]
    exact not_served_yet port
  · intro here
    refine ⟨in_round here, ?_⟩
    rw [Roused, here] at roused
    rw [← so_far]
    exact roused
  · intro here failed
    rw [reported here, failed]
    apply List.filter_eq_self.mpr
    intro fd port
    exact decide_eq_true (List.mem_cons_of_mem _ port)
  · intro here
    rw [Roused, here] at roused
    rw [Closing, here] at closing
    refine ⟨closing, so_far.symm.trans roused.1, fun c before => ?_⟩
    refine inTurn.done c before ?_
    rw [here]
    exact (Option.some_ne_none c).symm

def twoPorts : Ports where
  servSock := [3, 4]
  nonempty := by decide
  positive := by decide
  nodup := by decide

/-- A client of the second port is echoed a byte; then the keyboard and the first port come
together. -/
def twoRounds : List Action :=
  [.main, .select [4], .main, .main, .main, .accept,
    .call 0 (.recv (lit ['A'])), .call 0 .send, .call 0 (.recv []), .call 0 .close, .main,
    .main, .select [3, 0], .main, .getchar, .main, .accept,
    .call 1 (.recv []), .call 1 .close, .main, .main, .main, .main, .main, .main]

theorem two_ports_until_return : ∃ s account,
    exec (remember (step twoPorts) (note twoPorts)) start twoRounds = some (s, account) ∧
      s.place = .exited ∧ s.clients.accepted = 2 ∧ s.closed = [3, 4] ∧
      ∀ c < 2, s.clients.handlers c = some .returned := by
  obtain ⟨⟨s, account⟩, taken⟩ : ∃ m,
      exec (remember (step twoPorts) (note twoPorts)) start twoRounds = some m := ⟨_, rfl⟩
  have ends : (exec (remember (step twoPorts) (note twoPorts)) start twoRounds).map
      (fun m => (m.1.place, m.1.clients.accepted)) = some (.exited, 2) := by decide +kernel
  rw [taken] at ends
  obtain ⟨exits, two⟩ := Prod.mk.inj (Option.some.inj ends)
  obtain ⟨closed, _, gone⟩ := (rounds_serve_what_select_reports twoPorts taken).2.2.2.2.2.2 exits
  exact ⟨s, account, taken, exits, two, closed, fun c few => gone c (by rw [two]; exact few)⟩

end SocketChat.TestCode.Echo.Multiplexing
