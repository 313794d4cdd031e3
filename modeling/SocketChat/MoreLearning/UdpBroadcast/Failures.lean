/- SocketChat/MoreLearning/UdpBroadcast/Failures
   digest: When a failed recvfrom does the server's table and clients no harm. -/

import SocketChat.Lib.History
import SocketChat.MoreLearning.UdpBroadcast.Table

set_option autoImplicit false
set_option relaxedAutoImplicit false

namespace SocketChat.MoreLearning.UdpBroadcast.Failures

open SocketChat.Lib.CString
open SocketChat.Lib.FirstComers
open SocketChat.Lib.History
open SocketChat.Lib.Runs
open SocketChat.MoreLearning.UdpBroadcast.Model
open SocketChat.MoreLearning.UdpBroadcast.Model.Server
open SocketChat.MoreLearning.UdpBroadcast.Table

structure Call where
  result : Recvfrom
  beyond : List Byte

/-- The loop body, which takes every result alike. -/
def step (s : State) (call : Call) : Option State := some (serve s call.result call.beyond).1

structure Failure where
  before : State
  after : State
  sends : List SendTo

structure Notes where
  arrived : List SockaddrIn
  failures : List Failure

def note (s : State) (call : Call) (notes : Notes) : Notes :=
  match call.result with
  | .received client _ => { notes with arrived := notes.arrived ++ [client] }
  | .failed _ =>
      let answer := serve s call.result call.beyond
      { notes with failures := notes.failures ++ [⟨s, answer.1, answer.2⟩] }

abbrev Noted := State × Notes

def start : Noted := (init, ⟨[], []⟩)

/-- No failed call has changed the table or sent anything, and every entry of the table is an
address that a datagram arrived from. -/
structure Unharmed (m : Noted) : Prop where
  ignored : ∀ f ∈ m.2.failures, f.after = f.before ∧ f.sends = []
  genuine : ∀ entry ∈ m.1.table, entry ∈ m.2.arrived

/-- Where `recvfrom` fails, one client is known and `client` still holds its address. -/
def OnlyKnown (m : Noted) (call : Call) : Prop :=
  match call.result with
  | .received _ _ => True
  | .failed client => m.1.table = [client]

structure Invariant (m : Noted) : Prop where
  distinct : m.1.table.Nodup
  unharmed : Unharmed m

private theorem enter_of_known {s : State} {client : SockaddrIn} (known : client ∈ s.table) :
    enter s client = s := by
  unfold enter
  apply dif_neg
  rintro ⟨unknown, _⟩
  rw [(found_iff client s.table).mpr known] at unknown
  cases unknown

private theorem broadcast_eq_nil_iff {sender : SockaddrIn} {msg : List Byte}
    {entries : List SockaddrIn} :
    broadcast sender msg entries = [] ↔ ∀ entry ∈ entries, entry = sender := by
  rw [broadcast_eq, List.map_eq_nil_iff, List.filter_eq_nil_iff]
  simp

/-- What a failed call left in `client` is served without any harm exactly when it is the
address of the only client in the table. -/
theorem serve_harmless_iff {s : State} (distinct : s.table.Nodup) (client : SockaddrIn)
    (beyond : List Byte) :
    ((serve s (.failed client) beyond).1 = s ∧ (serve s (.failed client) beyond).2 = []) ↔
      s.table = [client] := by
  change (enter s client = s ∧ broadcast client _ (enter s client).table = []) ↔ _
  rw [broadcast_eq_nil_iff]
  constructor
  · rintro ⟨same, alone⟩
    rw [same] at alone
    have entered : register MAX_CLIENTS s.table client = s.table := by
      rw [← table_enter, same]
    cases table : s.table with
    | nil =>
      rw [table] at entered
      exact absurd entered (by simp [register, MAX_CLIENTS])
    | cons entry entries =>
      rw [table] at alone distinct
      have first : entry = client := alone entry List.mem_cons_self
      have others : entries = [] := by
        apply List.eq_nil_iff_forall_not_mem.mpr
        intro other later
        have again := alone other (List.mem_cons_of_mem entry later)
        rw [again, ← first] at later
        exact (List.nodup_cons.mp distinct).1 later
      rw [first, others]
  · intro only
    have known : client ∈ s.table := by
      rw [only]
      exact List.mem_singleton_self client
    rw [enter_of_known known, only]
    exact ⟨rfl, fun entry => List.mem_singleton.mp⟩

private theorem distinct_serve {s : State} (distinct : s.table.Nodup) (call : Call) :
    (serve s call.result call.beyond).1.table.Nodup := by
  change (enter s call.result.client).table.Nodup
  rw [table_enter]
  exact nodup_register distinct _

private theorem invariant_step (m : Noted) (call : Call) (m' : Noted) (h : Invariant m)
    (ok : OnlyKnown m call) (taken : remember step note m call = some m') : Invariant m' := by
  obtain ⟨s, notes⟩ := m
  obtain ⟨t, notes'⟩ := m'
  obtain ⟨moved, noted⟩ := remember_eq_some.mp taken
  obtain rfl : (serve s call.result call.beyond).1 = t := Option.some.inj moved
  subst noted
  refine ⟨distinct_serve h.distinct call, ?_⟩
  obtain ⟨result, beyond⟩ := call
  cases result with
  | received client payload =>
    refine ⟨h.unharmed.ignored, ?_⟩
    intro entry held
    change entry ∈ (enter s client).table at held
    change entry ∈ notes.arrived ++ [client]
    rw [table_enter] at held
    by_cases same : entry = client
    · exact List.mem_append_right _ (List.mem_singleton.mpr same)
    · exact List.mem_append_left _ (h.unharmed.genuine entry ((mem_register same).mp held))
  | failed client =>
    obtain ⟨unchanged, silent⟩ := (serve_harmless_iff h.distinct client beyond).mpr ok
    refine ⟨?_, ?_⟩
    · intro f hf
      rcases List.mem_append.mp hf with old | new
      · exact h.unharmed.ignored f old
      · rw [List.mem_singleton.mp new]
        exact ⟨unchanged, silent⟩
    · rw [unchanged]
      exact h.unharmed.genuine

private theorem onlyKnown_of_unharmed (m : Noted) (call : Call) (m' : Noted) (h : Invariant m)
    (taken : remember step note m call = some m') (after : Unharmed m') : OnlyKnown m call := by
  obtain ⟨s, notes⟩ := m
  obtain ⟨t, notes'⟩ := m'
  obtain ⟨_, noted⟩ := remember_eq_some.mp taken
  subst noted
  obtain ⟨result, beyond⟩ := call
  cases result with
  | received client payload => trivial
  | failed client =>
    have answered := after.ignored ⟨s, (serve s (.failed client) beyond).1,
      (serve s (.failed client) beyond).2⟩ (List.mem_append_right _ List.mem_cons_self)
    exact (serve_harmless_iff h.distinct client beyond).mp answered

/-- In a sequence of calls no failed one does any harm, and the table holds addresses that
datagrams arrived from throughout, exactly when at each failed call one client is known and
its address is still in `client`. -/
theorem unharmed_iff (calls : List Call) :
    Always (remember step note) Unharmed start calls ↔
      Guarded (remember step note) OnlyKnown start calls := by
  have begins : Invariant start := by
    refine ⟨List.nodup_nil, ?_, ?_⟩
    · intro f hf
      cases hf
    · intro entry held
      cases held
  have total : ∀ s call, ∃ t, step s call = some t := fun s call => ⟨_, rfl⟩
  obtain ⟨s, taken⟩ := exists_exec total init calls
  obtain ⟨notes, remembered⟩ : ∃ notes,
      exec (remember step note) start calls = some (s, notes) :=
    exists_exec_remember taken start.2
  exact always_iff_guarded_of_invariant (fun _ h => h.unharmed) invariant_step
    onlyKnown_of_unharmed begins remembered

/-- Without a single datagram the address that happened to be in `client` becomes a client. -/
theorem first_failure_registered : ∃ m,
    exec (remember step note) start [⟨.failed ⟨7, 1⟩, []⟩] = some m ∧
      m.1.table = [⟨7, 1⟩] ∧ m.2.arrived = [] ∧ ¬Unharmed m := by
  refine ⟨_, rfl, rfl, rfl, ?_⟩
  intro unharmed
  have arrived := unharmed.genuine ⟨7, 1⟩ List.mem_cons_self
  cases arrived

/-- With two clients a failed call is answered with an empty datagram to the other one. -/
example : (serve (serve (serve init (.received ⟨7, 1⟩ []) []).1 (.received ⟨8, 1⟩ []) []).1
    (.failed ⟨8, 1⟩) []).2 = [⟨⟨7, 1⟩, []⟩] := by
  decide +kernel

end SocketChat.MoreLearning.UdpBroadcast.Failures
