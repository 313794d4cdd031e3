/- SocketChat/TestCode/BroadcastChat/Stream
   digest: What the echoes and the lines of standard input make of a listed client's stream. -/

import SocketChat.Lib.Merging
import SocketChat.TestCode.BroadcastChat.Turns

set_option autoImplicit false
set_option relaxedAutoImplicit false

namespace SocketChat.TestCode.BroadcastChat.Stream

open SocketChat.Lib.CString
open SocketChat.Lib.Lines (newline)
open SocketChat.Lib.Merging
open SocketChat.Lib.Mutex
open SocketChat.Lib.Packed
open SocketChat.Lib.Runs
open SocketChat.TestCode.BroadcastChat.Model
open SocketChat.TestCode.BroadcastChat.Threads
open SocketChat.TestCode.BroadcastChat.Listing
open SocketChat.TestCode.BroadcastChat.Turns

def whole (s : State) : Action → Bool
  | .send c taken =>
      (s.handlers c).all fun h =>
        match h.point with
        | .send buf => taken == buf.length
        | _ => true
  | .broadcast taken =>
      match s.sender with
      | .broadcasting buf _ => taken == buf.length
      | _ => true
  | _ => true

/-- What `ServerSendThread` has read and not sent to the client yet. -/
def owed (s : State) (c : ConnId) : List Byte :=
  match s.sender with
  | .lockBroadcast buf => buf
  | .broadcasting buf i => if s.sock c ∈ (table s).drop i then buf else []
  | _ => []

/-- Standard input has been consumed and bytes echoed, and the stream has been continued by a
merge of the echoes with the lines without their newlines. -/
def Hears (c : ConnId) (s t : State) : Prop :=
  ∃ consumed sent echoed more, s.stdin = consumed ++ t.stdin ∧
    t.echoed c = s.echoed c ++ echoed ∧ t.stream c = s.stream c ++ more ∧
    Merge echoed sent more ∧ owed s c ++ consumed.filter (· ≠ newline) = sent ++ owed t c

namespace Hears

variable {c : ConnId} {s t u : State}

theorem quiet (stdin : t.stdin = s.stdin) (echoed : t.echoed c = s.echoed c)
    (stream : t.stream c = s.stream c) (owes : owed t c = owed s c) : Hears c s t := by
  refine ⟨[], [], [], [], stdin.symm, ?_, ?_, .nil, ?_⟩
  · rw [echoed, List.append_nil]
  · rw [stream, List.append_nil]
  · rw [owes]
    exact List.append_nil _

theorem trans (first : Hears c s t) (second : Hears c t u) : Hears c s u := by
  obtain ⟨consumed, sent, echoed, more, stdin, echoes, streams, merge, owes⟩ := first
  obtain ⟨consumed', sent', echoed', more', stdin', echoes', streams', merge', owes'⟩ := second
  refine ⟨consumed ++ consumed', sent ++ sent', echoed ++ echoed', more ++ more', ?_, ?_, ?_,
    merge.append merge', ?_⟩
  · rw [stdin, stdin', List.append_assoc]
  · rw [echoes', echoes, List.append_assoc]
  · rw [streams', streams, List.append_assoc]
  · rw [List.filter_append, ← List.append_assoc, owes, List.append_assoc, owes',
      List.append_assoc]

end Hears

section Owed

variable {c : ConnId} {s t : State}

private theorem owed_of_table (sender : t.sender = s.sender) (tables : table t = table s)
    (sock : t.sock c = s.sock c) : owed t c = owed s c := by
  rw [owed, owed, sender, tables, sock]

theorem owed_of_outside (sender : t.sender = s.sender)
    (outside : SendPoint.critical s.sender = false) : owed t c = owed s c := by
  unfold owed
  rw [sender]
  cases point : s.sender with
  | broadcasting buf i =>
    rw [point] at outside
    cases outside
  | _ => rfl

theorem outside_of_main (owned : Owned s) (inside : MainPoint.critical s.main = true) :
    SendPoint.critical s.sender = false := by
  have main : critical s .main = true := inside
  exact Held.outside (x := .sender) owned main Owner.noConfusion

theorem outside_of_handler {d : ConnId} {h : Handler} (owned : Owned s)
    (thread : s.handlers d = some h) (inside : HandlerPoint.critical h.point = true) :
    SendPoint.critical s.sender = false := by
  have handler : critical s (.handler d) = true := (critical_handler thread).trans inside
  exact Held.outside (x := .sender) owned handler Owner.noConfusion

end Owed

section Sends

variable {c : ConnId} {s : State}

theorem put_of_open {fds : ℤ → Option ConnId} {fd : ℤ} (behind : fds fd = some c)
    (stream : ConnId → List Byte) (bytes : List Byte) :
    put fds stream fd bytes = Function.update stream c (stream c ++ bytes) := by
  rw [put, behind]

theorem entry_of_broadcasting (o : Orderly s) (inside : SendPoint.critical s.sender = true)
    {fd : ℤ} (entry : fd ∈ table s) : ∃ d ∈ listed s, fd = s.sock d ∧ s.fds fd = some d := by
  rw [table_of_sender o inside, List.mem_map] at entry
  obtain ⟨d, inside, rfl⟩ := entry
  exact ⟨d, inside, rfl, open_of_listed o.wired o.booked inside⟩

theorem stripped_of_fgets {piece rest : List Byte}
    (read : Lib.Lines.fgets RCVBUFSIZE s.stdin = some (piece, rest)) (nul_free : 0 ∉ s.stdin) :
    stripped piece = piece.filter (· ≠ newline) := by
  have within : 0 ∉ piece := by
    intro inside
    refine nul_free ?_
    rw [← Lib.Lines.fgets_append read]
    exact List.mem_append_left rest inside
  exact stripped_eq_filter within (Lib.Lines.newline_notMem_dropLast_fgets read)

end Sends

section Step

variable {c : ConnId} {s : State}

private theorem hears_echo (o : Orderly s) {d : ConnId} {h : Handler} {buf : List Byte}
    (thread : s.handlers d = some h) (here : h.point = .send buf) :
    Hears c s { s.goto d h .recv with
      echoed := Function.update s.echoed d (s.echoed d ++ buf)
      stream := put s.fds s.stream h.clntSock buf } := by
  have behind := o.wired.open_of_running thread (here ▸ HandlerPoint.noConfusion)
  rw [put_of_open behind]
  by_cases same : c = d
  · subst same
    refine ⟨[], [], buf, buf, rfl, ?_, ?_, .only_left buf, List.append_nil _⟩
    · exact Function.update_self ..
    · exact Function.update_self ..
  · exact .quiet rfl (Function.update_of_ne same ..) (Function.update_of_ne same ..) rfl

private theorem hears_reads {point : SendPoint} {rest : List Byte} (nul_free : 0 ∉ s.stdin)
    (reads : Reads s s.sender point rest) :
    Hears c s { s with sender := point, stdin := rest } := by
  generalize here : s.sender = before at reads
  cases reads with
  | inputEnded nothing => exact .quiet rfl rfl rfl (by rw [owed, owed, here])
  | skipped piece rest read empty =>
    refine ⟨piece, [], [], [], (Lib.Lines.fgets_append read).symm, (List.append_nil _).symm,
      (List.append_nil _).symm, .nil, ?_⟩
    rw [← stripped_of_fgets read nul_free, empty, owed, here]
    rfl
  | read piece rest read text =>
    refine ⟨piece, [], [], [], (Lib.Lines.fgets_append read).symm, (List.append_nil _).symm,
      (List.append_nil _).symm, .nil, ?_⟩
    rw [← stripped_of_fgets read nul_free, owed, here]
    rfl
  | looped buf i done =>
    refine .quiet rfl rfl rfl ?_
    have past_end : (table s).drop i = [] := by
      refine List.drop_eq_nil_of_le ?_
      have short := List.length_take_le s.nclients s.clients.toList
      rw [table, live]
      omega
    have nothing : s.sock c ∉ (table s).drop i := by
      rw [past_end]
      exact List.not_mem_nil
    rw [owed, owed, here]
    exact (if_neg nothing).symm

private theorem hears_locked (o : Orderly s) (inside : c ∈ listed s) {buf : List Byte}
    (here : s.sender = .lockBroadcast buf) (free : s.clients_mtx = none) :
    Hears c s { s with sender := .broadcasting buf 0, clients_mtx := some .sender } := by
  have member : s.sock c ∈ table s := by
    rw [table_eq_listed o free]
    exact List.mem_map_of_mem inside
  refine .quiet rfl rfl rfl ?_
  rw [owed, owed, here]
  exact if_pos member

private theorem hears_sent (o : Orderly s) (inside : c ∈ listed s) {buf : List Byte} {i : ℕ}
    {fd : ℤ} (here : s.sender = .broadcasting buf i) (more : i < s.nclients)
    (entry : s.clients[i]? = some fd) :
    Hears c s { s with
      sender := .broadcasting buf (i + 1)
      stream := put s.fds s.stream fd buf } := by
  have critical : SendPoint.critical s.sender = true := by
    rw [here]
    rfl
  have at_i : (table s)[i]? = some fd := by
    rw [table, getElem?_live, if_pos more, entry]
  have split : (table s).drop i = fd :: (table s).drop (i + 1) := by
    obtain ⟨length, rfl⟩ := List.getElem?_eq_some_iff.mp at_i
    exact List.drop_eq_getElem_cons length
  obtain ⟨d, listed_d, rfl, behind⟩ :=
    entry_of_broadcasting o critical (List.mem_of_getElem? at_i)
  have distinct : (table s).Nodup := by
    rw [table_of_sender o critical]
    exact nodup_socks o.wired o.booked
  have once : s.sock d ∉ (table s).drop (i + 1) := by
    have tail := distinct.sublist (List.drop_sublist i (table s))
    rw [split] at tail
    exact (List.nodup_cons.mp tail).1
  rw [put_of_open behind]
  by_cases same : c = d
  · subst same
    refine ⟨[], buf, [], buf, rfl, (List.append_nil _).symm, Function.update_self ..,
      .only_right buf, ?_⟩
    have due : owed s c = buf := by
      rw [owed, here]
      refine if_pos ?_
      rw [split]
      exact List.mem_cons_self
    rw [due]
    exact congrArg (buf ++ ·) (if_neg once).symm
  · have other := sock_ne behind (open_of_listed o.wired o.booked inside) same
    have still : s.sock c ∈ (table s).drop (i + 1) ↔ s.sock c ∈ (table s).drop i := by
      rw [split, List.mem_cons]
      exact (or_iff_right other).symm
    refine .quiet rfl rfl (Function.update_of_ne same ..) ?_
    rw [owed, owed, here]
    exact if_congr still rfl rfl

theorem hears_step {a : Action} {t : State} (o : Orderly s) (nul_free : 0 ∉ s.stdin)
    (inside : c ∈ listed s) (all : whole s a = true) (taken : step s a = some t) :
    Hears c s t := by
  have old : c < s.accepted := o.booked.earlier c (mem_listed.mp inside).1
  cases moves_of_step taken with
  | died a message => exact .quiet rfl rfl rfl rfl
  | accepted fd here fresh =>
    exact .quiet rfl rfl rfl (owed_of_table rfl rfl (Function.update_of_ne (Nat.ne_of_lt old) ..))
  | addLocked fd here free => exact .quiet rfl rfl rfl rfl
  | stored fd here room =>
    exact .quiet rfl rfl rfl (owed_of_outside rfl (outside_of_main o.owned (by rw [here]; rfl)))
  | full fd here full => exact .quiet rfl rfl rfl rfl
  | counted fd here =>
    exact .quiet rfl rfl rfl (owed_of_outside rfl (outside_of_main o.owned (by rw [here]; rfl)))
  | addUnlocked fd here => exact .quiet rfl rfl rfl rfl
  | created fd here => exact .quiet rfl rfl rfl rfl
  | walked a d h point thread walks => exact .quiet rfl rfl rfl rfl
  | received d h got thread here fits => exact .quiet rfl rfl rfl rfl
  | echoed d h buf thread here => exact hears_echo o thread here
  | sendFailed d h buf k thread here short =>
    rw [whole, thread, Option.all_some, here] at all
    exact absurd (beq_iff_eq.mp all) (Nat.ne_of_lt short)
  | removeLocked d h thread here free => exact .quiet rfl rfl rfl rfl
  | shifted d h j thread here more =>
    exact .quiet rfl rfl rfl
      (owed_of_outside rfl (outside_of_handler o.owned thread (by rw [here]; rfl)))
  | shrunk d h j thread here done =>
    exact .quiet rfl rfl rfl
      (owed_of_outside rfl (outside_of_handler o.owned thread (by rw [here]; rfl)))
  | removeUnlocked d h thread here => exact .quiet rfl rfl rfl rfl
  | closed d h thread here => exact .quiet rfl rfl rfl rfl
  | reads point rest reads => exact hears_reads nul_free reads
  | broadcastLocked buf here free => exact hears_locked o inside here free
  | sent k buf i fd here more bound entry =>
    rw [whole, here] at all
    rw [beq_iff_eq.mp all, List.take_length]
    exact hears_sent o inside here more entry
  | broadcastUnlocked here =>
    refine .quiet rfl rfl rfl ?_
    rw [owed, owed, here]

end Step

private theorem reads_suffix {s : State} {before after : SendPoint} {rest : List Byte}
    (reads : Reads s before after rest) : rest <:+ s.stdin := by
  cases reads with
  | inputEnded nothing => exact List.suffix_rfl
  | skipped piece rest read empty => exact ⟨piece, Lib.Lines.fgets_append read⟩
  | read piece rest read text => exact ⟨piece, Lib.Lines.fgets_append read⟩
  | looped buf i done => exact List.suffix_rfl

theorem stdin_suffix_of_step {s t : State} {a : Action} (taken : step s a = some t) :
    t.stdin <:+ s.stdin := by
  cases moves_of_step taken with
  | reads point rest reads => exact reads_suffix reads
  | _ => exact List.suffix_rfl

private theorem nul_free_of_reach {s t : State} (nul_free : 0 ∉ s.stdin) (run : Reach step s t) :
    0 ∉ t.stdin :=
  invariant_of_step_reach (P := fun s => 0 ∉ s.stdin)
    (fun _ _ _ before taken inside => before ((stdin_suffix_of_step taken).subset inside))
    nul_free run

def unsent : HandlerPoint → List Byte
  | .send buf => buf
  | _ => []

def pending (s : State) (c : ConnId) : List Byte :=
  (s.handlers c).elim [] fun h => unsent h.point

def Accounted (s : State) : Prop := ∀ c, s.received c = s.echoed c ++ pending s c

section Accounted

variable {s t : State} {c : ConnId} {h : Handler} {point : HandlerPoint}

theorem pending_of_thread (thread : s.handlers c = some h) : pending s c = unsent h.point := by
  rw [pending, thread]
  rfl

private theorem Accounted.goto (before : Accounted s) (thread : s.handlers c = some h)
    (same : unsent point = unsent h.point)
    (handlers : t.handlers = Function.update s.handlers c (some { h with point := point }))
    (received : t.received = s.received) (echoed : t.echoed = s.echoed) : Accounted t := by
  intro d
  rw [received, echoed, before d]
  refine congrArg (s.echoed d ++ ·) ?_
  by_cases is : d = c
  · subst is
    rw [pending_of_thread thread, pending, handlers, Function.update_self]
    exact same.symm
  · rw [pending, pending, handlers, Function.update_of_ne is]

private theorem Accounted.received (before : Accounted s) (got : List Byte)
    (thread : s.handlers c = some h) (here : h.point = .recv) :
    Accounted { s.goto c h (.send got) with
      received := Function.update s.received c (s.received c ++ got) } := by
  intro d
  show Function.update s.received c (s.received c ++ got) d = s.echoed d ++
    (Function.update s.handlers c (some { h with point := .send got }) d).elim [] _
  by_cases is : d = c
  · subst is
    rw [Function.update_self, Function.update_self, before d, pending_of_thread thread, here]
    exact congrArg (· ++ got) (List.append_nil _)
  · rw [Function.update_of_ne is, Function.update_of_ne is]
    exact before d

private theorem Accounted.echoed (before : Accounted s) {buf : List Byte}
    (thread : s.handlers c = some h) (here : h.point = .send buf)
    (stream : ConnId → List Byte) :
    Accounted { s.goto c h .recv with
      echoed := Function.update s.echoed c (s.echoed c ++ buf)
      stream := stream } := by
  intro d
  show s.received d = Function.update s.echoed c (s.echoed c ++ buf) d ++
    (Function.update s.handlers c (some { h with point := .recv }) d).elim [] _
  by_cases is : d = c
  · subst is
    rw [Function.update_self, Function.update_self, before d, pending_of_thread thread, here]
    exact (List.append_nil _).symm
  · rw [Function.update_of_ne is, Function.update_of_ne is]
    exact before d

private theorem Accounted.created (before : Accounted s) (fd : ℤ)
    (unhandled : s.handlers s.newest = none) :
    Accounted { s with
      main := .accept
      handlers := Function.update s.handlers s.newest (some ⟨fd, .recv⟩) } := by
  intro d
  refine (before d).trans (congrArg (s.echoed d ++ ·) ?_)
  show (s.handlers d).elim [] _ =
    (Function.update s.handlers s.newest (some ⟨fd, .recv⟩) d).elim [] _
  by_cases is : d = s.newest
  · rw [is, unhandled, Function.update_self]
    rfl
  · rw [Function.update_of_ne is]

end Accounted

private theorem walks_unsent {s : State} {fd : ℤ} {before after : HandlerPoint}
    (walks : Walks s fd before after) : unsent after = unsent before := by
  cases walks <;> rfl

theorem accounted_step {s t : State} {a : Action} (w : Wired s) (before : Accounted s)
    (taken : step s a = some t) : Accounted t := by
  cases moves_of_step taken with
  | created fd here =>
    exact before.created fd (w.adding fd (by rw [here]; rfl)).2.1
  | walked a c h point thread walks => exact before.goto thread (walks_unsent walks) rfl rfl rfl
  | received c h got thread here fits => exact before.received got thread here
  | echoed c h buf thread here => exact before.echoed thread here _
  | removeLocked c h thread here free =>
    exact before.goto thread (by rw [here]; rfl) rfl rfl rfl
  | shifted c h j thread here more => exact before.goto thread (by rw [here]; rfl) rfl rfl rfl
  | shrunk c h j thread here done => exact before.goto thread (by rw [here]; rfl) rfl rfl rfl
  | removeUnlocked c h thread here => exact before.goto thread (by rw [here]; rfl) rfl rfl rfl
  | closed c h thread here => exact before.goto thread (by rw [here]; rfl) rfl rfl rfl
  | _ => exact before

private theorem accounted_of_reach {servSock : ℤ} {stdin : List Byte} {s : State}
    (run : Reach step (init servSock stdin) s) : Accounted s := by
  have both : Wired s ∧ Accounted s :=
    invariant_of_step_reach (P := fun s => Wired s ∧ Accounted s)
      (fun s a t before taken =>
        ⟨wired_step s a t before.1 taken, accounted_step before.1 before.2 taken⟩)
      ⟨wired_init servSock stdin, fun _ => rfl⟩ run
  exact both.2

private theorem listed_between {c : ConnId} {s m t : State} (first : Continues s m)
    (second : Continues m t) (joined : c ∈ listed s) (stays : c ∈ listed t) : c ∈ listed m := by
  refine mem_listed.mpr ⟨first.added.subset (mem_listed.mp joined).1, fun gone => ?_⟩
  exact (mem_listed.mp stays).2 (second.removed.subset gone)

private theorem hears_run {c : ConnId} {s t : State} {as : List Action} (o : Orderly s)
    (nul_free : 0 ∉ s.stdin) (joined : c ∈ listed s) (stays : c ∈ listed t)
    (all : Guarded step (fun s a => whole s a = true) s as) (taken : exec step s as = some t) :
    Hears c s t := by
  induction as generalizing s with
  | nil =>
    obtain rfl : s = t := Option.some.inj taken
    exact .quiet rfl rfl rfl rfl
  | cons a as ih =>
    obtain ⟨m, first, rest⟩ := exec_cons_eq_some.mp taken
    have between := listed_between (.of_step first) (.of_reach ⟨as, rest⟩) joined stays
    have later : 0 ∉ m.stdin := fun inside =>
      nul_free ((stdin_suffix_of_step first).subset inside)
    exact (hears_step o nul_free joined all.1 first).trans
      (ih (orderly_step s a m o first) later between (all.2 m first) rest)

/-- What the sender holds is the last piece that it has read, and it ends with the input. -/
def InHand (s : State) : Prop :=
  match s.sender with
  | .lockBroadcast buf | .broadcasting buf _ =>
      ∃ piece, Lib.Lines.fgets RCVBUFSIZE (piece ++ s.stdin) = some (piece, s.stdin) ∧
        buf = piece.filter (· ≠ newline)
  | .returned => s.stdin = []
  | _ => True

private theorem inHand_step {s t : State} {a : Action} (nul_free : 0 ∉ s.stdin) (before : InHand s)
    (taken : step s a = some t) : InHand t := by
  cases moves_of_step taken with
  | reads point rest reads =>
    unfold InHand at before
    generalize s.sender = old at before reads
    cases reads with
    | inputEnded nothing => exact Lib.Lines.fgets_eq_none.mp nothing
    | skipped piece rest read empty => trivial
    | read piece rest read text =>
      refine ⟨piece, ?_, stripped_of_fgets read nul_free⟩
      change Lib.Lines.fgets RCVBUFSIZE (piece ++ rest) = some (piece, rest)
      rw [Lib.Lines.fgets_append read]
      exact read
    | looped buf i done => trivial
  | broadcastLocked buf here free =>
    rw [InHand, here] at before
    exact before
  | sent k buf i fd here more bound entry =>
    rw [InHand, here] at before
    exact before
  | broadcastUnlocked here => trivial
  | _ => exact before

private theorem inHand_of_reach {servSock : ℤ} {stdin : List Byte} {s : State}
    (nul_free : 0 ∉ stdin) (run : Reach step (init servSock stdin) s) : InHand s := by
  have both : 0 ∉ s.stdin ∧ InHand s := by
    refine invariant_of_step_reach (P := fun s => 0 ∉ s.stdin ∧ InHand s) ?_ ⟨nul_free, ?_⟩ run
    · rintro s a t ⟨free, hand⟩ taken
      refine ⟨fun inside => free ((stdin_suffix_of_step taken).subset inside), ?_⟩
      exact inHand_step free hand taken
    · exact True.intro
  exact both.2

private theorem owed_of_inHand {s : State} (hand : InHand s) (c : ConnId) :
    owed s c = [] ∨ ∃ piece, Lib.Lines.fgets RCVBUFSIZE (piece ++ s.stdin) = some (piece, s.stdin) ∧
      owed s c = piece.filter (· ≠ newline) := by
  unfold InHand at hand
  unfold owed
  cases here : s.sender with
  | lockBroadcast buf =>
    rw [here] at hand
    exact Or.inr hand
  | broadcasting buf i =>
    rw [here] at hand
    dsimp only
    split
    · exact Or.inr hand
    · exact Or.inl rfl
  | _ => exact Or.inl rfl

private theorem whole_next (s : State) (w : Owner) : whole s (next s w) = true := by
  cases w with
  | main => rfl
  | sender =>
    unfold next
    cases here : s.sender with
    | broadcasting buf i =>
      dsimp only
      split
      · rw [whole, here]
        exact beq_self_eq_true buf.length
      · rfl
    | _ => rfl
  | handler c => rfl

private theorem can_echo {s : State} {c : ConnId} (accounted : Accounted s) (alive : s.died = none)
    (something : pending s c ≠ []) :
    ∃ t, step s (.send c (pending s c).length) = some t ∧ t.echoed c = s.received c := by
  have now : ∀ k, step s (.send c k) = send s c k := fun k => if_pos alive
  cases thread : s.handlers c with
  | none =>
    rw [pending, thread] at something
    exact absurd rfl something
  | some h =>
    have waits := pending_of_thread thread
    rw [now, send, thread, Option.bind_some, accounted c, waits]
    rw [waits] at something
    cases here : h.point with
    | send buf => exact ⟨_, if_pos rfl, Function.update_self ..⟩
    | _ =>
      rw [here] at something
      exact absurd rfl something

private theorem can_receive {s : State} {c : ConnId} {h : Handler} {got : List Byte}
    (alive : s.died = none) (thread : s.handlers c = some h) (here : h.point = .recv)
    (some_bytes : got ≠ []) (fits : got.length ≤ RCVBUFSIZE - 1) :
    ∃ t, step s (.recv c got) = some t ∧ t.received c = s.received c ++ got ∧
      pending t c = got := by
  have now : step s (.recv c got) = recv s c got := if_pos alive
  rw [now, recv, thread, Option.bind_some, here]
  dsimp only
  rw [if_neg some_bytes, if_pos fits]
  refine ⟨_, rfl, Function.update_self .., ?_⟩
  exact pending_of_thread (h := { h with point := .send got }) (Function.update_self ..)

private theorem can_read {s : State} {piece rest : List Byte} (alive : s.died = none)
    (here : s.sender = .fgets) (read : Lib.Lines.fgets RCVBUFSIZE s.stdin = some (piece, rest)) :
    ∃ t, step s .sender = some t ∧ t.stdin = rest := by
  have now : step s .sender = runSender s := if_pos alive
  rw [now, runSender, here]
  dsimp only
  rw [read]
  dsimp only
  split
  · exact ⟨_, rfl, rfl⟩
  · exact ⟨_, rfl, rfl⟩

/-- From any state in which a client is listed to any later one in which it still is, what has
been sent to it is a merge of the bytes its handler has echoed, which are those received but for
the last ones, with the standard input consumed in between without its newlines, but for the
piece that `ServerSendThread` holds. The handler takes what comes and can send it back; the thread
takes its input piece by piece, goes on wherever it has the mutex or needs none, and is back at
`fgets`, where it holds nothing, within its own turns, until the input has ended. Whoever has the
mutex goes on and gives it back within its own turns. -/
theorem stream_merges_echoes_and_lines (servSock : ℤ) (stdin : List Byte) (c : ConnId)
    (s t : State) (nul_free : 0 ∉ stdin) (start : Reach step (init servSock stdin) s)
    (run : ReachWhere step (fun s a => whole s a = true) s t) (joined : c ∈ listed s)
    (stays : c ∈ listed t) :
    t.received c = t.echoed c ++ pending t c ∧
      (t.died = none → pending t c ≠ [] →
        ∃ u, step t (.send c (pending t c).length) = some u ∧ u.echoed c = t.received c) ∧
      (t.died = none → ∀ h, t.handlers c = some h → h.point = .recv →
        ∀ got, got ≠ [] → got.length ≤ RCVBUFSIZE - 1 →
          ∃ u, step t (.recv c got) = some u ∧ u.received c = t.received c ++ got ∧
            pending u c = got) ∧
      (∃ consumed sent echoed more, s.stdin = consumed ++ t.stdin ∧
        t.echoed c = s.echoed c ++ echoed ∧ t.stream c = s.stream c ++ more ∧
        Merge echoed sent more ∧ owed s c ++ consumed.filter (· ≠ newline) = sent ++ owed t c ∧
        (s.sender = .fgets → t.sender = .fgets ∨ t.sender = .returned →
          sent = consumed.filter (· ≠ newline))) ∧
      (owed t c = [] ∨ ∃ piece,
        Lib.Lines.fgets RCVBUFSIZE (piece ++ t.stdin) = some (piece, t.stdin) ∧
          piece.length < RCVBUFSIZE ∧ owed t c = piece.filter (· ≠ newline)) ∧
      (t.sender = .returned → t.stdin = []) ∧
      (t.died = none → t.sender = .fgets → ∀ piece rest,
        Lib.Lines.fgets RCVBUFSIZE t.stdin = some (piece, rest) →
          ∃ u, step t .sender = some u ∧ u.stdin = rest) ∧
      (t.died = none → t.sender ≠ .returned →
        (∀ buf, t.sender = .lockBroadcast buf → t.clients_mtx = none) →
          whole t (next t .sender) = true ∧ ∃ u, step t (next t .sender) = some u) ∧
      (t.died = none → ∀ w, t.clients_mtx = some w →
        whole t (next t w) = true ∧ ∃ u, step t (next t w) = some u) ∧
      (∀ w, t.clients_mtx = some w → ∀ as u, exec step t as = some u →
        MAXCLIENTS + 3 ≤ as.countP (turn w) → ∃ before after v, as = before ++ after ∧
          exec step t before = some v ∧ v.clients_mtx = none) ∧
      ∀ as u, exec step t as = some u → MAXCLIENTS + 3 ≤ as.countP (turn .sender) →
        ∃ before after v, as = before ++ after ∧ exec step t before = some v ∧
          (v.sender = .fgets ∨ v.sender = .returned) := by
  have whole_run : Reach step (init servSock stdin) t := by
    obtain ⟨as, taken⟩ := start
    obtain ⟨bs, further⟩ := run.reach
    exact ⟨as ++ bs, exec_append_eq_some taken further⟩
  have accounted := accounted_of_reach whole_run
  have hand := inHand_of_reach nul_free whole_run
  have orderly := orderly_of_reach whole_run
  have free : 0 ∉ s.stdin := nul_free_of_reach (s := init servSock stdin) nul_free start
  refine ⟨accounted c, can_echo accounted, ?_, ?_, ?_, ?_, ?_, ?_, ?_, ?_, ?_⟩
  · intro alive h thread here got some_bytes fits
    exact can_receive alive thread here some_bytes fits
  · obtain ⟨as, all, taken⟩ := run
    obtain ⟨consumed, sent, echoed, more, input, echoes, stream, merge, owes⟩ :=
      hears_run (orderly_of_reach start) free joined stays all taken
    refine ⟨consumed, sent, echoed, more, input, echoes, stream, merge, owes, ?_⟩
    intro idle idle'
    have nothing : owed t c = [] := by
      unfold owed
      rcases idle' with at_fgets | returned
      · rw [at_fgets]
      · rw [returned]
    rw [nothing, owed, idle, List.append_nil] at owes
    exact owes.symm
  · rcases owed_of_inHand hand c with nothing | ⟨piece, read, owes⟩
    · exact Or.inl nothing
    · have fits := Lib.Lines.fgets_length_le read
      exact Or.inr ⟨piece, read, Nat.lt_of_le_of_lt fits (by decide), owes⟩
  · intro returned
    rw [InHand, returned] at hand
    exact hand
  · intro alive here piece rest read
    exact can_read alive here read
  · intro alive running open_
    exact ⟨whole_next t .sender, sender_moves orderly.fits alive running open_⟩
  · intro alive w held
    exact ⟨whole_next t w, holder_moves orderly.fits alive ((orderly.owned w).mpr held)⟩
  · intro w held as u taken turns
    exact released orderly held taken turns
  · intro as u taken turns
    exact returns_to_fgets orderly taken turns

def joins : List Action :=
  (.accept 4 :: List.replicate 5 .main) ++ (.accept 5 :: List.replicate 5 .main)

/-- The first one sends a byte, and a line goes to both; the next line has been read. -/
def talks : List Action :=
  [.recv 0 (lit ['A']), .sender, .send 0 1, .sender, .broadcast 2, .broadcast 2, .sender, .sender,
    .sender]

theorem stream_merges_echo_and_line : ∃ s t : State, t.stream 0 = lit ['A', 'H', 'i'] ∧
    t.received 0 = t.echoed 0 ++ pending t 0 ∧
    ∃ consumed sent echoed more, s.stdin = consumed ++ t.stdin ∧
      t.echoed 0 = s.echoed 0 ++ echoed ∧ t.stream 0 = s.stream 0 ++ more ∧
      Merge echoed sent more ∧ consumed.filter (· ≠ newline) = sent ++ lit ['B'] := by
  let start := init 3 (lit ['H', 'i', '\n', 'B'])
  have joined : (exec step start joins).map (fun s => (decide (0 ∈ listed s), owed s 0)) =
      some (true, []) := by
    decide +kernel
  obtain ⟨s, ran, same⟩ := Option.map_eq_some_iff.mp joined
  obtain ⟨listed_s, nothing⟩ := Prod.mk.inj same
  have from_start : s = (exec step start joins).get (by decide +kernel) := by
    simp [ran]
  have told : (exec step s talks).map (fun t => (decide (0 ∈ listed t), t.stream 0, owed t 0)) =
      some (true, lit ['A', 'H', 'i'], lit ['B']) := by
    rw [from_start]
    decide +kernel
  obtain ⟨t, later, same⟩ := Option.map_eq_some_iff.mp told
  obtain ⟨listed_t, same⟩ := Prod.mk.inj same
  obtain ⟨stream, in_hand⟩ := Prod.mk.inj same
  have all : Guarded step (fun s a => whole s a = true) s talks := by
    rw [from_start]
    decide +kernel
  obtain ⟨received, _, _,
      ⟨consumed, sent, echoed, more, input, echoes, streams, merge, owes, _⟩, _⟩ :=
    stream_merges_echoes_and_lines 3 (lit ['H', 'i', '\n', 'B']) 0 s t (by decide) ⟨joins, ran⟩
      ⟨talks, all, later⟩ (of_decide_eq_true listed_s) (of_decide_eq_true listed_t)
  rw [nothing, in_hand, List.nil_append] at owes
  exact ⟨s, t, stream, received, consumed, sent, echoed, more, input, echoes, streams, merge, owes⟩

end SocketChat.TestCode.BroadcastChat.Stream
