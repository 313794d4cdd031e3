/- SocketChat/TestCode/BroadcastChat/Provenance
   digest: Where each byte of a client's stream comes from, and what it has missed. -/

import Mathlib.Data.List.Infix
import SocketChat.TestCode.BroadcastChat.Stream

set_option autoImplicit false
set_option relaxedAutoImplicit false

namespace SocketChat.TestCode.BroadcastChat.Provenance

open SocketChat.Lib.CString
open SocketChat.Lib.Lines (newline)
open SocketChat.Lib.Merging
open SocketChat.Lib.Packed
open SocketChat.Lib.Runs
open SocketChat.TestCode.BroadcastChat.Model
open SocketChat.TestCode.BroadcastChat.Threads
open SocketChat.TestCode.BroadcastChat.Listing
open SocketChat.TestCode.BroadcastChat.Stream

/-- The stream of a client is a merge of a beginning of what has been received from it with words of
the standard input, some of which it may not have been sent. -/
def Told (stdin : List Byte) (s : State) (c : ConnId) : Prop :=
  ∃ consumed said heard, stdin = consumed ++ s.stdin ∧ Merge said heard (s.stream c) ∧
    said <+: s.received c ∧ (s.died = none → said = s.echoed c) ∧
    (heard ++ owed s c).Sublist (consumed.filter (· ≠ newline))

section Told

variable {stdin : List Byte} {s t : State} {c : ConnId}

theorem told_init (servSock : ℤ) (stdin : List Byte) (c : ConnId) :
    Told stdin (init servSock stdin) c :=
  ⟨[], [], [], rfl, .nil, List.nil_prefix, fun _ => rfl, List.nil_sublist _⟩

private theorem Told.quiet (before : Told stdin s c) (input : t.stdin = s.stdin)
    (received : s.received c <+: t.received c) (stream : t.stream c = s.stream c)
    (owes : (owed t c).Sublist (owed s c))
    (echoed : t.died = none → s.died = none ∧ t.echoed c = s.echoed c) : Told stdin t c := by
  obtain ⟨consumed, said, heard, whole, merge, own, alive, words⟩ := before
  refine ⟨consumed, said, heard, by rw [input, whole], by rwa [stream], own.trans received, ?_,
    (List.Sublist.append_left owes heard).trans words⟩
  intro living
  obtain ⟨lived, same⟩ := echoed living
  rw [same]
  exact alive lived

private theorem Told.sent (before : Told stdin s c) (input : t.stdin = s.stdin)
    (received : t.received c = s.received c) {words : List Byte}
    (stream : t.stream c = s.stream c ++ words) (owes : (words ++ owed t c).Sublist (owed s c))
    (echoed : t.died = none → s.died = none ∧ t.echoed c = s.echoed c) : Told stdin t c := by
  obtain ⟨consumed, said, heard, whole, merge, own, alive, fair⟩ := before
  refine ⟨consumed, said, heard ++ words, by rw [input, whole], ?_, by rwa [received], ?_, ?_⟩
  · rw [stream]
    have more := merge.append (.only_right words)
    rwa [List.append_nil] at more
  · intro living
    obtain ⟨lived, same⟩ := echoed living
    rw [same]
    exact alive lived
  · rw [List.append_assoc]
    exact (List.Sublist.append_left owes heard).trans fair

private theorem Told.echo (before : Told stdin s c) (living : s.died = none)
    (input : t.stdin = s.stdin) (received : t.received c = s.received c) (bytes : List Byte)
    (front : s.echoed c ++ bytes <+: s.received c) (stream : t.stream c = s.stream c ++ bytes)
    (owes : owed t c = owed s c) (echoed : t.died = none → t.echoed c = s.echoed c ++ bytes) :
    Told stdin t c := by
  obtain ⟨consumed, said, heard, whole, merge, own, alive, fair⟩ := before
  obtain rfl := alive living
  refine ⟨consumed, s.echoed c ++ bytes, heard, by rw [input, whole], ?_, by rwa [received],
    fun lives => (echoed lives).symm, by rwa [owes]⟩
  rw [stream]
  have more := merge.append (.only_left bytes)
  rwa [List.append_nil] at more

private theorem Told.read (before : Told stdin s c) {piece : List Byte}
    (input : s.stdin = piece ++ t.stdin)
    (received : t.received c = s.received c) (stream : t.stream c = s.stream c)
    (owes : (owed t c).Sublist (piece.filter (· ≠ newline))) (nothing : owed s c = [])
    (echoed : t.died = none → s.died = none ∧ t.echoed c = s.echoed c) : Told stdin t c := by
  obtain ⟨consumed, said, heard, whole, merge, own, alive, fair⟩ := before
  refine ⟨consumed ++ piece, said, heard, ?_, by rwa [stream], by rwa [received], ?_, ?_⟩
  · rw [whole, input, List.append_assoc]
  · intro living
    obtain ⟨lived, same⟩ := echoed living
    rw [same]
    exact alive lived
  · rw [nothing, List.append_nil] at fair
    rw [List.filter_append]
    exact fair.append owes

end Told

section Step

variable {stdin : List Byte} {s t : State} {c : ConnId}

private theorem owed_of_fewer (sender : t.sender = s.sender)
    (fewer : ∀ buf i, s.sender = .broadcasting buf i →
      t.sock c ∈ (table t).drop i → s.sock c ∈ (table s).drop i) :
    (owed t c).Sublist (owed s c) := by
  unfold owed
  rw [sender]
  cases here : s.sender with
  | broadcasting buf i =>
    dsimp only
    split
    · rename_i still
      rw [if_pos (fewer buf i here still)]
    · exact List.nil_sublist _
  | _ => exact List.Sublist.refl _

private theorem owed_accepted (o : Orderly s) {fd : ℤ} (fresh : s.fds fd = none) :
    (owed { s with
      main := .lockAdd fd
      fds := Function.update s.fds fd (some s.accepted)
      sock := Function.update s.sock s.accepted fd
      accepted := s.accepted + 1 } c).Sublist (owed s c) := by
  refine owed_of_fewer rfl fun buf i here still => ?_
  by_cases new : c = s.accepted
  · have critical : SendPoint.critical s.sender = true := by
      rw [here]
      rfl
    have same : Function.update s.sock s.accepted fd c = fd := by
      rw [new, Function.update_self]
    have inside : fd ∈ (table s).drop i := same ▸ still
    obtain ⟨d, _, _, behind⟩ := entry_of_broadcasting o critical (List.mem_of_mem_drop inside)
    rw [fresh] at behind
    cases behind
  · have same : Function.update s.sock s.accepted fd c = s.sock c := Function.update_of_ne new ..
    exact same ▸ still

private theorem owed_next {buf : List Byte} {i : ℕ} (here : s.sender = .broadcasting buf i)
    (sender : t.sender = .broadcasting buf (i + 1)) (tables : table t = table s)
    (sock : t.sock c = s.sock c) : (owed t c).Sublist (owed s c) := by
  rw [owed, owed, here, sender, tables, sock]
  dsimp only
  split
  · rename_i later
    rw [if_pos (List.mem_of_mem_drop (List.drop_drop .. ▸ later))]
  · exact List.nil_sublist _

private theorem entry_at (o : Orderly s) {buf : List Byte} {i : ℕ} {fd : ℤ}
    (here : s.sender = .broadcasting buf i) (more : i < s.nclients)
    (entry : s.clients[i]? = some fd) :
    ∃ d ∈ listed s, fd = s.sock d ∧ s.fds fd = some d ∧
      (table s).drop i = fd :: (table s).drop (i + 1) ∧ fd ∉ (table s).drop (i + 1) := by
  have critical : SendPoint.critical s.sender = true := by
    rw [here]
    rfl
  have at_i : (table s)[i]? = some fd := by
    rw [table, getElem?_live, if_pos more, entry]
  have split : (table s).drop i = fd :: (table s).drop (i + 1) := by
    obtain ⟨length, rfl⟩ := List.getElem?_eq_some_iff.mp at_i
    exact List.drop_eq_getElem_cons length
  have distinct : (table s).Nodup := by
    rw [table_of_sender o critical]
    exact nodup_socks o.wired o.booked
  have tail := distinct.sublist (List.drop_sublist i (table s))
  rw [split] at tail
  obtain ⟨d, inside, same, behind⟩ :=
    entry_of_broadcasting o critical (List.mem_of_getElem? at_i)
  exact ⟨d, inside, same, behind, split, (List.nodup_cons.mp tail).1⟩

private theorem told_sent (o : Orderly s) (living : s.died = none) (before : Told stdin s c)
    {buf : List Byte} {i k : ℕ} {fd : ℤ} (here : s.sender = .broadcasting buf i)
    (more : i < s.nclients) (entry : s.clients[i]? = some fd) :
    Told stdin { s with
      sender := .broadcasting buf (i + 1)
      stream := put s.fds s.stream fd (buf.take k) } c := by
  obtain ⟨d, _, rfl, behind, split, once⟩ := entry_at o here more entry
  rw [put_of_open behind]
  by_cases same : c = d
  · subst same
    have due : owed s c = buf := by
      rw [owed, here]
      refine if_pos ?_
      rw [split]
      exact List.mem_cons_self
    refine before.sent rfl rfl (Function.update_self ..) ?_ fun _ => ⟨living, rfl⟩
    have settled : owed { s with
        sender := .broadcasting buf (i + 1)
        stream := Function.update s.stream c (s.stream c ++ buf.take k) } c = [] :=
      if_neg once
    rw [settled, due, List.append_nil]
    exact List.take_sublist k buf
  · exact before.quiet rfl List.prefix_rfl (Function.update_of_ne same ..)
      (owed_next here rfl rfl rfl) fun _ => ⟨living, rfl⟩

private theorem told_received (living : s.died = none) (before : Told stdin s c) {d : ConnId}
    {h : Handler} (got : List Byte) : Told stdin { s.goto d h (.send got) with
      received := Function.update s.received d (s.received d ++ got) } c := by
  refine before.quiet rfl ?_ rfl (List.Sublist.refl _) fun _ => ⟨living, rfl⟩
  by_cases same : c = d
  · subst same
    change s.received c <+: Function.update s.received c _ c
    rw [Function.update_self]
    exact List.prefix_append _ _
  · change s.received c <+: Function.update s.received d _ c
    rw [Function.update_of_ne same]

private theorem told_echoed (o : Orderly s) (accounted : Accounted s) (living : s.died = none)
    (before : Told stdin s c) {d : ConnId} {h : Handler} {buf : List Byte}
    (thread : s.handlers d = some h) (here : h.point = .send buf) {bytes : List Byte}
    (front : bytes <+: buf) {t : State} (input : t.stdin = s.stdin)
    (received : t.received = s.received) (sender : owed t = owed s)
    (stream : t.stream = put s.fds s.stream h.clntSock bytes)
    (echoed : t.died = none → t.echoed = Function.update s.echoed d (s.echoed d ++ bytes)) :
    Told stdin t c := by
  have behind := o.wired.open_of_running thread (here ▸ HandlerPoint.noConfusion)
  rw [put_of_open behind] at stream
  by_cases same : c = d
  · subst same
    have left : s.received c = s.echoed c ++ buf := by
      rw [accounted c, pending_of_thread thread, here]
      rfl
    refine before.echo living input (by rw [received]) bytes ?_ ?_ (by rw [sender])
      fun lives => ?_
    · rw [left]
      exact (List.prefix_append_right_inj _).mpr front
    · rw [stream, Function.update_self]
    · rw [echoed lives, Function.update_self]
  · refine before.quiet input ?_ ?_ ?_ fun lives => ⟨living, ?_⟩
    · rw [received]
    · rw [stream, Function.update_of_ne same]
    · rw [sender]
    · rw [echoed lives, Function.update_of_ne same]

private theorem told_reads (living : s.died = none) (nul_free : 0 ∉ s.stdin)
    (before : Told stdin s c)
    {point : SendPoint} {rest : List Byte} (reads : Reads s s.sender point rest) :
    Told stdin { s with sender := point, stdin := rest } c := by
  generalize here : s.sender = sender at reads
  cases reads with
  | inputEnded nothing =>
    refine before.quiet rfl List.prefix_rfl rfl ?_ fun _ => ⟨living, rfl⟩
    exact List.nil_sublist _
  | skipped piece rest read empty =>
    refine before.read (Lib.Lines.fgets_append read).symm rfl rfl ?_ ?_ fun _ => ⟨living, rfl⟩
    · exact List.nil_sublist _
    · rw [owed, here]
  | read piece rest read text =>
    refine before.read (Lib.Lines.fgets_append read).symm rfl rfl ?_ ?_ fun _ => ⟨living, rfl⟩
    · rw [← stripped_of_fgets read nul_free]
      exact List.Sublist.refl _
    · rw [owed, here]
  | looped buf i done =>
    refine before.quiet rfl List.prefix_rfl rfl ?_ fun _ => ⟨living, rfl⟩
    exact List.nil_sublist _

theorem told_step {a : Action} (o : Orderly s) (accounted : Accounted s) (nul_free : 0 ∉ s.stdin)
    (living : s.died = none) (before : Told stdin s c) (taken : step s a = some t) :
    Told stdin t c := by
  have owed_eq : ∀ {t : State}, owed t c = owed s c → (owed t c).Sublist (owed s c) :=
    fun same => same ▸ List.Sublist.refl _
  cases moves_of_step taken with
  | died a message => exact before.quiet rfl List.prefix_rfl rfl (owed_eq rfl) nofun
  | accepted fd here fresh =>
    exact before.quiet rfl List.prefix_rfl rfl (owed_accepted o fresh) fun _ => ⟨living, rfl⟩
  | addLocked fd here free =>
    exact before.quiet rfl List.prefix_rfl rfl (owed_eq rfl) fun _ => ⟨living, rfl⟩
  | stored fd here room =>
    have outside := outside_of_main o.owned (by rw [here]; rfl)
    exact before.quiet rfl List.prefix_rfl rfl (owed_eq (owed_of_outside rfl outside))
      fun _ => ⟨living, rfl⟩
  | full fd here full =>
    exact before.quiet rfl List.prefix_rfl rfl (owed_eq rfl) fun _ => ⟨living, rfl⟩
  | counted fd here =>
    have outside := outside_of_main o.owned (by rw [here]; rfl)
    exact before.quiet rfl List.prefix_rfl rfl (owed_eq (owed_of_outside rfl outside))
      fun _ => ⟨living, rfl⟩
  | addUnlocked fd here =>
    exact before.quiet rfl List.prefix_rfl rfl (owed_eq rfl) fun _ => ⟨living, rfl⟩
  | created fd here =>
    exact before.quiet rfl List.prefix_rfl rfl (owed_eq rfl) fun _ => ⟨living, rfl⟩
  | walked a d h point thread walks =>
    exact before.quiet rfl List.prefix_rfl rfl (owed_eq rfl) fun _ => ⟨living, rfl⟩
  | received d h got thread here fits =>
    exact told_received living before got
  | echoed d h buf thread here =>
    exact told_echoed o accounted living before thread here List.prefix_rfl rfl rfl rfl rfl
      fun _ => rfl
  | sendFailed d h buf k thread here short =>
    exact told_echoed o accounted living before thread here (List.take_prefix k buf) rfl rfl rfl rfl
      nofun
  | removeLocked d h thread here free =>
    exact before.quiet rfl List.prefix_rfl rfl (owed_eq rfl) fun _ => ⟨living, rfl⟩
  | shifted d h j thread here more =>
    have outside := outside_of_handler o.owned thread (by rw [here]; rfl)
    exact before.quiet rfl List.prefix_rfl rfl (owed_eq (owed_of_outside rfl outside))
      fun _ => ⟨living, rfl⟩
  | shrunk d h j thread here done =>
    have outside := outside_of_handler o.owned thread (by rw [here]; rfl)
    exact before.quiet rfl List.prefix_rfl rfl (owed_eq (owed_of_outside rfl outside))
      fun _ => ⟨living, rfl⟩
  | removeUnlocked d h thread here =>
    exact before.quiet rfl List.prefix_rfl rfl (owed_eq rfl) fun _ => ⟨living, rfl⟩
  | closed d h thread here =>
    exact before.quiet rfl List.prefix_rfl rfl (owed_eq rfl) fun _ => ⟨living, rfl⟩
  | reads point rest reads => exact told_reads living nul_free before reads
  | broadcastLocked buf here free =>
    refine before.quiet rfl List.prefix_rfl rfl ?_ fun _ => ⟨living, rfl⟩
    rw [owed, owed, here]
    dsimp only
    split
    · exact List.Sublist.refl _
    · exact List.nil_sublist _
  | sent k buf i fd here more bound entry => exact told_sent o living before here more entry
  | broadcastUnlocked here =>
    refine before.quiet rfl List.prefix_rfl rfl (owed_eq ?_) fun _ => ⟨living, rfl⟩
    rw [owed, owed, here]

end Step

/-- All that the server has read, from some point on, has been sent to the client but for what it is
still owed. -/
def Since (stdin : List Byte) (s : State) (c : ConnId) : Prop :=
  ∃ earlier consumed sent, stdin = earlier ++ consumed ++ s.stdin ∧
    Merge (s.echoed c) sent (s.stream c) ∧ consumed.filter (· ≠ newline) = sent ++ owed s c

def Early (s : State) (c : ConnId) : Prop :=
  s.accepted ≤ c ∨ early s.main = true ∧ c = s.newest

/-- Nothing has been sent to a connection before it is looked for room for, what the sender holds is
a piece of the input, and whoever is listed has missed nothing since it is. -/
structure Account (stdin : List Byte) (s : State) : Prop where
  blank : ∀ c, Early s c → s.echoed c = [] ∧ s.stream c = []
  holding : ∃ earlier piece, stdin = earlier ++ piece ++ s.stdin ∧
    piece.filter (· ≠ newline) =
      match s.sender with
      | .lockBroadcast buf => buf
      | _ => []
  since : ∀ c ∈ listed s, Since stdin s c

section Account

variable {stdin : List Byte} {s t : State} {c : ConnId}

theorem Since.hears (before : Since stdin s c) (later : Hears c s t) :
    ∃ earlier consumed more sent, stdin = earlier ++ consumed ++ s.stdin ∧
      s.stdin = more ++ t.stdin ∧ Merge (t.echoed c) sent (t.stream c) ∧
      (consumed ++ more).filter (· ≠ newline) = sent ++ owed t c := by
  obtain ⟨earlier, consumed, sent, whole, merge, words⟩ := before
  obtain ⟨consumed', sent', echoed', more', input, echoes, stream, merge', words'⟩ := later
  refine ⟨earlier, consumed, consumed', sent ++ sent', whole, input, ?_, ?_⟩
  · rw [echoes, stream]
    exact merge.append merge'
  · rw [List.filter_append, words, List.append_assoc, words', List.append_assoc]

private theorem since_hears (before : Since stdin s c) (later : Hears c s t) : Since stdin t c := by
  obtain ⟨earlier, consumed, more, sent, whole, input, merge, words⟩ := before.hears later
  refine ⟨earlier, consumed ++ more, sent, ?_, merge, words⟩
  rw [whole, input]
  simp only [List.append_assoc]

theorem account_init (servSock : ℤ) (stdin : List Byte) : Account stdin (init servSock stdin) where
  blank _ _ := ⟨rfl, rfl⟩
  holding := ⟨[], [], rfl, rfl⟩
  since _ inside := nomatch inside

private theorem not_early_of_thread (w : Wired s) {h : Handler} (thread : s.handlers c = some h) :
    ¬Early s c := by
  rintro (later | ⟨adding, rfl⟩)
  · exact absurd (w.known c h thread).1 (Nat.not_lt.mpr later)
  · have adds : ∃ fd, adds s.main = some fd := by
      cases here : s.main with
      | lockAdd fd | add fd => exact ⟨fd, rfl⟩
      | _ =>
        rw [here] at adding
        cases adding
    obtain ⟨fd, here⟩ := adds
    rw [(w.adding fd here).2.1] at thread
    cases thread

private theorem not_early_of_listed (b : Booked s) (inside : c ∈ listed s) : ¬Early s c := by
  have added := (mem_listed.mp inside).1
  rintro (later | ⟨adding, rfl⟩)
  · exact absurd (b.earlier c added) (Nat.not_lt.mpr later)
  · exact absurd (b.before adding _ added) (Nat.lt_irrefl _)

private theorem early_of_step {a : Action} (taken : step s a = some t) (still : Early t c) :
    Early s c := by
  cases moves_of_step taken with
  | accepted fd here fresh =>
    rcases still with later | ⟨_, rfl⟩
    · exact Or.inl (Nat.le_of_succ_le later)
    · exact Or.inl (Nat.le_of_eq (Nat.add_sub_cancel s.accepted 1).symm)
  | addLocked fd here free =>
    rcases still with later | ⟨_, rfl⟩
    · exact Or.inl later
    · exact Or.inr ⟨by rw [here]; rfl, rfl⟩
  | stored fd here room | full fd here full | counted fd here | addUnlocked fd here
  | created fd here =>
    rcases still with later | ⟨adding, _⟩
    · exact Or.inl later
    · cases adding
  | _ => exact still

private theorem blank_step {a : Action} (o : Orderly s)
    (before : ∀ c, Early s c → s.echoed c = [] ∧ s.stream c = []) (taken : step s a = some t)
    (c : ConnId) (still : Early t c) : t.echoed c = [] ∧ t.stream c = [] := by
  have new : Early s c := early_of_step taken still
  obtain ⟨echoed, stream⟩ := before c new
  have other : ∀ {d : ConnId}, ¬Early s d → c ≠ d := by
    rintro d old rfl
    exact old new
  cases moves_of_step taken with
  | echoed d h buf thread here =>
    have behind := o.wired.open_of_running thread (here ▸ HandlerPoint.noConfusion)
    have differ := other (not_early_of_thread o.wired thread)
    rw [put_of_open behind]
    exact ⟨(Function.update_of_ne differ ..).trans echoed,
      (Function.update_of_ne differ ..).trans stream⟩
  | sendFailed d h buf k thread here short =>
    have behind := o.wired.open_of_running thread (here ▸ HandlerPoint.noConfusion)
    have differ := other (not_early_of_thread o.wired thread)
    rw [put_of_open behind]
    exact ⟨echoed, (Function.update_of_ne differ ..).trans stream⟩
  | sent k buf i fd here more bound entry =>
    obtain ⟨d, inside, rfl, behind, _⟩ := entry_at o here more entry
    have differ := other (not_early_of_listed o.booked inside)
    rw [put_of_open behind]
    exact ⟨echoed, (Function.update_of_ne differ ..).trans stream⟩
  | _ => exact ⟨echoed, stream⟩

private theorem holding_step {a : Action} (nul_free : 0 ∉ s.stdin) (before : Account stdin s)
    (taken : step s a = some t) : ∃ earlier piece, stdin = earlier ++ piece ++ t.stdin ∧
      piece.filter (· ≠ newline) =
        match t.sender with
        | .lockBroadcast buf => buf
        | _ => [] := by
  obtain ⟨earlier, piece, whole, words⟩ := before.holding
  cases moves_of_step taken with
  | reads point rest reads =>
    generalize s.sender = sender at reads
    cases reads with
    | inputEnded nothing => exact ⟨earlier ++ piece, [], by rw [List.append_nil]; exact whole, rfl⟩
    | skipped next rest read empty =>
      refine ⟨earlier ++ piece ++ next, [], ?_, rfl⟩
      rw [whole, ← Lib.Lines.fgets_append read]
      simp only [List.append_assoc, List.append_nil]
    | read next rest read text =>
      refine ⟨earlier ++ piece, next, ?_, (stripped_of_fgets read nul_free).symm⟩
      rw [whole, ← Lib.Lines.fgets_append read]
      simp only [List.append_assoc]
    | looped buf i done =>
      exact ⟨earlier ++ piece, [], by rw [List.append_nil]; exact whole, rfl⟩
  | broadcastLocked | sent | broadcastUnlocked =>
    exact ⟨earlier ++ piece, [], by rw [List.append_nil]; exact whole, rfl⟩
  | _ => exact ⟨earlier, piece, whole, words⟩

private theorem since_stored (o : Orderly s) (before : Account stdin s) {fd : ℤ}
    (here : s.main = .add fd) (room : s.nclients < MAXCLIENTS) : Since stdin { s with
      main := .count fd
      clients := s.clients.set s.nclients fd room
      added := s.added ++ [s.newest] } s.newest := by
  obtain ⟨echoed, stream⟩ := before.blank s.newest (.inr ⟨by rw [here]; rfl, rfl⟩)
  obtain ⟨earlier, piece, whole, words⟩ := before.holding
  have outside := outside_of_main o.owned (by rw [here]; rfl)
  refine ⟨earlier, piece, [], whole, ?_, ?_⟩
  · change Merge (s.echoed s.newest) [] (s.stream s.newest)
    rw [echoed, stream]
    exact .nil
  · rw [words, List.nil_append, owed]
    dsimp only
    cases point : s.sender with
    | broadcasting buf i =>
      rw [point] at outside
      cases outside
    | _ => rfl

private theorem listed_of_step {a : Action} (taken : step s a = some t) (inside : c ∈ listed t)
    (new : c ∉ listed s) : ∃ fd room, s.main = .add fd ∧ c = s.newest ∧ t = { s with
      main := .count fd
      clients := s.clients.set s.nclients fd room
      added := s.added ++ [s.newest] } := by
  obtain ⟨added, kept⟩ := mem_listed.mp inside
  cases moves_of_step taken with
  | stored fd here room =>
    refine ⟨fd, room, here, ?_, rfl⟩
    rcases List.mem_append.mp added with before | now
    · exact absurd (mem_listed.mpr ⟨before, kept⟩) new
    · exact List.mem_singleton.mp now
  | removeLocked d h thread here free =>
    have gone : c ∈ s.removed := by
      by_contra stays
      exact new (mem_listed.mpr ⟨added, stays⟩)
    exact absurd (List.mem_append_left [d] gone) kept
  | _ => exact absurd inside new

theorem account_step {a : Action} (o : Orderly s) (nul_free : 0 ∉ s.stdin)
    (before : Account stdin s) (all : whole s a = true) (taken : step s a = some t) :
    Account stdin t := by
  refine ⟨blank_step o before.blank taken, holding_step nul_free before taken, fun c inside => ?_⟩
  by_cases joined : c ∈ listed s
  · exact since_hears (before.since c joined) (hears_step o nul_free joined all taken)
  · obtain ⟨fd, room, here, rfl, rfl⟩ := listed_of_step taken inside joined
    exact since_stored o before here room

end Account

end SocketChat.TestCode.BroadcastChat.Provenance
