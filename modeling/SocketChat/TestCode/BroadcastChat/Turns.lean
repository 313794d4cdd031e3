/- SocketChat/TestCode/BroadcastChat/Turns
   digest: The holder of the mutex is never blocked and gives it back within its own turns. -/

import SocketChat.TestCode.BroadcastChat.Listing

set_option autoImplicit false
set_option relaxedAutoImplicit false

namespace SocketChat.TestCode.BroadcastChat.Turns

open SocketChat.Lib.Runs
open SocketChat.TestCode.BroadcastChat.Model
open SocketChat.TestCode.BroadcastChat.Threads
open SocketChat.TestCode.BroadcastChat.Listing

/-- What a thread does next where it waits for nobody; a `send` of the sender takes everything. -/
def next (s : State) : Owner → Action
  | .main => .main
  | .sender =>
      match s.sender with
      | .broadcasting buf i => if i < s.nclients then .broadcast buf.length else .sender
      | _ => .sender
  | .handler c => .handler c

def mainLeft : MainPoint → ℕ
  | .add _ => 3
  | .count _ => 2
  | .unlockAdd _ => 1
  | _ => 0

def sendLeft : SendPoint → ℕ
  | .broadcasting _ i => MAXCLIENTS - i + 2
  | .unlockBroadcast => 1
  | _ => 0

def handlerLeft : HandlerPoint → ℕ
  | .searching i => MAXCLIENTS - i + 3
  | .shifting j => MAXCLIENTS - j + 2
  | .unlockRemove => 1
  | _ => 0

/-- How many turns a thread needs to give the mutex back. -/
def toUnlock (s : State) : Owner → ℕ
  | .main => mainLeft s.main
  | .sender => sendLeft s.sender
  | .handler c => (s.handlers c).elim 0 fun h => handlerLeft h.point

def toFgets : SendPoint → ℕ
  | .lockBroadcast _ => MAXCLIENTS + 3
  | point => sendLeft point

section Turns

variable {s t : State} {w : Owner} {a : Action}

private theorem toUnlock_handler {c : ConnId} {h : Handler} (thread : s.handlers c = some h) :
    toUnlock s (.handler c) = handlerLeft h.point := by
  rw [toUnlock, thread]
  rfl

private theorem mainLeft_le (point : MainPoint) : mainLeft point ≤ 3 := by
  cases point with
  | _ =>
    dsimp only [mainLeft]
    omega

private theorem sendLeft_le (point : SendPoint) : sendLeft point ≤ MAXCLIENTS + 2 := by
  cases point with
  | _ =>
    dsimp only [sendLeft]
    omega

private theorem handlerLeft_le (point : HandlerPoint) : handlerLeft point ≤ MAXCLIENTS + 3 := by
  cases point with
  | _ =>
    dsimp only [handlerLeft]
    omega

private theorem toUnlock_le (s : State) (w : Owner) : toUnlock s w ≤ MAXCLIENTS + 3 := by
  cases w with
  | main => exact Nat.le_trans (mainLeft_le s.main) (by decide)
  | sender => exact Nat.le_succ_of_le (sendLeft_le s.sender)
  | handler c =>
    cases thread : s.handlers c with
    | none =>
      rw [toUnlock, thread]
      exact Nat.zero_le _
    | some h =>
      rw [toUnlock_handler thread]
      exact handlerLeft_le h.point

private theorem toFgets_le (point : SendPoint) : toFgets point ≤ MAXCLIENTS + 3 := by
  cases point with
  | _ =>
    dsimp only [toFgets, sendLeft]
    omega

private theorem toFgets_eq_zero {point : SendPoint} :
    toFgets point = 0 ↔ point = .fgets ∨ point = .returned := by
  cases point with
  | _ => simp [toFgets, sendLeft]

private theorem mainLeft_pos {point : MainPoint} (inside : MainPoint.critical point = true) :
    0 < mainLeft point := by
  cases point with
  | add fd => exact Nat.succ_pos 2
  | count fd => exact Nat.succ_pos 1
  | unlockAdd fd => exact Nat.one_pos
  | _ => cases inside

private theorem sendLeft_pos {point : SendPoint} (inside : SendPoint.critical point = true) :
    0 < sendLeft point := by
  cases point with
  | broadcasting buf i => exact Nat.succ_pos _
  | unlockBroadcast => exact Nat.one_pos
  | _ => cases inside

private theorem handlerLeft_pos {point : HandlerPoint}
    (inside : HandlerPoint.critical point = true) :
    0 < handlerLeft point := by
  cases point with
  | searching i => exact Nat.succ_pos _
  | shifting j => exact Nat.succ_pos _
  | unlockRemove => exact Nat.one_pos
  | _ => cases inside

private theorem thread_of_critical {c : ConnId} (inside : critical s (.handler c) = true) :
    ∃ h, s.handlers c = some h ∧ HandlerPoint.critical h.point = true := by
  cases thread : s.handlers c with
  | none =>
    rw [critical, thread] at inside
    cases inside
  | some h =>
    rw [critical_handler thread] at inside
    exact ⟨h, rfl, inside⟩

private theorem toUnlock_pos (inside : critical s w = true) : 0 < toUnlock s w := by
  cases w with
  | main => exact mainLeft_pos inside
  | sender => exact sendLeft_pos inside
  | handler c =>
    obtain ⟨h, thread, within⟩ := thread_of_critical inside
    rw [toUnlock_handler thread]
    exact handlerLeft_pos within

private theorem turn_next (s : State) (w : Owner) : turn w (next s w) = true := by
  cases w with
  | main => rfl
  | sender =>
    dsimp only [next]
    split
    · split
      · rfl
      · rfl
    · rfl
  | handler c => exact decide_eq_true rfl

private theorem main_moves (inside : MainPoint.critical s.main = true) :
    ∃ t, runMain s = some t := by
  unfold runMain
  cases here : s.main with
  | add fd =>
    dsimp only
    split
    · exact ⟨_, rfl⟩
    · exact ⟨_, rfl⟩
  | count fd => exact ⟨_, rfl⟩
  | unlockAdd fd => exact ⟨_, rfl⟩
  | _ =>
    rw [here] at inside
    cases inside

private theorem handler_moves {c : ConnId} {h : Handler} (thread : s.handlers c = some h)
    (inside : HandlerPoint.critical h.point = true) : ∃ t, runHandler s c = some t := by
  rw [runHandler, thread, Option.bind_some]
  cases here : h.point with
  | searching i =>
    dsimp only
    split
    · split
      · exact ⟨_, rfl⟩
      · exact ⟨_, rfl⟩
    · exact ⟨_, rfl⟩
  | shifting j =>
    dsimp only
    split
    · exact ⟨_, rfl⟩
    · exact ⟨_, rfl⟩
  | unlockRemove => exact ⟨_, rfl⟩
  | _ =>
    rw [here] at inside
    cases inside

theorem sender_moves (f : Fits s) (alive : s.died = none) (running : s.sender ≠ .returned)
    (open_ : ∀ buf, s.sender = .lockBroadcast buf → s.clients_mtx = none) :
    ∃ t, step s (next s .sender) = some t := by
  have turns : step s .sender = runSender s := if_pos alive
  have sends : ∀ k, step s (.broadcast k) = broadcast s k := fun k => if_pos alive
  rw [next]
  cases here : s.sender with
  | fgets =>
    dsimp only
    rw [turns, runSender, here]
    dsimp only
    split
    · exact ⟨_, rfl⟩
    · split
      · exact ⟨_, rfl⟩
      · exact ⟨_, rfl⟩
  | lockBroadcast buf =>
    dsimp only
    rw [turns, runSender, here]
    exact ⟨_, if_pos (open_ buf here)⟩
  | broadcasting buf i =>
    dsimp only
    by_cases more : i < s.nclients
    · have entry : i < MAXCLIENTS := Nat.lt_of_lt_of_le more f.bound
      rw [if_pos more, sends, broadcast, here]
      dsimp only
      rw [if_pos ⟨more, Nat.le_refl _⟩, Vector.getElem?_eq_getElem entry]
      exact ⟨_, rfl⟩
    · rw [if_neg more, turns, runSender, here]
      exact ⟨_, if_neg more⟩
  | unlockBroadcast =>
    dsimp only
    rw [turns, runSender, here]
    exact ⟨_, rfl⟩
  | returned => exact absurd here running

theorem holder_moves (f : Fits s) (alive : s.died = none) (inside : critical s w = true) :
    ∃ t, step s (next s w) = some t := by
  cases w with
  | main =>
    have turns : step s .main = runMain s := if_pos alive
    rw [next, turns]
    exact main_moves inside
  | sender =>
    have within : SendPoint.critical s.sender = true := inside
    apply sender_moves f alive
    · intro returned
      rw [returned] at within
      cases within
    · intro buf waiting
      rw [waiting] at within
      cases within
  | handler c =>
    obtain ⟨h, thread, within⟩ := thread_of_critical inside
    have turns : step s (.handler c) = runHandler s c := if_pos alive
    rw [next, turns]
    exact handler_moves thread within

private theorem own_turn (f : Fits s) (inside : critical s w = true) (held : s.clients_mtx = some w)
    (own : turn w a = true) (taken : step s a = some t) :
    t.clients_mtx = none ∨ t.clients_mtx = some w ∧ toUnlock t w + 1 ≤ toUnlock s w := by
  have bound := f.bound
  have moves := moves_of_step taken
  cases w with
  | main =>
    cases a with
    | main =>
      have within : MainPoint.critical s.main = true := inside
      cases moves with
      | died _ message failed => cases failed .main
      | walked _ c h point thread walks own =>
        rcases own with same | ⟨same, _⟩
        · cases same
        · cases same
      | addLocked fd here free =>
        rw [free] at held
        cases held
      | stored fd here room =>
        refine Or.inr ⟨held, ?_⟩
        rw [toUnlock, toUnlock, here]
        exact Nat.le_refl 3
      | full fd here full =>
        refine Or.inr ⟨held, ?_⟩
        rw [toUnlock, toUnlock, here]
        exact Nat.le_succ 2
      | counted fd here =>
        refine Or.inr ⟨held, ?_⟩
        rw [toUnlock, toUnlock, here]
        exact Nat.le_refl 2
      | addUnlocked fd here => exact Or.inl rfl
      | created fd here =>
        rw [here] at within
        cases within
    | _ => cases own
  | sender =>
    have within : SendPoint.critical s.sender = true := inside
    cases a with
    | sender =>
      cases moves with
      | died _ message failed => cases failed .sender
      | walked _ c h point thread walks own =>
        rcases own with same | ⟨same, _⟩
        · cases same
        · cases same
      | reads point rest reads =>
        refine Or.inr ⟨held, ?_⟩
        rw [toUnlock, toUnlock]
        dsimp only
        generalize s.sender = before at reads within
        cases reads with
        | looped buf i done =>
          dsimp only [sendLeft]
          omega
        | _ => cases within
      | broadcastLocked buf here free =>
        rw [free] at held
        cases held
      | broadcastUnlocked here => exact Or.inl rfl
    | broadcast k =>
      cases moves with
      | died _ message failed => cases failed .sender
      | walked _ c h point thread walks own =>
        rcases own with same | ⟨same, _⟩
        · cases same
        · cases same
      | sent _ buf i fd here more bound' entry =>
        refine Or.inr ⟨held, ?_⟩
        rw [toUnlock, toUnlock, here]
        dsimp only [sendLeft]
        omega
    | _ => cases own
  | handler c =>
    obtain ⟨h, thread, within⟩ := thread_of_critical inside
    have left : toUnlock s (.handler c) = handlerLeft h.point := toUnlock_handler thread
    cases a with
    | handler d =>
      obtain rfl : c = d := of_decide_eq_true own
      rw [left]
      cases moves with
      | died _ message failed => cases (turn_next s (.handler c)).symm.trans (failed (.handler c))
      | walked _ d h' point thread' walks own =>
        obtain rfl : c = d := by
          rcases own with same | ⟨same, _⟩
          · exact Action.handler.inj same
          · cases same
        obtain rfl := Option.some.inj (thread.symm.trans thread')
        refine Or.inr ⟨held, ?_⟩
        rw [toUnlock_handler (Function.update_self ..)]
        dsimp only
        generalize h.point = before at walks within
        cases walks with
        | ended => cases within
        | passedOver i more other =>
          dsimp only [handlerLeft]
          omega
        | found i more here =>
          dsimp only [handlerLeft]
          omega
        | notFound i done =>
          dsimp only [handlerLeft]
          omega
      | removeLocked _ h' thread' here free =>
        rw [free] at held
        cases held
      | shifted _ h' j thread' here more =>
        obtain rfl := Option.some.inj (thread.symm.trans thread')
        refine Or.inr ⟨held, ?_⟩
        rw [toUnlock_handler (Function.update_self ..), here]
        dsimp only [handlerLeft]
        omega
      | shrunk _ h' j thread' here done =>
        obtain rfl := Option.some.inj (thread.symm.trans thread')
        refine Or.inr ⟨held, ?_⟩
        rw [toUnlock_handler (Function.update_self ..), here]
        dsimp only [handlerLeft]
        omega
      | removeUnlocked _ h' thread' here => exact Or.inl rfl
      | closed _ h' thread' here =>
        obtain rfl := Option.some.inj (thread.symm.trans thread')
        rw [here] at within
        cases within
    | _ => cases own

private theorem toUnlock_of_thread {c : ConnId} (same : t.handlers c = s.handlers c) :
    toUnlock t (.handler c) = toUnlock s (.handler c) := by
  rw [toUnlock, toUnlock, same]

private theorem toUnlock_of_handler {c : ConnId} {h : Handler} (main : t.main = s.main)
    (sender : t.sender = s.sender) (handlers : t.handlers = Function.update s.handlers c (some h))
    (other : w ≠ .handler c) : toUnlock t w = toUnlock s w := by
  cases w with
  | main => rw [toUnlock, toUnlock, main]
  | sender => rw [toUnlock, toUnlock, sender]
  | handler d =>
    apply toUnlock_of_thread
    rw [handlers]
    apply Function.update_of_ne
    rintro rfl
    exact other rfl

/-- A step that is not a turn of the holder leaves it the mutex, where it is. -/
theorem other_turn (o : Orderly s) (held : s.clients_mtx = some w)
    (other : turn w a = false) (taken : step s a = some t) :
    t.clients_mtx = some w ∧ toUnlock t w = toUnlock s w := by
  have inside := (o.owned w).mpr held
  have mine : ∀ x, critical s x = true → turn x a = false := by
    intro x within
    rw [o.owned.unique inside within]
    exact other
  have locked : s.clients_mtx ≠ none := by
    rw [held]
    exact Option.some_ne_none w
  have outside : ∀ c h, s.handlers c = some h → HandlerPoint.critical h.point = false →
      w ≠ .handler c := by
    rintro c h thread out rfl
    rw [critical_handler thread, out] at inside
    cases inside
  have apart : ∀ c, a = .handler c → w ≠ .handler c := by
    rintro c rfl rfl
    exact of_decide_eq_false other rfl
  cases moves_of_step taken with
  | died a message failed => exact ⟨held, by cases w <;> rfl⟩
  | accepted fd here fresh =>
    refine ⟨held, ?_⟩
    cases w with
    | main =>
      have within : MainPoint.critical s.main = true := inside
      rw [here] at within
      cases within
    | _ => rfl
  | addLocked fd here free => exact absurd free locked
  | stored fd here room =>
    refine ⟨held, ?_⟩
    cases w with
    | main => cases other
    | _ => rfl
  | full fd here full =>
    refine ⟨held, ?_⟩
    cases w with
    | main => cases other
    | _ => rfl
  | counted fd here =>
    refine ⟨held, ?_⟩
    cases w with
    | main => cases other
    | _ => rfl
  | addUnlocked fd here =>
    have within : critical s .main = true := by
      rw [critical, here]
      rfl
    cases mine .main within
  | created fd here =>
    refine ⟨held, ?_⟩
    cases w with
    | main => cases other
    | sender => rfl
    | handler c =>
      obtain ⟨h, thread, _⟩ := thread_of_critical inside
      have unhandled := (o.wired.adding fd (by rw [here]; rfl)).2.1
      apply toUnlock_of_thread
      apply Function.update_of_ne
      rintro rfl
      rw [unhandled] at thread
      cases thread
  | walked a c h point thread walks own =>
    refine ⟨held, toUnlock_of_handler rfl rfl rfl ?_⟩
    rcases own with same | ⟨_, here⟩
    · exact apart c same
    · exact outside c h thread (by rw [here]; rfl)
  | received c h got thread here fits =>
    exact ⟨held, toUnlock_of_handler rfl rfl rfl (outside c h thread (by rw [here]; rfl))⟩
  | echoed c h buf thread here =>
    exact ⟨held, toUnlock_of_handler rfl rfl rfl (outside c h thread (by rw [here]; rfl))⟩
  | sendFailed c h buf taken thread here short => exact ⟨held, by cases w <;> rfl⟩
  | removeLocked c h thread here free => exact absurd free locked
  | shifted c h j thread here more =>
    exact ⟨held, toUnlock_of_handler rfl rfl rfl (apart c rfl)⟩
  | shrunk c h j thread here done =>
    exact ⟨held, toUnlock_of_handler rfl rfl rfl (apart c rfl)⟩
  | removeUnlocked c h thread here =>
    have within : critical s (.handler c) = true := by
      rw [critical_handler thread, here]
      rfl
    exact absurd rfl (of_decide_eq_false (mine (.handler c) within))
  | closed c h thread here => exact ⟨held, toUnlock_of_handler rfl rfl rfl (apart c rfl)⟩
  | reads point rest reads =>
    refine ⟨held, ?_⟩
    cases w with
    | sender => cases other
    | _ => rfl
  | broadcastLocked buf here free => exact absurd free locked
  | sent taken buf i fd here more bound entry =>
    refine ⟨held, ?_⟩
    cases w with
    | sender => cases other
    | _ => rfl
  | broadcastUnlocked here =>
    have within : critical s .sender = true := by
      rw [critical, here]
      rfl
    cases mine .sender within

theorem released {as : List Action} (o : Orderly s) (held : s.clients_mtx = some w)
    (taken : exec step s as = some t) (turns : MAXCLIENTS + 3 ≤ as.countP (turn w)) :
    ∃ before after m, as = before ++ after ∧ exec step s before = some m ∧
      m.clients_mtx = none := by
  refine met_of_turns (I := fun u => Orderly u ∧ u.clients_mtx = some w)
    (μ := fun u => toUnlock u w)
    ?_ ?_ ⟨o, held⟩ taken (Nat.le_trans (toUnlock_le s w) turns)
  · rintro u ⟨o, held⟩
    exact Or.inr (toUnlock_pos ((o.owned w).mpr held))
  · rintro u a v ⟨o, held⟩ moved
    have later := orderly_step u a v o moved
    cases own : turn w a with
    | true =>
      rcases own_turn o.fits ((o.owned w).mpr held) held own moved with free | ⟨held', less⟩
      · exact Or.inl free
      · exact Or.inr ⟨⟨later, held'⟩, less⟩
    | false =>
      obtain ⟨held', same⟩ := other_turn o held own moved
      exact Or.inr ⟨⟨later, held'⟩, Nat.le_of_eq same⟩

private theorem sender_turn (f : Fits s) (busy : 0 < toFgets s.sender) (taken : step s a = some t) :
    toFgets t.sender + (if turn .sender a then 1 else 0) ≤ toFgets s.sender := by
  have bound := f.bound
  cases moves_of_step taken with
  | died a message failed =>
    rw [if_neg (Bool.eq_false_iff.mp (failed .sender))]
    exact Nat.le_refl _
  | walked a c h point thread walks own =>
    rcases own with rfl | ⟨rfl, _⟩
    · exact Nat.le_refl _
    · exact Nat.le_refl _
  | reads point rest reads =>
    generalize s.sender = before at reads busy
    cases reads with
    | looped buf i done =>
      change 1 + 1 ≤ MAXCLIENTS - i + 2
      omega
    | _ => exact absurd busy (Nat.lt_irrefl 0)
  | broadcastLocked buf here free =>
    rw [here]
    exact Nat.le_refl _
  | sent taken buf i fd here more bound' entry =>
    rw [here]
    change MAXCLIENTS - (i + 1) + 2 + 1 ≤ MAXCLIENTS - i + 2
    omega
  | broadcastUnlocked here =>
    rw [here]
    exact Nat.le_refl 1
  | _ => exact Nat.le_refl _

/-- The sender is back at `fgets` within its own turns, whatever the others do meanwhile. -/
theorem returns_to_fgets {as : List Action} (o : Orderly s) (taken : exec step s as = some t)
    (turns : MAXCLIENTS + 3 ≤ as.countP (turn .sender)) :
    ∃ before after m, as = before ++ after ∧ exec step s before = some m ∧
      (m.sender = .fgets ∨ m.sender = .returned) := by
  rcases Nat.eq_zero_or_pos (toFgets s.sender) with idle | busy
  · exact ⟨[], as, s, rfl, rfl, toFgets_eq_zero.mp idle⟩
  refine met_of_turns (I := fun u => Orderly u ∧ 0 < toFgets u.sender)
    (μ := fun u => toFgets u.sender) ?_ ?_ ⟨o, busy⟩ taken
    (Nat.le_trans (toFgets_le s.sender) turns)
  · rintro u ⟨_, busy⟩
    exact Or.inr busy
  · rintro u a v ⟨o, busy⟩ moved
    have less := sender_turn o.fits busy moved
    rcases Nat.eq_zero_or_pos (toFgets v.sender) with idle | busy'
    · exact Or.inl (toFgets_eq_zero.mp idle)
    · exact Or.inr ⟨⟨orderly_step u a v o moved, busy'⟩, less⟩

end Turns

end SocketChat.TestCode.BroadcastChat.Turns
