/- SocketChat/Socket/Farewell
   digest: A side that has received the other's farewell leaves only by speaking or failing. -/

import SocketChat.Lib.Runs
import SocketChat.Socket.Model

set_option autoImplicit false
set_option relaxedAutoImplicit false

namespace SocketChat.Socket.Farewell

open SocketChat.Lib.CString
open SocketChat.Lib.Runs
open SocketChat.Lib.Sides
open Model

/-- The other side has said `Bye`, and this side has received it all. -/
def Heard (s : State) (who : Side) : Prop :=
  (∃ text ∈ (s.party who.peer).said, isBye text = true) ∧ s.inbox who = []

def Inside (s : State) (who : Side) : Prop := (s.party who).point.inside = true

def bytesSaid (s : State) (who : Side) : List Byte := (s.party who).said.flatten

def Mute (who : Side) (s : State) : Action → Prop
  | .write x => x = who → cstr (s.party who).buffer = []
  | _ => True

instance decidableMute (who : Side) (s : State) : (a : Action) → Decidable (Mute who s a)
  | .fgets _ => isTrue trivial
  | .write x => inferInstanceAs (Decidable (x = who → cstr (s.party who).buffer = []))
  | .read _ _ => isTrue trivial
  | .readEnd _ => isTrue trivial
  | .fail _ => isTrue trivial

theorem party_of_other {s t : State} {a : Action} {who : Side} (other : a.who ≠ who)
    (taken : step s a = some t) : t.party who = s.party who := by
  have away : who = a.who.peer := Side.eq_peer_of_ne other.symm
  rw [away]
  exact (moves_of_step taken).2

section Step

variable {s t : State} {a : Action} {who : Side}

private theorem bytesSaid_step (who : Side) (taken : step s a = some t) :
    ∃ more, bytesSaid t who = bytesSaid s who ++ more ∧ (more = [] ↔ Mute who s a) := by
  by_cases mine : a.who = who
  · subst mine
    have moves := (moves_of_step taken).1
    unfold bytesSaid
    generalize t.party a.who = p at *
    cases moves with
    | fgets who ready =>
      refine ⟨[], ?_, iff_of_true rfl trivial⟩
      unfold Party.fgets
      split <;> simp [Action.who]
    | write who ready =>
      refine ⟨cstr (s.party who).buffer, by simp [Party.write, Action.who], ?_⟩
      exact ⟨fun empty _ => empty, fun mute => mute rfl⟩
    | read who k ready => exact ⟨[], by simp [Party.read, Action.who], iff_of_true rfl trivial⟩
    | readEnd who ready => exact ⟨[], by simp [Party.read, Action.who], iff_of_true rfl trivial⟩
    | fail who ready => exact ⟨[], by simp [Action.who], iff_of_true rfl trivial⟩
  · refine ⟨[], ?_, iff_of_true rfl ?_⟩
    · rw [bytesSaid, party_of_other mine taken, List.append_nil]
      rfl
    · cases a with
      | write x => exact fun same => absurd same mine
      | fgets x => trivial
      | read x k => trivial
      | readEnd x => trivial
      | fail x => trivial

private theorem inside_of_acting (taken : step s a = some t) : Inside s a.who := by
  have moves := (moves_of_step taken).1
  unfold Inside
  generalize t.party a.who = p at moves
  cases moves with
  | fgets who ready => rw [Action.who, ready]; rfl
  | write who ready => rw [Action.who, ready]; rfl
  | read who k ready => rw [Action.who, ready]; rfl
  | readEnd who ready => rw [Action.who, ready]; rfl
  | fail who ready =>
    rcases ready with ready | ready <;> rw [Action.who, ready] <;> rfl

private theorem inside_step (inside : Inside s who) (mute : Mute who s a)
    (taken : step s a = some t) :
    Inside t who ↔ a ≠ .fail who := by
  by_cases mine : a.who = who
  · subst mine
    have moves := (moves_of_step taken).1
    unfold Inside
    generalize t.party a.who = p at moves
    cases moves with
    | fgets who ready =>
      refine iff_of_true ?_ Model.Action.noConfusion
      unfold Party.fgets
      split <;> rfl
    | write who ready =>
      refine iff_of_true ?_ Model.Action.noConfusion
      have empty : cstr (s.party who).buffer = [] := mute rfl
      rw [point_write_of_empty empty]
      rfl
    | read who k ready => exact iff_of_true rfl Model.Action.noConfusion
    | readEnd who ready => exact iff_of_true rfl Model.Action.noConfusion
    | fail who ready => exact iff_of_false Bool.false_ne_true (not_not.mpr rfl)
  · refine iff_of_true ?_ fun same => mine (by rw [same]; rfl)
    rwa [Inside, party_of_other mine taken]

private theorem outside_step (outside : ¬Inside s who) (taken : step s a = some t) :
    ¬Inside t who := by
  have other : a.who ≠ who := by
    intro mine
    exact outside (mine ▸ inside_of_acting taken)
  rwa [Inside, party_of_other other taken]

end Step

section Runs

variable {who : Side} {s t : State} {as : List Action}

private theorem bytesSaid_exec (who : Side) (taken : exec step s as = some t) :
    ∃ more, bytesSaid t who = bytesSaid s who ++ more ∧
      (more = [] ↔ Guarded step (Mute who) s as) := by
  induction as generalizing s with
  | nil =>
    obtain rfl : s = t := Option.some.inj taken
    exact ⟨[], (List.append_nil _).symm, iff_of_true rfl trivial⟩
  | cons a as ih =>
    obtain ⟨m, hm, rest⟩ := exec_cons_eq_some.mp taken
    obtain ⟨first, said_first, mute_first⟩ := bytesSaid_step who hm
    obtain ⟨later, said_later, mute_later⟩ := ih rest
    refine ⟨first ++ later, by rw [said_later, said_first, List.append_assoc], ?_⟩
    rw [List.append_eq_nil_iff, mute_first, mute_later, Guarded]
    refine and_congr_right fun _ => ⟨fun mute m' hm' => ?_, fun mute => mute m hm⟩
    obtain rfl := Option.some.inj (hm.symm.trans hm')
    exact mute

private theorem outside_exec (outside : ¬Inside s who) (taken : exec step s as = some t) :
    ¬Inside t who :=
  invariant_of_step_reach (P := fun s => ¬Inside s who)
    (fun _ _ _ here moved => outside_step here moved) outside ⟨as, taken⟩

private theorem inside_exec (inside : Inside s who) (mute : Guarded step (Mute who) s as)
    (taken : exec step s as = some t) : ¬Inside t who ↔ .fail who ∈ as := by
  induction as generalizing s with
  | nil =>
    obtain rfl : s = t := Option.some.inj taken
    exact iff_of_false (not_not.mpr inside) List.not_mem_nil
  | cons a as ih =>
    obtain ⟨m, hm, rest⟩ := exec_cons_eq_some.mp taken
    have stays := inside_step inside mute.1 hm
    by_cases fails : a = .fail who
    · refine iff_of_true (outside_exec (fun here => stays.mp here fails) rest) ?_
      rw [fails]
      exact List.mem_cons_self
    · rw [ih (stays.mpr fails) (mute.2 m hm) rest, List.mem_cons]
      exact ⟨Or.inr, fun either => either.resolve_left fun same => fails same.symm⟩

end Runs

def Departed (s : State) : Prop :=
  ∀ who, (∃ text ∈ (s.party who).said, isBye text = true) → (s.party who).point = .left

private theorem departed_step (s : State) (a : Action) (t : State) (before : Departed s)
    (taken : step s a = some t) : Departed t := by
  intro who said
  by_cases mine : a.who = who
  · subst mine
    have moves := (moves_of_step taken).1
    obtain ⟨text, in_said, farewell⟩ := said
    have new : text ∉ (s.party a.who).said := by
      intro old
      have inside := inside_of_acting taken
      rw [Inside, before a.who ⟨text, old, farewell⟩] at inside
      cases inside
    generalize t.party a.who = p at *
    cases moves with
    | fgets who ready =>
      have same : (s.party who).fgets.said = (s.party who).said := by
        unfold Party.fgets
        split <;> rfl
      rw [same] at in_said
      exact absurd in_said new
    | write who ready =>
      rcases List.mem_append.mp in_said with old | last
      · exact absurd old new
      · rw [List.mem_singleton.mp last, isBye, cstr_cstr] at farewell
        exact if_pos farewell
    | read who k ready => exact absurd in_said new
    | readEnd who ready => exact absurd in_said new
    | fail who ready => exact absurd in_said new
  · rw [party_of_other mine taken] at said ⊢
    exact before who said

private theorem departed_init (stdin : Side → List Byte) : Departed (init stdin) := by
  rintro who ⟨text, none_said, _⟩
  cases none_said

section Heard

variable {who : Side} {s t : State}

private theorem acts_of_heard {a : Action} (departed : Departed s) (heard : Heard s who)
    (taken : step s a = some t) : a.who = who := by
  by_contra other
  have inside := inside_of_acting taken
  have peer : a.who = who.peer := Side.eq_peer_of_ne other
  rw [Inside, peer, departed who.peer heard.1] at inside
  cases inside

private theorem heard_step {a : Action} (departed : Departed s) (heard : Heard s who)
    (taken : step s a = some t) : Heard t who := by
  have mine := acts_of_heard departed heard taken
  subst mine
  refine ⟨?_, ?_⟩
  · rw [(moves_of_step taken).2]
    exact heard.1
  · have empty := heard.2
    cases a with
    | fgets x =>
      simp only [step, Option.ite_none_right_eq_some, Option.some.injEq] at taken
      obtain ⟨_, rfl⟩ := taken
      exact empty
    | write x =>
      simp only [step, Option.ite_none_right_eq_some, Option.some.injEq] at taken
      obtain ⟨_, rfl⟩ := taken
      rw [Action.who, Duo.inbox_setInbox_of_peer]
      exact empty
    | read x k =>
      simp only [step, Option.ite_none_right_eq_some, Option.some.injEq] at taken
      obtain ⟨⟨_, pos, _, bound⟩, _⟩ := taken
      rw [Action.who] at empty
      rw [empty, List.length_nil] at bound
      omega
    | readEnd x =>
      simp only [step, Option.ite_none_right_eq_some, Option.some.injEq] at taken
      obtain ⟨_, rfl⟩ := taken
      exact empty
    | fail x =>
      simp only [step, Option.ite_none_right_eq_some, Option.some.injEq] at taken
      obtain ⟨_, rfl⟩ := taken
      exact empty

private theorem acts_on_of_heard (departed : Departed s) (heard : Heard s who)
    (inside : Inside s who) :
    ∃ a, a.who = who ∧ a ≠ .fail who ∧ (step s a).isSome = true := by
  cases here : (s.party who).point with
  | fgets => exact ⟨.fgets who, rfl, Model.Action.noConfusion, by rw [step, if_pos here]; rfl⟩
  | write => exact ⟨.write who, rfl, Model.Action.noConfusion, by rw [step, if_pos here]; rfl⟩
  | read =>
    have gone : (s.party who.peer).point.inside = false := by
      rw [departed who.peer heard.1]
      rfl
    refine ⟨.readEnd who, rfl, Model.Action.noConfusion, ?_⟩
    rw [step, if_pos ⟨here, gone, heard.2⟩]
    rfl
  | left =>
    rw [Inside, here] at inside
    cases inside
  | died =>
    rw [Inside, here] at inside
    cases inside

end Heard

/-- Whatever both users type: a side that has received the farewell of the other while in its
own loop comes out of it without sending anything more, in a continuation, exactly when one of
its calls fails there and it has only written empty messages until then. In its loop it can
always go on without failing. -/
theorem heeded_iff_failed (stdin : Side → List Byte) {s t : State} {who : Side}
    {as : List Action} (reached : Reach step (init stdin) s) (heard : Heard s who)
    (inside : Inside s who) (taken : exec step s as = some t) :
    (¬Inside t who ∧ bytesSaid t who = bytesSaid s who ↔
        .fail who ∈ as ∧ Guarded step (Mute who) s as) ∧
      (Inside t who → ∃ a, a.who = who ∧ a ≠ .fail who ∧ (step t a).isSome = true) := by
  obtain ⟨more, said, mute⟩ := bytesSaid_exec who taken
  have silent : bytesSaid t who = bytesSaid s who ↔ Guarded step (Mute who) s as := by
    rw [← mute, said]
    exact List.append_right_eq_self
  refine ⟨⟨?_, ?_⟩, ?_⟩
  · rintro ⟨outside, nothing⟩
    have quiet := silent.mp nothing
    exact ⟨(inside_exec inside quiet taken).mp outside, quiet⟩
  · rintro ⟨failed, quiet⟩
    exact ⟨(inside_exec inside quiet taken).mpr failed, silent.mpr quiet⟩
  · have departed : Departed s :=
      invariant_of_step_reach departed_step (departed_init stdin) reached
    have both : Departed t ∧ Heard t who := by
      refine invariant_of_step_reach (P := fun s => Departed s ∧ Heard s who) ?_
        ⟨departed, heard⟩ ⟨as, taken⟩
      rintro s a t ⟨gone, told⟩ moved
      exact ⟨departed_step s a t gone moved, heard_step gone told moved⟩
    exact acts_on_of_heard both.1 both.2

def typed : Side → List Byte
  | .client => [66, 121, 101, 10]
  | .server => [111, 107, 10]

def told : State :=
  (exec step (init typed) [.fgets .client, .write .client, .read .server 4]).getD (init typed)

private theorem heard_told : Heard told .server :=
  ⟨⟨[66, 121, 101, 10], by decide +kernel, by decide +kernel⟩, by decide +kernel⟩

theorem heeded_iff_failed_reset : ∃ t, Reach step (init typed) told ∧
    exec step told [.fgets .server, .fail .server] = some t ∧
      ¬Inside t .server ∧ bytesSaid t .server = bytesSaid told .server := by
  have reached : Reach step (init typed) told :=
    ⟨[.fgets .client, .write .client, .read .server 4], rfl⟩
  have inside : Inside told .server := rfl
  obtain ⟨t, ran⟩ : ∃ t, exec step told [.fgets .server, .fail .server] = some t := ⟨_, rfl⟩
  refine ⟨t, reached, ran, (heeded_iff_failed typed reached heard_told inside ran).1.mpr ?_⟩
  exact ⟨by decide, by decide +kernel⟩

/-- Having received `Bye` the server sends `ok` and stays in its loop. -/
theorem bye_unheeded : ∃ t, Reach step (init typed) told ∧ Heard told .server ∧
    exec step told [.fgets .server, .write .server] = some t ∧
      Inside t .server ∧ bytesSaid t .server ≠ bytesSaid told .server := by
  refine ⟨_, ⟨[.fgets .client, .write .client, .read .server 4], rfl⟩, heard_told, rfl, rfl, ?_⟩
  decide +kernel

end SocketChat.Socket.Farewell
