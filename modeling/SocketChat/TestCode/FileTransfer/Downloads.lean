/- SocketChat/TestCode/FileTransfer/Downloads
   digest: What a child that sends a file has sent, while others receive other files. -/

import SocketChat.TestCode.FileTransfer.Uploads

set_option autoImplicit false
set_option relaxedAutoImplicit false

namespace SocketChat.TestCode.FileTransfer.Downloads

open SocketChat.Lib.CString
open SocketChat.Lib.Directory
open SocketChat.Lib.Runs
open Model
open Children
open Uploads

def Quiet (uploads : List (ℕ × List Byte)) (f : List Byte) : Prop := ∀ d, (d, f) ∉ uploads

def Sent (files₀ : Files) (child : Child) (wire : List Byte) (taken : List Byte → List Byte) :
    Prop :=
  ∃ k content, files₀ child.fileName = some content ∧ wire = OK.take k ++ taken content

def Served (files₀ : Files) (uploads : List (ℕ × List Byte)) (child : Child) : Prop :=
  match child.point with
  | .request => child.wire = []
  | .prompt => child.wire = []
  | .confirm => ∃ k, child.wire = OK.take k
  | .openFile => ∃ k, child.wire = OK.take k
  | .read => Quiet uploads child.fileName →
      Sent files₀ child child.wire (·.take child.offset)
  | .send => Quiet uploads child.fileName →
      Sent files₀ child (child.wire ++ child.buffer) (·.take child.offset)
  | .ended _ notices => .finishedSending ∈ notices → Quiet uploads child.fileName →
      Sent files₀ child child.wire id
  | _ => True

section Served

variable {files₀ files : Files} {uploads : List (ℕ × List Byte)} {child : Child} {x : Call}
  {m : Child × Files}

private theorem served_more (h : Served files₀ uploads child) {more : List (ℕ × List Byte)}
    (grown : uploads ⊆ more) : Served files₀ more child := by
  have quiet : Quiet more child.fileName → Quiet uploads child.fileName :=
    fun still d opened => still d (grown opened)
  unfold Served at h ⊢
  split
  · rename_i here
    rw [here] at h
    exact h
  · rename_i here
    rw [here] at h
    exact h
  · rename_i here
    rw [here] at h
    exact h
  · rename_i here
    rw [here] at h
    exact h
  · rename_i here
    rw [here] at h
    exact fun still => h (quiet still)
  · rename_i here
    rw [here] at h
    exact fun still => h (quiet still)
  · rename_i here
    rw [here] at h
    exact fun finished still => h finished (quiet still)
  · trivial

private theorem served_ended {ending : Ending} {notices : List Notice}
    (other : .finishedSending ∉ notices) : Served files₀ uploads (child.ends ending notices) :=
  fun finished => absurd finished other

private theorem served_recv (h : Served files₀ uploads child) {got : List Byte}
    (taken : Child.step (child, files) (.recv got) = some m) : Served files₀ uploads m.1 := by
  rw [Child.step] at taken
  split at taken
  · rename_i here
    obtain ⟨_, taken⟩ := Option.ite_none_right_eq_some.mp taken
    obtain rfl := Option.some.inj taken
    rw [Served, here] at h
    change Served files₀ uploads (child.request got)
    unfold Child.request
    split
    · exact served_ended List.not_mem_nil
    · exact h
  · rename_i here
    obtain ⟨_, taken⟩ := Option.ite_none_right_eq_some.mp taken
    obtain rfl := Option.some.inj taken
    rw [Served, here] at h
    change Served files₀ uploads (child.confirm got)
    unfold Child.confirm
    split
    · split
      · trivial
      · split
        · exact h
        · exact served_ended List.not_mem_nil
    · exact served_ended List.not_mem_nil
  · obtain ⟨_, taken⟩ := Option.ite_none_right_eq_some.mp taken
    obtain rfl := Option.some.inj taken
    change Served files₀ uploads (child.recv got)
    unfold Child.recv
    split
    · exact served_ended (by simp)
    · trivial
  · cases taken

private theorem take_next (content : List Byte) (offset size : ℕ) :
    content.take offset ++ (content.drop offset).take size =
      content.take (offset + ((content.drop offset).take size).length) := by
  rw [List.take_add, List.length_take, List.append_cancel_left_eq, List.take_eq_take_iff]
  omega

private theorem served_step (h : Served files₀ uploads child)
    (same : Quiet uploads child.fileName → files child.fileName = files₀ child.fileName)
    (taken : Child.step (child, files) x = some m) : Served files₀ uploads m.1 := by
  cases x with
  | recv got => exact served_recv h taken
  | answer response k =>
    obtain ⟨here, taken⟩ := Option.ite_none_right_eq_some.mp taken
    obtain rfl := Option.some.inj taken
    dsimp only at here
    rw [Served, here] at h
    change Served files₀ uploads (child.answer response k)
    unfold Child.answer
    split
    · exact ⟨k, by rw [h, List.nil_append]⟩
    · exact served_ended List.not_mem_nil
  | create ok =>
    obtain ⟨_, taken⟩ := Option.ite_none_right_eq_some.mp taken
    obtain rfl := Option.some.inj taken
    cases ok with
    | false => exact served_ended List.not_mem_nil
    | true => trivial
  | write k =>
    obtain ⟨_, taken⟩ := Option.ite_none_right_eq_some.mp taken
    obtain rfl := Option.some.inj taken
    dsimp only [Child.write]
    split
    · trivial
    · exact served_ended List.not_mem_nil
  | openFile ok k =>
    obtain ⟨here, taken⟩ := Option.ite_none_right_eq_some.mp taken
    obtain rfl := Option.some.inj taken
    dsimp only at here
    rw [Served, here] at h
    change Served files₀ uploads (child.openFile files ok k)
    unfold Child.openFile
    split
    · rename_i open_yet
      intro quiet
      obtain ⟨content, there⟩ := Option.isSome_iff_exists.mp open_yet.2
      obtain ⟨k, wire⟩ := h
      exact ⟨k, content, (same quiet).symm.trans there, wire.trans (List.append_nil _).symm⟩
    · exact served_ended (by simp)
  | read =>
    obtain ⟨here, taken⟩ := Option.ite_none_right_eq_some.mp taken
    obtain rfl := Option.some.inj taken
    dsimp only at here
    rw [Served, here] at h
    change Served files₀ uploads (child.read files)
    unfold Child.read
    dsimp only
    split
    · rename_i nothing
      intro _ quiet
      obtain ⟨k, content, there, wire⟩ := h quiet
      rw [same quiet, there, Option.getD_some, List.take_eq_nil_iff] at nothing
      have past : content.length ≤ child.offset :=
        List.drop_eq_nil_iff.mp (nothing.resolve_left (by decide))
      refine ⟨k, content, there, ?_⟩
      rw [id, ← List.take_of_length_le past]
      exact wire
    · intro quiet
      obtain ⟨k, content, there, wire⟩ := h quiet
      refine ⟨k, content, there, ?_⟩
      rw [same quiet, there, Option.getD_some]
      rw [wire, List.append_assoc]
      exact congrArg (OK.take k ++ ·) (take_next content child.offset BUFFER_SIZE)
  | send k =>
    obtain ⟨here, taken⟩ := Option.ite_none_right_eq_some.mp taken
    obtain rfl := Option.some.inj taken
    dsimp only at here
    rw [Served, here] at h
    change Served files₀ uploads (child.send k)
    unfold Child.send
    dsimp only
    split
    · rename_i whole
      intro quiet
      have all : child.buffer.take k = child.buffer := by
        rw [List.length_take] at whole
        exact List.take_of_length_le (by omega)
      rw [all]
      exact h quiet
    · exact served_ended List.not_mem_nil

end Served

section System

variable {files₀ : Files} {s : State}

structure Serving (files₀ : Files) (s : State) : Prop where
  kept : Kept files₀ s
  served : ∀ c child, s.children c = some child → Served files₀ s.uploads child

private theorem serving_step (s : State) (a : Action) (t : State) (h : Serving files₀ s)
    (taken : step s a = some t) : Serving files₀ t := by
  refine ⟨kept_step s a t h.kept taken, ?_⟩
  cases a with
  | accept c stack =>
    obtain ⟨_, taken⟩ := Option.ite_none_right_eq_some.mp taken
    obtain rfl := Option.some.inj taken
    have own : Served files₀ s.uploads (forked stack) := rfl
    exact forall_after (P := fun _ => Served files₀ s.uploads) own
      fun d child _ there => h.served d child there
  | fails =>
    obtain ⟨_, taken⟩ := Option.ite_none_right_eq_some.mp taken
    obtain rfl := Option.some.inj taken
    exact h.served
  | call c x =>
    obtain ⟨child, here, called⟩ := Option.bind_eq_some_iff.mp taken
    obtain ⟨m, moved, rfl⟩ := Option.map_eq_some_iff.mp called
    have grown : s.uploads ⊆
        if x = .create true then s.uploads ++ [(c, child.fileName)] else s.uploads := by
      split
      · exact List.subset_append_left _ _
      · exact List.Subset.refl _
    have own := served_step (h.served c child here) (h.kept.untouched child.fileName) moved
    exact forall_after (P := fun _ => Served files₀ _) (served_more own grown)
      fun d writer _ there => served_more (h.served d writer there) grown

private theorem serving_init (files₀ : Files) : Serving files₀ (init files₀) :=
  ⟨kept_init files₀, fun _ _ here => by cases here⟩

end System

/-- A child that has finished sending has sent the file whole, behind what was taken of the first
reply, whatever was received meanwhile under other names. -/
theorem downloads_are_whole (files₀ : Files) {s : State} (run : Reach step (init files₀) s)
    {c : ℕ} {child : Child} (here : s.children c = some child)
    (finished : child.point = .ended .returned [.finishedSending])
    (quiet : ∀ d, (d, child.fileName) ∉ s.uploads) :
    ∃ k content, files₀ child.fileName = some content ∧
      s.files child.fileName = some content ∧ child.wire = OK.take k ++ content := by
  have serving : Serving files₀ s :=
    invariant_of_step_reach serving_step (serving_init files₀) run
  have served := serving.served c child here
  rw [Served, finished] at served
  obtain ⟨k, content, there, wire⟩ := served List.mem_cons_self quiet
  exact ⟨k, content, there, (serving.kept.untouched _ quiet).trans there, wire⟩

def oneFile : Files := fun f => if f = lit ['f'] then some (lit ['h', 'i']) else none

def bothWays : List Action :=
  [.accept 0 ([], []), .call 0 (.recv (RECV ++ lit [' ', 'f'])), .call 0 (.answer 121 3),
    .call 0 (.recv OK), .call 0 (.openFile true 0), .accept 1 ([], []),
    .call 1 (.recv (SEND ++ lit [' ', 'g'])), .call 1 (.answer 121 3), .call 1 (.recv OK),
    .call 1 (.create true), .call 0 .read, .call 0 (.send 2), .call 0 .read]

theorem file_sent_whole : ∃ s child, Reach step (init oneFile) s ∧ s.children 0 = some child ∧
    child.point = .ended .returned [.finishedSending] ∧ s.uploads ≠ [] ∧
    ∃ k content, oneFile child.fileName = some content ∧
      s.files child.fileName = some content ∧ child.wire = OK.take k ++ content := by
  have sent : (exec step (init oneFile) bothWays).bind (fun s => (s.children 0).map fun child =>
      (child.point, child.fileName, s.uploads)) =
      some (.ended .returned [.finishedSending], lit ['f'], [(1, lit ['g'])]) := by
    decide +kernel
  obtain ⟨s, taken, child, here, holds⟩ :
      ∃ s, exec step (init oneFile) bothWays = some s ∧ ∃ child, s.children 0 = some child ∧
        (child.point, child.fileName, s.uploads) =
          (.ended .returned [.finishedSending], lit ['f'], [(1, lit ['g'])]) := by
    obtain ⟨s, taken, found⟩ := Option.bind_eq_some_iff.mp sent
    exact ⟨s, taken, Option.map_eq_some_iff.mp found⟩
  simp only [Prod.mk.injEq] at holds
  obtain ⟨finished, name, uploads⟩ := holds
  have quiet : ∀ d, (d, child.fileName) ∉ s.uploads := by
    intro d
    rw [name, uploads]
    simp [lit]
  refine ⟨s, child, ⟨_, taken⟩, here, finished, ?_,
    downloads_are_whole _ ⟨_, taken⟩ here finished quiet⟩
  rw [uploads]
  exact List.cons_ne_nil _ _

end SocketChat.TestCode.FileTransfer.Downloads
