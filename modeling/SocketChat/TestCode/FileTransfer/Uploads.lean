/- SocketChat/TestCode/FileTransfer/Uploads
   digest: What the files hold while any number of children receive and send at the same time. -/

import SocketChat.TestCode.FileTransfer.Children

set_option autoImplicit false
set_option relaxedAutoImplicit false

namespace SocketChat.TestCode.FileTransfer.Uploads

open SocketChat.Lib.CString
open SocketChat.Lib.Directory
open SocketChat.Lib.Patch
open SocketChat.Lib.Runs
open Model
open Children

def Point.storing : Point → Bool
  | .recv => true
  | .write => true
  | _ => false

def Fits (uploads : List (ℕ × List Byte)) (c : ℕ) (child : Child) : Prop :=
  match child.point with
  | .recv => (c, child.fileName) ∈ uploads ∧ child.offset = child.stored.length ∧
      child.came = child.stored
  | .write => (c, child.fileName) ∈ uploads ∧ child.offset = child.stored.length ∧
      child.came = child.stored ++ child.buffer
  | .ended _ notices => .finishedReceiving ∈ notices → child.came = child.stored
  | _ => child.stored = [] ∧ child.came = [] ∧ ∀ f, (c, f) ∉ uploads

def Writing (s : State) (f : List Byte) (stream : List Byte) : Prop :=
  ∃ c child, (c, f) ∈ s.uploads ∧ s.children c = some child ∧ child.stored = stream

/-- A child stands where it should, has opened no file but its own, and where it is the only one to
do so, the file holds what it has written. -/
structure Sound (files : Files) (uploads : List (ℕ × List Byte)) (c : ℕ) (child : Child) :
    Prop where
  fits : Fits uploads c child
  name : ∀ f, (c, f) ∈ uploads → f = child.fileName
  sole : ∀ f, (c, f) ∈ uploads → (∀ d, (d, f) ∈ uploads → d = c) → files f = some child.stored

structure Kept (files₀ : Files) (s : State) : Prop where
  sound : ∀ c child, s.children c = some child → Sound s.files s.uploads c child
  known : ∀ c f, (c, f) ∈ s.uploads → s.children c ≠ none
  untouched : ∀ f, (∀ c, (c, f) ∉ s.uploads) → s.files f = files₀ f
  traced : ∀ f c, (c, f) ∈ s.uploads →
    ∃ content, s.files f = some content ∧ Traced 0 content (Writing s f)

section Child

variable {uploads : List (ℕ × List Byte)} {c : ℕ} {child : Child} {files : Files} {x : Call}
  {m : Child × Files}

private theorem fits_fresh (calm : Point.storing child.point = false)
    (stored : child.stored = []) (came : child.came = []) (fresh : ∀ f, (c, f) ∉ uploads) :
    Fits uploads c child := by
  unfold Fits
  split
  · rename_i here
    rw [here] at calm
    cases calm
  · rename_i here
    rw [here] at calm
    cases calm
  · intro _
    rw [stored, came]
  · exact ⟨stored, came, fresh⟩

private theorem fits_ended {ending : Ending} {notices : List Notice}
    (other : .finishedReceiving ∉ notices) : Fits uploads c (child.ends ending notices) :=
  fun finished => absurd finished other

private theorem fits_recv (h : Fits uploads c child) {got : List Byte}
    (taken : Child.step (child, files) (.recv got) = some m) : Fits uploads c m.1 := by
  rw [Child.step] at taken
  split at taken
  · rename_i here
    obtain ⟨_, taken⟩ := Option.ite_none_right_eq_some.mp taken
    obtain rfl := Option.some.inj taken
    rw [Fits, here] at h
    change Fits uploads c (child.request got)
    unfold Child.request
    split
    · exact fits_ended List.not_mem_nil
    · exact fits_fresh rfl h.1 h.2.1 h.2.2
  · rename_i here
    obtain ⟨_, taken⟩ := Option.ite_none_right_eq_some.mp taken
    obtain rfl := Option.some.inj taken
    rw [Fits, here] at h
    change Fits uploads c (child.confirm got)
    unfold Child.confirm
    split
    · split
      · exact fits_fresh rfl h.1 h.2.1 h.2.2
      · split
        · exact fits_fresh rfl h.1 h.2.1 h.2.2
        · exact fits_ended List.not_mem_nil
    · exact fits_ended List.not_mem_nil
  · rename_i here
    obtain ⟨_, taken⟩ := Option.ite_none_right_eq_some.mp taken
    obtain rfl := Option.some.inj taken
    rw [Fits, here] at h
    change Fits uploads c (child.recv got)
    unfold Child.recv
    split
    · exact fun _ => h.2.2
    · exact ⟨h.1, h.2.1, congrArg (· ++ got) h.2.2⟩
  · cases taken

private theorem fits_write (h : Fits uploads c child) {k : ℕ}
    (taken : Child.step (child, files) (.write k) = some m) : Fits uploads c m.1 := by
  obtain ⟨here, taken⟩ := Option.ite_none_right_eq_some.mp taken
  obtain rfl := Option.some.inj taken
  dsimp only at here
  rw [Fits, here] at h
  obtain ⟨mine, offset, came⟩ := h
  dsimp only [Child.write]
  split
  · rename_i whole
    have all : child.buffer.take k = child.buffer := by
      rw [List.length_take] at whole
      exact List.take_of_length_le (by omega)
    refine ⟨mine, ?_, ?_⟩
    · rw [offset, List.length_append]
    · rw [all, came]
  · exact fits_ended List.not_mem_nil

private theorem fits_step (h : Fits uploads c child)
    (taken : Child.step (child, files) x = some m) :
    Fits (if x = .create true then uploads ++ [(c, child.fileName)] else uploads) c m.1 := by
  cases x with
  | recv got => exact fits_recv h taken
  | write k => exact fits_write h taken
  | answer response k =>
    obtain ⟨here, taken⟩ := Option.ite_none_right_eq_some.mp taken
    obtain rfl := Option.some.inj taken
    dsimp only at here
    rw [Fits, here] at h
    change Fits uploads c (child.answer response k)
    unfold Child.answer
    split
    · exact fits_fresh rfl h.1 h.2.1 h.2.2
    · exact fits_ended List.not_mem_nil
  | create ok =>
    obtain ⟨here, taken⟩ := Option.ite_none_right_eq_some.mp taken
    obtain rfl := Option.some.inj taken
    dsimp only at here
    rw [Fits, here] at h
    cases ok with
    | false => exact fits_ended List.not_mem_nil
    | true =>
      refine ⟨?_, ?_, ?_⟩
      · rw [if_pos rfl]
        exact List.mem_append_right _ List.mem_cons_self
      · change 0 = child.stored.length
        rw [h.1]
        rfl
      · exact h.2.1.trans h.1.symm
  | openFile ok k =>
    obtain ⟨here, taken⟩ := Option.ite_none_right_eq_some.mp taken
    obtain rfl := Option.some.inj taken
    dsimp only at here
    rw [Fits, here] at h
    change Fits uploads c (child.openFile files ok k)
    unfold Child.openFile
    split
    · exact fits_fresh rfl h.1 h.2.1 h.2.2
    · exact fits_ended (by simp)
  | read =>
    obtain ⟨here, taken⟩ := Option.ite_none_right_eq_some.mp taken
    obtain rfl := Option.some.inj taken
    dsimp only at here
    rw [Fits, here] at h
    change Fits uploads c (child.read files)
    unfold Child.read
    dsimp only
    split
    · exact fits_ended (by simp)
    · exact fits_fresh rfl h.1 h.2.1 h.2.2
  | send k =>
    obtain ⟨here, taken⟩ := Option.ite_none_right_eq_some.mp taken
    obtain rfl := Option.some.inj taken
    dsimp only at here
    rw [Fits, here] at h
    change Fits uploads c (child.send k)
    unfold Child.send
    dsimp only
    split
    · exact fits_fresh rfl h.1 h.2.1 h.2.2
    · exact fits_ended List.not_mem_nil

def Same (child child' : Child) : Prop :=
  child'.fileName = child.fileName ∧ child'.stored = child.stored

private theorem same_confirm (child : Child) (got : List Byte) :
    Same child (child.confirm got) := by
  unfold Child.confirm
  split
  · split
    · exact ⟨rfl, rfl⟩
    · split <;> exact ⟨rfl, rfl⟩
  · exact ⟨rfl, rfl⟩

private theorem same_recv (child : Child) (got : List Byte) : Same child (child.recv got) := by
  unfold Child.recv
  split <;> exact ⟨rfl, rfl⟩

private theorem same_answer (child : Child) (response : Byte) (taken : ℕ) :
    Same child (child.answer response taken) := by
  unfold Child.answer
  split <;> exact ⟨rfl, rfl⟩

private theorem same_openFile (child : Child) (files : Files) (ok : Bool) (taken : ℕ) :
    Same child (child.openFile files ok taken) := by
  unfold Child.openFile
  split <;> exact ⟨rfl, rfl⟩

private theorem same_read (child : Child) (files : Files) : Same child (child.read files) := by
  unfold Child.read
  dsimp only
  split <;> exact ⟨rfl, rfl⟩

private theorem same_send (child : Child) (taken : ℕ) : Same child (child.send taken) := by
  unfold Child.send
  dsimp only
  split <;> exact ⟨rfl, rfl⟩

inductive Effect (child : Child) (files : Files) : Call → Child × Files → Prop
  | asked (child' : Child) (got : List Byte) (here : child.point = .request)
      (stored : child'.stored = child.stored) : Effect child files (.recv got) (child', files)
  | quiet (x : Call) (child' : Child) (no_create : x ≠ .create true) (same : Same child child') :
      Effect child files x (child', files)
  | created (here : child.point = .create) :
      Effect child files (.create true)
        ({ child with point := .recv, offset := 0 }, files.create child.fileName)
  | wrote (k : ℕ) (child' : Child) (here : child.point = .write)
      (name : child'.fileName = child.fileName)
      (stored : child'.stored = child.stored ++ child.buffer.take k) :
      Effect child files (.write k) (child', Function.update files child.fileName
        (some (patch 0 ((files child.fileName).getD []) child.offset (child.buffer.take k))))

private theorem effect_of_step (taken : Child.step (child, files) x = some m) :
    Effect child files x m := by
  cases x with
  | recv got =>
    rw [Child.step] at taken
    split at taken
    · rename_i here
      obtain ⟨_, taken⟩ := Option.ite_none_right_eq_some.mp taken
      obtain rfl := Option.some.inj taken
      refine .asked _ got here ?_
      unfold Child.request
      split <;> rfl
    · obtain ⟨_, taken⟩ := Option.ite_none_right_eq_some.mp taken
      obtain rfl := Option.some.inj taken
      exact .quiet _ _ Call.noConfusion (same_confirm child got)
    · obtain ⟨_, taken⟩ := Option.ite_none_right_eq_some.mp taken
      obtain rfl := Option.some.inj taken
      exact .quiet _ _ Call.noConfusion (same_recv child got)
    · cases taken
  | answer response k =>
    obtain ⟨_, taken⟩ := Option.ite_none_right_eq_some.mp taken
    obtain rfl := Option.some.inj taken
    exact .quiet _ _ Call.noConfusion (same_answer child response k)
  | create ok =>
    obtain ⟨here, taken⟩ := Option.ite_none_right_eq_some.mp taken
    obtain rfl := Option.some.inj taken
    cases ok with
    | false => exact .quiet _ _ (by simp) ⟨rfl, rfl⟩
    | true => exact .created here
  | write k =>
    obtain ⟨here, taken⟩ := Option.ite_none_right_eq_some.mp taken
    obtain rfl := Option.some.inj taken
    refine .wrote k _ here ?_ ?_
    · dsimp only
      split <;> rfl
    · dsimp only
      split <;> rfl
  | openFile ok k =>
    obtain ⟨_, taken⟩ := Option.ite_none_right_eq_some.mp taken
    obtain rfl := Option.some.inj taken
    exact .quiet _ _ Call.noConfusion (same_openFile child files ok k)
  | read =>
    obtain ⟨_, taken⟩ := Option.ite_none_right_eq_some.mp taken
    obtain rfl := Option.some.inj taken
    exact .quiet _ _ Call.noConfusion (same_read child files)
  | send k =>
    obtain ⟨_, taken⟩ := Option.ite_none_right_eq_some.mp taken
    obtain rfl := Option.some.inj taken
    exact .quiet _ _ Call.noConfusion (same_send child k)

end Child

section System

variable {files₀ : Files} {s t : State} {c : ℕ} {child : Child}

theorem kept_init (files₀ : Files) : Kept files₀ (init files₀) where
  sound := fun c child here => by cases here
  known := fun c f opened => by cases opened
  untouched := fun f _ => rfl
  traced := fun f c opened => by cases opened

def after (s : State) (c : ℕ) (child' : Child) (files : Files)
    (uploads : List (ℕ × List Byte)) : State where
  listening := s.listening
  children := Function.update s.children c (some child')
  files := files
  uploads := uploads

variable {child' : Child} {files : Files} {uploads : List (ℕ × List Byte)}

private theorem children_after_self :
    (after s c child' files uploads).children c = some child' := Function.update_self ..

private theorem children_after_of_ne {d : ℕ} (other : d ≠ c) :
    (after s c child' files uploads).children d = s.children d := Function.update_of_ne other ..

private theorem writing_after (child' : Child) (files : Files) (here : s.children c = some child)
    (longer : ∃ tail, child'.stored = child.stored ++ tail) (more : s.uploads ⊆ uploads)
    {f stream : List Byte} (writing : Writing s f stream) :
    ∃ tail, Writing (after s c child' files uploads) f (stream ++ tail) := by
  obtain ⟨d, writer, opened, there, rfl⟩ := writing
  by_cases same : d = c
  · subst same
    obtain rfl := Option.some.inj (here.symm.trans there)
    obtain ⟨tail, stored⟩ := longer
    exact ⟨tail, d, child', more opened, children_after_self, stored⟩
  · refine ⟨[], d, writer, more opened, ?_, (List.append_nil _).symm⟩
    exact (children_after_of_ne same).trans there

theorem forall_after {P : ℕ → Child → Prop} (own : P c child')
    (others : ∀ d writer, d ≠ c → s.children d = some writer → P d writer)
    (d : ℕ) (writer : Child) (there : (after s c child' files uploads).children d = some writer) :
    P d writer := by
  by_cases same : d = c
  · subst same
    obtain rfl := Option.some.inj (children_after_self.symm.trans there)
    exact own
  · exact others d writer same ((children_after_of_ne same).symm.trans there)

private theorem sound_after (own : Sound files uploads c child')
    (others : ∀ d writer, d ≠ c → s.children d = some writer → Sound files uploads d writer)
    (d : ℕ) (writer : Child) (there : (after s c child' files uploads).children d = some writer) :
    Sound files uploads d writer :=
  forall_after (P := Sound files uploads) own others d writer there

private theorem known_after (h : Kept files₀ s) (d : ℕ) {f : List Byte}
    (opened : (d, f) ∈ s.uploads ∨ d = c) :
    (after s c child' files uploads).children d ≠ none := by
  by_cases same : d = c
  · rw [same, children_after_self]
    exact Option.some_ne_none child'
  · rw [children_after_of_ne same]
    exact h.known d f (opened.resolve_right same)

private theorem kept_quiet (h : Kept files₀ s) (here : s.children c = some child)
    (fits : Fits s.uploads c child') (name : ∀ f, (c, f) ∈ s.uploads → f = child'.fileName)
    (stored : child'.stored = child.stored) :
    Kept files₀ (after s c child' s.files s.uploads) where
  sound := by
    refine sound_after ⟨fits, name, fun f opened only => ?_⟩ fun d writer _ there =>
      h.sound d writer there
    rw [stored]
    exact (h.sound c child here).sole f opened only
  known := fun d f opened => known_after h d (.inl opened)
  untouched := h.untouched
  traced := by
    intro f d opened
    obtain ⟨content, there, traced⟩ := h.traced f d opened
    refine ⟨content, there, traced.mono fun stream => ?_⟩
    exact writing_after child' _ here ⟨[], stored.trans (List.append_nil _).symm⟩ (fun _ => id)

private theorem fits_other {d : ℕ} {writer : Child} (h : Fits uploads d writer) (other : d ≠ c)
    (f : List Byte) : Fits (uploads ++ [(c, f)]) d writer := by
  have fresh : ∀ g, (d, g) ∈ uploads ++ [(c, f)] → (d, g) ∈ uploads := by
    intro g opened
    refine (List.mem_append.mp opened).resolve_right fun new => other ?_
    exact congrArg Prod.fst (List.mem_singleton.mp new)
  unfold Fits at h ⊢
  split
  · rename_i here
    rw [here] at h
    exact ⟨List.mem_append_left _ h.1, h.2⟩
  · rename_i here
    rw [here] at h
    exact ⟨List.mem_append_left _ h.1, h.2⟩
  · rename_i here
    rw [here] at h
    exact h
  · rename_i no_recv no_write no_end
    split at h
    · exact (no_recv ‹_›).elim
    · exact (no_write ‹_›).elim
    · exact (no_end _ _ ‹_›).elim
    · exact ⟨h.1, h.2.1, fun g opened => h.2.2 g (fresh g opened)⟩

private theorem kept_created (h : Kept files₀ s) (here : s.children c = some child)
    (point : child.point = .create) :
    Kept files₀ (after s c { child with point := .recv, offset := 0 }
      (s.files.create child.fileName) (s.uploads ++ [(c, child.fileName)])) := by
  have before := h.sound c child here
  have fits := before.fits
  rw [Fits, point] at fits
  obtain ⟨stored, came, fresh⟩ := fits
  have others : ∀ f, f ≠ child.fileName → ∀ d, (d, f) ∈ s.uploads ++ [(c, child.fileName)] →
      (d, f) ∈ s.uploads := by
    intro f different d opened
    refine (List.mem_append.mp opened).resolve_right fun new => different ?_
    exact congrArg Prod.snd (List.mem_singleton.mp new)
  have mine : (c, child.fileName) ∈ s.uploads ++ [(c, child.fileName)] :=
    List.mem_append_right _ List.mem_cons_self
  have old : s.uploads ⊆ s.uploads ++ [(c, child.fileName)] := List.subset_append_left _ _
  have own : ∀ f, (c, f) ∈ s.uploads ++ [(c, child.fileName)] → f = child.fileName := by
    intro f opened
    by_contra different
    exact fresh f (others f different c opened)
  have kept : ∀ f, f ≠ child.fileName → s.files.create child.fileName f = s.files f :=
    fun f different => Function.update_of_ne different ..
  constructor
  · refine sound_after ⟨⟨mine, ?_, ?_⟩, own, ?_⟩ fun d writer other there => ?_
    · rw [stored]
      rfl
    · exact came.trans stored.symm
    · intro f opened _
      rw [own f opened, create_same, stored]
    · have sound := h.sound d writer there
      have opened_before : ∀ f, (d, f) ∈ s.uploads ++ [(c, child.fileName)] →
          (d, f) ∈ s.uploads := by
        intro f opened
        refine (List.mem_append.mp opened).resolve_right fun new => other ?_
        exact congrArg Prod.fst (List.mem_singleton.mp new)
      refine ⟨fits_other sound.fits other _, ?_, ?_⟩
      · exact fun f opened => sound.name f (opened_before f opened)
      · intro f opened only
        have different : f ≠ child.fileName := by
          rintro rfl
          exact other (only c mine).symm
        rw [kept f different]
        exact sound.sole f (opened_before f opened) fun e opened => only e (old opened)
  · intro d f opened
    refine known_after h d (f := f) ?_
    rcases List.mem_append.mp opened with before | new
    · exact .inl before
    · exact .inr (congrArg Prod.fst (List.mem_singleton.mp new))
  · intro f nobody
    have different : f ≠ child.fileName := by
      rintro rfl
      exact nobody c mine
    exact (kept f different).trans (h.untouched f fun d opened => nobody d (old opened))
  · intro f d opened
    by_cases same : f = child.fileName
    · subst same
      exact ⟨[], create_same .., traced_nil 0 _⟩
    · obtain ⟨content, there, traced⟩ := h.traced f d (others f same d opened)
      refine ⟨content, (kept f same).trans there, traced.mono fun stream => ?_⟩
      exact writing_after { child with point := .recv, offset := 0 } _ here
        ⟨[], (List.append_nil _).symm⟩ old

private theorem kept_wrote (h : Kept files₀ s) (here : s.children c = some child)
    (point : child.point = .write) {k : ℕ} (fits : Fits s.uploads c child')
    (name : child'.fileName = child.fileName)
    (stored : child'.stored = child.stored ++ child.buffer.take k) :
    Kept files₀ (after s c child' (Function.update s.files child.fileName
      (some (patch 0 ((s.files child.fileName).getD []) child.offset (child.buffer.take k))))
      s.uploads) := by
  have before := h.sound c child here
  have opened := before.fits
  rw [Fits, point] at opened
  obtain ⟨mine, offset, _⟩ := opened
  have kept : ∀ f bytes, f ≠ child.fileName →
      Function.update s.files child.fileName (some bytes) f = s.files f :=
    fun f bytes different => Function.update_of_ne different ..
  constructor
  · refine sound_after ⟨fits, ?_, ?_⟩ fun d writer other there => ?_
    · exact fun f opened => (before.name f opened).trans name.symm
    · intro f opened only
      obtain rfl := before.name f opened
      rw [Function.update_self, before.sole _ opened only, Option.getD_some, offset, patch_end,
        stored]
    · have sound := h.sound d writer there
      refine ⟨sound.fits, sound.name, fun f opened only => ?_⟩
      have different : f ≠ child.fileName := by
        rintro rfl
        exact other (only c mine).symm
      rw [kept f _ different]
      exact sound.sole f opened only
  · exact fun d f opened => known_after h d (.inl opened)
  · intro f nobody
    have different : f ≠ child.fileName := by
      rintro rfl
      exact nobody c mine
    exact (kept f _ different).trans (h.untouched f nobody)
  · intro f d opened
    obtain ⟨content, there, traced⟩ := h.traced f d opened
    have grown := traced.mono fun stream => writing_after child'
      (Function.update s.files child.fileName
        (some (patch 0 ((s.files child.fileName).getD []) child.offset (child.buffer.take k))))
      here ⟨_, stored⟩ (List.Subset.refl s.uploads)
    by_cases same : f = child.fileName
    · subst same
      refine ⟨_, Function.update_self .., ?_⟩
      rw [there, Option.getD_some, offset]
      rw [there, Option.getD_some, offset] at grown
      exact grown.patch ⟨c, child', mine, children_after_self, stored⟩
    · exact ⟨content, (kept f _ same).trans there, grown⟩

private theorem kept_accept (h : Kept files₀ s) (fresh : s.children c = none)
    (stack : List Byte × List Byte) :
    Kept files₀ (after s c (forked stack) s.files s.uploads) := by
  have unopened : ∀ f, (c, f) ∉ s.uploads := fun f opened => h.known c f opened fresh
  constructor
  · refine sound_after ⟨fits_fresh rfl rfl rfl unopened, ?_, ?_⟩ fun d writer _ there =>
      h.sound d writer there
    · exact fun f opened => absurd opened (unopened f)
    · exact fun f opened => absurd opened (unopened f)
  · exact fun d f opened => known_after h d (.inl opened)
  · exact h.untouched
  · intro f d opened
    obtain ⟨content, there, traced⟩ := h.traced f d opened
    refine ⟨content, there, traced.mono ?_⟩
    rintro stream ⟨e, writer, by_e, held, stored⟩
    have other : e ≠ c := by
      rintro rfl
      exact unopened f by_e
    refine ⟨[], e, writer, by_e, (children_after_of_ne other).trans held, ?_⟩
    rw [stored, List.append_nil]

private theorem kept_call (h : Kept files₀ s) (here : s.children c = some child) {x : Call}
    {m : Child × Files} (taken : Child.step (child, s.files) x = some m) :
    Kept files₀ (after s c m.1 m.2
      (if x = .create true then s.uploads ++ [(c, child.fileName)] else s.uploads)) := by
  have before := h.sound c child here
  have fits := fits_step before.fits taken
  cases effect_of_step taken with
  | asked child' got point stored =>
    have fresh := before.fits
    rw [Fits, point] at fresh
    exact kept_quiet h here fits (fun f opened => absurd opened (fresh.2.2 f)) stored
  | quiet x child' no_create same =>
    rw [if_neg no_create] at fits ⊢
    refine kept_quiet h here fits (fun f opened => ?_) same.2
    rw [same.1]
    exact before.name f opened
  | created point => exact kept_created h here point
  | wrote k child' point name stored => exact kept_wrote h here point fits name stored

theorem kept_step (s : State) (a : Action) (t : State) (h : Kept files₀ s)
    (taken : step s a = some t) : Kept files₀ t := by
  cases a with
  | accept c stack =>
    obtain ⟨⟨_, fresh⟩, taken⟩ := Option.ite_none_right_eq_some.mp taken
    obtain rfl := Option.some.inj taken
    exact kept_accept h fresh stack
  | fails =>
    obtain ⟨_, taken⟩ := Option.ite_none_right_eq_some.mp taken
    obtain rfl := Option.some.inj taken
    exact ⟨h.sound, h.known, h.untouched, h.traced⟩
  | call c x =>
    obtain ⟨child, here, called⟩ := Option.bind_eq_some_iff.mp taken
    obtain ⟨m, moved, rfl⟩ := Option.map_eq_some_iff.mp called
    exact kept_call h here moved

private theorem kept_run (run : Reach step (init files₀) s) : Kept files₀ s :=
  invariant_of_step_reach kept_step (kept_init files₀) run

end System

/-- Whatever the children do at the same time, a file that none has opened for writing is as it
was; in one that some have, every byte is at its place in what one of them has written, or fills
a hole; and a child that is the only one has all it has received in it at its end. -/
theorem files_hold_what_was_uploaded (files₀ : Files) {s : State}
    (run : Reach step (init files₀) s) (f : List Byte) :
    ((∀ c, (c, f) ∉ s.uploads) → s.files f = files₀ f) ∧
      ∀ c, (c, f) ∈ s.uploads → ∃ child content, s.children c = some child ∧
        child.fileName = f ∧ s.files f = some content ∧ Traced 0 content (Writing s f) ∧
        ((∀ d, (d, f) ∈ s.uploads → d = c) → content = child.stored ∧
          (child.point = .ended .returned [.finishedReceiving] → content = child.came)) := by
  have kept := kept_run run
  refine ⟨kept.untouched f, fun c opened => ?_⟩
  obtain ⟨child, here⟩ := Option.ne_none_iff_exists'.mp (kept.known c f opened)
  obtain ⟨content, there, traced⟩ := kept.traced f c opened
  have sound := kept.sound c child here
  refine ⟨child, content, here, (sound.name f opened).symm, there, traced, fun only => ?_⟩
  have stored : content = child.stored :=
    Option.some.inj (there.symm.trans (sound.sole f opened only))
  refine ⟨stored, fun ended => ?_⟩
  have all := sound.fits
  rw [Fits, ended] at all
  rw [stored, all List.mem_cons_self]

def fileRequest : List Byte := SEND ++ lit [' ', 'f']

/-- The second child empties the file when the first one has written a byte, which goes on behind
where it was. -/
def twoUploads : List Action :=
  let asks c := [.accept c ([], []), .call c (.recv fileRequest), .call c (.answer 121 3),
    .call c (.recv OK), .call c (.create true)]
  asks 0 ++ [.call 0 (.recv (lit ['a'])), .call 0 (.write 1)] ++ asks 1 ++
    [.call 0 (.recv (lit ['b'])), .call 0 (.write 1), .call 0 (.recv [])]

theorem uploads_mixed : ∃ s, Reach step (init fun _ => none) s ∧
    s.files (lit ['f']) = some [0, 98] ∧
    (((∀ c, (c, lit ['f']) ∉ s.uploads) → s.files (lit ['f']) = none) ∧
      ∀ c, (c, lit ['f']) ∈ s.uploads → ∃ child content, s.children c = some child ∧
        child.fileName = lit ['f'] ∧ s.files (lit ['f']) = some content ∧
        Traced 0 content (Writing s (lit ['f'])) ∧
        ((∀ d, (d, lit ['f']) ∈ s.uploads → d = c) → content = child.stored ∧
          (child.point = .ended .returned [.finishedReceiving] → content = child.came))) := by
  have mixed : (exec step (init fun _ => none) twoUploads).map (·.files (lit ['f'])) =
      some (some [0, 98]) := by decide +kernel
  obtain ⟨s, taken, holds⟩ := Option.map_eq_some_iff.mp mixed
  exact ⟨s, ⟨_, taken⟩, holds, files_hold_what_was_uploaded _ ⟨_, taken⟩ _⟩

end SocketChat.TestCode.FileTransfer.Uploads
