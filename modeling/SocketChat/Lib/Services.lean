/- SocketChat/Lib/Services
   digest: Systems that serve many clients, each as a handler would that has only that one. -/

import SocketChat.Lib.Transducer

set_option autoImplicit false
set_option relaxedAutoImplicit false

namespace SocketChat.Lib.Services

open SocketChat.Lib.Runs
open SocketChat.Lib.Transducer

universe u v w x y

variable {P : Type u} {K : Type v} {B : Type w} {handle : P → K → Option (P × List B)} {start : P}
  {C : Type x}

/-- A system in which every step takes each client through calls of its own, some or none, from
where its handler stands to where it then stands, and appends what they put out. -/
structure Service (handle : P → K → Option (P × List B)) (start : P) (C : Type x) where
  State : Type y
  Action : Type y
  init : State
  step : State → Action → Option State
  calls : C → Action → List K
  point : State → C → P
  output : State → C → List B
  Good : State → Prop
  good : Good init
  unserved : ∀ c, point init c = start ∧ output init c = []
  serves : ∀ c s a t, Good s → step s a = some t → Good t ∧
    ∃ out, run handle (point s c) (calls c a) = some (point t c, out) ∧
      output t c = output s c ++ out

namespace Service

def callsOf (S : Service.{u, v, w, x, y} handle start C) (c : C) (as : List S.Action) : List K :=
  as.flatMap (S.calls c)

/-- A client is where the handler would be that had taken its calls alone, and has been sent what
that would have put out. -/
theorem alone (S : Service.{u, v, w, x, y} handle start C) {as : List S.Action} {s : S.State}
    (taken : exec S.step S.init as = some s) (c : C) :
    run handle start (S.callsOf c as) = some (S.point s c, S.output s c) := by
  obtain ⟨begins, nothing⟩ := S.unserved c
  obtain ⟨out, served, all⟩ := run_of_steps (fun s => S.point s c) (fun s => S.output s c)
    (S.calls c) (S.serves c) S.good taken
  rw [nothing, List.nil_append] at all
  rw [begins, ← all] at served
  exact served

/-- So two systems do the same for a client that calls on them in the same way, whatever the other
clients of each may do. -/
theorem agree (S T : Service.{u, v, w, x, y} handle start C) {as : List S.Action} {s : S.State}
    {bs : List T.Action} {t : T.State} (taken : exec S.step S.init as = some s)
    (taken' : exec T.step T.init bs = some t) {c : C}
    (same : S.callsOf c as = T.callsOf c bs) :
    S.point s c = T.point t c ∧ S.output s c = T.output t c := by
  have first := S.alone taken c
  rw [same, T.alone taken' c] at first
  obtain ⟨point, output⟩ := Prod.mk.inj (Option.some.inj first)
  exact ⟨point.symm, output.symm⟩

end Service

end SocketChat.Lib.Services
