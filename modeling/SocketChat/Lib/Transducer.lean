/- SocketChat/Lib/Transducer
   digest: A handler that answers calls one by one, and what it has put out after many. -/

import Mathlib.Data.Option.Basic
import Mathlib.Data.List.Basic
import SocketChat.Lib.Runs

set_option autoImplicit false
set_option relaxedAutoImplicit false

namespace SocketChat.Lib.Transducer

open SocketChat.Lib.Runs

universe u v w x y

variable {P : Type u} {K : Type v} {B : Type w}

/-- Take the calls in order, as long as none is refused, and collect the output. -/
def run (handle : P → K → Option (P × List B)) : P → List K → Option (P × List B)
  | p, [] => some (p, [])
  | p, k :: ks =>
      (handle p k).bind fun next =>
        (run handle next.1 ks).map fun last => (last.1, next.2 ++ last.2)

section Run

variable {handle : P → K → Option (P × List B)} {p q r : P} {k : K} {ks ls : List K}
  {out more : List B}

theorem run_cons_eq_some : run handle p (k :: ks) = some (r, out) ↔
    ∃ q first rest, handle p k = some (q, first) ∧ run handle q ks = some (r, rest) ∧
      first ++ rest = out := by
  simp [run, Option.bind_eq_some_iff, Option.map_eq_some_iff]

theorem run_singleton (taken : handle p k = some (q, out)) :
    run handle p [k] = some (q, out) := by
  rw [run, taken]
  exact congrArg (fun rest => some (q, rest)) (List.append_nil out)

private theorem run_append (first : run handle p ks = some (q, out))
    (second : run handle q ls = some (r, more)) :
    run handle p (ks ++ ls) = some (r, out ++ more) := by
  induction ks generalizing p out with
  | nil =>
    obtain ⟨rfl, rfl⟩ := Prod.mk.inj (Option.some.inj first)
    exact second
  | cons k ks ih =>
    obtain ⟨m, front, rest, taken, further, rfl⟩ := run_cons_eq_some.mp first
    refine run_cons_eq_some.mpr ⟨m, front, rest ++ more, taken, ih further, ?_⟩
    rw [List.append_assoc]

theorem run_split (both : run handle p (ks ++ ls) = some (r, more)) :
    ∃ q first rest, run handle p ks = some (q, first) ∧ run handle q ls = some (r, rest) ∧
      first ++ rest = more := by
  induction ks generalizing p more with
  | nil => exact ⟨p, [], more, rfl, both, rfl⟩
  | cons k ks ih =>
    obtain ⟨m, front, rest, taken, further, rfl⟩ := run_cons_eq_some.mp both
    obtain ⟨q, middle, last, before, after, rfl⟩ := ih further
    refine ⟨q, front ++ middle, last, ?_, after, List.append_assoc ..⟩
    exact run_cons_eq_some.mpr ⟨m, front, middle, taken, before, rfl⟩

/-- A handler whose state shows another one's takes the same calls and puts out the same, where it
does so from every state of an invariant. -/
theorem run_view {Q : Type x} {handle' : Q → K → Option (Q × List B)} {view : P → Q}
    {I : P → Prop}
    (same : ∀ p k, I p →
      (handle p k).map (fun next => (view next.1, next.2)) = handle' (view p) k)
    (keep : ∀ p k q out, I p → handle p k = some (q, out) → I q) (start : I p) (ks : List K) :
    (run handle p ks).map (fun last => (view last.1, last.2)) = run handle' (view p) ks := by
  induction ks generalizing p with
  | nil => rfl
  | cons k ks ih =>
    rw [run, run, ← same p k start]
    cases taken : handle p k with
    | none => rfl
    | some next =>
      have rest := ih (keep p k next.1 next.2 start taken)
      change ((run handle next.1 ks).map fun last => (last.1, next.2 ++ last.2)).map _ =
        (run handle' (view next.1) ks).map fun last => (last.1, next.2 ++ last.2)
      rw [← rest, Option.map_map, Option.map_map]
      rfl

theorem run_invariant {I : P → Prop}
    (keep : ∀ p k q out, I p → k ∈ ks → handle p k = some (q, out) → I q) (start : I p)
    (taken : run handle p ks = some (q, out)) : I q := by
  induction ks generalizing p out with
  | nil =>
    obtain ⟨rfl, _⟩ := Prod.mk.inj (Option.some.inj taken)
    exact start
  | cons k ks ih =>
    obtain ⟨m, front, rest, first, further, _⟩ := run_cons_eq_some.mp taken
    refine ih ?_ (keep p k m front start List.mem_cons_self first) further
    intro p l q out here later
    exact keep p l q out here (List.mem_cons_of_mem k later)

end Run

section System

variable {σ : Type x} {α : Type y} {step : σ → α → Option σ} {handle : P → K → Option (P × List B)}
  {I : σ → Prop} (point : σ → P) (output : σ → List B) (own : α → List K)

/-- A handler within a larger system: where a step makes it take its own calls and nothing else,
a whole run does. -/
theorem run_of_steps
    (keep : ∀ s a t, I s → step s a = some t → I t ∧
      ∃ out, run handle (point s) (own a) = some (point t, out) ∧ output t = output s ++ out)
    {s t : σ} {as : List α} (start : I s) (taken : exec step s as = some t) :
    ∃ out, run handle (point s) (as.flatMap own) = some (point t, out) ∧
      output t = output s ++ out := by
  induction as generalizing s with
  | nil =>
    obtain rfl : s = t := Option.some.inj taken
    exact ⟨[], rfl, (List.append_nil _).symm⟩
  | cons a as ih =>
    obtain ⟨m, first, rest⟩ := exec_cons_eq_some.mp taken
    obtain ⟨further, out, here, put⟩ := keep s a m start first
    obtain ⟨more, later, all⟩ := ih further rest
    refine ⟨out ++ more, run_append here later, ?_⟩
    rw [all, put, List.append_assoc]

end System

end SocketChat.Lib.Transducer
