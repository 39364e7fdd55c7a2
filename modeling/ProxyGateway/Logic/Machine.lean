/-
# ProxyGateway.Logic.Machine — runs of a partial step function, and guarded reachability

A concurrent program is a step function `step : σ → ε → Option σ`: the event says which party moves
and what the environment answers, `none` says that the move is not enabled.  `run` replays a list of
events.  `Reaches step guard s₀` collects the states of all runs whose every step meets `guard`; with
`Always` as the guard these are all runs.

Two rules are all a development needs of it: `Reaches.invariant` (what one step preserves, a whole
run preserves) and `Reaches.of_run` (a replayed trace is a run).
-/
import Mathlib.Data.Option.Basic

namespace ProxyGateway.Logic

universe u v

variable {σ : Type u} {ε : Type v}

/-- Replays a list of events, one step each. -/
def run (step : σ → ε → Option σ) : σ → List ε → Option σ
  | s, [] => some s
  | s, e :: es => (step s e).bind fun s' => run step s' es

/-- A list of events is replayed one part after the other. -/
theorem run_append (step : σ → ε → Option σ) (s : σ) (es es' : List ε) :
    run step s (es ++ es') = (run step s es).bind fun t => run step t es' := by
  induction es generalizing s with
  | nil => rfl
  | cons e es ih =>
    rw [List.cons_append, run, run, Option.bind_assoc]
    congr 1
    funext t
    exact ih t

/-- **`Reaches`** — the states reached from `s₀` by steps that all meet `guard`. -/
inductive Reaches (step : σ → ε → Option σ) (guard : σ → ε → Prop) (s₀ : σ) : σ → Prop
  | init : Reaches step guard s₀ s₀
  | step {s s' : σ} {e : ε} (h : Reaches step guard s₀ s) (hguard : guard s e)
      (hstep : step s e = some s') : Reaches step guard s₀ s'

/-- The guard that every step meets. -/
def Always : σ → ε → Prop := fun _ _ => True

/-- What holds at the start and is kept by every guarded step holds in every state reached. -/
theorem Reaches.invariant {step : σ → ε → Option σ} {guard : σ → ε → Prop} {s₀ s : σ}
    {inv : σ → Prop} (hinit : inv s₀)
    (hpres : ∀ s e s', inv s → guard s e → step s e = some s' → inv s')
    (h : Reaches step guard s₀ s) : inv s := by
  induction h with
  | init => exact hinit
  | step _ hguard hstep ih => exact hpres _ _ _ ih hguard hstep

/-- A weaker guard reaches more. -/
theorem Reaches.mono {step : σ → ε → Option σ} {guard guard' : σ → ε → Prop} {s₀ s : σ}
    (h : Reaches step guard s₀ s) (himp : ∀ s e, guard s e → guard' s e) :
    Reaches step guard' s₀ s := by
  induction h with
  | init => exact .init
  | step _ hguard hstep ih => exact ih.step (himp _ _ hguard) hstep

/-- A replayed trace ends in a reachable state. -/
theorem Reaches.of_run {step : σ → ε → Option σ} {s₀ : σ} {es : List ε} {s s' : σ}
    (h : Reaches step Always s₀ s) (hrun : run step s es = some s') :
    Reaches step Always s₀ s' := by
  induction es generalizing s with
  | nil =>
    obtain rfl : s = s' := by simpa [run] using hrun
    exact h
  | cons e es ih =>
    obtain ⟨t, hstep, hrest⟩ := Option.bind_eq_some_iff.mp hrun
    exact ih (h.step trivial hstep) hrest

/-- Replays a list of events as long as they meet the guard. -/
def runIf (step : σ → ε → Option σ) (guard : σ → ε → Bool) : σ → List ε → Option σ
  | s, [] => some s
  | s, e :: es => if guard s e then (step s e).bind fun s' => runIf step guard s' es else none

/-- A trace that is replayed as long as it meets the guard is replayed without it. -/
theorem run_of_runIf {step : σ → ε → Option σ} {guard : σ → ε → Bool} {s s' : σ} {es : List ε}
    (h : runIf step guard s es = some s') : run step s es = some s' := by
  induction es generalizing s with
  | nil => exact h
  | cons e es ih =>
    rw [runIf] at h
    split at h
    · obtain ⟨t, hstep, hrest⟩ := Option.bind_eq_some_iff.mp h
      rw [run, hstep]
      exact ih hrest
    · nomatch h

/-- A replayed trace that meets the guard ends in a state that guarded steps reach. -/
theorem Reaches.of_runIf {step : σ → ε → Option σ} {guard : σ → ε → Bool} {s₀ : σ} {es : List ε}
    {s s' : σ} (h : Reaches step (fun s e => guard s e = true) s₀ s)
    (hrun : runIf step guard s es = some s') :
    Reaches step (fun s e => guard s e = true) s₀ s' := by
  induction es generalizing s with
  | nil =>
    obtain rfl : s = s' := by simpa [runIf] using hrun
    exact h
  | cons e es ih =>
    rw [runIf] at hrun
    split at hrun
    · next hguard =>
      obtain ⟨t, hstep, hrest⟩ := Option.bind_eq_some_iff.mp hrun
      exact ih (h.step hguard hstep) hrest
    · nomatch hrun

/-- **`Along`** — `P` holds of every step that a list of events takes. -/
def Along (step : σ → ε → Option σ) (P : σ → ε → Prop) : σ → List ε → Prop
  | _, [] => True
  | s, e :: es => P s e ∧ ∀ s', step s e = some s' → Along step P s' es

/-- Two properties of a step that agree in every reachable state hold along the same runs. -/
theorem Along.congr {step : σ → ε → Option σ} {P Q : σ → ε → Prop} {s₀ s s' : σ} {es : List ε}
    (hiff : ∀ s e t, Reaches step Always s₀ s → step s e = some t → (P s e ↔ Q s e))
    (h : Reaches step Always s₀ s) (hrun : run step s es = some s') :
    Along step P s es ↔ Along step Q s es := by
  induction es generalizing s with
  | nil => exact Iff.rfl
  | cons e es ih =>
    obtain ⟨t, hstep, hrest⟩ := Option.bind_eq_some_iff.mp hrun
    refine and_congr (hiff s e t h hstep) (forall_congr' fun u => imp_congr_right fun hu => ?_)
    obtain rfl : t = u := Option.some.inj (hstep.symm.trans hu)
    exact ih (h.step trivial hstep) hrest

/-- Two properties of a step that agree under an invariant, which the first of them keeps, hold along
the same runs. -/
theorem Along.iff_of_invariant {step : σ → ε → Option σ} {P Q : σ → ε → Prop} {inv : σ → Prop}
    (hiff : ∀ s e, inv s → (P s e ↔ Q s e))
    (hnext : ∀ s e s', inv s → P s e → step s e = some s' → inv s') {s : σ} (h : inv s)
    (es : List ε) : Along step P s es ↔ Along step Q s es := by
  induction es generalizing s with
  | nil => exact Iff.rfl
  | cons e es ih =>
    constructor
    · rintro ⟨hp, hrest⟩
      refine ⟨(hiff s e h).mp hp, fun s' hstep => ?_⟩
      exact (ih (hnext s e s' h hp hstep)).mp (hrest s' hstep)
    · rintro ⟨hq, hrest⟩
      have hp := (hiff s e h).mpr hq
      refine ⟨hp, fun s' hstep => ?_⟩
      exact (ih (hnext s e s' h hp hstep)).mpr (hrest s' hstep)

end ProxyGateway.Logic
