import Mathlib.Logic.Basic

/-!
# Runs of a transition system

A system is a partial step function `step : σ → ε → Option σ` together with an
enabling condition `enabled : σ → ε → Prop` on events: the side conditions that the
step function cannot check, such as a choice of the environment that has to be valid.

`run` executes a list of events; `Runs s es s'` says that the events `es` are each
enabled and lead from `s` to `s'`; `Reachable init s` is reachability from a state
satisfying `init`. A run computed by `run` whose events are enabled along it
(`EnabledAlong`, decidable where enabling is) is a `Runs`.  An invariant that holds initially and is kept by every enabled
step holds in every reachable state (`Reachable.invariant`); a system whose steps are
matched by those of another, through an abstraction function, has its runs matched by the
other's (`Runs.refines`).
-/

namespace TransitionSystem

variable {σ ε : Type*} (step : σ → ε → Option σ) (enabled : σ → ε → Prop)

/-- Execute the events in order; `none` as soon as one step is undefined. -/
def run : σ → List ε → Option σ
  | s, [] => some s
  | s, e :: es => (step s e).bind fun s' => run s' es

/-- `es` leads from `s` to `s'`, every event enabled where it is taken. -/
inductive Runs : σ → List ε → σ → Prop
  | nil (s : σ) : Runs s [] s
  | cons {s s' s'' : σ} {e : ε} {es : List ε} :
      enabled s e → step s e = some s' → Runs s' es s'' → Runs s (e :: es) s''

/-- Reachable from an initial state. -/
def Reachable (init : σ → Prop) (s : σ) : Prop :=
  ∃ s₀ es, init s₀ ∧ Runs step enabled s₀ es s

/-- Every event of `es` is enabled in the state `run` takes it in from `s`. -/
def EnabledAlong : σ → List ε → Prop
  | _, [] => True
  | s, e :: es => enabled s e ∧ ∀ s', step s e = some s' → EnabledAlong s' es

/-- Where enabling is decidable, so is being enabled along a run: a concrete run is checked by
running it. -/
instance EnabledAlong.decidable [∀ s e, Decidable (enabled s e)] :
    (s : σ) → (es : List ε) → Decidable (EnabledAlong step enabled s es)
  | _, [] => isTrue trivial
  | s, e :: es =>
    match h : step s e with
    | none => decidable_of_iff (enabled s e)
        ⟨fun he => ⟨he, fun _ h' => nomatch h.symm.trans h'⟩, fun he => he.1⟩
    | some s₁ =>
      haveI := EnabledAlong.decidable s₁ es
      decidable_of_iff (enabled s e ∧ EnabledAlong step enabled s₁ es)
        ⟨fun he => ⟨he.1, fun _ h' => Option.some.inj (h.symm.trans h') ▸ he.2⟩,
          fun he => ⟨he.1, he.2 s₁ h⟩⟩

variable {step enabled}

/-- Events that are enabled wherever they occur can be run by `run`. -/
theorem runs_of_run {es : List ε} (hen : ∀ e ∈ es, ∀ s, enabled s e) :
    ∀ {s s' : σ}, run step s es = some s' → Runs step enabled s es s' := by
  induction es with
  | nil =>
    intro s s' h
    cases h
    exact .nil s
  | cons e es ih =>
    intro s s' h
    simp only [run, Option.bind_eq_some_iff] at h
    obtain ⟨s₁, h₁, hrest⟩ := h
    exact .cons (hen e List.mem_cons_self s) h₁
      (ih (fun e' he' => hen e' (List.mem_cons_of_mem _ he')) hrest)

/-- A run `run` computes, each event enabled where it is taken, is a run. -/
theorem runs_of_run_of_enabledAlong :
    ∀ {es : List ε} {s s' : σ}, run step s es = some s' → EnabledAlong step enabled s es →
      Runs step enabled s es s'
  | [], s, _, h, _ => by
    cases h
    exact .nil s
  | e :: es, _, _, h, hen => by
    simp only [run, Option.bind_eq_some_iff] at h
    obtain ⟨s₁, h₁, hrest⟩ := h
    exact .cons hen.1 h₁ (runs_of_run_of_enabledAlong hrest (hen.2 s₁ h₁))

/-- The state `run` ends in, where it gets through, is reached by the run. -/
theorem runs_get_of_enabledAlong {es : List ε} {s : σ} (h : (run step s es).isSome = true)
    (hen : EnabledAlong step enabled s es) : Runs step enabled s es ((run step s es).get h) :=
  runs_of_run_of_enabledAlong (Option.some_get h).symm hen

/-- An invariant kept by every enabled step is kept along a run. -/
theorem Runs.invariant {P : σ → Prop}
    (hstep : ∀ s e s', P s → enabled s e → step s e = some s' → P s')
    {s s' : σ} {es : List ε} (h : Runs step enabled s es s') (hs : P s) : P s' := by
  induction h with
  | nil => exact hs
  | cons hen hstep₁ _ ih => exact ih (hstep _ _ _ hs hen hstep₁)

/-- **Invariant rule.** What holds initially and is kept by every enabled step holds
in every reachable state. -/
theorem Reachable.invariant {init P : σ → Prop} (hinit : ∀ s, init s → P s)
    (hstep : ∀ s e s', P s → enabled s e → step s e = some s' → P s')
    {s : σ} (h : Reachable step enabled init s) : P s := by
  obtain ⟨s₀, es, h₀, hruns⟩ := h
  exact hruns.invariant hstep (hinit s₀ h₀)

/-- A run from an initial state reaches its end. -/
theorem Reachable.of_run {init : σ → Prop} {s₀ s : σ} {es : List ε} (h₀ : init s₀)
    (hen : ∀ e ∈ es, ∀ s, enabled s e) (h : run step s₀ es = some s) :
    Reachable step enabled init s :=
  ⟨s₀, es, h₀, runs_of_run hen h⟩

/-- **Refinement along runs.** If every enabled step from a state satisfying `inv` keeps `inv`
and is matched, through `abs`, by a step of `absStep`, every run is matched by the run of
`absStep` over the same events. -/
theorem Runs.refines {α : Type*} {absStep : α → ε → Option α} {abs : σ → α} {inv : σ → Prop}
    (hsim : ∀ s e s', inv s → enabled s e → step s e = some s' →
      inv s' ∧ absStep (abs s) e = some (abs s'))
    {s s' : σ} {es : List ε} (h : Runs step enabled s es s') (hs : inv s) :
    inv s' ∧ run absStep (abs s) es = some (abs s') := by
  induction h with
  | nil => exact ⟨hs, rfl⟩
  | cons hen hstep₁ _ ih =>
    obtain ⟨hs₁, habs⟩ := hsim _ _ _ hs hen hstep₁
    obtain ⟨hs', hrun⟩ := ih hs₁
    refine ⟨hs', ?_⟩
    simp only [run, habs, Option.bind_some, hrun]

end TransitionSystem
