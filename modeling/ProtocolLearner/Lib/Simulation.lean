import ProtocolLearner.Lib.Machine
/-!
# Simulation between machines

A machine simulates another if each of its steps is a run of the other, of no,
one or several steps. Then each of its runs is one of the other (`run_trace`),
and what the other's runs are known to do carries over.
-/

namespace Machine

variable {σ α τ β : Type*}

/-- The moves of the steps of a run, one after the other. -/
def trace (step : σ → α → Option σ) (moves : σ → α → List β) : σ → List α → List β
  | _, [] => []
  | s, a :: as =>
    match step s a with
    | none => []
    | some s' => moves s a ++ trace step moves s' as

/-- Where `inv` holds, each step is a run of the moves it stands for. -/
structure Simulation (step : σ → α → Option σ) (step' : τ → β → Option τ) where
  abs : σ → τ
  moves : σ → α → List β
  inv : σ → Prop
  inv_step : ∀ s a s', inv s → step s a = some s' → inv s'
  run_moves : ∀ s a s', inv s → step s a = some s' → run step' (abs s) (moves s a) = some (abs s')

theorem everyStep_append {step : σ → α → Option σ} {C : σ → α → Prop} {s s' : σ} {as bs : List α}
    (has : EveryStep step C s as) (hrun : run step s as = some s') (hbs : EveryStep step C s' bs) :
    EveryStep step C s (as ++ bs) := by
  induction as generalizing s with
  | nil =>
    cases hrun
    exact hbs
  | cons a as ih =>
    obtain ⟨s₁, h₁, h₂⟩ := run_cons_some.1 hrun
    intro s₂ hs₂
    obtain rfl : s₁ = s₂ := Option.some.inj (h₁.symm.trans hs₂)
    exact ⟨(has s₁ h₁).1, ih (has s₁ h₁).2 h₂⟩

/-- The guard of a run with one more step. -/
theorem everyStep_snoc {step : σ → α → Option σ} {C : σ → α → Prop} {s s₁ s₂ : σ} {as : List α} {a : α}
    (hrun : run step s as = some s₁) (hstep : step s₁ a = some s₂) (h : EveryStep step C s (as ++ [a])) :
    EveryStep step C s as ∧ C s₁ a := by
  induction as generalizing s with
  | nil =>
    cases hrun
    exact ⟨trivial, (h s₂ hstep).1⟩
  | cons b bs ih =>
    obtain ⟨s', h₁, h₂⟩ := run_cons_some.1 hrun
    obtain ⟨hc, hrest⟩ := h s' h₁
    obtain ⟨hbs, ha⟩ := ih h₂ hrest
    refine ⟨?_, ha⟩
    intro s'' hs''
    obtain rfl : s' = s'' := Option.some.inj (h₁.symm.trans hs'')
    exact ⟨hc, hbs⟩

theorem run_snoc_some {step : σ → α → Option σ} {s s' : σ} {as : List α} {a : α} :
    run step s (as ++ [a]) = some s' ↔ ∃ s₁, run step s as = some s₁ ∧ step s₁ a = some s' := by
  simp [run_append, run_cons, Option.bind_eq_some_iff]

namespace Simulation

variable {step : σ → α → Option σ} {step' : τ → β → Option τ} (S : Simulation step step')

/-- The moves of a run. -/
def trace (s : σ) (as : List α) : List β := Machine.trace step S.moves s as

variable {S}

theorem trace_cons {s s' : σ} {a : α} (h : step s a = some s') (as : List α) :
    S.trace s (a :: as) = S.moves s a ++ S.trace s' as := by
  simp [Simulation.trace, Machine.trace, h]

/-- A run is one of the simulated machine. -/
theorem run_trace {s s' : σ} {as : List α} (hs : S.inv s) (h : run step s as = some s') :
    run step' (S.abs s) (S.trace s as) = some (S.abs s') := by
  induction as generalizing s with
  | nil =>
    cases h
    rfl
  | cons a as ih =>
    obtain ⟨s₁, h₁, h₂⟩ := run_cons_some.1 h
    rw [trace_cons h₁, run_append, S.run_moves s a s₁ hs h₁]
    exact ih (S.inv_step s a s₁ hs h₁) h₂

/-- A guard on the moves follows from one on the steps. -/
theorem everyStep_trace {C : σ → α → Prop} {C' : τ → β → Prop}
    (hC : ∀ s a s', S.inv s → C s a → step s a = some s' → EveryStep step' C' (S.abs s) (S.moves s a))
    {s s' : σ} {as : List α} (hs : S.inv s) (h : run step s as = some s') (has : EveryStep step C s as) :
    EveryStep step' C' (S.abs s) (S.trace s as) := by
  induction as generalizing s with
  | nil => trivial
  | cons a as ih =>
    obtain ⟨s₁, h₁, h₂⟩ := run_cons_some.1 h
    obtain ⟨hc, hrest⟩ := has s₁ h₁
    rw [trace_cons h₁]
    exact everyStep_append (hC s a s₁ hs hc h₁) (S.run_moves s a s₁ hs h₁)
      (ih (S.inv_step s a s₁ hs h₁) h₂ hrest)

/-- An invariant of the moves so far and the state they have led to. -/
theorem trace_inv (I : List β → σ → Prop)
    (hstep : ∀ bs s a s', S.inv s → I bs s → step s a = some s' → I (bs ++ S.moves s a) s')
    {s s' : σ} {as : List α} (hs : S.inv s) (h : run step s as = some s') (hI : I [] s) : I (S.trace s as) s' := by
  -- By induction on the actions to come, whatever moves have been made before.
  suffices hgen : ∀ (as : List α) (bs : List β) (s : σ), S.inv s → I bs s → run step s as = some s' →
      I (bs ++ S.trace s as) s' from hgen as [] s hs hI h
  intro as
  induction as with
  | nil =>
    intro bs s _ hI h
    cases h
    simpa [Simulation.trace, Machine.trace] using hI
  | cons a as ih =>
    intro bs s hs hI h
    obtain ⟨s₁, h₁, h₂⟩ := run_cons_some.1 h
    have hall := ih (bs ++ S.moves s a) s₁ (S.inv_step s a s₁ hs h₁) (hstep bs s a s₁ hs hI h₁) h₂
    rwa [List.append_assoc, ← trace_cons h₁] at hall

/-- What is picked out of the moves is what is picked out of the actions, if it is so for each step. -/
theorem filterMap_trace {γ : Type*} {f : β → Option γ} {g : α → Option γ}
    (hfg : ∀ s a, (S.moves s a).filterMap f = [a].filterMap g)
    {s s' : σ} {as : List α} (h : run step s as = some s') : (S.trace s as).filterMap f = as.filterMap g := by
  induction as generalizing s with
  | nil => rfl
  | cons a as ih =>
    obtain ⟨s₁, h₁, h₂⟩ := run_cons_some.1 h
    rw [trace_cons h₁, List.filterMap_append, ← List.singleton_append, List.filterMap_append, hfg, ih h₂]

theorem countP_trace {p : β → Bool} {q : α → Bool}
    (hpq : ∀ s a, (S.moves s a).countP p = if q a then 1 else 0)
    {s s' : σ} {as : List α} (hs : S.inv s) (h : run step s as = some s') :
    (S.trace s as).countP p = as.countP q := by
  induction as generalizing s with
  | nil => rfl
  | cons a as ih =>
    obtain ⟨s₁, h₁, h₂⟩ := run_cons_some.1 h
    rw [trace_cons h₁, List.countP_append, List.countP_cons, hpq, ih (S.inv_step s a s₁ hs h₁) h₂, Nat.add_comm]

end Simulation

end Machine
