import Mathlib.Algebra.Order.Monoid.Defs
import Mathlib.Data.List.Basic
import Mathlib.Logic.Basic
/-!
# Machines and their runs

A machine is a partial step function: `step s a` is the state after the action
`a`, or `none` if `a` cannot be taken in `s`. Interleavings are lists of
actions, so a theorem about every list of actions covers every schedule.

`EveryState.of_inv` is the induction over runs, done once. `everyState_iff`
is its exact form: where a property is lost by precisely the steps that break
a guard, a run keeps the property if and only if all its steps meet the guard.
`le_charged` is the induction for what a run may cost.
-/

namespace Machine

variable {σ α : Type*}

/-- The state after the actions `as`, if all of them can be taken. -/
def run (step : σ → α → Option σ) : σ → List α → Option σ
  | s, [] => some s
  | s, a :: as => (step s a).bind fun s' => run step s' as

/-- Some run leads from `s₀` to `s`. -/
def Reachable (step : σ → α → Option σ) (s₀ s : σ) : Prop := ∃ as, run step s₀ as = some s

/-- `P` holds in every state of the run of `as` from `s`. -/
def EveryState (step : σ → α → Option σ) (P : σ → Prop) : σ → List α → Prop
  | s, [] => P s
  | s, a :: as => P s ∧ ∀ s', step s a = some s' → EveryState step P s' as

/-- `C` holds at every step of the run of `as` from `s`: of the state before
the step and its action. -/
def EveryStep (step : σ → α → Option σ) (C : σ → α → Prop) : σ → List α → Prop
  | _, [] => True
  | s, a :: as => ∀ s', step s a = some s' → C s a ∧ EveryStep step C s' as

/-- Where `C` can be decided, so can `C` at every step of a run. -/
instance EveryStep.decidable (step : σ → α → Option σ) (C : σ → α → Prop) [∀ s a, Decidable (C s a)] :
    ∀ (s : σ) (as : List α), Decidable (EveryStep step C s as)
  | _, [] => isTrue trivial
  | s, a :: as =>
    match h : step s a with
    | none => isTrue fun s' hs' => by simp [h] at hs'
    | some s₁ =>
      have := EveryStep.decidable step C s₁ as
      decidable_of_iff (C s a ∧ EveryStep step C s₁ as) (by simp [EveryStep, h])

/-- How many steps of the run of `as` from `s` satisfy `C`. -/
def countSteps (step : σ → α → Option σ) (C : σ → α → Bool) : σ → List α → Nat
  | _, [] => 0
  | s, a :: as =>
    match step s a with
    | none => 0
    | some s' => (if C s a then 1 else 0) + countSteps step C s' as

variable {step : σ → α → Option σ}

/-! ## Runs -/

@[simp] theorem run_nil (s : σ) : run step s [] = some s := rfl

theorem run_cons (s : σ) (a : α) (as : List α) :
    run step s (a :: as) = (step s a).bind fun s' => run step s' as := rfl

theorem run_cons_some {s s' : σ} {a : α} {as : List α} :
    run step s (a :: as) = some s' ↔ ∃ s₁, step s a = some s₁ ∧ run step s₁ as = some s' := by
  simp [run_cons, Option.bind_eq_some_iff]

theorem run_append (s : σ) (as bs : List α) :
    run step s (as ++ bs) = (run step s as).bind fun s' => run step s' bs := by
  induction as generalizing s with
  | nil => rfl
  | cons a as ih =>
    simp only [List.cons_append, run_cons]
    cases step s a with
    | none => rfl
    | some s' => exact ih s'

/-! ## Invariants -/

/-- An invariant kept by every step that can be taken holds after every run. -/
theorem run_inv (I : σ → Prop) (hstep : ∀ s a s', I s → step s a = some s' → I s')
    {s s' : σ} {as : List α} (h : run step s as = some s') (hs : I s) : I s' := by
  induction as generalizing s with
  | nil => cases h; exact hs
  | cons a as ih =>
    obtain ⟨s₁, h₁, h₂⟩ := run_cons_some.1 h
    exact ih h₂ (hstep s a s₁ hs h₁)

/-- An invariant of the actions so far and the state they have led to. -/
theorem run_inv_trace (I : List α → σ → Prop) {s s' : σ}
    (hstep : ∀ as s₁ a s₂, I as s₁ → step s₁ a = some s₂ → I (as ++ [a]) s₂)
    {as : List α} (h : run step s as = some s') (hs : I [] s) : I as s' := by
  -- By induction on the actions to come, whatever has been done before.
  suffices hgen : ∀ (bs pre : List α) (s₁ : σ), I pre s₁ → run step s₁ bs = some s' → I (pre ++ bs) s' from
    hgen as [] s hs h
  intro bs
  induction bs with
  | nil =>
    intro pre s₁ hpre hrun
    cases hrun
    rwa [List.append_nil]
  | cons b bs ih =>
    intro pre s₁ hpre hrun
    obtain ⟨s₂, h₁, h₂⟩ := run_cons_some.1 hrun
    have hall := ih (pre ++ [b]) s₂ (hstep pre s₁ b s₂ hpre h₁) h₂
    rwa [List.append_assoc, List.singleton_append] at hall

theorem Reachable.inv (I : σ → Prop) (hstep : ∀ s a s', I s → step s a = some s' → I s')
    {s₀ s : σ} (h : Reachable step s₀ s) (h₀ : I s₀) : I s := by
  obtain ⟨as, has⟩ := h
  exact run_inv I hstep has h₀

/-- An invariant kept by the steps that meet the guard `C` holds in every
state of a run whose steps all meet it. -/
theorem EveryState.of_inv (I : σ → Prop) (C : σ → α → Prop)
    (hstep : ∀ s a s', I s → C s a → step s a = some s' → I s')
    {s : σ} {as : List α} (hs : I s) (hC : EveryStep step C s as) : EveryState step I s as := by
  induction as generalizing s with
  | nil => exact hs
  | cons a as ih =>
    refine ⟨hs, ?_⟩
    intro s' h
    obtain ⟨hc, hrest⟩ := hC s' h
    exact ih (hstep s a s' hs hc h) hrest

theorem EveryStep.of_mem {C : α → Prop} {s : σ} {as : List α} (h : ∀ a ∈ as, C a) :
    EveryStep step (fun _ a => C a) s as := by
  induction as generalizing s with
  | nil => trivial
  | cons a as ih =>
    rw [List.forall_mem_cons] at h
    intro s' _
    exact ⟨h.1, ih h.2⟩

theorem EveryStep.and {C D : σ → α → Prop} {s : σ} {as : List α} (hC : EveryStep step C s as)
    (hD : EveryStep step D s as) : EveryStep step (fun s a => C s a ∧ D s a) s as := by
  induction as generalizing s with
  | nil => trivial
  | cons a as ih =>
    intro s' h
    exact ⟨⟨(hC s' h).1, (hD s' h).1⟩, ih (hC s' h).2 (hD s' h).2⟩

theorem EveryStep.mono {C D : σ → α → Prop} (hCD : ∀ s a, C s a → D s a) {s : σ} {as : List α}
    (h : EveryStep step C s as) : EveryStep step D s as := by
  induction as generalizing s with
  | nil => trivial
  | cons a as ih =>
    intro s' hs
    obtain ⟨hc, hrest⟩ := h s' hs
    exact ⟨hCD s a hc, ih hrest⟩

/-- What holds in every state holds before every step. -/
theorem EveryState.everyStep {P : σ → Prop} {s : σ} {as : List α} (h : EveryState step P s as) :
    EveryStep step (fun s _ => P s) s as := by
  induction as generalizing s with
  | nil => trivial
  | cons a as ih =>
    intro s' hs
    exact ⟨h.1, ih (h.2 s' hs)⟩

/-- A size that grows with the entries a run adds to a list never exceeds their number. -/
theorem EveryStep.of_filterMap {β : Type*} (φ : σ → Nat) (f : α → Option β)
    (hstep : ∀ s a s', step s a = some s' → φ s' = φ s + ([a].filterMap f).length) {b : Nat} {s : σ} {as : List α}
    (h : φ s + (as.filterMap f).length ≤ b) : EveryStep step (fun s _ => φ s ≤ b) s as := by
  induction as generalizing s with
  | nil => trivial
  | cons a as ih =>
    rw [← List.singleton_append, List.filterMap_append, List.length_append] at h
    intro s' hs
    have hsize := hstep s a s' hs
    exact ⟨by omega, ih (by omega)⟩

/-- Where `I` is an invariant and a step from a state with `P` keeps `P`
exactly when it meets the guard `C`, a run keeps `P` exactly when all its
steps meet `C`. -/
theorem everyState_iff (I P : σ → Prop) (C : σ → α → Prop)
    (hinv : ∀ s a s', I s → step s a = some s' → I s')
    (hexact : ∀ s a s', I s → P s → step s a = some s' → (P s' ↔ C s a))
    {s : σ} {as : List α} (hI : I s) (hP : P s) : EveryState step P s as ↔ EveryStep step C s as := by
  induction as generalizing s with
  | nil => exact iff_of_true hP trivial
  | cons a as ih =>
    constructor
    · rintro ⟨-, h⟩ s' hs'
      -- `P` holds after the step: the rest of the run starts there.
      have hP' : P s' := by
        cases as with
        | nil => exact h s' hs'
        | cons b bs => exact (h s' hs').1
      exact ⟨(hexact s a s' hI hP hs').1 hP', (ih (hinv s a s' hI hs') hP').1 (h s' hs')⟩
    · intro h
      refine ⟨hP, ?_⟩
      intro s' hs'
      obtain ⟨hc, hrest⟩ := h s' hs'
      have hP' := (hexact s a s' hI hP hs').2 hc
      exact (ih (hinv s a s' hI hs') hP').2 hrest

/-- A measure that steps with `C` use up bounds how many of them are left. -/
theorem countSteps_le {C : σ → α → Bool} (I : σ → Prop) (φ : σ → Nat)
    (hinv : ∀ s a s', I s → step s a = some s' → I s')
    (hφ : ∀ s a s', I s → step s a = some s' → (if C s a then 1 else 0) + φ s' ≤ φ s)
    {s : σ} (hs : I s) (as : List α) : countSteps step C s as ≤ φ s := by
  induction as generalizing s with
  | nil => exact Nat.zero_le _
  | cons a as ih =>
    rw [countSteps]
    split
    · exact Nat.zero_le _
    · next s' h =>
      have hrest := ih (hinv s a s' hs h)
      have hone := hφ s a s' hs h
      omega

theorem EveryState.mono {P Q : σ → Prop} (hPQ : ∀ s, P s → Q s) {s : σ} {as : List α}
    (h : EveryState step P s as) : EveryState step Q s as := by
  induction as generalizing s with
  | nil => exact hPQ s h
  | cons a as ih => exact ⟨hPQ s h.1, fun s' hs' => ih (h.2 s' hs')⟩

theorem EveryState.last {P : σ → Prop} {s s' : σ} {as : List α} (h : EveryState step P s as)
    (hrun : run step s as = some s') : P s' := by
  induction as generalizing s with
  | nil => cases hrun; exact h
  | cons a as ih =>
    obtain ⟨s₁, h₁, h₂⟩ := run_cons_some.1 hrun
    exact ih (h.2 s₁ h₁) h₂

theorem EveryState.first {P : σ → Prop} {s : σ} {as : List α} (h : EveryState step P s as) : P s := by
  cases as with
  | nil => exact h
  | cons a as => exact h.1

/-- What steps do not establish held all along if it holds in the end. -/
theorem EveryState.of_last {P : σ → Prop} (hback : ∀ s a s', step s a = some s' → P s' → P s) {s s' : σ}
    {as : List α} (hrun : run step s as = some s') (h : P s') : EveryState step P s as := by
  induction as generalizing s with
  | nil =>
    cases hrun
    exact h
  | cons a as ih =>
    obtain ⟨s₁, h₁, h₂⟩ := run_cons_some.1 hrun
    have hrest := ih h₂
    refine ⟨hback s a s₁ h₁ hrest.first, fun s₂ hs₂ => ?_⟩
    obtain rfl : s₁ = s₂ := Option.some.inj (h₁.symm.trans hs₂)
    exact hrest

/-! ## Charges -/

section Charges
variable {M : Type*} [AddCommMonoid M]

/-- The sum over the steps of the run of `as` from `s` of what `c` charges for them. -/
def charged (step : σ → α → Option σ) (c : σ → α → M) : σ → List α → M
  | _, [] => 0
  | s, a :: as =>
    match step s a with
    | none => 0
    | some s' => c s a + charged step c s' as

theorem charged_cons {c : σ → α → M} {s s' : σ} {a : α} (h : step s a = some s') (as : List α) :
    charged step c s (a :: as) = c s a + charged step c s' as := by
  simp only [charged, h]

variable [PartialOrder M] [IsOrderedAddMonoid M]

/-- If no step raises `φ` by more than it is charged, no run does. -/
theorem le_charged (φ : σ → M) (c : σ → α → M) (I : σ → Prop) (C : σ → α → Prop)
    (hstep : ∀ s a s', I s → C s a → step s a = some s' → I s' ∧ φ s' ≤ φ s + c s a) {s s' : σ} {as : List α}
    (hI : I s) (hC : EveryStep step C s as) (hrun : run step s as = some s') : φ s' ≤ φ s + charged step c s as := by
  induction as generalizing s with
  | nil =>
    cases hrun
    exact (add_zero _).ge
  | cons a as ih =>
    obtain ⟨s₁, h₁, h₂⟩ := run_cons_some.1 hrun
    obtain ⟨hc, hrest⟩ := hC s₁ h₁
    obtain ⟨hI₁, hle⟩ := hstep s a s₁ hI hc h₁
    calc φ s'
        ≤ φ s₁ + charged step c s₁ as := ih hI₁ hrest h₂
      _ ≤ φ s + c s a + charged step c s₁ as := by gcongr
      _ = φ s + charged step c s (a :: as) := by rw [charged_cons h₁, add_assoc]

end Charges

/-! ## Logs -/

/-- `P` relates each entry of a log to the entries before it. -/
def EachEntry {ε : Type*} (P : List ε → ε → Prop) (log : List ε) : Prop :=
  ∀ pre e post, log = pre ++ e :: post → P pre e

theorem EachEntry.nil {ε : Type*} (P : List ε → ε → Prop) : EachEntry P [] := by
  intro pre e post h
  simp at h

theorem eachEntry_snoc {ε : Type*} {P : List ε → ε → Prop} {log : List ε} {e : ε} :
    EachEntry P (log ++ [e]) ↔ EachEntry P log ∧ P log e := by
  constructor
  · intro h
    refine ⟨fun pre e' post he => h pre e' (post ++ [e]) ?_, h log e [] rfl⟩
    rw [he, List.append_assoc, List.cons_append]
  · rintro ⟨hlog, he⟩ pre e' post h
    rcases List.eq_nil_or_concat post with rfl | ⟨post, x, rfl⟩
    · obtain ⟨rfl, hx⟩ := List.append_inj' h rfl
      rwa [← List.singleton_inj.1 hx]
    · have hlast : log ++ [e] = (pre ++ e' :: post) ++ [x] := by simpa using h
      exact hlog pre e' post (List.append_inj' hlast rfl).1

theorem eachEntry_iff {ε : Type*} {P : List ε → ε → Prop} {log : List ε} :
    EachEntry P log ↔ ∀ i (h : i < log.length), P (log.take i) log[i] := by
  constructor
  · intro hall i h
    refine hall _ _ (log.drop (i + 1)) ?_
    rw [← List.drop_eq_getElem_cons h, List.take_append_drop]
  · rintro hall pre e post rfl
    simpa using hall pre.length (by simp)

instance {ε : Type*} (P : List ε → ε → Prop) [∀ pre e, Decidable (P pre e)] (log : List ε) :
    Decidable (EachEntry P log) :=
  decidable_of_iff _ eachEntry_iff.symm

end Machine
