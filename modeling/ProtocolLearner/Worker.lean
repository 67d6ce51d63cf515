import ProtocolLearner.Lib.Machine
import ProtocolLearner.Operations
/-!
# The clustering thread

`mPeriodicThreadFunction` next to any number of submitting threads and one
stopping thread. Only the worker has program points of its own. A critical
section under `m_MainMutex` is one step, so the lock is free between steps;
`wait` releases it in the step that found nothing to do, and the worker takes
it again in a later step. `mSubmit` notifies after it has unlocked, which is a
step of its own; the stopping thread notifies inside its critical section.

An exception that leaves the thread function ends the process.
-/

namespace ProtocolLearner

open Machine KMeans

/-- Where the worker is, with its `oldNumberPointsInVector`. -/
inductive Worker where
  /-- Launched, and the point count not yet read. -/
  | notStarted
  /-- At `while(!m_StopThread)`. -/
  | loopHead (old : UInt32)
  /-- About to take the lock. -/
  | locking (old : UInt32)
  /-- In `wait`. -/
  | waiting (old : UInt32)
  /-- Notified or woken spuriously, and about to take the lock again. -/
  | woken (old : UInt32)
  | exited
  /-- An exception left the thread function. -/
  | terminated (e : Exn)
  deriving DecidableEq, Repr

/-- `oldNumberPointsInVector`, while the worker has it. -/
def Worker.old? : Worker → Option UInt32
  | .loopHead old | .locking old | .waiting old | .woken old => some old
  | .notStarted | .exited | .terminated _ => none

/-- A notification: it moves the worker only if it waits. -/
def Worker.notified : Worker → Worker
  | .waiting old => .woken old
  | w => w

/-- An engine with its clustering thread. -/
structure Engine (T : Type) where
  kmeans : KMeans T
  worker : Worker
  /-- Submitters that have unlocked and have not called `notify_all` yet. -/
  pendingNotifies : Nat
  deriving DecidableEq, Repr

/-- A step of one of the threads. -/
inductive Act (T : Type) where
  /-- The worker's next step; a pass that initialises draws `shuffle`. -/
  | worker (shuffle : Shuffle (DataPoint T))
  /-- A spurious wake-up. -/
  | spurious
  /-- The critical section of an `mSubmit`. -/
  | submit (inVector : List T)
  /-- The `notify_all` of an `mSubmit`. -/
  | notify
  /-- The critical section of `mStopPeriodicClusteringAndAssignationThread`. -/
  | stop

namespace Engine

variable {T : Type}

/-- A new engine whose thread has just been launched. -/
def launch (numArgs : UInt16) : Engine T := ⟨KMeans.new numArgs, .notStarted, 0⟩

variable [Scalar T]

/-- The `try` block and the `mUpdateMeans` after it: `out_of_range` is caught
and dropped, and only if it comes from `mAssignAll`. -/
def assignAndUpdate (k : KMeans T) : Except Exn Unit × KMeans T :=
  match k.mAssignAll with
  | (.ok (), k) => k.mUpdateMeans
  | (.error .outOfRange, k) => k.mUpdateMeans
  -- A thrown pointer is no `std::exception`.
  | (.error e, k) => (.error e, k)

/-- `currentSize`, 32 bits wide. -/
def currentSize (k : KMeans T) : UInt32 := UInt32.ofNat k.m_PointVector.length

/-- The work of one pass. -/
def clusteringPass (aNumMeans : UInt16) (shuffle : Shuffle (DataPoint T)) (old : UInt32) (k : KMeans T) :
    Except Exn Unit × KMeans T :=
  if currentSize k ≠ old then
    if k.m_Initialised = false ∧ aNumMeans.toNat ≤ (currentSize k).toNat then
      k.mInitialise aNumMeans shuffle
    else if aNumMeans.toNat < (currentSize k).toNat then
      assignAndUpdate k
    else
      (.ok (), k)
  else
    (.ok (), k)

/-- The critical section from the test of `m_NewSubmissionReady` on. -/
def criticalSection (aNumMeans : UInt16) (shuffle : Shuffle (DataPoint T)) (old : UInt32) (s : Engine T) :
    Engine T :=
  if s.kmeans.m_NewSubmissionReady = false then
    { s with worker := .waiting old }
  else
    match clusteringPass aNumMeans shuffle old s.kmeans with
    | (.error e, k) => { s with kmeans := k, worker := .terminated e }
    | (.ok (), k) =>
      if k.m_StopThread then
        { s with kmeans := k, worker := .exited }
      else
        -- `oldNumberPointsInVector` becomes `currentSize`, or was it already.
        { s with
          kmeans := { k with m_NewSubmissionReady := false }
          worker := .loopHead (currentSize s.kmeans) }

/-- The worker's next step. -/
def workerStep (aNumMeans : UInt16) (shuffle : Shuffle (DataPoint T)) (s : Engine T) : Option (Engine T) :=
  match s.worker with
  | .notStarted => some { s with worker := .loopHead (currentSize s.kmeans) }
  | .loopHead old => some { s with worker := if s.kmeans.m_StopThread then .exited else .locking old }
  | .locking old | .woken old => some (criticalSection aNumMeans shuffle old s)
  | .waiting _ | .exited | .terminated _ => none

def submit (inVector : List T) (s : Engine T) : Engine T :=
  { s with kmeans := s.kmeans.mSubmit inVector, pendingNotifies := s.pendingNotifies + 1 }

/-- The critical section of `mStopPeriodicClusteringAndAssignationThread`. -/
def stop (s : Engine T) : Engine T :=
  { s with
    kmeans := { s.kmeans with m_NewSubmissionReady := true, m_StopThread := true }
    worker := s.worker.notified }

def IsTerminated (s : Engine T) : Prop := ∃ e, s.worker = .terminated e

instance (s : Engine T) : Decidable s.IsTerminated :=
  match h : s.worker with
  | .terminated e => isTrue ⟨e, h⟩
  | .notStarted | .loopHead _ | .locking _ | .waiting _ | .woken _ | .exited =>
    isFalse fun ⟨e, he⟩ => by simp [h] at he

omit [Scalar T] in
theorem not_terminated {s : Engine T} (h : ∀ e, s.worker ≠ .terminated e) : ¬ s.IsTerminated := by
  rintro ⟨e, he⟩
  exact h e he

/-- One step of the threads. The stopping thread runs once. -/
def step (aNumMeans : UInt16) (s : Engine T) : Act T → Option (Engine T)
  | act =>
    if s.IsTerminated then none
    else match act with
      | .worker shuffle => workerStep aNumMeans shuffle s
      | .spurious =>
        match s.worker with
        | .waiting old => some { s with worker := .woken old }
        | _ => none
      | .submit inVector => some (s.submit inVector)
      | .notify =>
        if s.pendingNotifies = 0 then none
        else some { s with worker := s.worker.notified, pendingNotifies := s.pendingNotifies - 1 }
      | .stop => if s.kmeans.m_StopThread then none else some s.stop

/-! ## What one step does -/

omit [Scalar T] in
/-- The worker is about to test `m_NewSubmissionReady` under the lock. -/
def Entering (s : Engine T) (old : UInt32) : Prop := s.worker = .locking old ∨ s.worker = .woken old

omit [Scalar T] in
def IsWaiting (s : Engine T) : Prop := ∃ old, s.worker = .waiting old

/-- Every step that `step` allows, with what it found and what it left. -/
inductive Transition (n : UInt16) (s : Engine T) : Act T → Engine T → Prop where
  | start {σ} (h : s.worker = .notStarted) :
    Transition n s (.worker σ) { s with worker := .loopHead (currentSize s.kmeans) }
  | leave {σ old} (h : s.worker = .loopHead old) (hstop : s.kmeans.m_StopThread = true) :
    Transition n s (.worker σ) { s with worker := .exited }
  | enter {σ old} (h : s.worker = .loopHead old) (hstop : s.kmeans.m_StopThread = false) :
    Transition n s (.worker σ) { s with worker := .locking old }
  | wait {σ old} (h : s.Entering old) (hready : s.kmeans.m_NewSubmissionReady = false) :
    Transition n s (.worker σ) { s with worker := .waiting old }
  | fail {σ old e k} (h : s.Entering old) (hready : s.kmeans.m_NewSubmissionReady = true)
    (hpass : clusteringPass n σ old s.kmeans = (.error e, k)) :
    Transition n s (.worker σ) { s with kmeans := k, worker := .terminated e }
  | lastPass {σ old k} (h : s.Entering old) (hready : s.kmeans.m_NewSubmissionReady = true)
    (hpass : clusteringPass n σ old s.kmeans = (.ok (), k)) (hstop : k.m_StopThread = true) :
    Transition n s (.worker σ) { s with kmeans := k, worker := .exited }
  | pass {σ old k} (h : s.Entering old) (hready : s.kmeans.m_NewSubmissionReady = true)
    (hpass : clusteringPass n σ old s.kmeans = (.ok (), k)) (hstop : k.m_StopThread = false) :
    Transition n s (.worker σ) { s with
      kmeans := { k with m_NewSubmissionReady := false }, worker := .loopHead (currentSize s.kmeans) }
  | spurious {old} (h : s.worker = .waiting old) : Transition n s .spurious { s with worker := .woken old }
  | submit {v} : Transition n s (.submit v) (s.submit v)
  | notify (h : 0 < s.pendingNotifies) : Transition n s .notify
    { s with worker := s.worker.notified, pendingNotifies := s.pendingNotifies - 1 }
  | stop (h : s.kmeans.m_StopThread = false) : Transition n s .stop s.stop

theorem transition_of_critical {n : UInt16} {s : Engine T} {σ : Shuffle (DataPoint T)} {old : UInt32}
    (h : s.Entering old) : Transition n s (.worker σ) (criticalSection n σ old s) := by
  unfold criticalSection
  cases hready : s.kmeans.m_NewSubmissionReady with
  | false => exact .wait h hready
  | true =>
    simp only [Bool.true_eq_false, if_false]
    split
    · next e k hpass => exact .fail h hready hpass
    · next k hpass =>
      split
      · next hstop => exact .lastPass h hready hpass hstop
      · next hstop => exact .pass h hready hpass (by simpa using hstop)

theorem transition_of_step {n : UInt16} {s s' : Engine T} {act : Act T} (h : step n s act = some s') :
    Transition n s act s' := by
  unfold step at h
  split at h
  · cases h
  · cases act with
    | worker σ =>
      dsimp only [workerStep] at h
      split at h
      · next hw => cases h; exact .start hw
      · next old hw =>
        cases hstop : s.kmeans.m_StopThread with
        | true => simp only [hstop, if_true, Option.some.injEq] at h; exact h ▸ .leave hw hstop
        | false => simp only [hstop, Bool.false_eq_true, if_false, Option.some.injEq] at h; exact h ▸ .enter hw hstop
      · next old hw => cases h; exact transition_of_critical (.inl hw)
      · next old hw => cases h; exact transition_of_critical (.inr hw)
      · cases h
      · cases h
      · cases h
    | spurious =>
      dsimp only at h
      split at h
      · next old hw => cases h; exact .spurious hw
      · cases h
    | submit v => cases h; exact .submit
    | notify =>
      dsimp only at h
      split at h
      · cases h
      · next hpos => cases h; exact .notify (Nat.pos_of_ne_zero hpos)
    | stop =>
      dsimp only at h
      split at h
      · cases h
      · next hstop => cases h; exact .stop (by simpa using hstop)

/-- Until the worker has ended or waits, its next step can be taken. -/
theorem worker_enabled (n : UInt16) {s : Engine T} (hw : ¬ s.IsWaiting) (hterm : ¬ s.IsTerminated)
    (hexit : s.worker ≠ .exited) (σ : Shuffle (DataPoint T)) : (step n s (.worker σ)).isSome = true := by
  simp only [step, if_neg hterm, workerStep]
  split
  · rfl
  · rfl
  · rfl
  · rfl
  · next old h => exact absurd ⟨old, h⟩ hw
  · next h => exact absurd h hexit
  · next e h => exact absurd ⟨e, h⟩ hterm

/-! ## What a pass does -/

/-- A pass that assigns also updates, unless `mAssignAll` throws what is not caught. -/
theorem assignAndUpdate_eq {k : KMeans T} (h : k.mAssignAll.1 = .ok () ∨ k.mAssignAll.1 = .error .outOfRange) :
    assignAndUpdate k = k.mAssignAll.2.mUpdateMeans := by
  have hassign : k.mAssignAll = (.ok (), k.mAssignAll.2) ∨ k.mAssignAll = (.error .outOfRange, k.mAssignAll.2) :=
    h.imp (fun he => Prod.ext he rfl) fun he => Prod.ext he rfl
  unfold assignAndUpdate
  rcases hassign with he | he
  · rw [he]
  · rw [he]

/-- Whatever way `mAssignAll` ends, the means are updated next or the engine stays as it left it. -/
theorem assignAndUpdate_keeps (P : KMeans T → Prop) {k : KMeans T} (hassign : P k.mAssignAll.2)
    (hupdate : ∀ k', P k' → P k'.mUpdateMeans.2) : P (assignAndUpdate k).2 := by
  unfold assignAndUpdate
  split
  · next k' he =>
    rw [he] at hassign
    exact hupdate k' hassign
  · next k' he =>
    rw [he] at hassign
    exact hupdate k' hassign
  · next e k' _ he =>
    rw [he] at hassign
    exact hassign

/-- A pass initialises an engine that is not, assigns and updates, or does nothing. -/
theorem clusteringPass_keeps (P : KMeans T → Prop) {n : UInt16} {σ : Shuffle (DataPoint T)} {old : UInt32}
    {k : KMeans T} (hinit : k.m_Initialised = false → P (k.mInitialise n σ).2) (hupdate : P (assignAndUpdate k).2)
    (hk : P k) : P (clusteringPass n σ old k).2 := by
  unfold clusteringPass
  split
  · split
    · next h => exact hinit h.1
    · split
      · exact hupdate
      · exact hk
  · exact hk

theorem assignAndUpdate_untouched (k : KMeans T) : Untouched k (assignAndUpdate k).2 := by
  apply assignAndUpdate_keeps (Untouched k) (mAssignAll_untouched k)
  intro k' h
  exact h.trans (mUpdateMeans_untouched k')

theorem clusteringPass_untouched (n : UInt16) (σ : Shuffle (DataPoint T)) (old : UInt32) (k : KMeans T) :
    Untouched k (clusteringPass n σ old k).2 :=
  clusteringPass_keeps (Untouched k) (fun _ => mInitialise_untouched n σ k) (assignAndUpdate_untouched k) (.refl k)

theorem untouched_of_pass {n : UInt16} {σ : Shuffle (DataPoint T)} {old : UInt32} {k k' : KMeans T}
    {r : Except Exn Unit} (h : clusteringPass n σ old k = (r, k')) : Untouched k k' := by
  have hu := clusteringPass_untouched n σ old k
  rwa [h] at hu

/-- How the means stand before and after the first initialisation. -/
structure Seeded (n : UInt16) (k : KMeans T) : Prop where
  before : k.m_Initialised = false → k.m_CurrentMeans = []
  after : k.m_Initialised = true → k.m_CurrentMeans.length = n.toNat
  labelled : Labelled k.m_CurrentMeans

omit [Scalar T] in
theorem Seeded.new (n numArgs : UInt16) : Seeded n (KMeans.new numArgs : KMeans T) :=
  ⟨fun _ => rfl, fun h => by simp [KMeans.new] at h, Labelled.nil⟩

omit [Scalar T] in
theorem Seeded.mInitialise {n : UInt16} {k : KMeans T} (h : Seeded n k) (hinit : k.m_Initialised = false)
    (σ : Shuffle (DataPoint T)) : Seeded n (k.mInitialise n σ).2 := by
  rcases lt_or_ge k.m_PointVector.length n.toNat with hlt | hge
  · rw [mInitialise_short hlt]
    exact ⟨h.before, h.after, h.labelled⟩
  · have hlen : (σ.run k.m_PointVector).length = k.m_PointVector.length := (σ.perm _).length_eq
    rw [mInitialise_eq hge, h.before hinit, List.nil_append]
    exact ⟨fun hf => by simp at hf, fun _ => by simp [hlen, hge], initialMeans_labelled _ n.toNat_lt⟩

theorem Seeded.mUpdateMeans {n : UInt16} {k : KMeans T} (h : Seeded n k) : Seeded n k.mUpdateMeans.2 := by
  have hlen := mUpdateMeans_length k
  refine ⟨fun hinit => ?_, fun hinit => hlen.trans (h.after hinit), h.labelled.of_labels (mUpdateMeans_labels k)⟩
  rw [← List.length_eq_zero_iff, hlen, h.before hinit, List.length_nil]

theorem Seeded.mAssignAll {n : UInt16} {k : KMeans T} (h : Seeded n k) : Seeded n k.mAssignAll.2 :=
  ⟨h.before, h.after, h.labelled⟩

theorem Seeded.assignAndUpdate {n : UInt16} {k : KMeans T} (h : Seeded n k) : Seeded n (assignAndUpdate k).2 :=
  assignAndUpdate_keeps (Seeded n) h.mAssignAll fun _ h' => h'.mUpdateMeans

theorem Seeded.clusteringPass {n : UInt16} {k : KMeans T} (h : Seeded n k) (σ : Shuffle (DataPoint T))
    (old : UInt32) : Seeded n (clusteringPass n σ old k).2 :=
  clusteringPass_keeps (Seeded n) (fun hinit => h.mInitialise hinit σ) h.assignAndUpdate h

end Engine

end ProtocolLearner
