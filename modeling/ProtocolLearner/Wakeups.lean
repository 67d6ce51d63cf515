import ProtocolLearner.Worker
/-!
# Wake-ups, stopping and the first initialisation

No notification is lost and no stop gets stuck, in any interleaving
(`no_lost_wakeup_no_stuck_stop`). Whether the worker initialises as soon as it
can is another matter: it compares the point count with one it read without
the lock when it started, so points submitted before that can be overlooked
(`idle_means_initialised`).
-/

namespace ProtocolLearner.Engine

open Machine KMeans

variable {T : Type} [Scalar T]

/-! ## Wake-ups -/

/-- A worker that waits for a submission already made is about to be notified. -/
def Wakeable (s : Engine T) : Prop :=
  s.IsWaiting → s.kmeans.m_NewSubmissionReady = true → 0 < s.pendingNotifies

omit [Scalar T] in
theorem not_waiting_of_eq {s : Engine T} {w : Worker} (h : s.worker = w) (hw : ∀ old, w ≠ .waiting old) :
    ¬ s.IsWaiting := fun ⟨old, he⟩ => hw old (h ▸ he)

omit [Scalar T] in
theorem not_waiting_notified (w : Worker) (old : UInt32) : w.notified ≠ .waiting old := by
  cases w <;> simp [Worker.notified]

theorem wakeable_of_step {n : UInt16} {s s' : Engine T} {act : Act T} (hs : step n s act = some s') :
    s'.Wakeable := by
  cases transition_of_step hs with
  | wait _ hready => exact fun _ hr => absurd hr (by simp [hready])
  | submit => exact fun _ _ => Nat.succ_pos _
  | start | leave | enter | fail | lastPass | pass | spurious => exact fun hw => absurd hw (not_waiting_of_eq rfl (by simp))
  | notify | stop => exact fun hw => absurd hw (not_waiting_of_eq rfl (not_waiting_notified _))

/-! ## Stopping -/

/-- The stop call has run its critical section. -/
structure Stopping (s : Engine T) : Prop where
  stop : s.kmeans.m_StopThread = true
  ready : s.kmeans.m_NewSubmissionReady = true
  awake : ¬ s.IsWaiting

def passesLeft (s : Engine T) : Nat :=
  match s.worker with
  | .locking _ | .woken _ | .waiting _ => 1
  | _ => 0

def stepsLeft (s : Engine T) : Nat :=
  match s.worker with
  | .notStarted => 2
  | .exited | .terminated _ => 0
  | _ => 1

/-- The step begins a pass. -/
def beginsPass (s : Engine T) : Act T → Bool
  | .worker _ =>
    match s.worker with
    | .locking _ | .woken _ => s.kmeans.m_NewSubmissionReady
    | _ => false
  | _ => false

def ofWorker (_ : Engine T) : Act T → Bool
  | .worker _ => true
  | _ => false

omit [Scalar T] in
theorem notified_of_not_waiting {s : Engine T} (h : ¬ s.IsWaiting) : s.worker.notified = s.worker := by
  cases hw : s.worker with
  | waiting old => exact absurd ⟨old, hw⟩ h
  | notStarted | loopHead | locking | woken | exited | terminated => rfl

/-- Once stopping, every step keeps it so, and uses up what the worker has left. -/
theorem Stopping.step {n : UInt16} {s s' : Engine T} {act : Act T} (h : s.Stopping)
    (hs : step n s act = some s') : s'.Stopping ∧
      (if beginsPass s act then 1 else 0) + passesLeft s' ≤ passesLeft s ∧
      (if ofWorker s act then 1 else 0) + stepsLeft s' ≤ stepsLeft s := by
  cases transition_of_step hs with
  | start hw | leave hw =>
    refine ⟨⟨h.stop, h.ready, not_waiting_of_eq rfl (by simp)⟩, ?_, ?_⟩
    · simp [beginsPass, passesLeft, hw]
    · simp [ofWorker, stepsLeft, hw]
  -- The loop head sees the stop flag, and the ready flag keeps the worker from waiting.
  | enter _ hstop => rw [h.stop] at hstop; cases hstop
  | wait _ hready => rw [h.ready] at hready; cases hready
  | fail hw _ hpass | lastPass hw _ hpass _ =>
    have hu := untouched_of_pass hpass
    refine ⟨⟨hu.stop.trans h.stop, hu.ready.trans h.ready, not_waiting_of_eq rfl (by simp)⟩, ?_, ?_⟩
    · rcases hw with hw | hw <;> simp [beginsPass, passesLeft, hw, h.ready]
    · rcases hw with hw | hw <;> simp [ofWorker, stepsLeft, hw]
  | pass _ _ hpass hstop =>
    -- The pass changes no flag, so it is the last.
    have hu := untouched_of_pass hpass
    rw [hu.stop, h.stop] at hstop
    cases hstop
  | spurious hw => exact absurd ⟨_, hw⟩ h.awake
  | submit => exact ⟨⟨h.stop, rfl, h.awake⟩, by simp [beginsPass, passesLeft, Engine.submit],
      by simp [ofWorker, stepsLeft, Engine.submit]⟩
  | notify =>
    rw [notified_of_not_waiting h.awake]
    exact ⟨⟨h.stop, h.ready, h.awake⟩, by simp [beginsPass, passesLeft], by simp [ofWorker, stepsLeft]⟩
  | stop hstop => rw [h.stop] at hstop; cases hstop

/-- The stop flag is only ever set by the stop call, which leaves no worker waiting. -/
theorem stopping_of_step {n : UInt16} {s s' : Engine T} {act : Act T}
    (h : s.kmeans.m_StopThread = true → s.Stopping) (hs : step n s act = some s') :
    s'.kmeans.m_StopThread = true → s'.Stopping := by
  intro hstop'
  by_cases hstop : s.kmeans.m_StopThread = true
  · exact ((h hstop).step hs).1
  · cases transition_of_step hs with
    | stop => exact ⟨rfl, rfl, not_waiting_of_eq rfl (not_waiting_notified _)⟩
    | start | leave | enter | wait | spurious | submit | notify => exact absurd hstop' hstop
    | fail _ _ hpass | lastPass _ _ hpass _ | pass _ _ hpass _ =>
      have hu := untouched_of_pass hpass
      exact absurd (hu.stop.symm.trans hstop') hstop

/-- In every reachable state a worker that waits on a ready flag is about to be
notified. Once the stop flag is set, whatever happens next: the ready flag
stays set, the worker has ended or can take its next step, and it begins at
most one pass and takes at most two steps. -/
theorem no_lost_wakeup_no_stuck_stop {n numArgs : UInt16} {s : Engine T}
    (h : Reachable (step n) (launch numArgs) s) : s.Wakeable ∧ (s.kmeans.m_StopThread = true → ∀ acts : List (Act T),
      countSteps (step n) beginsPass s acts ≤ 1 ∧ countSteps (step n) ofWorker s acts ≤ 2 ∧
      ∀ s', run (step n) s acts = some s' → s'.kmeans.m_NewSubmissionReady = true ∧
        (s'.worker = .exited ∨ s'.IsTerminated ∨ ∀ σ, (step n s' (.worker σ)).isSome = true)) := by
  have hinv := h.inv (fun s : Engine T => s.Wakeable ∧ (s.kmeans.m_StopThread = true → s.Stopping))
    (fun _ _ _ hs hstep => ⟨wakeable_of_step hstep, stopping_of_step hs.2 hstep⟩)
    ⟨fun ⟨old, hw⟩ => by simp [launch] at hw, fun hstop => by simp [launch, KMeans.new] at hstop⟩
  refine ⟨hinv.1, ?_⟩
  intro hstop acts
  have hstopping := hinv.2 hstop
  have hkeep : ∀ (s : Engine T) (act : Act T) (s' : Engine T), s.Stopping → step n s act = some s' → s'.Stopping := by
    intro _ _ _ hs hstep
    exact (hs.step hstep).1
  refine ⟨?_, ?_, fun s' hrun => ?_⟩
  · have hle : countSteps (step n) beginsPass s acts ≤ passesLeft s :=
      countSteps_le Stopping passesLeft hkeep (fun _ _ _ hs hstep => (hs.step hstep).2.1) hstopping acts
    have : passesLeft s ≤ 1 := by unfold passesLeft; split <;> simp
    omega
  · have hle : countSteps (step n) ofWorker s acts ≤ stepsLeft s :=
      countSteps_le Stopping stepsLeft hkeep (fun _ _ _ hs hstep => (hs.step hstep).2.2) hstopping acts
    have : stepsLeft s ≤ 2 := by unfold stepsLeft; split <;> simp
    omega
  · have hs' := run_inv Stopping hkeep hrun hstopping
    refine ⟨hs'.ready, ?_⟩
    by_cases hexit : s'.worker = .exited
    · exact .inl hexit
    · by_cases hterm : s'.IsTerminated
      · exact .inr (.inl hterm)
      · exact .inr (.inr (worker_enabled n hs'.awake hterm hexit))

/-- The stop call comes when the worker is about to take the lock. -/
def stopWhileLocking : List (Act ℚ) := [.submit [0], .worker .id, .worker .id, .stop]

theorem stopWhileLocking_ends : ∃ s, run (step 1) (launch 1) stopWhileLocking = some s ∧
    ∀ acts, countSteps (step 1) beginsPass s acts ≤ 1 := by
  have hstop : (run (step 1) (launch 1) stopWhileLocking).map (·.kmeans.m_StopThread) = some true := by
    decide +kernel
  obtain ⟨s, hs, hstop⟩ := Option.map_eq_some_iff.1 hstop
  exact ⟨s, hs, fun acts => ((no_lost_wakeup_no_stuck_stop ⟨_, hs⟩).2 hstop acts).1⟩

/-! ## The first initialisation -/

/-- An idle worker with enough points has initialised. -/
def IdleLaw (n : UInt16) (s : Engine T) : Prop :=
  s.IsWaiting → s.kmeans.m_NewSubmissionReady = false → n.toNat ≤ s.kmeans.m_PointVector.length →
    s.kmeans.m_Initialised = true ∧ s.kmeans.m_CurrentMeans.length = n.toNat

/-- A pass that has yet to initialise, and has the points for it, sees a count
other than the remembered one, and large enough. -/
def CountSeen (n : UInt16) (s : Engine T) (act : Act T) : Prop :=
  beginsPass s act = true → s.kmeans.m_Initialised = false → n.toNat ≤ s.kmeans.m_PointVector.length →
    s.worker.old? ≠ some (currentSize s.kmeans) ∧ n.toNat ≤ (currentSize s.kmeans).toNat

instance (n : UInt16) (s : Engine T) (act : Act T) : Decidable (CountSeen n s act) := by
  unfold CountSeen
  infer_instance

omit [Scalar T] in
theorem Entering.beginsPass {s : Engine T} {old : UInt32} (h : s.Entering old)
    (hready : s.kmeans.m_NewSubmissionReady = true) (σ : Shuffle (DataPoint T)) :
    beginsPass s (.worker σ) = true := by
  rcases h with h | h <;> simp [Engine.beginsPass, h, hready]

omit [Scalar T] in
theorem Entering.old? {s : Engine T} {old : UInt32} (h : s.Entering old) : s.worker.old? = some old := by
  rcases h with h | h <;> simp [Worker.old?, h]

/-- What carries the law: a cleared ready flag means there was nothing to initialise from, or it is done. -/
structure Prompt (n : UInt16) (s : Engine T) : Prop where
  seeded : Seeded n s.kmeans
  settled : s.kmeans.m_NewSubmissionReady = false → n.toNat ≤ s.kmeans.m_PointVector.length →
    s.kmeans.m_Initialised = true

theorem assignAndUpdate_initialised (k : KMeans T) :
    (assignAndUpdate k).2.m_Initialised = k.m_Initialised :=
  assignAndUpdate_keeps (fun k' => k'.m_Initialised = k.m_Initialised) rfl fun _ h => h

/-- After a pass that found the engine initialised, or a new count that suffices, it is. -/
theorem clusteringPass_initialised {n : UInt16} {σ : Shuffle (DataPoint T)} {old : UInt32} {k : KMeans T}
    (h : k.m_Initialised = false → currentSize k ≠ old ∧ n.toNat ≤ (currentSize k).toNat) :
    (clusteringPass n σ old k).2.m_Initialised = true := by
  cases hinit : k.m_Initialised with
  | false =>
    obtain ⟨hne, hle⟩ := h hinit
    have hlen : n.toNat ≤ k.m_PointVector.length :=
      hle.trans (by rw [currentSize, UInt32.toNat_ofNat']; exact Nat.mod_le _ _)
    unfold clusteringPass
    rw [if_pos hne, if_pos ⟨hinit, hle⟩, mInitialise_eq hlen]
  | true =>
    unfold clusteringPass
    simp only [hinit, Bool.true_eq_false, false_and, if_false]
    split
    · split
      · rw [assignAndUpdate_initialised, hinit]
      · exact hinit
    · exact hinit

/-- A pass that sees the remembered count, or one too small, does nothing. -/
theorem clusteringPass_overlooked {n : UInt16} (σ : Shuffle (DataPoint T)) {old : UInt32} {k : KMeans T}
    (h : currentSize k = old ∨ (currentSize k).toNat < n.toNat) : clusteringPass n σ old k = (.ok (), k) := by
  unfold clusteringPass
  split
  · next hne =>
    have hlt : (currentSize k).toNat < n.toNat := h.resolve_left hne
    rw [if_neg fun hi => by omega, if_neg (by omega)]
  · rfl

theorem Prompt.step {n : UInt16} {s s' : Engine T} {act : Act T} (h : Prompt n s) (hseen : CountSeen n s act)
    (hs : step n s act = some s') : Prompt n s' := by
  cases transition_of_step hs with
  | start | leave | enter | wait | spurious | notify => exact ⟨h.seeded, h.settled⟩
  | submit => exact ⟨⟨h.seeded.before, h.seeded.after, h.seeded.labelled⟩, fun hr => by simp [Engine.submit, mSubmit] at hr⟩
  | stop => exact ⟨⟨h.seeded.before, h.seeded.after, h.seeded.labelled⟩, fun hr => by simp [Engine.stop] at hr⟩
  | @fail σ old e k hw hready hpass | @lastPass σ old k hw hready hpass _ =>
    have hu := untouched_of_pass hpass
    have hk : Seeded n k := by simpa [hpass] using h.seeded.clusteringPass σ old
    exact ⟨hk, fun hr => by simp [hu.ready, hready] at hr⟩
  | @pass σ old k hw hready hpass _ =>
    -- The only step that clears the ready flag.
    have hu := untouched_of_pass hpass
    have hk : Seeded n k := by simpa [hpass] using h.seeded.clusteringPass σ old
    refine ⟨⟨hk.before, hk.after, hk.labelled⟩, ?_⟩
    intro _ hlen
    have hpoints : n.toNat ≤ s.kmeans.m_PointVector.length := hu.length ▸ hlen
    have hinit : (clusteringPass n σ old s.kmeans).2.m_Initialised = true := by
      apply clusteringPass_initialised
      intro hinit
      obtain ⟨hne, hle⟩ := hseen (hw.beginsPass hready σ) hinit hpoints
      exact ⟨fun he => hne (by rw [hw.old?, he]), hle⟩
    rwa [hpass] at hinit

omit [Scalar T] in
theorem Prompt.idleLaw {n : UInt16} {s : Engine T} (h : Prompt n s) : IdleLaw n s := fun _ hready hlen =>
  ⟨h.settled hready hlen, h.seeded.after (h.settled hready hlen)⟩

omit [Scalar T] in
theorem entering_of_beginsPass {s : Engine T} {act : Act T} (h : beginsPass s act = true) :
    ∃ σ old, act = .worker σ ∧ s.Entering old ∧ s.kmeans.m_NewSubmissionReady = true := by
  cases act with
  | worker σ =>
    dsimp only [beginsPass] at h
    split at h
    · next old hw => exact ⟨σ, old, rfl, .inl hw, h⟩
    · next old hw => exact ⟨σ, old, rfl, .inr hw, h⟩
    · cases h
  | spurious | submit | notify | stop => cases h

theorem step_entering {s : Engine T} {old : UInt32} (h : s.Entering old) (n : UInt16)
    (σ : Shuffle (DataPoint T)) : step n s (.worker σ) = some (criticalSection n σ old s) := by
  rcases h with h | h <;> simp [step, IsTerminated, workerStep, h]

/-- A pass with nothing to do, unless it is the last, clears the ready flag and goes round. -/
theorem criticalSection_idle {n : UInt16} {s : Engine T} {σ : Shuffle (DataPoint T)} {old : UInt32}
    (hready : s.kmeans.m_NewSubmissionReady = true) (hstop : s.kmeans.m_StopThread = false)
    (hpass : clusteringPass n σ old s.kmeans = (.ok (), s.kmeans)) : criticalSection n σ old s = { s with
      kmeans := { s.kmeans with m_NewSubmissionReady := false }, worker := .loopHead (currentSize s.kmeans) } := by
  simp [criticalSection, hready, hpass, hstop]

/-- Where a pass overlooks the points, the worker goes idle two steps later. -/
theorem idle_after_overlooked {n : UInt16} {s s' : Engine T} {act : Act T} (hstop : s.kmeans.m_StopThread = false)
    (hs : step n s act = some s') (h : ¬ CountSeen n s act) (σ : Shuffle (DataPoint T)) :
    ∃ s'', run (step n) s' [.worker σ, .worker σ] = some s'' ∧ ¬ IdleLaw n s'' := by
  simp only [CountSeen, not_forall] at h
  obtain ⟨hbegin, hinit, hlen, hmiss⟩ := h
  obtain ⟨σ₀, old, rfl, hw, hready⟩ := entering_of_beginsPass hbegin
  have hpass : clusteringPass n σ₀ old s.kmeans = (.ok (), s.kmeans) := by
    refine clusteringPass_overlooked σ₀ (or_iff_not_imp_left.2 fun hne => not_le.1 fun hle => hmiss ⟨?_, hle⟩)
    rw [hw.old?, ne_eq, Option.some.injEq]
    intro he
    exact hne he.symm
  rw [step_entering hw, criticalSection_idle hready hstop hpass, Option.some.injEq] at hs
  subst hs
  -- To the loop head, to the lock, and into the wait.
  let idle : Engine T := { s with
    kmeans := { s.kmeans with m_NewSubmissionReady := false }, worker := .waiting (currentSize s.kmeans) }
  refine ⟨idle, ?_, fun hlaw => ?_⟩
  · simp [run, step, IsTerminated, workerStep, criticalSection, hstop, idle]
  · have := (hlaw ⟨_, rfl⟩ rfl hlen).1
    simp [idle, hinit] at this

/-- In every run whose passes see the count they need, a worker that idles on
enough points has initialised. Where a pass does not see it, and no stop call
has come, the worker can go idle without having initialised. -/
theorem idle_means_initialised {n numArgs : UInt16} (hn : 1 ≤ n.toNat) :
    (∀ acts : List (Act T), EveryStep (step n) (CountSeen n) (launch numArgs) acts →
      EveryState (step n) (IdleLaw n) (launch numArgs) acts) ∧
    ∀ (s s' : Engine T) (act : Act T), s.kmeans.m_StopThread = false → step n s act = some s' → ¬ CountSeen n s act →
      ∀ σ, ∃ s'', run (step n) s' [.worker σ, .worker σ] = some s'' ∧ ¬ IdleLaw n s'' := by
  refine ⟨fun acts hseen => ?_, fun s s' act hstop hs hmiss σ => idle_after_overlooked hstop hs hmiss σ⟩
  have hprompt : Prompt n (launch numArgs : Engine T) :=
    ⟨Seeded.new n numArgs, fun _ hlen => absurd hlen (by simp [launch, KMeans.new]; omega)⟩
  exact (EveryState.of_inv (Prompt n) (CountSeen n) (fun _ _ _ h hc hs => h.step hc hs) hprompt hseen).mono
    fun _ h => h.idleLaw

/-- The thread starts first, then a point comes. -/
def startFirst : List (Act ℚ) :=
  [.worker .id, .submit [0], .notify, .worker .id, .worker .id, .worker .id, .worker .id]

theorem startFirst_initialised : ∃ s, run (step 1) (launch 1) startFirst = some s ∧ s.IsWaiting ∧
    s.kmeans.m_NewSubmissionReady = false ∧ s.kmeans.m_PointVector.length = 1 ∧ IdleLaw 1 s := by
  have hrun : (run (step 1) (launch 1) startFirst).map
      (fun s => (s.worker, s.kmeans.m_NewSubmissionReady, s.kmeans.m_PointVector.length)) =
      some (.waiting 1, false, 1) := by decide +kernel
  obtain ⟨s, hs, he⟩ := Option.map_eq_some_iff.1 hrun
  simp only [Prod.mk.injEq] at he
  exact ⟨s, hs, ⟨1, he.1⟩, he.2.1, he.2.2,
    ((idle_means_initialised (by decide)).1 startFirst (by decide +kernel)).last hs⟩

/-- A point comes before the thread reads the count. -/
def submitFirst : List (Act ℚ) :=
  [.submit [0], .notify, .worker .id, .worker .id, .worker .id, .worker .id, .worker .id]

/-- The worker waits with a point it never looked at. -/
theorem submitFirst_overlooked :
    ∃ s, run (step 1) (launch 1) submitFirst = some s ∧ ¬ IdleLaw 1 s := by
  have hrun : (run (step 1) (launch 1) submitFirst).map (fun s => (s.worker, s.kmeans.m_NewSubmissionReady,
      s.kmeans.m_PointVector.length, s.kmeans.m_Initialised)) = some (.waiting 1, false, 1, false) := by
    decide +kernel
  obtain ⟨s, hs, he⟩ := Option.map_eq_some_iff.1 hrun
  simp only [Prod.mk.injEq] at he
  obtain ⟨hw, hready, hlen, hinit⟩ := he
  refine ⟨s, hs, ?_⟩
  intro hlaw
  have := (hlaw ⟨1, hw⟩ hready (by rw [hlen]; decide)).1
  simp [hinit] at this

end ProtocolLearner.Engine
