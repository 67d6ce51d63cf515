import ProtocolLearner.Linearization
/-!
# Idle workers

A thread that was launched before anything was submitted leaves nothing
unclustered: whenever it waits with the ready flag down, the last call made of
the engine is a clustering call, so every stored point has been taken into it
(`idle_clustered`).
-/

namespace ProtocolLearner.Engine

open Machine KMeans

variable {T : Type}

/-- Of the points `seen` were there when the worker last looked, and of these
none is left unclustered unless they are too few for the means. -/
structure Seen (n : UInt16) (cs : List (Call T)) (s : Engine T) (seen : Nat) : Prop where
  le : seen ≤ s.kmeans.m_PointVector.length
  initialised : s.kmeans.m_Initialised = true → n.toNat ≤ seen
  new : seen < s.kmeans.m_PointVector.length → s.kmeans.m_NewSubmissionReady = true
  all : seen = s.kmeans.m_PointVector.length → s.kmeans.m_PointVector.length < n.toNat ∨ ¬ EndsInSubmission cs

/-- The worker remembers what it has seen. -/
structure Watching (n : UInt16) (cs : List (Call T)) (s : Engine T) : Prop where
  started : s.worker ≠ .notStarted
  seen : ∀ old, s.worker.old? = some old → ∃ seen, old = UInt32.ofNat seen ∧ Seen n cs s seen

/-- A pass over fewer than 2^32 points, some of them new, clusters them unless they are too few. -/
theorem Seen.passCalls {n : UInt16} {cs : List (Call T)} {s : Engine T} {seen : Nat} (h : Seen n cs s seen)
    (hfew : s.kmeans.m_PointVector.length < 2 ^ 32) (σ : Shuffle (DataPoint T)) :
    s.kmeans.m_PointVector.length < n.toNat ∨
      ¬ EndsInSubmission (cs ++ Engine.passCalls n σ (UInt32.ofNat seen) s.kmeans) := by
  have hsize := currentSize_toNat hfew
  by_cases hall : seen = s.kmeans.m_PointVector.length
  · have hold : currentSize s.kmeans = UInt32.ofNat seen := by rw [hall, currentSize]
    rw [Engine.passCalls, if_neg (not_not.2 hold), List.append_nil]
    exact h.all hall
  · have hlt : seen < s.kmeans.m_PointVector.length := lt_of_le_of_ne h.le hall
    rw [Engine.passCalls, if_pos (currentSize_ne hlt hfew), hsize]
    split
    · exact .inr (not_endsInSubmission rfl)
    · next hinit =>
      split
      · exact .inr (not_endsInSubmission rfl)
      · next hge =>
        -- Enough points for the means, and none to spare: they were drawn from fewer.
        refine .inl (lt_of_not_ge fun hle => ?_)
        have htrue : s.kmeans.m_Initialised = true := by
          by_contra hf
          exact hinit ⟨by simpa using hf, hle⟩
        have := h.initialised htrue
        omega

/-! ## Steps -/

/-- A step that keeps the worker's count and the engine's data, and may raise the ready flag. -/
theorem Watching.rest {n : UInt16} {cs : List (Call T)} {s s' : Engine T} (h : Watching n cs s)
    (hstarted : s'.worker ≠ .notStarted) (hold : s'.worker.old? = s.worker.old?)
    (hpoints : s'.kmeans.m_PointVector = s.kmeans.m_PointVector)
    (hinit : s'.kmeans.m_Initialised = s.kmeans.m_Initialised)
    (hready : s.kmeans.m_NewSubmissionReady = true → s'.kmeans.m_NewSubmissionReady = true) : Watching n cs s' := by
  refine ⟨hstarted, fun old he => ?_⟩
  obtain ⟨seen, hseen, hs⟩ := h.seen old (hold ▸ he)
  exact ⟨seen, hseen, by rw [hpoints]; exact hs.le, by rw [hinit]; exact hs.initialised,
    by rw [hpoints]; exact fun hlt => hready (hs.new hlt), by rw [hpoints]; exact hs.all⟩

theorem watching_of_ended {n : UInt16} {cs : List (Call T)} {s : Engine T} (hstarted : s.worker ≠ .notStarted)
    (hnone : s.worker.old? = none) : Watching n cs s := by
  refine ⟨hstarted, fun old he => ?_⟩
  rw [hnone] at he
  cases he

theorem notified_started {w : Worker} (h : w ≠ .notStarted) : w.notified ≠ .notStarted := by
  cases w <;> simp_all [Worker.notified]

variable [Scalar T]

/-- The new point has not been seen, whatever calls have been made. -/
theorem Seen.submit {n : UInt16} {cs : List (Call T)} {s : Engine T} {seen : Nat} (h : Seen n cs s seen) (v : List T)
    (cs' : List (Call T)) : Seen n cs' (s.submit v) seen := by
  have hlen : (s.submit v).kmeans.m_PointVector.length = s.kmeans.m_PointVector.length + 1 := by
    simp [Engine.submit, mSubmit]
  have hle := h.le
  exact ⟨by omega, h.initialised, fun _ => rfl, fun he => by omega⟩

/-- After a pass all points have been seen. -/
theorem Seen.pass {n : UInt16} {cs : List (Call T)} {s : Engine T} {seen : Nat} (h : Seen n cs s seen)
    (hfew : s.kmeans.m_PointVector.length < 2 ^ 32) {σ : Shuffle (DataPoint T)} {k : KMeans T} {worker : Worker}
    (hpass : clusteringPass n σ (UInt32.ofNat seen) s.kmeans = (.ok (), k)) :
    Seen n (cs ++ Engine.passCalls n σ (UInt32.ofNat seen) s.kmeans)
      { s with kmeans := { k with m_NewSubmissionReady := false }, worker := worker }
      s.kmeans.m_PointVector.length := by
  have hlen := (untouched_of_pass hpass).length
  have hcalls := h.passCalls hfew σ
  refine ⟨hlen.ge, fun hinit => ?_, fun hlt => ?_, fun _ => ?_⟩
  · rcases clusteringPass_cases n σ (UInt32.ofNat seen) s.kmeans with ⟨-, hle, -⟩ | ⟨-, htrue, -⟩ | ⟨-, hnone⟩
    · exact hle
    · exact (h.initialised htrue).trans h.le
    · obtain rfl : k = s.kmeans := congrArg Prod.snd (hpass.symm.trans hnone)
      exact (h.initialised hinit).trans h.le
  · exact absurd hlt (by simp [hlen])
  · simpa [hlen] using hcalls

theorem Watching.step {n : UInt16} {cs : List (Call T)} {s s' : Engine T} {act : Act T} (h : Watching n cs s)
    (hfew : s.kmeans.m_PointVector.length < 2 ^ 32) (hs : Engine.step n s act = some s') :
    Watching n (cs ++ calls n s act) s' := by
  have hsilent (hc : calls n s act = []) (hw : Watching n cs s') : Watching n (cs ++ calls n s act) s' := by
    rw [hc, List.append_nil]
    exact hw
  cases transition_of_step hs with
  | start hw => exact absurd hw h.started
  | leave hw => exact watching_of_ended (by simp) rfl
  | enter hw => exact hsilent (by simp [calls, hw]) (h.rest (by simp) (by simp [Worker.old?, hw]) rfl rfl id)
  | wait hw hready =>
    exact hsilent (by simp [calls_entering hw, hready]) (h.rest (by simp) hw.old?.symm rfl rfl id)
  | spurious hw => exact hsilent rfl (h.rest (by simp) (by simp [Worker.old?, hw]) rfl rfl id)
  | notify => exact hsilent rfl (h.rest (notified_started h.started) (notified_old _) rfl rfl id)
  | stop => exact hsilent rfl (h.rest (notified_started h.started) (notified_old _) rfl rfl fun _ => rfl)
  | fail | lastPass => exact watching_of_ended (by simp) rfl
  | @submit v =>
    refine ⟨h.started, fun old he => ?_⟩
    obtain ⟨seen, hseen, hs⟩ := h.seen old he
    exact ⟨seen, hseen, hs.submit v _⟩
  | @pass σ old k hw hready hpass =>
    obtain ⟨seen, rfl, hseen⟩ := h.seen old hw.old?
    rw [calls_entering hw, if_pos hready]
    refine ⟨by simp, ?_⟩
    rintro _ ⟨⟩
    exact ⟨_, rfl, hseen.pass hfew hpass⟩

omit [Scalar T] in
theorem Watching.start {n : UInt16} (hn : 1 ≤ n.toNat) (numArgs : UInt16) :
    Watching n [] (⟨KMeans.new numArgs, .loopHead 0, 0⟩ : Engine T) := by
  refine ⟨by simp, ?_⟩
  rintro _ ⟨⟩
  exact ⟨0, rfl, le_rfl, (fun h => by cases h), fun h => absurd h (lt_irrefl 0), fun _ => .inl hn⟩

theorem points_of_run {n : UInt16} {acts : List (Act T)} {s : Engine T} {worker : Worker} {pending : Nat}
    {numArgs : UInt16} (h : run (step n) ⟨KMeans.new numArgs, worker, pending⟩ acts = some s) :
    s.kmeans.m_PointVector.length = (submitted acts).length := by
  refine run_inv_trace (fun acts s => s.kmeans.m_PointVector.length = (submitted acts).length)
    (fun acts s₁ act s₂ he hs => ?_) h rfl
  rw [step_points hs, he, submitted_append, List.length_append]

/-! ## Main theorem -/

/-- In a run of fewer than 2^32 submissions, all of them made after the thread
has read the point count for the first time: whenever the worker waits with the
ready flag down and there are points enough, the last of the calls the run
stands for is a clustering call. -/
theorem idle_clustered {n numArgs : UInt16} (hn : 1 ≤ n.toNat) {σ : Shuffle (DataPoint T)} {acts : List (Act T)}
    {s : Engine T} (hrun : run (step n) (launch numArgs) (.worker σ :: acts) = some s)
    (hfew : (submitted acts).length < 2 ^ 32) (hwait : s.IsWaiting) (hready : s.kmeans.m_NewSubmissionReady = false)
    (hlen : n.toNat ≤ s.kmeans.m_PointVector.length) :
    ∃ (cs : List (Call T)) (c : Call T), run (callStep n) (KMeans.new numArgs) (cs ++ [c]) = some (sequential s.kmeans) ∧
      c.clusters = true ∧ Call.vectors cs = submitted acts := by
  let s₁ : Engine T := ⟨KMeans.new numArgs, .loopHead 0, 0⟩
  obtain ⟨_, h₁, hacts⟩ := run_cons_some.1 hrun
  obtain rfl : s₁ = _ := Option.some.inj h₁
  let cs := (simulation n hn).trace s₁ acts
  obtain ⟨hcalls, hvectors⟩ : run (callStep n) (KMeans.new numArgs) cs = some (sequential s.kmeans) ∧
      Call.vectors cs = submitted acts := calls_of_run hn rfl hacts
  have hpoints : s.kmeans.m_PointVector.length = (submitted acts).length := points_of_run hacts
  have hwatching : Watching n cs s := by
    refine Simulation.trace_inv (fun cs s => s.kmeans.m_PointVector.length < 2 ^ 32 → Watching n cs s)
      (fun cs s act s' _ h hs hfew => ?_) (.new n numArgs) hacts (fun _ => .start hn numArgs) (hpoints.trans_lt hfew)
    have hfew' : s.kmeans.m_PointVector.length < 2 ^ 32 := by
      have := step_points hs
      omega
    exact (h hfew').step hfew' hs
  obtain ⟨old, hold⟩ := hwait
  obtain ⟨seen, -, hseen⟩ := hwatching.seen old (by rw [hold]; rfl)
  -- With the flag down nothing is new, so nothing is left unclustered.
  have hall : seen = s.kmeans.m_PointVector.length := by
    refine le_antisymm hseen.le (not_lt.1 fun hlt => ?_)
    rw [hseen.new hlt] at hready
    cases hready
  have hlast : ¬ EndsInSubmission cs := (hseen.all hall).resolve_left (not_lt.2 hlen)
  rcases List.eq_nil_or_concat cs with hnil | ⟨cs', c, hconcat⟩
  · have hzero : s.kmeans.m_PointVector.length = 0 := by
      rw [hpoints, ← hvectors, hnil]
      rfl
    omega
  · rw [List.concat_eq_append] at hconcat
    rw [hconcat, endsInSubmission_snoc, Bool.not_eq_false] at hlast
    refine ⟨cs', c, hconcat ▸ hcalls, hlast, ?_⟩
    rw [← hvectors, hconcat, vectors_append, vectors_of_clusters hlast, List.append_nil]

/-- Launched first, and then three submissions, an initialisation and a round. -/
theorem drawTwo_clustered : ∃ s, run (step 2) (launch 2) (drawTwo [1, 0] [0, 1] [3 / 4, 1 / 4] ++
    [.worker .id, .worker .id, .worker .id]) = some s ∧ ∃ (cs : List (Call ℚ)) (c : Call ℚ),
      run (callStep 2) (KMeans.new 2) (cs ++ [c]) = some (sequential s.kmeans) ∧ c.clusters = true ∧
        Call.vectors cs = [[1, 0], [0, 1], [3 / 4, 1 / 4]] := by
  have hrun : (run (step 2) (launch 2) (drawTwo [1, 0] [0, 1] [3 / 4, 1 / 4] ++
      [.worker .id, .worker .id, .worker .id])).map (fun s =>
        (s.worker, s.kmeans.m_NewSubmissionReady, s.kmeans.m_PointVector.length)) = some (.waiting 3, false, 3) := by
    decide +kernel
  obtain ⟨s, hs, he⟩ := Option.map_eq_some_iff.1 hrun
  simp only [Prod.mk.injEq] at he
  exact ⟨s, hs, idle_clustered (by decide) hs (by decide) ⟨3, he.1⟩ he.2.1 (by rw [he.2.2]; decide)⟩

end ProtocolLearner.Engine
