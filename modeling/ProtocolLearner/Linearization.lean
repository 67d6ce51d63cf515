import ProtocolLearner.Lib.Simulation
import ProtocolLearner.Throws
import ProtocolLearner.EmptyGroups
/-!
# The engine as a sequential object

Whatever the threads do, what they have made of points and means is what a
sequential program makes of them that submits the same vectors in the same
order, initialises once, and otherwise assigns and updates, with no submission
between the two (`linearizable`). So what is known of runs of calls holds of
every interleaving.
-/

namespace ProtocolLearner.Engine

open Machine KMeans

variable {T : Type}

/-- What the threads do to the engine under the lock. -/
inductive Call (T : Type) where
  | submit (inVector : List T)
  | initialise (shuffle : Shuffle (DataPoint T))
  /-- `mAssignAll` and then `mUpdateMeans`, whether that throws or not. -/
  | round

/-- The call is not a submission. -/
def Call.clusters : Call T → Bool
  | submit _ => false
  | initialise _ | round => true

/-- The vectors the calls submit, in order. -/
def Call.vectors (cs : List (Call T)) : List (List T) :=
  cs.filterMap fun
    | .submit inVector => some inVector
    | _ => none

theorem vectors_append (cs cs' : List (Call T)) : Call.vectors (cs ++ cs') = Call.vectors cs ++ Call.vectors cs' :=
  List.filterMap_append

theorem vectors_of_clusters {c : Call T} (h : c.clusters = true) : Call.vectors [c] = [] := by
  cases c with
  | submit v => cases h
  | initialise | round => rfl

variable [Scalar T]

/-- One call of the sequential program: it initialises once, with points enough,
and assigns and updates from then on. -/
def callStep (n : UInt16) (k : KMeans T) : Call T → Option (KMeans T)
  | .submit inVector => k.step (.submit inVector)
  | .initialise shuffle =>
    if k.m_Initialised = false ∧ n.toNat ≤ k.m_PointVector.length then k.step (.initialise n shuffle) else none
  | .round =>
    if k.m_Initialised = true ∧ n.toNat < k.m_PointVector.length then
      (k.step .assignAll).bind fun k => k.step .updateMeans
    else none

/-- The engine's object, with the flags as calls from one thread leave them. -/
def sequential (k : KMeans T) : KMeans T :=
  { k with m_NewSubmissionReady := !k.m_PointVector.isEmpty, m_StopThread := false }

/-- The call of one pass. -/
def passCalls (n : UInt16) (shuffle : Shuffle (DataPoint T)) (old : UInt32) (k : KMeans T) : List (Call T) :=
  if currentSize k ≠ old then
    if k.m_Initialised = false ∧ n.toNat ≤ (currentSize k).toNat then [.initialise shuffle]
    else if n.toNat < (currentSize k).toNat then [.round]
    else []
  else []

/-- The call of a step of the threads, if it is one. -/
def calls (n : UInt16) (s : Engine T) : Act T → List (Call T)
  | .submit inVector => [.submit inVector]
  | .worker shuffle =>
    match s.worker with
    | .locking old | .woken old => if s.kmeans.m_NewSubmissionReady then passCalls n shuffle old s.kmeans else []
    | .notStarted | .loopHead _ | .waiting _ | .exited | .terminated _ => []
  | .spurious | .notify | .stop => []

/-! ## One pass -/

omit [Scalar T] in
theorem currentSize_le (k : KMeans T) : (currentSize k).toNat ≤ k.m_PointVector.length := by
  rw [currentSize, UInt32.toNat_ofNat']
  exact Nat.mod_le _ _

theorem step_of_defined {k : KMeans T} {op : Op T} (h : (k.call op).1 ≠ .error .undefined) :
    k.step op = some (k.call op).2 := by
  unfold KMeans.step
  split
  · next hr => exact absurd (congrArg Prod.fst hr) h
  · next hr => rw [hr]

theorem mUpdateMeans_defined (k : KMeans T) : (k.call .updateMeans).1 ≠ .error .undefined := by
  intro h
  by_cases hshort : ∃ m ∈ k.m_CurrentMeans, ∃ p ∈ group m.m_Label k.m_PointVector,
      p.m_Vector.length < k.m_NumArgs.toNat
  · have herr : k.mUpdateMeans.1 = .error .outOfRange := updateLoop_short hshort
    cases herr.symm.trans h
  · push Not at hshort
    have hok : k.mUpdateMeans.1 = .ok () := updateLoop_ok_iff.2 hshort
    cases hok.symm.trans h

omit [Scalar T] in
theorem sequential_mInitialise (n : UInt16) (σ : Shuffle (DataPoint T)) {k : KMeans T}
    (h : n.toNat ≤ k.m_PointVector.length) :
    (sequential k).mInitialise n σ = (.ok (), sequential (k.mInitialise n σ).2) := by
  have hempty : (σ.run k.m_PointVector).isEmpty = k.m_PointVector.isEmpty := by
    have hlen := (σ.perm k.m_PointVector).length_eq
    rw [Bool.eq_iff_iff, List.isEmpty_iff_length_eq_zero, List.isEmpty_iff_length_eq_zero, hlen]
  have h' : n.toNat ≤ (sequential k).m_PointVector.length := h
  rw [mInitialise_eq h, mInitialise_eq h']
  simp [sequential, hempty]

/-- With means to assign to, the pass updates whether the assignment throws or not. -/
theorem sequential_round {n : UInt16} (hn : 1 ≤ n.toNat) {k : KMeans T} (h : Seeded n k)
    (hinit : k.m_Initialised = true) (hlen : n.toNat < k.m_PointVector.length) :
    callStep n (sequential k) .round = some (sequential (assignAndUpdate k).2) := by
  have hmeans : k.m_CurrentMeans ≠ [] := List.ne_nil_of_length_pos (by have := h.after hinit; omega)
  have hassign := assignLoop_error hmeans h.labelled k.m_PointVector
  have hdefined : ((sequential k).call .assignAll).1 ≠ .error .undefined := by
    intro he
    rcases hassign with ha | ha <;> cases ha.symm.trans he
  have hempty : k.mAssignAll.2.m_PointVector.isEmpty = k.m_PointVector.isEmpty := by
    rw [Bool.eq_iff_iff, List.isEmpty_iff_length_eq_zero, List.isEmpty_iff_length_eq_zero,
      (mAssignAll_untouched k).length]
  have hcall : ((sequential k).call .assignAll).2 = sequential k.mAssignAll.2 := by
    simp only [call, mAssignAll, sequential]
    rw [← hempty]
    rfl
  rw [assignAndUpdate_eq hassign]
  simp only [callStep]
  rw [if_pos ⟨hinit, hlen⟩, step_of_defined hdefined, Option.bind_some, hcall,
    step_of_defined (mUpdateMeans_defined _)]
  rfl

/-- A pass is its call. -/
theorem run_passCalls {n : UInt16} (hn : 1 ≤ n.toNat) (σ : Shuffle (DataPoint T)) (old : UInt32) {k : KMeans T}
    (h : Seeded n k) : run (callStep n) (sequential k) (passCalls n σ old k) =
      some (sequential (clusteringPass n σ old k).2) := by
  have hle := currentSize_le k
  unfold passCalls clusteringPass
  split
  · split
    · next hinit =>
      have hlen : n.toNat ≤ k.m_PointVector.length := hinit.2.trans hle
      have hinit' : (sequential k).m_Initialised = false ∧ n.toNat ≤ (sequential k).m_PointVector.length :=
        ⟨hinit.1, hlen⟩
      have hcall : (sequential k).call (.initialise n σ) = _ := sequential_mInitialise n σ hlen
      rw [run_cons, callStep, if_pos hinit', step_of_defined (by rw [hcall]; simp), hcall]
      rfl
    · split
      · next hnot hlt =>
        have hinit : k.m_Initialised = true := by
          by_contra hf
          exact hnot ⟨by simpa using hf, hlt.le⟩
        rw [run_cons, sequential_round hn h hinit (hlt.trans_le hle)]
        rfl
      · rfl
  · rfl

/-! ## The simulation -/

omit [Scalar T] in
theorem calls_entering {n : UInt16} {s : Engine T} {old : UInt32} (h : s.Entering old) (σ : Shuffle (DataPoint T)) :
    calls n s (.worker σ) = if s.kmeans.m_NewSubmissionReady then passCalls n σ old s.kmeans else [] := by
  rcases h with h | h
  · rw [calls, h]
  · rw [calls, h]

/-- A step of the threads is what the sequential program does of its calls. -/
theorem run_calls {n : UInt16} (hn : 1 ≤ n.toNat) {s s' : Engine T} {act : Act T} (h : Seeded n s.kmeans)
    (hs : step n s act = some s') :
    run (callStep n) (sequential s.kmeans) (calls n s act) = some (sequential s'.kmeans) := by
  cases transition_of_step hs with
  | start hw | leave hw | enter hw =>
    rw [calls, hw]
    rfl
  | wait hw hready =>
    rw [calls_entering hw, hready]
    rfl
  | fail hw hready hpass | lastPass hw hready hpass =>
    rw [calls_entering hw, if_pos hready, run_passCalls hn _ _ h, hpass]
  | pass hw hready hpass =>
    rw [calls_entering hw, if_pos hready, run_passCalls hn _ _ h, hpass]
    rfl
  | submit =>
    simp only [calls, run_cons, callStep, KMeans.step, call, Option.bind_some, run_nil]
    simp [sequential, submit, mSubmit]
  | spurious | notify | stop => rfl

def simulation (n : UInt16) (hn : 1 ≤ n.toNat) : Simulation (step (T := T) n) (callStep (T := T) n) where
  abs s := sequential s.kmeans
  moves := calls n
  inv s := Seeded n s.kmeans
  inv_step _ _ _ h hs := h.step hs
  run_moves _ _ _ h hs := run_calls hn h hs

/-! ## The order of the calls -/

omit [Scalar T] in
theorem passCalls_clusters (n : UInt16) (σ : Shuffle (DataPoint T)) (old : UInt32) (k : KMeans T) :
    passCalls n σ old k = [] ∨ currentSize k ≠ old ∧ ∃ c, passCalls n σ old k = [c] ∧ c.clusters = true := by
  unfold passCalls
  split
  · next hne =>
    split
    · exact .inr ⟨hne, _, rfl, rfl⟩
    · split
      · exact .inr ⟨hne, _, rfl, rfl⟩
      · exact .inl rfl
  · exact .inl rfl

omit [Scalar T] in
theorem passCalls_vectors (n : UInt16) (σ : Shuffle (DataPoint T)) (old : UInt32) (k : KMeans T) :
    Call.vectors (passCalls n σ old k) = [] := by
  unfold passCalls
  split_ifs <;> rfl

omit [Scalar T] in
/-- What the threads submit, the program submits. -/
theorem calls_vectors (n : UInt16) (s : Engine T) (act : Act T) :
    Call.vectors (calls n s act) = submitted [act] := by
  cases act with
  | submit v => rfl
  | worker σ =>
    have hnone := fun old => passCalls_vectors n σ old s.kmeans
    simp only [calls]
    split
    · split
      · exact hnone _
      · rfl
    · split
      · exact hnone _
      · rfl
    all_goals rfl
  | spurious | notify | stop => rfl

omit [Scalar T] in
theorem submitted_append (acts acts' : List (Act T)) : submitted (acts ++ acts') = submitted acts ++ submitted acts' :=
  List.filterMap_append

omit [Scalar T] in
theorem notified_old (w : Worker) : w.notified.old? = w.old? := by
  cases w <;> rfl

/-- The point count the worker holds is the current one. -/
def Fresh (s : Engine T) : Prop := ∀ old, s.worker.old? = some old → currentSize s.kmeans = old

/-- The last call is a submission. -/
def EndsInSubmission (cs : List (Call T)) : Prop := ∃ c ∈ cs.getLast?, c.clusters = false

instance (cs : List (Call T)) : Decidable (EndsInSubmission cs) := by
  unfold EndsInSubmission
  infer_instance

/-- A clustering call comes directly after a submission. -/
def AfterSubmission (pre : List (Call T)) (c : Call T) : Prop := c.clusters = true → EndsInSubmission pre

instance (pre : List (Call T)) (c : Call T) : Decidable (AfterSubmission pre c) :=
  inferInstanceAs (Decidable (_ → _))

omit [Scalar T] in
theorem endsInSubmission_snoc {cs : List (Call T)} {c : Call T} :
    EndsInSubmission (cs ++ [c]) ↔ c.clusters = false := by
  simp [EndsInSubmission]

omit [Scalar T] in
theorem not_endsInSubmission {cs : List (Call T)} {c : Call T} (h : c.clusters = true) :
    ¬ EndsInSubmission (cs ++ [c]) := by
  simp [endsInSubmission_snoc, h]

/-- Between two clustering calls there are points new to the worker. -/
structure Spaced (cs : List (Call T)) (s : Engine T) : Prop where
  each : EachEntry AfterSubmission cs
  fresh : Fresh s ∨ EndsInSubmission cs

omit [Scalar T] in
/-- After a pass the worker holds the current count, or ends. -/
theorem Spaced.pass {n : UInt16} {cs : List (Call T)} {s s' : Engine T} {old : UInt32} {σ : Shuffle (DataPoint T)}
    (h : Spaced cs s) (hold : s.Entering old) (hready : s.kmeans.m_NewSubmissionReady = true) (hf : Fresh s') :
    Spaced (cs ++ calls n s (.worker σ)) s' := by
  rw [calls_entering hold, if_pos hready]
  rcases passCalls_clusters n σ old s.kmeans with hc | ⟨hne, c, hc, hclusters⟩
  · rw [hc, List.append_nil]
    exact ⟨h.each, .inl hf⟩
  · rw [hc]
    refine ⟨eachEntry_snoc.2 ⟨h.each, fun _ => ?_⟩, .inl hf⟩
    -- The count has changed, so a submission came last.
    exact h.fresh.resolve_left fun hold' => hne (hold' old hold.old?)

theorem Spaced.step {n : UInt16} {cs : List (Call T)} {s s' : Engine T} {act : Act T} (h : Spaced cs s)
    (hs : Engine.step n s act = some s') : Spaced (cs ++ calls n s act) s' := by
  -- A step without calls that keeps the worker's count and the points.
  have hrest : calls n s act = [] → s'.worker.old? = s.worker.old? →
      s'.kmeans.m_PointVector = s.kmeans.m_PointVector → Spaced (cs ++ calls n s act) s' := by
    intro hc hold hpoints
    rw [hc, List.append_nil]
    refine ⟨h.each, h.fresh.imp_left fun hf => ?_⟩
    simp only [Fresh, currentSize, hold, hpoints]
    exact hf
  cases transition_of_step hs with
  | start hw =>
    refine ⟨?_, .inl ?_⟩
    · simpa [calls, hw] using h.each
    · rintro old ⟨⟩
      rfl
  | leave hw =>
    refine ⟨?_, .inl ?_⟩
    · simpa [calls, hw] using h.each
    · rintro old ⟨⟩
  | enter hw => exact hrest (by simp [calls, hw]) (by simp [Worker.old?, hw]) rfl
  | wait hw hready => exact hrest (by simp [calls_entering hw, hready]) hw.old?.symm rfl
  | spurious hw => exact hrest rfl (by simp [Worker.old?, hw]) rfl
  | notify | stop => exact hrest rfl (notified_old _) rfl
  | submit =>
    refine ⟨eachEntry_snoc.2 ⟨h.each, ?_⟩, .inr (endsInSubmission_snoc.2 rfl)⟩
    rintro ⟨⟩
  | fail hw hready | lastPass hw hready =>
    refine h.pass hw hready ?_
    rintro old ⟨⟩
  | pass hw hready hpass =>
    refine h.pass hw hready ?_
    rintro old ⟨⟩
    exact congrArg UInt32.ofNat (untouched_of_pass hpass).length

/-- Of the clustering calls the first initialises, and the others do not. -/
def InitialisedOnce (cs : List (Call T)) (k : KMeans T) : Prop :=
  (k.m_Initialised = false ∧ cs.filter Call.clusters = []) ∨
    k.m_Initialised = true ∧ ∃ σ m, cs.filter Call.clusters = .initialise σ :: List.replicate m .round

theorem InitialisedOnce.step {n : UInt16} {cs : List (Call T)} {k k' : KMeans T} {c : Call T}
    (h : InitialisedOnce cs k) (hs : callStep n k c = some k') : InitialisedOnce (cs ++ [c]) k' := by
  cases c with
  | submit v =>
    cases hs
    unfold InitialisedOnce
    rw [List.filter_append, List.filter_singleton, Call.clusters, Bool.cond_false, List.append_nil]
    exact h
  | initialise σ =>
    simp only [callStep] at hs
    split at hs
    · next hinit =>
      obtain ⟨rfl, -⟩ := step_some hs
      rcases h with ⟨-, hnone⟩ | ⟨htrue, -⟩
      · refine .inr ⟨?_, σ, 0, ?_⟩
        · simp [call, mInitialise_eq hinit.2]
        · simp [List.filter_append, hnone, Call.clusters]
      · rw [hinit.1] at htrue
        cases htrue
    · cases hs
  | round =>
    simp only [callStep] at hs
    split at hs
    · next hinit =>
      obtain ⟨k₁, h₁, h₂⟩ := Option.bind_eq_some_iff.1 hs
      obtain ⟨rfl, -⟩ := step_some h₁
      obtain ⟨rfl, -⟩ := step_some h₂
      rcases h with ⟨hfalse, -⟩ | ⟨htrue, σ, m, he⟩
      · rw [hinit.1] at hfalse
        cases hfalse
      · refine .inr ⟨htrue, σ, m + 1, ?_⟩
        rw [List.filter_append, he, List.replicate_succ']
        rfl
    · cases hs

/-- The calls of a run, made one after the other, make its points and means of its submissions. -/
theorem calls_of_run {n numArgs : UInt16} (hn : 1 ≤ n.toNat) {s₀ s : Engine T} (h₀ : s₀.kmeans = KMeans.new numArgs)
    {acts : List (Act T)} (hrun : run (step n) s₀ acts = some s) :
    run (callStep n) (KMeans.new numArgs) ((simulation n hn).trace s₀ acts) = some (sequential s.kmeans) ∧
      Call.vectors ((simulation n hn).trace s₀ acts) = submitted acts := by
  have hseeded : Seeded n s₀.kmeans := h₀ ▸ .new n numArgs
  have hcalls : run (callStep n) (sequential s₀.kmeans) _ = _ := (simulation n hn).run_trace hseeded hrun
  rw [h₀] at hcalls
  exact ⟨hcalls, Simulation.filterMap_trace (calls_vectors n) hrun⟩

/-! ## Main theorem -/

/-- Whatever the threads do, some order of calls, each made as a whole, has
made the same points and means. It submits the vectors in the order of the
submitting sections, initialises before it clusters and only once, and
clusters only directly after a submission. -/
theorem linearizable {n numArgs : UInt16} (hn : 1 ≤ n.toNat) {acts : List (Act T)} {s : Engine T}
    (hrun : run (step n) (launch numArgs) acts = some s) : ∃ cs : List (Call T),
    run (callStep n) (KMeans.new numArgs) cs = some (sequential s.kmeans) ∧
      Call.vectors cs = submitted acts ∧ InitialisedOnce cs s.kmeans ∧ EachEntry AfterSubmission cs := by
  let cs := (simulation n hn).trace (launch numArgs) acts
  obtain ⟨hcalls, hvectors⟩ : run (callStep n) (KMeans.new numArgs) cs = some (sequential s.kmeans) ∧
      Call.vectors cs = submitted acts := calls_of_run hn rfl hrun
  refine ⟨cs, hcalls, hvectors, ?_, ?_⟩
  · have hnone : InitialisedOnce [] (KMeans.new numArgs : KMeans T) := .inl ⟨rfl, rfl⟩
    have honce : InitialisedOnce cs (sequential s.kmeans) :=
      run_inv_trace InitialisedOnce (fun _ _ _ _ h hs => InitialisedOnce.step (n := n) h hs) hcalls hnone
    exact honce
  · have hspaced : Spaced cs s :=
      Simulation.trace_inv Spaced (fun _ _ _ _ _ h hs => h.step hs) (.new n numArgs) hrun
        ⟨.nil _, .inl (by rintro old ⟨⟩)⟩
    exact hspaced.each

/-- A round after the third submission: the calls are made out of two threads. -/
theorem drawTwo_linearizable : ∃ s, run (step 2) (launch 2)
    (drawTwo [1, 0] [0, 1] [3 / 4, 1 / 4] ++ [.worker .id, .notify]) = some s ∧ ∃ cs : List (Call ℚ),
      run (callStep 2) (KMeans.new 2) cs = some (sequential s.kmeans) ∧
        Call.vectors cs = [[1, 0], [0, 1], [3 / 4, 1 / 4]] ∧ InitialisedOnce cs s.kmeans ∧
        EachEntry AfterSubmission cs := by
  have hsome : (run (step 2) (launch 2)
      (drawTwo [1, 0] [0, 1] [3 / 4, 1 / 4] ++ [.worker .id, .notify])).isSome = true := by decide +kernel
  obtain ⟨s, hs⟩ := Option.isSome_iff_exists.1 hsome
  exact ⟨s, hs, linearizable (by decide) hs⟩

/-! ## The other way round -/

/-- The update that the call makes, if any, completes. -/
def Completes (k : KMeans T) : Call T → Prop
  | .round => k.mAssignAll.2.mUpdateMeans.1 = .ok ()
  | .submit _ | .initialise _ => True

instance (k : KMeans T) : ∀ c : Call T, Decidable (Completes k c)
  | .round => inferInstanceAs (Decidable (_ = _))
  | .submit _ | .initialise _ => isTrue trivial

/-- The threads have made the calls `cs`, with the object `k`, and the worker is at the lock. -/
structure Made (cs : List (Call T)) (k : KMeans T) (s : Engine T) : Prop where
  object : sequential s.kmeans = k
  points : s.kmeans.m_PointVector.length = (Call.vectors cs).length
  running : s.kmeans.m_StopThread = false
  worker : ∃ seen, s.worker = .locking (UInt32.ofNat seen) ∧ seen ≤ s.kmeans.m_PointVector.length ∧
    (EndsInSubmission cs → s.kmeans.m_NewSubmissionReady = true ∧ seen < s.kmeans.m_PointVector.length)

theorem Made.submit {n : UInt16} {cs : List (Call T)} {k : KMeans T} {s : Engine T} (h : Made cs k s) (v : List T) :
    step n s (.submit v) = some (s.submit v) ∧ Made (cs ++ [.submit v]) (k.mSubmit v) (s.submit v) := by
  obtain ⟨seen, hw, hle, -⟩ := h.worker
  constructor
  · rw [step, if_neg (not_terminated (by simp [hw]))]
  · constructor
    · rw [← h.object]
      simp [sequential, Engine.submit, mSubmit]
    · simp [Engine.submit, mSubmit, h.points, Call.vectors]
    · exact h.running
    · refine ⟨seen, hw, ?_, ?_⟩
      · simp [Engine.submit, mSubmit]
        omega
      · intro _
        simp [Engine.submit, mSubmit]
        omega

omit [Scalar T] in
theorem currentSize_toNat {k : KMeans T} (h : k.m_PointVector.length < 2 ^ 32) :
    (currentSize k).toNat = k.m_PointVector.length := by
  rw [currentSize, UInt32.toNat_ofNat']
  exact Nat.mod_eq_of_lt h

omit [Scalar T] in
theorem currentSize_ne {k : KMeans T} {seen : Nat} (hlt : seen < k.m_PointVector.length)
    (hfew : k.m_PointVector.length < 2 ^ 32) : currentSize k ≠ UInt32.ofNat seen := by
  intro he
  have hsize := congrArg UInt32.toNat he
  rw [currentSize_toNat hfew, UInt32.toNat_ofNat', Nat.mod_eq_of_lt (hlt.trans hfew)] at hsize
  omega

/-- The pass that makes a clustering call of the program. -/
theorem pass_of_callStep {n : UInt16} (hn : 1 ≤ n.toNat) {k k' : KMeans T} {c : Call T} {old : UInt32}
    (h : Seeded n k) (hs : callStep n (sequential k) c = some k') (hc : c.clusters = true) (hcomp : Completes k c)
    (hne : currentSize k ≠ old) (hfew : k.m_PointVector.length < 2 ^ 32) :
    ∃ σ, passCalls n σ old k = [c] ∧ (clusteringPass n σ old k).1 = .ok () := by
  have hsize := currentSize_toNat hfew
  cases c with
  | submit v => cases hc
  | initialise σ =>
    simp only [callStep] at hs
    split at hs
    · next hguard =>
      have hlen : n.toNat ≤ k.m_PointVector.length := hguard.2
      have hinit : k.m_Initialised = false ∧ n.toNat ≤ (currentSize k).toNat := ⟨hguard.1, hsize ▸ hlen⟩
      refine ⟨σ, ?_, ?_⟩
      · rw [passCalls, if_pos hne, if_pos hinit]
      · rw [clusteringPass, if_pos hne, if_pos hinit, mInitialise_eq hlen]
    · cases hs
  | round =>
    simp only [callStep] at hs
    split at hs
    · next hguard =>
      have hinit : k.m_Initialised = true := hguard.1
      have hnot : ¬ (k.m_Initialised = false ∧ n.toNat ≤ (currentSize k).toNat) := by simp [hinit]
      have hlt : n.toNat < (currentSize k).toNat := hsize ▸ hguard.2
      have hmeans : k.m_CurrentMeans ≠ [] := List.ne_nil_of_length_pos (by have := h.after hinit; omega)
      refine ⟨.id, ?_, ?_⟩
      · rw [passCalls, if_pos hne, if_neg hnot, if_pos hlt]
      · rw [clusteringPass, if_pos hne, if_neg hnot, if_pos hlt,
          assignAndUpdate_eq (assignLoop_error hmeans h.labelled k.m_PointVector)]
        exact hcomp
    · cases hs

theorem criticalSection_pass {n : UInt16} {s : Engine T} {σ : Shuffle (DataPoint T)} {old : UInt32} {k : KMeans T}
    (hready : s.kmeans.m_NewSubmissionReady = true) (hpass : clusteringPass n σ old s.kmeans = (.ok (), k))
    (hstop : k.m_StopThread = false) : criticalSection n σ old s = { s with
      kmeans := { k with m_NewSubmissionReady := false }, worker := .loopHead (currentSize s.kmeans) } := by
  simp [criticalSection, hready, hpass, hstop]

/-- The worker makes a clustering call and comes back to the lock. -/
theorem Made.cluster {n : UInt16} (hn : 1 ≤ n.toNat) {cs : List (Call T)} {k k' : KMeans T} {c : Call T}
    {s : Engine T} (h : Made cs k s) (hseeded : Seeded n s.kmeans) (hs : callStep n k c = some k')
    (hc : c.clusters = true) (hcomp : Completes k c) (hafter : EndsInSubmission cs)
    (hfew : s.kmeans.m_PointVector.length < 2 ^ 32) :
    ∃ σ s', run (step n) s [.worker σ, .worker σ] = some s' ∧ Made (cs ++ [c]) k' s' := by
  obtain ⟨seen, hw, hle, hsubmitted⟩ := h.worker
  obtain ⟨hready, hlt⟩ := hsubmitted hafter
  have hne := currentSize_ne hlt hfew
  rw [← h.object] at hs hcomp
  obtain ⟨σ, hcalls, hok⟩ := pass_of_callStep hn hseeded hs hc hcomp hne hfew
  obtain ⟨k₁, hpass⟩ : ∃ k₁, clusteringPass n σ (UInt32.ofNat seen) s.kmeans = (.ok (), k₁) := ⟨_, Prod.ext hok rfl⟩
  have hu := untouched_of_pass hpass
  have hk : k' = sequential k₁ := by
    have hrun := run_passCalls hn σ (UInt32.ofNat seen) hseeded
    rw [hcalls, hpass, run_cons, hs] at hrun
    exact Option.some.inj hrun
  have hstop : k₁.m_StopThread = false := hu.stop.trans h.running
  let s' : Engine T := { s with
    kmeans := { k₁ with m_NewSubmissionReady := false }, worker := .locking (currentSize s.kmeans) }
  refine ⟨σ, s', ?_, ?_⟩
  · rw [run_cons, step_entering (.inl hw), criticalSection_pass hready hpass hstop, Option.bind_some, run_cons]
    simp [step, IsTerminated, workerStep, hstop, s']
  · refine ⟨?_, ?_, hstop, s.kmeans.m_PointVector.length, rfl, hu.length.ge, ?_⟩
    · rw [hk]
      rfl
    · simp [s', vectors_append, vectors_of_clusters hc, hu.length, h.points]
    · intro hlast
      exact absurd hlast (not_endsInSubmission hc)

/-- Conversely every such order of calls in which no update throws is made by
some interleaving: nothing more can be said of what the threads make. -/
theorem realisable {n numArgs : UInt16} (hn : 1 ≤ n.toNat) {cs : List (Call T)} {k : KMeans T}
    (hrun : run (callStep n) (KMeans.new numArgs) cs = some k) (hspaced : EachEntry AfterSubmission cs)
    (hcomp : EveryStep (callStep n) Completes (KMeans.new numArgs) cs)
    (hfew : (Call.vectors cs).length < 2 ^ 32) :
    ∃ acts s, run (step n) (launch numArgs) acts = some s ∧ sequential s.kmeans = k ∧
      submitted acts = Call.vectors cs := by
  suffices hmade : ∃ acts s, run (step n) (launch numArgs) acts = some s ∧ Made cs k s ∧
      submitted acts = Call.vectors cs by
    obtain ⟨acts, s, hacts, hs, hv⟩ := hmade
    exact ⟨acts, s, hacts, hs.object, hv⟩
  induction cs using List.reverseRecOn generalizing k with
  | nil =>
    cases hrun
    let s : Engine T := ⟨KMeans.new numArgs, .locking 0, 0⟩
    exact ⟨[.worker .id, .worker .id], s, rfl, ⟨rfl, rfl, rfl, 0, rfl, le_rfl, by simp [EndsInSubmission]⟩, rfl⟩
  | append_singleton cs c ih =>
    obtain ⟨k₁, h₁, h₂⟩ := run_snoc_some.1 hrun
    obtain ⟨hspaced, hafter⟩ := eachEntry_snoc.1 hspaced
    obtain ⟨hcomp, hc⟩ := everyStep_snoc h₁ h₂ hcomp
    rw [vectors_append, List.length_append] at hfew
    obtain ⟨acts, s, hacts, hs, hv⟩ := ih h₁ hspaced hcomp (by omega)
    cases hclusters : c.clusters with
    | false =>
      obtain ⟨v, rfl⟩ : ∃ v, c = .submit v := by
        cases c with
        | submit v => exact ⟨v, rfl⟩
        | initialise | round => cases hclusters
      obtain ⟨hstep, hmade⟩ := hs.submit (n := n) v
      cases h₂
      refine ⟨acts ++ [.submit v], _, run_snoc_some.2 ⟨s, hacts, hstep⟩, hmade, ?_⟩
      rw [submitted_append, hv, vectors_append]
      rfl
    | true =>
      have hseeded : Seeded n s.kmeans :=
        run_inv (fun s => Seeded n s.kmeans) (fun _ _ _ h hs => h.step hs) hacts (.new n numArgs)
      have hpoints := hs.points
      obtain ⟨σ, s', hrun', hmade⟩ := hs.cluster hn hseeded h₂ hclusters hc (hafter hclusters) (by omega)
      refine ⟨acts ++ [.worker σ, .worker σ], s', ?_, hmade, ?_⟩
      · rw [run_append, hacts]
        exact hrun'
      · rw [submitted_append, hv, vectors_append, vectors_of_clusters hclusters]
        rfl

/-- Three submissions with an initialisation and a round between and after them. -/
def threeSubmissions : List (Call ℚ) :=
  [.submit [1, 0], .submit [0, 1], .initialise .id, .submit [3 / 4, 1 / 4], .round]

theorem threeSubmissions_realisable : ∃ k, run (callStep 2) (KMeans.new 2) threeSubmissions = some k ∧
    ∃ acts s, run (step 2) (launch 2) acts = some s ∧ sequential s.kmeans = k ∧
      submitted acts = Call.vectors threeSubmissions := by
  have hsome : (run (callStep 2) (KMeans.new 2) threeSubmissions).isSome = true := by decide +kernel
  obtain ⟨k, hk⟩ := Option.isSome_iff_exists.1 hsome
  exact ⟨k, hk, realisable (by decide) hk (by decide +kernel) (by decide +kernel) (by decide)⟩

end ProtocolLearner.Engine
