import ProtocolLearner.Observation
import ProtocolLearner.Passes
/-!
# What the learner's runs do to the engine

The learner constructs its engine with the number of means for `numArgs`, which
the engine takes for the number of coordinates of a point. The worker survives
a run exactly if no pass updates while a point has fewer coordinates than there
are means (`survives_iff`), and with the character distribution the means keep
the dimension of the points exactly if there are at least `NUMTYPES` of them or
no pass updates (`dimension_iff`).
-/

namespace ProtocolLearner.World

open Machine KMeans

variable {T : Type} [Scalar T]

/-! ## The engine within the learner -/

/-- What a step is to the engine: nothing, the submission of an analysis, or a step of its threads. -/
inductive EngineStep (s : Setup) (w : World T) (ev : Event T) (w' : World T) : Prop where
  | rest (hact : ev.act? = none) (h : w'.engine = w.engine)
  | submit (hact : ev.act? = none) (bytes : List UInt8) (h : Engine.step s.aNumMeansForClassification w.engine
      (.submit (s.aAnalysisAlgo.mAnalyse bytes).mGetAnalysis) = some w'.engine)
  | thread {act} (hact : ev.act? = some act)
    (h : Engine.step s.aNumMeansForClassification w.engine act = some w'.engine)

theorem running_of_step {w w' : World T} {ev : Event T} (h : w.step ev = some w') : ¬ w.engine.IsTerminated := by
  intro hterm
  unfold step at h
  rw [if_pos hterm] at h
  cases h

theorem Tracked.engineStep {s : Setup} {w w' : World T} {ev : Event T} (h : Tracked s w) (hs : w.step ev = some w') :
    EngineStep s w ev w' := by
  have hrun := running_of_step hs
  cases transition_of_step hs with
  | complete => exact .rest rfl (CUdpProtocolLearner.engine_setPair _ _ _)
  | @handle d c sentTo outcome hc =>
    have he := engine_handle w d c outcome (w.log ++ [w.entry d c sentTo outcome])
    split at he
    · -- The analysis is of everything admitted so far.
      refine .submit rfl (admittedBytes s.aMaxPacketsToObserve w.log ++ c.payload) ?_
      rw [he, h.analysis hc, Engine.step, if_neg hrun]
    · exact .rest rfl he
  | thread hact he => exact .thread hact (h.means ▸ he)

/-- The step is one of the engine's threads, and `C` holds of it. -/
def InThread (C : UInt16 → Engine T → Act T → Prop) (w : World T) (ev : Event T) : Prop :=
  ∃ act ∈ ev.act?, C w.learner.m_NumMeansForClassification w.engine act

instance (C : UInt16 → Engine T → Act T → Prop) [∀ n e act, Decidable (C n e act)] (w : World T) (ev : Event T) :
    Decidable (InThread C w ev) := by
  unfold InThread
  infer_instance

omit [Scalar T] in
theorem not_inThread {C : UInt16 → Engine T → Act T → Prop} {w : World T} {ev : Event T} (h : ev.act? = none) :
    ¬ InThread C w ev := by
  simp [InThread, h]

theorem Tracked.inThread_iff {s : Setup} {w : World T} (h : Tracked s w) {C : UInt16 → Engine T → Act T → Prop}
    {ev : Event T} {act : Act T} (hact : ev.act? = some act) :
    InThread C w ev ↔ C s.aNumMeansForClassification w.engine act := by
  simp [InThread, hact, h.means]

/-! ## Surviving -/

theorem Tracked.sound_step {s : Setup} (hn : 1 ≤ s.aNumMeansForClassification.toNat) {w w' : World T} {ev : Event T}
    (h : Tracked s w) (hsound : Engine.Sound s.aNumMeansForClassification w.engine.kmeans)
    (hs : w.step ev = some w') : Engine.Sound s.aNumMeansForClassification w'.engine.kmeans := by
  cases h.engineStep hs with
  | rest _ he => exact he ▸ hsound
  | submit _ _ he | thread _ he => exact hsound.step hn he

/-- A step ends the process exactly if it is a pass that updates with too short a point. -/
theorem Tracked.terminated_iff {s : Setup} (hn : 1 ≤ s.aNumMeansForClassification.toNat) {w w' : World T}
    {ev : Event T} (h : Tracked s w) (hsound : Engine.Sound s.aNumMeansForClassification w.engine.kmeans)
    (hs : w.step ev = some w') : w'.engine.IsTerminated ↔ InThread Engine.UpdatesShort w ev := by
  cases h.engineStep hs with
  | rest hact he => exact iff_of_false (he ▸ running_of_step hs) (not_inThread hact)
  | submit hact _ he =>
    rw [hsound.terminated_iff hn he]
    exact iff_of_false (fun hu => Engine.not_updates_submit hu.1) (not_inThread hact)
  | thread hact he => rw [hsound.terminated_iff hn he, h.inThread_iff hact]

/-- In every run with at least one mean, for either algorithm, no exception
leaves the worker exactly if no pass updates while a stored point has fewer
coordinates than there are means. -/
theorem survives_iff {s : Setup} (hn : 1 ≤ s.aNumMeansForClassification.toNat) (evs : List (Event T)) :
    EveryState step (fun w => ¬ w.engine.IsTerminated) (start s) evs ↔
      EveryStep step (fun w ev => ¬ InThread Engine.UpdatesShort w ev) (start s) evs := by
  refine everyState_iff
    (fun w => Tracked s w ∧ Engine.Sound s.aNumMeansForClassification w.engine.kmeans) _ _ ?_ ?_
    ⟨tracked_start s, Engine.Sound.new _⟩ (running_start s)
  · rintro w ev w' ⟨ht, hsound⟩ hs
    exact ⟨ht.step hs, ht.sound_step hn hsound hs⟩
  · rintro w ev w' ⟨ht, hsound⟩ - hs
    exact not_congr (ht.terminated_iff hn hsound hs)

/-- The thread reads the point count, two letters arrive and the next pass
initialises two means; a third letter arrives, and the pass after it updates. -/
def threeLetters : List (Event ℚ) :=
  [.worker .id, .worker .id] ++ packet .highToLow (oneByte 65) 7 ++ packet .highToLow (oneByte 66) 7 ++
    [.worker .id, .worker .id] ++ packet .lowToHigh (oneByte 67) 8 ++ [.worker .id]

theorem threeLetters_survives :
    (run step (start sampleSetup) threeLetters).map (fun w => w.engine.worker) = some (.loopHead 3) ∧
      EveryState step (fun w => ¬ w.engine.IsTerminated) (start sampleSetup) threeLetters :=
  ⟨by decide +kernel, (survives_iff (by decide) threeLetters).2 (by decide +kernel)⟩

/-- Run lengths for two means: three letters are one run, so the analyses have one coordinate. -/
theorem threeLetters_oneRun : ∃ w, run step (start { sampleSetup with aAnalysisAlgo := .runLength ⟨[]⟩ }) threeLetters =
    some w ∧ w.engine.IsTerminated := by
  have hrun : (run step (start { sampleSetup with aAnalysisAlgo := .runLength ⟨[]⟩ }) threeLetters).map
      (fun w => w.engine.worker) = some (.terminated .outOfRange) := by decide +kernel
  obtain ⟨w, hw, hworker⟩ := Option.map_eq_some_iff.1 hrun
  exact ⟨w, hw, .outOfRange, hworker⟩

/-! ## Dimensions -/

/-- A step keeps the law exactly if it does not update, or there are enough means. -/
theorem Tracked.dimension_step {s : Setup} {a : CharDistributionAlgo} (halgo : s.aAnalysisAlgo = .charDistribution a)
    (hn : 1 ≤ s.aNumMeansForClassification.toNat) {w w' : World T} {ev : Event T} (h : Tracked s w)
    (hwide : Engine.Wide s.aNumMeansForClassification w.engine.kmeans) (hs : w.step ev = some w') :
    Engine.Wide s.aNumMeansForClassification w'.engine.kmeans ∧
      (Engine.DimensionLaw w.engine.kmeans → (Engine.DimensionLaw w'.engine.kmeans ↔
        NUMTYPES ≤ s.aNumMeansForClassification.toNat ∨ ¬ InThread Engine.Updates w ev)) := by
  cases h.engineStep hs with
  | rest hact he => exact ⟨he ▸ hwide, fun hlaw => iff_of_true (he ▸ hlaw) (.inr (not_inThread hact))⟩
  | submit hact bytes he =>
    obtain ⟨hw, hiff⟩ := hwide.next hn (fun v hv => by cases hv; rw [halgo]; exact charDistribution_length a bytes) he
    refine ⟨hw, ?_⟩
    intro hlaw
    rw [hiff hlaw]
    exact iff_of_true (.inr Engine.not_updates_submit) (.inr (not_inThread hact))
  | thread hact he =>
    obtain ⟨hw, hiff⟩ := hwide.next hn (fun v hv => absurd hv (act?_ne_submit hact v)) he
    rw [h.inThread_iff hact]
    exact ⟨hw, hiff⟩

/-- With the character distribution and at most `NUMTYPES` means the worker survives every run. -/
theorem survives_of_le {s : Setup} {a : CharDistributionAlgo} (halgo : s.aAnalysisAlgo = .charDistribution a)
    (hn : 1 ≤ s.aNumMeansForClassification.toNat) (hle : s.aNumMeansForClassification.toNat ≤ NUMTYPES)
    (evs : List (Event T)) : EveryState step (fun w => ¬ w.engine.IsTerminated) (start s) evs := by
  let I : World T → Prop := fun w =>
    Tracked s w ∧ Engine.Wide s.aNumMeansForClassification w.engine.kmeans ∧ ¬ w.engine.IsTerminated
  have hstart : I (start s) := ⟨tracked_start s, .new _, running_start s⟩
  refine (EveryState.of_inv I (fun _ _ => True) ?_ hstart (.of_mem fun _ _ => trivial)).mono fun w hw => hw.2.2
  rintro w ev w' ⟨ht, hwide, -⟩ - hs
  refine ⟨ht.step hs, (ht.dimension_step halgo hn hwide hs).1, ?_⟩
  intro hterm
  obtain ⟨act, -, -, p, hp, hlt⟩ := (ht.terminated_iff hn hwide.sound hs).1 hterm
  rw [hwide.points p hp, ht.means] at hlt
  omega

/-- In every run of a learner with the character distribution and at least one
mean, the means have the dimension of the points and `mAssignAll` completes
exactly if there are at least `NUMTYPES` means or no pass updates. -/
theorem dimension_iff {s : Setup} {a : CharDistributionAlgo} (halgo : s.aAnalysisAlgo = .charDistribution a)
    (hn : 1 ≤ s.aNumMeansForClassification.toNat) (evs : List (Event T)) :
    EveryState step (fun w => Engine.DimensionLaw w.engine.kmeans) (start s) evs ↔
      EveryStep step (fun w ev => NUMTYPES ≤ s.aNumMeansForClassification.toNat ∨ ¬ InThread Engine.Updates w ev)
        (start s) evs := by
  have hstart := Engine.Wide.new (T := T) s.aNumMeansForClassification
  refine everyState_iff
    (fun w => Tracked s w ∧ Engine.Wide s.aNumMeansForClassification w.engine.kmeans) _ _ ?_ ?_
    ⟨tracked_start s, hstart⟩ ((hstart.law_iff hn).2 (by simp [KMeans.new]))
  · rintro w ev w' ⟨ht, hwide⟩ hs
    exact ⟨ht.step hs, (ht.dimension_step halgo hn hwide hs).1⟩
  · rintro w ev w' ⟨ht, hwide⟩ hlaw hs
    exact (ht.dimension_step halgo hn hwide hs).2 hlaw

/-- Five means, and six letters: initialised at the fifth, updated at the sixth. -/
def sixLetters : List (Event ℚ) :=
  [.worker .id, .worker .id] ++ (List.replicate 5 (packet .highToLow (oneByte 65) 7)).flatten ++
    [.worker .id, .worker .id] ++ packet .highToLow (oneByte 48) 7 ++ [.worker .id]

theorem sixLetters_dimension : ∃ w, run step (start { sampleSetup with
      aNumMeansForClassification := 5, aMaxPacketsToObserve := 6 }) sixLetters = some w ∧
    w.engine.worker = .loopHead 6 ∧ Engine.DimensionLaw w.engine.kmeans := by
  have hrun : (run step (start { sampleSetup with aNumMeansForClassification := 5, aMaxPacketsToObserve := 6 })
      sixLetters).map (fun w => w.engine.worker) = some (.loopHead 6) := by decide +kernel
  obtain ⟨w, hw, hworker⟩ := Option.map_eq_some_iff.1 hrun
  exact ⟨w, hw, hworker, ((dimension_iff (a := ⟨[]⟩) rfl (by decide) sixLetters).2 (by decide +kernel)).last hw⟩

/-- With two means the first update leaves them two coordinates, and `mAssignAll` throws from then on. -/
theorem threeLetters_narrowed : ∃ w, run step (start sampleSetup) threeLetters = some w ∧
    w.engine.kmeans.m_CurrentMeans.map (·.m_Vector) = [[1, 0], [5 / 2, 0]] ∧
    w.engine.kmeans.mAssignAll.1 = .error .outOfRange ∧ ¬ Engine.DimensionLaw w.engine.kmeans := by
  have hrun : (run step (start sampleSetup) threeLetters).map (fun w =>
      (w.engine.kmeans.m_Initialised, w.engine.kmeans.m_CurrentMeans.map (·.m_Vector),
        w.engine.kmeans.mAssignAll.1)) = some (true, [[1, 0], [5 / 2, 0]], .error .outOfRange) := by decide +kernel
  obtain ⟨w, hw, he⟩ := Option.map_eq_some_iff.1 hrun
  simp only [Prod.mk.injEq] at he
  refine ⟨w, hw, he.2.1, he.2.2, ?_⟩
  intro hlaw
  rw [hlaw.completes he.1] at he
  cases he.2.2

end ProtocolLearner.World
