import ProtocolLearner.Clustering
import ProtocolLearner.EmptyGroups
import ProtocolLearner.Lib.Simulation
/-!
# The engine's part in a run of the learner

A step of the learner is a step of its engine, or none: a handler submits the
analysis of an admitted packet, and what the engine's threads do is what they
do (`engineRun`). So every run of a learner is one of its engine that submits
what the handlers have logged (`engine_of_run`), and what is known of engines
under all interleavings is known of the learner's.
-/

namespace ProtocolLearner.World

open Machine KMeans

variable {T : Type} [Scalar T]

/-- The vector the handler of a pair submits for a completion, if it does. -/
def submission (w : World T) (d : Direction) (c : Completion) : Option (List T) :=
  if (w.counted d c).Admits ∧ (w.counted d c).lAnalysis (w.receivedBytes d c) ≠ [] then
    some ((w.counted d c).lAnalysis (w.receivedBytes d c))
  else none

theorem submitted_entry (w : World T) (d : Direction) (c : Completion) (sentTo : Endpoint) (outcome : SendOutcome) :
    (w.entry d c sentTo outcome).submitted = w.submission d c := by
  by_cases hadm : (w.counted d c).Admits
  · cases hv : (w.counted d c).lAnalysis (w.receivedBytes d c) with
    | nil => simp [submission, entry, Handled.submitted, hadm, hv]
    | cons x xs => simp [submission, entry, Handled.submitted, hadm, hv]
  · simp [submission, entry, Handled.submitted, hadm]

omit [Scalar T] in
theorem analysis_of_submitted {e : Handled T} {v : List T} (h : e.submitted = some v) : e.analysis = some v := by
  unfold Handled.submitted at h
  split at h
  · cases h
  · cases h
  · next ha => rw [ha, h]

/-- What the engine does in a step of the learner. -/
def acts (w : World T) : Event T → List (Act T)
  | .complete _ _ => []
  | .handle d _ =>
    match (w.learner.pair d).receive with
    | .completed c => (w.submission d c).toList.map .submit
    | .idle | .posted => []
  | ev => ev.act?.toList

omit [Scalar T] in
theorem submitted_submits (o : Option (List T)) : Engine.submitted (o.toList.map .submit) = o.toList := by
  cases o <;> rfl

theorem acts_of_thread {w : World T} {ev : Event T} {act : Act T} (h : ev.act? = some act) : w.acts ev = [act] := by
  cases ev with
  | complete | handle => cases h
  | worker | spurious | notify | stop =>
    cases h
    rfl

/-- A step of the learner is what its engine does in it, and logs what is submitted. -/
theorem run_acts {w w' : World T} {ev : Event T} (hs : w.step ev = some w') :
    run (Engine.step w.learner.m_NumMeansForClassification) w.engine (w.acts ev) = some w'.engine ∧
      ∃ es, w'.log = w.log ++ es ∧ Engine.submitted (w.acts ev) = es.filterMap Handled.submitted := by
  have hrun := running_of_step hs
  cases transition_of_step hs with
  | complete => exact ⟨congrArg some (CUdpProtocolLearner.engine_setPair _ _ _).symm, [], by simp, rfl⟩
  | @handle d c sentTo outcome hc =>
    have hacts : w.acts (.handle d outcome) = (w.submission d c).toList.map .submit := by simp only [acts, hc]
    refine ⟨?_, [w.entry d c sentTo outcome], rfl, ?_⟩
    · rw [hacts, engine_handle, submission]
      split
      · simp [run_cons, Engine.step, hrun]
      · rfl
    · rw [hacts, submitted_submits]
      have he := submitted_entry w d c sentTo outcome
      cases hv : w.submission d c with
      | none => simp [he, hv]
      | some v => simp [he, hv]
  | @thread _ act _ hact he =>
    rw [acts_of_thread hact]
    refine ⟨run_cons_some.2 ⟨_, he, rfl⟩, [], by simp [setEngine], ?_⟩
    have hnone := act?_ne_submit hact
    cases act with
    | submit v => exact absurd rfl (hnone v)
    | worker | spurious | notify | stop => rfl

/-- The learner's engine. -/
def engineRun (s : Setup) : Simulation (step (T := T)) (Engine.step (T := T) s.aNumMeansForClassification) where
  abs := engine
  moves := acts
  inv w := w.learner.m_NumMeansForClassification = s.aNumMeansForClassification
  inv_step w ev w' h hs := by
    cases transition_of_step hs with
    | complete => simp [h]
    | handle => simp [CUdpProtocolLearner.means_mProcessPacket, counted, h]
    | thread => exact h
  run_moves w ev w' h hs := h ▸ (run_acts hs).1

/-- What the engine submits on the way is what is logged on the way. -/
theorem submitted_of_run {s : Setup} {w w' : World T} {evs : List (Event T)}
    (hw : w.learner.m_NumMeansForClassification = s.aNumMeansForClassification) (h : run step w evs = some w') :
    ∃ es, w'.log = w.log ++ es ∧ Engine.submitted ((engineRun s).trace w evs) = es.filterMap Handled.submitted := by
  refine Simulation.trace_inv (S := engineRun s) (fun acts w' => ∃ es, w'.log = w.log ++ es ∧
    Engine.submitted acts = es.filterMap Handled.submitted) ?_ hw h ⟨[], by simp, rfl⟩
  rintro acts w₁ ev w₂ - ⟨es, hlog, hacts⟩ hs
  obtain ⟨-, es', hlog', hacts'⟩ := run_acts hs
  refine ⟨es ++ es', by rw [hlog', hlog, List.append_assoc], ?_⟩
  rw [Engine.submitted, List.filterMap_append, ← Engine.submitted, ← Engine.submitted, hacts, List.filterMap_append]
  exact congrArg _ hacts'

/-- Every run of a learner is one of its engine, which submits what is in the log. -/
theorem engine_of_run {s : Setup} {evs : List (Event T)} {w : World T} (h : run step (start s) evs = some w) :
    run (Engine.step s.aNumMeansForClassification) (Engine.launch s.aNumMeansForClassification)
        ((engineRun s).trace (start s) evs) = some w.engine ∧
      Engine.submitted ((engineRun s).trace (start s) evs) = w.log.filterMap Handled.submitted := by
  have hrun := (engineRun s).run_trace (s := start s) rfl h
  obtain ⟨es, hlog, hsubmitted⟩ := submitted_of_run (s := s) (w := start s) rfl h
  have hes : w.log = es := hlog
  exact ⟨hrun, hes ▸ hsubmitted⟩

end ProtocolLearner.World
