import ProtocolLearner.Points
import ProtocolLearner.Linearization
/-!
# Looking up between the critical sections

The calls a run of the threads stands for are calls of `mSubmit`, `mInitialise`,
`mAssignAll` and `mUpdateMeans` (`ops_of_run`), so the points of every
interleaving are those of a run of calls. From there: what `mExtract` and
`mExtractCurrentMeanBasedOnLabel` answer between any two critical sections
(`lookups_answer`). They take no lock, so during a shuffle or a pass they may
answer otherwise.
-/

namespace ProtocolLearner.KMeans

variable {T : Type}

/-- `mExtract` answers for the submissions made, each with its vector, and the
mean of what it returns can be looked up once there are means. -/
structure Lookups (subs : List (List T)) (k : KMeans T) : Prop where
  found : ∀ i, (∃ p, k.mExtract i = .ok p) ↔ i.toNat < subs.length
  vector : ∀ i p, k.mExtract i = .ok p → subs[i.toNat]? = some p.m_Vector
  mean : ∀ i p, k.mExtract i = .ok p →
    ((∃ m, k.mExtractCurrentMeanBasedOnLabel p.m_MeanIndex = .ok m) ↔ k.m_Initialised = true)

/-- `mExtract` finds exactly the indices given out. -/
theorem Ledger.found_iff {subs : List (List T)} {k : KMeans T} (h : Ledger subs k) (hn : subs.length < 2 ^ 16)
    (i : UInt16) : (∃ p, k.mExtract i = .ok p) ↔ i.toNat < subs.length := by
  constructor
  · rintro ⟨p, hp⟩
    exact (List.getElem?_eq_some_iff.1 (h.extract hn hp)).1
  · intro hi
    have hgiven : (i, subs[i.toNat]) ∈ k.m_PointVector.map DataPoint.submission := by
      refine h.points.symm.subset (List.mem_mapIdx.2 ⟨i.toNat, hi, ?_⟩)
      rw [UInt16.ofNat_toNat]
    obtain ⟨p, hp, he⟩ := List.mem_map.1 hgiven
    have hsome : (k.m_PointVector.find? fun a => i == a.m_Index).isSome = true := by
      rw [List.find?_isSome]
      exact ⟨p, hp, beq_iff_eq.2 (congrArg Prod.fst he).symm⟩
    obtain ⟨q, hq⟩ := Option.isSome_iff_exists.1 hsome
    exact ⟨q, by rw [mExtract, hq]⟩

theorem mem_of_mExtract {k : KMeans T} {i : UInt16} {p : DataPoint T} (h : k.mExtract i = .ok p) :
    p ∈ k.m_PointVector := by
  unfold mExtract at h
  split at h
  · cases h
  · next q hf =>
    cases h
    exact List.mem_of_find?_eq_some hf

end ProtocolLearner.KMeans

namespace ProtocolLearner.Engine

open Machine KMeans

variable {T : Type}

/-- The calls of the public functions. -/
def Call.ops (n : UInt16) : Call T → List (Op T)
  | submit inVector => [.submit inVector]
  | initialise shuffle => [.initialise n shuffle]
  | round => [.assignAll, .updateMeans]

variable [Scalar T]

theorem run_ops {n : UInt16} {k k' : KMeans T} {c : Call T} (h : callStep n k c = some k') :
    run KMeans.step k (c.ops n) = some k' := by
  cases c with
  | submit v =>
    cases h
    rfl
  | initialise σ =>
    simp only [callStep] at h
    split at h
    · rw [Call.ops, run_cons, h]
      rfl
    · cases h
  | round =>
    simp only [callStep] at h
    split at h
    · obtain ⟨k₁, h₁, h₂⟩ := Option.bind_eq_some_iff.1 h
      rw [Call.ops, run_cons, h₁, Option.bind_some, run_cons, h₂]
      rfl
    · cases h

def unfolding (n : UInt16) : Simulation (callStep (T := T) n) (KMeans.step (T := T)) where
  abs k := k
  moves _ c := c.ops n
  inv _ := True
  inv_step _ _ _ _ _ := trivial
  run_moves _ _ _ _ h := run_ops h

omit [Scalar T] in
theorem submissions_ops (n : UInt16) (c : Call T) : submissions (c.ops n) = Call.vectors [c] := by
  cases c <;> rfl

/-- Every run of the threads stands for a run of calls. -/
theorem ops_of_run {n numArgs : UInt16} (hn : 1 ≤ n.toNat) {acts : List (Act T)} {s : Engine T}
    (hrun : run (step n) (launch numArgs) acts = some s) : ∃ ops : List (Op T),
    run KMeans.step (KMeans.new numArgs) ops = some (sequential s.kmeans) ∧ submissions ops = submitted acts := by
  obtain ⟨hcalls, hvectors⟩ := calls_of_run hn rfl hrun
  refine ⟨(unfolding n).trace (KMeans.new numArgs) _, (unfolding n).run_trace trivial hcalls, ?_⟩
  rw [← hvectors]
  exact Simulation.filterMap_trace (S := unfolding n) (fun _ c => submissions_ops n c) hcalls

/-! ## The labels of the points -/

omit [Scalar T] in
/-- A point's mean can be looked up exactly once there are means. -/
theorem Pointed.mean_iff {n : UInt16} {k : KMeans T} (h : Pointed n k) {p : DataPoint T} (hp : p ∈ k.m_PointVector) :
    (∃ m, k.mExtractCurrentMeanBasedOnLabel p.m_MeanIndex = .ok m) ↔ k.m_Initialised = true := by
  constructor
  · rintro ⟨m, hm⟩
    by_contra hinit
    rw [mExtractCurrentMeanBasedOnLabel, h.seeded.before (by simpa using hinit)] at hm
    cases hm
  · intro hinit
    obtain ⟨m, hm, hlabel⟩ := h.mean_of hinit hp
    have hfound := h.seeded.labelled.extract hm
    rw [hlabel] at hfound
    exact ⟨_, hfound⟩

/-! ## Main theorem -/

/-- In every interleaving of fewer than 2^16 submissions with the passes of the
worker, whenever the lock is free: the lookups answer, whatever the worker has
shuffled, and throw only for indices not given out and means not yet drawn. -/
theorem lookups_answer {n numArgs : UInt16} (hn : 1 ≤ n.toNat) {acts : List (Act T)} {s : Engine T}
    (hrun : run (step n) (launch numArgs) acts = some s) (hfew : (submitted acts).length < 2 ^ 16) :
    Lookups (submitted acts) s.kmeans := by
  obtain ⟨ops, hops, hsubmitted⟩ := ops_of_run hn hrun
  have hledger : Ledger (submitted acts) (sequential s.kmeans) := hsubmitted ▸ ledger_of_run hops
  have hsame : Ledger (submitted acts) s.kmeans := ⟨hledger.points, hledger.next⟩
  have hpointed : Pointed n s.kmeans :=
    run_inv (fun s => Pointed n s.kmeans) (fun _ _ _ h hs => h.step hn hs) hrun (.new n numArgs)
  exact ⟨hsame.found_iff hfew, fun i p => hsame.extract hfew, fun i p hp => hpointed.mean_iff (mem_of_mExtract hp)⟩

/-- Three packets, after an initialisation and a round. -/
theorem drawTwo_lookups : ∃ s, run (step 2) (launch 2) (drawTwo [1, 0] [0, 1] [3 / 4, 1 / 4] ++ [.worker .id]) =
    some s ∧ Lookups [[1, 0], [0, 1], [3 / 4, 1 / 4]] s.kmeans := by
  have hsome : (run (step 2) (launch 2)
      (drawTwo [1, 0] [0, 1] [3 / 4, 1 / 4] ++ [.worker .id])).isSome = true := by decide +kernel
  obtain ⟨s, hs⟩ := Option.isSome_iff_exists.1 hsome
  exact ⟨s, hs, lookups_answer (by decide) hs (by decide)⟩

end ProtocolLearner.Engine
