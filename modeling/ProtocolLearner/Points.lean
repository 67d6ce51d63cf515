import ProtocolLearner.Lib.Machine
import ProtocolLearner.Operations
/-!
# The points and their identities

Whatever is called on an engine, in any order, its points are the submitted
vectors, each once and unchanged, under the index its submission was given
(`ledger_of_run`). Indices and the reported count are 16 bits wide, so they
identify and count the points exactly as long as there are fewer than 2^16.
-/

namespace ProtocolLearner.KMeans

open Machine

variable {T : Type}

/-- The points are the vectors `subs` in some order, the `i`-th with index
`i` as 16 bits hold it. -/
structure Ledger (subs : List (List T)) (k : KMeans T) : Prop where
  points : (k.m_PointVector.map DataPoint.submission).Perm (subs.mapIdx fun i v => (UInt16.ofNat i, v))
  next : k.m_PointIndex = UInt16.ofNat subs.length

theorem Ledger.length {subs : List (List T)} {k : KMeans T} (h : Ledger subs k) :
    k.m_PointVector.length = subs.length := by
  simpa using h.points.length_eq

theorem Ledger.vectors {subs : List (List T)} {k : KMeans T} (h : Ledger subs k) :
    (k.m_PointVector.map (·.m_Vector)).Perm subs := by
  have hsnd : (subs.mapIdx fun i v => (UInt16.ofNat i, v)).map Prod.snd = subs := by
    apply List.ext_getElem (by simp)
    intro i hi hi'
    simp
  have := h.points.map Prod.snd
  rwa [List.map_map, hsnd] at this

theorem ledger_new (numArgs : UInt16) : Ledger [] (new numArgs : KMeans T) := ⟨.refl _, rfl⟩

theorem Ledger.of_untouched {subs : List (List T)} {k k' : KMeans T} (h : Ledger subs k) (hu : Untouched k k') :
    Ledger subs k' :=
  ⟨hu.submissions.trans h.points, hu.pointIndex.trans h.next⟩

/-! ## What the indices and the count say -/

/-- `mGetNumPoints` counts the submissions, the indices are distinct, and
`mExtract(i)` is the `i`-th submission. -/
structure PointLaw (subs : List (List T)) (k : KMeans T) : Prop where
  count : k.mGetNumPoints.toNat = subs.length
  distinct : (k.m_PointVector.map (·.m_Index)).Nodup
  extract : ∀ (i : UInt16) (p : DataPoint T), i.toNat < subs.length → k.mExtract i = .ok p →
    subs[i.toNat]? = some p.m_Vector

theorem ofNat_inj {i j : Nat} (hi : i < 2 ^ 16) (hj : j < 2 ^ 16) (h : UInt16.ofNat i = UInt16.ofNat j) :
    i = j := by
  have := congrArg UInt16.toNat h
  rwa [UInt16.toNat_ofNat', UInt16.toNat_ofNat', Nat.mod_eq_of_lt hi, Nat.mod_eq_of_lt hj] at this

theorem Ledger.distinct {subs : List (List T)} {k : KMeans T} (h : Ledger subs k)
    (hn : subs.length < 2 ^ 16) : (k.m_PointVector.map (·.m_Index)).Nodup := by
  have hp : (k.m_PointVector.map (·.m_Index)).Perm
      ((subs.mapIdx fun i v => (UInt16.ofNat i, v)).map Prod.fst) := by
    have := h.points.map Prod.fst
    rwa [List.map_map] at this
  rw [hp.nodup_iff, List.nodup_iff_injective_getElem]
  intro i j he
  simp only [List.getElem_map, List.getElem_mapIdx] at he
  have hi := i.isLt
  have hj := j.isLt
  simp only [List.length_map, List.length_mapIdx] at hi hj
  exact Fin.ext (ofNat_inj (by omega) (by omega) he)

theorem Ledger.extract {subs : List (List T)} {k : KMeans T} (h : Ledger subs k)
    (hn : subs.length < 2 ^ 16) {i : UInt16} {p : DataPoint T} (hp : k.mExtract i = .ok p) :
    subs[i.toNat]? = some p.m_Vector := by
  unfold mExtract at hp
  split at hp
  · cases hp
  · next q hf =>
    cases hp
    have hidx : i = p.m_Index := by simpa using List.find?_some hf
    have hmem := h.points.subset (List.mem_map_of_mem (List.mem_of_find?_eq_some hf))
    obtain ⟨j, hj, he⟩ := List.mem_mapIdx.1 hmem
    simp only [DataPoint.submission, Prod.mk.injEq] at he
    have hij : i.toNat = j := by
      rw [hidx, ← he.1, UInt16.toNat_ofNat', Nat.mod_eq_of_lt (by omega)]
    rw [hij, List.getElem?_eq_getElem hj, he.2]

theorem Ledger.count {subs : List (List T)} {k : KMeans T} (h : Ledger subs k) :
    k.mGetNumPoints.toNat = subs.length % 2 ^ 16 := by
  unfold mGetNumPoints
  rw [UInt16.toNat_ofNat', h.length]

theorem Ledger.pointLaw_iff {subs : List (List T)} {k : KMeans T} (h : Ledger subs k) :
    PointLaw subs k ↔ subs.length < 2 ^ 16 := by
  constructor
  · intro hl
    have hc := hl.count
    rw [h.count] at hc
    omega
  · intro hn
    exact ⟨by rw [h.count, Nat.mod_eq_of_lt hn], h.distinct hn, fun i p _ => h.extract hn⟩

/-! ## Every run keeps the ledger -/

variable [Scalar T]

theorem Ledger.submit {subs : List (List T)} {k : KMeans T} (h : Ledger subs k) (v : List T) :
    Ledger (subs ++ [v]) (k.mSubmit v) where
  points := by
    simp only [mSubmit, List.map_append, List.map_cons, List.map_nil, DataPoint.submission_new, h.next,
      List.mapIdx_append, List.mapIdx_cons, List.mapIdx_nil, Nat.zero_add]
    exact h.points.append_right _
  next := by
    unfold mSubmit
    rw [h.next, List.length_append, List.length_singleton, UInt16.ofNat_add]
    rfl

theorem Ledger.step {subs : List (List T)} {k k' : KMeans T} {op : Op T} (h : Ledger subs k)
    (hs : k.step op = some k') : Ledger (subs ++ submissions [op]) k' := by
  obtain ⟨rfl, -⟩ := step_some hs
  cases op with
  | submit v => exact h.submit v
  | initialise n σ => simpa [call, submissions] using h.of_untouched (mInitialise_untouched n σ k)
  | assignAll => simpa [call, submissions] using h.of_untouched (mAssignAll_untouched k)
  | updateMeans => simpa [call, submissions] using h.of_untouched (mUpdateMeans_untouched k)

/-- After every run of calls the engine holds exactly what was submitted. -/
theorem ledger_of_run {numArgs : UInt16} {ops : List (Op T)} {k : KMeans T}
    (h : run step (new numArgs) ops = some k) : Ledger (submissions ops) k := by
  apply run_inv_trace (fun ops k => Ledger (submissions ops) k) ?_ h (ledger_new numArgs)
  intro ops k₁ op k₂ hl hs
  rw [submissions, List.filterMap_append]
  exact hl.step hs

theorem step_length {k k' : KMeans T} {op : Op T} (h : k.step op = some k') :
    k'.m_PointVector.length = k.m_PointVector.length + (submissions [op]).length := by
  obtain ⟨rfl, -⟩ := step_some h
  cases op with
  | submit v => simp [call, mSubmit, submissions]
  | initialise n σ => exact (mInitialise_untouched n σ k).length
  | assignAll => exact (mAssignAll_untouched k).length
  | updateMeans => rfl

/-- At no step of a run are there more points than in the end. -/
theorem everyStep_length {b : Nat} {ops : List (Op T)} {k : KMeans T}
    (h : k.m_PointVector.length + (submissions ops).length ≤ b) :
    EveryStep step (fun k _ => k.m_PointVector.length ≤ b) k ops :=
  .of_filterMap (fun k => k.m_PointVector.length) _ (fun _ _ _ hs => step_length hs) h

/-! ## Main theorem -/

/-- After every run of calls from an empty engine, count and indices identify
the submissions exactly if fewer than 2^16 were made. -/
theorem points_identified_iff {numArgs : UInt16} {ops : List (Op T)} {k : KMeans T}
    (h : run step (new numArgs) ops = some k) : PointLaw (submissions ops) k ↔ (submissions ops).length < 2 ^ 16 :=
  (ledger_of_run h).pointLaw_iff

/-- Two submissions, an initialisation that reverses them, a third and a round. -/
def sampleOps : List (Op ℚ) :=
  [.submit [1, 0], .submit [0, 1], .initialise 2 .reverse, .submit [3 / 4, 1 / 4], .assignAll, .updateMeans]

theorem sampleOps_identified :
    ∃ k, run step (new 2) sampleOps = some k ∧ PointLaw [[1, 0], [0, 1], [3 / 4, 1 / 4]] k := by
  have hsome : (run step (new 2) sampleOps).isSome = true := by decide +kernel
  obtain ⟨k, hk⟩ := Option.isSome_iff_exists.1 hsome
  exact ⟨k, hk, (points_identified_iff hk).2 (by decide)⟩

theorem run_submits (vs : List (List T)) (k : KMeans T) :
    ∃ k', run step k (vs.map .submit) = some k' := by
  induction vs generalizing k with
  | nil => exact ⟨k, rfl⟩
  | cons v vs ih => exact ih (k.mSubmit v)

omit [Scalar T] in
theorem submissions_submits (vs : List (List T)) : submissions (vs.map .submit) = vs := by
  induction vs with
  | nil => rfl
  | cons v vs ih => exact congrArg (v :: ·) ih

/-- After 2^16 submissions the engine reports no points at all. -/
theorem sixteen_bits_not_enough :
    ∃ (ops : List (Op ℚ)) (k : KMeans ℚ), (submissions ops).length = 2 ^ 16 ∧ run step (new 1) ops = some k ∧
      k.mGetNumPoints = 0 ∧ ¬ PointLaw (submissions ops) k := by
  obtain ⟨k, hk⟩ := run_submits (List.replicate (2 ^ 16) [(1 : ℚ)]) (new 1)
  have hlen : (submissions ((List.replicate (2 ^ 16) [(1 : ℚ)]).map Op.submit)).length = 2 ^ 16 := by
    rw [submissions_submits, List.length_replicate]
  have hl := ledger_of_run hk
  refine ⟨_, k, hlen, hk, UInt16.toNat_inj.1 ?_, fun hp => ?_⟩
  · rw [hl.count, hlen, Nat.mod_self]
    rfl
  · exact absurd (hl.pointLaw_iff.1 hp) (by omega)

end ProtocolLearner.KMeans
