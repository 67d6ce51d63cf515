import ProtocolLearner.Descent
import ProtocolLearner.Standstill
import ProtocolLearner.Wakeups
/-!
# What arrivals cost

A learner with as many means as there are character types clusters its points
in the dimension they have. No pass of its worker is then for the worse: what
the stored points cost with the means there are is at most what they cost when
the means were drawn, and what each later one cost when it arrived
(`spread_bounded`), however passes and packets interleave.
-/

namespace ProtocolLearner.KMeans

section Exact
variable {T : Type} [Field T] [LinearOrder T]

/-- The squared distance of a vector to the nearest of the means. -/
def nearestSqDist (means : List (MeanPoint T)) (v : List T) : T :=
  ((means.map fun m => sqDist v m.m_Vector).min?).getD 0

/-- The sum over the points of the squared distance to the nearest mean. -/
def spread (k : KMeans T) : T := (k.m_PointVector.map fun p => nearestSqDist k.m_CurrentMeans p.m_Vector).sum

theorem nearestSqDist_eq {means : List (MeanPoint T)} {m : MeanPoint T} (hm : m ∈ means) {v : List T}
    (hle : ∀ m' ∈ means, sqDist v m.m_Vector ≤ sqDist v m'.m_Vector) :
    nearestSqDist means v = sqDist v m.m_Vector := by
  have hmin : (means.map fun m => sqDist v m.m_Vector).min? = some (sqDist v m.m_Vector) :=
    List.min?_eq_some_iff.2 ⟨List.mem_map_of_mem hm, List.forall_mem_map.2 hle⟩
  rw [nearestSqDist, hmin, Option.getD_some]

theorem nearestSqDist_le {means : List (MeanPoint T)} {m : MeanPoint T} (hm : m ∈ means) (v : List T) :
    nearestSqDist means v ≤ sqDist v m.m_Vector := by
  cases hmin : (means.map fun m => sqDist v m.m_Vector).min? with
  | none =>
    rw [List.min?_eq_none_iff, List.map_eq_nil_iff] at hmin
    rw [hmin] at hm
    cases hm
  | some d =>
    rw [nearestSqDist, hmin, Option.getD_some]
    exact (List.min?_eq_some_iff.1 hmin).2 _ (List.mem_map_of_mem hm)

theorem nearestSqDist_nonneg [IsStrictOrderedRing T] (means : List (MeanPoint T)) (v : List T) :
    0 ≤ nearestSqDist means v := by
  unfold nearestSqDist
  cases hmin : (means.map fun m => sqDist v m.m_Vector).min? with
  | none => exact le_rfl
  | some d =>
    obtain ⟨m, -, rfl⟩ := List.mem_map.1 (List.min?_mem hmin)
    exact sqDist_nonneg _ _

/-- The points cost least when each is assigned to its nearest mean. -/
theorem spread_le_cost [IsStrictOrderedRing T] {k : KMeans T}
    (h : ∀ p ∈ k.m_PointVector, p.m_MeanIndex.toNat < k.m_CurrentMeans.length) : spread k ≤ cost k := by
  apply List.sum_le_sum
  intro p hp
  have hvec : k.assignedVector p = (k.m_CurrentMeans.get ⟨p.m_MeanIndex.toNat, h p hp⟩).m_Vector := by
    simp [assignedVector, h p hp]
  rw [hvec]
  exact nearestSqDist_le (List.get_mem _ _) _

theorem spread_mSubmit [Scalar T] (k : KMeans T) (v : List T) :
    spread (k.mSubmit v) = spread k + nearestSqDist k.m_CurrentMeans v := by
  simp [spread, KMeans.mSubmit, DataPoint.new]

theorem spread_of_data {k k' : KMeans T} (h : Engine.SameData k k') : spread k' = spread k := by
  rw [spread, h.points, h.means]
  rfl

/-! ## A round -/

variable [IsStrictOrderedRing T] [Exact T]

theorem LloydReady.clustered {k : KMeans T} (h : LloydReady k) : Clustered k.mAssignAll.2 where
  shaped := h.shaped.mAssignAll
  points := (mAssignAll_untouched k).length.trans_le h.points
  assigned p' hp' := by
    obtain ⟨p, -, hassigned⟩ := Assigned.of_mem h.assigned hp'
    obtain ⟨l, hl, -⟩ := hassigned.position h.shaped.labelled
    rw [hl]
    exact l.isLt

/-- `mAssignAll` assigns each point to a nearest mean. -/
theorem LloydReady.cost_mAssignAll {k : KMeans T} (h : LloydReady k) : cost k.mAssignAll.2 = spread k := by
  have hterms : List.Forall₂ (fun p p' => nearestSqDist k.m_CurrentMeans p.m_Vector =
      sqDist p'.m_Vector (k.mAssignAll.2.assignedVector p')) k.m_PointVector k.mAssignAll.2.m_PointVector := by
    refine (assignLoop_ok h.assigned).imp fun p p' hassigned => ?_
    obtain ⟨l, hl, hvec, hnear⟩ := hassigned.position h.shaped.labelled
    have hmean : k.mAssignAll.2.assignedVector p' = (k.m_CurrentMeans.get l).m_Vector := by
      simp [assignedVector, KMeans.mAssignAll, hl]
    rw [hmean, hvec, nearestSqDist_eq (List.get_mem _ l)]
    intro m' hm'
    obtain ⟨l', rfl⟩ := List.get_of_mem hm'
    exact (hnear l').1
  unfold cost spread
  rw [← List.forall₂_map_right_iff, ← List.forall₂_map_left_iff, List.forall₂_eq_eq_eq] at hterms
  rw [hterms]

theorem LloydReady.spread_round {k : KMeans T} (h : LloydReady k) : spread (round k).2 ≤ spread k := by
  have hc := h.clustered
  rw [round_of_assigned h.assigned]
  calc spread k.mAssignAll.2.mUpdateMeans.2
      ≤ cost k.mAssignAll.2.mUpdateMeans.2 := spread_le_cost (by rw [mUpdateMeans_length]; exact hc.assigned)
    _ ≤ cost k.mAssignAll.2 := hc.update_le ⟨rfl, hc.shaped.means⟩
    _ = spread k := h.cost_mAssignAll

end Exact

end ProtocolLearner.KMeans

namespace ProtocolLearner.Engine

open Machine KMeans

section Exact
variable {F : Type} [Field F] [LinearOrder F] [Scalar F]

/-- What a step costs: a vector submitted, its squared distance to the nearest mean. -/
def arrival (s : Engine F) : Act F → F
  | .submit v => nearestSqDist s.kmeans.m_CurrentMeans v
  | _ => 0

/-- What the vectors submitted in a run cost when they arrived. -/
def arrivals (n : UInt16) : Engine F → List (Act F) → F := charged (step n) arrival

end Exact

/-- An engine with means, whose points have the dimension it was told. -/
structure Clustering {T : Type} (n numArgs : UInt16) (k : KMeans T) : Prop where
  placed : Placed n k
  numArgs : k.m_NumArgs = numArgs
  initialised : k.m_Initialised = true

section Exact
variable {F : Type} [Field F] [LinearOrder F] [IsStrictOrderedRing F] [Exact F]

omit [Exact F] in
theorem arrival_nonneg (s : Engine F) (act : Act F) : 0 ≤ s.arrival act := by
  cases act with
  | submit v => exact nearestSqDist_nonneg _ v
  | worker | spurious | notify | stop => exact le_rfl

/-- One step of any thread: what it adds to the cost is at most what it submits. -/
theorem Clustering.step {n numArgs : UInt16} (hn : 1 ≤ n.toNat) {s s' : Engine F} {act : Act F}
    (h : Clustering n numArgs s.kmeans) (hv : ∀ v, act = .submit v → v.length = numArgs.toNat)
    (hfew : s.kmeans.m_PointVector.length ≤ 65535) (hs : Engine.step n s act = some s') :
    Clustering n numArgs s'.kmeans ∧ spread s'.kmeans ≤ spread s.kmeans + s.arrival act := by
  obtain ⟨hplaced, hargs⟩ := h.placed.step h.numArgs hv hs
  have hpaid := arrival_nonneg s act
  cases effect_of_step hs with
  | submit hact he =>
    subst hact he
    exact ⟨⟨hplaced, hargs, h.initialised⟩, (spread_mSubmit _ _).le⟩
  | initialise _ hinit =>
    rw [h.initialised] at hinit
    cases hinit
  | update _ _ hd =>
    have hready := h.placed.ready hn h.initialised hfew
    have hinit := hd.initialised.trans ((assignAndUpdate_initialised s.kmeans).trans h.initialised)
    refine ⟨⟨hplaced, hargs, hinit⟩, ?_⟩
    calc spread s'.kmeans
        = spread (round s.kmeans).2 := by rw [spread_of_data hd, assignAndUpdate_round hready]
      _ ≤ spread s.kmeans := hready.spread_round
      _ ≤ spread s.kmeans + s.arrival act := le_add_of_nonneg_right hpaid
  | rest _ _ hd =>
    refine ⟨⟨hplaced, hargs, hd.initialised.trans h.initialised⟩, ?_⟩
    rw [spread_of_data hd]
    exact le_add_of_nonneg_right hpaid

omit [IsStrictOrderedRing F] in
theorem placed_of_run {n numArgs : UInt16} {s : Engine F} {acts : List (Act F)}
    (hdim : ∀ v ∈ submitted acts, v.length = numArgs.toNat) (h : run (step n) (launch numArgs) acts = some s) :
    Placed n s.kmeans ∧ s.kmeans.m_NumArgs = numArgs := by
  have hplaced : EveryState (step n) (fun s => Placed n s.kmeans ∧ s.kmeans.m_NumArgs = numArgs) (launch numArgs) acts :=
    .of_inv _ (fun _ act => ∀ v, act = .submit v → v.length = numArgs.toNat)
      (fun _ _ _ h hv hs => h.1.step h.2 hv hs) ⟨.new n numArgs, rfl⟩ (everyStep_submitted hdim)
  exact hplaced.last h

theorem spread_le_arrivals {n numArgs : UInt16} (hn : 1 ≤ n.toNat) {s s' : Engine F} {acts : List (Act F)}
    (h : Clustering n numArgs s.kmeans) (hdim : ∀ v ∈ submitted acts, v.length = numArgs.toNat)
    (hfew : s.kmeans.m_PointVector.length + (submitted acts).length ≤ 65535)
    (hrun : run (step n) s acts = some s') : spread s'.kmeans ≤ spread s.kmeans + arrivals n s acts := by
  refine le_charged (fun s => spread s.kmeans) _ (fun s => Clustering n numArgs s.kmeans)
    (fun s act => (∀ v, act = .submit v → v.length = numArgs.toNat) ∧ s.kmeans.m_PointVector.length ≤ 65535)
    (fun s act s' hk hc hs => ?_) h (.and (everyStep_submitted hdim) (everyStep_points hfew)) hrun
  exact hk.step hn hc.1 hc.2 hs

end Exact

end ProtocolLearner.Engine

namespace ProtocolLearner.World

open Machine KMeans

section Exact
variable {F : Type} [Field F] [LinearOrder F] [IsStrictOrderedRing F] [Exact F]

/-! ## Main theorem -/

/-- In every run of a learner with the character distribution and as many means
as there are character types, with fewer than 2^16 points: from any moment on
at which there are means, the points cost at most what they cost then, and the
later ones what they cost at their arrival. -/
theorem spread_bounded {s : Setup} {a : CharDistributionAlgo} (halgo : s.aAnalysisAlgo = .charDistribution a)
    (hn : s.aNumMeansForClassification.toNat = NUMTYPES) {pre post : List (Event F)} {w₀ w : World F}
    (h₀ : run step (start s) pre = some w₀) (hinit : w₀.engine.kmeans.m_Initialised = true)
    (h : run step w₀ post = some w) (hfew : w.engine.kmeans.m_PointVector.length < 2 ^ 16) :
    spread w.engine.kmeans ≤ spread w₀.engine.kmeans +
      Engine.arrivals s.aNumMeansForClassification w₀.engine ((engineRun s).trace w₀ post) := by
  let n := s.aNumMeansForClassification
  have hn' : 1 ≤ n.toNat := by
    rw [hn]
    decide
  obtain ⟨ht₀, hwide₀⟩ := wide_of_run halgo hn' h₀
  have hall : run step (start s) (pre ++ post) = some w := by
    rw [run_append, h₀]
    exact h
  obtain ⟨ht, hwide⟩ := wide_of_run halgo hn' hall
  -- The vectors submitted have one coordinate for each character type, and so as many as there are means.
  have hdim : ∀ v ∈ w.log.filterMap Handled.submitted, v.length = n.toNat :=
    fun v hv => (ht.submitted_length hwide v hv).trans hn.symm
  obtain ⟨later, hlog, hsubmitted⟩ := submitted_of_run ht₀.means h
  rw [hlog, List.filterMap_append] at hdim
  obtain ⟨hrun₀, hacts₀⟩ := engine_of_run h₀
  have hdim₀ : ∀ v ∈ Engine.submitted ((engineRun s).trace (start s) pre), v.length = n.toNat :=
    fun v hv => hdim v (List.mem_append_left _ (hacts₀ ▸ hv))
  obtain ⟨hplaced, hargs⟩ := Engine.placed_of_run hdim₀ hrun₀
  refine Engine.spread_le_arrivals hn' ⟨hplaced, hargs, hinit⟩
    (fun v hv => hdim v (List.mem_append_right _ (hsubmitted ▸ hv))) ?_ ((engineRun s).run_trace ht₀.means h)
  have hlen := ht.ledger.length
  rw [hlog, List.filterMap_append, List.length_append, ← ht₀.ledger.length, ← hsubmitted] at hlen
  have := hlen ▸ hfew
  omega

/-- Five means, drawn from five letters. -/
def fiveLetters : List (Event ℚ) :=
  [.worker .id, .worker .id] ++ (List.replicate 5 (packet .highToLow (oneByte 65) 7)).flatten ++
    [.worker .id, .worker .id]

/-- Two digits, one and four away from the last mean, and a pass that moves it between them. -/
def twoDigits : List (Event ℚ) :=
  packet .highToLow (oneByte 48) 7 ++ packet .highToLow (oneByte 48) 7 ++ [.worker .id]

theorem twoDigits_spread : ∃ w₀ w : World ℚ,
    run step (start { sampleSetup with aNumMeansForClassification := 5, aMaxPacketsToObserve := 7 }) fiveLetters =
      some w₀ ∧ run step w₀ twoDigits = some w ∧ w.engine.kmeans.m_PointVector.length = 7 ∧
      spread w.engine.kmeans ≤ 1 + 4 := by
  let s : Setup := { sampleSetup with aNumMeansForClassification := 5, aMaxPacketsToObserve := 7 }
  have hrun : ((run step (start s) fiveLetters).bind fun w₀ => (run step w₀ twoDigits).map fun w : World ℚ =>
      (w₀.engine.kmeans.m_Initialised, spread w₀.engine.kmeans,
        Engine.arrivals 5 w₀.engine ((engineRun s).trace w₀ twoDigits), w.engine.kmeans.m_PointVector.length)) =
      some (true, 0, 1 + 4, 7) := by decide +kernel
  obtain ⟨w₀, h₀, hrun⟩ := Option.bind_eq_some_iff.1 hrun
  obtain ⟨w, h, he⟩ := Option.map_eq_some_iff.1 hrun
  simp only [Prod.mk.injEq] at he
  obtain ⟨hinit, hspread, harrivals, hlen⟩ := he
  have hle := spread_bounded (s := s) (a := ⟨[]⟩) rfl (by decide) h₀ hinit h (by omega)
  refine ⟨w₀, w, h₀, h, hlen, hle.trans ?_⟩
  rw [hspread]
  exact (congrArg (0 + ·) harrivals).trans_le (zero_add _).le

end Exact

end ProtocolLearner.World
