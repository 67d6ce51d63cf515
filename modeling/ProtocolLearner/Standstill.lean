import ProtocolLearner.EngineRuns
import ProtocolLearner.Linearization
/-!
# Fewer means than character types

A learner with the character distribution and fewer than `NUMTYPES` means
assigns its points once. The first update leaves the means with fewer
coordinates than the points have, and from then on `mAssignAll` throws at the
first point. So the points keep the labels they have, all later ones stay with
the first mean, and the other means do not move any more (`standstill`).
-/

namespace ProtocolLearner.Engine

open Machine KMeans

variable {T : Type} [Scalar T]

/-- An update has left the means with fewer coordinates than the points have,
and all but the first at the averages of their groups. -/
structure Narrow (n : UInt16) (k : KMeans T) : Prop where
  wide : Wide n k
  initialised : k.m_Initialised = true
  means : ∀ m ∈ k.m_CurrentMeans, m.m_Vector.length = n.toNat
  still : ∀ m ∈ k.m_CurrentMeans.tail, m.m_Vector = centroid n (group m.m_Label k.m_PointVector)

omit [Scalar T] in
/-- Only the first mean has the label of a new point. -/
theorem label_tail {means : List (MeanPoint T)} (h : Labelled means) {m : MeanPoint T} (hm : m ∈ means.tail) :
    m.m_Label ≠ 0 := by
  intro hzero
  obtain ⟨i, hi⟩ := List.mem_iff_getElem?.1 hm
  rw [List.getElem?_tail] at hi
  have hlabel := h.of_getElem hi
  rw [hzero] at hlabel
  cases hlabel

theorem group_submit {l : UInt16} (hl : l ≠ 0) (ps : List (DataPoint T)) (v : List T) (i : UInt16) :
    group l (ps ++ [.new v i]) = group l ps := by
  simp [group, DataPoint.new, hl.symm]

theorem Narrow.mSubmit {n : UInt16} (hn : 1 ≤ n.toNat) {k : KMeans T} (h : Narrow n k) {v : List T}
    (hv : v.length = NUMTYPES) : Narrow n (k.mSubmit v) where
  wide := h.wide.mSubmit hn hv
  initialised := h.initialised
  means := h.means
  still m hm := by
    rw [h.still m hm]
    exact congrArg _ (group_submit (label_tail h.wide.sound.seeded.labelled hm) _ _ _).symm

theorem Narrow.of_data {n : UInt16} {k k' : KMeans T} (h : Narrow n k) (hd : SameData k k') :
    Narrow n k' where
  wide := h.wide.of_data hd
  initialised := hd.initialised.trans h.initialised
  means := by rw [hd.means]; exact h.means
  still := by rw [hd.means, hd.points]; exact h.still

section narrow
variable {n : UInt16} (hn : 1 ≤ n.toNat) (hlt : n.toNat < NUMTYPES)
include hn hlt

/-- No point can be compared with such means. -/
theorem Narrow.mAssignAll {k : KMeans T} (h : Narrow n k) :
    k.mAssignAll.2 = k ∧ (k.m_PointVector ≠ [] → k.mAssignAll = (.error .outOfRange, k)) := by
  obtain ⟨m, hm⟩ := List.exists_mem_of_ne_nil _ (h.wide.sound.means_ne_nil hn h.initialised)
  have hloop : (assignLoop k.m_CurrentMeans k.m_PointVector).2 = k.m_PointVector ∧ (k.m_PointVector ≠ [] →
      (assignLoop k.m_CurrentMeans k.m_PointVector).1 = .error .outOfRange) := by
    cases hp : k.m_PointVector with
    | nil => exact ⟨rfl, fun hne => absurd rfl hne⟩
    | cons p ps =>
      have hshort : m.m_Vector.length < p.m_Vector.length := by
        rw [h.means m hm, h.wide.points p (hp ▸ List.mem_cons_self)]
        exact hlt
      rw [assignLoop, mFindNearestMean_short ⟨m, hm, hshort⟩]
      exact ⟨rfl, fun _ => rfl⟩
  have hsame : k.mAssignAll.2 = k := by
    unfold KMeans.mAssignAll
    simp only [hloop.1]
  exact ⟨hsame, fun hne => Prod.ext (hloop.2 hne) hsame⟩

/-- So an update that follows moves the first mean only. -/
theorem Narrow.assignAndUpdate {k : KMeans T} (h : Narrow n k) : Narrow n (assignAndUpdate k).2 ∧
    (Engine.assignAndUpdate k).2.m_PointVector = k.m_PointVector ∧
    (Engine.assignAndUpdate k).2.m_CurrentMeans.map (·.m_Label) = k.m_CurrentMeans.map (·.m_Label) ∧
    (Engine.assignAndUpdate k).2.m_CurrentMeans.tail = k.m_CurrentMeans.tail := by
  have hpoints : ∀ p ∈ k.m_PointVector, k.m_NumArgs.toNat ≤ p.m_Vector.length := by
    intro p hp
    rw [h.wide.points p hp, h.wide.sound.numArgs]
    exact hlt.le
  have hupdate := mUpdateMeans_eq hpoints
  have he : (Engine.assignAndUpdate k).2 = k.mUpdateMeans.2 := by
    rw [h.wide.sound.assignAndUpdate_eq hn h.initialised, (h.mAssignAll hn hlt).1]
  have htail : k.mUpdateMeans.2.m_CurrentMeans.tail = k.m_CurrentMeans.tail := by
    rw [hupdate, h.wide.sound.numArgs]
    dsimp only
    rw [← List.map_tail]
    refine (List.map_congr_left fun m hm => ?_).trans (List.map_id _)
    rw [← h.still m hm]
    rfl
  obtain ⟨hwide, hmeans⟩ := h.wide.update_le hn h.initialised hlt.le
  rw [he] at hwide hmeans ⊢
  refine ⟨⟨hwide, h.initialised, hmeans, ?_⟩, rfl, mUpdateMeans_labels k, htail⟩
  rw [htail]
  exact h.still

/-- The first update leaves the engine so. -/
theorem Narrow.of_update {k : KMeans T} (h : Wide n k) (hinit : k.m_Initialised = true) :
    Narrow n (Engine.assignAndUpdate k).2 := by
  obtain ⟨hwide, hmeans⟩ := h.update_le hn hinit hlt.le
  have hsound := h.sound.mAssignAll hinit
  have he := h.sound.assignAndUpdate_eq hn hinit
  have hpoints : ∀ p ∈ k.mAssignAll.2.m_PointVector, k.mAssignAll.2.m_NumArgs.toNat ≤ p.m_Vector.length := by
    rw [hsound.numArgs]
    refine ((mAssignAll_untouched k).forall_vector fun v => n.toNat ≤ v.length).2 fun p hp => ?_
    rw [h.points p hp]
    exact hlt.le
  refine ⟨hwide, ?_, hmeans, ?_⟩
  · rw [he]
    exact hinit
  · intro m' hm'
    rw [he, mUpdateMeans_eq hpoints, hsound.numArgs] at hm' ⊢
    obtain ⟨m, -, rfl⟩ := List.mem_map.1 (List.mem_of_mem_tail hm')
    rfl

/-- A step that updates leaves the engine so. -/
theorem Narrow.of_step {s s' : Engine T} {act : Act T} (h : Wide n s.kmeans) (hup : Updates n s act)
    (hs : step n s act = some s') : Narrow n s'.kmeans := by
  cases effect_of_step hs with
  | submit hact => exact absurd (hact ▸ hup) not_updates_submit
  | initialise hnot | rest hnot => exact absurd hup hnot
  | update _ _ hd => exact (Narrow.of_update hn hlt h hup.2.2.1).of_data hd

end narrow

/-! ## From then on -/

/-- Since `k` the vectors `vs` have been stored behind the points, as `mSubmit`
stores them, and at most the first mean has moved. -/
structure Standstill (vs : List (List T)) (k k' : KMeans T) : Prop where
  points : k'.m_PointVector = k.m_PointVector ++
    vs.mapIdx fun i v => .new v (UInt16.ofNat (k.m_PointVector.length + i))
  labels : k'.m_CurrentMeans.map (·.m_Label) = k.m_CurrentMeans.map (·.m_Label)
  means : k'.m_CurrentMeans.tail = k.m_CurrentMeans.tail

theorem Standstill.refl (k : KMeans T) : Standstill [] k k := ⟨by simp, rfl, rfl⟩

theorem Standstill.mSubmit {vs : List (List T)} {k k' : KMeans T} (h : Standstill vs k k')
    (hnext : k'.m_PointIndex = UInt16.ofNat k'.m_PointVector.length) (v : List T) :
    Standstill (vs ++ [v]) k (k'.mSubmit v) where
  points := by
    have hlen := congrArg List.length h.points
    rw [List.length_append, List.length_mapIdx] at hlen
    rw [hlen] at hnext
    simp only [KMeans.mSubmit, hnext, h.points, List.mapIdx_append, List.mapIdx_cons, List.mapIdx_nil, Nat.zero_add,
      List.append_assoc]
  labels := h.labels
  means := h.means

/-- A step of the threads. -/
theorem Standstill.step {n : UInt16} (hn : 1 ≤ n.toNat) (hlt : n.toNat < NUMTYPES) {vs : List (List T)}
    {k : KMeans T} {s s' : Engine T} {act : Act T} (h : Standstill vs k s.kmeans) (hk : Narrow n s.kmeans)
    (hnext : s.kmeans.m_PointIndex = UInt16.ofNat s.kmeans.m_PointVector.length)
    (hv : ∀ v, act = .submit v → v.length = NUMTYPES) (hs : Engine.step n s act = some s') :
    Standstill (vs ++ submitted [act]) k s'.kmeans ∧ Narrow n s'.kmeans := by
  -- A step that adds no point submits nothing.
  have hnone (hlen : s'.kmeans.m_PointVector.length = s.kmeans.m_PointVector.length) : submitted [act] = [] := by
    have hpoints := step_points hs
    exact List.length_eq_zero_iff.1 (by omega)
  cases effect_of_step hs with
  | submit hact he =>
    subst hact he
    exact ⟨h.mSubmit hnext _, hk.mSubmit hn (hv _ rfl)⟩
  | initialise _ hinit =>
    rw [hk.initialised] at hinit
    cases hinit
  | update hup _ hd =>
    obtain ⟨hk', hpoints, hlabels, htail⟩ := hk.assignAndUpdate hn hlt
    rw [hnone (by rw [hd.points, hpoints]), List.append_nil]
    refine ⟨⟨?_, ?_, ?_⟩, hk'.of_data hd⟩
    · rw [hd.points, hpoints, h.points]
    · rw [hd.means, hlabels, h.labels]
    · rw [hd.means, htail, h.means]
  | rest _ _ hd =>
    rw [hnone (by rw [hd.points]), List.append_nil]
    refine ⟨⟨?_, ?_, ?_⟩, hk.of_data hd⟩
    · rw [hd.points, h.points]
    · rw [hd.means, h.labels]
    · rw [hd.means, h.means]

theorem numbered_step {n : UInt16} {s s' : Engine T} {act : Act T}
    (h : s.kmeans.m_PointIndex = UInt16.ofNat s.kmeans.m_PointVector.length) (hs : step n s act = some s') :
    s'.kmeans.m_PointIndex = UInt16.ofNat s'.kmeans.m_PointVector.length := by
  cases transition_of_step hs with
  | start | leave | enter | wait | spurious | notify | stop => exact h
  | submit =>
    simp only [submit, KMeans.mSubmit, List.length_append, List.length_singleton, UInt16.ofNat_add, h]
    rfl
  | fail _ _ hpass | lastPass _ _ hpass | pass _ _ hpass =>
    have hu := untouched_of_pass hpass
    simp only [hu.pointIndex, hu.length, h]

theorem standstill_of_run {n : UInt16} (hn : 1 ≤ n.toNat) (hlt : n.toNat < NUMTYPES) {s s' : Engine T}
    {acts : List (Act T)} (hk : Narrow n s.kmeans)
    (hnext : s.kmeans.m_PointIndex = UInt16.ofNat s.kmeans.m_PointVector.length)
    (hdim : ∀ v ∈ submitted acts, v.length = NUMTYPES) (h : run (step n) s acts = some s') :
    Standstill (submitted acts) s.kmeans s'.kmeans ∧ Narrow n s'.kmeans := by
  -- The actions may be submissions of any vectors; only those that came are known to have the dimension.
  let I (acts : List (Act T)) (e : Engine T) : Prop := (∀ v ∈ submitted acts, v.length = NUMTYPES) →
    (Standstill (submitted acts) s.kmeans e.kmeans ∧ Narrow n e.kmeans) ∧
      e.kmeans.m_PointIndex = UInt16.ofNat e.kmeans.m_PointVector.length
  have hstart : I [] s := fun _ => ⟨⟨.refl _, hk⟩, hnext⟩
  refine (run_inv_trace I (fun acts e act e' hi hs hdim => ?_) h hstart hdim).1
  rw [submitted_append] at hdim ⊢
  obtain ⟨⟨hstill, hnarrow⟩, hnumbered⟩ := hi fun v hv => hdim v (List.mem_append_left _ hv)
  refine ⟨hstill.step hn hlt hnarrow hnumbered (fun v hact => ?_) hs, numbered_step hnumbered hs⟩
  subst hact
  exact hdim v (List.mem_append_right _ List.mem_cons_self)

end ProtocolLearner.Engine

namespace ProtocolLearner.World

open Machine KMeans

variable {T : Type} [Scalar T]

/-- What holds of a learner with the character distribution in every run. -/
theorem wide_of_run {s : Setup} {a : CharDistributionAlgo} (halgo : s.aAnalysisAlgo = .charDistribution a)
    (hn : 1 ≤ s.aNumMeansForClassification.toNat) {evs : List (Event T)} {w : World T}
    (h : run step (start s) evs = some w) : Tracked s w ∧ Engine.Wide s.aNumMeansForClassification w.engine.kmeans :=
  run_inv (fun w => Tracked s w ∧ Engine.Wide s.aNumMeansForClassification w.engine.kmeans)
    (fun _ _ _ hi hs => ⟨hi.1.step hs, (hi.1.dimension_step halgo hn hi.2 hs).1⟩) h ⟨tracked_start s, .new _⟩

theorem Tracked.nextIndex {s : Setup} {w : World T} (h : Tracked s w) :
    w.engine.kmeans.m_PointIndex = UInt16.ofNat w.engine.kmeans.m_PointVector.length := by
  rw [h.ledger.next, h.ledger.length]

theorem Tracked.submitted_length {s : Setup} {w : World T} (h : Tracked s w)
    (hwide : Engine.Wide s.aNumMeansForClassification w.engine.kmeans) :
    ∀ v ∈ w.log.filterMap Handled.submitted, v.length = NUMTYPES := by
  intro v hv
  obtain ⟨p, hp, rfl⟩ := List.mem_map.1 (h.ledger.vectors.symm.subset hv)
  exact hwide.points p hp

/-- In every run of a learner with the character distribution and fewer than
`NUMTYPES` means: after the first pass that updates, no stored point changes,
every admitted packet is stored with the label of the first mean, the other
means stand where they are, and assigning throws at the first point. -/
theorem standstill {s : Setup} {a : CharDistributionAlgo} (halgo : s.aAnalysisAlgo = .charDistribution a)
    (hn : 1 ≤ s.aNumMeansForClassification.toNat) (hlt : s.aNumMeansForClassification.toNat < NUMTYPES)
    {pre post : List (Event T)} {ev : Event T} {w₀ w₁ w : World T} (h₀ : run step (start s) pre = some w₀)
    (hup : InThread Engine.Updates w₀ ev) (h₁ : w₀.step ev = some w₁) (h : run step w₁ post = some w) :
    ∃ later, w.log = w₁.log ++ later ∧
      Engine.Standstill (later.filterMap Handled.submitted) w₁.engine.kmeans w.engine.kmeans ∧
      w.engine.kmeans.mAssignAll = (.error .outOfRange, w.engine.kmeans) := by
  obtain ⟨ht₀, hwide₀⟩ := wide_of_run halgo hn h₀
  have ht₁ := ht₀.step h₁
  have hall : run step (start s) (pre ++ ev :: post) = some w := by
    rw [run_append, h₀, Option.bind_some, run_cons, h₁]
    exact h
  obtain ⟨ht, hwide⟩ := wide_of_run halgo hn hall
  obtain ⟨hnarrow, hpoints⟩ : Engine.Narrow s.aNumMeansForClassification w₁.engine.kmeans ∧
      w₁.engine.kmeans.m_PointVector ≠ [] := by
    obtain ⟨act, hact, hup⟩ := hup
    rw [ht₀.means] at hup
    cases ht₀.engineStep h₁ with
    | rest hnone | submit hnone => rw [hnone] at hact; cases hact
    | thread hact' he =>
      obtain rfl := Option.some.inj (hact'.symm.trans hact)
      refine ⟨.of_step hn hlt hwide₀ hup he, ?_⟩
      have hlen := Engine.step_points he
      have hmany := hup.2.2.2
      have hle := Engine.currentSize_le w₀.engine.kmeans
      exact List.ne_nil_of_length_pos (by omega)
  obtain ⟨later, hlog, hsubmitted⟩ := submitted_of_run ht₁.means h
  have hdim := ht.submitted_length hwide
  rw [hlog, List.filterMap_append] at hdim
  have hengine : run (Engine.step s.aNumMeansForClassification) w₁.engine ((engineRun s).trace w₁ post) =
      some w.engine := (engineRun s).run_trace ht₁.means h
  obtain ⟨hstill, hk⟩ := Engine.standstill_of_run hn hlt hnarrow ht₁.nextIndex
    (hsubmitted ▸ fun v hv => hdim v (List.mem_append_right _ hv)) hengine
  rw [hsubmitted] at hstill
  refine ⟨later, hlog, hstill, (hk.mAssignAll hn hlt).2 fun hnil => hpoints ?_⟩
  rw [hstill.points, List.append_eq_nil_iff] at hnil
  exact hnil.1

/-- A fourth letter arrives, and the next pass updates again. -/
def fourthLetter : List (Event ℚ) := packet .highToLow (oneByte 68) 7 ++ [.worker .id, .worker .id]

theorem fourthLetter_standstill : ∃ w₁ w : World ℚ,
    run step (start { sampleSetup with aMaxPacketsToObserve := 9 }) threeLetters = some w₁ ∧
      run step w₁ fourthLetter = some w ∧ w.engine.kmeans.m_PointVector.length = 4 ∧
      w.engine.kmeans.m_CurrentMeans.tail = w₁.engine.kmeans.m_CurrentMeans.tail := by
  have hrun : ((run step (start { sampleSetup with aMaxPacketsToObserve := 9 }) threeLetters.dropLast).bind fun w₀ =>
      (w₀.step (.worker .id)).bind fun w₁ => (run step w₁ fourthLetter).map fun w : World ℚ =>
        (decide (InThread Engine.Updates w₀ (.worker .id)), w.engine.kmeans.m_PointVector.length)) = some (true, 4) := by
    decide +kernel
  obtain ⟨w₀, h₀, hrun⟩ := Option.bind_eq_some_iff.1 hrun
  obtain ⟨w₁, h₁, hrun⟩ := Option.bind_eq_some_iff.1 hrun
  obtain ⟨w, h, he⟩ := Option.map_eq_some_iff.1 hrun
  simp only [Prod.mk.injEq, decide_eq_true_eq] at he
  obtain ⟨later, -, hstill, -⟩ := standstill (a := ⟨[]⟩) rfl (by decide) (by decide) h₀ he.1 h₁ h
  have hfirst : run step (start { sampleSetup with aMaxPacketsToObserve := 9 })
      (threeLetters.dropLast ++ [.worker .id]) = some w₁ := run_snoc_some.2 ⟨w₀, h₀, h₁⟩
  exact ⟨w₁, w, hfirst, h, he.2, hstill.means⟩

end ProtocolLearner.World
