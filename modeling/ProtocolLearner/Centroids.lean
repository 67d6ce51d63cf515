import ProtocolLearner.Convergence
import ProtocolLearner.Points
/-!
# Centroids

`mUpdateMeans` sums up the coordinates of each group and divides by the number
of its members, counted in 16 bits. So a mean becomes the average of its group
exactly as long as 16 bits count the group, or the sum is zero anyway
(`centroid_law_iff`).

An average lies between the least and the greatest value averaged. So as long
as every group has members, the means stay inside the data (`means_in_box`).
-/

namespace ProtocolLearner.KMeans

open Machine

/-! ## Averages -/

section Average
variable {T : Type} [Field T]

/-- The sum of the coordinate `j` over the points `ps`. -/
def coordinateSum (j : Nat) (ps : List (DataPoint T)) : T := (ps.map fun p => p.m_Vector.getD j 0).sum

/-- Each coordinate of `v` is the sum over the points `ps` divided by their
number. A quotient by zero is no number, so the count divided by is not zero. -/
structure Averages (numArgs : UInt16) (ps : List (DataPoint T)) (v : List T) : Prop where
  length : v.length = numArgs.toNat
  quotient : ∀ j < numArgs.toNat, UInt16.ofNat ps.length ≠ 0 ∧ v.getD j 0 = coordinateSum j ps / ps.length

/-- 16 bits count the points `ps`, or count them to a wrong number other than
zero while the coordinate `j` sums up to zero. -/
def Counted (j : Nat) (ps : List (DataPoint T)) : Prop :=
  ps.length < 2 ^ 16 ∨ ps.length % 2 ^ 16 ≠ 0 ∧ coordinateSum j ps = 0

instance [DecidableEq T] (j : Nat) (ps : List (DataPoint T)) : Decidable (Counted j ps) :=
  inferInstanceAs (Decidable (_ ∨ _ ∧ _))

variable [LinearOrder T] [Exact T]

/-- A coordinate of the vector `mUpdateMeans` computes from a group. -/
theorem getD_centroid {numArgs : UInt16} {ps : List (DataPoint T)}
    (h : ∀ p ∈ ps, numArgs.toNat ≤ p.m_Vector.length) {j : Nat} (hj : j < numArgs.toNat) :
    (centroid numArgs ps).getD j 0 =
      Scalar.div (coordinateSum j ps) (Scalar.ofCount (UInt16.ofNat ps.length)) :=
  coords_centroid h ⟨j, hj⟩

variable [IsStrictOrderedRing T]

theorem getD_centroid_eq {numArgs : UInt16} {ps : List (DataPoint T)}
    (h : ∀ p ∈ ps, numArgs.toNat ≤ p.m_Vector.length) (hn : ps.length % 2 ^ 16 ≠ 0) {j : Nat}
    (hj : j < numArgs.toNat) : (centroid numArgs ps).getD j 0 = coordinateSum j ps / (ps.length % 2 ^ 16 : Nat) := by
  have hcount : (Scalar.ofCount (UInt16.ofNat ps.length) : T) = (ps.length % 2 ^ 16 : Nat) := by
    rw [Exact.ofCount_eq, UInt16.toNat_ofNat']
  have hne : ((ps.length % 2 ^ 16 : Nat) : T) ≠ 0 := Nat.cast_ne_zero.2 hn
  rw [getD_centroid h hj, hcount, Exact.div_eq _ hne]

/-- The quotient is the average exactly if the count is right or the sum is zero. -/
theorem quotient_iff {numArgs : UInt16} {ps : List (DataPoint T)}
    (h : ∀ p ∈ ps, numArgs.toNat ≤ p.m_Vector.length) (hne : ps ≠ []) {j : Nat} (hj : j < numArgs.toNat) :
    (UInt16.ofNat ps.length ≠ 0 ∧ (centroid numArgs ps).getD j 0 = coordinateSum j ps / ps.length) ↔
      Counted j ps := by
  have hpos : 0 < ps.length := List.length_pos_iff.2 hne
  have hcast : (ps.length : T) ≠ 0 := Nat.cast_ne_zero.2 hpos.ne'
  rw [Ne, ofNat_eq_zero_iff]
  unfold Counted
  rcases lt_or_ge ps.length (2 ^ 16) with hlt | hge
  · -- The count is right.
    have hmod : ps.length % 2 ^ 16 = ps.length := Nat.mod_eq_of_lt hlt
    have hn : ps.length % 2 ^ 16 ≠ 0 := by omega
    exact iff_of_true ⟨hn, by rw [getD_centroid_eq h hn hj, hmod]⟩ (.inl hlt)
  · -- The count is too small: the quotients agree only at zero.
    have hwrong : ps.length % 2 ^ 16 ≠ ps.length := by omega
    rw [or_iff_right (not_lt.2 hge)]
    apply and_congr_right
    intro hn
    have hmod : ((ps.length % 2 ^ 16 : Nat) : T) ≠ 0 := Nat.cast_ne_zero.2 hn
    rw [getD_centroid_eq h hn hj, div_eq_div_iff hmod hcast, mul_eq_mul_left_iff]
    exact or_iff_right (Nat.cast_injective.ne hwrong.symm)

omit [Exact T] in
/-- A value that is the average of a group lies between two of its members'. -/
theorem exists_le_average {ps : List (DataPoint T)} (hne : ps ≠ []) (j : Nat) :
    (∃ p ∈ ps, p.m_Vector.getD j 0 ≤ coordinateSum j ps / ps.length) ∧
      ∃ p ∈ ps, coordinateSum j ps / ps.length ≤ p.m_Vector.getD j 0 := by
  have hcast : (ps.length : T) ≠ 0 := Nat.cast_ne_zero.2 (List.length_pos_iff.2 hne).ne'
  have hsum : (ps.map fun _ => coordinateSum j ps / ps.length).sum = coordinateSum j ps := by
    rw [List.map_const', List.sum_replicate, nsmul_eq_mul, mul_div_cancel₀ _ hcast]
  exact ⟨List.exists_le_of_sum_le hne _ _ hsum.ge, List.exists_le_of_sum_le hne _ _ hsum.le⟩

/-! ## The centroid law -/

omit [IsStrictOrderedRing T] in
/-- What `mUpdateMeans` does if every quotient is an average. -/
structure CentroidLaw (k : KMeans T) : Prop where
  completes : k.mUpdateMeans.1 = .ok ()
  points : k.mUpdateMeans.2.m_PointVector = k.m_PointVector
  labels : k.mUpdateMeans.2.m_CurrentMeans.map (·.m_Label) = k.m_CurrentMeans.map (·.m_Label)
  average : ∀ (i : Nat) (m m' : MeanPoint T), k.m_CurrentMeans[i]? = some m →
    k.mUpdateMeans.2.m_CurrentMeans[i]? = some m' → group m.m_Label k.m_PointVector ≠ [] →
    Averages k.m_NumArgs (group m.m_Label k.m_PointVector) m'.m_Vector

/-- The law fails of a group that is not counted. -/
theorem CentroidLaw.counted {k : KMeans T} (hl : CentroidLaw k)
    (h : ∀ p ∈ k.m_PointVector, k.m_NumArgs.toNat ≤ p.m_Vector.length) {m : MeanPoint T} (hm : m ∈ k.m_CurrentMeans)
    {j : Nat} (hj : j < k.m_NumArgs.toNat) : Counted j (group m.m_Label k.m_PointVector) := by
  by_cases hne : group m.m_Label k.m_PointVector = []
  · rw [hne]
    exact .inl (by simp)
  · obtain ⟨i, hi⟩ := List.mem_iff_getElem?.1 hm
    have hafter : k.mUpdateMeans.2.m_CurrentMeans[i]? =
        some { m with m_Vector := centroid k.m_NumArgs (group m.m_Label k.m_PointVector) } := by
      rw [mUpdateMeans_eq h]
      simp [hi]
    have hav := hl.average i m _ hi hafter hne
    exact (quotient_iff (forall_group h m.m_Label) hne hj).1 (hav.quotient j hj)

/-- The means become the averages of their groups exactly if 16 bits count
each group, or fail to only where the sum is zero and the count is not. -/
theorem centroid_law_iff {k : KMeans T} (h : ∀ p ∈ k.m_PointVector, k.m_NumArgs.toNat ≤ p.m_Vector.length) :
    CentroidLaw k ↔ ∀ m ∈ k.m_CurrentMeans, ∀ j < k.m_NumArgs.toNat,
      Counted j (group m.m_Label k.m_PointVector) := by
  refine ⟨fun hl m hm j => hl.counted h hm, ?_⟩
  intro hc
  have heq := mUpdateMeans_eq h
  refine ⟨by rw [heq], by rw [heq], by rw [heq]; simp, ?_⟩
  intro i m m' hm hm' hne
  obtain rfl : _ = m' := by simpa [heq, hm] using hm'
  have hgroup := forall_group h m.m_Label
  refine ⟨centroid_length hgroup, ?_⟩
  intro j hj
  exact (quotient_iff hgroup hne hj).2 (hc m (List.mem_of_getElem? hm) j hj)

/-- One mean drawn from the first of two packets, both assigned to it. -/
def twoPackets : KMeans ℚ :=
  (((((new 2 : KMeans ℚ).mSubmit [1 / 4, 3 / 4]).mInitialise 1 .id).2.mSubmit [3 / 4, 1 / 4]).mAssignAll).2

theorem twoPackets_centroid : CentroidLaw twoPackets :=
  (centroid_law_iff (by decide +kernel)).2 (by decide +kernel)

/-- The centroid of two packets. -/
example : centroid 2 [DataPoint.new [1 / 4, 3 / 4] 0, DataPoint.new [3 / 4, 1 / 4] 1] = [(1 / 2 : ℚ), 1 / 2] := by
  decide +kernel

end Average

/-- `n` equal packets, all assigned to a mean drawn from the first of them. -/
def crowd (n : Nat) : KMeans ℚ where
  m_PointVector := (List.range n).map fun i => DataPoint.new [1] (UInt16.ofNat i)
  m_NumArgs := 1
  m_CurrentNumMeans := 1
  m_CurrentMeans := [⟨0, [1]⟩]
  m_PointIndex := UInt16.ofNat n
  m_Initialised := true
  m_NewSubmissionReady := true
  m_StopThread := false

theorem crowd_point {n : Nat} {p : DataPoint ℚ} (hp : p ∈ (crowd n).m_PointVector) :
    p.m_Vector = [1] ∧ p.m_MeanIndex = 0 := by
  obtain ⟨i, -, rfl⟩ := List.mem_map.1 hp
  exact ⟨rfl, rfl⟩

theorem crowd_group (n : Nat) : group 0 (crowd n).m_PointVector = (crowd n).m_PointVector := by
  apply List.filter_eq_self.2
  intro p hp
  rw [(crowd_point hp).2]
  rfl

theorem crowd_sum (n : Nat) : coordinateSum 0 (crowd n).m_PointVector = n := by
  have hone : (crowd n).m_PointVector.map (fun p => p.m_Vector.getD 0 0) = List.replicate n 1 := by
    simp [crowd, DataPoint.new, Function.comp_def]
  unfold coordinateSum
  rw [hone, List.sum_replicate, nsmul_eq_mul, mul_one]

/-- The mean of 65537 packets is not their average: they count as one. -/
theorem crowd_not_centroid :
    (∀ p ∈ (crowd 65537).m_PointVector, (crowd 65537).m_NumArgs.toNat ≤ p.m_Vector.length) ∧
      ¬ CentroidLaw (crowd 65537) := by
  have hdim : ∀ p ∈ (crowd 65537).m_PointVector, (crowd 65537).m_NumArgs.toNat ≤ p.m_Vector.length := by
    intro p hp
    rw [(crowd_point hp).1]
    exact le_refl 1
  refine ⟨hdim, ?_⟩
  intro hl
  have hcounted := hl.counted hdim (m := ⟨0, [1]⟩) (List.mem_singleton_self _) (j := 0) one_pos
  rw [crowd_group] at hcounted
  rcases hcounted with hlt | ⟨-, hzero⟩
  · simp [crowd] at hlt
  · rw [crowd_sum] at hzero
    norm_num at hzero

/-! ## The means stay inside the data -/

section Box
variable {T : Type} [Field T] [LinearOrder T]

/-- Each coordinate of `v` is at least that of one of the vectors `vs` and at
most that of another. -/
structure InBox (numArgs : UInt16) (vs : List (List T)) (v : List T) : Prop where
  length : v.length = numArgs.toNat
  above : ∀ j < numArgs.toNat, ∃ w ∈ vs, w.getD j 0 ≤ v.getD j 0
  below : ∀ j < numArgs.toNat, ∃ w ∈ vs, v.getD j 0 ≤ w.getD j 0

theorem InBox.mono {numArgs : UInt16} {vs ws : List (List T)} {v : List T} (h : InBox numArgs vs v)
    (hsub : vs ⊆ ws) : InBox numArgs ws v := by
  refine ⟨h.length, fun j hj => ?_, fun j hj => ?_⟩
  · obtain ⟨w, hw, hle⟩ := h.above j hj
    exact ⟨w, hsub hw, hle⟩
  · obtain ⟨w, hw, hle⟩ := h.below j hj
    exact ⟨w, hsub hw, hle⟩

theorem InBox.of_mem {numArgs : UInt16} {vs : List (List T)} {v : List T} (h : v ∈ vs)
    (hlen : v.length = numArgs.toNat) : InBox numArgs vs v :=
  ⟨hlen, fun _ _ => ⟨v, h, le_rfl⟩, fun _ _ => ⟨v, h, le_rfl⟩⟩

/-- `mUpdateMeans` finds a point for every mean. -/
def MembersFound (k : KMeans T) : Op T → Prop
  | .updateMeans => GroupsOccupied k
  | _ => True

instance (k : KMeans T) : DecidablePred (MembersFound k)
  | .updateMeans => inferInstanceAs (Decidable (GroupsOccupied k))
  | .submit _ | .initialise _ _ | .assignAll => inferInstanceAs (Decidable True)

/-- The points have `m_NumArgs` coordinates, and the means lie among them. -/
structure Boxed (k : KMeans T) : Prop where
  points : ∀ p ∈ k.m_PointVector, p.m_Vector.length = k.m_NumArgs.toNat
  means : ∀ m ∈ k.m_CurrentMeans, InBox k.m_NumArgs (k.m_PointVector.map (·.m_Vector)) m.m_Vector

variable [Exact T]

theorem Boxed.mSubmit {k : KMeans T} (h : Boxed k) {v : List T} (hv : InDimension k (.submit v)) :
    Boxed (k.mSubmit v) := by
  constructor
  · intro p hp
    rcases List.mem_append.1 hp with hp | hp
    · exact h.points p hp
    · obtain rfl := List.mem_singleton.1 hp
      exact hv
  · intro m hm
    apply (h.means m hm).mono
    unfold KMeans.mSubmit
    rw [List.map_append]
    exact List.subset_append_left _ _

omit [Exact T] in
/-- A mean that a call leaves alone stays inside the data. -/
theorem Boxed.old_mean {k k' : KMeans T} (h : Boxed k) (hu : Untouched k k') {m : MeanPoint T}
    (hm : m ∈ k.m_CurrentMeans) : InBox k'.m_NumArgs (k'.m_PointVector.map (·.m_Vector)) m.m_Vector := by
  rw [hu.numArgs]
  exact (h.means m hm).mono hu.vectors.symm.subset

omit [LinearOrder T] [Exact T] [Field T] in
theorem dimension_of_untouched {k k' : KMeans T} (hu : Untouched k k')
    (h : ∀ p ∈ k.m_PointVector, p.m_Vector.length = k.m_NumArgs.toNat) :
    ∀ p ∈ k'.m_PointVector, p.m_Vector.length = k'.m_NumArgs.toNat := by
  rw [hu.numArgs]
  exact (hu.forall_vector (·.length = k.m_NumArgs.toNat)).2 h

omit [Exact T] in
theorem Boxed.mInitialise {k : KMeans T} (h : Boxed k) (n : UInt16) (σ : Shuffle (DataPoint T)) :
    Boxed (k.mInitialise n σ).2 := by
  have hu := mInitialise_untouched n σ k
  have hpoints := dimension_of_untouched hu h.points
  refine ⟨hpoints, ?_⟩
  intro m hm
  rcases lt_or_ge k.m_PointVector.length n.toNat with hlt | hge
  · rw [mInitialise_short hlt] at hm
    exact h.old_mean hu hm
  · have heq := mInitialise_eq hge σ
    rw [heq] at hm
    rcases List.mem_append.1 hm with hm | hm
    · exact h.old_mean hu hm
    · -- A new mean is a copy of a point.
      obtain ⟨p, hp, hvec⟩ := initialMeans_vector hm
      have hp' : p ∈ (k.mInitialise n σ).2.m_PointVector := by rwa [heq]
      rw [hvec]
      exact .of_mem (List.mem_map_of_mem hp') (hpoints p hp')

theorem Boxed.mAssignAll {k : KMeans T} (h : Boxed k) : Boxed k.mAssignAll.2 := by
  have hu := mAssignAll_untouched k
  exact ⟨dimension_of_untouched hu h.points, fun m hm => h.old_mean hu hm⟩

variable [IsStrictOrderedRing T]

/-- The centroid of a group with members lies among them. -/
theorem centroid_inBox {numArgs : UInt16} {ps : List (DataPoint T)} (hne : ps ≠ []) (hlen : ps.length ≤ 65535)
    (h : ∀ p ∈ ps, numArgs.toNat ≤ p.m_Vector.length) :
    InBox numArgs (ps.map (·.m_Vector)) (centroid numArgs ps) := by
  have hav (j : Nat) (hj : j < numArgs.toNat) : (centroid numArgs ps).getD j 0 = coordinateSum j ps / ps.length :=
    ((quotient_iff h hne hj).2 (.inl (by omega))).2
  refine ⟨centroid_length h, fun j hj => ?_, fun j hj => ?_⟩
  · obtain ⟨p, hp, hle⟩ := (exists_le_average hne j).1
    exact ⟨_, List.mem_map_of_mem hp, (hav j hj).symm ▸ hle⟩
  · obtain ⟨p, hp, hle⟩ := (exists_le_average hne j).2
    exact ⟨_, List.mem_map_of_mem hp, (hav j hj).symm ▸ hle⟩

theorem Boxed.mUpdateMeans {k : KMeans T} (h : Boxed k) (hf : MembersFound k .updateMeans)
    (hn : k.m_PointVector.length ≤ 65535) : Boxed k.mUpdateMeans.2 := by
  rw [mUpdateMeans_eq fun p hp => (h.points p hp).ge]
  refine ⟨h.points, ?_⟩
  intro m' hm'
  obtain ⟨m, hm, rfl⟩ := List.mem_map.1 hm'
  have hdim := forall_group (fun p hp => (h.points p hp).ge) m.m_Label
  have hbox := centroid_inBox (hf m hm) ((List.length_filter_le _ _).trans hn) hdim
  exact hbox.mono (List.map_subset _ (List.filter_subset_self _))

/-- One step: the group that is averaged is not too large to be counted. -/
theorem Boxed.step {k k' : KMeans T} {op : Op T} (h : Boxed k) (hd : InDimension k op) (hf : MembersFound k op)
    (hn : k.m_PointVector.length ≤ 65535) (hs : k.step op = some k') : Boxed k' := by
  obtain ⟨rfl, -⟩ := step_some hs
  cases op with
  | submit v => exact h.mSubmit hd
  | initialise n σ => exact h.mInitialise n σ
  | assignAll => exact h.mAssignAll
  | updateMeans => exact h.mUpdateMeans hf hn

/-! ## Main theorem -/

/-- After every run whose updates find a point for every mean, each coordinate
of each mean lies between two submitted ones. -/
theorem means_in_box {numArgs : UInt16} {ops : List (Op T)} {k : KMeans T}
    (hrun : run step (new numArgs) ops = some k) (hdim : EveryStep step InDimension (new numArgs) ops)
    (hfound : EveryStep step MembersFound (new numArgs) ops) (hn : (submissions ops).length ≤ 65535) :
    ∀ m ∈ k.m_CurrentMeans, InBox numArgs (submissions ops) m.m_Vector := by
  have hfew : EveryStep step (fun k _ => k.m_PointVector.length ≤ 65535) (new numArgs : KMeans T) ops :=
    everyStep_length (by simpa [KMeans.new] using hn)
  have hnew : Boxed (new numArgs : KMeans T) := ⟨by simp [KMeans.new], by simp [KMeans.new]⟩
  have hboxed := EveryState.of_inv (fun k => Boxed k ∧ k.m_NumArgs = numArgs)
    (fun k op => (InDimension k op ∧ MembersFound k op) ∧ k.m_PointVector.length ≤ 65535)
    (fun k op k' h hc hs => ⟨h.1.step hc.1.1 hc.1.2 hc.2 hs, (step_numArgs hs).trans h.2⟩) ⟨hnew, rfl⟩
    ((hdim.and hfound).and hfew)
  obtain ⟨hk, rfl⟩ := hboxed.last hrun
  intro m hm
  exact (hk.means m hm).mono (ledger_of_run hrun).vectors.subset

/-- One mean and a round, then two more means, another point and another round. -/
def redrawn : List (Op ℚ) :=
  [.submit [0, 1], .submit [4, 3], .initialise 1 .id, .assignAll, .updateMeans, .initialise 2 .reverse,
    .submit [1, 5], .assignAll, .updateMeans]

theorem redrawn_in_box : ∃ k, run step (new 2) redrawn = some k ∧
    ∀ m ∈ k.m_CurrentMeans, InBox 2 [[0, 1], [4, 3], [1, 5]] m.m_Vector := by
  have hsome : (run step (new 2) redrawn).isSome = true := by decide +kernel
  obtain ⟨k, hk⟩ := Option.isSome_iff_exists.1 hsome
  exact ⟨k, hk, means_in_box hk (by decide +kernel) (by decide +kernel) (by decide)⟩

end Box

end ProtocolLearner.KMeans
