import ProtocolLearner.Convergence
/-!
# The cost of a clustering

The sum of the squared distances of the points to their means. `mAssignAll`
gives the least cost of any assignment to the current means. Where every mean
has a point, `mUpdateMeans` gives the least cost of any means for the current
assignment, and no other means have it. So neither half of a round raises it.
-/

namespace ProtocolLearner.KMeans

open Machine

section Cost
variable {T : Type} [Field T]

/-- The vector of the mean at the position a point's index says. -/
def assignedVector (k : KMeans T) (p : DataPoint T) : List T :=
  (k.m_CurrentMeans.map (·.m_Vector)).getD p.m_MeanIndex.toNat []

/-- The sum over the points of the squared distance to the mean they are assigned to. -/
def cost (k : KMeans T) : T := (k.m_PointVector.map fun p => sqDist p.m_Vector (k.assignedVector p)).sum

/-- A shaped engine, each of its points assigned to one of the means, with a
number of points that 16 bits can count. -/
structure Clustered (k : KMeans T) : Prop where
  shaped : Shaped k
  points : k.m_PointVector.length ≤ 65535
  assigned : ∀ p ∈ k.m_PointVector, p.m_MeanIndex.toNat < k.m_CurrentMeans.length

/-- The points of `k`, each assigned to one of its means. -/
structure Assignment (k : KMeans T) (ps : List (DataPoint T)) : Prop where
  submissions : ps.map DataPoint.submission = k.m_PointVector.map DataPoint.submission
  assigned : ∀ p ∈ ps, p.m_MeanIndex.toNat < k.m_CurrentMeans.length

/-- As many means as `k` has, each with as many coordinates as its points. -/
structure MeansChoice (k : KMeans T) (means : List (MeanPoint T)) : Prop where
  length : means.length = k.m_CurrentMeans.length
  dimension : ∀ m ∈ means, m.m_Vector.length = k.m_NumArgs.toNat

/-! ## The cost is Lloyd's -/

theorem Indexed.cost_eq {k : KMeans T} {n K d : Nat} {hn : n = k.m_PointVector.length} {a : Fin n → Fin K}
    (h : Indexed k hn a) (hK : K = k.m_CurrentMeans.length)
    (hp : ∀ p ∈ k.m_PointVector, p.m_Vector.length = d) (hm : ∀ m ∈ k.m_CurrentMeans, m.m_Vector.length = d) :
    cost k = Lloyd.cost (pointRows n d k) a (meanRows K d k) := by
  subst hn hK
  unfold cost Lloyd.cost
  rw [← Fin.sum_univ_fun_getElem]
  apply Finset.sum_congr rfl
  intro i _
  have hi : k.m_PointVector[i.val].m_MeanIndex.toNat = a i := h i
  have hvec : k.assignedVector k.m_PointVector[i.val] = (k.m_CurrentMeans.get (a i)).m_Vector := by
    simp [assignedVector, hi]
  rw [hvec, pointRows_get _ rfl, meanRows_get _ rfl]
  exact sqDist_coords (hp _ (List.getElem_mem _)) (hm _ (List.get_mem _ _))

variable [LinearOrder T] [IsStrictOrderedRing T] [Exact T]

/-! ## Assigning -/

omit [IsStrictOrderedRing T] in
theorem Clustered.mAssignAll {k : KMeans T} (h : Clustered k) : Clustered k.mAssignAll.2 := by
  refine ⟨h.shaped.mAssignAll, (mAssignAll_untouched k).length.trans_le h.points, ?_⟩
  exact assignLoop_index (·.toNat < k.m_CurrentMeans.length) (fun m hm => h.shaped.labelled.lt hm) h.assigned

omit [Field T] [LinearOrder T] [IsStrictOrderedRing T] [Exact T] in
/-- Without means there are no points. -/
theorem Clustered.ready {k : KMeans T} (h : Clustered k) : k.m_PointVector = [] ∨ LloydReady k := by
  by_cases hm : k.m_CurrentMeans = []
  · left
    apply List.eq_nil_iff_forall_not_mem.2
    intro p hp
    have := h.assigned p hp
    simp [hm] at this
  · exact .inr ⟨h.shaped, hm, h.points⟩

omit [IsStrictOrderedRing T] in
theorem Clustered.assigns {k : KMeans T} (h : Clustered k) : k.mAssignAll.1 = .ok () := by
  rcases h.ready with hnil | hready
  · unfold KMeans.mAssignAll
    rw [hnil]
    rfl
  · exact hready.assigned

omit [IsStrictOrderedRing T] in
theorem Clustered.assignment {k : KMeans T} (h : Clustered k) : Assignment k k.mAssignAll.2.m_PointVector where
  submissions := assignLoop_submissions _ _
  assigned := h.mAssignAll.assigned

/-- No assignment to the means costs less than the one `mAssignAll` makes. -/
theorem Clustered.assign_le {k : KMeans T} (h : Clustered k) {ps : List (DataPoint T)} (hps : Assignment k ps) :
    cost k.mAssignAll.2 ≤ cost { k with m_PointVector := ps } := by
  have hs := hps.submissions
  have hlen : ps.length = k.m_PointVector.length := by simpa using congrArg List.length hs
  rcases h.ready with hnil | hready
  · have hps : ps = [] := by simpa [hnil] using hlen
    have hcall : k.mAssignAll.2.m_PointVector = [] := by
      unfold KMeans.mAssignAll
      rw [hnil]
      rfl
    unfold cost
    rw [hcall, hps]
    exact le_rfl
  · have hn : ps.length = k.mAssignAll.2.m_PointVector.length := by rw [hlen, (mAssignAll_untouched k).length]
    have hpoints : ∀ p ∈ ps, p.m_Vector.length = k.m_NumArgs.toNat := by
      intro p hp
      have hmem := List.mem_map_of_mem (f := DataPoint.submission) hp
      rw [hs] at hmem
      obtain ⟨q, hq, he⟩ := List.mem_map.1 hmem
      have hvec : q.m_Vector = p.m_Vector := congrArg Prod.snd he
      rw [← hvec]
      exact h.shaped.points q hq
    obtain ⟨a, ha, hnear⟩ := hready.nearest hn
    obtain ⟨b, hb⟩ := exists_indexed (k := { k with m_PointVector := ps }) rfl hps.assigned
    have hafter := ha.cost_eq (d := k.m_NumArgs.toNat) rfl h.mAssignAll.shaped.points h.shaped.means
    have hother := hb.cost_eq (d := k.m_NumArgs.toNat) rfl hpoints h.shaped.means
    rw [pointRows_congr (k := k) _ _ (assignLoop_submissions _ _)] at hafter
    rw [pointRows_congr (k := k) _ _ hs] at hother
    rw [hafter, hother]
    exact hnear.cost_le b

/-! ## Moving the means -/

omit [IsStrictOrderedRing T] in
theorem Clustered.update_cost {k : KMeans T} (h : Clustered k) {means : List (MeanPoint T)}
    (hmeans : MeansChoice k means) :
    ∃ a : Fin k.m_PointVector.length → Fin k.m_CurrentMeans.length, Indexed k rfl a ∧
      cost k.mUpdateMeans.2 = Lloyd.cost (pointRows k.m_PointVector.length k.m_NumArgs.toNat k) a
        (meanRows k.m_CurrentMeans.length k.m_NumArgs.toNat k.mUpdateMeans.2) ∧
      cost { k with m_CurrentMeans := means } =
        Lloyd.cost (pointRows k.m_PointVector.length k.m_NumArgs.toNat k) a
          (meanRows k.m_CurrentMeans.length k.m_NumArgs.toNat { k with m_CurrentMeans := means }) := by
  obtain ⟨a, ha⟩ := exists_indexed (k := k) rfl h.assigned
  refine ⟨a, ha, ?_, ?_⟩
  · have ha' : Indexed k.mUpdateMeans.2 rfl a := ha
    exact ha'.cost_eq (mUpdateMeans_length k).symm h.shaped.points h.shaped.mUpdateMeans.means
  · have ha' : Indexed { k with m_CurrentMeans := means } rfl a := ha
    exact ha'.cost_eq hmeans.length.symm h.shaped.points hmeans.dimension

/-- No means cost less for the assignment than the ones `mUpdateMeans` makes. -/
theorem Clustered.update_le {k : KMeans T} (h : Clustered k) {means : List (MeanPoint T)}
    (hmeans : MeansChoice k means) : cost k.mUpdateMeans.2 ≤ cost { k with m_CurrentMeans := means } := by
  obtain ⟨a, ha, hafter, hother⟩ := h.update_cost hmeans
  rw [hafter, hother]
  exact (ha.centroid h.shaped h.points).cost_le _

/-- Where every mean has a point, moving a mean lowers the cost. -/
theorem Clustered.update_eq {k : KMeans T} (h : Clustered k) (hocc : GroupsOccupied k)
    (he : cost k.mUpdateMeans.2 = cost k) : k.mUpdateMeans.2.m_CurrentMeans = k.m_CurrentMeans := by
  obtain ⟨a, ha, hafter, hbefore⟩ := h.update_cost ⟨rfl, h.shaped.means⟩
  have hrows : meanRows k.m_CurrentMeans.length k.m_NumArgs.toNat k.mUpdateMeans.2 =
      meanRows k.m_CurrentMeans.length k.m_NumArgs.toNat k := by
    funext l
    by_contra hne
    -- The mean at `l` has a point, so it would cost more anywhere but at the centroid.
    obtain ⟨p, hgroup⟩ := List.exists_mem_of_ne_nil _ (hocc _ (List.get_mem k.m_CurrentMeans l))
    obtain ⟨hp, hindex⟩ := mem_group.1 hgroup
    obtain ⟨i, hi⟩ := List.get_of_mem hp
    have hal : a i = l := (ha.eq_iff h.shaped.labelled i l).2 (by rw [← hindex, ← hi]; rfl)
    have hlt := (ha.centroid h.shaped h.points).cost_lt ⟨i, hal⟩ hne
    rw [← hafter, ← hbefore] at hlt
    exact hlt.ne he
  refine means_ext (mUpdateMeans_labels k) (rows_inj (by simpa using mUpdateMeans_length k) (by simp) ?_ ?_ hrows)
  · exact List.forall_mem_map.2 h.shaped.mUpdateMeans.means
  · exact List.forall_mem_map.2 h.shaped.means

/-! ## Main theorem -/

/-- `k'` has the points of `k` assigned to its means, at the least cost there is. -/
structure BestAssigned (k k' : KMeans T) : Prop where
  means : k'.m_CurrentMeans = k.m_CurrentMeans
  assignment : Assignment k k'.m_PointVector
  descends : cost k' ≤ cost k
  least : ∀ ps, Assignment k ps → cost k' ≤ cost { k with m_PointVector := ps }

/-- `k'` has the points of `k` with their assignment, and the means that cost
the least for it. If the cost is that of `k` no mean has changed. -/
structure BestMeans (k k' : KMeans T) : Prop where
  points : k'.m_PointVector = k.m_PointVector
  labels : k'.m_CurrentMeans.map (·.m_Label) = k.m_CurrentMeans.map (·.m_Label)
  choice : MeansChoice k k'.m_CurrentMeans
  descends : cost k' ≤ cost k
  least : ∀ means, MeansChoice k means → cost k' ≤ cost { k with m_CurrentMeans := means }
  equal : cost k' = cost k → k'.m_CurrentMeans = k.m_CurrentMeans

theorem Clustered.bestAssigned {k : KMeans T} (h : Clustered k) : BestAssigned k k.mAssignAll.2 where
  means := rfl
  assignment := h.assignment
  descends := h.assign_le ⟨rfl, h.assigned⟩
  least _ := h.assign_le

theorem Clustered.bestMeans {k : KMeans T} (h : Clustered k) (hocc : GroupsOccupied k) :
    BestMeans k k.mUpdateMeans.2 where
  points := rfl
  labels := mUpdateMeans_labels k
  choice := ⟨mUpdateMeans_length k, h.shaped.mUpdateMeans.means⟩
  descends := h.update_le ⟨rfl, h.shaped.means⟩
  least _ := h.update_le
  equal := h.update_eq hocc

/-- Both halves of a round complete, the second where every mean has a point,
and each makes the best there is. -/
theorem round_descends {k : KMeans T} (h : Clustered k) :
    k.mAssignAll.1 = .ok () ∧ BestAssigned k k.mAssignAll.2 ∧
      (GroupsOccupied k.mAssignAll.2 → k.mAssignAll.2.mUpdateMeans.1 = .ok () ∧
        BestMeans k.mAssignAll.2 k.mAssignAll.2.mUpdateMeans.2) := by
  refine ⟨h.assigns, h.bestAssigned, fun hocc => ?_⟩
  have h' := h.mAssignAll
  exact ⟨by rw [h'.shaped.mUpdateMeans_eq], h'.bestMeans hocc⟩

/-- Two means drawn from three points: their round moves a mean and lowers the cost. -/
theorem threePoints_descends : ∃ k, run step (new 1) threePoints = some k ∧ BestAssigned k k.mAssignAll.2 ∧
    BestMeans k.mAssignAll.2 k.mAssignAll.2.mUpdateMeans.2 := by
  have hrun : (run step (new 1) threePoints).map (fun k => (k.m_PointVector.length,
      decide (∀ p ∈ k.m_PointVector, p.m_MeanIndex.toNat < k.m_CurrentMeans.length),
      decide (GroupsOccupied k.mAssignAll.2))) = some (3, true, true) := by decide +kernel
  obtain ⟨k, hk, hstate⟩ := Option.map_eq_some_iff.1 hrun
  simp only [Prod.mk.injEq, decide_eq_true_eq] at hstate
  obtain ⟨hlen, hassigned, hocc⟩ := hstate
  have hshaped := shaped_of_run hk (by decide +kernel) (by decide +kernel)
  obtain ⟨-, hassign, hupdate⟩ := round_descends ⟨hshaped, by omega, hassigned⟩
  exact ⟨k, hk, hassign, (hupdate hocc).2⟩

end Cost

end ProtocolLearner.KMeans
